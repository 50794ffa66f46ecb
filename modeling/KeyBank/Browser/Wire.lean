import KeyBank.Browser.RoundTrip

/-!
# The wire format

What a share link carries, byte for byte.

* `wire_round_trip`: three byte strings, put into a link as base64url text, are read back from it.
  The text depends neither on the chunk size nor on anything that the form format could escape. An
  id with a lone surrogate has no link, because `encodeURIComponent` throws.
* `atob` discards the bits of the last character that no byte needs, so several texts stand for
  the same bytes (`base64URLToBytes_eq_iff`). A link that differs from the original in nothing else
  is decrypted like the original, and every other link is rejected (`throws_iff_tampered`).
-/

namespace KeyBank

/-! ### Round trip -/

/-- What the text of some bytes is like. -/
structure IsWireText (bytes : List UInt8) (chunkSize : ChunkSize) (text : JSString) : Prop where
  encoded : bytesToBase64URL bytes chunkSize = .ok text
  /-- The chunk size makes no difference. -/
  independent : ∀ chunkSize', bytesToBase64URL bytes chunkSize' = .ok text
  /-- The chunk loop ends, with every byte covered once and in order. -/
  covered : ∀ fuel, bytes.length ≤ fuel → chunkLoop bytes chunkSize fuel 0 [] = fromCharCode bytes
  /-- The form format leaves every character alone. -/
  unescaped : ∀ c ∈ Utf16.decode text, UrlText.isUnreserved c = true
  decoded : base64URLToBytes text = .ok bytes

theorem pattern_sextets {bytes : List UInt8} (hne : bytes ≠ []) :
    base64URLPattern ((Base64.sextets bytes).map symbolURL) = true :=
  pattern_symbolURL Base64.lt_of_mem_sextets (sextets_ne_nil hne)

theorem isWireText {bytes : List UInt8} (hne : bytes ≠ []) (chunkSize : ChunkSize) :
    IsWireText bytes chunkSize ((Base64.sextets bytes).map symbolURL) where
  encoded := bytesToBase64URL_eq bytes chunkSize
  independent := bytesToBase64URL_eq bytes
  covered fuel hfuel := by
    rw [chunkLoop_eq (by omega), List.drop_zero, List.nil_append]
  unescaped := by
    obtain ⟨cs, hcs, hplain⟩ := exists_plain_of_pattern (pattern_sextets hne)
    rw [hcs, Utf16.decode_encode]
    exact fun c hc => (hplain c hc).1
  decoded := base64URLToBytes_sextets hne

/-- An id with a lone surrogate is an error. -/
theorem buildShareURL_of_not_wellFormed {origin : Origin} {id : JSString} (encrypted : Encrypted)
    (hid : ¬ Utf16.WellFormed id) :
    buildShareURL origin id encrypted = .error (.platform "URIError") := by
  have hthrows : encodeURIComponent id = .error (.platform "URIError") := by
    rw [encodeURIComponent, if_neg]
    exact fun h => hid ⟨_, h.symm⟩
  rw [buildShareURL, hthrows]
  rfl

/-- Any other id has a link. -/
theorem exists_buildShareURL (origin : Origin) {id : JSString} (encrypted : Encrypted)
    (hid : Utf16.WellFormed id) : ∃ url, buildShareURL origin id encrypted = .ok url := by
  obtain ⟨encoded, hencoded⟩ := encodeURIComponent_of_wellFormed hid
  rw [buildShareURL, hencoded]
  exact ⟨_, rfl⟩

/-- **Round trip on bytes.** Whatever the bytes, the chunk size and the origin, the link of an id
without lone surrogates is parsed to three texts that are decoded to the bytes. -/
theorem wire_round_trip {W I C : List UInt8} (hW : W ≠ []) (hI : I ≠ []) (hC : C ≠ [])
    (k : ChunkSize) (id : JSString) (origin : Origin) :
    ∃ w i c, IsWireText W k w ∧ IsWireText I k i ∧ IsWireText C k c ∧
      (Utf16.WellFormed id → ∃ url f, buildShareURL origin id ⟨w, i, c⟩ = .ok url ∧
        parseFragment (hashOf url) = .ok f ∧ base64URLToBytes f.wrapped = .ok W ∧
        base64URLToBytes f.iv = .ok I ∧ base64URLToBytes f.ct = .ok C) ∧
      (¬ Utf16.WellFormed id →
        buildShareURL origin id ⟨w, i, c⟩ = .error (.platform "URIError")) := by
  refine ⟨_, _, _, isWireText hW k, isWireText hI k, isWireText hC k, fun hid => ?_,
    buildShareURL_of_not_wellFormed _⟩
  obtain ⟨url, hurl⟩ := exists_buildShareURL origin
    ⟨(Base64.sextets W).map symbolURL, (Base64.sextets I).map symbolURL,
      (Base64.sextets C).map symbolURL⟩ hid
  have hparse := parseFragment_hashOf_buildShareURL (pattern_sextets hW) (pattern_sextets hI)
    (pattern_sextets hC) hurl
  exact ⟨url, _, hurl, hparse, base64URLToBytes_sextets hW, base64URLToBytes_sextets hI,
    base64URLToBytes_sextets hC⟩

/-- Three bytes under a chunk size that does not divide their number. -/
theorem wire_round_trip_threeBytes :
    ∃ w i c, IsWireText [0, 255, 16] ⟨2, by decide⟩ w ∧ IsWireText [1] ⟨2, by decide⟩ i ∧
      IsWireText [2, 3] ⟨2, by decide⟩ c ∧
      (Utf16.WellFormed (js "00") → ∃ url f,
        buildShareURL localOrigin (js "00") ⟨w, i, c⟩ = .ok url ∧
        parseFragment (hashOf url) = .ok f ∧ base64URLToBytes f.wrapped = .ok [0, 255, 16] ∧
        base64URLToBytes f.iv = .ok [1] ∧ base64URLToBytes f.ct = .ok [2, 3]) ∧
      (¬ Utf16.WellFormed (js "00") →
        buildShareURL localOrigin (js "00") ⟨w, i, c⟩ = .error (.platform "URIError")) :=
  wire_round_trip (by decide) (by decide) (by decide) ⟨2, by decide⟩ (js "00") localOrigin

/-- An id that is a lone surrogate: there is no link to parse. -/
theorem wire_loneSurrogate :
    bytesToBase64URL [0] ⟨1, by decide⟩ = .ok (js "AA") ∧
      buildShareURL localOrigin [0xD800] ⟨js "AA", js "AA", js "AA"⟩ =
        .error (.platform "URIError") :=
  ⟨bytesToBase64URL_eq _ _, rfl⟩

/-! ### Unused bits -/

/-- The six bits of a base64url character. -/
def valueURL (u : UInt16) : ℕ :=
  (Base64.value (if u = 45 then 43 else if u = 95 then 47 else u)).getD 0

/-- Two texts that are equal but for the unused low bits of their last characters: four bits if
the length is 2 modulo 4, two if it is 3. -/
def sameUsed (s t : JSString) : Bool := Base64.sameUsed (s.map valueURL) (t.map valueURL)

/-- A text in whose last character the unused bits are zero. -/
def unusedClear (s : JSString) : Bool :=
  (s.getLast?.map valueURL).all fun v => v % Base64.spare s.length = 0

theorem valueURL_symbolURL {v : ℕ} (h : v < 64) : valueURL (symbolURL v) = v := by
  have hall : ∀ v < 64, valueURL (symbolURL v) = v := by decide
  exact hall v h

theorem map_valueURL_symbolURL {vs : List ℕ} (h : ∀ v ∈ vs, v < 64) :
    (vs.map symbolURL).map valueURL = vs := by
  rw [List.map_map]
  calc _ = vs.map id := List.map_congr_left fun v hv => valueURL_symbolURL (h v hv)
    _ = vs := List.map_id _

/-- **Same bytes.** A text of the pattern is decoded like the text of some bytes exactly when it
is this text but for the unused bits. -/
theorem base64URLToBytes_eq_iff {s : JSString} {bytes : List UInt8}
    (hs : base64URLPattern s = true) :
    base64URLToBytes s = .ok bytes ↔
      sameUsed ((Base64.sextets bytes).map symbolURL) s = true := by
  obtain ⟨vs, hvs, rfl⟩ := exists_sextets_of_pattern hs
  have hvs' : vs ≠ [] := by
    rintro rfl
    exact absurd hs (by decide)
  have hlength := Base64.length_sextets bytes
  have hmod : (Base64.sextets bytes).length % 4 ≠ 1 := by omega
  rw [base64URLToBytes_symbolURL hvs hvs', sameUsed, map_valueURL_symbolURL hvs,
    map_valueURL_symbolURL Base64.lt_of_mem_sextets]
  split
  · next hone =>
    -- A length of 1 modulo 4 is not the length of the text of any bytes.
    refine iff_of_false nofun fun hsame => hmod ?_
    rw [Base64.sameUsed, Bool.and_eq_true, Bool.and_eq_true, decide_eq_true_eq] at hsame
    rw [hsame.1.1, hone]
  · next hone =>
    rw [← Base64.ofSextets_eq_iff Base64.lt_of_mem_sextets hvs hmod hone,
      Base64.ofSextets_sextets, Except.ok.injEq, eq_comm]

/-- **Decode, then encode.** An accepted text comes back exactly when its unused bits are zero. -/
theorem bytesToBase64URL_decoded_iff {s : JSString} {bytes : List UInt8} (k : ChunkSize)
    (h : base64URLToBytes s = .ok bytes) :
    bytesToBase64URL bytes k = .ok s ↔ unusedClear s = true := by
  have hs : base64URLPattern s = true := by
    rw [base64URLToBytes] at h
    split at h
    · assumption
    · cases h
  obtain ⟨vs, hvs, rfl⟩ := exists_sextets_of_pattern hs
  have hvs' : vs ≠ [] := by
    rintro rfl
    exact absurd hs (by decide)
  rw [base64URLToBytes_symbolURL hvs hvs'] at h
  split at h
  · cases h
  · next hmod =>
    obtain rfl := Except.ok.inj h
    have hclear : ((vs.map symbolURL).getLast?.map valueURL) = vs.getLast? := by
      rw [← List.getLast?_map, map_valueURL_symbolURL hvs]
    rw [bytesToBase64URL_eq, Base64.sextets_ofSextets hvs hmod, Except.ok.injEq, unusedClear,
      hclear, List.length_map, ← Base64.clearSpare_eq_self_iff]
    constructor
    · intro heq
      rw [← Base64.sextets_ofSextets hvs hmod] at heq ⊢
      rw [← map_valueURL_symbolURL Base64.lt_of_mem_sextets, heq, map_valueURL_symbolURL hvs]
    · intro heq
      rw [heq]

/-! ### Tampering -/

/-- The values of two links are equal but for the unused bits. -/
def Fragment.sameUsed (f g : Fragment) : Bool :=
  KeyBank.sameUsed f.wrapped g.wrapped && KeyBank.sameUsed f.iv g.iv && KeyBank.sameUsed f.ct g.ct

/-- What is assumed of the two algorithms: they open what was sealed under the keys of one link,
and reject every wrapped key, IV and ciphertext with other bytes. -/
structure Seals (C : SubtleCrypto) (sk : C.PrivateKey) (key : C.AesKey)
    (wrapped iv ct : List UInt8) : Prop where
  length_wrapped : wrapped.length = 512
  length_iv : iv.length = 12
  length_ct : 16 ≤ ct.length
  opensKey : C.rsaDecrypt sk wrapped = some (C.exportRaw key)
  importsKey : C.importRaw (C.exportRaw key) = some key
  opensText : ∃ bytes, C.aesDecrypt key iv ct = some bytes
  rejectsKey : ∀ wrapped', wrapped' ≠ wrapped → C.rsaDecrypt sk wrapped' = none
  rejectsText : ∀ iv' ct', ¬ (iv' = iv ∧ ct' = ct) → C.aesDecrypt key iv' ct' = none

variable {C : SubtleCrypto}

theorem Seals.ne_nil {sk : C.PrivateKey} {key : C.AesKey} {wrapped iv ct : List UInt8}
    (h : Seals C sk key wrapped iv ct) : wrapped ≠ [] ∧ iv ≠ [] ∧ ct ≠ [] := by
  have hct := h.length_ct
  simp only [← List.length_pos_iff, h.length_wrapped, h.length_iv]
  omega

theorem exists_eq_error_iff {ε α : Type} {x : Except ε α} :
    (∃ e, x = .error e) ↔ ¬ ∃ a, x = .ok a := by
  rcases x with e | a
  · exact iff_of_true ⟨e, rfl⟩ nofun
  · exact iff_of_false nofun fun h => h ⟨a, rfl⟩

/-- Texts that are decoded to the sealed bytes are decrypted. -/
theorem Seals.decryptMessage_eq {privPem w i c : JSString} {sk : C.PrivateKey} {key : C.AesKey}
    {wrapped iv ct bytes : List UInt8} (hseals : Seals C sk key wrapped iv ct)
    (hsk : importRsaPrivateKey C privPem = .ok sk) (hw : base64URLToBytes w = .ok wrapped)
    (hi : base64URLToBytes i = .ok iv) (hc : base64URLToBytes c = .ok ct)
    (hbytes : C.aesDecrypt key iv ct = some bytes) :
    decryptMessage C privPem w i c = .ok (textDecode bytes) := by
  simp only [decryptMessage, hsk, bind, Except.bind, hw, hseals.opensKey, settled_some,
    hseals.importsKey, hi, hc, hbytes]
  rfl

/-- Decryption returns exactly when the three texts are decoded to the bytes that were sealed. -/
theorem decryptMessage_isOk_iff {privPem : JSString} {sk : C.PrivateKey} {key : C.AesKey}
    {wrapped iv ct : List UInt8} (hsk : importRsaPrivateKey C privPem = .ok sk)
    (hseals : Seals C sk key wrapped iv ct) (w i c : JSString) :
    (∃ plaintext, decryptMessage C privPem w i c = .ok plaintext) ↔
      base64URLToBytes w = .ok wrapped ∧ base64URLToBytes i = .ok iv ∧
        base64URLToBytes c = .ok ct := by
  constructor
  · rintro ⟨plaintext, h⟩
    simp only [decryptMessage, hsk, bind, Except.bind] at h
    rcases hw : base64URLToBytes w with err | wrapped'
    · simp [hw] at h
    · obtain rfl : wrapped' = wrapped := by
        by_contra hne
        simp [hw, hseals.rejectsKey _ hne] at h
      simp only [hw, hseals.opensKey, settled_some, hseals.importsKey] at h
      rcases hi : base64URLToBytes i with err | iv'
      · simp [hi] at h
      · rcases hc : base64URLToBytes c with err | ct'
        · simp [hi, hc] at h
        · have hsame : iv' = iv ∧ ct' = ct := by
            by_contra hne
            simp [hi, hc, hseals.rejectsText _ _ hne] at h
          rw [hsame.1, hsame.2]
          exact ⟨rfl, rfl, rfl⟩
  · rintro ⟨hw, hi, hc⟩
    obtain ⟨bytes, hbytes⟩ := hseals.opensText
    exact ⟨textDecode bytes, hseals.decryptMessage_eq hsk hw hi hc hbytes⟩

/-- **Tampering.** A link that the page accepts is rejected by decryption exactly when it differs
from the original in more than the unused bits. -/
theorem throws_iff_tampered {rand : Randomness C} {origin : Origin}
    {id pubPem privPem plaintext url hash : JSString} {pk : C.PublicKey} {sk : C.PrivateKey}
    {wrapped : List UInt8} {encrypted : Encrypted} {original f : Fragment}
    (hpk : importRsaPublicKey C pubPem = .ok pk) (hsk : importRsaPrivateKey C privPem = .ok sk)
    (hwrapped : C.rsaEncrypt pk rand.seed (C.exportRaw rand.aesKey) = some wrapped)
    (hseals : Seals C sk rand.aesKey wrapped rand.iv.toList
      (C.aesEncrypt rand.aesKey rand.iv.toList (textEncode plaintext)))
    (hencrypted : encryptMessage C rand pubPem plaintext = .ok encrypted)
    (hurl : buildShareURL origin id encrypted = .ok url)
    (horiginal : parseFragment (hashOf url) = .ok original) (hf : parseFragment hash = .ok f) :
    ((∃ err, decryptMessage C privPem f.wrapped f.iv f.ct = .error err) ↔
      original.sameUsed f = false) ∧
    ∀ (s : JSString) (bytes : List UInt8) (k : ChunkSize), base64URLToBytes s = .ok bytes →
      (bytesToBase64URL bytes k = .ok s ↔ unusedClear s = true) := by
  refine ⟨?_, fun s bytes k => bytesToBase64URL_decoded_iff k⟩
  obtain ⟨hW, hI, hC⟩ := hseals.ne_nil
  -- The original link carries the texts of the sealed bytes.
  rw [encryptMessage_eq hpk hwrapped, Except.ok.injEq] at hencrypted
  subst hencrypted
  rw [parseFragment_hashOf_buildShareURL (pattern_sextets hW) (pattern_sextets hI)
    (pattern_sextets hC) hurl, Except.ok.injEq] at horiginal
  subst horiginal
  obtain ⟨-, ⟨-, hw⟩, ⟨-, hi⟩, -, hc⟩ := parseFragment_eq_ok_iff.mp hf
  have hok := decryptMessage_isOk_iff hsk hseals f.wrapped f.iv f.ct
  rw [base64URLToBytes_eq_iff hw, base64URLToBytes_eq_iff hi, base64URLToBytes_eq_iff hc] at hok
  rw [exists_eq_error_iff, hok, Fragment.sameUsed, ← Bool.not_eq_true, Bool.and_eq_true,
    Bool.and_eq_true, and_assoc]

/-- A key of 32 bytes as `clearCrypto` wraps it. -/
def sealedWrapped : List UInt8 := List.replicate 32 7 ++ List.replicate 480 0

/-- Cryptography that has sealed one note and opens nothing else. -/
def sealedCrypto (note : JSString) : SubtleCrypto :=
  { clearCrypto with
    rsaDecrypt := fun _ c => if c = sealedWrapped then some (List.replicate 32 7) else none
    aesDecrypt := fun _ iv c =>
      if iv = List.replicate 12 9 ∧ c = textEncode note ++ List.replicate 16 0 then
        some (textEncode note)
      else none }

/-- The random values of `clearRandomness`. -/
def sealedRandomness (note : JSString) : Randomness (sealedCrypto note) where
  aesKey := (Vector.replicate 32 7 : Vector UInt8 32)
  iv := Vector.replicate 12 9
  seed := []

private theorem sealedCrypto_rsaDecrypt (note : JSString) (c : List UInt8) :
    (sealedCrypto note).rsaDecrypt () c =
      if c = sealedWrapped then some (List.replicate 32 7) else none := rfl

private theorem sealedCrypto_aesDecrypt (note : JSString) (iv c : List UInt8) :
    (sealedCrypto note).aesDecrypt (sealedRandomness note).aesKey iv c =
      if iv = List.replicate 12 9 ∧ c = textEncode note ++ List.replicate 16 0 then
        some (textEncode note)
      else none := rfl

/-- What is sealed: the note, padded. -/
private theorem sealedCrypto_aesEncrypt (note : JSString) :
    (sealedCrypto note).aesEncrypt (sealedRandomness note).aesKey
      (sealedRandomness note).iv.toList (textEncode note) =
        textEncode note ++ List.replicate 16 0 := rfl

theorem sealedCrypto_seals (note : JSString) :
    Seals (sealedCrypto note) () (sealedRandomness note).aesKey sealedWrapped
      (sealedRandomness note).iv.toList
      ((sealedCrypto note).aesEncrypt (sealedRandomness note).aesKey
        (sealedRandomness note).iv.toList (textEncode note)) where
  length_wrapped := by
    rw [sealedWrapped, List.length_append, List.length_replicate, List.length_replicate]
  length_iv := rfl
  length_ct := by
    rw [sealedCrypto_aesEncrypt, List.length_append, List.length_replicate]
    exact Nat.le_add_left _ _
  opensKey := by
    rw [sealedCrypto_rsaDecrypt, if_pos rfl]
    rfl
  importsKey := rfl
  opensText := by
    refine ⟨textEncode note, ?_⟩
    rw [sealedCrypto_aesEncrypt, sealedCrypto_aesDecrypt]
    exact if_pos ⟨rfl, rfl⟩
  rejectsKey c hne := by rw [sealedCrypto_rsaDecrypt, if_neg hne]
  rejectsText iv c hne := by
    rw [sealedCrypto_aesDecrypt]
    exact if_neg hne

/-- The note of the browser test on tampering. -/
def testNote : JSString := js "tamper detection"

/-- The texts of its link; the unused bits are those of the last character of `ct`. -/
def testWrapped : JSString :=
  (Base64.sextets sealedWrapped).map symbolURL

def testEncrypted : Encrypted where
  wrapped := testWrapped
  iv := js "CQkJCQkJCQkJCQkJ"
  ct := js "dGFtcGVyIGRldGVjdGlvbgAAAAAAAAAAAAAAAAAAAAA"

private theorem rsaEncrypt_testNote :
    (sealedCrypto testNote).rsaEncrypt () [] ((sealedCrypto testNote).exportRaw
      (sealedRandomness testNote).aesKey) =
        some sealedWrapped := rfl

private theorem encryptMessage_testNote :
    encryptMessage (sealedCrypto testNote) (sealedRandomness testNote) clearPublicPem testNote =
      .ok testEncrypted := by
  have hpk : importRsaPublicKey (sealedCrypto testNote) clearPublicPem = .ok () :=
    importRsaPublicKey_eq pemToBytes_clearPublicPem
  have hiv : (Base64.sextets (sealedRandomness testNote).iv.toList).map symbolURL =
      testEncrypted.iv := by decide +kernel
  have hct : (Base64.sextets ((sealedCrypto testNote).aesEncrypt
      (sealedRandomness testNote).aesKey (sealedRandomness testNote).iv.toList
        (textEncode testNote))).map symbolURL = testEncrypted.ct := by decide +kernel
  rw [encryptMessage_eq hpk rsaEncrypt_testNote, hiv, hct]
  rfl

/-- The link of the note. -/
private theorem link_testNote (ct : JSString) (hct : base64URLPattern ct = true) :
    ∃ url, buildShareURL localOrigin (js "00") { testEncrypted with ct } = .ok url ∧
      parseFragment (hashOf url) = .ok ⟨testWrapped, testEncrypted.iv, ct⟩ := by
  have hid : Utf16.WellFormed (js "00") := ⟨_, rfl⟩
  obtain ⟨url, hurl⟩ := exists_buildShareURL localOrigin { testEncrypted with ct } hid
  have hw : base64URLPattern testWrapped = true :=
    pattern_sextets (sealedCrypto_seals testNote).ne_nil.1
  have hi : base64URLPattern testEncrypted.iv = true := by decide
  exact ⟨url, hurl, @parseFragment_hashOf_buildShareURL localOrigin (js "00") url
    ⟨testWrapped, testEncrypted.iv, ct⟩ hw hi hct hurl⟩

/-- A link cut down to other values of the same note is rejected. -/
theorem throws_otherLink :
    ∃ url original f, buildShareURL localOrigin (js "00") testEncrypted = .ok url ∧
      parseFragment (hashOf url) = .ok original ∧
      parseFragment (js "#v=1&w=AAAA&i=AAAA&c=AAAA") = .ok f ∧
      ((∃ err, decryptMessage (sealedCrypto testNote) clearPrivatePem f.wrapped f.iv f.ct =
          .error err) ↔ original.sameUsed f = false) ∧
      ∀ (s : JSString) (bytes : List UInt8) (k : ChunkSize), base64URLToBytes s = .ok bytes →
        (bytesToBase64URL bytes k = .ok s ↔ unusedClear s = true) := by
  obtain ⟨url, hurl, horiginal⟩ := link_testNote testEncrypted.ct (by decide)
  have hf : parseFragment (js "#v=1&w=AAAA&i=AAAA&c=AAAA") =
      .ok ⟨js "AAAA", js "AAAA", js "AAAA"⟩ := parseFragment_eq_ok_iff.mpr (by decide +kernel)
  refine ⟨url, _, _, hurl, horiginal, hf, ?_⟩
  exact throws_iff_tampered (C := sealedCrypto testNote)
    (importRsaPublicKey_eq pemToBytes_clearPublicPem)
    (importRsaPrivateKey_eq pemToBytes_clearPrivatePem) rsaEncrypt_testNote
    (sealedCrypto_seals testNote) encryptMessage_testNote hurl horiginal hf

/-- The browser test's own tampering: the last character of the ciphertext, an A, becomes a B. The
link is accepted and decrypted all the same. -/
theorem throws_lastCharacter :
    Seals (sealedCrypto testNote) () (sealedRandomness testNote).aesKey
      sealedWrapped (sealedRandomness testNote).iv.toList
      ((sealedCrypto testNote).aesEncrypt (sealedRandomness testNote).aesKey
        (sealedRandomness testNote).iv.toList (textEncode testNote)) ∧
    encryptMessage (sealedCrypto testNote) (sealedRandomness testNote) clearPublicPem testNote =
      .ok testEncrypted ∧
    ∃ url original hash f, buildShareURL localOrigin (js "00") testEncrypted = .ok url ∧
      parseFragment (hashOf url) = .ok original ∧ parseFragment hash = .ok f ∧
      original.ct = js "dGFtcGVyIGRldGVjdGlvbgAAAAAAAAAAAAAAAAAAAAA" ∧
      f = { original with ct := js "dGFtcGVyIGRldGVjdGlvbgAAAAAAAAAAAAAAAAAAAAB" } ∧
      f ≠ original ∧
      decryptMessage (sealedCrypto testNote) clearPrivatePem f.wrapped f.iv f.ct =
        .ok testNote := by
  refine ⟨sealedCrypto_seals testNote, encryptMessage_testNote, ?_⟩
  obtain ⟨url, hurl, horiginal⟩ := link_testNote testEncrypted.ct (by decide)
  obtain ⟨url', -, hf⟩ :=
    link_testNote (js "dGFtcGVyIGRldGVjdGlvbgAAAAAAAAAAAAAAAAAAAAB") (by decide)
  refine ⟨url, _, hashOf url', _, hurl, horiginal, hf, rfl, rfl, ?_, ?_⟩
  · intro heq
    exact absurd (congrArg Fragment.ct heq) (by decide)
  · have hw : base64URLToBytes testWrapped = .ok sealedWrapped :=
      base64URLToBytes_sextets (sealedCrypto_seals testNote).ne_nil.1
    have hi : base64URLToBytes testEncrypted.iv = .ok (List.replicate 12 9) := by decide +kernel
    have hc : base64URLToBytes (js "dGFtcGVyIGRldGVjdGlvbgAAAAAAAAAAAAAAAAAAAAB") =
        .ok (textEncode testNote ++ List.replicate 16 0) := by decide +kernel
    have hsk : importRsaPrivateKey (sealedCrypto testNote) clearPrivatePem = .ok () :=
      importRsaPrivateKey_eq pemToBytes_clearPrivatePem
    have htext : textDecode (textEncode testNote) = testNote := by decide +kernel
    have hplain : (sealedCrypto testNote).aesDecrypt (sealedRandomness testNote).aesKey
        (List.replicate 12 9) (textEncode testNote ++ List.replicate 16 0) =
          some (textEncode testNote) := by
      rw [sealedCrypto_aesDecrypt]
      exact if_pos ⟨rfl, rfl⟩
    refine Eq.trans ?_ (congrArg Except.ok htext)
    exact (sealedCrypto_seals testNote).decryptMessage_eq hsk hw hi hc hplain

end KeyBank
