import KeyBank.Browser.JS

/-!
# Encryption in the browser

`static/crypto.js`. The Web Crypto functions are the parameter `SubtleCrypto`; what is assumed of
them is `SubtleCrypto.Laws`. Random values are arguments. A rejected promise is an error, so an
asynchronous function that only awaits one promise after another is a function into `Except`.
-/

namespace KeyBank

/-! ### Web Crypto -/

/-- The functions of `crypto.subtle` that are used, each with the algorithm it is used with. -/
structure SubtleCrypto where
  PublicKey : Type
  PrivateKey : Type
  AesKey : Type
  /-- `importKey("spki", …)`, `importKey("pkcs8", …)` and `importKey("raw", …)`. -/
  importSpki : List UInt8 → Option PublicKey
  importPkcs8 : List UInt8 → Option PrivateKey
  importRaw : List UInt8 → Option AesKey
  /-- `exportKey("raw", …)`. -/
  exportRaw : AesKey → List UInt8
  /-- `RSA-OAEP`; encryption is randomised by a seed. -/
  rsaEncrypt : PublicKey → List UInt8 → List UInt8 → Option (List UInt8)
  rsaDecrypt : PrivateKey → List UInt8 → Option (List UInt8)
  /-- `AES-GCM` under an IV. -/
  aesEncrypt : AesKey → List UInt8 → List UInt8 → List UInt8
  aesDecrypt : AesKey → List UInt8 → List UInt8 → Option (List UInt8)

/-- What is assumed of Web Crypto, `Pair` being the matching pairs of RSA-4096 keys. -/
structure SubtleCrypto.Laws (C : SubtleCrypto) (Pair : C.PublicKey → C.PrivateKey → Prop) :
    Prop where
  /-- An exported AES-256 key has 32 bytes and is imported as the same key. -/
  length_exportRaw : ∀ k, (C.exportRaw k).length = 32
  importRaw_exportRaw : ∀ k, C.importRaw (C.exportRaw k) = some k
  /-- RSA-OAEP encrypts 32 bytes to 512, which the matching private key decrypts. -/
  rsa : ∀ {pk sk}, Pair pk sk → ∀ seed m, m.length = 32 →
    ∃ c, C.rsaEncrypt pk seed m = some c ∧ c.length = 512 ∧ C.rsaDecrypt sk c = some m
  /-- AES-GCM adds a tag of 16 bytes, and decryption undoes encryption under the same IV. -/
  length_aesEncrypt : ∀ k iv m, (C.aesEncrypt k iv m).length = m.length + 16
  aes : ∀ k iv m, iv.length = 12 → C.aesDecrypt k iv (C.aesEncrypt k iv m) = some m

/-- Cryptography that hides nothing: the texts are only padded to their lengths. -/
def clearCrypto : SubtleCrypto where
  PublicKey := Unit
  PrivateKey := Unit
  AesKey := Vector UInt8 32
  importSpki _ := some ()
  importPkcs8 _ := some ()
  importRaw bytes := if h : bytes.length = 32 then some ⟨bytes.toArray, by simpa using h⟩ else none
  exportRaw k := k.toList
  rsaEncrypt _ _ m := some (m ++ List.replicate (512 - m.length) 0)
  rsaDecrypt _ c := some (c.take 32)
  aesEncrypt _ _ m := m ++ List.replicate 16 0
  aesDecrypt _ _ c := some (c.take (c.length - 16))

/-- The laws ask for no secrecy, so they can be met. -/
theorem clearCrypto_laws : clearCrypto.Laws fun _ _ => True where
  length_exportRaw _ := Vector.length_toList
  importRaw_exportRaw k := by
    have hlength : k.toList.length = 32 := Vector.length_toList
    simp only [clearCrypto, hlength, dite_true]
    rfl
  rsa _ _ m hm := by
    refine ⟨m ++ List.replicate (512 - m.length) 0, rfl, ?_, ?_⟩
    · rw [List.length_append, List.length_replicate]
      omega
    · exact congrArg some (List.take_left' hm)
  length_aesEncrypt _ _ m := by simp [clearCrypto]
  aes _ _ m _ := by simp [clearCrypto]

/-- A promise of Web Crypto, rejected with an exception. -/
def settled {α : Type} : Option α → Except JSError α
  | some a => .ok a
  | none => .error (.platform "OperationError")

@[simp] theorem settled_some {α : Type} (a : α) : settled (some a) = .ok a := rfl

@[simp] theorem settled_none {α : Type} :
    settled (none : Option α) = .error (.platform "OperationError") := rfl

/-! ### Base64 -/

/-- `base64URLPattern.test`: one or more of `A-Z`, `a-z`, `0-9`, `_`, `-`, and nothing else. -/
def base64URLPattern (s : JSString) : Bool :=
  s != [] && s.all fun u => (65 ≤ u.toNat && u.toNat ≤ 90) || (97 ≤ u.toNat && u.toNat ≤ 122) ||
    (48 ≤ u.toNat && u.toNat ≤ 57) || u.toNat = 95 || u.toNat = 45

/-- A chunk size: with a chunk of length zero the loop over the chunks would not end. -/
abbrev ChunkSize : Type := { n : ℕ // 0 < n }

/-- `chunkSizeForPlaintext`. -/
def chunkSizeForPlaintext (plaintextByteLength : ℕ) : ChunkSize :=
  if plaintextByteLength ≤ 0x80 then ⟨0x80, by decide⟩
  else if plaintextByteLength ≤ 0x800 then ⟨0x800, by decide⟩
  else ⟨0x8000, by decide⟩

/-- The loop of `bytesToBase64` from index `i` on. -/
def chunkLoop (bytes : List UInt8) (chunkSize : ChunkSize) : ℕ → ℕ → JSString → JSString
  | 0, _, binary => binary
  | fuel + 1, i, binary =>
    if i < bytes.length then
      chunkLoop bytes chunkSize fuel (i + chunkSize)
        (binary ++ fromCharCode (slice bytes i (i + chunkSize)))
    else binary

/-- `bytesToBase64`. -/
def bytesToBase64 (bytes : List UInt8) (chunkSize : ChunkSize) : Except JSError JSString :=
  btoa (chunkLoop bytes chunkSize bytes.length 0 [])

/-- `base64ToBytes`. -/
def base64ToBytes (base64 : JSString) : Except JSError (List UInt8) := do
  let normalized := replaceAll 95 47 (replaceAll 45 43 base64)
  let padLength := if normalized.length % 4 = 0 then 0 else 4 - normalized.length % 4
  let binary ← atob (normalized ++ List.replicate padLength 61)
  return charCodes binary

/-- `bytesToBase64URL`. -/
def bytesToBase64URL (bytes : List UInt8) (chunkSize : ChunkSize) : Except JSError JSString := do
  let base64 ← bytesToBase64 bytes chunkSize
  return (replaceAll 47 95 (replaceAll 43 45 base64)).rdropWhile (· = 61)

/-- `base64URLToBytes`. -/
def base64URLToBytes (value : JSString) : Except JSError (List UInt8) :=
  if base64URLPattern value then base64ToBytes value
  else .error (.error (js "Invalid base64url data."))

/-! ### PEM -/

/-- `pemToBytes`. -/
def pemToBytes (pem : JSString) (label : String) : Except JSError (List UInt8) :=
  let beginMarker := js ("-----BEGIN " ++ label ++ "-----")
  let endMarker := js ("-----END " ++ label ++ "-----")
  match indexOf beginMarker pem, indexOf endMarker pem with
  | some beginIndex, some endIndex =>
    if endIndex ≤ beginIndex then .error (.error (js ("Missing " ++ label ++ " PEM block.")))
    else
      let body := (slice pem (beginIndex + beginMarker.length) endIndex).filter fun u =>
        !isWhite u
      if body = [] then .error (.error (js ("Empty " ++ label ++ " PEM block.")))
      else base64ToBytes body
  | _, _ => .error (.error (js ("Missing " ++ label ++ " PEM block.")))

/-! ### Encrypting and decrypting -/

/-- `encryptMessage`'s result. -/
structure Encrypted where
  wrapped : JSString
  iv : JSString
  ct : JSString
  deriving DecidableEq

/-- The random values of one encryption: the AES key, the IV and the seed of RSA-OAEP. -/
structure Randomness (C : SubtleCrypto) where
  aesKey : C.AesKey
  iv : Vector UInt8 12
  seed : List UInt8

variable (C : SubtleCrypto)

/-- `importRsaPublicKey`. -/
def importRsaPublicKey (pem : JSString) : Except JSError C.PublicKey := do
  settled (C.importSpki (← pemToBytes pem "PUBLIC KEY"))

/-- `importRsaPrivateKey`. -/
def importRsaPrivateKey (pem : JSString) : Except JSError C.PrivateKey := do
  settled (C.importPkcs8 (← pemToBytes pem "PRIVATE KEY"))

variable {C} in
theorem importRsaPublicKey_eq {pem : JSString} {spki : List UInt8}
    (h : pemToBytes pem "PUBLIC KEY" = .ok spki) :
    importRsaPublicKey C pem = settled (C.importSpki spki) := by
  rw [importRsaPublicKey, h]
  rfl

variable {C} in
theorem importRsaPrivateKey_eq {pem : JSString} {pkcs8 : List UInt8}
    (h : pemToBytes pem "PRIVATE KEY" = .ok pkcs8) :
    importRsaPrivateKey C pem = settled (C.importPkcs8 pkcs8) := by
  rw [importRsaPrivateKey, h]
  rfl

/-- `encryptMessage`. -/
def encryptMessage (rand : Randomness C) (pubPem plaintext : JSString) :
    Except JSError Encrypted := do
  let publicKey ← importRsaPublicKey C pubPem
  let plaintextBytes := textEncode plaintext
  -- The chunk size follows the UTF-8 length of the plaintext.
  let chunkSize := chunkSizeForPlaintext plaintextBytes.length
  let ciphertext := C.aesEncrypt rand.aesKey rand.iv.toList plaintextBytes
  let rawKey := C.exportRaw rand.aesKey
  let wrapped ← settled (C.rsaEncrypt publicKey rand.seed rawKey)
  return {
    wrapped := ← bytesToBase64URL wrapped chunkSize
    iv := ← bytesToBase64URL rand.iv.toList chunkSize
    ct := ← bytesToBase64URL ciphertext chunkSize }

/-- `decryptMessage`. -/
def decryptMessage (privPem wrapped iv ct : JSString) : Except JSError JSString := do
  let privateKey ← importRsaPrivateKey C privPem
  let rawKey ← settled (C.rsaDecrypt privateKey (← base64URLToBytes wrapped))
  let aesKey ← settled (C.importRaw rawKey)
  let ivBytes ← base64URLToBytes iv
  let plaintext ← settled (C.aesDecrypt aesKey ivBytes (← base64URLToBytes ct))
  return textDecode plaintext

/-! ### The base64url text of bytes -/

/-- The base64url character of a sextet. -/
def symbolURL (v : ℕ) : UInt16 :=
  if v = 62 then 45 else if v = 63 then 95 else Base64.symbol v

/-- **The chunk loop.** Whatever the chunk size, it ends with every byte covered once. -/
theorem chunkLoop_eq {bytes : List UInt8} {chunkSize : ChunkSize} {fuel i : ℕ}
    {binary : JSString} (hfuel : bytes.length ≤ i + fuel) :
    chunkLoop bytes chunkSize fuel i binary = binary ++ fromCharCode (bytes.drop i) := by
  induction fuel generalizing i binary with
  | zero =>
    rw [chunkLoop, List.drop_eq_nil_of_le (by omega)]
    simp [fromCharCode]
  | succ fuel ih =>
    rw [chunkLoop]
    split
    · have hpos := chunkSize.2
      have hchunk : slice bytes i (i + chunkSize) = (bytes.drop i).take chunkSize := by
        rw [slice, Nat.add_sub_cancel_left]
      rw [ih (by omega), hchunk, ← List.drop_drop, List.append_assoc, ← fromCharCode_append,
        List.take_append_drop]
    · rw [List.drop_eq_nil_of_le (by omega)]
      simp [fromCharCode]

private theorem symbol_symbolURL {v : ℕ} (h : v < 64) :
    (if (if symbolURL v = 45 then 43 else symbolURL v) = 95 then 47
        else if symbolURL v = 45 then 43 else symbolURL v) = Base64.symbol v ∧
      (if (if Base64.symbol v = 43 then 45 else Base64.symbol v) = 47 then 95
        else if Base64.symbol v = 43 then 45 else Base64.symbol v) = symbolURL v ∧
      symbolURL v ≠ 61 := by
  have hall : ∀ v < 64, (if (if symbolURL v = 45 then 43 else symbolURL v) = 95 then 47
        else if symbolURL v = 45 then 43 else symbolURL v) = Base64.symbol v ∧
      (if (if Base64.symbol v = 43 then 45 else Base64.symbol v) = 47 then 95
        else if Base64.symbol v = 43 then 45 else Base64.symbol v) = symbolURL v ∧
      symbolURL v ≠ 61 := by decide
  exact hall v h

/-- Replacing the two special characters turns one alphabet into the other. -/
theorem normalize_symbolURL {vs : List ℕ} (h : ∀ v ∈ vs, v < 64) :
    replaceAll 95 47 (replaceAll 45 43 (vs.map symbolURL)) = vs.map Base64.symbol := by
  rw [replaceAll, replaceAll, List.map_map, List.map_map]
  exact List.map_congr_left fun v hv => (symbol_symbolURL (h v hv)).1

theorem denormalize_symbol {vs : List ℕ} (h : ∀ v ∈ vs, v < 64) :
    replaceAll 47 95 (replaceAll 43 45 (vs.map Base64.symbol)) = vs.map symbolURL := by
  rw [replaceAll, replaceAll, List.map_map, List.map_map]
  exact List.map_congr_left fun v hv => (symbol_symbolURL (h v hv)).2.1

private theorem rdropWhile_pad (n : ℕ) {s : JSString} (h : ∀ u ∈ s, u ≠ 61) :
    (s ++ List.replicate n 61).rdropWhile (· = 61) = s := by
  induction n with
  | zero =>
    rw [List.replicate_zero, List.append_nil, List.rdropWhile_eq_self_iff]
    intro hne
    simpa using h _ (List.getLast_mem hne)
  | succ n ih =>
    rw [List.replicate_succ', ← List.append_assoc, List.rdropWhile_concat_pos _ _ _ (by decide)]
    exact ih

/-- The text of bytes is the text of their sextets, whatever the chunk size. -/
theorem bytesToBase64URL_eq (bytes : List UInt8) (chunkSize : ChunkSize) :
    bytesToBase64URL bytes chunkSize = .ok ((Base64.sextets bytes).map symbolURL) := by
  have hbtoa : bytesToBase64 bytes chunkSize = .ok (Base64.encode bytes) := by
    have hall : (fromCharCode bytes).all (fun u => u < 256) = true := by
      rw [List.all_eq_true]
      intro u hu
      obtain ⟨b, -, rfl⟩ := List.mem_map.mp hu
      rw [decide_eq_true_eq, UInt16.lt_iff_toNat_lt]
      exact b.toNat_lt
    rw [bytesToBase64, chunkLoop_eq (by omega), List.drop_zero, List.nil_append, btoa,
      if_pos hall, charCodes_fromCharCode]
  have hlt : ∀ v ∈ Base64.sextets bytes, v < 64 := Base64.lt_of_mem_sextets
  have hpad (n : ℕ) : replaceAll 47 95 (replaceAll 43 45 (List.replicate n Base64.pad)) =
      List.replicate n 61 := by
    simp [replaceAll, Base64.pad]
  have hreplace (s t : JSString) : replaceAll 47 95 (replaceAll 43 45 (s ++ t)) =
      replaceAll 47 95 (replaceAll 43 45 s) ++ replaceAll 47 95 (replaceAll 43 45 t) := by
    simp [replaceAll]
  have hsymbol : ∀ u ∈ (Base64.sextets bytes).map symbolURL, u ≠ 61 := by
    intro u hu
    obtain ⟨v, hv, rfl⟩ := List.mem_map.mp hu
    exact (symbol_symbolURL (hlt v hv)).2.2
  rw [bytesToBase64URL, hbtoa]
  refine congrArg Except.ok ?_
  rw [Base64.encode, hreplace, denormalize_symbol hlt, hpad, rdropWhile_pad _ hsymbol]

private theorem pattern_char {u : UInt16}
    (h : (65 ≤ u.toNat && u.toNat ≤ 90 || 97 ≤ u.toNat && u.toNat ≤ 122 ||
      48 ≤ u.toNat && u.toNat ≤ 57 || u.toNat = 95 || u.toNat = 45 : Bool) = true) :
    ∃ v < 64, symbolURL v = u := by
  have hall : ∀ n < 123, (65 ≤ n && n ≤ 90 || 97 ≤ n && n ≤ 122 || 48 ≤ n && n ≤ 57 ||
      n = 95 || n = 45 : Bool) = true → ∃ v < 64, (symbolURL v).toNat = n := by decide +kernel
  have hu : u.toNat < 123 := by
    simp only [Bool.or_eq_true, Bool.and_eq_true, decide_eq_true_eq] at h
    omega
  obtain ⟨v, hv, huv⟩ := hall u.toNat hu h
  exact ⟨v, hv, UInt16.toNat_inj.mp huv⟩

/-- Text of the pattern is the text of some sextets. -/
theorem exists_sextets_of_pattern {s : JSString} (h : base64URLPattern s = true) :
    ∃ vs : List ℕ, (∀ v ∈ vs, v < 64) ∧ s = vs.map symbolURL := by
  rw [base64URLPattern, Bool.and_eq_true] at h
  obtain ⟨-, hall⟩ := h
  induction s with
  | nil => exact ⟨[], nofun, rfl⟩
  | cons u s ih =>
    rw [List.all_cons, Bool.and_eq_true] at hall
    obtain ⟨vs, hvs, rfl⟩ := ih hall.2
    obtain ⟨v, hv, rfl⟩ := pattern_char hall.1
    exact ⟨v :: vs, List.forall_mem_cons.mpr ⟨hv, hvs⟩, rfl⟩

/-- The text of some sextets, not empty, is text of the pattern. -/
theorem pattern_symbolURL {vs : List ℕ} (h : ∀ v ∈ vs, v < 64) (hne : vs ≠ []) :
    base64URLPattern (vs.map symbolURL) = true := by
  have hall : ∀ v < 64, ((65 ≤ (symbolURL v).toNat && (symbolURL v).toNat ≤ 90) ||
      (97 ≤ (symbolURL v).toNat && (symbolURL v).toNat ≤ 122) ||
      (48 ≤ (symbolURL v).toNat && (symbolURL v).toNat ≤ 57) ||
      (symbolURL v).toNat = 95 || (symbolURL v).toNat = 45 : Bool) = true := by decide
  rw [base64URLPattern, Bool.and_eq_true, List.all_eq_true]
  refine ⟨?_, ?_⟩
  · simp [hne]
  · intro u hu
    obtain ⟨v, hv, rfl⟩ := List.mem_map.mp hu
    exact hall v (h v hv)

/-- **Decoding.** Text of the pattern is decoded exactly when its length is not 1 modulo 4. -/
theorem base64URLToBytes_symbolURL {vs : List ℕ} (h : ∀ v ∈ vs, v < 64) (hne : vs ≠ []) :
    base64URLToBytes (vs.map symbolURL) =
      if vs.length % 4 = 1 then .error (.platform "InvalidCharacterError")
      else .ok (Base64.ofSextets vs) := by
  have hpadLength : (if vs.length % 4 = 0 then 0 else 4 - vs.length % 4) =
      (4 - vs.length % 4) % 4 := by
    split <;> omega
  have hatob : atob (vs.map Base64.symbol ++ List.replicate ((4 - vs.length % 4) % 4) 61) =
      if vs.length % 4 = 1 then .error (.platform "InvalidCharacterError")
      else .ok (fromCharCode (Base64.ofSextets vs)) := by
    have hdecode := Base64.forgivingDecode_padded h
    rw [Base64.pad] at hdecode
    rw [atob, hdecode]
    by_cases hmod : vs.length % 4 = 1
    · rw [if_pos hmod, if_pos hmod]
    · rw [if_neg hmod, if_neg hmod]
  rw [base64URLToBytes, if_pos (pattern_symbolURL h hne), base64ToBytes,
    normalize_symbolURL h]
  simp only [List.length_map, hpadLength, hatob]
  split
  · rfl
  · exact congrArg Except.ok (charCodes_fromCharCode _)

/-- A value is decoded exactly when it is text of the pattern and no length of 1 modulo 4. -/
theorem base64URLToBytes_isOk_iff {s : JSString} (h : base64URLPattern s = true) :
    (∃ bytes, base64URLToBytes s = .ok bytes) ↔ s.length % 4 ≠ 1 := by
  obtain ⟨vs, hvs, rfl⟩ := exists_sextets_of_pattern h
  have hne : vs ≠ [] := by
    rintro rfl
    exact absurd h (by decide)
  rw [base64URLToBytes_symbolURL hvs hne, List.length_map]
  split <;> rename_i hmod
  · simp [hmod]
  · simp [hmod]

theorem sextets_ne_nil {bytes : List UInt8} (hne : bytes ≠ []) : Base64.sextets bytes ≠ [] := by
  have hlength := Base64.length_sextets bytes
  have hpos := List.length_pos_iff.mpr hne
  rw [← List.length_pos_iff]
  omega

/-- **Round trip.** Bytes, unless there are none, are read back from their text. -/
theorem base64URLToBytes_sextets {bytes : List UInt8} (hne : bytes ≠ []) :
    base64URLToBytes ((Base64.sextets bytes).map symbolURL) = .ok bytes := by
  have hlength := Base64.length_sextets bytes
  have hmod : (Base64.sextets bytes).length % 4 ≠ 1 := by omega
  rw [base64URLToBytes_symbolURL Base64.lt_of_mem_sextets (sextets_ne_nil hne), if_neg hmod,
    Base64.ofSextets_sextets]

end KeyBank
