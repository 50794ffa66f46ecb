import KeyBank.Browser.RoundTrip
import KeyBank.Browser.SizePrompt
import KeyBank.Server.Store

/-!
# The announced length of a link

While a note is written, `describeMessage` of `static/create.js` says how long its link will be,
from the constants of `static/link.js`. They agree with what makes the link: `hex.EncodeToString`
of 16 bytes, RSA-OAEP under a 4096-bit key, a 96-bit IV and the tag of AES-GCM, each in base64url
without padding. So the prediction is the length itself (`estimateLinkLength_eq`), and whether a
link fits in a QR code is known before there is one.
-/

namespace KeyBank

/-- `byteLength`. -/
def byteLength (value : JSString) : ℕ := (textEncode value).length

/-- `describeMessage`. -/
def describeMessage (env : Platform) (origin : Origin) (plaintext : JSString) : JSString :=
  if plaintext = [] then js "Short notes make short links."
  else
    let bytes := byteLength plaintext
    let linkLength := estimateLinkLength origin bytes
    let qr :=
      if linkLength ≤ qrCapacity then js "fits in a QR code" else js "too long for a QR code"
    plural env bytes "byte" ++ js " · link ≈ " ++ plural env linkLength "character" ++
      js " · " ++ qr

/-! ### The parts of a link -/

/-- **base64url.** The text of `n` bytes has `⌈4n/3⌉` characters, whatever `n` is modulo 3. -/
theorem length_sextets_eq (bytes : List UInt8) :
    (Base64.sextets bytes).length = base64URLLength bytes.length := by
  have hlength := Base64.length_sextets bytes
  rw [base64URLLength, Nat.ceilDiv_eq_add_pred_div]
  omega

private theorem hexDigit_text {n : ℕ} (h : n < 16) :
    String.utf8EncodeChar (Char.ofNat (hexDigit n).toNat) = [hexDigit n] ∧
      isComponentUnreserved (Char.ofNat (hexDigit n).toNat) = true ∧
      (Utf16.encodeChar (Char.ofNat (hexDigit n).toNat)).length = 1 ∧
      Char.ofNat (hexDigit n).toNat ≠ Utf8.bom := by
  have hall : ∀ n < 16, String.utf8EncodeChar (Char.ofNat (hexDigit n).toNat) = [hexDigit n] ∧
      isComponentUnreserved (Char.ofNat (hexDigit n).toNat) = true ∧
      (Utf16.encodeChar (Char.ofNat (hexDigit n).toNat)).length = 1 ∧
      Char.ofNat (hexDigit n).toNat ≠ Utf8.bom := by decide
  exact hall n h

/-- Hexadecimal digits are characters of one byte and one code unit that a path keeps as they
are. -/
private theorem hexEncodeToString_text (bytes : List UInt8) :
    ∃ cs, hexEncodeToString bytes = Utf8.encode cs ∧ (Utf16.encode cs).length = 2 * bytes.length ∧
      ∀ c ∈ cs, isComponentUnreserved c = true ∧ c ≠ Utf8.bom := by
  induction bytes with
  | nil => exact ⟨[], rfl, rfl, nofun⟩
  | cons b bytes ih =>
    obtain ⟨cs, hcs, hlength, hall⟩ := ih
    have hb := b.toNat_lt
    obtain ⟨hutf8, hkept, hunit, hbom⟩ := hexDigit_text (n := b.toNat / 16) (by omega)
    obtain ⟨hutf8', hkept', hunit', hbom'⟩ := hexDigit_text (n := b.toNat % 16) (by omega)
    refine ⟨Char.ofNat (hexDigit (b.toNat / 16)).toNat ::
      Char.ofNat (hexDigit (b.toNat % 16)).toNat :: cs, ?_, ?_, ?_⟩
    · rw [hexEncodeToString, List.flatMap_cons, ← hexEncodeToString, hcs, Utf8.encode, Utf8.encode,
        List.flatMap_cons, List.flatMap_cons, hutf8, hutf8']
      rfl
    · rw [Utf16.encode_cons, Utf16.encode_cons, List.length_append, List.length_append, hunit,
        hunit', hlength, List.length_cons]
      omega
    · rw [List.forall_mem_cons, List.forall_mem_cons]
      exact ⟨⟨hkept, hbom⟩, ⟨hkept', hbom'⟩, hall⟩

/-- An id of the server is 32 characters long, and stands in the path as it is. -/
theorem encodeURIComponent_randomID {draw : Option (Vector UInt8 16)} {id : GoString}
    (h : randomID draw = some id) :
    encodeURIComponent (textDecode id) = .ok (textDecode id) ∧
      (textDecode id).length = idLength := by
  obtain ⟨bytes, rfl⟩ := isID_of_randomID h
  obtain ⟨cs, hcs, hlength, hall⟩ := hexEncodeToString_text bytes.toList
  have hbom : cs.head? ≠ some Utf8.bom := fun hhead =>
    (hall _ (List.mem_of_head? hhead)).2 rfl
  have hdecode : textDecode (hexEncodeToString bytes.toList) = Utf16.encode cs := by
    rw [hcs, textDecode, Utf8.decode_encode, Utf8.dropBOM_eq_self_iff.mpr hbom]
  have hkept : UrlText.percentEncode (fun c => !isComponentUnreserved c) cs = cs :=
    UrlText.percentEncode_of_notIn fun c hc => by rw [(hall c hc).1, Bool.not_true]
  rw [hdecode, encodeURIComponent, Utf16.decode_encode, if_pos rfl, hkept, hlength,
    Vector.length_toList]
  exact ⟨rfl, rfl⟩

/-! ### The length -/

section

variable {C : SubtleCrypto} {Pair : C.PublicKey → C.PrivateKey → Prop}
  {pk : C.PublicKey} {sk : C.PrivateKey} {pubPem : JSString} {draw : Option (Vector UInt8 16)}
  {id : GoString}

/-- **The prediction is exact**, for every note, origin and id. -/
theorem estimateLinkLength_eq (laws : C.Laws Pair) (hpair : Pair pk sk)
    (hpk : importRsaPublicKey C pubPem = .ok pk) (hid : randomID draw = some id)
    (rand : Randomness C) (origin : Origin) (plaintext : JSString) :
    ∃ url, (encryptMessage C rand pubPem plaintext >>= buildShareURL origin (textDecode id)) =
      .ok url ∧ estimateLinkLength origin (byteLength plaintext) = url.length := by
  obtain ⟨wrapped, hwrapped, hlength, -⟩ :=
    laws.rsa hpair rand.seed (C.exportRaw rand.aesKey) (laws.length_exportRaw _)
  obtain ⟨heid, hidLength⟩ := encodeURIComponent_randomID hid
  have hiv : rand.iv.toList.length = 12 := Vector.length_toList
  have hct := laws.length_aesEncrypt rand.aesKey rand.iv.toList (textEncode plaintext)
  have hpattern {bytes : List UInt8} (h : bytes.length ≠ 0) :
      base64URLPattern ((Base64.sextets bytes).map symbolURL) = true :=
    pattern_symbolURL Base64.lt_of_mem_sextets (sextets_ne_nil fun hnil => h (by rw [hnil]; rfl))
  have hencrypt : encryptMessage C rand pubPem plaintext = _ := encryptMessage_eq hpk hwrapped
  rw [hencrypt]
  refine ⟨_, buildShareURL_eq heid (hpattern (by omega)) (hpattern (by omega))
    (hpattern (by omega)), ?_⟩
  simp only [estimateLinkLength, List.length_append, List.length_map, length_sextets_eq, hlength,
    hiv, hct, hidLength, byteLength, gcmTagBytes]
  have hwrappedLength : wrappedKeyLength = base64URLLength 512 := by decide
  have hivLength : ivLength = base64URLLength 12 := by decide
  rw [hwrappedLength, hivLength]

end

/-! ### The notes a link is made for -/

/-- The note of a call of the submit handler. -/
def Submission.note : Submission → Option JSString
  | .prompting plaintext _ => some plaintext
  | .fetching plaintext _ _ => some plaintext
  | .reading plaintext _ => some plaintext
  | .encrypting plaintext _ _ => some plaintext
  | .finished => none

namespace CreatePage

variable {env : Platform} {root : CreateRoot} {p p' : CreatePage} {e : CreateEvent env.crypto}

/-- No call has a blank note. -/
def NoBlank (p : CreatePage) : Prop :=
  ∀ s ∈ p.submissions, ∀ plaintext, s.note = some plaintext → trim plaintext ≠ []

/-- A blank note is not submitted. -/
private theorem submissions_of_blank {answer : Bool} (hblank : trim p.message = [])
    (h : p.step env root (.submit answer) = some p') : p'.submissions = p.submissions := by
  rw [step] at h
  split at h
  · cases h
  · obtain rfl := Option.some.inj h
    rw [onSubmit, if_pos hblank]
    rfl

private theorem NoBlank.concat (hp : p.NoBlank) {s : Submission}
    (heq : p'.submissions = p.submissions ++ [s])
    (hs : ∀ plaintext, s.note = some plaintext → trim plaintext ≠ []) : p'.NoBlank := by
  intro s' hs'
  rw [heq] at hs'
  obtain hmem | hmem := List.mem_append.mp hs'
  · exact hp s' hmem
  · obtain rfl := List.mem_singleton.mp hmem
    exact hs

/-- A call goes on with the note it had, or ends. -/
private theorem NoBlank.set (hp : p.NoBlank) {call : ℕ} {s s' : Submission}
    (hcall : p.submissions[call]? = some s) (heq : p'.submissions = p.submissions.set call s')
    (hnote : ∀ plaintext, s'.note = some plaintext → s.note = some plaintext) : p'.NoBlank := by
  intro s'' hs'' plaintext hplaintext
  rw [heq] at hs''
  obtain hmem | rfl := List.mem_or_eq_of_mem_set hs''
  · exact hp s'' hmem plaintext hplaintext
  · exact hp s (List.mem_of_getElem? hcall) plaintext (hnote plaintext hplaintext)

/-- **Step lemma.** -/
theorem NoBlank.step (hp : p.NoBlank) (mode : p.Mode) (h : p.step env root e = some p') :
    p'.NoBlank := by
  cases steps_of_step h with
  | typed | chosen | customTyped | renewed | unsent => exact hp
  | sent | prompted =>
    refine hp.concat rfl fun plaintext hplaintext hblank => ?_
    obtain rfl := Option.some.inj hplaintext
    exact absurd (submissions_of_blank hblank h) (by simp)
  | declined => exact hp.concat rfl fun _ => nofun
  | @closed answer hopen =>
    obtain ⟨call, plaintext, ttl, entry, view, hcall, -, heq⟩ := mode.closed hopen answer
    rw [heq]
    split
    · exact hp.set hcall rfl fun _ hnote => hnote
    · exact hp.set hcall rfl fun _ => nofun
  | replied hcall => exact hp.set hcall rfl fun _ hnote => hnote
  | keyed hcall => exact hp.set hcall rfl fun _ hnote => hnote
  | refused hcall | lost hcall | unreadable hcall | encrypted hcall =>
    exact hp.set hcall rfl fun _ => nofun

/-- **Run lemma.** No run makes a link for a blank note. -/
theorem noBlank_of_run {ledger : Ledger} {es : List (CreateEvent env.crypto)}
    (hrun : (createMachine env root).run (initCreatePage root ledger) es = some p) : p.NoBlank := by
  have hstep : ∀ (q : CreatePage) e q', q.Mode ∧ q.NoBlank →
      (createMachine env root).step q e = some q' → q'.Mode ∧ q'.NoBlank :=
    fun q e q' h hstep => ⟨h.1.step hstep, h.2.step h.1 hstep⟩
  exact (Machine.run_invariant hstep hrun ⟨mode_init root ledger, nofun⟩).2

end CreatePage

/-! ### What is announced -/

/-- What the last words of the description say. -/
theorem announces_iff (env : Platform) (origin : Origin) (plaintext : JSString) :
    js "fits in a QR code" <:+ describeMessage env origin plaintext ↔
      plaintext ≠ [] ∧ estimateLinkLength origin (byteLength plaintext) ≤ qrCapacity := by
  by_cases hnil : plaintext = []
  · have hshort : ¬ js "fits in a QR code" <:+ js "Short notes make short links." := by decide
    simp [describeMessage, hnil, hshort]
  rw [describeMessage, if_neg hnil]
  by_cases hfits : estimateLinkLength origin (byteLength plaintext) ≤ qrCapacity
  · simp only [hfits, if_true, hnil, ne_eq, not_false_eq_true, and_self, iff_true]
    exact List.suffix_append _ _
  · simp only [hfits, if_false, and_false, iff_false]
    intro hsuffix
    have hlong : ¬ js "fits in a QR code" <:+ js "too long for a QR code" := by decide
    exact hlong (List.suffix_of_suffix_length_le hsuffix (List.suffix_append _ _) (by decide))

/-- **The announced length of a link.** For a key of the server the prediction is the length of the
link, whatever the note and the origin are; and when a run of the create page shows a link, it was
announced to fit in a QR code exactly if it has no more characters than one holds. -/
theorem link_as_announced {env : Platform}
    {Pair : env.crypto.PublicKey → env.crypto.PrivateKey → Prop} (laws : env.crypto.Laws Pair)
    {pk : env.crypto.PublicKey} {sk : env.crypto.PrivateKey} (hpair : Pair pk sk)
    {pubPem : JSString} (hpk : importRsaPublicKey env.crypto pubPem = .ok pk)
    {draw : Option (Vector UInt8 16)} {id : GoString} (hid : randomID draw = some id) :
    (∀ rand origin plaintext, ∃ url,
      (encryptMessage env.crypto rand pubPem plaintext >>= buildShareURL origin (textDecode id)) =
        .ok url ∧ estimateLinkLength origin (byteLength plaintext) = url.length) ∧
    ∀ (root : CreateRoot) (ledger : Ledger) (es : List (CreateEvent env.crypto)) p call plaintext
        ttl rand qr p',
      (createMachine env root).run (initCreatePage root ledger) es = some p →
      p.submissions[call]? = some (.encrypting plaintext ttl ⟨textDecode id, pubPem⟩) →
      p.step env root (.encrypted call rand qr) = some p' →
        p'.resultHidden = false ∧
          (js "fits in a QR code" <:+ describeMessage env root.origin plaintext ↔
            p'.view.shareURL.length ≤ qrCapacity) := by
  refine ⟨estimateLinkLength_eq laws hpair hpk hid, ?_⟩
  intro root ledger es p call plaintext ttl rand qr p' hrun hcall hstep
  obtain ⟨url, hurl, hlength⟩ := estimateLinkLength_eq laws hpair hpk hid rand root.origin plaintext
  have hblank := CreatePage.noBlank_of_run hrun _ (List.mem_of_getElem? hcall) plaintext rfl
  have hne : plaintext ≠ [] := by
    rintro rfl
    exact hblank rfl
  simp only [CreatePage.step, hcall, CreatePage.onEncrypted, hurl, Option.some.injEq] at hstep
  rw [← hstep, announces_iff, hlength, and_iff_right hne]
  exact ⟨rfl, Iff.rfl⟩

/-- The reply of the server to a short note. -/
def zeroReply : KeyReply := ⟨textDecode (hexEncodeToString (List.replicate 16 0)), clearPublicPem⟩

/-- A short note, up to its encryption. -/
def shortNoteRun : List (CreateEvent SharePage.clearPlatform.crypto) :=
  [.input (js "a"), .submit true, .response 0 201, .json 0 (.ok zeroReply)]

theorem link_as_announced_shortNote :
    ∃ p p' : CreatePage, (createMachine SharePage.clearPlatform promptRoot).run
        (initCreatePage promptRoot []) shortNoteRun = some p ∧
      p.step SharePage.clearPlatform promptRoot (.encrypted 0 clearRandomness true) = some p' ∧
      (js "fits in a QR code" <:+
          describeMessage SharePage.clearPlatform promptRoot.origin (js "a") ↔
        p'.view.shareURL.length ≤ qrCapacity) := by
  have hpk : importRsaPublicKey clearCrypto clearPublicPem = .ok () :=
    importRsaPublicKey_eq pemToBytes_clearPublicPem
  have hid : randomID (some (Vector.replicate 16 0)) = some (hexEncodeToString
    (List.replicate 16 0)) := rfl
  have hrun : ∃ p, (createMachine SharePage.clearPlatform promptRoot).run
      (initCreatePage promptRoot []) shortNoteRun = some p ∧
        p.submissions[0]? = some (.encrypting (js "a") 86400 zeroReply) := ⟨_, rfl, rfl⟩
  obtain ⟨p, hrun, hcall⟩ := hrun
  have hstep : ∃ p', p.step SharePage.clearPlatform promptRoot
      (.encrypted 0 clearRandomness true) = some p' := by
    simp only [CreatePage.step, hcall]
    exact ⟨_, rfl⟩
  obtain ⟨p', hstep⟩ := hstep
  obtain ⟨-, hshown⟩ := @link_as_announced SharePage.clearPlatform (fun _ _ => True)
    clearCrypto_laws () () trivial _ hpk _ _ hid
  exact ⟨p, p', hrun, hstep, (hshown promptRoot [] _ p 0 _ _ _ _ p' hrun hcall hstep).2⟩

end KeyBank
