import KeyBank.Browser.Crypto
import Mathlib.Algebra.Order.Floor.Div

/-!
# The share link

`static/link.js`: `https://host/share/{id}#v=1&w={wrapped key}&i={iv}&c={ciphertext}`.

* `parseFragment_eq_ok_iff` says which fragments are accepted: the first values of `v`, `w`, `i`
  and `c` decide, the last three by the pattern alone.
* `buildShareURL_eq`: the link that is built from base64url text, written out.
* `parseFragment_hashOf_buildShareURL`: it is parsed back.
-/

namespace KeyBank

/-- `window.location.origin`: text without a `#`. -/
abbrev Origin : Type := { cs : List Char // '#' ∉ cs }

/-- `buildShareURL`. -/
def buildShareURL (origin : Origin) (id : JSString) (encrypted : Encrypted) :
    Except JSError JSString := do
  let fragment := URLSearchParams.ofRecord
    [(js "v", js "1"), (js "w", encrypted.wrapped), (js "i", encrypted.iv), (js "c", encrypted.ct)]
  return Utf16.encode origin.1 ++ js "/share/" ++ (← encodeURIComponent id) ++ js "#" ++
    fragment.toString

/-! ### The predicted length -/

/-- Byte capacity of the largest QR code at error-correction level M. -/
def qrCapacity : ℕ := 2331

def idLength : ℕ := 32
def wrappedKeyLength : ℕ := 683
def ivLength : ℕ := 16
def gcmTagBytes : ℕ := 16

/-- `base64URLLength`: `Math.ceil((bytes * 4) / 3)`. -/
def base64URLLength (bytes : ℕ) : ℕ := (bytes * 4) ⌈/⌉ 3

/-- `estimateLinkLength`. -/
def estimateLinkLength (origin : Origin) (plaintextBytes : ℕ) : ℕ :=
  (Utf16.encode origin.1 ++ js "/share/").length + idLength
    + (js "#v=1&w=").length + wrappedKeyLength
    + (js "&i=").length + ivLength
    + (js "&c=").length + base64URLLength (plaintextBytes + gcmTagBytes)

/-! ### Taking a link apart -/

/-- An absolute URL, as `new URL` takes it apart. Its fragment may be absent or empty. -/
structure URL where
  origin : Origin
  pathname : JSString
  /-- The query with its question mark: empty without a query, a lone question mark for an empty
  one. -/
  search : JSString
  fragment : Option JSString
  deriving DecidableEq

/-- `url.hash`: empty for an absent and for an empty fragment. -/
def URL.hash (url : URL) : JSString :=
  match url.fragment with
  | some (u :: s) => 35 :: u :: s
  | _ => []

/-- `splitShareURL`: what reaches the server and what stays in the browser. -/
def splitShareURL (url : URL) : JSString × JSString :=
  (Utf16.encode url.origin.1 ++ url.pathname, url.hash)

/-- `parseFragment`'s result. -/
structure Fragment where
  wrapped : JSString
  iv : JSString
  ct : JSString
  deriving DecidableEq

/-- The hash without its leading `#`. -/
def rawFragment (hash : JSString) : JSString := if hash.head? = some 35 then hash.tail else hash

/-- A value that is neither `null` nor empty. -/
def truthy : Option JSString → Option JSString
  | some s => if s = [] then none else some s
  | none => none

/-- `parseFragment`. -/
def parseFragment (hash : JSString) : Except JSError Fragment :=
  let raw := rawFragment hash
  if raw = [] then
    .error (.error (js "This share link is missing its encrypted fragment. Ask the sender for the complete link."))
  else
    let params := URLSearchParams.ofString raw
    if params.get "v" ≠ some (js "1") then
      .error (.error (js "This share link uses an unsupported fragment version."))
    else
      match truthy (params.get "w"), truthy (params.get "i"), truthy (params.get "c") with
      | some wrapped, some iv, some ct =>
        match [("wrapped key", wrapped), ("IV", iv), ("ciphertext", ct)].find? fun entry =>
            !base64URLPattern entry.2 with
        | some (name, _) =>
          .error (.error (js ("The " ++ name ++ " in this share link is malformed.")))
        | none => .ok ⟨wrapped, iv, ct⟩
      | _, _, _ =>
        .error (.error (js "This share link is missing encrypted data. Ask the sender for the complete link."))

/-! ### What is accepted -/

private theorem truthy_of_pattern {o : Option JSString} {s : JSString} (h : o = some s)
    (hpattern : base64URLPattern s = true) : truthy o = some s := by
  have hne : s ≠ [] := by
    rintro rfl
    exact absurd hpattern (by decide)
  rw [h, truthy, if_neg hne]

private theorem truthy_eq_some {o : Option JSString} {s : JSString} (h : truthy o = some s) :
    o = some s := by
  rcases o with _ | t
  · exact absurd h nofun
  · rw [truthy] at h
    split at h
    · exact absurd h nofun
    · exact h

/-- **What is accepted.** The version is 1 and each of the three values is text of the
pattern. -/
theorem parseFragment_eq_ok_iff {hash : JSString} {f : Fragment} :
    parseFragment hash = .ok f ↔
      URLSearchParams.get (.ofString (rawFragment hash)) "v" = some (js "1") ∧
      (URLSearchParams.get (.ofString (rawFragment hash)) "w" = some f.wrapped ∧
        base64URLPattern f.wrapped = true) ∧
      (URLSearchParams.get (.ofString (rawFragment hash)) "i" = some f.iv ∧
        base64URLPattern f.iv = true) ∧
      URLSearchParams.get (.ofString (rawFragment hash)) "c" = some f.ct ∧
        base64URLPattern f.ct = true := by
  constructor
  · intro h
    simp only [parseFragment] at h
    split at h
    · exact absurd h nofun
    split at h
    · exact absurd h nofun
    · next hversion =>
      refine ⟨not_not.mp hversion, ?_⟩
      split at h
      · next wrapped iv ct hw hi hc =>
        split at h
        · exact absurd h nofun
        · next hfind =>
          obtain rfl := Except.ok.inj h
          -- No value was found that fails the pattern.
          simp only [List.find?_eq_none, List.forall_mem_cons, Bool.not_eq_true,
            Bool.not_eq_false'] at hfind
          exact ⟨⟨truthy_eq_some hw, hfind.1⟩, ⟨truthy_eq_some hi, hfind.2.1⟩,
            truthy_eq_some hc, hfind.2.2.1⟩
      · exact absurd h nofun
  · rintro ⟨hv, ⟨hw, hwp⟩, ⟨hi, hip⟩, hc, hcp⟩
    have hraw : rawFragment hash ≠ [] := by
      intro hraw
      rw [hraw] at hv
      exact absurd hv (by decide)
    have hfind : [("wrapped key", f.wrapped), ("IV", f.iv), ("ciphertext", f.ct)].find?
        (fun entry => !base64URLPattern entry.2) = none := by
      simp [hwp, hip, hcp]
    simp only [parseFragment, if_neg hraw, hv, ne_eq, not_true_eq_false, if_false,
      truthy_of_pattern hw hwp, truthy_of_pattern hi hip, truthy_of_pattern hc hcp, hfind]

/-! ### Round trip -/

/-- Text of the pattern needs no escaping, neither in a form nor in a fragment. -/
theorem exists_plain_of_pattern {s : JSString} (h : base64URLPattern s = true) :
    ∃ cs : List Char, s = Utf16.encode cs ∧
      ∀ c ∈ cs, UrlText.isUnreserved c = true ∧ UrlText.isPlainFragment c = true := by
  have hall : ∀ v < 64, (UrlText.isUnreserved (Char.ofNat (symbolURL v).toNat) = true ∧
      UrlText.isPlainFragment (Char.ofNat (symbolURL v).toNat) = true) ∧
      Utf16.encodeChar (Char.ofNat (symbolURL v).toNat) = [symbolURL v] := by decide +kernel
  obtain ⟨vs, hvs, rfl⟩ := exists_sextets_of_pattern h
  refine ⟨vs.map fun v => Char.ofNat (symbolURL v).toNat, ?_, ?_⟩
  · clear h
    induction vs with
    | nil => rfl
    | cons v vs ih =>
      rw [List.forall_mem_cons] at hvs
      rw [List.map_cons, List.map_cons, Utf16.encode_cons, (hall v hvs.1).2, ← ih hvs.2]
      rfl
  · intro c hc
    obtain ⟨v, hv, rfl⟩ := List.mem_map.mp hc
    exact (hall v (hvs v hv)).1

/-- The parameters of a share link. -/
private def linkPairs (cw ci cc : List Char) : List (List Char × List Char) :=
  [(['v'], ['1']), (['w'], cw), (['i'], ci), (['c'], cc)]

private theorem ofRecord_link (cw ci cc : List Char) :
    URLSearchParams.ofRecord [(js "v", js "1"), (js "w", Utf16.encode cw),
      (js "i", Utf16.encode ci), (js "c", Utf16.encode cc)] = linkPairs cw ci cc := by
  have hname : ∀ s ∈ ["v", "1", "w", "i", "c"], Utf16.decode (js s) = s.toList := fun s _ =>
    Utf16.decode_encode _
  simp [URLSearchParams.ofRecord, hname, linkPairs]

section

variable {cw ci cc : List Char} (hw : ∀ c ∈ cw, UrlText.isUnreserved c = true)
  (hi : ∀ c ∈ ci, UrlText.isUnreserved c = true) (hc : ∀ c ∈ cc, UrlText.isUnreserved c = true)
include hw hi hc

/-- The fragment of a share link, written out. -/
private theorem serialize_link : UrlText.serialize (linkPairs cw ci cc) =
    'v' :: '=' :: '1' :: '&' :: 'w' :: '=' :: cw ++ '&' :: 'i' :: '=' :: ci ++
      '&' :: 'c' :: '=' :: cc := by
  have hname : UrlText.formEncode ['v'] = ['v'] ∧ UrlText.formEncode ['1'] = ['1'] ∧
      UrlText.formEncode ['w'] = ['w'] ∧ UrlText.formEncode ['i'] = ['i'] ∧
      UrlText.formEncode ['c'] = ['c'] := by decide
  simp [linkPairs, UrlText.serialize, UrlText.formEncode_of_unreserved hw,
    UrlText.formEncode_of_unreserved hi, UrlText.formEncode_of_unreserved hc, hname,
    List.intercalate_cons_cons]

/-- The fragment of a share link, read as a form. -/
private theorem ofString_link :
    URLSearchParams.ofString (Utf16.encode (UrlText.serialize (linkPairs cw ci cc))) =
      linkPairs cw ci cc := by
  have hhead : (UrlText.serialize (linkPairs cw ci cc)).head? ≠ some '?' := by
    rw [serialize_link hw hi hc]
    simp
  have hname : UrlText.isUnreserved 'v' = true ∧ UrlText.isUnreserved '1' = true ∧
      UrlText.isUnreserved 'w' = true ∧ UrlText.isUnreserved 'i' = true ∧
      UrlText.isUnreserved 'c' = true := by decide
  rw [URLSearchParams.ofString, Utf16.decode_encode]
  simp only [if_neg hhead]
  refine UrlText.parse_serialize (by simp [linkPairs]) ?_
  simp only [linkPairs, List.forall_mem_cons, hname, true_and]
  exact ⟨⟨nofun, nofun⟩, ⟨nofun, hw⟩, ⟨nofun, hi⟩, ⟨nofun, hc⟩, nofun⟩

end

/-- The hash of a share link is its fragment, whatever the origin and the id. -/
private theorem hashOf_link {origin : Origin} {path frag : List Char} (hpath : '#' ∉ path)
    (hne : frag ≠ []) (hfrag : ∀ c ∈ frag, UrlText.isPlainFragment c = true) :
    hashOf (Utf16.encode origin.1 ++ js "/share/" ++ Utf16.encode path ++ js "#" ++
      Utf16.encode frag) = Utf16.encode ('#' :: frag) := by
  have hslash : '#' ∉ "/share/".toList := by decide
  have hbefore : '#' ∉ origin.1 ++ "/share/".toList ++ path := by
    rw [List.mem_append, List.mem_append]
    exact fun hmem => hmem.elim (fun hmem => hmem.elim origin.2 hslash) hpath
  have hurl : Utf16.encode origin.1 ++ js "/share/" ++ Utf16.encode path ++ js "#" ++
      Utf16.encode frag =
        Utf16.encode (origin.1 ++ "/share/".toList ++ path ++ '#' :: frag) := by
    simp only [Utf16.encode_append, List.append_assoc]
    rfl
  rw [hurl, hashOf, Utf16.decode_encode, UrlText.fragment_of_plain hbefore hne hfrag]
  exact if_neg hne

/-- A share link is its origin, a path without a `#` and the form of its parameters. -/
private theorem buildShareURL_eq_ok {origin : Origin} {id url : JSString} {cw ci cc : List Char}
    (hurl : buildShareURL origin id ⟨Utf16.encode cw, Utf16.encode ci, Utf16.encode cc⟩ =
      .ok url) :
    ∃ path, '#' ∉ path ∧ url = Utf16.encode origin.1 ++ js "/share/" ++ Utf16.encode path ++
      js "#" ++ Utf16.encode (UrlText.serialize (linkPairs cw ci cc)) := by
  obtain ⟨path, hpath, hencode⟩ : ∃ path, '#' ∉ path ∧
      encodeURIComponent id = .ok (Utf16.encode path) := by
    rw [buildShareURL] at hurl
    rw [encodeURIComponent] at hurl ⊢
    split at hurl
    · next hid =>
      rw [if_pos hid]
      exact ⟨_, UrlText.notMem_percentEncode (by decide) (by decide) _, rfl⟩
    · exact absurd hurl nofun
  refine ⟨path, hpath, ?_⟩
  rw [buildShareURL, hencode, ofRecord_link] at hurl
  exact (Except.ok.inj hurl).symm

/-- A link built from base64url text, written out. -/
theorem buildShareURL_eq {origin : Origin} {id eid : JSString} {encrypted : Encrypted}
    (hid : encodeURIComponent id = .ok eid) (hw : base64URLPattern encrypted.wrapped = true)
    (hi : base64URLPattern encrypted.iv = true) (hc : base64URLPattern encrypted.ct = true) :
    buildShareURL origin id encrypted = .ok (Utf16.encode origin.1 ++ js "/share/" ++ eid ++
      js "#v=1&w=" ++ encrypted.wrapped ++ js "&i=" ++ encrypted.iv ++ js "&c=" ++
        encrypted.ct) := by
  obtain ⟨wrapped, iv, ct⟩ := encrypted
  obtain ⟨cw, rfl, hcw⟩ := exists_plain_of_pattern hw
  obtain ⟨ci, rfl, hci⟩ := exists_plain_of_pattern hi
  obtain ⟨cc, rfl, hcc⟩ := exists_plain_of_pattern hc
  have hwritten := serialize_link (fun c hc => (hcw c hc).1) (fun c hc => (hci c hc).1)
    fun c hc => (hcc c hc).1
  rw [buildShareURL, hid, ofRecord_link]
  refine congrArg Except.ok ?_
  rw [URLSearchParams.toString, hwritten]
  simp only [Utf16.encode_append, Utf16.encode_cons, List.cons_append, List.append_assoc]
  rfl

/-- **Round trip.** A link built from base64url text is parsed back to this text. -/
theorem parseFragment_hashOf_buildShareURL {origin : Origin} {id url : JSString}
    {encrypted : Encrypted} (hw : base64URLPattern encrypted.wrapped = true)
    (hi : base64URLPattern encrypted.iv = true) (hc : base64URLPattern encrypted.ct = true)
    (hurl : buildShareURL origin id encrypted = .ok url) :
    parseFragment (hashOf url) = .ok ⟨encrypted.wrapped, encrypted.iv, encrypted.ct⟩ := by
  obtain ⟨wrapped, iv, ct⟩ := encrypted
  obtain ⟨cw, rfl, hcw⟩ := exists_plain_of_pattern hw
  obtain ⟨ci, rfl, hci⟩ := exists_plain_of_pattern hi
  obtain ⟨cc, rfl, hcc⟩ := exists_plain_of_pattern hc
  have huw : ∀ c ∈ cw, UrlText.isUnreserved c = true := fun c hc => (hcw c hc).1
  have hui : ∀ c ∈ ci, UrlText.isUnreserved c = true := fun c hc => (hci c hc).1
  have huc : ∀ c ∈ cc, UrlText.isUnreserved c = true := fun c hc => (hcc c hc).1
  have hwritten := serialize_link huw hui huc
  have hplain : ∀ c ∈ UrlText.serialize (linkPairs cw ci cc),
      UrlText.isPlainFragment c = true := by
    have hsep : ['v', '=', '1', '&', 'w', 'i', 'c'].all UrlText.isPlainFragment = true := by
      decide
    rw [List.all_eq_true] at hsep
    intro c hmem
    rw [hwritten] at hmem
    simp only [List.mem_append, List.mem_cons] at hmem hsep
    grind
  have hne : UrlText.serialize (linkPairs cw ci cc) ≠ [] := by
    rw [hwritten]
    simp
  obtain ⟨path, hpath, rfl⟩ := buildShareURL_eq_ok hurl
  have hraw : rawFragment (Utf16.encode ('#' :: UrlText.serialize (linkPairs cw ci cc))) =
      Utf16.encode (UrlText.serialize (linkPairs cw ci cc)) := rfl
  -- The hash is the form of the parameters, and its first values are those written.
  rw [hashOf_link hpath hne hplain, parseFragment_eq_ok_iff, hraw, ofString_link huw hui huc]
  have hget : (linkPairs cw ci cc).lookup "v".toList = some ['1'] ∧
      (linkPairs cw ci cc).lookup "w".toList = some cw ∧
      (linkPairs cw ci cc).lookup "i".toList = some ci ∧
      (linkPairs cw ci cc).lookup "c".toList = some cc := by
    refine ⟨?_, ?_, ?_, ?_⟩ <;> simp [linkPairs, List.lookup_cons]
  refine ⟨?_, ⟨?_, hw⟩, ⟨?_, hi⟩, ?_, hc⟩
  · exact congrArg (Option.map Utf16.encode) hget.1
  · exact congrArg (Option.map Utf16.encode) hget.2.1
  · exact congrArg (Option.map Utf16.encode) hget.2.2.1
  · exact congrArg (Option.map Utf16.encode) hget.2.2.2

end KeyBank
