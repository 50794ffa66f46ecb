import KeyBank.Browser.Create
import KeyBank.Foundation.Json
import KeyBank.Server.Marshal

/-!
# The reply of `createKey`

`response.json()` on what `json.Marshal` wrote. The server's strings are bytes and the page's are
code units; between them lies a text with the escapes of the one encoder, read by the other's
decoder.

* `jsonParse` is `JSON.parse`. The reader works on bytes, so what is outside ASCII is escaped first:
  inside a string an escape says the same as the unit, and anywhere else both are errors.
* `reply_comes_through` says that the id and the public key do, whatever they are.
-/

namespace KeyBank

open Json

/-! ### `JSON.parse` -/

/-- A hexadecimal digit. -/
def hexByte (n : ℕ) : UInt8 := UInt8.ofNat (if n < 10 then 48 + n else 87 + n)

/-- The escape of a code unit. -/
def unitEscape (n : ℕ) : Json.Text :=
  [92, 117, hexByte (n / 4096), hexByte (n / 256 % 16), hexByte (n / 16 % 16), hexByte (n % 16)]

/-- A code unit that no backslash stands before. -/
def unitText (u : UInt16) : Json.Text :=
  if u.toNat < 128 then [UInt8.ofNat u.toNat] else unitEscape u.toNat

/-- A text in ASCII. No escape begins with a unit outside ASCII, so after a backslash a byte that
begins none stands for it. -/
def asciiText : JSString → Json.Text
  | [] => []
  | [u] => unitText u
  | u :: v :: s =>
    if u = 92 then 92 :: (if v.toNat < 128 then UInt8.ofNat v.toNat else 255) :: asciiText s
    else unitText u ++ asciiText (v :: s)

/-- `JSON.parse`. -/
def jsonParse (s : JSString) : Except JSError Value :=
  match readValue (asciiText s).length (asciiText s) with
  | .ok (v, rest) =>
    if skipSpace rest = [] then .ok v else .error (.platform "SyntaxError")
  | .error _ => .error (.platform "SyntaxError")

/-- A string as the reader has it. -/
def jsonUnits (s : JSString) : List ℕ := s.map UInt16.toNat

/-- A property that is a string. Of two members with one name the last counts. -/
def stringProperty (v : Value) (name : JSString) : Option JSString :=
  match v with
  | .object members =>
    match (members.reverse.find? fun m => m.1 = jsonUnits name).map Prod.snd with
    | some (.string units) => some (units.map UInt16.ofNat)
    | _ => none
  | _ => none

/-- What `createKey` resolves to: `response.json()`. `none` if it has not the properties the page
goes on with. -/
def readKeyReply (body : List UInt8) : Except JSError (Option KeyReply) := do
  let v ← jsonParse (textDecode body)
  return do
    return ⟨← stringProperty v (js "id"), ← stringProperty v (js "pub_pem")⟩

/-! ### What the encoder writes -/

/-- No backslash at the end acts on what comes after. -/
def isSettled : JSString → Bool
  | [] => true
  | [u] => u ≠ 92
  | u :: v :: s => if u = 92 then isSettled s else isSettled (v :: s)

theorem asciiText_cons {u : UInt16} (hu : u ≠ 92) (s : JSString) :
    asciiText (u :: s) = unitText u ++ asciiText s := by
  rcases s with _ | ⟨v, s⟩
  · rw [asciiText, asciiText, List.append_nil]
  · rw [asciiText, if_neg hu]

theorem asciiText_append {s : JSString} (hs : isSettled s = true) (t : JSString) :
    asciiText (s ++ t) = asciiText s ++ asciiText t := by
  fun_induction isSettled s with
  | case1 => rfl
  | case2 u =>
    rw [List.singleton_append, asciiText_cons (of_decide_eq_true hs), asciiText]
  | case3 v s ih =>
    rw [List.cons_append, List.cons_append, asciiText, asciiText, if_pos rfl, if_pos rfl, ih hs]
    rfl
  | case4 u v s hu ih =>
    rw [List.cons_append, asciiText_cons hu, asciiText_cons hu, ih hs, List.append_assoc]

theorem isSettled_append {s t : JSString} (hs : isSettled s = true) (ht : isSettled t = true) :
    isSettled (s ++ t) = true := by
  fun_induction isSettled s with
  | case1 => exact ht
  | case2 u =>
    rcases t with _ | ⟨v, t⟩
    · exact hs
    · rw [List.singleton_append, isSettled, if_neg (of_decide_eq_true hs)]
      exact ht
  | case3 v s ih =>
    rw [List.cons_append, List.cons_append, isSettled, if_pos rfl]
    exact ih hs
  | case4 u v s hu ih =>
    rw [List.cons_append, List.cons_append, isSettled, if_neg hu]
    exact ih hs

/-- The text, as the reader gets it, spells these units between quotation marks. -/
structure Spells (text units : JSString) : Prop where
  settled : isSettled text = true
  chars : Chars (asciiText text) (jsonUnits units)

theorem Spells.append {s t us vs : JSString} (hs : Spells s us) (ht : Spells t vs) :
    Spells (s ++ t) (us ++ vs) where
  settled := isSettled_append hs.settled ht.settled
  chars := by
    rw [asciiText_append hs.settled, jsonUnits, List.map_append]
    exact hs.chars.append ht.chars

/-- A unit outside ASCII is spelled by itself. -/
theorem spells_unit {u : UInt16} (hu : 128 ≤ u.toNat) : Spells [u] [u] where
  settled := by
    refine decide_eq_true ?_
    rintro rfl
    exact absurd hu (by decide)
  chars := by
    have hhex : ∀ n < 16, UrlText.hexValue (hexByte n) = some n := by decide
    have hlt := u.toNat_lt
    have hunit : hexUnit (hexByte (u.toNat / 4096)) (hexByte (u.toNat / 256 % 16))
        (hexByte (u.toNat / 16 % 16)) (hexByte (u.toNat % 16)) = some u.toNat := by
      rw [hexUnit, hhex _ (by omega), hhex _ (by omega), hhex _ (by omega), hhex _ (by omega)]
      exact congrArg some (by omega)
    rw [asciiText, unitText, if_neg (by omega)]
    exact .unicode hunit .nil

/-- A character outside ASCII is spelled by itself. -/
private theorem spells_char {c : Char} (hc : 128 ≤ c.toNat) :
    Spells (Utf16.encode [c]) (Utf16.encodeChar c) := by
  have hlt := Utf16.toNat_lt c
  rw [Utf16.encode_cons, Utf16.encode_nil, List.append_nil, Utf16.encodeChar]
  split
  · refine spells_unit ?_
    rw [UInt16.toNat_ofNat']
    omega
  · refine (spells_unit ?_).append (spells_unit ?_) <;>
    · rw [UInt16.toNat_ofNat']
      omega

/-- Whatever the rune, its escape spells it. -/
theorem spells_escapeRune (r : Option Char) :
    Spells (Utf16.encode (escapeRune r)) (Utf16.encodeChar (r.getD Utf8.replacement)) := by
  rcases r with _ | c
  · exact ⟨by decide +kernel, chars_of_readString (by decide +kernel)⟩
  by_cases hc : c.toNat < 128
  · have hall : ∀ n < 128, isSettled (Utf16.encode (escapeRune (some (Char.ofNat n)))) = true ∧
        readString (asciiText (Utf16.encode (escapeRune (some (Char.ofNat n)))) ++ [34]) =
          .ok (jsonUnits (Utf16.encodeChar (Char.ofNat n)), []) := by
      decide +kernel
    obtain ⟨hsettled, hread⟩ := hall _ hc
    rw [Char.ofNat_toNat] at hsettled hread
    exact ⟨hsettled, chars_of_readString hread⟩
  · have hne {d : Char} (hd : d.toNat < 128) : c ≠ d := by
      rintro rfl
      exact hc hd
    rw [escapeRune, if_neg (not_or.mpr ⟨hne (by decide), hne (by decide)⟩), if_neg (by omega),
      if_neg (by omega), if_neg (hne (by decide)), if_neg (hne (by decide)),
      if_neg (hne (by decide)), if_neg (not_or.mpr ⟨by omega, not_or.mpr ⟨hne (by decide),
        not_or.mpr ⟨hne (by decide), hne (by decide)⟩⟩⟩)]
    split
    · next hline =>
      obtain rfl : c = Char.ofNat 0x2028 := by rw [← hline, Char.ofNat_toNat]
      exact ⟨by decide +kernel, chars_of_readString (by decide +kernel)⟩
    · split
      · next hparagraph =>
        obtain rfl : c = Char.ofNat 0x2029 := by rw [← hparagraph, Char.ofNat_toNat]
        exact ⟨by decide +kernel, chars_of_readString (by decide +kernel)⟩
      · exact spells_char (by omega)

/-- The text a Go string has for a page. -/
def goText (s : GoString) : JSString := Utf16.encode (runeText s)

/-- The string value of a Go string spells its text. -/
theorem spells_runes (s : GoString) :
    Spells (Utf16.encode ((runes s).flatMap escapeRune)) (goText s) := by
  rw [goText, runeText]
  induction runes s with
  | nil => exact ⟨rfl, .nil⟩
  | cons r rs ih =>
    rw [List.flatMap_cons, Utf16.encode_append, List.map_cons, Utf16.encode_cons]
    exact (spells_escapeRune r).append ih

/-- A string value, as the reader gets it. -/
theorem asciiText_quoteText (s : GoString) :
    ∃ t, Chars t (jsonUnits (goText s)) ∧ ∀ rest : JSString,
      asciiText (Utf16.encode (quoteText s) ++ rest) = 34 :: (t ++ 34 :: asciiText rest) := by
  refine ⟨_, (spells_runes s).chars, fun rest => ?_⟩
  have hquote : Utf16.encodeChar '"' = [34] := by decide
  have hmark (s : JSString) : asciiText (34 :: s) = 34 :: asciiText s :=
    asciiText_cons (by decide) s
  rw [quoteText, Utf16.encode_cons, Utf16.encode_append, hquote, Utf16.encode_cons, hquote,
    Utf16.encode_nil]
  simp only [List.cons_append, List.nil_append, List.append_assoc]
  rw [hmark, asciiText_append (spells_runes s).settled, hmark]

/-- A member of an object, as the page has it. -/
def jsonMember (m : String × GoString) : List ℕ × Value :=
  (jsonUnits (js m.1), .string (jsonUnits (goText m.2)))

theorem goText_lit (s : String) : goText (lit s) = js s := by
  rw [goText, lit, ← Utf8.encode, runeText_encode, js]

/-- One member, as the reader gets it. -/
private theorem asciiText_member (m : String × GoString) :
    ∃ n x, Chars n (jsonUnits (js m.1)) ∧ Chars x (jsonUnits (goText m.2)) ∧ ∀ rest : JSString,
      asciiText (Utf16.encode (memberText m) ++ rest) =
        34 :: (n ++ 34 :: 58 :: 34 :: (x ++ 34 :: asciiText rest)) := by
  obtain ⟨n, hn, hname⟩ := asciiText_quoteText (lit m.1)
  obtain ⟨x, hx, hvalue⟩ := asciiText_quoteText m.2
  rw [goText_lit] at hn
  refine ⟨n, x, hn, hx, fun rest => ?_⟩
  have hcolon : Utf16.encodeChar ':' = [58] := by decide
  rw [memberText, Utf16.encode_append, Utf16.encode_cons, hcolon, List.append_assoc,
    List.append_assoc, hname, List.singleton_append, asciiText_cons (by decide),
    hvalue]
  rfl

/-- The members of an object, as the reader gets them. -/
private theorem asciiText_members {members : List (String × GoString)} (hne : members ≠ []) :
    ∃ t, StringMembers t (members.map jsonMember) ∧ ∀ rest : JSString,
      asciiText (Utf16.encode ([','].intercalate (members.map memberText)) ++ rest) =
        t ++ asciiText rest := by
  have hcomma : Utf16.encodeChar ',' = [44] := by decide
  induction members with
  | nil => exact absurd rfl hne
  | cons m members ih =>
    obtain ⟨n, x, hn, hx, hmember⟩ := asciiText_member m
    rcases members with _ | ⟨m', members⟩
    · refine ⟨_, .last hn hx, fun rest => ?_⟩
      rw [List.map_singleton, List.intercalate_singleton, hmember]
      simp only [List.cons_append, List.append_assoc, List.nil_append]
    · obtain ⟨t, ht, hrest⟩ := ih (by simp)
      refine ⟨_, .cons hn hx ht, fun rest => ?_⟩
      rw [List.map_cons, List.map_cons, List.intercalate_cons_cons, ← List.map_cons,
        Utf16.encode_append, Utf16.encode_append, Utf16.encode_cons, hcomma, Utf16.encode_nil,
        List.append_assoc, List.append_assoc, hmember, List.append_nil, List.singleton_append,
        asciiText_cons (by decide), hrest]
      simp only [List.cons_append, List.append_assoc]
      rfl

/-- **What one side writes the other reads**: the members of an object of strings, whatever bytes
the strings are. -/
theorem jsonParse_marshalObject {members : List (String × GoString)} (hne : members ≠ []) :
    jsonParse (textDecode (marshalObject members)) = .ok (.object (members.map jsonMember)) := by
  have hbrace : Utf16.encodeChar '\x7b' = [123] := by decide
  have hclose : Utf16.encodeChar '\x7d' = [125] := by decide
  have hdecode : textDecode (marshalObject members) = Utf16.encode (objectText members) := by
    rw [textDecode, marshalObject, Utf8.decode_encode, Utf8.dropBOM_eq_self_iff.mpr]
    rw [objectText, List.head?_cons]
    decide
  obtain ⟨t, ht, htext⟩ := asciiText_members hne
  have hascii : asciiText (Utf16.encode (objectText members)) = 123 :: (t ++ 125 :: []) := by
    rw [objectText, Utf16.encode_cons, hbrace, Utf16.encode_append, Utf16.encode_cons, hclose,
      List.singleton_append, asciiText_cons (by decide), htext]
    rfl
  rw [hdecode, jsonParse, hascii, List.length_cons, readValue_of_stringMembers ht]
  rfl

/-! ### The reply -/

theorem map_ofNat_jsonUnits (s : JSString) : (jsonUnits s).map UInt16.ofNat = s := by
  rw [jsonUnits, List.map_map]
  calc _ = s.map id := List.map_congr_left fun u _ => UInt16.ofNat_toNat
    _ = s := List.map_id _

theorem readKeyReply_marshalObject (id pub : GoString) :
    readKeyReply (marshalObject [("id", id), ("pub_pem", pub)]) =
      .ok (some ⟨goText id, goText pub⟩) := by
  have hname : jsonUnits (js "pub_pem") ≠ jsonUnits (js "id") := by decide
  rw [readKeyReply, jsonParse_marshalObject (by simp)]
  simp [stringProperty, jsonMember, hname, map_ofNat_jsonUnits]

theorem textEncode_goText (cs : List Char) :
    textEncode (goText (Utf8.encode cs)) = Utf8.encode cs := by
  rw [goText, runeText_encode, textEncode, Utf16.decode_encode]

/-- ASCII text is the same for both sides. -/
theorem exists_encode_of_lt {s : GoString} (h : ∀ b ∈ s, b.toNat < 128) :
    ∃ cs, s = Utf8.encode cs ∧ Utf16.encode cs = fromCharCode s := by
  have hall : ∀ n < 128, String.utf8EncodeChar (Char.ofNat n) = [UInt8.ofNat n] ∧
      Utf16.encodeChar (Char.ofNat n) = [(UInt8.ofNat n).toUInt16] := by
    decide
  induction s with
  | nil => exact ⟨[], rfl, rfl⟩
  | cons b s ih =>
    rw [List.forall_mem_cons] at h
    obtain ⟨cs, hcs, htext⟩ := ih h.2
    obtain ⟨hbyte, hunit⟩ := hall b.toNat h.1
    rw [UInt8.ofNat_toNat] at hbyte hunit
    refine ⟨Char.ofNat b.toNat :: cs, ?_, ?_⟩
    · rw [Utf8.encode, List.flatMap_cons, hbyte, hcs]
      rfl
    · rw [Utf16.encode_cons, hunit, htext]
      rfl

theorem goText_of_lt {s : GoString} (h : ∀ b ∈ s, b.toNat < 128) : goText s = fromCharCode s := by
  obtain ⟨cs, hcs, htext⟩ := exists_encode_of_lt h
  rw [← htext, hcs, goText, runeText_encode]

/-- **The reply comes through.** The page reads the id and the public key the server wrote, whatever
bytes they are: the text they encode, if there is one, and otherwise U+FFFD for each byte that
begins no character. -/
theorem reply_comes_through (id pub : GoString) :
    readKeyReply (marshalObject [("id", id), ("pub_pem", pub)]) =
        .ok (some ⟨goText id, goText pub⟩) ∧
      ∀ s cs, s = id ∨ s = pub → s = Utf8.encode cs →
        goText s = Utf16.encode cs ∧ textEncode (goText s) = s := by
  refine ⟨readKeyReply_marshalObject id pub, ?_⟩
  rintro s cs - rfl
  exact ⟨by rw [goText, runeText_encode], textEncode_goText cs⟩

end KeyBank
