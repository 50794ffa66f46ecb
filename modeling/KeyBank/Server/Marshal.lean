import KeyBank.Foundation.Utf8
import KeyBank.Server.Go

/-!
# What `encoding/json` writes

`json.Marshal` on a struct with string fields, such as `CreateKeyResponse`. A Go string is any byte
string; the encoder goes through it rune by rune, writes an escape where JSON or HTML needs one,
and replaces every byte that begins no valid code.

* `runes` is the `range` of a string: a byte that begins no valid code is a rune of its own.
* `runeText` is what the encoder takes a string to say. It is the text the string encodes, if there
  is one (`runeText_encode`).
-/

namespace KeyBank

/-! ### Runes -/

/-- The length of the code a byte begins, if it begins one. -/
def runeLength (b : UInt8) : ℕ :=
  if b < 0x80 then 1 else if b < 0xE0 then 2 else if b < 0xF0 then 3 else 4

/-- The number a code would stand for. -/
def runeValue : List UInt8 → ℕ
  | [a] => a.toNat
  | [a, b] => a.toNat % 32 * 64 + b.toNat % 64
  | [a, b, c] => a.toNat % 16 * 4096 + b.toNat % 64 * 64 + c.toNat % 64
  | [a, b, c, d] =>
    a.toNat % 8 * 262144 + b.toNat % 64 * 4096 + c.toNat % 64 * 64 + d.toNat % 64
  | _ => 0

/-- The character of a valid code: of all codes only the shortest counts, and surrogates have
none. -/
def runeOf (code : List UInt8) : Option Char :=
  if String.utf8EncodeChar (Char.ofNat (runeValue code)) = code then
    some (Char.ofNat (runeValue code))
  else none

/-- The runes of a string, from where `skip` more bytes belong to the last one; `none` is
`utf8.RuneError`, one byte wide. -/
def runesFrom : ℕ → GoString → List (Option Char)
  | _, [] => []
  | skip + 1, _ :: s => runesFrom skip s
  | 0, b :: s =>
    match runeOf ((b :: s).take (runeLength b)) with
    | some c => some c :: runesFrom (runeLength b - 1) s
    | none => none :: runesFrom 0 s

/-- `range s`. -/
def runes (s : GoString) : List (Option Char) := runesFrom 0 s

/-- The text of a string, with U+FFFD in place of what is no character. -/
def runeText (s : GoString) : List Char := (runes s).map fun r => r.getD Utf8.replacement

/-! ### The encoder -/

/-- The lower-case digits of an escape. -/
def hexLower (n : ℕ) : Char := if n < 10 then Char.ofNat (48 + n) else Char.ofNat (87 + n)

/-- What `appendString` writes for one rune, with `escapeHTML`. -/
def escapeRune : Option Char → List Char
  | none => "\\ufffd".toList
  | some c =>
    if c = '"' ∨ c = '\\' then ['\\', c]
    else if c.toNat = 8 then ['\\', 'b']
    else if c.toNat = 12 then ['\\', 'f']
    else if c = '\n' then ['\\', 'n']
    else if c = '\r' then ['\\', 'r']
    else if c = '\t' then ['\\', 't']
    else if c.toNat < 32 ∨ c = '<' ∨ c = '>' ∨ c = '&' then
      ['\\', 'u', '0', '0', hexLower (c.toNat / 16), hexLower (c.toNat % 16)]
    else if c.toNat = 0x2028 then "\\u2028".toList
    else if c.toNat = 0x2029 then "\\u2029".toList
    else [c]

/-- The text of a string value. -/
def quoteText (s : GoString) : List Char := '"' :: ((runes s).flatMap escapeRune ++ ['"'])

/-- The text of a member. -/
def memberText (m : String × GoString) : List Char := quoteText (lit m.1) ++ ':' :: quoteText m.2

/-- The text of an object with string members. -/
def objectText (members : List (String × GoString)) : List Char :=
  '{' :: ([','].intercalate (members.map memberText) ++ ['}'])

/-- `json.Marshal`. -/
def marshalObject (members : List (String × GoString)) : Bytes := Utf8.encode (objectText members)

/-! ### Text that is valid -/

private theorem runesFrom_append (l s : GoString) :
    runesFrom l.length (l ++ s) = runesFrom 0 s := by
  induction l with
  | nil => rfl
  | cons b l ih => exact ih

/-- The code of a character is read as that character if its number is put together right. -/
private theorem runeOf_eq_some {c : Char} {code : List UInt8} (h : String.utf8EncodeChar c = code)
    (hvalue : runeValue code = c.toNat) : runeOf code = some c := by
  rw [runeOf, hvalue, Char.ofNat_toNat, if_pos h]

private theorem toNat_ofNat_byte {n : ℕ} (h : n < 256) : (UInt8.ofNat n).toNat = n := by
  rw [UInt8.toNat_ofNat']
  omega

/-- The length a byte given by its number announces. -/
private theorem runeLength_ofNat {n : ℕ} (h : n < 256) :
    runeLength (UInt8.ofNat n) =
      if n < 0x80 then 1 else if n < 0xE0 then 2 else if n < 0xF0 then 3 else 4 := by
  simp only [runeLength, UInt8.lt_iff_toNat_lt, toNat_ofNat_byte h]
  rfl

/-- The first byte of a code tells its length, and the code is that of its character. -/
private theorem runeOf_utf8EncodeChar (c : Char) :
    ∃ b l, String.utf8EncodeChar c = b :: l ∧ runeLength b = l.length + 1 ∧
      runeOf (b :: l) = some c := by
  obtain ⟨v, hv⟩ : ∃ v, v = c.val.toNat := ⟨_, rfl⟩
  have hmax : v < 0x110000 := by
    rcases (hv ▸ c.valid : v < 0xD800 ∨ 0xDFFF < v ∧ v < 0x110000) with h | h <;> omega
  have hvalue : c.toNat = v := hv.symm
  have hcode := String.utf8EncodeChar.eq_1 c
  simp only [← hv] at hcode
  -- The four lengths; each time the bits of the bytes put together are the number.
  split at hcode
  · refine ⟨_, _, hcode, ?_, runeOf_eq_some hcode ?_⟩
    · rw [runeLength_ofNat (by omega), if_pos (by omega), List.length_nil]
    · rw [hvalue, runeValue, toNat_ofNat_byte (by omega)]
  · split at hcode
    · refine ⟨_, _, hcode, ?_, runeOf_eq_some hcode ?_⟩
      · rw [runeLength_ofNat (by omega), if_neg (by omega), if_pos (by omega)]
        rfl
      · rw [hvalue, runeValue, toNat_ofNat_byte (by omega), toNat_ofNat_byte (by omega)]
        omega
    · split at hcode
      · refine ⟨_, _, hcode, ?_, runeOf_eq_some hcode ?_⟩
        · rw [runeLength_ofNat (by omega), if_neg (by omega), if_neg (by omega), if_pos (by omega)]
          rfl
        · rw [hvalue, runeValue, toNat_ofNat_byte (by omega), toNat_ofNat_byte (by omega),
            toNat_ofNat_byte (by omega)]
          omega
      · refine ⟨_, _, hcode, ?_, runeOf_eq_some hcode ?_⟩
        · rw [runeLength_ofNat (by omega), if_neg (by omega), if_neg (by omega), if_neg (by omega)]
          rfl
        · rw [hvalue, runeValue, toNat_ofNat_byte (by omega), toNat_ofNat_byte (by omega),
            toNat_ofNat_byte (by omega), toNat_ofNat_byte (by omega)]
          omega

/-- The runes of a text are its characters. -/
theorem runes_encode (cs : List Char) : runes (Utf8.encode cs) = cs.map some := by
  rw [runes]
  induction cs with
  | nil => rfl
  | cons c cs ih =>
    obtain ⟨b, l, hc, hlength, hrune⟩ := runeOf_utf8EncodeChar c
    have hcs : Utf8.encode (c :: cs) = b :: (l ++ Utf8.encode cs) := by
      rw [Utf8.encode, List.flatMap_cons, hc]
      rfl
    have htake : (b :: (l ++ Utf8.encode cs)).take (runeLength b) = b :: l := by
      rw [hlength, List.take_succ_cons, List.take_left]
    rw [hcs, runesFrom, htake, hrune, hlength, Nat.add_sub_cancel]
    simp only [runesFrom_append, ih, List.map_cons]

/-- **Valid text** is taken for what it is. -/
theorem runeText_encode (cs : List Char) : runeText (Utf8.encode cs) = cs := by
  rw [runeText, runes_encode, List.map_map]
  exact List.map_id' cs

end KeyBank
