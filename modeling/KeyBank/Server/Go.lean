import Mathlib.Data.Int.Notation
import Mathlib.Data.List.Basic

/-!
# Go values the server works with

Strings are byte strings, durations are 64-bit nanosecond counts that wrap, and instants are
integers in nanoseconds on one clock. `decimal` and `parseDecimal` are the decimal text of an
integer, as Redis keeps its counters.
-/

namespace KeyBank

abbrev Bytes : Type := List UInt8

/-- A Go string is a byte string; it need not be UTF-8. -/
abbrev GoString : Type := List UInt8

/-- A string literal: its UTF-8 bytes. -/
def lit (s : String) : GoString := s.toList.flatMap String.utf8EncodeChar

theorem lit_append (s t : String) : lit (s ++ t) = lit s ++ lit t := by
  rw [lit, String.toList_append, List.flatMap_append]
  rfl

/-! ### Time -/

/-- `time.Duration`: nanoseconds in an `int64`. -/
abbrev Duration : Type := Int64

namespace Duration

def nanosecond : Duration := 1
def millisecond : Duration := 1000000
def second : Duration := 1000000000
def hour : Duration := 3600 * second

end Duration

/-- `Time.Add`, an instant being its nanoseconds on the server's clock. -/
def timeAdd (t : ℤ) (d : Duration) : ℤ := t + d.toInt

/-! ### Hexadecimal and decimal text -/

/-- The digit `encoding/hex` writes for a half byte. -/
def hexDigit (n : ℕ) : UInt8 := if n < 10 then UInt8.ofNat (48 + n) else UInt8.ofNat (87 + n)

/-- `hex.EncodeToString`. -/
def hexEncodeToString (b : Bytes) : GoString :=
  b.flatMap fun x => [hexDigit (x.toNat / 16), hexDigit (x.toNat % 16)]

theorem length_hexEncodeToString (b : Bytes) : (hexEncodeToString b).length = 2 * b.length := by
  induction b with
  | nil => rfl
  | cons x b ih =>
    rw [hexEncodeToString, List.flatMap_cons, ← hexEncodeToString, List.length_append, ih]
    simp only [List.length_cons, List.length_nil]
    omega

theorem hexDigit_ne_r {n : ℕ} (h : n < 16) : hexDigit n ≠ 114 := by
  have hall : ∀ n < 16, hexDigit n ≠ 114 := by decide
  exact hall n h

/-- Hexadecimal text holds no `r`. -/
theorem r_notMem_hexEncodeToString (b : Bytes) : 114 ∉ hexEncodeToString b := by
  simp only [hexEncodeToString, List.mem_flatMap, List.mem_cons, List.not_mem_nil, or_false,
    not_exists, not_and, not_or]
  intro x _
  have hx : x.toNat < 256 := x.toNat_lt
  exact ⟨(hexDigit_ne_r (by omega)).symm, (hexDigit_ne_r (by omega)).symm⟩

/-- The decimal text of a natural number. -/
def decimal (n : ℕ) : GoString := (Nat.toDigits 10 n).map fun c => UInt8.ofNat c.toNat

/-- The decimal text of an integer. -/
def decimalInt (n : ℤ) : GoString :=
  if n < 0 then 45 :: decimal n.natAbs else decimal n.natAbs

/-- Whether a byte is one of the ten digits. -/
def isDecDigit (b : UInt8) : Bool := 48 ≤ b && b ≤ 57

private def digitsValue (s : GoString) : ℕ :=
  Nat.ofDigitChars 10 (s.map fun b => Char.ofNat b.toNat) 0

/-- A string of digits with no superfluous leading zero, as a number. -/
def parseDecimal (s : GoString) : Option ℕ :=
  if s ≠ [] ∧ s.all isDecDigit = true ∧ (s.head? = some 48 → s.length = 1)
  then some (digitsValue s) else none

/-- The number a string of digits stands for. -/
def decValue (s : GoString) : ℕ := s.foldl (fun n b => 10 * n + (b.toNat - 48)) 0

/-- `strconv.Atoi`: a sign, which may be missing, and digits, within 64 bits. -/
def atoi (s : GoString) : Option ℤ :=
  let digits :=
    match s with
    | 43 :: ds => ds
    | 45 :: ds => ds
    | ds => ds
  let n : ℤ := if s.head? = some 45 then -decValue digits else decValue digits
  if digits ≠ [] ∧ digits.all isDecDigit = true ∧ Int64.minValue.toInt ≤ n ∧
      n ≤ Int64.maxValue.toInt then some n
  else none

theorem le_of_atoi {s : GoString} {n : ℤ} (h : atoi s = some n) : n ≤ Int64.maxValue.toInt := by
  simp only [atoi, Option.ite_none_right_eq_some, Option.some.injEq] at h
  exact h.2 ▸ h.1.2.2.2

/-- `string2ll`: the decimal text of a 64-bit integer. -/
def parseInt64 (s : GoString) : Option ℤ :=
  let value : Option ℤ :=
    match s with
    | 45 :: ds => (parseDecimal ds).bind fun n => if n = 0 then none else some (-(n : ℤ))
    | ds => (parseDecimal ds).map fun n => (n : ℤ)
  value.filter fun n => Int64.minValue.toInt ≤ n ∧ n ≤ Int64.maxValue.toInt

private theorem digit_char {c : Char} (h : c.isDigit = true) :
    48 ≤ c.toNat ∧ c.toNat ≤ 57 := by
  simp only [Char.isDigit, Bool.and_eq_true, decide_eq_true_eq] at h
  exact ⟨h.1, h.2⟩

private theorem digit_byte_char {c : Char} (h : c.isDigit = true) :
    Char.ofNat (UInt8.ofNat c.toNat).toNat = c := by
  obtain ⟨h1, h2⟩ := digit_char h
  have hb : (UInt8.ofNat c.toNat).toNat = c.toNat := by
    simp only [UInt8.toNat_ofNat']
    omega
  rw [hb, Char.ofNat_toNat]

private theorem isDigit_of_mem {n : ℕ} {c : Char} (h : c ∈ Nat.toDigits 10 n) :
    c.isDigit = true :=
  Nat.isDigit_of_mem_toDigits (by omega) (by omega) h

private theorem digitsValue_decimal (n : ℕ) : digitsValue (decimal n) = n := by
  have hmap : (decimal n).map (fun b => Char.ofNat b.toNat) = Nat.toDigits 10 n := by
    rw [decimal, List.map_map]
    calc _ = (Nat.toDigits 10 n).map id :=
          List.map_congr_left fun c hc => digit_byte_char (isDigit_of_mem hc)
      _ = Nat.toDigits 10 n := List.map_id _
  rw [digitsValue, hmap, Nat.ofDigitChars_ten_toDigits]

/-- How Go and JavaScript write a number. -/
theorem lit_toString (n : ℕ) : lit (toString n) = decimal n := by
  have hchar : ∀ c ∈ Nat.toDigits 10 n, String.utf8EncodeChar c = [UInt8.ofNat c.toNat] := by
    intro c hc
    have hle : c.val.toNat ≤ 127 := Nat.le_trans (digit_char (isDigit_of_mem hc)).2 (by omega)
    rw [String.utf8EncodeChar.eq_1, if_pos hle]
    rfl
  rw [lit, decimal, Nat.toString_eq_ofList_toDigits, String.toList_ofList,
    List.flatMap_congr hchar, List.map_eq_flatMap]

theorem all_isDecDigit_decimal (n : ℕ) : (decimal n).all isDecDigit = true := by
  simp only [List.all_eq_true, decimal, List.mem_map, forall_exists_index, and_imp,
    forall_apply_eq_imp_iff₂]
  intro c hc
  obtain ⟨h1, h2⟩ := digit_char (isDigit_of_mem hc)
  simp only [isDecDigit, Bool.and_eq_true, decide_eq_true_eq, UInt8.le_iff_toNat_le,
    UInt8.toNat_ofNat']
  exact ⟨by simp; omega, by simp; omega⟩

private theorem head?_toDigits {n : ℕ} (h : (Nat.toDigits 10 n).head? = some '0') : n = 0 := by
  induction n using Nat.strongRecOn with
  | ind n ih =>
    rw [Nat.toDigits_eq_if (by omega)] at h
    split at h
    · simpa using h
    · have hdiv : (Nat.toDigits 10 (n / 10)).head? = some '0' := by
        rw [List.head?_append] at h
        cases hd : (Nat.toDigits 10 (n / 10)).head? with
        | none => simp at hd
        | some c => simpa [hd] using h
      have := ih (n / 10) (by omega) hdiv
      omega

/-- A leading zero is the only digit. -/
theorem length_decimal_of_head? {n : ℕ} (h : (decimal n).head? = some 48) :
    (decimal n).length = 1 := by
  rw [decimal, List.head?_map, Option.map_eq_some_iff] at h
  obtain ⟨c, hc, hc48⟩ := h
  have hdigit : c.isDigit = true := isDigit_of_mem (List.mem_of_mem_head? hc)
  have hzero : c = '0' := by
    rw [← digit_byte_char hdigit, hc48]
    rfl
  subst hzero
  rw [head?_toDigits hc]
  rfl

/-- Decimal text is read back. -/
theorem parseDecimal_decimal (n : ℕ) : parseDecimal (decimal n) = some n := by
  have hne : decimal n ≠ [] := by simp [decimal]
  rw [parseDecimal, if_pos ⟨hne, all_isDecDigit_decimal n, length_decimal_of_head?⟩,
    digitsValue_decimal]

/-- Decimal text stands for its number. -/
theorem decValue_decimal (n : ℕ) : decValue (decimal n) = n := by
  have hdigit : ∀ (l : List Char), (∀ c ∈ l, c.isDigit = true) → ∀ m,
      (l.map fun c => UInt8.ofNat c.toNat).foldl (fun n b => 10 * n + (b.toNat - 48)) m =
        Nat.ofDigitChars 10 l m := by
    intro l hl
    induction l with
    | nil => exact fun m => rfl
    | cons c l ih =>
      intro m
      rw [List.forall_mem_cons] at hl
      obtain ⟨h1, h2⟩ := digit_char hl.1
      have hb : (UInt8.ofNat c.toNat).toNat = c.toNat := by
        rw [UInt8.toNat_ofNat']
        omega
      rw [List.map_cons, List.foldl_cons, hb, ih hl.2, Nat.ofDigitChars_cons]
      rfl
  rw [decValue, decimal, hdigit _ fun c hc => isDigit_of_mem hc, Nat.ofDigitChars_ten_toDigits]

private theorem head?_decimal_ne (n : ℕ) : (decimal n).head? ≠ some 45 := by
  intro h
  have hall := all_isDecDigit_decimal n
  rw [List.all_eq_true] at hall
  have := hall 45 (List.mem_of_mem_head? h)
  simp [isDecDigit] at this

/-- `strconv.Atoi` reads back the decimal text of a number that fits in 64 bits. -/
theorem atoi_decimal {n : ℕ} (h : (n : ℤ) ≤ Int64.maxValue.toInt) :
    atoi (decimal n) = some (n : ℤ) := by
  have hall := all_isDecDigit_decimal n
  have hvalue := decValue_decimal n
  cases hd : decimal n with
  | nil => simp [decimal] at hd
  | cons b ds =>
    rw [hd] at hall hvalue
    have hb : isDecDigit b = true := List.all_eq_true.mp hall b (List.mem_cons_self ..)
    have hplus : b ≠ 43 := by
      rintro rfl
      exact absurd hb (by decide)
    have hminus : b ≠ 45 := by
      rintro rfl
      exact absurd hb (by decide)
    simp [atoi, hplus, hminus, hall, hvalue, h]

theorem atoi_decimalInt {n : ℤ} (hmin : Int64.minValue.toInt ≤ n)
    (hmax : n ≤ Int64.maxValue.toInt) : atoi (decimalInt n) = some n := by
  rw [decimalInt]
  split
  · next hneg =>
    have hall := all_isDecDigit_decimal n.natAbs
    have hne : decimal n.natAbs ≠ [] := by simp [decimal]
    have hvalue : -(decValue (decimal n.natAbs) : ℤ) = n := by
      rw [decValue_decimal]
      omega
    have hmin' : -9223372036854775808 ≤ n := hmin
    simp [atoi, hvalue, hne, hall, hmin', hmax]
  · next hpos =>
    have hn : (n.natAbs : ℤ) = n := by omega
    rw [atoi_decimal (by omega), hn]

/-- A counter that fits in 64 bits is read back from the text Redis keeps of it. -/
theorem parseInt64_decimalInt {n : ℕ} (h : (n : ℤ) ≤ Int64.maxValue.toInt) :
    parseInt64 (decimalInt n) = some (n : ℤ) := by
  have htext : decimalInt n = decimal n := by
    rw [decimalInt, if_neg (by omega), Int.natAbs_natCast]
  rw [htext]
  cases hd : decimal n with
  | nil => simp [decimal] at hd
  | cons b ds =>
    have hb : b ≠ 45 := by
      rintro rfl
      exact head?_decimal_ne n (by rw [hd, List.head?_cons])
    have hparse := parseDecimal_decimal n
    rw [hd] at hparse
    have hvalue : parseInt64 (b :: ds) = ((parseDecimal (b :: ds)).map fun n => (n : ℤ)).filter
        fun n => Int64.minValue.toInt ≤ n ∧ n ≤ Int64.maxValue.toInt := by
      rw [parseInt64]
      exact fun _ heq => hb (List.cons.inj heq).1
    rw [hvalue, hparse]
    simp [h]

end KeyBank
