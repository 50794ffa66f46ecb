import Mathlib.Data.Char
import Mathlib.Data.Nat.Notation

/-!
# Strings of UTF-16 code units

A JavaScript string is any sequence of 16-bit code units; surrogates need not be paired.

* `encode` writes a sequence of Unicode scalar values (Lean's `Char`) as code units.
* `decode` reads code units as scalar values, a lone surrogate as U+FFFD: the conversion to
  `USVString` of the web standards.
* A string is `WellFormed` if it is some `encode`; on these `decode` and `encode` undo each other.
-/

namespace Utf16

/-- The replacement character. -/
def replacement : Char := '\uFFFD'

def isLead (u : UInt16) : Bool := 0xD800 ≤ u.toNat && u.toNat < 0xDC00
def isTrail (u : UInt16) : Bool := 0xDC00 ≤ u.toNat && u.toNat < 0xE000

/-- The scalar value a surrogate pair stands for. -/
def pair (u v : UInt16) : Char :=
  Char.ofNat (0x10000 + (u.toNat - 0xD800) * 0x400 + (v.toNat - 0xDC00))

/-- The scalar value of a code unit outside a pair. -/
def single (u : UInt16) : Char :=
  if isLead u || isTrail u then replacement else Char.ofNat u.toNat

/-- Read code units as scalar values. -/
def decode : List UInt16 → List Char
  | [] => []
  | [u] => [single u]
  | u :: v :: us =>
    if isLead u && isTrail v then pair u v :: decode us else single u :: decode (v :: us)

/-- The code units of one scalar value. -/
def encodeChar (c : Char) : List UInt16 :=
  if c.toNat < 0x10000 then [UInt16.ofNat c.toNat]
  else [UInt16.ofNat (0xD800 + (c.toNat - 0x10000) / 0x400),
    UInt16.ofNat (0xDC00 + (c.toNat - 0x10000) % 0x400)]

/-- Write scalar values as code units. -/
def encode (cs : List Char) : List UInt16 := cs.flatMap encodeChar

/-- Every surrogate is part of a pair. -/
def WellFormed (s : List UInt16) : Prop := ∃ cs, s = encode cs

@[simp] theorem decode_nil : decode [] = [] := rfl

@[simp] theorem encode_nil : encode [] = [] := rfl

@[simp] theorem encode_cons (c : Char) (cs : List Char) :
    encode (c :: cs) = encodeChar c ++ encode cs := rfl

theorem encode_append (cs ds : List Char) : encode (cs ++ ds) = encode cs ++ encode ds :=
  List.flatMap_append

theorem toNat_lt (c : Char) : c.toNat < 0x110000 := by
  rcases c.valid with h | h
  · exact Nat.lt_trans h (by decide)
  · exact h.2

private theorem notSurrogate (c : Char) : c.toNat < 0xD800 ∨ 0xDFFF < c.toNat := by
  rcases c.valid with h | h
  · exact .inl h
  · exact .inr h.1

/-- A scalar value outside the surrogate range that fits in one unit is read from it. -/
private theorem single_ofNat {c : Char} (h : c.toNat < 0x10000) :
    single (UInt16.ofNat c.toNat) = c ∧ isLead (UInt16.ofNat c.toNat) = false := by
  have hunit : (UInt16.ofNat c.toNat).toNat = c.toNat := by
    simp only [UInt16.toNat_ofNat']
    omega
  have hlead : isLead (UInt16.ofNat c.toNat) = false := by
    have := notSurrogate c
    simp only [isLead, hunit, Bool.and_eq_false_iff, decide_eq_false_iff_not]
    omega
  have htrail : isTrail (UInt16.ofNat c.toNat) = false := by
    have := notSurrogate c
    simp only [isTrail, hunit, Bool.and_eq_false_iff, decide_eq_false_iff_not]
    omega
  exact ⟨by rw [single, hlead, htrail, hunit]; exact Char.ofNat_toNat c, hlead⟩

/-- What `decode` makes of a scalar value at the front. -/
theorem decode_encodeChar_append (c : Char) (us : List UInt16) :
    decode (encodeChar c ++ us) = c :: decode us := by
  by_cases h : c.toNat < 0x10000
  · obtain ⟨hsingle, hlead⟩ := single_ofNat h
    rw [encodeChar, if_pos h]
    rcases us with _ | ⟨v, us⟩
    · simp [decode, hsingle]
    · simp [decode, hsingle, hlead]
  · have hlt := toNat_lt c
    have hu : (UInt16.ofNat (0xD800 + (c.toNat - 0x10000) / 0x400)).toNat =
        0xD800 + (c.toNat - 0x10000) / 0x400 := by
      simp only [UInt16.toNat_ofNat']
      omega
    have hv : (UInt16.ofNat (0xDC00 + (c.toNat - 0x10000) % 0x400)).toNat =
        0xDC00 + (c.toNat - 0x10000) % 0x400 := by
      simp only [UInt16.toNat_ofNat']
      omega
    have hpaired : (isLead (UInt16.ofNat (0xD800 + (c.toNat - 0x10000) / 0x400)) &&
        isTrail (UInt16.ofNat (0xDC00 + (c.toNat - 0x10000) % 0x400))) = true := by
      simp only [isLead, isTrail, hu, hv, Bool.and_eq_true, decide_eq_true_eq]
      omega
    have hpair : pair (UInt16.ofNat (0xD800 + (c.toNat - 0x10000) / 0x400))
        (UInt16.ofNat (0xDC00 + (c.toNat - 0x10000) % 0x400)) = c := by
      have hsum : 0x10000 + (0xD800 + (c.toNat - 0x10000) / 0x400 - 0xD800) * 0x400 +
          (0xDC00 + (c.toNat - 0x10000) % 0x400 - 0xDC00) = c.toNat := by omega
      rw [pair, hu, hv, hsum, Char.ofNat_toNat]
    rw [encodeChar, if_neg h, List.cons_append, List.cons_append, List.nil_append, decode,
      if_pos hpaired, hpair]

/-- **Round trip.** Scalar values are read back from their code units. -/
@[simp] theorem decode_encode (cs : List Char) : decode (encode cs) = cs := by
  induction cs with
  | nil => rfl
  | cons c cs ih => rw [encode_cons, decode_encodeChar_append, ih]

theorem encodeChar_ne_nil (c : Char) : encodeChar c ≠ [] := by
  unfold encodeChar
  split <;> simp

/-- A unit outside the surrogate range stands only for itself. -/
theorem head?_encodeChar_eq_some_iff {c d : Char} (hd : d.toNat < 0x10000) :
    (encodeChar c).head? = some (UInt16.ofNat d.toNat) ↔ c = d := by
  have hdunit : (UInt16.ofNat d.toNat).toNat = d.toNat := by
    simp only [UInt16.toNat_ofNat']
    omega
  have hdsur := notSurrogate d
  have hclt := toNat_lt c
  constructor
  · intro h
    unfold encodeChar at h
    split at h <;> rename_i hc <;>
      simp only [List.head?_cons, Option.some.injEq] at h <;>
      replace h := congrArg UInt16.toNat h <;>
      rw [hdunit, UInt16.toNat_ofNat'] at h
    · exact Char.toNat_inj.mp (by omega)
    · omega
  · rintro rfl
    rw [encodeChar, if_pos hd, List.head?_cons]

/-- A character below the surrogates stands only for itself, so a text without it has no unit of
it. -/
theorem notMem_encode {d : Char} (hd : d.toNat < 0xD800) {cs : List Char} (h : d ∉ cs) :
    UInt16.ofNat d.toNat ∉ encode cs := by
  intro hmem
  obtain ⟨c, hc, hunit⟩ := List.mem_flatMap.mp hmem
  have hclt := toNat_lt c
  rw [encodeChar] at hunit
  split at hunit
  · rw [List.mem_singleton, ← UInt16.toNat_inj, UInt16.toNat_ofNat', UInt16.toNat_ofNat'] at hunit
    obtain rfl : d = c := Char.toNat_inj.mp (by omega)
    exact h hc
  · simp only [List.mem_cons, List.not_mem_nil, or_false, ← UInt16.toNat_inj,
      UInt16.toNat_ofNat'] at hunit
    omega

theorem encode_injective : Function.Injective encode :=
  Function.LeftInverse.injective decode_encode

/-- The first code unit of a text is a character of the basic plane exactly when its first
character is. -/
theorem head?_encode_eq_some_iff {cs : List Char} {d : Char} (hd : d.toNat < 0x10000) :
    (encode cs).head? = some (UInt16.ofNat d.toNat) ↔ cs.head? = some d := by
  rcases cs with _ | ⟨c, cs⟩
  · simp
  · obtain ⟨u, us, hc⟩ := List.exists_cons_of_ne_nil (encodeChar_ne_nil c)
    have hhead := head?_encodeChar_eq_some_iff (c := c) hd
    rw [hc, List.head?_cons] at hhead
    rw [encode_cons, hc, List.cons_append, List.head?_cons, List.head?_cons, hhead,
      Option.some.injEq]

end Utf16
