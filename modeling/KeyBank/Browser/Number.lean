import KeyBank.Browser.JS
import Mathlib.Data.Int.Log
import Mathlib.Data.Rat.Floor

/-!
# Numbers of JavaScript

A number is a binary64 value. The finite ones are rational numbers here; what is written or computed
is rounded to one of them (`JSNumber.ofRat`). `toNumber` is the conversion `Number(s)` of a string.
-/

namespace KeyBank

/-- A number. The two zeros are not told apart. -/
inductive JSNumber where
  | nan
  | infinity (negative : Bool)
  | finite (q : ℚ)
  deriving DecidableEq

/-- The nearest integer, the even one of two. -/
def roundEven (q : ℚ) : ℤ :=
  let rest := q - ⌊q⌋
  if rest < 1 / 2 then ⌊q⌋
  else if 1 / 2 < rest then ⌊q⌋ + 1
  else if ⌊q⌋ % 2 = 0 then ⌊q⌋ else ⌊q⌋ + 1

namespace JSNumber

/-- Round to 53 binary digits, fewer for subnormal numbers. -/
def ofRat (q : ℚ) : JSNumber :=
  if q = 0 then finite 0
  else
    let unit : ℚ := 2 ^ max (Int.log 2 |q| - 52) (-1074)
    let rounded := roundEven (q / unit) * unit
    if 2 ^ 1024 ≤ |rounded| then infinity (decide (q < 0)) else finite rounded

def neg : JSNumber → JSNumber
  | nan => nan
  | infinity negative => infinity !negative
  | finite q => finite (-q)

/-- `x > n`. -/
def exceeds : JSNumber → ℕ → Bool
  | nan, _ => false
  | infinity negative, _ => !negative
  | finite q, n => n < q

/-- `Number.isInteger`, with the integer. -/
def toInteger : JSNumber → Option ℤ
  | finite q => if q.den = 1 then some q.num else none
  | _ => none

end JSNumber

/-! ### Numeric strings -/

/-- The value of a digit, letters included. -/
def digitValue (u : UInt16) : ℕ :=
  if 48 ≤ u.toNat ∧ u.toNat ≤ 57 then u.toNat - 48
  else if 97 ≤ u.toNat ∧ u.toNat ≤ 122 then u.toNat - 87
  else if 65 ≤ u.toNat ∧ u.toNat ≤ 90 then u.toNat - 55
  else 36

def isDigit (u : UInt16) : Bool := digitValue u < 10

/-- Digits in some base, one or more. -/
def readDigits (base : ℕ) (s : JSString) : Option ℕ :=
  if s ≠ [] ∧ s.all fun u => digitValue u < base then
    some (s.foldl (fun n u => n * base + digitValue u) 0)
  else none

/-- A sign, if there is one: whether it is a minus, and what follows. -/
def readSign : JSString → Bool × JSString
  | 43 :: s => (false, s)
  | 45 :: s => (true, s)
  | s => (false, s)

/-- The exponent part of a decimal literal. -/
def readExponent : JSString → Option ℤ
  | [] => some 0
  | u :: s =>
    if u = 101 ∨ u = 69 then
      let (negative, digits) := readSign s
      (readDigits 10 digits).map fun n => if negative then -(n : ℤ) else n
    else none

/-- An unsigned decimal literal. -/
def readDecimal (s : JSString) : Option ℚ :=
  let (whole, rest) := s.span isDigit
  let (fraction, rest) := match rest with
    | 46 :: rest => rest.span isDigit
    | _ => ([], rest)
  match readDigits 10 (whole ++ fraction), readExponent rest with
  | some n, some e => some (n * 10 ^ (e - fraction.length))
  | _, _ => none

/-- `Number(s)`. -/
def toNumber (s : JSString) : JSNumber :=
  match trim s with
  | [] => .finite 0
  | 48 :: u :: digits =>
    if u = 120 ∨ u = 88 then (readDigits 16 digits).elim .nan fun n => .ofRat n
    else if u = 111 ∨ u = 79 then (readDigits 8 digits).elim .nan fun n => .ofRat n
    else if u = 98 ∨ u = 66 then (readDigits 2 digits).elim .nan fun n => .ofRat n
    else (readDecimal (48 :: u :: digits)).elim .nan .ofRat
  | s =>
    let (negative, s) := readSign s
    let value := if s = js "Infinity" then .infinity false else (readDecimal s).elim .nan .ofRat
    if negative then value.neg else value

example : toNumber (js " 1.5e1\n") = .finite 15 ∧ toNumber (js "-0x10") = .nan := by
  decide +kernel

end KeyBank
