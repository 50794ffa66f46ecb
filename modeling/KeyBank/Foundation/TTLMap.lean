import Mathlib.Data.Int.Notation
import Mathlib.Data.Nat.Notation
import Mathlib.Logic.Function.Basic

/-!
# Maps whose entries expire

`TTLMap K V` is a flat key space in which an entry may carry an expiry instant. An entry is
visible up to and including that instant; afterwards no reader sees it, whether or not it has
been removed. Instants are integers on one clock, in any unit.

What a reader sees at an instant is `live`. Every operation gets lemmas that say what `live` is
after it, at the key it works on and at every other key (the frame), and only those are used.
-/

/-- A value and the last instant at which it may be read; `none` means for ever. -/
structure TTLEntry (V : Type) where
  value : V
  expiry : Option ℤ
  deriving DecidableEq, Repr

/-- Whether the entry may still be read. -/
def TTLEntry.visible {V : Type} (e : TTLEntry V) (now : ℤ) : Bool :=
  e.expiry.all fun x => now ≤ x

/-- A key space with expiring entries. -/
abbrev TTLMap (K V : Type) : Type := K → Option (TTLEntry V)

namespace TTLMap

variable {K V : Type}

/-- What a reader sees at an instant. -/
def live (m : TTLMap K V) (now : ℤ) (k : K) : Option (TTLEntry V) :=
  (m k).filter fun e => e.visible now

/-! ### What a reader sees -/

theorem live_eq_some_iff {m : TTLMap K V} {now : ℤ} {k : K} {e : TTLEntry V} :
    m.live now k = some e ↔ m k = some e ∧ e.visible now = true := by
  simp [live, Option.filter_eq_some_iff]

theorem visible_of_le {e : TTLEntry V} {t t' : ℤ} (h : t ≤ t') (he : e.visible t' = true) :
    e.visible t = true := by
  cases hx : e.expiry with
  | none => simp [TTLEntry.visible, hx]
  | some x =>
    simp only [TTLEntry.visible, hx, Option.all_some, decide_eq_true_eq] at he ⊢
    exact Int.le_trans h he

/-- Time only takes entries away. -/
theorem live_of_le {m : TTLMap K V} {t t' : ℤ} {k : K} {e : TTLEntry V} (h : t ≤ t')
    (he : m.live t' k = some e) : m.live t k = some e := by
  rw [live_eq_some_iff] at he ⊢
  exact ⟨he.1, visible_of_le h he.2⟩

theorem live_eq_none_of_le {m : TTLMap K V} {t t' : ℤ} {k : K} (h : t ≤ t')
    (hk : m.live t k = none) : m.live t' k = none := by
  cases he : m.live t' k with
  | none => rfl
  | some e => rw [live_of_le h he] at hk; simp at hk

/-- The last instant at which an entry with expiry `x` is seen is `x` itself. -/
theorem le_expiry_of_live {m : TTLMap K V} {t : ℤ} {k : K} {e : TTLEntry V} {x : ℤ}
    (he : m.live t k = some e) (hx : e.expiry = some x) : t ≤ x := by
  have hv := (live_eq_some_iff.mp he).2
  simpa [TTLEntry.visible, hx] using hv

/-! ### The operations -/

variable [DecidableEq K]

/-- Write an entry, replacing value and expiry. -/
def set (m : TTLMap K V) (k : K) (e : TTLEntry V) : TTLMap K V := Function.update m k (some e)

/-- Remove a key. -/
def erase (m : TTLMap K V) (k : K) : TTLMap K V := Function.update m k none

@[simp] theorem set_self (m : TTLMap K V) (k : K) (e : TTLEntry V) : m.set k e k = some e := by
  simp [set]

@[simp] theorem set_ne {m : TTLMap K V} {k k' : K} (e : TTLEntry V) (h : k' ≠ k) :
    m.set k e k' = m k' := by
  simp [set, h]

@[simp] theorem erase_self (m : TTLMap K V) (k : K) : m.erase k k = none := by
  simp [erase]

@[simp] theorem erase_ne {m : TTLMap K V} {k k' : K} (h : k' ≠ k) : m.erase k k' = m k' := by
  simp [erase, h]

theorem live_set_self (m : TTLMap K V) (k : K) (e : TTLEntry V) (t : ℤ) :
    (m.set k e).live t k = if e.visible t then some e else none := by
  by_cases h : e.visible t = true <;> simp [live, h]

@[simp] theorem live_set_ne {m : TTLMap K V} {k k' : K} (e : TTLEntry V) (t : ℤ) (h : k' ≠ k) :
    (m.set k e).live t k' = m.live t k' := by
  simp [live, h]

@[simp] theorem live_erase_self (m : TTLMap K V) (k : K) (t : ℤ) :
    (m.erase k).live t k = none := by
  simp [live]

@[simp] theorem live_erase_ne {m : TTLMap K V} {k k' : K} (t : ℤ) (h : k' ≠ k) :
    (m.erase k).live t k' = m.live t k' := by
  simp [live, h]

/-! ### A property of all values -/

theorem forall_value_set {P : V → Prop} {m : TTLMap K V} (h : ∀ k e, m k = some e → P e.value)
    (k : K) {e : TTLEntry V} (he : P e.value) : ∀ k' e', m.set k e k' = some e' → P e'.value := by
  intro k' e' hk'
  by_cases hkk' : k' = k
  · subst hkk'
    rw [set_self, Option.some.injEq] at hk'
    exact hk' ▸ he
  · rw [set_ne e hkk'] at hk'
    exact h k' e' hk'

theorem forall_value_erase {P : V → Prop} {m : TTLMap K V}
    (h : ∀ k e, m k = some e → P e.value) (k : K) :
    ∀ k' e', m.erase k k' = some e' → P e'.value := by
  intro k' e' hk'
  by_cases hkk' : k' = k
  · subst hkk'
    rw [erase_self] at hk'
    cases hk'
  · rw [erase_ne hkk'] at hk'
    exact h k' e' hk'

end TTLMap
