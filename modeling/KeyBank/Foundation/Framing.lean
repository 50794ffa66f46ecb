import Mathlib.Data.List.Basic

/-!
# Reading frames off a stream

A `Reader` takes a value off the front of a stream, or fails; either way something of the stream may
have been used up. `Reads r text out` says that `text` is a frame of `r`: whatever follows it, `r`
uses up `text` and nothing else, and the outcome is `out`. So what follows a frame cannot change how
it is read, and what is in it cannot be taken for what follows.

Frames compose as the readers do (`Reads.bind`, `Reads.many`). The two primitive readers take
everything through a delimiter (`takeThrough`) and a given number of items (`takeFull`).
-/

/-- A reader of streams of `β`. -/
def Reader (ε β α : Type) : Type := List β → Except ε α × List β

namespace Reader

variable {ε β α γ : Type}

/-- Run `r`, then `f` on its value. -/
def bind (r : Reader ε β α) (f : α → Reader ε β γ) : Reader ε β γ := fun s =>
  match r s with
  | (.ok a, s) => f a s
  | (.error e, s) => (.error e, s)

instance : Monad (Reader ε β) where
  pure a := fun s => (.ok a, s)
  bind := bind

/-- Use up nothing and fail. -/
def fail (e : ε) : Reader ε β α := fun s => (.error e, s)

/-- Use up nothing; the value may be missing. -/
def ofOption (e : ε) (a : Option α) : Reader ε β α := fun s =>
  (match a with
    | some a => .ok a
    | none => .error e, s)

/-- Everything through the first `b`; without one, the stream comes to its end. -/
def takeThrough [DecidableEq β] (e : ε) (b : β) : Reader ε β (List β) := fun s =>
  if b ∈ s then (.ok (s.takeWhile (· ≠ b) ++ [b]), (s.dropWhile (· ≠ b)).tail) else (.error e, [])

/-- The next `n` items; with fewer, the stream comes to its end. -/
def takeFull (e : ε) (n : ℕ) : Reader ε β (List β) := fun s =>
  if n ≤ s.length then (.ok (s.take n), s.drop n) else (.error e, [])

/-- `n` values, one after the other. -/
def many (r : Reader ε β α) : ℕ → Reader ε β (List α)
  | 0 => pure []
  | n + 1 => do
    let a ← r
    let as ← r.many n
    pure (a :: as)

/-- `text` is a frame of `r`. -/
def Reads (r : Reader ε β α) (text : List β) (out : Except ε α) : Prop :=
  ∀ rest, r (text ++ rest) = (out, rest)

namespace Reads

variable {r : Reader ε β α} {f : α → Reader ε β γ} {text more : List β} {a : α} {e : ε}
  {out : Except ε γ}

theorem pure (a : α) : Reads (pure a : Reader ε β α) [] (.ok a) := fun _ => rfl

theorem fail (e : ε) : Reads (fail e : Reader ε β α) [] (.error e) := fun _ => rfl

theorem ofOption_some (e : ε) (a : α) :
    Reads (ofOption e (some a) : Reader ε β α) [] (.ok a) := fun _ => rfl

/-- One frame after the other. -/
theorem bind (h : Reads r text (.ok a)) (hf : Reads (f a) more out) :
    Reads (r >>= f) (text ++ more) out := by
  intro rest
  have hr : r (text ++ more ++ rest) = (.ok a, more ++ rest) := by
    rw [List.append_assoc]
    exact h (more ++ rest)
  show Reader.bind r f (text ++ more ++ rest) = _
  rw [Reader.bind, hr]
  exact hf rest

/-- The rest of the frame is empty. -/
theorem bind_nil (h : Reads r text (.ok a)) (hf : Reads (f a) [] out) :
    Reads (r >>= f) text out := by
  have hbind := h.bind hf
  rwa [List.append_nil] at hbind

/-- Nothing is read after a failure. -/
theorem bind_error (h : Reads r text (.error e)) : Reads (r >>= f) text (.error e) := by
  intro rest
  show Reader.bind r f (text ++ rest) = _
  rw [Reader.bind, h rest]

/-- A sequence of frames. -/
theorem many {w : α → List β} {as : List α} (h : ∀ a ∈ as, Reads r (w a) (.ok a)) :
    Reads (r.many as.length) (as.flatMap w) (.ok as) := by
  induction as with
  | nil => exact .pure []
  | cons a as ih =>
    rw [List.forall_mem_cons] at h
    rw [List.flatMap_cons, List.length_cons, Reader.many]
    exact h.1.bind ((ih h.2).bind_nil (.pure (a :: as)))

/-- A frame is read in one way only. -/
theorem unique {out out' : Except ε α} (h : Reads r text out) (h' : Reads r text out') :
    out = out' :=
  (Prod.ext_iff.mp ((h []).symm.trans (h' []))).1

end Reads

/-- A line: no delimiter but the last. -/
theorem reads_takeThrough [DecidableEq β] (e : ε) {b : β} {line : List β} (h : b ∉ line) :
    Reads (takeThrough e b) (line ++ [b]) (.ok (line ++ [b])) := by
  intro rest
  have hne : ∀ x ∈ line, decide (x ≠ b) = true := by
    intro x hx
    rw [decide_eq_true_eq]
    rintro rfl
    exact h hx
  rw [takeThrough, if_pos (by simp), List.append_assoc, List.singleton_append,
    List.takeWhile_append_of_pos hne, List.dropWhile_append_of_pos hne]
  simp

theorem reads_takeFull (e : ε) (l : List β) : Reads (takeFull e l.length) l (.ok l) := by
  intro rest
  rw [takeFull, if_pos (by simp), List.take_left, List.drop_left]

end Reader
