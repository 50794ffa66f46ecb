import KeyBank.Foundation.Interleaving

/-!
# Bounded retries

`Prog.retry attempt failure n` is the loop that makes up to `n` attempts. An attempt ends the loop
with a result or asks for the next one, and after the last one the result is `failure`. Since the
attempts are programs, other threads may come in between and within them.

Inside, a finished loop is a list of failed attempts, which are `n` or are followed by one that
ended it (`path_retry_done`); from outside, a call that an attempt makes at most once is made at
most `n` times, whether or not the loop has come to its end (`countP_le_of_path_retry`).
-/

namespace Interleaving

namespace Prog

variable {I : Interface} {α β : Type}

/-! ### Sequential composition -/

/-- The second program of a sequence starts where the first is done. -/
theorem path_bind {p : Prog I α} {f : α → Prog I β} {l : List (Σ c : I.Cmd, I.Reply c)}
    {q : Prog I β} (h : Path (p >>= f) l q) :
    (∃ p', Path p l p' ∧ q = p' >>= f) ∨
      ∃ l₁ l₂ a, l = l₁ ++ l₂ ∧ Path p l₁ (done a) ∧ Path (f a) l₂ q := by
  induction p generalizing l with
  | done a => exact .inr ⟨[], l, a, rfl, .nil _, h⟩
  | call c next ih =>
    rw [call_bind] at h
    rcases path_call_iff.mp h with ⟨rfl, rfl⟩ | ⟨r, l', rfl, hrest⟩
    · exact .inl ⟨call c next, .nil _, rfl⟩
    · rcases ih r hrest with ⟨p', hp, rfl⟩ | ⟨l₁, l₂, a, rfl, hp, hq⟩
      · exact .inl ⟨p', .cons hp, rfl⟩
      · exact .inr ⟨⟨c, r⟩ :: l₁, l₂, a, rfl, .cons hp, hq⟩

/-- A sequence is finished when both of its programs are. -/
theorem path_bind_done {p : Prog I α} {f : α → Prog I β} {l : List (Σ c : I.Cmd, I.Reply c)}
    {b : β} (h : Path (p >>= f) l (done b)) :
    ∃ l₁ l₂ a, l = l₁ ++ l₂ ∧ Path p l₁ (done a) ∧ Path (f a) l₂ (done b) := by
  rcases path_bind h with ⟨p', hp, heq⟩ | h
  · cases p' with
    | done a => exact ⟨l, [], a, (List.append_nil l).symm, hp, heq ▸ .nil _⟩
    | call c next => exact absurd heq nofun
  · exact h

/-- A program whose result is only wrapped is where the program itself is. -/
theorem path_bind_pure {p : Prog I α} {f : α → β} {l : List (Σ c : I.Cmd, I.Reply c)}
    {q : Prog I β} (h : Path (p >>= fun a => done (f a)) l q) :
    ∃ p', Path p l p' ∧ q = p' >>= fun a => done (f a) := by
  rcases path_bind h with h | ⟨l₁, l₂, a, rfl, hp, hq⟩
  · exact h
  · obtain ⟨rfl, rfl⟩ := path_done_iff.mp hq
    exact ⟨done a, (List.append_nil l₁).symm ▸ hp, rfl⟩

theorem bind_pure_eq_done {p : Prog I α} {f : α → β} {b : β}
    (h : (p >>= fun a => done (f a)) = done b) : ∃ a, p = done a ∧ f a = b := by
  cases p with
  | done a => exact ⟨a, rfl, done.inj h⟩
  | call c next => exact absurd h nofun

/-! ### The loop -/

/-- Up to `n` attempts. -/
def retry (attempt : Prog I (Option α)) (failure : α) : ℕ → Prog I α
  | 0 => done failure
  | n + 1 => attempt >>= fun
    | some a => done a
    | none => retry attempt failure n

variable {attempt : Prog I (Option α)} {failure a : α} {n : ℕ}
  {l : List (Σ c : I.Cmd, I.Reply c)}

/-- A finished loop made `n` attempts that failed, or fewer and then one that gave the result. -/
theorem path_retry_done (h : Path (retry attempt failure n) l (done a)) :
    ∃ ls : List (List (Σ c : I.Cmd, I.Reply c)), (∀ l' ∈ ls, Path attempt l' (done none)) ∧
      ((ls.length = n ∧ l = ls.flatten ∧ a = failure) ∨
        ls.length < n ∧ ∃ last, l = ls.flatten ++ last ∧ Path attempt last (done (some a))) := by
  induction n generalizing l with
  | zero =>
    obtain ⟨rfl, heq⟩ := path_done_iff.mp h
    exact ⟨[], nofun, .inl ⟨rfl, rfl, done.inj heq⟩⟩
  | succ n ih =>
    obtain ⟨l₁, l₂, r, rfl, hfirst, hrest⟩ := path_bind_done h
    cases r with
    | some b =>
      obtain ⟨rfl, heq⟩ := path_done_iff.mp hrest
      obtain rfl := done.inj heq
      exact ⟨[], nofun, .inr ⟨Nat.succ_pos n, l₁, List.append_nil l₁, hfirst⟩⟩
    | none =>
      obtain ⟨ls, hls, hcase⟩ := ih hrest
      refine ⟨l₁ :: ls, List.forall_mem_cons.mpr ⟨hfirst, hls⟩, ?_⟩
      rcases hcase with ⟨rfl, rfl, rfl⟩ | ⟨hlen, last, rfl, hlast⟩
      · exact .inl ⟨rfl, rfl, rfl⟩
      · refine .inr ⟨Nat.succ_lt_succ hlen, last, ?_, hlast⟩
        rw [List.flatten_cons, List.append_assoc]

/-- A call that is made at most once in each attempt is made at most `n` times. -/
theorem countP_le_of_path_retry {c : (Σ c : I.Cmd, I.Reply c) → Bool} {q : Prog I α}
    (hc : ∀ l q, Path attempt l q → l.countP c ≤ 1) (h : Path (retry attempt failure n) l q) :
    l.countP c ≤ n := by
  induction n generalizing l with
  | zero =>
    obtain ⟨rfl, -⟩ := path_done_iff.mp h
    exact Nat.le_refl 0
  | succ n ih =>
    rcases path_bind h with ⟨p', hp, -⟩ | ⟨l₁, l₂, r, rfl, hfirst, hrest⟩
    · exact Nat.le_trans (hc l p' hp) (Nat.succ_le_succ (Nat.zero_le n))
    · have hsecond : l₂.countP c ≤ n := by
        cases r with
        | some b =>
          obtain ⟨rfl, -⟩ := path_done_iff.mp hrest
          exact Nat.zero_le n
        | none => exact ih hrest
      have hone := hc l₁ _ hfirst
      rw [List.countP_append]
      omega

end Prog

end Interleaving
