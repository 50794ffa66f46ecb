import Mathlib.Data.Int.Notation
import Mathlib.Data.List.Induction

/-!
# Fixed-window quotas

Requests arrive one after another on one clock. A window of length `W` opens at the first request
that no earlier window covers and covers every request up to `W` later, its last instant
included. A fixed-window counter counts the requests of the current window, admitted or not, and
admits those whose number does not exceed the limit.

* `Window`, `hit`: the counter's state and what one request does to it.
* `decisions`: the answers of a counter along a list of arrival times.
* `windows`: the greedy cut of a list of answered requests into windows.
* `exact_decisions`: along a window the counter admits the first `limit` requests and no other, so
  that no window has more admissions than the limit (`quota_decisions`).
* `admitted_within_le`: an interval no longer than a window meets at most two windows, and has at
  most twice as many admissions.
-/

namespace FixedWindow

/-- The current window: where it opened and how many requests it has seen. -/
structure Window where
  start : ℤ
  calls : ℕ
  deriving DecidableEq, Repr

/-- One request at time `t`: it falls in the current window or opens a new one. -/
def hit (W : ℤ) (cur : Option Window) (t : ℤ) : Window :=
  match cur with
  | some w => if t ≤ w.start + W then ⟨w.start, w.calls + 1⟩ else ⟨t, 1⟩
  | none => ⟨t, 1⟩

/-- The answers of a counter with the given limit, each with its arrival time. -/
def decisions (W limit : ℤ) : Option Window → List ℤ → List (ℤ × Bool)
  | _, [] => []
  | cur, t :: ts =>
    (t, decide (((hit W cur t).calls : ℤ) ≤ limit)) :: decisions W limit (some (hit W cur t)) ts

/-- Cut the rest of a list into windows, the current one open since `start` and holding `cur`
in reverse. -/
def windowsFrom (W start : ℤ) (cur : List (ℤ × Bool)) :
    List (ℤ × Bool) → List (List (ℤ × Bool))
  | [] => [cur.reverse]
  | (t, b) :: l =>
    if t ≤ start + W then windowsFrom W start ((t, b) :: cur) l
    else cur.reverse :: windowsFrom W t [(t, b)] l

/-- The greedy cut: a window opens at the first request not covered by an earlier one. -/
def windows (W : ℤ) : List (ℤ × Bool) → List (List (ℤ × Bool))
  | [] => []
  | (t, b) :: l => windowsFrom W t [(t, b)] l

/-- How many requests of a list were admitted. -/
def admitted (l : List (ℤ × Bool)) : ℕ := l.countP fun p => p.2

/-- The quota: no window admits more than `limit` requests. -/
def Quota (W limit : ℤ) (l : List (ℤ × Bool)) : Prop :=
  ∀ w ∈ windows W l, (admitted w : ℤ) ≤ limit

instance (W limit : ℤ) (l : List (ℤ × Bool)) : Decidable (Quota W limit l) :=
  inferInstanceAs (Decidable (∀ w ∈ windows W l, (admitted w : ℤ) ≤ limit))

/-- A request in the open window is counted. -/
theorem hit_of_open {W t : ℤ} {cur : Option Window} {w : Window}
    (h : (cur.filter fun w => t ≤ w.start + W) = some w) : hit W cur t = ⟨w.start, w.calls + 1⟩ := by
  obtain ⟨rfl, ht⟩ := Option.filter_eq_some_iff.mp h
  simp only [decide_eq_true_eq] at ht
  simp [hit, ht]

/-- A request that finds no open window opens one. -/
theorem hit_of_closed {W t : ℤ} {cur : Option Window}
    (h : (cur.filter fun w => t ≤ w.start + W) = none) : hit W cur t = ⟨t, 1⟩ := by
  cases cur with
  | none => rfl
  | some w =>
    have ht : ¬ t ≤ w.start + W := by simpa [Option.filter] using h
    simp [hit, ht]

/-- Every request is answered, in order. -/
theorem map_fst_decisions (W limit : ℤ) (cur : Option Window) (ts : List ℤ) :
    (decisions W limit cur ts).map Prod.fst = ts := by
  induction ts generalizing cur with
  | nil => rfl
  | cons t ts ih => rw [decisions, List.map_cons, ih]

@[simp] theorem admitted_nil : admitted [] = 0 := rfl

/-! ### The answers along a window -/

/-- The requests of a window are admitted as long as their number does not exceed the limit. -/
def Exact (limit : ℤ) (w : List (ℤ × Bool)) : Prop :=
  ∀ j p, w[j]? = some p → p.2 = decide (((j + 1 : ℕ) : ℤ) ≤ limit)

theorem Exact.concat {limit : ℤ} {w : List (ℤ × Bool)} (h : Exact limit w) (t : ℤ) :
    Exact limit (w ++ [(t, decide (((w.length + 1 : ℕ) : ℤ) ≤ limit))]) := by
  intro j p hj
  rcases Nat.lt_or_ge j w.length with hlt | hge
  · rw [List.getElem?_append_left hlt] at hj
    exact h j p hj
  · rw [List.getElem?_append_right hge, List.getElem?_singleton, Option.ite_none_right_eq_some,
      Option.some.injEq] at hj
    obtain ⟨hzero, rfl⟩ := hj
    obtain rfl : j = w.length := by omega
    rfl

/-- So no more of them are admitted than the limit allows. -/
theorem Exact.admitted_le {limit : ℤ} (h0 : 0 ≤ limit) {w : List (ℤ × Bool)} (h : Exact limit w) :
    (admitted w : ℤ) ≤ limit := by
  induction w using List.reverseRecOn with
  | nil => exact h0
  | append_singleton w p ih =>
    have hw : Exact limit w := fun j q hj => h j q (by
      rw [List.getElem?_append_left (List.getElem?_eq_some_iff.mp hj).1, hj])
    have hp := h w.length p List.getElem?_concat_length
    have hlength : admitted w ≤ w.length := List.countP_le_length
    have hsum : admitted (w ++ [p]) = admitted w + if p.2 then 1 else 0 := by
      rw [admitted, List.countP_append, List.countP_singleton, admitted]
    rw [hsum]
    split
    · -- The last request is admitted, so the window has no more requests than that.
      next hlast =>
      rw [hp, decide_eq_true_iff] at hlast
      omega
    · exact ih hw

/-- The run of one window: the requests it has seen are in `cur`, in reverse. -/
private theorem exact_windowsFrom {W limit start : ℤ} {cur : List (ℤ × Bool)} {ts : List ℤ}
    (hcur : Exact limit cur.reverse) :
    ∀ w ∈ windowsFrom W start cur (decisions W limit (some ⟨start, cur.length⟩) ts),
      Exact limit w := by
  induction ts generalizing start cur with
  | nil =>
    intro w hw
    rwa [List.mem_singleton.mp hw]
  | cons t ts ih =>
    by_cases ht : t ≤ start + W
    · simp only [decisions, hit, ht, if_true, windowsFrom]
      have hnext := hcur.concat t
      rw [List.length_reverse, ← List.reverse_cons] at hnext
      exact ih hnext
    · simp only [decisions, hit, ht, if_false, windowsFrom]
      intro w hw
      rcases List.mem_cons.mp hw with rfl | hw
      · exact hcur
      · exact ih (Exact.concat (w := []) nofun t) w hw

/-- **The counter is exact** along every window. -/
theorem exact_decisions (W limit : ℤ) (ts : List ℤ) :
    ∀ w ∈ windows W (decisions W limit none ts), Exact limit w := by
  rcases ts with _ | ⟨t, ts⟩
  · exact nofun
  · exact exact_windowsFrom (Exact.concat (w := []) nofun t)

/-- **The counter keeps the quota.** -/
theorem quota_decisions {W limit : ℤ} (h0 : 0 ≤ limit) (ts : List ℤ) :
    Quota W limit (decisions W limit none ts) :=
  fun w hw => (exact_decisions W limit ts w hw).admitted_le h0

/-! ### Intervals -/

/-- The requests between two instants. -/
def within (a b : ℤ) (l : List (ℤ × Bool)) : List (ℤ × Bool) :=
  l.filter fun p => a ≤ p.1 ∧ p.1 ≤ b

/-- Windows one after the other, the first of them opened at `start`: each covers its requests and
ends before the next one opens. -/
inductive Cut (W : ℤ) : ℤ → List (List (ℤ × Bool)) → Prop
  | last {start : ℤ} {w : List (ℤ × Bool)} (hw : ∀ p ∈ w, start ≤ p.1 ∧ p.1 ≤ start + W) :
    Cut W start [w]
  | cons {start next : ℤ} {w : List (ℤ × Bool)} {ws : List (List (ℤ × Bool))}
      (hw : ∀ p ∈ w, start ≤ p.1 ∧ p.1 ≤ start + W) (hnext : start + W < next)
      (hws : Cut W next ws) : Cut W start (w :: ws)

theorem cut_windowsFrom {W start : ℤ} (hW : 0 ≤ W) {cur l : List (ℤ × Bool)}
    (hcur : ∀ p ∈ cur, start ≤ p.1 ∧ p.1 ≤ start + W) (hstart : ∀ p ∈ l, start ≤ p.1)
    (hl : l.Pairwise fun p q => p.1 ≤ q.1) : Cut W start (windowsFrom W start cur l) := by
  have hreverse : ∀ {cur : List (ℤ × Bool)} {start : ℤ},
      (∀ p ∈ cur, start ≤ p.1 ∧ p.1 ≤ start + W) →
        ∀ p ∈ cur.reverse, start ≤ p.1 ∧ p.1 ≤ start + W :=
    fun h p hp => h p (List.mem_reverse.mp hp)
  induction l generalizing start cur with
  | nil => exact .last (hreverse hcur)
  | cons p l ih =>
    obtain ⟨t, answer⟩ := p
    rw [List.forall_mem_cons] at hstart
    obtain ⟨hlater, hl⟩ := List.pairwise_cons.mp hl
    rw [windowsFrom]
    split
    · next ht => exact ih (List.forall_mem_cons.mpr ⟨⟨hstart.1, ht⟩, hcur⟩) hstart.2 hl
    · next ht =>
      refine .cons (hreverse hcur) (Int.not_le.mp ht) (ih (fun q hq => ?_) hlater hl)
      obtain rfl := List.mem_singleton.mp hq
      exact ⟨Int.le_refl t, Int.le_add_of_nonneg_right hW⟩

theorem flatten_windowsFrom (W start : ℤ) (cur l : List (ℤ × Bool)) :
    (windowsFrom W start cur l).flatten = cur.reverse ++ l := by
  induction l generalizing start cur with
  | nil => simp [windowsFrom]
  | cons p l ih =>
    rw [windowsFrom]
    split
    · rw [ih, List.reverse_cons, List.append_assoc, List.singleton_append]
    · rw [List.flatten_cons, ih]
      rfl

/-- The windows of a list have its requests, in order. -/
theorem flatten_windows (W : ℤ) (l : List (ℤ × Bool)) : (windows W l).flatten = l := by
  rcases l with _ | ⟨p, l⟩
  · rfl
  · exact flatten_windowsFrom W p.1 [p] l

section Intervals

variable {W limit start a b : ℤ} {ws : List (List (ℤ × Bool))}

theorem admitted_within_le_admitted (a b : ℤ) (l : List (ℤ × Bool)) :
    admitted (within a b l) ≤ admitted l := List.filter_sublist.countP_le

theorem admitted_within_append (a b : ℤ) (l m : List (ℤ × Bool)) :
    admitted (within a b (l ++ m)) = admitted (within a b l) + admitted (within a b m) := by
  rw [within, List.filter_append, admitted, List.countP_append]
  rfl

/-- No request comes before the first window opens. -/
theorem Cut.le (hW : 0 ≤ W) (hcut : Cut W start ws) : ∀ p ∈ ws.flatten, start ≤ p.1 := by
  induction hcut with
  | last hw =>
    intro p hp
    rw [List.flatten_singleton] at hp
    exact (hw p hp).1
  | cons hw hnext _ ih =>
    intro p hp
    rcases List.mem_append.mp hp with hp | hp
    · exact (hw p hp).1
    · have hle := ih p hp
      omega

/-- An interval that ends with the first window sees no other. -/
theorem Cut.admitted_le (hW : 0 ≤ W) (hcut : Cut W start ws)
    (hquota : ∀ w ∈ ws, (admitted w : ℤ) ≤ limit) (hb : b ≤ start + W) :
    (admitted (within a b ws.flatten) : ℤ) ≤ limit := by
  have hfirst : ∀ {w : List (ℤ × Bool)}, w ∈ ws → (admitted (within a b w) : ℤ) ≤ limit :=
    fun hw => Int.le_trans (Int.ofNat_le.mpr (admitted_within_le_admitted a b _)) (hquota _ hw)
  rcases hcut with hw | @⟨_, next, w, ws, hw, hnext, hws⟩
  · rw [List.flatten_singleton]
    exact hfirst List.mem_cons_self
  · have hnone : within a b ws.flatten = [] := by
      rw [within, List.filter_eq_nil_iff]
      intro p hp
      have hle := hws.le hW p hp
      rw [decide_eq_true_iff]
      omega
    rw [List.flatten_cons, admitted_within_append, hnone, admitted_nil, Nat.add_zero]
    exact hfirst List.mem_cons_self

/-- **An interval no longer than a window** meets two windows at most. -/
theorem Cut.admitted_le_two (hW : 0 ≤ W) (h0 : 0 ≤ limit) (hcut : Cut W start ws)
    (hquota : ∀ w ∈ ws, (admitted w : ℤ) ≤ limit) (hab : b ≤ a + W) :
    (admitted (within a b ws.flatten) : ℤ) ≤ 2 * limit := by
  induction hcut with
  | @last start w hw =>
    have hle := admitted_within_le_admitted a b w
    have hlimit := hquota w List.mem_cons_self
    rw [List.flatten_singleton]
    omega
  | @cons start next w ws hw hnext hws ih =>
    rw [List.forall_mem_cons] at hquota
    rw [List.flatten_cons, admitted_within_append]
    by_cases hmeets : ∃ p ∈ w, a ≤ p.1
    · -- The interval begins before the next window opens, so it ends with that window.
      obtain ⟨p, hp, hap⟩ := hmeets
      have hend := (hw p hp).2
      have hrest := hws.admitted_le (a := a) (b := b) hW hquota.2 (by omega)
      have hle := admitted_within_le_admitted a b w
      omega
    · have hnone : within a b w = [] := by
        rw [within, List.filter_eq_nil_iff]
        intro p hp
        have hbefore : ¬a ≤ p.1 := fun hap => hmeets ⟨p, hp, hap⟩
        rw [decide_eq_true_iff]
        exact fun hin => hbefore hin.1
      rw [hnone, admitted_nil, Nat.zero_add]
      exact ih hquota.2

/-- The same of a list of answered requests in order of time. -/
theorem admitted_within_le (hW : 0 ≤ W) (h0 : 0 ≤ limit) {l : List (ℤ × Bool)}
    (hl : l.Pairwise fun p q => p.1 ≤ q.1) (hquota : Quota W limit l) (hab : b ≤ a + W) :
    (admitted (within a b l) : ℤ) ≤ 2 * limit := by
  rcases l with _ | ⟨p, l⟩
  · exact Int.mul_nonneg (by omega) h0
  · obtain ⟨hlater, hl⟩ := List.pairwise_cons.mp hl
    have hfirst : ∀ q ∈ [p], p.1 ≤ q.1 ∧ q.1 ≤ p.1 + W := by
      intro q hq
      obtain rfl := List.mem_singleton.mp hq
      exact ⟨Int.le_refl _, Int.le_add_of_nonneg_right hW⟩
    have hcut : Cut W p.1 (windows W (p :: l)) := cut_windowsFrom hW hfirst hlater hl
    have hle := hcut.admitted_le_two (a := a) (b := b) hW h0 hquota hab
    rwa [flatten_windows] at hle

end Intervals

end FixedWindow
