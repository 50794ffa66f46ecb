import Mathlib.Data.List.Basic

/-!
# Calls of an asynchronous function

The calls made so far are a list, each with what it is waiting for; a call that has returned is
`done`. A function that is guarded against being called again while a call is under way has at most
its last call under way: either all are done (`AllDone`) or all but the last (`LastCall`). The two
are kept by a new call, and by what happens to a call that is under way.
-/

namespace Calls

variable {α : Type} {done h h' x : α} {calls : List α} {i j : ℕ}

/-- Every call has returned. -/
def AllDone (done : α) (calls : List α) : Prop := ∀ h ∈ calls, h = done

/-- Every call but the last, `h`, has returned. -/
def LastCall (done : α) (calls : List α) (h : α) : Prop :=
  ∃ returned, calls = returned ++ [h] ∧ AllDone done returned

@[simp] theorem allDone_nil : AllDone done [] := nofun

theorem AllDone.concat (hdone : AllDone done calls) (h : α) : LastCall done (calls ++ [h]) h :=
  ⟨calls, rfl, hdone⟩

theorem LastCall.allDone (hlast : LastCall done calls done) : AllDone done calls := by
  obtain ⟨returned, rfl, hreturned⟩ := hlast
  intro h hmem
  exact (List.mem_append.mp hmem).elim (hreturned h) List.mem_singleton.mp

theorem LastCall.eq_or_eq (hlast : LastCall done calls h) (hx : x ∈ calls) : x = done ∨ x = h := by
  obtain ⟨returned, rfl, hreturned⟩ := hlast
  exact (List.mem_append.mp hx).imp (hreturned x) List.mem_singleton.mp

theorem AllDone.concat_done (hdone : AllDone done calls) : AllDone done (calls ++ [done]) :=
  (hdone.concat done).allDone

/-- A call that is under way is not one of several that are done. -/
theorem AllDone.eq_done (hdone : AllDone done calls) (hi : calls[i]? = some h) : h = done :=
  hdone h (List.mem_of_getElem? hi)

/-- A call that is under way is the last one. -/
theorem LastCall.eq (hlast : LastCall done calls h) (hi : calls[i]? = some h') (hne : h' ≠ done) :
    i + 1 = calls.length ∧ h' = h := by
  obtain ⟨returned, rfl, hreturned⟩ := hlast
  rw [List.length_append, List.length_singleton]
  obtain hlt | rfl | hgt := Nat.lt_trichotomy i returned.length
  · rw [List.getElem?_append_left hlt] at hi
    exact absurd (AllDone.eq_done hreturned hi) hne
  · rw [List.getElem?_concat_length, Option.some.injEq] at hi
    exact ⟨rfl, hi.symm⟩
  · have hlength : (returned ++ [h]).length ≤ i := by
      rw [List.length_append, List.length_singleton]
      exact hgt
    rw [List.getElem?_eq_none hlength] at hi
    exact absurd hi nofun

/-- A call that is under way goes on to `x`. -/
theorem LastCall.set (hlast : LastCall done calls h) (hi : calls[i]? = some h') (hne : h' ≠ done)
    (x : α) : LastCall done (calls.set i x) x := by
  obtain ⟨hlength, -⟩ := hlast.eq hi hne
  obtain ⟨returned, rfl, hreturned⟩ := hlast
  obtain rfl : i = returned.length := by simpa using hlength
  exact ⟨returned, by simp, hreturned⟩

end Calls
