import Mathlib.Data.List.Infix

/-!
# First occurrences of a marker

A search for a marker `m` in a text finds the place after `before` when `m` stands there and no
occurrence starts in `before` (`StartsIn`). Whether one does is decided piece by piece
(`startsIn_append_iff`): a piece without the first letter of the marker starts none, and an
occurrence that reaches from one piece into the next has an end that the next piece begins with
(`StartsIn.isInfix`).
-/

namespace Occurrence

variable {α : Type*} {a : α} {m before after b c t : List α}

/-- In the text `before ++ after` an occurrence of `m` starts in `before`. -/
def StartsIn (m before after : List α) : Prop := ∃ q, q ≠ [] ∧ q <:+ before ∧ m <+: q ++ after

theorem not_startsIn_nil : ¬ StartsIn m [] after := by
  rintro ⟨q, hq, hsuffix, -⟩
  exact hq (List.suffix_nil.mp hsuffix)

theorem startsIn_cons_iff :
    StartsIn m (a :: before) after ↔ m <+: a :: (before ++ after) ∨ StartsIn m before after := by
  constructor
  · rintro ⟨q, hq, hsuffix, hocc⟩
    obtain rfl | hsuffix := List.suffix_cons_iff.mp hsuffix
    · exact .inl hocc
    · exact .inr ⟨q, hq, hsuffix, hocc⟩
  · rintro (hocc | ⟨q, hq, hsuffix, hocc⟩)
    · exact ⟨a :: before, List.cons_ne_nil a before, List.suffix_refl _, hocc⟩
    · exact ⟨q, hq, hsuffix.trans (List.suffix_cons a before), hocc⟩

theorem startsIn_append_iff :
    StartsIn m (b ++ c) after ↔ StartsIn m b (c ++ after) ∨ StartsIn m c after := by
  induction b with
  | nil => simp [not_startsIn_nil]
  | cons a b ih => rw [List.cons_append, startsIn_cons_iff, startsIn_cons_iff, ih,
      List.append_assoc, or_assoc]

/-- A text without the first letter of the marker starts none. -/
theorem not_startsIn_of_notMem (ha : a ∉ before) : ¬ StartsIn (a :: m) before after := by
  rintro ⟨q, hq, hsuffix, hocc⟩
  obtain ⟨u, q, rfl⟩ := List.exists_cons_of_ne_nil hq
  obtain ⟨rfl, -⟩ := List.cons_prefix_cons.mp hocc
  exact ha (hsuffix.subset List.mem_cons_self)

/-- **Straddling.** If the ends of the marker with which `b` begins are beginnings of `t`, then a
marker that starts before `b` is seen in `before ++ t` already. -/
theorem StartsIn.isInfix (h : StartsIn m before (b ++ after)) (hlength : m.length ≤ b.length)
    (hends : ∀ k < m.length, 0 < k → m.drop k <+: b → m.drop k <+: t) : m <:+: before ++ t := by
  obtain ⟨q, hq, ⟨r, rfl⟩, hocc⟩ := h
  have hpos := List.length_pos_iff.mpr hq
  obtain hlt | hle := Nat.lt_or_ge q.length m.length
  · have hqm : q <+: m :=
      List.prefix_of_prefix_length_le (List.prefix_append q _) hocc hlt.le
    obtain ⟨d, rfl⟩ := hqm
    rw [List.length_append] at hlt hlength
    -- What is left of the marker after `q` is one of its ends.
    have hd : d <+: b := List.prefix_of_prefix_length_le
      ((List.prefix_append_right_inj q).mp hocc) (List.prefix_append b after) (by omega)
    have hend := hends q.length (by rw [List.length_append]; omega) hpos
    rw [List.drop_left] at hend
    rw [List.append_assoc]
    exact ((List.prefix_append_right_inj q).mpr (hend hd)).isInfix.trans
      (List.suffix_append r _).isInfix
  · have hmq : m <+: q := List.prefix_of_prefix_length_le hocc (List.prefix_append q _) hle
    exact (hmq.isInfix.trans (List.suffix_append r q).isInfix).trans (List.prefix_append _ t).isInfix

end Occurrence
