import Mathlib.Data.List.Nodup
import Mathlib.Data.List.Pairwise
import Mathlib.Order.Lattice
import Mathlib.Tactic.Common

/-!
# Ranks

In a list sorted by a strict order the position of an element is its rank: the number
of elements that come before it in the order.  So the position does not depend on how
the list came about.
-/

namespace Ranks

section Positions

variable {α : Type*} [DecidableEq α] {r : α → α → Prop} {l : List α} {a b : α}

theorem rel_of_idxOf_lt (h : l.Pairwise r) (hb : b ∈ l) (hlt : l.idxOf a < l.idxOf b) : r a b := by
  have hblt : l.idxOf b < l.length := List.idxOf_lt_length_of_mem hb
  have hrel := List.pairwise_iff_getElem.mp h _ _ (Nat.lt_trans hlt hblt) hblt hlt
  rwa [List.getElem_idxOf, List.getElem_idxOf] at hrel

theorem idxOf_lt_idxOf_iff (h : l.Pairwise r) (hasymm : ∀ a b, r a b → ¬ r b a) (ha : a ∈ l)
    (hb : b ∈ l) : l.idxOf a < l.idxOf b ↔ r a b := by
  refine ⟨rel_of_idxOf_lt h hb, fun hab ↦ ?_⟩
  rcases Nat.lt_trichotomy (l.idxOf a) (l.idxOf b) with hlt | heq | hgt
  · exact hlt
  · obtain rfl := (List.idxOf_inj ha).mp heq
    exact absurd hab (hasymm a a hab)
  · exact absurd hab (hasymm b a (rel_of_idxOf_lt h ha hgt))

theorem idxOf_eq_countP [DecidableRel r] (h : l.Pairwise r) (hasymm : ∀ a b, r a b → ¬ r b a)
    (ha : a ∈ l) : l.idxOf a = l.countP fun b ↦ r b a := by
  induction l with
  | nil => cases ha
  | cons b l ih =>
      obtain ⟨hfirst, hrest⟩ := List.pairwise_cons.mp h
      by_cases hab : b = a
      · subst hab
        have hirrefl : ¬ r b b := fun hbb ↦ hasymm b b hbb hbb
        have hnone : l.countP (fun c ↦ r c b) = 0 :=
          List.countP_eq_zero.mpr fun c hc ↦ by simpa using hasymm b c (hfirst c hc)
        rw [List.idxOf_cons_self, List.countP_cons_of_neg (by simpa using hirrefl), hnone]
      · have hmem : a ∈ l := (List.mem_cons.mp ha).resolve_left fun heq ↦ hab heq.symm
        rw [List.idxOf_cons_ne _ hab, List.countP_cons_of_pos (by simpa using hfirst a hmem),
          ih hrest hmem]

end Positions

/-! ## Sorting with ties

Elements with equal keys are told apart by their own order. -/

section Before

variable {α κ : Type*} [LinearOrder α] [LinearOrder κ] {key : α → κ} {l : List α}

/-- `a` comes before `b` by its key or, where the keys are equal, by itself. -/
def Before (key : α → κ) (a b : α) : Prop := key a < key b ∨ key a = key b ∧ a < b

instance : DecidableRel (Before key) := fun _ _ ↦ inferInstanceAs (Decidable (_ ∨ _))

theorem Before.asymm (a b : α) (h : Before key a b) : ¬ Before key b a := by
  rintro (hlt | ⟨heq, hlt⟩)
  · rcases h with hlt' | ⟨heq', -⟩
    · exact lt_asymm hlt hlt'
    · exact hlt.ne' heq'
  · rcases h with hlt' | ⟨-, hlt'⟩
    · exact hlt'.ne' heq
    · exact lt_asymm hlt hlt'

/-- A list sorted by key, whose ties are in order. -/
theorem pairwise_before (hsorted : l.Pairwise fun a b ↦ key a ≤ key b)
    (hstable : l.Pairwise fun a b ↦ key a = key b → a < b) : l.Pairwise (Before key) := by
  apply (hsorted.and hstable).imp
  intro a b h
  rcases h.1.lt_or_eq with hlt | heq
  · exact .inl hlt
  · exact .inr ⟨heq, h.2 heq⟩

end Before

end Ranks
