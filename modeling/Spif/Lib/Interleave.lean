import Mathlib.Algebra.BigOperators.Group.Finset.Piecewise
import Mathlib.Algebra.Order.Group.Multiset

/-!
# Interleavings

Several streams are merged into one list, in which every word is marked with the side that
it comes from.  Seen from one side, an interleaving is that side's stream.
-/

namespace Interleave

variable {κ α β : Type*} [DecidableEq κ] {xs : List (κ × α)} {streams : κ → List α}

def side (k : κ) (x : κ × α) : Option α := if x.1 = k then some x.2 else none

def Interleaves (xs : List (κ × α)) (streams : κ → List α) : Prop :=
  ∀ k, xs.filterMap (side k) = streams k

theorem interleaves_self (xs : List (κ × α)) : Interleaves xs fun k ↦ xs.filterMap (side k) :=
  fun _ ↦ rfl

theorem Interleaves.mem_iff (h : Interleaves xs streams) {k : κ} {a : α} :
    a ∈ streams k ↔ (k, a) ∈ xs := by
  rw [← h k, List.mem_filterMap]
  constructor
  · rintro ⟨⟨j, b⟩, hx, hside⟩
    obtain ⟨rfl, hb⟩ := Option.ite_none_right_eq_some.mp hside
    exact Option.some.inj hb ▸ hx
  · exact fun hx ↦ ⟨(k, a), hx, if_pos rfl⟩

/-- No word is lost and none is repeated. -/
theorem Interleaves.sum_coe [Fintype κ] (h : Interleaves xs streams) :
    ∑ k, (streams k : Multiset α) = (xs.map Prod.snd : List α) := by
  have hstreams : streams = fun k ↦ xs.filterMap (side k) := funext fun k ↦ (h k).symm
  subst hstreams
  induction xs with
  | nil => simp
  | cons x xs ih =>
      have hcons (k : κ) : (((x :: xs).filterMap (side k) : List α) : Multiset α) =
          (if x.1 = k then {x.2} else 0) + (xs.filterMap (side k) : List α) := by
        rw [List.filterMap_cons, side]
        split <;> simp_all
      simp only [hcons]
      rw [Finset.sum_add_distrib, ih (interleaves_self xs), Finset.sum_ite_eq,
        if_pos (Finset.mem_univ _)]
      rfl

/-- Where the words of one side can be told from all others, the interleaving holds them in
the order of that side. -/
theorem Interleaves.filter_eq (h : Interleaves xs streams) {g : α → Bool} {k : κ}
    (hside : ∀ a ∈ streams k, g a = true) (hother : ∀ j, j ≠ k → ∀ a ∈ streams j, g a = false) :
    (xs.map Prod.snd).filter g = streams k := by
  have hsort : ∀ x ∈ xs, g x.2 = decide (x.1 = k) := by
    intro x hx
    have hmem : x.2 ∈ streams x.1 := h.mem_iff.mpr hx
    by_cases hk : x.1 = k
    · rw [decide_eq_true hk]
      exact hside _ (hk ▸ hmem)
    · rw [decide_eq_false hk]
      exact hother _ hk _ hmem
  rw [← h k]
  clear h hside hother
  induction xs with
  | nil => rfl
  | cons x xs ih =>
      have hx := hsort x List.mem_cons_self
      have hrest := ih fun y hy ↦ hsort y (List.mem_cons_of_mem x hy)
      rw [List.map_cons, List.filter_cons, List.filterMap_cons, side, hrest, hx]
      by_cases hk : x.1 = k <;> simp [hk]

/-- A listener which ignores all sides but one only depends on that side. -/
theorem Interleaves.foldl_eq (h : Interleaves xs streams) {g : β → α → β} {k : κ}
    (hother : ∀ j, j ≠ k → ∀ a ∈ streams j, ∀ b, g b a = b) (b : β) :
    (xs.map Prod.snd).foldl g b = (streams k).foldl g b := by
  have hignored : ∀ x ∈ xs, x.1 ≠ k → ∀ b, g b x.2 = b :=
    fun x hx hne ↦ hother x.1 hne x.2 (h.mem_iff.mpr hx)
  rw [← h k]
  clear h hother
  induction xs generalizing b with
  | nil => rfl
  | cons x xs ih =>
      have hrest := fun b ↦ ih b fun y hy ↦ hignored y (List.mem_cons_of_mem x hy)
      rw [List.map_cons, List.foldl_cons, hrest, List.filterMap_cons, side]
      by_cases hx : x.1 = k
      · rw [if_pos hx, List.foldl_cons]
      · rw [if_neg hx, hignored x List.mem_cons_self hx]

end Interleave
