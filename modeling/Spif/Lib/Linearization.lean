import Mathlib.Data.List.Perm.Basic
import Mathlib.Data.List.Permutation
import Mathlib.Tactic.Common

/-!
# Histories that are atomic in some order

A history is a list of operations, each with the cycles in which it began and
ended.  It explains a state if the operations, applied one at a time in some
order that respects real time, lead to that state.
-/

namespace Linearization

variable {α γ : Type*}

structure Timed (α : Type*) where
  op : α
  start : ℕ
  finish : ℕ
deriving DecidableEq

/-- `a` may come before `b`: it is not the case that `b` ended before `a` began. -/
def MayPrecede (a b : Timed α) : Prop := ¬ b.finish < a.start

instance (a b : Timed α) : Decidable (MayPrecede a b) :=
  inferInstanceAs (Decidable (¬ _))

/-- The effect of operations applied one at a time. -/
def effect (apply : γ → α → γ) (c : γ) (l : List (Timed α)) : γ :=
  l.foldl (fun c t ↦ apply c t.op) c

/-- Some order of the history that respects real time leads from `init` to
`final`. -/
def Linearizable (apply : γ → α → γ) (init : γ) (h : List (Timed α)) (final : γ) : Prop :=
  ∃ l : List (Timed α), l.Perm h ∧ l.Pairwise MayPrecede ∧ effect apply init l = final

variable {apply : γ → α → γ} {init c : γ} {h : List (Timed α)}

@[simp] theorem effect_nil (apply : γ → α → γ) (c : γ) : effect apply c [] = c := rfl

@[simp] theorem effect_cons (apply : γ → α → γ) (c : γ) (t : Timed α) (l : List (Timed α)) :
    effect apply c (t :: l) = effect apply (apply c t.op) l := rfl

theorem effect_append (apply : γ → α → γ) (c : γ) (xs ys : List (Timed α)) :
    effect apply c (xs ++ ys) = effect apply (effect apply c xs) ys := by
  simp [effect]

theorem linearizable_nil (apply : γ → α → γ) (c : γ) : Linearizable apply c [] c :=
  ⟨[], List.Perm.refl _, List.Pairwise.nil, rfl⟩

/-- A block of operations which all end no earlier than every operation on
record began may be appended, in any order that respects real time. -/
theorem Linearizable.append (hlin : Linearizable apply init h c) {new : List (Timed α)}
    (block : List (Timed α)) (hperm : block.Perm new) (hblock : block.Pairwise MayPrecede)
    (hlate : ∀ a ∈ h, ∀ b ∈ new, a.start ≤ b.finish) :
    Linearizable apply init (h ++ new) (effect apply c block) := by
  obtain ⟨l, hl, hord, rfl⟩ := hlin
  refine ⟨l ++ block, hl.append hperm, ?_, effect_append apply init l block⟩
  refine List.pairwise_append.mpr ⟨hord, hblock, ?_⟩
  intro a ha b hb hlt
  have hle := hlate a (hl.mem_iff.mp ha) b (hperm.mem_iff.mp hb)
  omega

theorem Linearizable.snoc (hlin : Linearizable apply init h c) (t : Timed α)
    (hlate : ∀ a ∈ h, a.start ≤ t.finish) :
    Linearizable apply init (h ++ [t]) (apply c t.op) :=
  hlin.append [t] (List.Perm.refl _) (List.pairwise_singleton _ _)
    (fun a ha _ hb ↦ List.mem_singleton.mp hb ▸ hlate a ha)

/-- What no order of the history can lead to is not linearizable. -/
theorem not_linearizable_of_permutations {P : γ → Prop}
    (hall : ∀ l ∈ h.permutations', ¬ P (effect apply init l)) (hc : P c) :
    ¬ Linearizable apply init h c := by
  rintro ⟨l, hl, -, rfl⟩
  exact hall l (List.mem_permutations'.mpr hl) hc

end Linearization
