import Mathlib.Data.Set.Basic
import Mathlib.Tactic.Common

/-!
# Wired-or networks

Each output of such a network is the disjunction of the inputs that feed it and of a
constant.  When does the output determine the inputs?  A network forgets an input as
soon as every output that the input feeds is also fed by another one, or is constant.
-/

namespace OrNetwork

variable {ι κ : Type*} (base : Set κ) (feeds : ι → κ → Prop)

def output (x : Set ι) : Set κ := {j | j ∈ base ∨ ∃ i ∈ x, feeds i j}

def Used (i : ι) : Prop := ∃ j, feeds i j

/-- Output `j` shows input `i`, and nothing else. -/
def Shows (i : ι) (j : κ) : Prop := j ∉ base ∧ feeds i j ∧ ∀ i', feeds i' j → i' = i

/-- The inputs are the same wherever the network looks at them. -/
def Agree (x y : Set ι) : Prop := ∀ i, Used feeds i → (i ∈ x ↔ i ∈ y)

variable {base feeds} {x y : Set ι} {i : ι} {j : κ}

theorem output_congr (h : Agree feeds x y) : output base feeds x = output base feeds y := by
  ext j
  have hfed : (∃ i ∈ x, feeds i j) ↔ ∃ i ∈ y, feeds i j := by
    refine exists_congr fun i ↦ ?_
    by_cases hij : feeds i j
    · simp [hij, h i ⟨j, hij⟩]
    · simp [hij]
  exact or_congr Iff.rfl hfed

theorem Shows.mem_output_iff (h : Shows base feeds i j) :
    j ∈ output base feeds x ↔ i ∈ x := by
  constructor
  · rintro (hbase | ⟨i', hi', hfeeds⟩)
    · exact absurd hbase h.1
    · rwa [← h.2.2 i' hfeeds]
  · exact fun hi ↦ .inr ⟨i, hi, h.2.1⟩

/-- Without an output of its own, an input makes no difference among the others. -/
theorem output_eq_of_not_shows (h : ∀ j, ¬ Shows base feeds i j) :
    output base feeds {i' | i' ≠ i} = output base feeds Set.univ := by
  ext j
  constructor
  · rintro (hbase | ⟨i', _, hfeeds⟩)
    · exact .inl hbase
    · exact .inr ⟨i', trivial, hfeeds⟩
  · rintro (hbase | ⟨i', _, hfeeds⟩)
    · exact .inl hbase
    · by_cases hbase : j ∈ base
      · exact .inl hbase
      · by_cases hother : ∃ i', feeds i' j ∧ i' ≠ i
        · obtain ⟨k, hk, hne⟩ := hother
          exact .inr ⟨k, hne, hk⟩
        · have honly : ∀ k, feeds k j → k = i := by
            intro k hk
            by_contra hne
            exact hother ⟨k, hk, hne⟩
          obtain rfl := honly i' hfeeds
          exact absurd ⟨hbase, hfeeds, honly⟩ (h j)

/-- The output determines the inputs in use exactly if each of them has an output of its
own. -/
theorem separates_iff :
    (∀ x y : Set ι, output base feeds x = output base feeds y ↔ Agree feeds x y) ↔
      ∀ i, Used feeds i → ∃ j, Shows base feeds i j := by
  constructor
  · intro h i hused
    by_contra hnone
    have hagree : Agree feeds _ _ := (h _ _).mp (output_eq_of_not_shows (not_exists.mp hnone))
    exact (hagree i hused).mpr trivial rfl
  · intro h x y
    refine ⟨fun heq i hused ↦ ?_, output_congr⟩
    obtain ⟨j, hj⟩ := h i hused
    rw [← hj.mem_output_iff, heq, hj.mem_output_iff]

end OrNetwork
