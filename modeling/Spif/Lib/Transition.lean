import Mathlib.Tactic.Common

/-!
# Interleaved systems

The step function of a system whose parties take turns says what an event does
to a state; `none` means that the event cannot happen there.  A run is a list of
events.  The rules below carry what single steps preserve to whole runs.
-/

namespace Transition

variable {σ ε : Type*}

/-- The state after the events, provided that each of them can happen. -/
def exec (step : σ → ε → Option σ) : σ → List ε → Option σ
  | s, [] => some s
  | s, e :: es => (step s e).bind fun t ↦ exec step t es

/-- The events are a run, and each of its steps satisfies `C`. -/
def Along (step : σ → ε → Option σ) (C : σ → ε → Prop) : σ → List ε → Prop
  | _, [] => True
  | s, e :: es =>
      match step s e with
      | none => False
      | some t => C s e ∧ Along step C t es

/-- The step function of a system given by what enables an event and what the
event does. -/
def guarded (enabled : σ → ε → Prop) [∀ s e, Decidable (enabled s e)] (effect : σ → ε → σ)
    (s : σ) (e : ε) : Option σ :=
  if enabled s e then some (effect s e) else none

theorem guarded_eq_some {enabled : σ → ε → Prop} [∀ s e, Decidable (enabled s e)]
    {effect : σ → ε → σ} {s t : σ} {e : ε} :
    guarded enabled effect s e = some t ↔ enabled s e ∧ effect s e = t := by
  rw [guarded]
  split <;> simp_all

variable {step : σ → ε → Option σ} {C P Q : σ → ε → Prop}

theorem exec_cons {s u : σ} {e : ε} {es : List ε} :
    exec step s (e :: es) = some u ↔ ∃ t, step s e = some t ∧ exec step t es = some u := by
  simp [exec, Option.bind_eq_some_iff]

@[simp] theorem along_nil (s : σ) : Along step C s [] := trivial

theorem along_cons {s : σ} {e : ε} {es : List ε} :
    Along step C s (e :: es) ↔ ∃ t, step s e = some t ∧ C s e ∧ Along step C t es := by
  rw [Along]
  cases step s e <;> simp

instance decidableAlong [∀ s e, Decidable (C s e)] : ∀ s es, Decidable (Along step C s es)
  | _, [] => .isTrue trivial
  | s, e :: es =>
      match h : step s e with
      | none => .isFalse (by simp [Along, h])
      | some t =>
          have : Decidable (Along step C t es) := decidableAlong t es
          decidable_of_iff (C s e ∧ Along step C t es) (by simp [Along, h])

theorem along_of_exec (hC : ∀ s e, C s e) {s t : σ} {es : List ε} (h : exec step s es = some t) :
    Along step C s es := by
  induction es generalizing s with
  | nil => trivial
  | cons e es ih =>
      obtain ⟨r, hr, hrest⟩ := exec_cons.mp h
      exact along_cons.mpr ⟨r, hr, hC s e, ih hrest⟩

/-- The run rule: what every good step preserves holds after every good run. -/
theorem inv_exec {I : σ → Prop} (hstep : ∀ s e t, I s → C s e → step s e = some t → I t) :
    ∀ {s t : σ} {es : List ε}, I s → Along step C s es → exec step s es = some t → I t := by
  intro s t es hs hC hrun
  induction es generalizing s with
  | nil =>
      cases hrun
      exact hs
  | cons e es ih =>
      obtain ⟨r, hr, hrest⟩ := exec_cons.mp hrun
      obtain ⟨r', hr', hce, halong⟩ := along_cons.mp hC
      obtain rfl : r = r' := Option.some.inj (hr.symm.trans hr')
      exact ih (hstep s e r hs hce hr) halong hrest

/-- Every step of a run satisfies what an invariant and a condition imply. -/
theorem along_of_inv {I : σ → Prop}
    (hstep : ∀ s e t, I s → C s e → step s e = some t → P s e ∧ I t) :
    ∀ {s : σ} {es : List ε}, I s → Along step C s es → Along step P s es := by
  intro s es hs hC
  induction es generalizing s with
  | nil => trivial
  | cons e es ih =>
      obtain ⟨t, ht, hce, hrest⟩ := along_cons.mp hC
      obtain ⟨hp, hinv⟩ := hstep s e t hs hce ht
      exact along_cons.mpr ⟨t, ht, hp, ih hinv hrest⟩

/-- A condition on the steps of a run may be replaced by another one wherever an
invariant makes the two agree. -/
theorem along_congr {I : σ → Prop} (hinv : ∀ s e t, I s → step s e = some t → I t)
    (h : ∀ s e t, I s → step s e = some t → (P s e ↔ Q s e)) :
    ∀ {s : σ} {es : List ε}, I s → (Along step P s es ↔ Along step Q s es) := by
  intro s es hs
  induction es generalizing s with
  | nil => simp
  | cons e es ih =>
      rw [along_cons, along_cons]
      apply exists_congr
      intro t
      apply and_congr_right
      intro ht
      rw [h s e t hs ht, ih (hinv s e t hs ht)]

/-- The same where the condition is what keeps the invariant, on runs whose steps
satisfy `D`. -/
theorem along_congr_of {I : σ → Prop} {D : σ → ε → Prop}
    (hinv : ∀ s e t, I s → D s e → Q s e → step s e = some t → I t)
    (h : ∀ s e t, I s → D s e → step s e = some t → (P s e ↔ Q s e)) :
    ∀ {s : σ} {es : List ε}, I s → Along step D s es →
      (Along step P s es ↔ Along step Q s es) := by
  intro s es hs hD
  induction es generalizing s with
  | nil => simp
  | cons e es ih =>
      obtain ⟨t, ht, hde, hrest⟩ := along_cons.mp hD
      have hiff := h s e t hs hde ht
      rw [along_cons, along_cons]
      apply exists_congr
      intro r
      apply and_congr_right
      intro hr
      obtain rfl : t = r := Option.some.inj (ht.symm.trans hr)
      rw [hiff]
      exact and_congr_right fun hq ↦ ih (hinv s e t hs hde hq ht) hrest

/-! ## How long runs are -/

/-- A run is no longer than a measure that each step decreases. -/
theorem length_le_of_measure {I : σ → Prop} {μ : σ → ℕ}
    (hstep : ∀ s e t, I s → step s e = some t → I t ∧ μ t < μ s) :
    ∀ {s t : σ} {es : List ε}, I s → exec step s es = some t → es.length ≤ μ s := by
  intro s t es hs hrun
  induction es generalizing s with
  | nil => exact Nat.zero_le _
  | cons e es ih =>
      obtain ⟨r, hr, hrest⟩ := exec_cons.mp hrun
      obtain ⟨hinv, hlt⟩ := hstep s e r hs hr
      exact Nat.succ_le_of_lt (Nat.lt_of_le_of_lt (ih hinv hrest) hlt)

/-- A system that can always go on unless it is done gets done if its runs are bounded. -/
theorem exists_exec_done {D : σ → Prop} (hgo : ∀ s, ¬ D s → ∃ e t, step s e = some t) :
    ∀ {n : ℕ} {s : σ}, (∀ es t, exec step s es = some t → es.length ≤ n) →
      ∃ es t, exec step s es = some t ∧ D t := by
  intro n
  induction n with
  | zero =>
      intro s hn
      refine ⟨[], s, rfl, ?_⟩
      by_contra hdone
      obtain ⟨e, t, ht⟩ := hgo s hdone
      exact absurd (hn [e] t (exec_cons.mpr ⟨t, ht, rfl⟩)) (Nat.not_succ_le_zero 0)
  | succ n ih =>
      intro s hn
      by_cases hdone : D s
      · exact ⟨[], s, rfl, hdone⟩
      · obtain ⟨e, r, hr⟩ := hgo s hdone
        obtain ⟨es, t, ht, hend⟩ := ih fun es t ht ↦
          Nat.le_of_succ_le_succ (hn (e :: es) t (exec_cons.mpr ⟨r, hr, ht⟩))
        exact ⟨e :: es, t, exec_cons.mpr ⟨r, hr, ht⟩, hend⟩

/-- The progress rule: a party whose every step brings the system nearer to its end, while
the other parties do not set it back, gets there in as many steps as the measure says. -/
theorem exists_prefix_done {I : σ → Prop} (Done : σ → Prop) {work : ε → Bool} {μ : σ → ℕ}
    (hinv : ∀ s e t, I s → C s e → step s e = some t → I t)
    (hpos : ∀ s, I s → ¬ Done s → 0 < μ s)
    (hstep : ∀ s e t, I s → C s e → step s e = some t → ¬ Done s → ¬ Done t →
      μ t + (if work e then 1 else 0) ≤ μ s) :
    ∀ {s t : σ} {es : List ε}, I s → Along step C s es → exec step s es = some t →
      μ s ≤ es.countP work → ∃ pre u, pre <+: es ∧ exec step s pre = some u ∧ Done u := by
  intro s t es hs hC hrun hwork
  by_cases hdone : Done s
  · exact ⟨[], s, List.nil_prefix, rfl, hdone⟩
  induction es generalizing s with
  | nil =>
      have := hpos s hs hdone
      rw [List.countP_nil] at hwork
      omega
  | cons e es ih =>
      obtain ⟨r, hr, hrest⟩ := exec_cons.mp hrun
      obtain ⟨r', hr', hce, halong⟩ := along_cons.mp hC
      obtain rfl : r = r' := Option.some.inj (hr.symm.trans hr')
      by_cases hrdone : Done r
      · exact ⟨[e], r, by simp, exec_cons.mpr ⟨r, hr, rfl⟩, hrdone⟩
      · have hdrop := hstep s e r hs hce hr hdone hrdone
        rw [List.countP_cons] at hwork
        obtain ⟨pre, u, hpre, hu, hend⟩ :=
          ih (hinv s e r hs hce hr) halong hrest (by omega) hrdone
        exact ⟨e :: pre, u, List.cons_prefix_cons.mpr ⟨rfl, hpre⟩,
          exec_cons.mpr ⟨r, hr, hu⟩, hend⟩

/-- An event that stays possible can happen any number of times. -/
theorem exists_exec_replicate {I : σ → Prop} {e : ε}
    (hstep : ∀ s, I s → ∃ t, step s e = some t ∧ I t) {s : σ} (hs : I s) (n : ℕ) :
    ∃ t, exec step s (List.replicate n e) = some t := by
  induction n generalizing s with
  | zero => exact ⟨s, rfl⟩
  | succ n ih =>
      obtain ⟨r, hr, hinv⟩ := hstep s hs
      obtain ⟨t, ht⟩ := ih hinv
      exact ⟨t, exec_cons.mpr ⟨r, hr, ht⟩⟩

/-! ## Tables of parties

A system that creates its parties as it runs keeps them in a list: a party is
known by its index, and new ones go to the end. -/

section Table

variable {α : Type*} {l : List α} {i : ℕ} {a b : α}

theorem getElem?_modify_eq_some {f : α → α} {j : ℕ} :
    (l.modify j f)[i]? = some b ↔ ∃ a, l[i]? = some a ∧ b = if j = i then f a else a := by
  rw [List.getElem?_modify]
  by_cases heq : j = i <;> simp [heq, @eq_comm _ b]

theorem getElem?_concat_eq_some :
    (l ++ [a])[i]? = some b ↔ l[i]? = some b ∨ i = l.length ∧ b = a := by
  rw [List.getElem?_append]
  split
  · rename_i hlt
    have hne : i ≠ l.length := by omega
    simp [hne]
  · rename_i hge
    rw [List.getElem?_eq_none (Nat.not_lt.mp hge), List.getElem?_singleton]
    have hlast : i - l.length = 0 ↔ i = l.length := by omega
    simp [hlast, @eq_comm _ b]

end Table

end Transition
