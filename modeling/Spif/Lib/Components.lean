import Mathlib.Data.Int.Cast.Basic
import Spif.Lib.Clocked

/-!
# Components of a clocked machine

A machine made of several others runs each of them on inputs which the others
and the environment derive.  A component takes exactly the cycles that it would
take alone on the inputs it is fed, so what is known about every run of the
component holds of it inside the machine.  The same goes for the parties of a
system that take their steps one at a time.
-/

namespace Clocked

variable {σ ι σ₁ ι₁ ω : Type*}

/-- Part of a machine, and what the machine feeds it with. -/
structure Component (next : σ → ι → σ) (next₁ : σ₁ → ι₁ → σ₁) where
  proj : σ → σ₁
  feed : σ → ι → ι₁
  proj_next : ∀ s i, proj (next s i) = next₁ (proj s) (feed s i)

namespace Component

variable {next : σ → ι → σ} {next₁ : σ₁ → ι₁ → σ₁} (c : Component next next₁)

/-- The inputs of the component during a run of the machine. -/
def inputs : σ → List ι → List ι₁
  | _, [] => []
  | s, i :: ins => c.feed s i :: inputs (next s i) ins

@[simp] theorem inputs_nil (s : σ) : c.inputs s [] = [] := rfl

@[simp] theorem inputs_cons (s : σ) (i : ι) (ins : List ι) :
    c.inputs s (i :: ins) = c.feed s i :: c.inputs (next s i) ins := rfl

theorem inputs_append (s : σ) (ins ins' : List ι) :
    c.inputs s (ins ++ ins') = c.inputs s ins ++ c.inputs (run next s ins) ins' := by
  induction ins generalizing s with
  | nil => rfl
  | cons i ins ih => rw [List.cons_append, inputs_cons, inputs_cons, ih, run_cons, List.cons_append]

theorem run_inputs (s : σ) (ins : List ι) :
    run next₁ (c.proj s) (c.inputs s ins) = c.proj (run next s ins) := by
  induction ins generalizing s with
  | nil => rfl
  | cons i ins ih => rw [inputs_cons, run_cons, run_cons, ← c.proj_next, ih]

theorem emit_inputs (f : σ₁ → ι₁ → List ω) (s : σ) (ins : List ι) :
    emit next₁ f (c.proj s) (c.inputs s ins) =
      emit next (fun s i ↦ f (c.proj s) (c.feed s i)) s ins := by
  induction ins generalizing s with
  | nil => rfl
  | cons i ins ih => rw [inputs_cons, emit_cons, emit_cons, ← c.proj_next, ih]

theorem along_inputs (P : σ₁ → ι₁ → Prop) (s : σ) (ins : List ι) :
    Along next₁ P (c.proj s) (c.inputs s ins) ↔
      Along next (fun s i ↦ P (c.proj s) (c.feed s i)) s ins := by
  induction ins generalizing s with
  | nil => exact Iff.rfl
  | cons i ins ih => rw [inputs_cons, along_cons, along_cons, ← c.proj_next, ih]

end Component

/-- A party of a system, which takes part in some of its steps only. -/
structure Party (next : σ → ι → σ) (next₁ : σ₁ → ι₁ → σ₁) where
  proj : σ → σ₁
  view : ι → Option ι₁
  proj_next : ∀ s i, proj (next s i) = (view i).elim (proj s) (next₁ (proj s))

namespace Party

variable {next : σ → ι → σ} {next₁ : σ₁ → ι₁ → σ₁} (c : Party next next₁)

/-- A party takes the steps that it would take alone. -/
theorem emit_view (f : σ₁ → ι₁ → List ω) (s : σ) (ins : List ι) :
    emit next₁ f (c.proj s) (ins.filterMap c.view) =
      emit next (fun s i ↦ (c.view i).elim [] (f (c.proj s))) s ins := by
  induction ins generalizing s with
  | nil => rfl
  | cons i ins ih =>
      have hnext := c.proj_next s i
      rw [emit_cons, ← ih]
      cases hview : c.view i with
      | none =>
          rw [hview] at hnext
          rw [List.filterMap_cons_none hview, hnext, Option.elim_none, Option.elim_none,
            List.nil_append]
      | some i₁ =>
          rw [hview] at hnext
          rw [List.filterMap_cons_some hview, emit_cons, hnext, Option.elim_some,
            Option.elim_some]

theorem along_view {P : σ₁ → ι₁ → Prop} {s : σ} {ins : List ι}
    (h : Along next (fun s i ↦ ∀ i₁ ∈ c.view i, P (c.proj s) i₁) s ins) :
    Along next₁ P (c.proj s) (ins.filterMap c.view) := by
  induction ins generalizing s with
  | nil => trivial
  | cons i ins ih =>
      obtain ⟨hi, hins⟩ := h
      have hnext := c.proj_next s i
      have hrest := ih hins
      cases hview : c.view i with
      | none =>
          rw [hview, Option.elim_none] at hnext
          rw [List.filterMap_cons_none hview, ← hnext]
          exact hrest
      | some i₁ =>
          rw [hview, Option.elim_some] at hnext
          rw [List.filterMap_cons_some hview]
          refine ⟨hi i₁ hview, ?_⟩
          rw [← hnext]
          exact hrest

end Party

/-! ## What is put out -/

section Words

variable {next : σ → ι → σ}

theorem along_and {P Q : σ → ι → Prop} {s : σ} {ins : List ι} (hP : Along next P s ins)
    (hQ : Along next Q s ins) : Along next (fun s i ↦ P s i ∧ Q s i) s ins := by
  induction ins generalizing s with
  | nil => trivial
  | cons i ins ih => exact ⟨⟨hP.1, hQ.1⟩, ih hP.2 hQ.2⟩

theorem run_append (s : σ) (ins ins' : List ι) :
    run next s (ins ++ ins') = run next (run next s ins) ins' :=
  List.foldl_append

theorem along_append {P : σ → ι → Prop} {s : σ} {ins ins' : List ι} :
    Along next P s (ins ++ ins') ↔ Along next P s ins ∧ Along next P (run next s ins) ins' := by
  induction ins generalizing s with
  | nil => simp
  | cons i ins ih => rw [List.cons_append, along_cons, along_cons, ih, and_assoc, run_cons]

/-- What holds of every word put out is known in the cycle that puts it out. -/
theorem forall_mem_emit_iff {f : σ → ι → List ω} {Q : ω → Prop} {s : σ} {ins : List ι} :
    (∀ w ∈ emit next f s ins, Q w) ↔ Along next (fun s i ↦ ∀ w ∈ f s i, Q w) s ins := by
  induction ins generalizing s with
  | nil => simp
  | cons i ins ih => rw [emit_cons, List.forall_mem_append, along_cons, ih]

theorem emit_flatMap {ω' : Type*} (g : ω → List ω') (f : σ → ι → List ω) (s : σ)
    (ins : List ι) :
    (emit next f s ins).flatMap g = emit next (fun s i ↦ (f s i).flatMap g) s ins := by
  induction ins generalizing s with
  | nil => rfl
  | cons i ins ih => rw [emit_cons, emit_cons, List.flatMap_append, ih]

theorem emit_congr {f g : σ → ι → List ω} {s : σ} {ins : List ι}
    (h : Along next (fun s i ↦ f s i = g s i) s ins) : emit next f s ins = emit next g s ins := by
  induction ins generalizing s with
  | nil => rfl
  | cons i ins ih => rw [emit_cons, emit_cons, h.1, ih h.2]

@[simp] theorem emit_nothing (s : σ) (ins : List ι) :
    emit next (fun _ _ ↦ ([] : List ω)) s ins = [] := by
  induction ins generalizing s with
  | nil => rfl
  | cons i ins ih => rw [emit_cons, ih, List.append_nil]

/-- A lossy queue that needs no invariant. -/
theorem emit_queue_sublist (held : σ → List ω) (acc out : σ → ι → List ω) {C : σ → ι → Prop}
    (hstep : ∀ s i, C s i → List.Sublist (out s i ++ held (next s i)) (held s ++ acc s i))
    {s : σ} {ins : List ι} (hC : Along next C s ins) :
    List.Sublist (emit next out s ins ++ held (run next s ins))
      (held s ++ emit next acc s ins) :=
  emit_sublist (I := fun _ ↦ True) (fun _ _ _ _ ↦ trivial) (fun s i _ hi ↦ hstep s i hi) trivial
    hC

/-- A lossless queue that needs no invariant. -/
theorem emit_queue (held : σ → List ω) (acc out : σ → ι → List ω) {C : σ → ι → Prop}
    (hstep : ∀ s i, C s i → out s i ++ held (next s i) = held s ++ acc s i)
    {s : σ} {ins : List ι} (hC : Along next C s ins) :
    emit next out s ins ++ held (run next s ins) = held s ++ emit next acc s ins :=
  emit_fifo held acc out (I := fun _ ↦ True) (fun _ _ _ _ ↦ trivial)
    (fun s i _ hi ↦ hstep s i hi) trivial hC

/-- The word rule: what an invariant says of the words of one cycle holds of all words. -/
theorem forall_mem_emit_of_inv {I : σ → Prop} {C : σ → ι → Prop} {f : σ → ι → List ω}
    {Q : ω → Prop} (hstep : ∀ s i, I s → C s i → I (next s i))
    (hword : ∀ s i, I s → ∀ w ∈ f s i, Q w) {s : σ} {ins : List ι} (hs : I s)
    (hC : Along next C s ins) : ∀ w ∈ emit next f s ins, Q w :=
  forall_mem_emit_iff.mpr (along_of_inv hstep (fun s i hs _ ↦ hword s i hs) hs hC)

end Words

/-! ## Words as updates -/

variable {α : Type*} {next : σ → ι → σ}

/-- A field which each cycle updates with the words put out in it holds the words of
the whole run, folded in order. -/
theorem foldl_emit (field : σ → α) (g : α → ω → α) (f : σ → ι → List ω)
    {C : σ → ι → Prop} (h : ∀ s i, C s i → field (next s i) = (f s i).foldl g (field s)) :
    ∀ {s : σ} {ins : List ι}, Along next C s ins →
      field (run next s ins) = (emit next f s ins).foldl g (field s) := by
  intro s ins hC
  induction ins generalizing s with
  | nil => rfl
  | cons i ins ih => rw [run_cons, ih hC.2, h s i hC.1, emit_cons, List.foldl_append]

/-! ## Counting registers

A register that counts may wrap around; it keeps its account as a cast. -/

section Accounts

variable {R : Type*} [AddMonoidWithOne R] {field : σ → R} {f : σ → ι → ℕ}

/-- A field accounts for what is counted after every cycle exactly if it does in every
single cycle. -/
theorem account_iff_along {s : σ} {ins : List ι} :
    (∀ pre, pre <+: ins → field (run next s pre) = field s + (tally next f s pre : R)) ↔
      Along next (fun s i ↦ field (next s i) = field s + (f s i : R)) s ins := by
  induction ins generalizing s with
  | nil =>
      refine iff_of_true ?_ trivial
      intro pre hpre
      simp [List.prefix_nil.mp hpre]
  | cons i ins ih =>
      rw [along_cons, ← ih]
      have hfirst : field (run next s [i]) = field s + (tally next f s [i] : R) ↔
          field (next s i) = field s + (f s i : R) := by simp
      have hcons (h : field (next s i) = field s + (f s i : R)) (pre : List ι) :
          field (run next s (i :: pre)) = field s + (tally next f s (i :: pre) : R) ↔
            field (run next (next s i) pre) =
              field (next s i) + (tally next f (next s i) pre : R) := by
        rw [run_cons, tally_cons, Nat.cast_add, ← add_assoc, ← h]
      constructor
      · intro h
        have hone := hfirst.mp (h [i] (by simp))
        exact ⟨hone, fun pre hpre ↦
          (hcons hone pre).mp (h (i :: pre) (List.cons_prefix_cons.mpr ⟨rfl, hpre⟩))⟩
      · rintro ⟨hone, hrest⟩ pre hpre
        cases pre with
        | nil => simp
        | cons j pre =>
            obtain ⟨rfl, hshort⟩ := List.cons_prefix_cons.mp hpre
            exact (hcons hone pre).mpr (hrest pre hshort)

theorem account_run (field : σ → R) {s : σ} {ins : List ι}
    (h : Along next (fun s i ↦ field (next s i) = field s + (f s i : R)) s ins) :
    field (run next s ins) = field s + (tally next f s ins : R) :=
  account_iff_along.mpr h ins (List.prefix_refl ins)

end Accounts

end Clocked
