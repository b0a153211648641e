import Spif.Driver.Probe

/-!
# What the driver holds

Nine kinds of resource are acquired by the probe: four for the driver and five
for each pipe.  A resource's deeds are the acquisitions and releases of it among
what the driver does.
-/

namespace Spif.Driver

inductive PipeResource where
  | data
  | irq
  | dmaMap
  | device
  | cdev
deriving DecidableEq, Repr

inductive Resource where
  | drvData
  | apbMap
  | devClass
  | region
  | pipe (i : ℕ) (r : PipeResource)
deriving DecidableEq, Repr

inductive Deed where
  | acquire
  | release
deriving DecidableEq, Repr

def PipeAct.deed : PipeAct → Option (PipeResource × Deed)
  | kmalloc => some (.data, .acquire)
  | requestIrq => some (.irq, .acquire)
  | ioremap => some (.dmaMap, .acquire)
  | deviceCreate => some (.device, .acquire)
  | cdevAdd => some (.cdev, .acquire)
  | cdevDel => some (.cdev, .release)
  | deviceDestroy => some (.device, .release)
  | memunmap => some (.dmaMap, .release)
  | freeIrq => some (.irq, .release)
  | kfree => some (.data, .release)
  | resetDmac | initQueue | clearReady | semaInit => none

def Act.deed : Act → Option (Resource × Deed)
  | kmallocDrv => some (.drvData, .acquire)
  | ioremapApb => some (.apbMap, .acquire)
  | classCreate => some (.devClass, .acquire)
  | allocChrdev => some (.region, .acquire)
  | pipe i a => a.deed.map fun (r, d) ↦ (.pipe i r, d)
  | unregisterChrdev => some (.region, .release)
  | classDestroy => some (.devClass, .release)
  | memunmapApb => some (.apbMap, .release)
  | kfreeDrv => some (.drvData, .release)

def Act.deedOn (r : Resource) (a : Act) : Option Deed :=
  match a.deed with
  | some (r', d) => if r' = r then some d else none
  | none => none

def PipeAct.deedOn (r : PipeResource) (a : PipeAct) : Option Deed :=
  match a.deed with
  | some (r', d) => if r' = r then some d else none
  | none => none

def deeds (r : Resource) (acts : List Act) : List Deed := acts.filterMap (Act.deedOn r)

def pipeDeeds (r : PipeResource) (acts : List PipeAct) : List Deed :=
  acts.filterMap (PipeAct.deedOn r)

/-- The resource is acquired once and then released once, or left alone. -/
def Undone (ds : List Deed) : Prop := ds = [] ∨ ds = [.acquire, .release]

instance (ds : List Deed) : Decidable (Undone ds) := inferInstanceAs (Decidable (_ ∨ _))

def PipeOutcome.Succeeds (o : PipeOutcome) (isOutp : Bool) : Prop :=
  o.kmalloc ∧ o.dmacNode ∧ (hasIrq o isOutp → o.requestIrq) ∧ o.dmacAddress ∧ o.ioremap ∧
    o.deviceCreate ∧ 0 ≤ o.cdevAdd

def Outcome.Succeeds (o : Outcome) : Prop :=
  (o.kmallocDrv ∧ o.apbNode ∧ o.apbAddress ∧ o.ioremapApb ∧ o.secCode) ∧
    (o.rsvdNode ∧ o.rsvdAddress) ∧ (o.classCreate ∧ 0 ≤ o.allocChrdev) ∧
    ∀ i < o.pipes, (o.pipe i).Succeeds (o.isOutp i)

theorem deedOn_pipe (i : ℕ) (r : PipeResource) (a : Act) :
    a.deedOn (.pipe i r) = (a.onPipe i).bind (PipeAct.deedOn r) := by
  cases a with
  | pipe j a =>
      by_cases hij : j = i
      · subst hij
        cases ha : a.deed <;> simp [Act.deedOn, PipeAct.deedOn, Act.deed, Act.onPipe, ha]
      · cases ha : a.deed <;> simp [Act.deedOn, Act.deed, Act.onPipe, ha, hij]
  | _ => rfl

theorem deeds_pipe (i : ℕ) (r : PipeResource) (acts : List Act) :
    deeds (.pipe i r) acts = pipeDeeds r (pipeActs i acts) := by
  unfold deeds pipeDeeds pipeActs
  rw [List.filterMap_filterMap]
  exact List.filterMap_congr fun a _ ↦ deedOn_pipe i r a

/-! ## A pipe's resources -/

theorem undone_of_mem_lifecycles {isOutp irq : Bool} {as : List PipeAct}
    (h : as ∈ lifecycles isOutp irq) (r : PipeResource) : Undone (pipeDeeds r as) := by
  have hall : ∀ isOutp irq : Bool, ∀ as ∈ lifecycles isOutp irq,
      ∀ r ∈ [PipeResource.data, .irq, .dmaMap, .device, .cdev], Undone (pipeDeeds r as) := by
    decide
  exact hall isOutp irq as h r (by cases r <;> simp)

theorem undone_pipe (o : Outcome) (i : ℕ) (r : PipeResource) :
    Undone (deeds (.pipe i r) (driverActs o)) := by
  rw [deeds_pipe]
  exact undone_of_mem_lifecycles (share_mem_lifecycles (share_driverActs o i)) r

/-! ## The driver's own resources -/

def Act.own : Act → Bool
  | pipe _ _ => false
  | _ => true

def ownActs (acts : List Act) : List Act := acts.filter Act.own

@[simp] theorem ownActs_nil : ownActs [] = [] := rfl

theorem ownActs_cons (a : Act) (acts : List Act) :
    ownActs (a :: acts) = if a.own then a :: ownActs acts else ownActs acts :=
  List.filter_cons

@[simp] theorem ownActs_append (xs ys : List Act) :
    ownActs (xs ++ ys) = ownActs xs ++ ownActs ys := by
  simp [ownActs]

@[simp] theorem ownActs_map_pipe (i : ℕ) (as : List PipeAct) :
    ownActs (as.map (.pipe i)) = [] := by
  simp [ownActs, Act.own]

theorem deeds_ownActs {r : Resource} (hr : ∀ i q, r ≠ .pipe i q) (acts : List Act) :
    deeds r (ownActs acts) = deeds r acts := by
  unfold deeds ownActs
  rw [List.filterMap_filter]
  apply List.filterMap_congr
  intro a _
  cases a with
  | pipe i a =>
      cases ha : a.deed with
      | none => simp [Act.own, Act.deedOn, Act.deed, ha]
      | some d => simp [Act.own, Act.deedOn, Act.deed, ha, Ne.symm (hr i d.1)]
  | _ => rfl

@[simp] theorem ownActs_releasePipes (o : Outcome) (l : List ℕ) :
    ownActs (releasePipes o l) = [] := by
  induction l with
  | nil => rfl
  | cons i l ih =>
      have hcons : releasePipes o (i :: l) =
          (pipeRelease (o.pipe i) (o.isOutp i)).map (.pipe i) ++ releasePipes o l := rfl
      rw [hcons, ownActs_append, ownActs_map_pipe, ih, List.nil_append]

@[simp] theorem ownActs_initPipes (o : Outcome) (n : ℕ) :
    ∀ (i : ℕ) (l : List ℕ), ownActs (initPipes o n i l).1 = [] := by
  induction n with
  | zero => exact fun _ _ ↦ rfl
  | succ n ih =>
      intro i l
      rw [initPipes]
      by_cases hrc : (pipeInit (o.pipe i) (o.isOutp i)).2 = 0 <;> simp [hrc, ih]

def ownLifecycles : List (List Act) :=
  [[], [.kmallocDrv, .kfreeDrv],
    [.kmallocDrv, .ioremapApb, .memunmapApb, .kfreeDrv],
    [.kmallocDrv, .ioremapApb, .classCreate, .classDestroy, .memunmapApb, .kfreeDrv],
    [.kmallocDrv, .ioremapApb, .classCreate, .allocChrdev, .unregisterChrdev, .classDestroy,
      .memunmapApb, .kfreeDrv]]

theorem spifApbrInit_cases (o : Outcome) :
    spifApbrInit o = ([.ioremapApb], 0) ∨
      (spifApbrInit o).2 ≠ 0 ∧
        ((spifApbrInit o).1 = [] ∨ (spifApbrInit o).1 = [.ioremapApb, .memunmapApb]) := by
  unfold spifApbrInit
  split_ifs <;> simp [enodev, enomem]

theorem spifPipesInit_cases (o : Outcome) :
    ((spifPipesInit o).2 = 0 ∧
        ownActs (spifPipesInit o).1 = [.classCreate, .allocChrdev]) ∨
      (spifPipesInit o).2 ≠ 0 ∧ ownActs (spifPipesInit o).1 ∈
        [[], [Act.classCreate, .classDestroy],
          [.classCreate, .allocChrdev, .unregisterChrdev, .classDestroy]] := by
  unfold spifPipesInit
  split_ifs with hclass hneg
  · exact .inr ⟨by simp [enodev], by simp [ownActs]⟩
  · exact .inr ⟨Int.ne_of_lt hneg, by simp [ownActs, Act.own]⟩
  · by_cases hrc : (initPipes o o.pipes 0 []).2 = 0 <;> simp [hrc, ownActs_cons, Act.own]

theorem ownActs_driverActs (o : Outcome) : ownActs (driverActs o) ∈ ownLifecycles := by
  rw [driverActs, spifDriverProbe]
  by_cases hdrv : o.kmallocDrv = false
  · simp [hdrv, enomem, ownLifecycles]
  rcases spifApbrInit_cases o with hapbr | ⟨hrc, hacts⟩
  · by_cases hrsvd : spifRsvdInit o = 0
    · rcases spifPipesInit_cases o with ⟨hinit, hown⟩ | ⟨hinit, hown⟩
      · simp [hdrv, hapbr, hrsvd, hinit, hown, ownActs_cons, Act.own, spifDriverRemove,
          spifPipesRemove, ownLifecycles]
      · simp only [List.mem_cons, List.not_mem_nil, or_false] at hown
        rcases hown with hown | hown | hown <;>
          simp [hdrv, hapbr, hrsvd, hinit, hown, ownActs_cons, Act.own, ownLifecycles]
    · simp [hdrv, hapbr, hrsvd, ownActs_cons, Act.own, ownLifecycles]
  · rcases hacts with hacts | hacts <;>
      simp [hdrv, hrc, hacts, ownActs_cons, Act.own, ownLifecycles]

theorem undone_own {r : Resource} (hr : ∀ i q, r ≠ .pipe i q) (o : Outcome) :
    Undone (deeds r (driverActs o)) := by
  have hall : ∀ acts ∈ ownLifecycles, ∀ r ∈ [Resource.drvData, .apbMap, .devClass, .region],
      Undone (deeds r acts) := by
    decide
  rw [← deeds_ownActs hr]
  apply hall _ (ownActs_driverActs o) r
  cases r with
  | pipe i q => exact absurd rfl (hr i q)
  | _ => simp

/-! ## All or nothing -/

theorem spifDmacInit_eq_zero_iff (o : PipeOutcome) (isOutp : Bool) :
    (spifDmacInit o isOutp).2 = 0 ↔
      o.dmacNode ∧ (hasIrq o isOutp → o.requestIrq) ∧ o.dmacAddress ∧ o.ioremap := by
  unfold spifDmacInit
  cases o.dmacNode <;> cases hasIrq o isOutp <;> cases o.requestIrq <;> cases o.dmacAddress <;>
    cases o.ioremap <;> simp [eio, enomem]

theorem spifCdevInit_eq_zero_iff (o : PipeOutcome) :
    (spifCdevInit o).2 = 0 ↔ o.deviceCreate ∧ 0 ≤ o.cdevAdd := by
  unfold spifCdevInit
  cases o.deviceCreate with
  | false => simp [enodev]
  | true => by_cases hneg : o.cdevAdd < 0 <;> simp [hneg] <;> omega

theorem pipeInit_eq_zero_iff (o : PipeOutcome) (isOutp : Bool) :
    (pipeInit o isOutp).2 = 0 ↔ o.Succeeds isOutp := by
  have hparts : (pipeInit o isOutp).2 = 0 ↔
      o.kmalloc ∧ (spifDmacInit o isOutp).2 = 0 ∧ (spifCdevInit o).2 = 0 := by
    unfold pipeInit
    cases o.kmalloc with
    | false => simp [enomem]
    | true =>
        by_cases hd : (spifDmacInit o isOutp).2 = 0 <;>
          by_cases hc : (spifCdevInit o).2 = 0 <;> simp [hd, hc]
  rw [hparts, spifDmacInit_eq_zero_iff, spifCdevInit_eq_zero_iff, PipeOutcome.Succeeds]
  simp only [and_assoc]

theorem initPipes_eq_zero_iff (o : Outcome) (n : ℕ) : ∀ (i : ℕ) (l : List ℕ),
    (initPipes o n i l).2 = 0 ↔ ∀ j < n, (o.pipe (i + j)).Succeeds (o.isOutp (i + j)) := by
  induction n with
  | zero => exact fun _ _ ↦ ⟨fun _ j hj ↦ absurd hj (Nat.not_lt_zero j), fun _ ↦ rfl⟩
  | succ n ih =>
      intro i l
      have hround : (initPipes o (n + 1) i l).2 = 0 ↔
          (pipeInit (o.pipe i) (o.isOutp i)).2 = 0 ∧ (initPipes o n (i + 1) (i :: l)).2 = 0 := by
        rw [initPipes]
        by_cases hrc : (pipeInit (o.pipe i) (o.isOutp i)).2 = 0 <;> simp [hrc]
      rw [hround, pipeInit_eq_zero_iff, ih, Nat.forall_lt_succ_left']
      simp only [Nat.add_zero, Nat.add_assoc, Nat.add_comm 1]

theorem spifPipesInit_eq_zero_iff (o : Outcome) : (spifPipesInit o).2 = 0 ↔
    (o.classCreate ∧ 0 ≤ o.allocChrdev) ∧
      ∀ i < o.pipes, (o.pipe i).Succeeds (o.isOutp i) := by
  have hloop := initPipes_eq_zero_iff o o.pipes 0 []
  simp only [Nat.zero_add] at hloop
  rw [← hloop]
  unfold spifPipesInit
  cases o.classCreate with
  | false => simp [enodev]
  | true =>
      by_cases hneg : o.allocChrdev < 0
      · have hne : o.allocChrdev ≠ 0 := Int.ne_of_lt hneg
        simp [hneg, hne, Int.not_le.mpr hneg]
      · have hpos : 0 ≤ o.allocChrdev := Int.not_lt.mp hneg
        by_cases hrc : (initPipes o o.pipes 0 []).2 = 0 <;> simp [hneg, hrc, hpos]

theorem spifApbrInit_eq_zero_iff (o : Outcome) : (spifApbrInit o).2 = 0 ↔
    o.apbNode ∧ o.apbAddress ∧ o.ioremapApb ∧ o.secCode := by
  unfold spifApbrInit
  cases o.apbNode <;> cases o.apbAddress <;> cases o.ioremapApb <;> cases o.secCode <;>
    simp [enodev, enomem]

theorem spifRsvdInit_eq_zero_iff (o : Outcome) :
    spifRsvdInit o = 0 ↔ o.rsvdNode ∧ o.rsvdAddress := by
  unfold spifRsvdInit
  cases o.rsvdNode <;> cases o.rsvdAddress <;> simp [enomem]

theorem spifDriverProbe_eq_zero_iff (o : Outcome) : (spifDriverProbe o).2 = 0 ↔ o.Succeeds := by
  have hparts : (spifDriverProbe o).2 = 0 ↔ o.kmallocDrv ∧ (spifApbrInit o).2 = 0 ∧
      spifRsvdInit o = 0 ∧ (spifPipesInit o).2 = 0 := by
    unfold spifDriverProbe
    cases o.kmallocDrv with
    | false => simp [enomem]
    | true =>
        by_cases ha : (spifApbrInit o).2 = 0 <;> by_cases hr : spifRsvdInit o = 0 <;>
          by_cases hp : (spifPipesInit o).2 = 0 <;> simp [ha, hr, hp]
  rw [hparts, spifApbrInit_eq_zero_iff, spifRsvdInit_eq_zero_iff, spifPipesInit_eq_zero_iff,
    Outcome.Succeeds]
  simp only [and_assoc]

theorem undone_driverActs (o : Outcome) (r : Resource) : Undone (deeds r (driverActs o)) := by
  cases r with
  | pipe i q => exact undone_pipe o i q
  | _ => exact undone_own (by simp) o

/-- The probe fails exactly when one of its steps reports failure, and has then
undone what it did; after a probe that succeeds, the removal undoes it all. -/
theorem probe_all_or_nothing (o : Outcome) :
    (o.Succeeds → (spifDriverProbe o).2 = 0 ∧
        ∀ r, Undone (deeds r ((spifDriverProbe o).1 ++ spifDriverRemove o))) ∧
      (¬ o.Succeeds → (spifDriverProbe o).2 ≠ 0 ∧
        ∀ r, Undone (deeds r (spifDriverProbe o).1)) := by
  have hundone := undone_driverActs o
  refine ⟨fun h ↦ ?_, fun h ↦ ?_⟩
  · have hrc := (spifDriverProbe_eq_zero_iff o).mpr h
    exact ⟨hrc, by simpa [driverActs, hrc] using hundone⟩
  · have hrc : (spifDriverProbe o).2 ≠ 0 := fun hrc ↦ h ((spifDriverProbe_eq_zero_iff o).mp hrc)
    exact ⟨hrc, by simpa [driverActs, hrc] using hundone⟩

end Spif.Driver
