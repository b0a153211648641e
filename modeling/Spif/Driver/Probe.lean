import Mathlib.Data.List.Infix
import Mathlib.Tactic.Common

/-!
# Probing and removing the driver

`spif_driver_probe` acquires the resources of the driver and of its pipes in a
fixed order, and releases what it holds when a step fails;
`spif_driver_remove` releases all of them.  A function of the driver is modelled
by the list of the actions it performs, together with the code it returns.
Which steps succeed is up to the kernel and the device tree.
-/

namespace Spif.Driver

inductive PipeAct where
  | kmalloc
  | requestIrq
  | ioremap
  | resetDmac
  | initQueue
  | clearReady
  | deviceCreate
  | cdevAdd
  | semaInit
  | cdevDel
  | deviceDestroy
  | memunmap
  | freeIrq
  | kfree
deriving DecidableEq, Repr

inductive Act where
  | kmallocDrv
  | ioremapApb
  | classCreate
  | allocChrdev
  | pipe (i : ℕ) (a : PipeAct)
  | unregisterChrdev
  | classDestroy
  | memunmapApb
  | kfreeDrv
deriving DecidableEq, Repr

/-- Which steps of a pipe's initialisation succeed.  `irq` says that the device
tree has an interrupt for it, `cdevAdd` is the value that `cdev_add` returns. -/
structure PipeOutcome where
  kmalloc : Bool
  dmacNode : Bool
  irq : Bool
  requestIrq : Bool
  dmacAddress : Bool
  ioremap : Bool
  deviceCreate : Bool
  cdevAdd : ℤ

/-- Which steps of the probe succeed, and the number of pipes that the hardware
reports.  `allocChrdev` is the value that `alloc_chrdev_region` returns. -/
structure Outcome where
  kmallocDrv : Bool
  apbNode : Bool
  apbAddress : Bool
  ioremapApb : Bool
  secCode : Bool
  pipes : ℕ
  outps : ℕ
  rsvdNode : Bool
  rsvdAddress : Bool
  classCreate : Bool
  allocChrdev : ℤ
  pipe : ℕ → PipeOutcome

def eio : ℤ := -5
def enomem : ℤ := -12
def enodev : ℤ := -19

section Pipe

variable (o : PipeOutcome) (isOutp : Bool)

def hasIrq : Bool := isOutp && o.irq

def freeIrqs : List PipeAct := if hasIrq o isOutp then [.freeIrq] else []

def spifDmacInit : List PipeAct × ℤ :=
  if !o.dmacNode then ([], eio)
  else if hasIrq o isOutp && !o.requestIrq then ([], eio)
  else
    let irqs := if hasIrq o isOutp then [.requestIrq] else []
    if !o.dmacAddress then (irqs ++ freeIrqs o isOutp, eio)
    else if !o.ioremap then (irqs ++ freeIrqs o isOutp, enomem)
    else (irqs ++ [.ioremap, .resetDmac], 0)

def spifCdevInit : List PipeAct × ℤ :=
  if !o.deviceCreate then ([], enodev)
  else if o.cdevAdd < 0 then ([.deviceCreate, .deviceDestroy], o.cdevAdd)
  else ([.deviceCreate, .cdevAdd], 0)

/-- A round of the loop of `spif_pipes_init`, with `error4` and `error3`. -/
def pipeInit : List PipeAct × ℤ :=
  if !o.kmalloc then ([], enomem)
  else
    let (dmac, rc) := spifDmacInit o isOutp
    if rc ≠ 0 then (.kmalloc :: dmac ++ [.kfree], rc)
    else
      let queue := if isOutp then [.initQueue, .clearReady] else []
      let (cdev, rc) := spifCdevInit o
      if rc ≠ 0 then
        (.kmalloc :: dmac ++ queue ++ cdev ++ .memunmap :: freeIrqs o isOutp ++ [.kfree], rc)
      else (.kmalloc :: dmac ++ queue ++ cdev ++ [.semaInit], 0)

/-- A round of the loops of `error2` and of `spif_pipes_remove`. -/
def pipeRelease : List PipeAct :=
  [.cdevDel, .deviceDestroy, .memunmap] ++ freeIrqs o isOutp ++ [.kfree]

end Pipe

section Probe

variable (o : Outcome)

def Outcome.isOutp (i : ℕ) : Bool := i < o.outps

def releasePipes (nextPipe : List ℕ) : List Act :=
  nextPipe.flatMap fun i ↦ (pipeRelease (o.pipe i) (o.isOutp i)).map (.pipe i)

/-- The loop of `spif_pipes_init` from pipe `i` on, with `n` pipes to go. -/
def initPipes : ℕ → ℕ → List ℕ → List Act × ℤ
  | 0, _, _ => ([], 0)
  | n + 1, i, nextPipe =>
      let (acts, rc) := pipeInit (o.pipe i) (o.isOutp i)
      if rc ≠ 0 then (acts.map (.pipe i) ++ releasePipes o nextPipe, rc)
      else
        let (rest, rc) := initPipes n (i + 1) (i :: nextPipe)
        (acts.map (.pipe i) ++ rest, rc)

/-- Before the loop the source divides the reserved memory by the number of pipes.  If there
are none, which leaves that undefined, the quotient is taken to be 0. -/
def spifPipesInit : List Act × ℤ :=
  if !o.classCreate then ([], enodev)
  else if o.allocChrdev < 0 then ([.classCreate, .classDestroy], o.allocChrdev)
  else
    let (acts, rc) := initPipes o o.pipes 0 []
    if rc ≠ 0 then
      (.classCreate :: .allocChrdev :: acts ++ [.unregisterChrdev, .classDestroy], rc)
    else (.classCreate :: .allocChrdev :: acts, 0)

/-- `drv->pipe_list`: the pipe initialised last comes first. -/
def pipeList : List ℕ := (List.range o.pipes).reverse

def spifPipesRemove : List Act :=
  releasePipes o (pipeList o) ++ [.unregisterChrdev, .classDestroy]

def spifApbrInit : List Act × ℤ :=
  if !o.apbNode then ([], enodev)
  else if !o.apbAddress then ([], enodev)
  else if !o.ioremapApb then ([], enomem)
  else if !o.secCode then ([.ioremapApb, .memunmapApb], enodev)
  else ([.ioremapApb], 0)

def spifRsvdInit : ℤ :=
  if !o.rsvdNode then enomem
  else if !o.rsvdAddress then enomem
  else 0

def spifDriverProbe : List Act × ℤ :=
  if !o.kmallocDrv then ([], enomem)
  else
    let (apbr, rc) := spifApbrInit o
    if rc ≠ 0 then (.kmallocDrv :: apbr ++ [.kfreeDrv], rc)
    else if spifRsvdInit o ≠ 0 then
      (.kmallocDrv :: apbr ++ [.memunmapApb, .kfreeDrv], spifRsvdInit o)
    else
      let (acts, rc) := spifPipesInit o
      if rc ≠ 0 then (.kmallocDrv :: apbr ++ acts ++ [.memunmapApb, .kfreeDrv], rc)
      else (.kmallocDrv :: apbr ++ acts, 0)

def spifDriverRemove : List Act := spifPipesRemove o ++ [.memunmapApb, .kfreeDrv]

/-- All that the driver does: a device is removed only after a successful probe. -/
def driverActs : List Act :=
  let (acts, rc) := spifDriverProbe o
  if rc = 0 then acts ++ spifDriverRemove o else acts

end Probe

/-! ## One pipe's share -/

def Act.onPipe (i : ℕ) : Act → Option PipeAct
  | pipe j a => if j = i then some a else none
  | _ => none

def pipeActs (i : ℕ) (acts : List Act) : List PipeAct := acts.filterMap (Act.onPipe i)

@[simp] theorem pipeActs_nil (i : ℕ) : pipeActs i [] = [] := rfl

@[simp] theorem pipeActs_append (i : ℕ) (xs ys : List Act) :
    pipeActs i (xs ++ ys) = pipeActs i xs ++ pipeActs i ys := by
  simp [pipeActs]

theorem pipeActs_cons (i : ℕ) (a : Act) (xs : List Act) :
    pipeActs i (a :: xs) = (a.onPipe i).toList ++ pipeActs i xs := by
  cases h : a.onPipe i <;> simp [pipeActs, h]

theorem pipeActs_eq_nil {i : ℕ} {xs : List Act} (h : ∀ a ∈ xs, a.onPipe i = none) :
    pipeActs i xs = [] :=
  List.filterMap_eq_nil_iff.mpr h

theorem pipeActs_map_pipe (i j : ℕ) (as : List PipeAct) :
    pipeActs i (as.map (.pipe j)) = if j = i then as else [] := by
  induction as with
  | nil => simp
  | cons a as ih =>
      by_cases h : j = i
      · subst h
        simpa [pipeActs, Act.onPipe] using ih
      · simp [h, pipeActs, Act.onPipe] at ih ⊢

section Share

variable (o : Outcome)

/-- A pipe's share of what the driver does: nothing, an initialisation that
fails and undoes itself, or a complete initialisation and its release. -/
def Share (i : ℕ) (as : List PipeAct) : Prop :=
  as = [] ∨
    (as = (pipeInit (o.pipe i) (o.isOutp i)).1 ∧ (pipeInit (o.pipe i) (o.isOutp i)).2 ≠ 0) ∨
    (as = (pipeInit (o.pipe i) (o.isOutp i)).1 ++ pipeRelease (o.pipe i) (o.isOutp i) ∧
      (pipeInit (o.pipe i) (o.isOutp i)).2 = 0)

theorem pipeActs_releasePipes (i : ℕ) {l : List ℕ} (hl : l.Nodup) :
    pipeActs i (releasePipes o l) =
      if i ∈ l then pipeRelease (o.pipe i) (o.isOutp i) else [] := by
  induction l with
  | nil => rfl
  | cons j l ih =>
      obtain ⟨hj, hl⟩ := List.nodup_cons.mp hl
      have hcons : releasePipes o (j :: l) =
          (pipeRelease (o.pipe j) (o.isOutp j)).map (.pipe j) ++ releasePipes o l := rfl
      rw [hcons, pipeActs_append, pipeActs_map_pipe, ih hl]
      by_cases hij : j = i
      · subst hij
        simp [hj]
      · have hji : i ≠ j := fun h ↦ hij h.symm
        simp [hij, hji]

/-- What the loop of `spif_pipes_init` does, followed by the removal if it succeeds:
the pipes on the list are released, the others have their share. -/
theorem pipeActs_initPipes (i n : ℕ) :
    ∀ (j : ℕ) {l : List ℕ}, l.Nodup → (∀ k ∈ l, k < j) →
      ∀ acts, acts = (initPipes o n j l).1 ++ (if (initPipes o n j l).2 = 0 then
          releasePipes o ((List.range' j n).reverse ++ l) else []) →
        (i ∈ l → pipeActs i acts = pipeRelease (o.pipe i) (o.isOutp i)) ∧
          (i ∉ l → Share o i (pipeActs i acts)) := by
  induction n with
  | zero =>
      rintro j l hl - acts rfl
      simp only [initPipes, List.range'_zero, List.reverse_nil, List.nil_append, if_true,
        pipeActs_releasePipes o i hl]
      exact ⟨fun hi ↦ if_pos hi, fun hi ↦ .inl (if_neg hi)⟩
  | succ n ih =>
      intro j l hl hlt acts hacts
      have hj : j ∉ l := fun hmem ↦ lt_irrefl j (hlt j hmem)
      rw [initPipes] at hacts
      by_cases hrc : (pipeInit (o.pipe j) (o.isOutp j)).2 = 0
      · -- the pipe goes on the list, which the rest of the loop takes over
        have hcons : (List.range' j (n + 1)).reverse ++ l =
            (List.range' (j + 1) n).reverse ++ (j :: l) := by
          simp [List.range'_succ]
        have hlt' : ∀ k ∈ j :: l, k < j + 1 := by
          intro k hk
          rcases List.mem_cons.mp hk with rfl | hk
          · exact Nat.lt_succ_self k
          · exact Nat.lt_succ_of_lt (hlt k hk)
        obtain ⟨hin, hout⟩ := ih (j + 1) (List.nodup_cons.mpr ⟨hj, hl⟩) hlt' _ rfl
        simp only [hrc, ne_eq, not_true_eq_false, if_false, hcons, List.append_assoc] at hacts
        subst hacts
        rw [pipeActs_append, pipeActs_map_pipe]
        by_cases hij : j = i
        · subst hij
          rw [if_pos rfl, hin List.mem_cons_self]
          exact ⟨fun h ↦ absurd h hj, fun _ ↦ .inr (.inr ⟨rfl, hrc⟩)⟩
        · rw [if_neg hij, List.nil_append]
          have hji : i ≠ j := fun h ↦ hij h.symm
          exact ⟨fun h ↦ hin (List.mem_cons_of_mem j h), fun h ↦ hout (by simp [hji, h])⟩
      · -- the pipe undoes itself, and those on the list are released
        simp only [hrc, ne_eq, not_false_eq_true, if_true, if_false, List.append_nil] at hacts
        subst hacts
        rw [pipeActs_append, pipeActs_map_pipe, pipeActs_releasePipes o i hl]
        by_cases hij : j = i
        · subst hij
          rw [if_pos rfl, if_neg hj, List.append_nil]
          exact ⟨fun h ↦ absurd h hj, fun _ ↦ .inr (.inl ⟨rfl, hrc⟩)⟩
        · rw [if_neg hij, List.nil_append]
          exact ⟨fun h ↦ if_pos h, fun h ↦ .inl (if_neg h)⟩

theorem share_pipesInit (i : ℕ) :
    Share o i (pipeActs i ((spifPipesInit o).1 ++
      (if (spifPipesInit o).2 = 0 then spifPipesRemove o else []))) := by
  have hloop := (pipeActs_initPipes o i o.pipes 0 List.nodup_nil (by simp) _ rfl).2
    List.not_mem_nil
  have hlist : (List.range' 0 o.pipes).reverse ++ [] = pipeList o := by
    simp [pipeList, List.range_eq_range']
  rw [hlist] at hloop
  rw [spifPipesInit]
  split
  · exact .inl rfl
  · split
    · rename_i hneg
      have hne : o.allocChrdev ≠ 0 := by omega
      exact .inl (by simp [hne, pipeActs_cons, Act.onPipe])
    · by_cases hrc : (initPipes o o.pipes 0 []).2 = 0
      · simp only [hrc, if_true, pipeActs_append] at hloop
        simpa [hrc, pipeActs_cons, Act.onPipe, spifPipesRemove] using hloop
      · simp only [hrc, if_false, List.append_nil] at hloop
        simpa [hrc, pipeActs_cons, Act.onPipe] using hloop

theorem pipeActs_spifApbrInit (i : ℕ) : pipeActs i (spifApbrInit o).1 = [] := by
  apply pipeActs_eq_nil
  unfold spifApbrInit
  split_ifs <;> simp [Act.onPipe]

theorem share_driverActs (i : ℕ) : Share o i (pipeActs i (driverActs o)) := by
  have hpipes := share_pipesInit o i
  have hapbr := pipeActs_spifApbrInit o i
  rw [driverActs, spifDriverProbe]
  by_cases hdrv : o.kmallocDrv = false
  · exact .inl (by simp [hdrv, enomem])
  by_cases hrc : (spifApbrInit o).2 = 0
  · by_cases hrsvd : spifRsvdInit o = 0
    · by_cases hinit : (spifPipesInit o).2 = 0
      · simpa [hdrv, hrc, hrsvd, hinit, pipeActs_cons, Act.onPipe, hapbr, spifDriverRemove]
          using hpipes
      · simpa [hdrv, hrc, hrsvd, hinit, pipeActs_cons, Act.onPipe, hapbr] using hpipes
    · exact .inl (by simp [hdrv, hrc, hrsvd, pipeActs_cons, Act.onPipe, hapbr])
  · exact .inl (by simp [hdrv, hrc, pipeActs_cons, Act.onPipe, hapbr])

end Share

/-! ## Lifecycles -/

section Lifecycles

variable (isOutp irq : Bool)

def acquired : List PipeAct :=
  .kmalloc :: (if irq then [.requestIrq] else []) ++ [.ioremap, .resetDmac] ++
    (if isOutp then [.initQueue, .clearReady] else [])

def released : List PipeAct := .memunmap :: (if irq then [.freeIrq] else []) ++ [.kfree]

def lifecycles : List (List PipeAct) :=
  [[], [.kmalloc, .kfree], [.kmalloc, .requestIrq, .freeIrq, .kfree],
    acquired isOutp irq ++ released irq,
    acquired isOutp irq ++ [.deviceCreate, .deviceDestroy] ++ released irq,
    acquired isOutp irq ++ [.deviceCreate, .cdevAdd, .semaInit, .cdevDel, .deviceDestroy] ++
      released irq]

end Lifecycles

theorem spifDmacInit_cases (o : PipeOutcome) (isOutp : Bool) :
    (spifDmacInit o isOutp = ((if hasIrq o isOutp then [.requestIrq] else []) ++
        [.ioremap, .resetDmac], 0)) ∨
      (spifDmacInit o isOutp).2 ≠ 0 ∧
        ((spifDmacInit o isOutp).1 = [] ∨
          (spifDmacInit o isOutp).1 = [.requestIrq, .freeIrq]) := by
  unfold spifDmacInit freeIrqs
  cases hasIrq o isOutp <;> split_ifs <;> simp [eio, enomem]

theorem spifCdevInit_cases (o : PipeOutcome) :
    spifCdevInit o = ([.deviceCreate, .cdevAdd], 0) ∨
      (spifCdevInit o).2 ≠ 0 ∧
        ((spifCdevInit o).1 = [] ∨
          (spifCdevInit o).1 = [.deviceCreate, .deviceDestroy]) := by
  unfold spifCdevInit
  split_ifs
  · simp [enodev]
  · right
    refine ⟨?_, .inr rfl⟩
    show o.cdevAdd ≠ 0
    omega
  · exact .inl rfl

theorem pipeInit_cases (o : PipeOutcome) (isOutp : Bool) :
    (pipeInit o isOutp).2 = 0 ∧ (pipeInit o isOutp).1 =
        acquired isOutp (hasIrq o isOutp) ++ [.deviceCreate, .cdevAdd, .semaInit] ∨
      (pipeInit o isOutp).2 ≠ 0 ∧
        (pipeInit o isOutp).1 ∈ lifecycles isOutp (hasIrq o isOutp) := by
  rw [pipeInit]
  by_cases halloc : o.kmalloc = false
  · right
    simp [halloc, enomem, lifecycles]
  rcases spifDmacInit_cases o isOutp with hdmac | ⟨hrc, hacts⟩
  · rcases spifCdevInit_cases o with hcdev | ⟨hrc, hacts⟩
    · left
      simp [halloc, hdmac, hcdev, acquired]
    · right
      refine ⟨by simp [halloc, hdmac, hrc], ?_⟩
      rcases hacts with hacts | hacts <;>
        simp [halloc, hdmac, hrc, hacts, lifecycles, acquired, released, freeIrqs]
  · right
    refine ⟨by simp [halloc, hrc], ?_⟩
    rcases hacts with hacts | hacts <;> simp [halloc, hrc, hacts, lifecycles]

theorem share_mem_lifecycles {o : Outcome} {i : ℕ} {as : List PipeAct} (h : Share o i as) :
    as ∈ lifecycles (o.isOutp i) (hasIrq (o.pipe i) (o.isOutp i)) := by
  rcases h with rfl | ⟨rfl, hfail⟩ | ⟨rfl, hok⟩
  · simp [lifecycles]
  · rcases pipeInit_cases (o.pipe i) (o.isOutp i) with ⟨hok, -⟩ | ⟨-, hmem⟩
    · exact absurd hok hfail
    · exact hmem
  · rcases pipeInit_cases (o.pipe i) (o.isOutp i) with ⟨-, hacts⟩ | ⟨hfail, -⟩
    · simp [hacts, lifecycles, pipeRelease, freeIrqs, released]
    · exact absurd hok hfail

end Spif.Driver
