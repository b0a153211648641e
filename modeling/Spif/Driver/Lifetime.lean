import Mathlib.Data.Fintype.Basic
import Spif.Driver.Probe
import Spif.Lib.Transition

/-!
# The lifetime of pipe data

While the driver is probed and removed, interrupts reach the handler from
`request_irq` to `free_irq`, and file operations can be called from `cdev_add` to
`cdev_del`.  A call takes its time: the driver goes on between two of its accesses,
above all while `SPIF_GET_OUTP` sleeps.  This module says in which windows a call
finds the pipe data in a state that it must not use.
-/

namespace Spif.Driver

open Transition

/-- What exists of a pipe's data.  `queue`, `ready` and `sem` say that the wait
queue, `outp_ready` and `open_sem` have been initialised. -/
structure Life where
  irq : Bool
  mapped : Bool
  queue : Bool
  ready : Bool
  sem : Bool
  cdev : Bool
deriving DecidableEq, Repr

def Life.none : Life := ⟨false, false, false, false, false, false⟩

def Life.after (l : Life) : PipeAct → Life
  | .kmalloc | .kfree => .none
  | .requestIrq => { l with irq := true }
  | .freeIrq => { l with irq := false }
  | .ioremap => { l with mapped := true }
  | .memunmap => { l with mapped := false }
  | .initQueue => { l with queue := true }
  | .clearReady => { l with ready := true }
  | .semaInit => { l with sem := true }
  | .cdevAdd => { l with cdev := true }
  | .cdevDel => { l with cdev := false }
  | .resetDmac | .deviceCreate | .deviceDestroy => l

def life (as : List PipeAct) : Life := as.foldl Life.after .none

/-! ## Calls -/

/-- What a call uses of a pipe. -/
inductive Access where
  | dmaRegs
  | outpQueue
  | outpReady
  | openSem
deriving DecidableEq, Repr

instance : Fintype Access :=
  ⟨{.dmaRegs, .outpQueue, .outpReady, .openSem}, fun a ↦ by cases a <;> decide⟩

def Access.outp : Access → Bool
  | outpQueue | outpReady => true
  | _ => false

def Life.has (l : Life) : Access → Bool
  | .dmaRegs => l.mapped
  | .outpQueue => l.queue
  | .outpReady => l.ready
  | .openSem => l.sem

/-- The requests of `spif_ioctl`, with what decides on the way through the code: `dma_init`,
the status of the DMA controller, how often the wait goes through the queue, and a timeout. -/
inductive Request where
  | regRd
  | regWr
  | statusRd (dmaInit : Bool)
  | transfer (dmaInit busy : Bool)
  | getOutp (sleeps : ℕ) (timeout : Bool)
  | bufSize
deriving DecidableEq, Repr

def Request.accesses : Request → List Access
  | regRd | regWr | bufSize => []
  | statusRd dmaInit => if dmaInit then [] else [.dmaRegs]
  | transfer dmaInit busy =>
      if dmaInit then [.dmaRegs] else if busy then [.dmaRegs] else [.dmaRegs, .dmaRegs]
  | getOutp sleeps timeout =>
      -- the wait looks at the flag, and again whenever it has been in the queue
      [.dmaRegs, .outpReady] ++ (List.replicate sleeps [.outpQueue, .outpReady]).flatten ++
        (if sleeps = 0 then [] else [.outpQueue]) ++
        (if timeout then [] else [.outpReady, .dmaRegs])

/-- The ways through `spif_open`; `dmaIrq` says that the pipe has an interrupt, with which the
output DMA controller is started, too. -/
inductive Opening where
  | interrupted
  | busy
  | opened (dmaIrq : Bool)
deriving DecidableEq, Repr

/-- The ways through `spif_release`. -/
inductive Closing where
  | interrupted
  | closed (dmaIrq : Bool)
deriving DecidableEq, Repr

/-- `down_interruptible` comes back to the semaphore whenever it has slept. -/
def down (sleeps : ℕ) : List Access := List.replicate (sleeps + 1) .openSem

inductive Op where
  | irqHandler
  | openFile (sleeps : ℕ) (result : Opening)
  | ioctl (r : Request)
  | release (sleeps : ℕ) (result : Closing)
deriving DecidableEq, Repr

/-- The accesses of a call in their order. -/
def Op.accesses : Op → List Access
  | irqHandler => [.dmaRegs, .outpReady, .outpQueue]
  | openFile sleeps .interrupted => down sleeps
  | openFile sleeps .busy => down sleeps ++ [.openSem]
  | openFile sleeps (.opened dmaIrq) =>
      down sleeps ++ [.dmaRegs, .dmaRegs] ++ (if dmaIrq then [.dmaRegs, .dmaRegs] else []) ++
        [.openSem]
  | ioctl r => r.accesses
  | release sleeps .interrupted => down sleeps
  | release sleeps (.closed dmaIrq) =>
      down sleeps ++ [.dmaRegs] ++ (if dmaIrq then [.dmaRegs] else []) ++ [.openSem]

/-- A call, with the accesses that are still to come; it is over when there are none. -/
structure Call where
  pipe : ℕ
  op : Op
  todo : List Access
deriving DecidableEq, Repr

/-- The driver, with the actions it has performed and those it has still to
perform, the pipes with an open file, and the calls. -/
structure System where
  done : List Act
  rest : List Act
  files : List ℕ
  calls : List Call

inductive Event where
  | driver
  | call (i : ℕ) (op : Op)
  /-- the next access of call `k` -/
  | access (k : ℕ)
deriving DecidableEq, Repr

namespace System

def pipeLife (s : System) (i : ℕ) : Life := life (pipeActs i s.done)

def lastAct (s : System) (i : ℕ) : Option PipeAct := (pipeActs i s.done).getLast?

def start (o : Outcome) : System := ⟨[], driverActs o, [], []⟩

/-- `free_irq` waits for a handler that is running. -/
def Waits (s : System) : Act → Prop
  | .pipe i .freeIrq => ∃ c ∈ s.calls, c.pipe = i ∧ c.op = .irqHandler ∧ c.todo ≠ []
  | _ => False

instance (s : System) : ∀ a, Decidable (s.Waits a) := fun a ↦ by
  unfold Waits
  split <;> infer_instance

/-- A call on a file may go on after `cdev_del`. -/
def Enabled (s : System) : Event → Prop
  | .driver => ∃ a ∈ s.rest.head?, ¬ s.Waits a
  | .call i op =>
      match op with
      | .irqHandler => (s.pipeLife i).irq
      | .openFile _ _ => (s.pipeLife i).cdev
      | .ioctl _ | .release _ _ => (s.pipeLife i).cdev ∧ i ∈ s.files
  | .access k => ∃ c ∈ s.calls[k]?, c.todo ≠ []

instance : ∀ (s : System) (e : Event), Decidable (Enabled s e) := fun s e ↦ by
  unfold Enabled
  split
  · infer_instance
  · split <;> infer_instance
  · infer_instance

/-- The file exists when `spif_open` has succeeded. -/
def effect (s : System) : Event → System
  | .driver => { s with done := s.done ++ s.rest.take 1, rest := s.rest.drop 1 }
  | .call i op =>
      { s with
        files := match op with
          | .release _ _ => s.files.erase i
          | _ => s.files
        calls := s.calls ++ [⟨i, op, op.accesses⟩] }
  | .access k =>
      { s with
        files := match s.calls[k]? with
          | some ⟨i, .openFile _ (.opened _), [_]⟩ => i :: s.files
          | _ => s.files
        calls := s.calls.modify k fun c ↦ { c with todo := c.todo.tail } }

def step : System → Event → Option System := guarded Enabled effect

def Safe (s : System) : Event → Prop
  | .access k => ∀ c ∈ s.calls[k]?, ∀ a ∈ c.todo.head?, (s.pipeLife c.pipe).has a
  | _ => True

/-- The last steps of the driver on a pipe after which a call does not find what it uses.
The registers are there from `ioremap` to `memunmap`, the rest from its initialisation to
`kfree`. -/
def window : Access → List PipeAct
  | .dmaRegs => [.requestIrq, .memunmap, .freeIrq, .kfree]
  | .outpQueue => [.requestIrq, .ioremap, .resetDmac, .kfree]
  | .outpReady => [.requestIrq, .ioremap, .resetDmac, .initQueue, .kfree]
  | .openSem => [.cdevAdd, .kfree]

/-- No access in its window.  `SPIF_GET_OUTP` is for output pipes only. -/
def OutsideWindows (o : Outcome) (s : System) : Event → Prop
  | .access k => ∀ c ∈ s.calls[k]?, ∀ a ∈ c.todo.head?,
      (∀ l ∈ s.lastAct c.pipe, l ∉ window a) ∧ (a.outp → c.pipe < o.outps)
  | _ => True

end System

/-! ## The windows -/

namespace System

/-- What a call in progress says of the driver's steps so far. -/
def Begun (as : List PipeAct) : Op → Prop
  | .irqHandler => .requestIrq ∈ as ∧ .freeIrq ∉ as
  | _ => .cdevAdd ∈ as

instance (as : List PipeAct) : ∀ op, Decidable (Begun as op) := fun op ↦ by
  unfold Begun
  split <;> infer_instance

def Windowed (isOutp : Bool) (as : List PipeAct) (a : Access) : Prop :=
  (life as).has a = true ↔ (∀ l ∈ as.getLast?, l ∉ window a) ∧ (a.outp = true → isOutp = true)

instance (isOutp : Bool) (as : List PipeAct) (a : Access) : Decidable (Windowed isOutp as a) :=
  inferInstanceAs (Decidable (_ ↔ _))

/-- Up to some step of a lifecycle: who may call, and what the calls find. -/
structure Stage (isOutp : Bool) (as : List PipeAct) : Prop where
  irq : (life as).irq = true → Begun as .irqHandler
  cdev : (life as).cdev = true → .cdevAdd ∈ as
  handler : Begun as .irqHandler → ∀ a ∈ Op.irqHandler.accesses, Windowed isOutp as a
  file : .cdevAdd ∈ as → ∀ a, Windowed isOutp as a

theorem stage_iff {isOutp : Bool} {as : List PipeAct} : Stage isOutp as ↔
    (((life as).irq = true → Begun as .irqHandler) ∧ ((life as).cdev = true → .cdevAdd ∈ as)) ∧
      (Begun as .irqHandler → ∀ a ∈ Op.irqHandler.accesses, Windowed isOutp as a) ∧
        (.cdevAdd ∈ as → ∀ a, Windowed isOutp as a) :=
  ⟨fun h ↦ ⟨⟨h.irq, h.cdev⟩, h.handler, h.file⟩, fun h ↦ ⟨h.1.1, h.1.2, h.2.1, h.2.2⟩⟩

instance (isOutp : Bool) (as : List PipeAct) : Decidable (Stage isOutp as) :=
  decidable_of_iff' _ stage_iff

theorem stage_of_prefix {isOutp irq : Bool} (hirq : irq → isOutp) {l as : List PipeAct}
    (hl : l ∈ lifecycles isOutp irq) (has : as <+: l) : Stage isOutp as := by
  have hall : ∀ isOutp irq : Bool, (irq → isOutp) → ∀ l ∈ lifecycles isOutp irq,
      ∀ as ∈ l.inits, Stage isOutp as := by
    decide +kernel
  exact hall isOutp irq hirq l hl as ((List.mem_inits as l).mpr has)

structure Inv (o : Outcome) (s : System) : Prop where
  acts : s.done ++ s.rest = driverActs o
  todo : ∀ c ∈ s.calls, c.todo <:+ c.op.accesses
  begun : ∀ c ∈ s.calls, c.todo ≠ [] → Begun (pipeActs c.pipe s.done) c.op

theorem inv_start (o : Outcome) : Inv o (start o) where
  acts := rfl
  todo := by simp [start]
  begun := by simp [start]

variable {o : Outcome} {s : System}

theorem Inv.stage (hs : Inv o s) (i : ℕ) : Stage (o.isOutp i) (pipeActs i s.done) := by
  have hmem := share_mem_lifecycles (share_driverActs o i)
  have hpre : pipeActs i s.done <+: pipeActs i (driverActs o) := by
    rw [← hs.acts, pipeActs_append]
    exact List.prefix_append _ _
  refine stage_of_prefix ?_ hmem hpre
  intro hirq
  simp only [hasIrq, Bool.and_eq_true] at hirq
  exact hirq.1

/-- Only `free_irq` ends the time in which the handler may run. -/
theorem Begun.driver {as : List PipeAct} {op : Op} (h : Begun as op) {a : Option PipeAct}
    (ha : op = .irqHandler → a ≠ some .freeIrq) : Begun (as ++ a.toList) op := by
  cases op with
  | irqHandler =>
      obtain ⟨hrequest, hfree⟩ := h
      refine ⟨List.mem_append_left _ hrequest, fun hmem ↦ ?_⟩
      rcases List.mem_append.mp hmem with hold | hnew
      · exact hfree hold
      · exact ha rfl (Option.mem_toList.mp hnew)
  | openFile | ioctl | release => exact List.mem_append_left _ h

theorem Inv.driver (hs : Inv o s) {a : Act} (ha : s.rest.head? = some a) (hfree : ¬ s.Waits a) :
    Inv o (effect s .driver) := by
  obtain ⟨rest, hrest⟩ := List.head?_eq_some_iff.mp ha
  have hdone : (effect s .driver).done = s.done ++ [a] := by simp [effect, hrest]
  constructor
  · simp only [effect, List.append_assoc, List.take_append_drop]
    exact hs.acts
  · exact hs.todo
  · intro c hc htodo
    rw [hdone, pipeActs_append, pipeActs_cons, pipeActs_nil, List.append_nil]
    refine (hs.begun c hc htodo).driver fun hop hlast ↦ hfree ?_
    cases a with
    | pipe i b =>
        obtain ⟨rfl, rfl⟩ : i = c.pipe ∧ b = .freeIrq := by simpa [Act.onPipe] using hlast
        exact ⟨c, hc, rfl, hop, htodo⟩
    | _ => cases hlast

theorem Inv.call (hs : Inv o s) {i : ℕ} {op : Op} (he : Enabled s (.call i op)) :
    Inv o (effect s (.call i op)) := by
  have hbegun : Begun (pipeActs i s.done) op := by
    cases op with
    | irqHandler => exact (hs.stage i).irq he
    | openFile => exact (hs.stage i).cdev he
    | ioctl | release => exact (hs.stage i).cdev he.1
  have hcalls {P : Call → Prop} (hold : ∀ c ∈ s.calls, P c) (hnew : P ⟨i, op, op.accesses⟩) :
      ∀ c ∈ (effect s (.call i op)).calls, P c :=
    List.forall_mem_append.mpr ⟨hold, List.forall_mem_singleton.mpr hnew⟩
  exact ⟨hs.acts, hcalls hs.todo List.suffix_rfl, hcalls hs.begun fun _ ↦ hbegun⟩

theorem Inv.access (hs : Inv o s) (k : ℕ) : Inv o (effect s (.access k)) := by
  have hcalls : ∀ c ∈ (effect s (.access k)).calls, c ∈ s.calls ∨
      ∃ c' ∈ s.calls, c = { c' with todo := c'.todo.tail } := by
    intro c hc
    obtain ⟨j, hj⟩ := List.mem_iff_getElem?.mp hc
    obtain ⟨c', hc', rfl⟩ := getElem?_modify_eq_some.mp hj
    have hmem := List.mem_of_getElem? hc'
    split
    · exact .inr ⟨c', hmem, rfl⟩
    · exact .inl hmem
  refine ⟨hs.acts, fun c hc ↦ ?_, fun c hc htodo ↦ ?_⟩
  · rcases hcalls c hc with hold | ⟨c', hc', rfl⟩
    · exact hs.todo c hold
    · exact (List.tail_suffix _).trans (hs.todo c' hc')
  · rcases hcalls c hc with hold | ⟨c', hc', rfl⟩
    · exact hs.begun c hold htodo
    · refine hs.begun c' hc' fun hnil ↦ htodo ?_
      simp [hnil]

theorem inv_effect (hs : Inv o s) {e : Event} (he : Enabled s e) : Inv o (effect s e) := by
  cases e with
  | driver =>
      obtain ⟨a, ha, hfree⟩ := he
      exact hs.driver ha hfree
  | call i op => exact hs.call he
  | access k => exact hs.access k

theorem safe_iff (hs : Inv o s) (e : Event) : Safe s e ↔ OutsideWindows o s e := by
  cases e with
  | driver | call => exact Iff.rfl
  | access k =>
      refine forall₂_congr fun c hc ↦ forall₂_congr fun a ha ↦ ?_
      have hmem : c ∈ s.calls := List.mem_of_getElem? hc
      obtain ⟨rest, htodo⟩ := List.head?_eq_some_iff.mp ha
      have hbegun := hs.begun c hmem (by simp [htodo])
      have hwindowed : Windowed (o.isOutp c.pipe) (pipeActs c.pipe s.done) a := by
        cases hop : c.op with
        | irqHandler =>
            rw [hop] at hbegun
            refine (hs.stage c.pipe).handler hbegun a ?_
            rw [← hop]
            exact (hs.todo c hmem).subset (by simp [htodo])
        | openFile | ioctl | release =>
            rw [hop] at hbegun
            exact (hs.stage c.pipe).file hbegun a
      have hnum : o.isOutp c.pipe = true ↔ c.pipe < o.outps := by simp [Outcome.isOutp]
      rw [← hnum]
      exact hwindowed

/-- In every interleaving the pipe data are used only within their lifetime if
and only if no access falls into its window. -/
theorem along_safe_iff (o : Outcome) (es : List Event) :
    Along step Safe (start o) es ↔ Along step (OutsideWindows o) (start o) es := by
  refine along_congr (I := Inv o) ?_ ?_ (inv_start o)
  · intro s e t hs ht
    obtain ⟨he, rfl⟩ := guarded_eq_some.mp ht
    exact inv_effect hs he
  · intro s e t hs _
    exact safe_iff hs e

instance : ∀ (s : System) (e : Event), Decidable (Safe s e) := fun s e ↦ by
  cases e <;> unfold Safe <;> infer_instance

def onePipe : Outcome where
  kmallocDrv := true
  apbNode := true
  apbAddress := true
  ioremapApb := true
  secCode := true
  pipes := 1
  outps := 1
  rsvdNode := true
  rsvdAddress := true
  classCreate := true
  allocChrdev := 0
  pipe := fun _ ↦ ⟨true, true, true, true, true, true, true, 0⟩

/-- The line is shared: another device interrupts as soon as the handler is
registered, and the handler writes to registers that are not mapped. -/
def earlyInterrupt : List Event := List.replicate 6 .driver ++ [.call 0 .irqHandler, .access 0]

theorem not_along_safe_onePipe :
    Along step (fun _ _ ↦ True) (start onePipe) earlyInterrupt ∧
      ¬ Along step Safe (start onePipe) earlyInterrupt := by
  decide +kernel

/-- A `SPIF_GET_OUTP` sleeps while the device is removed, and is then ended by a signal. -/
def sleepingCall : List Event :=
  List.replicate 13 .driver ++ .call 0 (.openFile 0 (.opened true)) ::
    List.replicate 6 (.access 0) ++
    .call 0 (.ioctl (.getOutp 1 false)) :: List.replicate 3 (.access 1) ++
    List.replicate 5 .driver ++ List.replicate 4 (.access 1)

example : Along step (fun _ _ ↦ True) (start onePipe) sleepingCall ∧
    ¬ Along step Safe (start onePipe) sleepingCall := by
  decide +kernel

end System

end Spif.Driver
