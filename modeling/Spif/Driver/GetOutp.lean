import Spif.Lib.Transition

/-!
# Output transfers

`SPIF_GET_OUTP` writes the requested length to the output length register of the
DMA controller, sleeps until the interrupt handler has set `outp_ready`, and
returns the length that it reads back.  The model is one output pipe: the calls
made on it, one at a time, the DMA controller, and the interrupt line, which is
shared with other devices.

Transfers are numbered by the writes to the length register.
-/

namespace Spif.GetOutp

open Transition

inductive Phase where
  | idle
  | entered
  | waiting (id : ℕ)
  | woken (id : ℕ)
  | cleared (id : ℕ)
deriving DecidableEq, Repr

namespace Phase

def isWaiting : Phase → Bool
  | waiting _ => true
  | _ => false

def isWoken : Phase → Bool
  | woken _ => true
  | _ => false

def isCleared : Phase → Bool
  | cleared _ => true
  | _ => false

def transfer : Phase → Option ℕ
  | waiting id | woken id | cleared id => some id
  | _ => none

def wake : Phase → Phase
  | waiting id => woken id
  | p => p

def clear : Phase → Phase
  | woken id => cleared id
  | p => p

end Phase

structure Pipe where
  devOpen : Bool
  fileOpen : Bool
  outpReady : Bool
  phase : Phase
  written : ℕ
  done : List ℕ
deriving DecidableEq, Repr

inductive Event where
  | openFile
  /-- `release`; a signal may interrupt its wait for the semaphore. -/
  | release (interrupted : Bool)
  | getOutp
  | writeLen
  /-- The transfer that write `id` started completes. -/
  | complete (id : ℕ)
  /-- The interrupt handler runs, whichever device raised the line. -/
  | irqHandler
  | ready
  | timeout
  /-- The wait ends with `-ERESTARTSYS`. -/
  | signal
  | clearReady
  | returnLen
deriving DecidableEq, Repr

open Event Phase

/-- A file is released once no call uses it.  The wait looks at `outp_ready`
before it looks at signals and at the clock. -/
def Enabled (s : Pipe) : Event → Prop
  | openFile => s.devOpen = false
  | release _ => s.fileOpen = true ∧ s.phase = idle
  | getOutp => s.fileOpen = true ∧ s.phase = idle
  | writeLen => s.phase = entered
  | complete id => id < s.written ∧ id ∉ s.done
  | irqHandler => True
  | ready => s.phase.isWaiting ∧ s.outpReady = true
  | timeout => s.phase.isWaiting ∧ s.outpReady = false
  | signal => s.phase.isWaiting ∧ s.outpReady = false
  | clearReady => s.phase.isWoken
  | returnLen => s.phase.isCleared

instance : ∀ (s : Pipe) (e : Event), Decidable (Enabled s e) := fun s e ↦ by
  cases e <;> unfold Enabled <;> infer_instance

/-- Only a wait that returns 0, on a timeout, counts as a failure.  Opening and
releasing the device leave `outp_ready` as it is. -/
def effect (s : Pipe) : Event → Pipe
  | openFile => { s with devOpen := true, fileOpen := true }
  | release interrupted => { s with fileOpen := false, devOpen := interrupted }
  | getOutp => { s with phase := entered }
  | writeLen => { s with phase := waiting s.written, written := s.written + 1 }
  | complete id => { s with done := id :: s.done }
  | irqHandler => { s with outpReady := true }
  | ready => { s with phase := s.phase.wake }
  | timeout => { s with phase := idle }
  | signal => { s with phase := s.phase.wake }
  | clearReady => { s with phase := s.phase.clear, outpReady := false }
  | returnLen => { s with phase := idle }

def step : Pipe → Event → Option Pipe := guarded Enabled effect

def init : Pipe := ⟨false, false, false, idle, 0, []⟩

def OwnDone (s : Pipe) : Prop := ∀ id ∈ s.phase.transfer, id ∈ s.done

/-- A call that returns a length from the DMA controller returns that of its own
transfer. -/
def OwnAnswer (s : Pipe) : Event → Prop
  | returnLen => OwnDone s
  | _ => True

/-- A call begins its transfer with `outp_ready` clear; while it waits, the
handler runs and a signal interrupts only after its own transfer completed. -/
def Undisturbed (s : Pipe) : Event → Prop
  | writeLen => s.outpReady = false
  | irqHandler => s.phase.isWaiting → OwnDone s
  | signal => OwnDone s
  | _ => True

instance (s : Pipe) : Decidable (OwnDone s) :=
  inferInstanceAs (Decidable (∀ id ∈ s.phase.transfer, id ∈ s.done))

instance : ∀ (s : Pipe) (e : Event), Decidable (OwnAnswer s e) := fun s e ↦ by
  cases e <;> unfold OwnAnswer <;> infer_instance

instance : ∀ (s : Pipe) (e : Event), Decidable (Undisturbed s e) := fun s e ↦ by
  cases e <;> unfold Undisturbed <;> infer_instance

/-! ## The invariant -/

/-- Only a call that waits for `outp_ready` is without its transfer completed. -/
def Inv (s : Pipe) : Prop := OwnDone s ∨ s.phase.isWaiting ∧ s.outpReady = false

theorem inv_init : Inv init := .inl (by simp [OwnDone, init, transfer])

@[simp] theorem transfer_wake (p : Phase) : p.wake.transfer = p.transfer := by
  cases p <;> rfl

@[simp] theorem transfer_clear (p : Phase) : p.clear.transfer = p.transfer := by
  cases p <;> rfl

theorem isWaiting_of_isWoken {p : Phase} (h : p.isWoken = true) : p.isWaiting = false := by
  cases p <;> simp_all [isWoken, isWaiting]

theorem isWaiting_of_isCleared {p : Phase} (h : p.isCleared = true) : p.isWaiting = false := by
  cases p <;> simp_all [isCleared, isWaiting]

theorem Inv.ownDone {s : Pipe} (hs : Inv s)
    (h : s.phase.isWaiting = false ∨ s.outpReady = true) : OwnDone s := by
  rcases hs with hdone | ⟨hwait, hready⟩
  · exact hdone
  · simp [hwait, hready] at h

theorem inv_effect {s : Pipe} {e : Event} (hs : Inv s) (he : Enabled s e)
    (hund : Undisturbed s e) : Inv (effect s e) := by
  cases e with
  | openFile | release => exact hs
  | getOutp | timeout | returnLen => exact .inl (by simp [OwnDone, effect, transfer])
  | writeLen => exact .inr ⟨rfl, hund⟩
  | complete k =>
      rcases hs with hdone | hwait
      · exact .inl fun id hid ↦ List.mem_cons_of_mem k (hdone id hid)
      · exact .inr hwait
  | irqHandler =>
      cases hwait : s.phase.isWaiting with
      | true => exact .inl (hund hwait)
      | false => exact .inl (hs.ownDone (.inl hwait))
  | ready =>
      have hdone := hs.ownDone (.inr he.2)
      exact .inl (by simpa [OwnDone, effect] using hdone)
  | signal =>
      have hdone : OwnDone s := hund
      exact .inl (by simpa [OwnDone, effect] using hdone)
  | clearReady =>
      have hdone := hs.ownDone (.inl (isWaiting_of_isWoken he))
      exact .inl (by simpa [OwnDone, effect] using hdone)

/-! ## Answers -/

theorem done_lt_effect {s : Pipe} {e : Event} (hs : ∀ id ∈ s.done, id < s.written)
    (he : Enabled s e) : ∀ id ∈ (effect s e).done, id < (effect s e).written := by
  intro id hid
  cases e with
  | complete k =>
      rcases List.mem_cons.mp hid with rfl | hid
      · exact he.1
      · exact hs id hid
  | writeLen => exact Nat.lt_succ_of_lt (hs id hid)
  | _ => exact hs id hid

theorem not_ownAnswer_of_woken {s : Pipe} (hwoken : s.phase.isWoken = true) (h : ¬ OwnDone s) :
    Along step (fun _ _ ↦ True) s [clearReady, returnLen] ∧
      ¬ Along step OwnAnswer s [clearReady, returnLen] := by
  have hcleared : s.phase.clear.isCleared = true := by
    cases hp : s.phase <;> simp_all [isWoken, clear, isCleared]
  have hclear : step s clearReady = some (effect s clearReady) :=
    guarded_eq_some.mpr ⟨hwoken, rfl⟩
  have hreturn : step (effect s clearReady) returnLen =
      some (effect (effect s clearReady) returnLen) := guarded_eq_some.mpr ⟨hcleared, rfl⟩
  simp only [along_cons, hclear, hreturn, Option.some.injEq, exists_eq_left']
  refine ⟨by simp, ?_⟩
  rintro ⟨-, hown, -⟩
  exact h (by simpa [OwnAnswer, OwnDone, effect] using hown)

theorem not_ownAnswer_cons {s : Pipe} {e : Event} (he : Enabled s e) {es : List Event}
    (h : Along step (fun _ _ ↦ True) (effect s e) es ∧ ¬ Along step OwnAnswer (effect s e) es) :
    Along step (fun _ _ ↦ True) s (e :: es) ∧ ¬ Along step OwnAnswer s (e :: es) := by
  have hstep : step s e = some (effect s e) := guarded_eq_some.mpr ⟨he, rfl⟩
  simp only [along_cons, hstep, Option.some.injEq, exists_eq_left']
  exact ⟨⟨trivial, h.1⟩, fun hown ↦ h.2 hown.2⟩

theorem isWoken_wake {p : Phase} (h : p.isWaiting = true) : p.wake.isWoken = true := by
  cases p <;> simp_all [isWaiting, wake, isWoken]

theorem not_ownAnswer_of_ready {s : Pipe} (hwait : s.phase.isWaiting = true)
    (hready : s.outpReady = true) (h : ¬ OwnDone s) :
    Along step (fun _ _ ↦ True) s [ready, clearReady, returnLen] ∧
      ¬ Along step OwnAnswer s [ready, clearReady, returnLen] := by
  have he : Enabled s ready := ⟨hwait, hready⟩
  refine not_ownAnswer_cons he (not_ownAnswer_of_woken (isWoken_wake hwait) ?_)
  simpa [OwnDone, effect] using h

theorem exists_not_ownAnswer {s : Pipe} {e : Event} (hs : ∀ id ∈ s.done, id < s.written)
    (he : Enabled s e) (hund : ¬ Undisturbed s e) :
    ∃ es, Along step (fun _ _ ↦ True) s (e :: es) ∧ ¬ Along step OwnAnswer s (e :: es) := by
  cases e with
  | writeLen =>
      have hready : s.outpReady = true := by simpa [Undisturbed] using hund
      have hfresh : s.written ∉ s.done := fun hmem ↦ Nat.lt_irrefl _ (hs _ hmem)
      refine ⟨_, not_ownAnswer_cons he (not_ownAnswer_of_ready rfl hready ?_)⟩
      simpa [OwnDone, effect, transfer] using hfresh
  | irqHandler =>
      obtain ⟨hwait, hdone⟩ : s.phase.isWaiting = true ∧ ¬ OwnDone s := by
        simpa [Undisturbed] using hund
      exact ⟨_, not_ownAnswer_cons he (not_ownAnswer_of_ready hwait rfl hdone)⟩
  | signal =>
      refine ⟨_, not_ownAnswer_cons he (not_ownAnswer_of_woken (isWoken_wake he.1) ?_)⟩
      simpa [OwnDone, effect, Undisturbed] using hund
  | _ => exact absurd trivial hund

/-- Undisturbed calls return the length of their own transfer, and every
disturbance may end in a call that does not. -/
theorem along_ownAnswer (es : List Event) :
    (Along step Undisturbed init es → Along step OwnAnswer init es) ∧
      ∀ s e, exec step init es = some s → Enabled s e → ¬ Undisturbed s e →
        ∃ fs, Along step (fun _ _ ↦ True) s (e :: fs) ∧ ¬ Along step OwnAnswer s (e :: fs) := by
  constructor
  · intro hes
    refine along_of_inv (I := Inv) ?_ inv_init hes
    intro s e t hs hund hstep
    obtain ⟨he, rfl⟩ := guarded_eq_some.mp hstep
    refine ⟨?_, inv_effect hs he hund⟩
    cases e with
    | returnLen => exact hs.ownDone (.inl (isWaiting_of_isCleared he))
    | _ => trivial
  · intro s e hes he hund
    refine exists_not_ownAnswer ?_ he hund
    have hlt : ∀ id ∈ init.done, id < init.written := by simp [init]
    refine inv_exec (I := fun s ↦ ∀ id ∈ s.done, id < s.written) (C := fun _ _ ↦ True) ?_ hlt
      (along_of_exec (fun _ _ ↦ trivial) hes) hes
    intro s e t hs _ hstep
    obtain ⟨he, rfl⟩ := guarded_eq_some.mp hstep
    exact done_lt_effect hs he

def ownTransfers : List Event :=
  [openFile, getOutp, writeLen, complete 0, irqHandler, ready, clearReady, returnLen,
    getOutp, writeLen, timeout, release false]

theorem along_ownAnswer_ownTransfers :
    Along step OwnAnswer init ownTransfers ∧
      ∃ fs, Along step (fun _ _ ↦ True) ⟨true, true, false, waiting 0, 1, []⟩ (irqHandler :: fs) ∧
        ¬ Along step OwnAnswer ⟨true, true, false, waiting 0, 1, []⟩ (irqHandler :: fs) :=
  ⟨(along_ownAnswer ownTransfers).1 (by decide),
    (along_ownAnswer [openFile, getOutp, writeLen]).2 _ _ rfl trivial (by decide)⟩

/-- An interrupt of another device answers the first call at once. -/
def sharedLine : List Event :=
  [openFile, getOutp, writeLen, irqHandler, ready, clearReady, returnLen]

theorem not_ownAnswer_sharedLine :
    Along step (fun _ _ ↦ True) init sharedLine ∧ ¬ Along step OwnAnswer init sharedLine := by
  decide

end Spif.GetOutp
