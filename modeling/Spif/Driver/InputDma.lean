import Mathlib.Data.Int.Notation
import Spif.Lib.Transition

/-!
# Input transfers

`SPIF_TRANSFER` starts an input transfer by a write to the length register of
the DMA controller.  The driver takes the controller to be busy if its idle bit
is clear, except before the first transfer after an open, when `dma_init` is set
and the bit has no meaning.  The calls on a pipe are made one at a time, so its
file is open when `dev_open` is set.
-/

namespace Spif.InputDma

open Transition

/-- `started` says that a transfer has been started since the channel was run.
Sessions are numbered by the opens that succeeded; `inFlight` is the session
that started the transfer in progress. -/
structure Pipe where
  devOpen : Bool
  dmaInit : Bool
  started : Bool
  inFlight : Option ℕ
  session : ℕ
deriving DecidableEq, Repr

inductive Event where
  | spifOpen
  | statusRd
  | spifTransfer
  | spifRelease
  | complete
deriving DecidableEq, Repr

def ebusy : ℤ := -16

/-- `SPIF_DMAC_IDLE` -/
def idleBit (s : Pipe) : Bool := s.started && s.inFlight.isNone

def dmaBusy (s : Pipe) : Bool := !s.dmaInit && !idleBit s

def spifOpen (s : Pipe) : ℤ × Pipe :=
  if s.devOpen then (ebusy, s)
  else (0, { s with
    started := false, dmaInit := true, devOpen := true, session := s.session + 1 })

def spifTransfer (s : Pipe) : ℤ × Pipe :=
  if dmaBusy s then (ebusy, s)
  else (0, { s with started := true, inFlight := some s.session, dmaInit := false })

/-- Clearing the run bit does not end a transfer. -/
def spifRelease (s : Pipe) : ℤ × Pipe := (0, { s with devOpen := false })

def Enabled (s : Pipe) : Event → Prop
  | .spifOpen => True
  | .statusRd | .spifTransfer | .spifRelease => s.devOpen = true
  | .complete => s.inFlight.isSome

def effect (s : Pipe) : Event → Pipe
  | .spifOpen => (spifOpen s).2
  | .statusRd => s
  | .spifTransfer => (spifTransfer s).2
  | .spifRelease => (spifRelease s).2
  | .complete => { s with inFlight := none }

instance : ∀ (s : Pipe) (e : Event), Decidable (Enabled s e) := fun s e ↦ by
  cases e <;> unfold Enabled <;> infer_instance

def step : Pipe → Event → Option Pipe := guarded Enabled effect

/-- Nothing initialises `dma_init` before the first open. -/
def start (dmaInit : Bool) : Pipe := ⟨false, dmaInit, false, none, 0⟩

/-- The length register is written only if no transfer is in progress. -/
def NoOverlap (s : Pipe) : Event → Prop
  | .spifTransfer => dmaBusy s = false → s.inFlight = none
  | _ => True

/-- `SPIF_TRANSFER` does not meet a transfer that an earlier session left running. -/
def OwnSession (s : Pipe) : Event → Prop
  | .spifTransfer => ∀ k ∈ s.inFlight, k = s.session
  | _ => True

instance : ∀ (s : Pipe) (e : Event), Decidable (NoOverlap s e) := fun s e ↦ by
  cases e <;> unfold NoOverlap <;> infer_instance

instance : ∀ (s : Pipe) (e : Event), Decidable (OwnSession s e) := fun s e ↦ by
  cases e <;> unfold OwnSession <;> infer_instance

/-- While `dma_init` is set, a transfer in progress is an earlier session's;
otherwise it is the current one's. -/
def Inv (s : Pipe) : Prop :=
  ∀ k ∈ s.inFlight, if s.dmaInit then k < s.session else k = s.session

theorem inv_start (d : Bool) : Inv (start d) := by
  intro k hk
  cases hk

theorem inv_spifOpen {s : Pipe} (hs : Inv s) : Inv (spifOpen s).2 := by
  cases hopen : s.devOpen with
  | true => simpa only [spifOpen, hopen, if_true] using hs
  | false =>
      simp only [spifOpen, hopen, Bool.false_eq_true, if_false]
      intro k hk
      have hold := hs k hk
      show k < s.session + 1
      split at hold <;> omega

theorem inv_spifTransfer {s : Pipe} (hs : Inv s) : Inv (spifTransfer s).2 := by
  cases hbusy : dmaBusy s with
  | true => simpa only [spifTransfer, hbusy, if_true] using hs
  | false =>
      simp only [spifTransfer, hbusy, Bool.false_eq_true, if_false]
      intro k hk
      exact (Option.some.inj hk).symm

theorem inv_step {s t : Pipe} {e : Event} (hs : Inv s) (ht : step s e = some t) : Inv t := by
  obtain ⟨-, rfl⟩ := guarded_eq_some.mp ht
  cases e with
  | spifOpen => exact inv_spifOpen hs
  | spifTransfer => exact inv_spifTransfer hs
  | complete =>
      intro k hk
      cases hk
  | statusRd | spifRelease => exact hs

theorem noOverlap_iff {s : Pipe} {e : Event} (hs : Inv s) : NoOverlap s e ↔ OwnSession s e := by
  cases e with
  | spifTransfer =>
      unfold NoOverlap OwnSession dmaBusy idleBit
      unfold Inv at hs
      cases hfly : s.inFlight with
      | none => simp
      | some k =>
          have hk := hs k hfly
          cases hinit : s.dmaInit with
          | true =>
              rw [hinit, if_pos rfl] at hk
              simpa using Nat.ne_of_lt hk
          | false =>
              rw [hinit] at hk
              simpa using hk
  | _ => rfl

/-- No transfer is started on top of a running one exactly when no transfer is
asked for while an earlier session's still runs. -/
theorem along_noOverlap_iff (d : Bool) (es : List Event) :
    Along step NoOverlap (start d) es ↔ Along step OwnSession (start d) es :=
  along_congr (fun _ _ _ hs ht ↦ inv_step hs ht) (fun _ _ _ hs _ ↦ noOverlap_iff hs)
    (inv_start d)

/-- A file is closed and opened again during its transfer. -/
def reopened : List Event :=
  [.spifOpen, .spifTransfer, .spifRelease, .spifOpen, .spifTransfer]

theorem not_along_noOverlap_reopened :
    (exec step (start false) reopened).isSome ∧ ¬ Along step NoOverlap (start false) reopened := by
  decide

end Spif.InputDma
