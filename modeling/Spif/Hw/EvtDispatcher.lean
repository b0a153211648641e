import Spif.Hw.Packet
import Spif.Lib.Clocked

/-!
# The event dispatcher

`evt_dispatcher` distills events from the packets sent by SpiNNaker and passes
them to the DMA engine in frames.  It stores at most two events: the one on the
output port and the ready-to-go event, which is kept back so that there is an
event left to close the frame with.

Every register has its own definition below, with the guards of the `always`
block that drives it.  A `casex` becomes a match on the same bits.
-/

namespace Spif.EvtDispatcher

open Clocked

abbrev numDsRegs : ℕ := 6

def usClkCnt : BitVec 32 := 75 - 1

structure State where
  pktRdyOut : Bool
  /-- ready-to-go event used to dispatch a frame -/
  rtgEvent : Word
  rtgRdy : Bool
  frmCnt : BitVec 10
  usCnt : BitVec 32
  tckCnt : BitVec 32
  evtDataOut : Word
  evtKeepOut : BitVec 4
  evtLastOut : Bool
  evtVldOut : Bool
  outDrpCntOut : Bool
deriving DecidableEq, Repr

structure Input where
  pktDataIn : Packet
  pktVldIn : Bool
  dsKeyIn : Fin numDsRegs → Word
  dsMskIn : Fin numDsRegs → Word
  dsSftIn : Fin numDsRegs → BitVec 5
  outputTickIn : BitVec 32
  outputSizeIn : BitVec 10
  evtRdyIn : Bool

/-- The asynchronous reset branches.  `rtg_event`, `evt_data_out`,
`evt_keep_out` and `evt_last_out` have none: they come out of reset holding
whatever they held. -/
def reset (s : State) : State :=
  { s with
    pktRdyOut := false
    rtgRdy := false
    frmCnt := 0
    usCnt := usClkCnt
    tckCnt := 0
    evtVldOut := false
    outDrpCntOut := false }

section Combinational

variable (s : State) (i : Input)

def pktAvailable : Bool := i.pktVldIn && s.pktRdyOut

def pktEvent (k : Fin numDsRegs) : Word :=
  i.dsKeyIn k ||| ((i.pktDataIn.key &&& i.dsMskIn k) >>> i.dsSftIn k)

/-- A header may name a distiller that does not exist; such a read is
unspecified in the source and taken to be zero. -/
def newEvent : Word :=
  if h : i.pktDataIn.dis.toNat < numDsRegs then pktEvent i ⟨_, h⟩ else 0

def evtBusy : Bool := s.evtVldOut && !i.evtRdyIn

def sndEvent : Bool := pktAvailable s i && s.rtgRdy && !evtBusy s i

def sndFrame : Bool :=
  (s.tckCnt == 0 && (pktAvailable s i || s.rtgRdy)) || (s.frmCnt == 1 && !evtBusy s i)

end Combinational

section Registers

variable (s : State) (i : Input)

def rtgEventNext : Word :=
  match pktAvailable s i, s.rtgRdy, sndFrame s i with
  | true, _, false => newEvent i
  | true, true, _ => newEvent i
  | _, _, _ => s.rtgEvent

def rtgRdyNext : Bool :=
  match pktAvailable s i, s.rtgRdy, sndFrame s i with
  | true, _, false => true
  | true, true, _ => true
  | false, _, true => false
  | _, _, _ => s.rtgRdy

def frmCntNext : BitVec 10 :=
  if sndFrame s i || s.frmCnt == 0 then i.outputSizeIn
  else if sndEvent s i then s.frmCnt - 1
  else s.frmCnt

def usCntNext : BitVec 32 := if s.usCnt == 0 then usClkCnt else s.usCnt - 1

def tckCntNext : BitVec 32 :=
  if s.tckCnt == 0 then i.outputTickIn
  else if s.usCnt == 0 then s.tckCnt - 1
  else s.tckCnt

def evtDataOutNext : Word :=
  match s.rtgRdy, sndFrame s i, sndEvent s i with
  | _, _, true => s.rtgEvent
  | true, true, _ => s.rtgEvent
  | false, true, _ => newEvent i
  | _, _, _ => s.evtDataOut

def evtLastOutNext : Bool :=
  if sndFrame s i then true else if !evtBusy s i then false else s.evtLastOut

def evtVldOutNext : Bool :=
  if sndEvent s i || sndFrame s i then true
  else if !evtBusy s i then false
  else s.evtVldOut

def outDrpCntOutNext : Bool := pktAvailable s i && evtBusy s i && s.rtgRdy

def next : State where
  pktRdyOut := true
  rtgEvent := rtgEventNext s i
  rtgRdy := rtgRdyNext s i
  frmCnt := frmCntNext s i
  usCnt := usCntNext s
  tckCnt := tckCntNext s i
  evtDataOut := evtDataOutNext s i
  evtKeepOut := 0b1111#4
  evtLastOut := evtLastOutNext s i
  evtVldOut := evtVldOutNext s i
  outDrpCntOut := outDrpCntOutNext s i

end Registers

/-! ## What the ports exchange -/

def accepted (s : State) (i : Input) : List Word :=
  if pktAvailable s i then [newEvent i] else []

def transferred (s : State) (i : Input) : List Word :=
  if s.evtVldOut && i.evtRdyIn then [s.evtDataOut] else []

/-- The stored events, oldest first. -/
def held (s : State) : List Word :=
  (if s.evtVldOut then [s.evtDataOut] else []) ++ (if s.rtgRdy then [s.rtgEvent] else [])

@[simp] theorem held_reset (s : State) : held (reset s) = [] := rfl

def tickFrame (s : State) (i : Input) : Bool :=
  s.tckCnt == 0 && (pktAvailable s i || s.rtgRdy)

def fullFrame (s : State) (i : Input) : Bool := s.frmCnt == 1 && !evtBusy s i

theorem sndFrame_eq (s : State) (i : Input) :
    sndFrame s i = (tickFrame s i || fullFrame s i) := rfl

/-- A full frame finds an event to close it with: the one kept back or the one
arriving. -/
def FrameHasEvent (s : State) (i : Input) : Prop :=
  fullFrame s i = true → pktAvailable s i = true ∨ s.rtgRdy = true

instance (s : State) (i : Input) : Decidable (FrameHasEvent s i) :=
  inferInstanceAs (Decidable (_ → _))

/-! ## The frame credit -/

/-- Credit for one event only is left while that event is stored. -/
def CreditInv (s : State) : Prop := s.frmCnt = 1 → s.rtgRdy = true

theorem creditInv_reset (s : State) : CreditInv (reset s) := by
  intro h
  simp [reset] at h

theorem frameHasEvent_of_creditInv {s : State} (hs : CreditInv s) (i : Input) :
    FrameHasEvent s i := by
  intro hfull
  simp only [fullFrame, Bool.and_eq_true, beq_iff_eq] at hfull
  exact Or.inr (hs hfull.1)

/-- A frame size of two or more keeps the credit invariant: the credit reaches
one only by sending an event, and then another one has been stored. -/
theorem creditInv_next {s : State} {i : Input} (hs : CreditInv s)
    (hsize : 2 ≤ i.outputSizeIn.toNat) : CreditInv (next s i) := by
  intro hone
  have hreload : i.outputSizeIn ≠ 1 := by
    rintro h
    simp [h] at hsize
  simp only [next, frmCntNext] at hone
  split at hone
  · exact absurd hone hreload
  · rename_i hkeep
    simp only [Bool.or_eq_true, not_or, Bool.not_eq_true] at hkeep
    split at hone
    · rename_i hsnd
      simp only [sndEvent, Bool.and_eq_true] at hsnd
      simp [next, rtgRdyNext, hsnd.1.1, hkeep.1]
    · have hrtg := hs hone
      cases hav : pktAvailable s i <;>
        simp [next, rtgRdyNext, hav, hrtg, hkeep.1]

end Spif.EvtDispatcher
