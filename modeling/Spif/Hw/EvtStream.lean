import Spif.Hw.EvtDispatcher

/-!
# What the event dispatcher sends

Three views of the output stream of `evt_dispatcher`: how many events it sends,
which events it sends, and how it holds them while the DMA engine is not ready.

The tick branch of `snd_frame` does not look at `evt_busy`.  It is the only way
in which a stored event is overwritten, and the only way in which the output
port moves during a stall.
-/

namespace Spif.EvtDispatcher

open Clocked

/-! ## Which events are sent -/

theorem sndFrame_eq_false {s : State} {i : Input} (h : FrameHasEvent s i)
    (hav : pktAvailable s i = false) (hrtg : s.rtgRdy = false) : sndFrame s i = false := by
  have hfull : fullFrame s i = false := by
    by_contra hne
    rcases h (Bool.eq_true_of_not_eq_false hne) with h' | h'
    · simp [hav] at h'
    · simp [hrtg] at h'
  simp [sndFrame_eq, tickFrame, hav, hrtg, hfull]

theorem ledger_step {s : State} {i : Input} (h : FrameHasEvent s i) :
    List.Sublist (transferred s i ++ held (next s i)) (held s ++ accepted s i) := by
  have hnone := sndFrame_eq_false h
  cases hav : pktAvailable s i <;> cases hrtg : s.rtgRdy <;> cases hvld : s.evtVldOut <;>
    cases hrdy : i.evtRdyIn <;> cases hsnd : sndFrame s i <;>
    simp_all [transferred, accepted, held, next, evtVldOutNext, evtDataOutNext,
      rtgRdyNext, rtgEventNext, sndEvent, evtBusy]

/-- Whenever a full frame finds an event to close it with, the events sent are
a subsequence of the events distilled from the accepted packets. -/
theorem transferred_sublist_accepted (s : State) (ins : List Input)
    (h : Along next FrameHasEvent (reset s) ins) :
    List.Sublist (emit next transferred (reset s) ins)
      (emit next accepted (reset s) ins) := by
  have hledger := emit_sublist (I := fun _ ↦ True) (fun _ _ _ _ ↦ trivial)
    (fun _ _ _ hi ↦ ledger_step hi) trivial h
  rw [held_reset, List.nil_append] at hledger
  exact (List.sublist_append_left _ _).trans hledger

theorem along_frameHasEvent (s : State) (ins : List Input)
    (hsize : ∀ i ∈ ins, 2 ≤ i.outputSizeIn.toNat) :
    Along next FrameHasEvent (reset s) ins :=
  along_of_inv (I := CreditInv) (fun _ _ hs hi ↦ creditInv_next hs hi)
    (fun _ i hs _ ↦ frameHasEvent_of_creditInv hs i) (creditInv_reset s)
    (along_of_forall_mem hsize _)

/-- A quiet cycle with the distillers, the tick and the frame size set by
`hssl_reg_bank` on reset, except for what the arguments say. -/
def cycle (pkt : Option Packet) (tick : BitVec 32) (size : BitVec 10) (rdy : Bool) :
    Input where
  pktDataIn := pkt.getD 0
  pktVldIn := pkt.isSome
  dsKeyIn := fun _ ↦ 0
  dsMskIn := fun _ ↦ 0xffffffff
  dsSftIn := fun _ ↦ 0
  outputTickIn := tick
  outputSizeIn := size
  evtRdyIn := rdy

def cold : State where
  pktRdyOut := false
  rtgEvent := 0
  rtgRdy := false
  frmCnt := 0
  usCnt := 0
  tckCnt := 0
  evtDataOut := 0
  evtKeepOut := 0
  evtLastOut := false
  evtVldOut := false
  outDrpCntOut := false

def twoPackets (size : BitVec 10) : List Input :=
  [cycle none 1000 size true, cycle (some (.mk 0 7 0)) 1000 size true,
    cycle (some (.mk 0 8 0)) 1000 size true, cycle none 1000 size true]

theorem transferred_sublist_accepted_twoPackets :
    List.Sublist (emit next transferred (reset cold) (twoPackets 256))
      (emit next accepted (reset cold) (twoPackets 256)) :=
  transferred_sublist_accepted cold (twoPackets 256) (by decide)

/-- With a frame size of one, an event is sent although no packet arrived. -/
theorem not_transferred_sublist_accepted :
    ¬ List.Sublist
      (emit next transferred (reset cold) (List.replicate 3 (cycle none 1000 1 true)))
      (emit next accepted (reset cold) (List.replicate 3 (cycle none 1000 1 true))) := by
  decide

/-! ## How many events are sent -/

def acceptedCount (s : State) (ins : List Input) : ℕ :=
  tally next (fun s i ↦ (pktAvailable s i).toNat) s ins

def transferredCount (s : State) (ins : List Input) : ℕ :=
  tally next (fun s i ↦ (s.evtVldOut && i.evtRdyIn).toNat) s ins

/-- Cycles of the run with `out_drp_cnt_out` high, and the pulse registered by
the last clock edge. -/
def dropPulses (s : State) (ins : List Input) : ℕ :=
  tally next (fun s _ ↦ s.outDrpCntOut.toNat) s ins + (run next s ins).outDrpCntOut.toNat

def heldCount (s : State) : ℕ := s.rtgRdy.toNat + s.evtVldOut.toNat

/-- After every cycle each accepted packet was sent, was counted as dropped or
is still stored. -/
def LossesCounted (s : State) (ins : List Input) : Prop :=
  ∀ pre, pre <+: ins →
    acceptedCount s pre =
      transferredCount s pre + dropPulses s pre + heldCount (run next s pre)

/-- The tick finds the output stalled, and either the ready-to-go event or the
arriving one takes the place of the stalled event. -/
def TickOverStall (s : State) (i : Input) : Prop :=
  s.tckCnt = 0 ∧ evtBusy s i = true ∧ pktAvailable s i ≠ s.rtgRdy

instance (s : State) (i : Input) : Decidable (TickOverStall s i) :=
  inferInstanceAs (Decidable (_ ∧ _))

def CycleBalances (s : State) (i : Input) : Prop :=
  heldCount s + (pktAvailable s i).toNat =
    ((s.evtVldOut && i.evtRdyIn).toNat + (outDrpCntOutNext s i).toNat) + heldCount (next s i)

theorem cycleBalances_free {s : State} {i : Input} (hs : CreditInv s)
    (hbusy : evtBusy s i = false) : CycleBalances s i := by
  have hnone := sndFrame_eq_false (frameHasEvent_of_creditInv hs i)
  cases hav : pktAvailable s i <;> cases hrtg : s.rtgRdy <;> cases hvld : s.evtVldOut <;>
    cases hrdy : i.evtRdyIn <;> cases hsnd : sndFrame s i <;>
    simp_all [CycleBalances, heldCount, next, evtVldOutNext, outDrpCntOutNext,
      rtgRdyNext, sndEvent, evtBusy]

theorem sndFrame_stalled {s : State} {i : Input} (hbusy : evtBusy s i = true) :
    sndFrame s i = tickFrame s i := by
  simp [sndFrame_eq, fullFrame, hbusy]

/-- At a stalled port a tick costs an event, unless the cycle has both an event
stored and an event arriving: then the loss is counted. -/
theorem cycleBalances_stalled {s : State} {i : Input} (hbusy : evtBusy s i = true) :
    CycleBalances s i ↔ ¬ (s.tckCnt = 0 ∧ pktAvailable s i ≠ s.rtgRdy) := by
  have hvld : s.evtVldOut = true ∧ i.evtRdyIn = false := by
    simpa [evtBusy] using hbusy
  by_cases htick : s.tckCnt = 0#32
  · have hsnd : sndFrame s i = (pktAvailable s i || s.rtgRdy) := by
      simp [sndFrame_stalled hbusy, tickFrame, htick]
    cases hav : pktAvailable s i <;> cases hrtg : s.rtgRdy <;>
      simp_all [CycleBalances, heldCount, next, evtVldOutNext, outDrpCntOutNext,
        rtgRdyNext, sndEvent]
  · have hsnd : sndFrame s i = false := by
      simp [sndFrame_stalled hbusy, tickFrame, htick]
    cases hav : pktAvailable s i <;> cases hrtg : s.rtgRdy <;>
      simp_all [CycleBalances, heldCount, next, evtVldOutNext, outDrpCntOutNext,
        rtgRdyNext, sndEvent]

theorem cycleBalances_iff {s : State} {i : Input} (hs : CreditInv s) :
    CycleBalances s i ↔ ¬ TickOverStall s i := by
  cases hbusy : evtBusy s i with
  | false =>
      apply iff_of_true (cycleBalances_free hs hbusy)
      simp [TickOverStall, hbusy]
  | true =>
      rw [cycleBalances_stalled hbusy]
      simp [TickOverStall, hbusy]

theorem dropPulses_reset (s : State) (ins : List Input) :
    dropPulses (reset s) ins =
      tally next (fun s i ↦ (outDrpCntOutNext s i).toNat) (reset s) ins := by
  have hpulse (s : State) (i : Input) :
      (next s i).outDrpCntOut.toNat = (outDrpCntOutNext s i).toNat := rfl
  have h := tally_registered (fun s ↦ s.outDrpCntOut.toNat)
    (fun s i ↦ (outDrpCntOutNext s i).toNat) hpulse (reset s) ins
  simpa [dropPulses, reset] using h

theorem lossesCounted_iff_balanced (s : State) (ins : List Input) :
    LossesCounted (reset s) ins ↔
      Balanced next heldCount (fun s i ↦ (pktAvailable s i).toNat)
        (fun s i ↦ (s.evtVldOut && i.evtRdyIn).toNat + (outDrpCntOutNext s i).toNat)
        (reset s) ins := by
  refine forall_congr' fun pre ↦ imp_congr_right fun _ ↦ ?_
  rw [dropPulses_reset, tally_add]
  simp [acceptedCount, transferredCount, heldCount, reset]

/-- No event is lost silently, in a run with frame sizes of two or more,
exactly if no tick overwrites a stalled event. -/
theorem lossesCounted_iff (s : State) (ins : List Input)
    (hsize : ∀ i ∈ ins, 2 ≤ i.outputSizeIn.toNat) :
    LossesCounted (reset s) ins ↔
      Along next (fun s i ↦ ¬ TickOverStall s i) (reset s) ins := by
  rw [lossesCounted_iff_balanced, balanced_iff_along]
  exact along_congr (I := CreditInv) (fun _ _ hs hi ↦ creditInv_next hs hi)
    (fun _ _ hs _ ↦ cycleBalances_iff hs) (creditInv_reset s) (along_of_forall_mem hsize _)

theorem lossesCounted_twoPackets : LossesCounted (reset cold) (twoPackets 256) :=
  (lossesCounted_iff cold (twoPackets 256) (by decide)).mpr (by decide)

/-- Two packets arrive, the DMA engine stalls, and the tick of one microsecond
comes. -/
def stalledTick : List Input :=
  [cycle none 1 256 true, cycle (some (.mk 0 7 0)) 1 256 true,
    cycle (some (.mk 0 8 0)) 1 256 true] ++ List.replicate 73 (cycle none 1 256 false)

/-- The tick overwrites the stalled event: two packets accepted, none sent,
none counted as dropped, one event stored. -/
theorem not_lossesCounted_stalledTick : ¬ LossesCounted (reset cold) stalledTick := by
  intro h
  have hlast := h stalledTick (List.prefix_refl _)
  revert hlast
  decide +kernel

/-! ## The handshake -/

def StallHeld (s : State) (i : Input) : Prop :=
  s.evtVldOut = true → i.evtRdyIn = false →
    (next s i).evtVldOut = true ∧ (next s i).evtDataOut = s.evtDataOut ∧
      (next s i).evtLastOut = s.evtLastOut

/-- The tick does not dispatch during a stall, or it dispatches the very word
on the port, already marked as the last one. -/
def TickKeepsStall (s : State) (i : Input) : Prop :=
  evtBusy s i = true → tickFrame s i = true →
    (if s.rtgRdy then s.rtgEvent else newEvent i) = s.evtDataOut ∧ s.evtLastOut = true

instance (s : State) (i : Input) : Decidable (StallHeld s i) :=
  inferInstanceAs (Decidable (_ → _ → _))

instance (s : State) (i : Input) : Decidable (TickKeepsStall s i) :=
  inferInstanceAs (Decidable (_ → _ → _))

theorem stallHeld_iff (s : State) (i : Input) : StallHeld s i ↔ TickKeepsStall s i := by
  cases hrtg : s.rtgRdy <;> cases hvld : s.evtVldOut <;> cases hrdy : i.evtRdyIn <;>
    cases htick : tickFrame s i <;> cases hlast : s.evtLastOut <;>
    simp [StallHeld, TickKeepsStall, next, evtVldOutNext, evtDataOutNext, evtLastOutNext,
      sndFrame_eq, fullFrame, sndEvent, evtBusy, hrtg, hvld, hrdy, htick, hlast]

/-- The handshake towards the DMA engine is kept throughout a run exactly if no
tick dispatches another event, or marks the event as the last one, during a
stall. -/
theorem along_stallHeld_iff (s : State) (ins : List Input) :
    Along next StallHeld (reset s) ins ↔ Along next TickKeepsStall (reset s) ins :=
  along_congr (I := fun _ ↦ True) (D := fun _ _ ↦ True) (fun _ _ _ _ ↦ trivial)
    (fun s i _ _ ↦ stallHeld_iff s i) trivial (along_of_forall_mem (fun _ _ ↦ trivial) _)

theorem not_along_stallHeld_stalledTick : ¬ Along next StallHeld (reset cold) stalledTick := by
  decide +kernel

end Spif.EvtDispatcher
