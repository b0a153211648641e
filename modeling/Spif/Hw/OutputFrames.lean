import Spif.Hw.EvtStream
import Spif.Lib.Frames

/-!
# Output frames

The frames that `evt_dispatcher` sends are between the smallest and the largest
value that `output_size_in` takes, unless the tick cuts them short.  The frame
credit counts launched events, the frames consist of transferred ones; at most
one event, that on the output port, is launched but not yet transferred.
-/

namespace Spif.EvtDispatcher

open Clocked Frames

/-- A word transferred to the DMA engine, with `evt_last` and whether it was
launched in a cycle with `tck_cnt` equal to 0. -/
structure Sent where
  word : Word
  last : Bool
  byTick : Bool
deriving DecidableEq, Repr

/-- The dispatcher and what an observer remembers: how the event on the port was
launched, and whether an event has been sent since the last frame dispatch. -/
structure Observed where
  state : State
  byTick : Bool
  sent : Bool

def watch (o : Observed) (i : Input) : Observed where
  state := next o.state i
  byTick := if sndEvent o.state i || sndFrame o.state i then o.state.tckCnt == 0 else o.byTick
  sent := !sndFrame o.state i && (sndEvent o.state i || o.sent)

def Observed.start (s : State) : Observed := ⟨reset s, false, false⟩

def stream (o : Observed) (i : Input) : List Sent :=
  if o.state.evtVldOut && i.evtRdyIn then [⟨o.state.evtDataOut, o.state.evtLastOut, o.byTick⟩]
  else []

/-! ## Credit and frame -/

/-- The words in the open frame once the event on the port has left. -/
def ahead (c : ℕ) (s : State) : ℕ :=
  if s.evtVldOut then (if s.evtLastOut then 0 else c + 1) else c

/-- The credit is zero only in the first cycle after reset. -/
def Fresh (s : State) : Prop :=
  s.pktRdyOut = false ∧ s.rtgRdy = false ∧ s.evtVldOut = false

/-- What is in the open frame and the credit add up to a frame size. -/
structure FrameInv (m M c : ℕ) (o : Observed) : Prop where
  fresh : o.state.frmCnt = 0 → Fresh o.state ∧ c = 0
  credit : o.state.frmCnt ≠ 0 →
    m ≤ ahead c o.state + o.state.frmCnt.toNat ∧ ahead c o.state + o.state.frmCnt.toNat ≤ M
  closing : o.state.evtVldOut = true → o.state.evtLastOut = true →
    c + 1 ≤ M ∧ (m ≤ c + 1 ∨ o.byTick = true)

/-- A word may be number `n` of its frame. -/
def InSize (m M n : ℕ) (x : Sent) : Prop :=
  n ≤ M ∧ (x.last = true → m ≤ n ∨ x.byTick = true)

theorem frameInv_start (m M : ℕ) (s : State) : FrameInv m M 0 (.start s) where
  fresh _ := ⟨⟨rfl, rfl, rfl⟩, rfl⟩
  credit h := absurd rfl h
  closing h := by cases h

theorem Fresh.quiet {s : State} (h : Fresh s) (hfrm : s.frmCnt = 0) (i : Input) :
    sndFrame s i = false ∧ sndEvent s i = false ∧ evtBusy s i = false := by
  obtain ⟨hrdy, hrtg, hvld⟩ := h
  simp [sndFrame, sndEvent, evtBusy, pktAvailable, hrdy, hrtg, hvld, hfrm]

theorem frmCnt_ne_one {s : State} {i : Input} (hfrm : sndFrame s i = false)
    (hbusy : evtBusy s i = false) : s.frmCnt ≠ 1 := by
  intro hone
  simp [sndFrame, hone, hbusy] at hfrm

variable {m M c : ℕ} {o : Observed} {i : Input}

theorem inSize_of_inv (ho : FrameInv m M c o) (hvld : o.state.evtVldOut = true) (w : Word) :
    InSize m M (c + 1) ⟨w, o.state.evtLastOut, o.byTick⟩ := by
  cases hlast : o.state.evtLastOut with
  | true => exact ⟨(ho.closing hvld hlast).1, fun _ ↦ (ho.closing hvld hlast).2⟩
  | false =>
      have hne : o.state.frmCnt ≠ 0 := fun h ↦ by
        have hfresh := (ho.fresh h).1.2.2
        simp [hvld] at hfresh
      have hle := (ho.credit hne).2
      simp only [ahead, hvld, hlast, if_true, Bool.false_eq_true, if_false] at hle
      exact ⟨by omega, fun h ↦ by cases h⟩

theorem framed_stream (ho : FrameInv m M c o) (i : Input) :
    Framed Sent.last (InSize m M) c (stream o i) := by
  unfold stream
  cases hvld : o.state.evtVldOut with
  | false => trivial
  | true =>
      cases i.evtRdyIn with
      | false => trivial
      | true => exact ⟨inSize_of_inv ho hvld _, trivial⟩

/-- When the port is free, the words that are in the open frame after this cycle
are those that were ahead. -/
theorem inFrame_free (hbusy : evtBusy o.state i = false) :
    inFrame Sent.last c (stream o i) = ahead c o.state := by
  unfold stream ahead
  cases hvld : o.state.evtVldOut with
  | false => simp [inFrame]
  | true =>
      have hrdy : i.evtRdyIn = true := by simpa [evtBusy, hvld] using hbusy
      simp [inFrame, hrdy]

theorem inFrame_busy (hbusy : evtBusy o.state i = true) :
    inFrame Sent.last c (stream o i) = c := by
  obtain ⟨hvld, hrdy⟩ : o.state.evtVldOut = true ∧ i.evtRdyIn = false := by
    simpa [evtBusy] using hbusy
  simp [stream, hvld, hrdy, inFrame]

theorem evtBusy_of_sndEvent {s : State} (hevt : sndEvent s i = true) : evtBusy s i = false := by
  simp only [sndEvent, Bool.and_eq_true, Bool.not_eq_true'] at hevt
  exact hevt.2

theorem ahead_watch (c : ℕ) (o : Observed) (i : Input) :
    ahead (inFrame Sent.last c (stream o i)) (watch o i).state =
      if sndFrame o.state i then 0 else ahead c o.state + (sndEvent o.state i).toNat := by
  cases hfrm : sndFrame o.state i with
  | true => simp [ahead, watch, next, evtVldOutNext, evtLastOutNext, hfrm]
  | false =>
      cases hevt : sndEvent o.state i with
      | true =>
          have hbusy := evtBusy_of_sndEvent hevt
          rw [inFrame_free hbusy]
          simp [ahead, watch, next, evtVldOutNext, evtLastOutNext, hfrm, hevt, hbusy]
      | false =>
          cases hbusy : evtBusy o.state i with
          | false =>
              rw [inFrame_free hbusy]
              simp [ahead, watch, next, evtVldOutNext, hfrm, hevt, hbusy]
          | true =>
              rw [inFrame_busy hbusy]
              simp [ahead, watch, next, evtVldOutNext, evtLastOutNext, hfrm, hevt, hbusy]

theorem FrameInv.frmCnt_ne_zero (ho : FrameInv m M c o)
    (h : sndFrame o.state i = true ∨ sndEvent o.state i = true ∨ evtBusy o.state i = true) :
    o.state.frmCnt ≠ 0 := by
  intro hzero
  obtain ⟨hfrm, hevt, hbusy⟩ := (ho.fresh hzero).1.quiet hzero i
  simp [hfrm, hevt, hbusy] at h

theorem toNat_pos {x : BitVec 10} (h : x ≠ 0) : 1 ≤ x.toNat := by
  bv_omega

theorem inFrame_lt (ho : FrameInv m M c o) (hne : o.state.frmCnt ≠ 0) (i : Input) :
    inFrame Sent.last c (stream o i) + 1 ≤ M := by
  have hpos := toNat_pos hne
  have hle := (ho.credit hne).2
  cases hbusy : evtBusy o.state i with
  | false =>
      rw [inFrame_free hbusy]
      omega
  | true =>
      have hvld : o.state.evtVldOut = true := by
        simp only [evtBusy, Bool.and_eq_true] at hbusy
        exact hbusy.1
      rw [inFrame_busy hbusy]
      cases hlast : o.state.evtLastOut with
      | true => exact (ho.closing hvld hlast).1
      | false =>
          simp only [ahead, hvld, hlast, if_true, Bool.false_eq_true, if_false] at hle
          omega

theorem full_of_not_tick (hfrm : sndFrame o.state i = true) (htick : o.state.tckCnt ≠ 0) :
    o.state.frmCnt = 1 ∧ evtBusy o.state i = false := by
  have htick' : ¬ o.state.tckCnt = 0#32 := htick
  simpa [sndFrame, htick'] using hfrm

theorem frameInv_dispatch (ho : FrameInv m M c o) (hm : 1 ≤ m)
    (hsize : m ≤ i.outputSizeIn.toNat ∧ i.outputSizeIn.toNat ≤ M)
    (hfrm : sndFrame o.state i = true) :
    FrameInv m M (inFrame Sent.last c (stream o i)) (watch o i) := by
  have hne := ho.frmCnt_ne_zero (.inl hfrm)
  have hcnt : (watch o i).state.frmCnt = i.outputSizeIn := by
    simp [watch, next, frmCntNext, hfrm]
  refine ⟨fun hzero ↦ ?_, fun _ ↦ ?_, fun _ _ ↦ ⟨inFrame_lt ho hne i, ?_⟩⟩
  · rw [hcnt] at hzero
    simp [hzero] at hsize
    omega
  · rw [hcnt, ahead_watch, if_pos hfrm, Nat.zero_add]
    exact hsize
  · -- the frame is full, or the tick closes it
    by_cases htick : o.state.tckCnt = 0
    · exact .inr (by simp [watch, hfrm, htick])
    · obtain ⟨hone, hbusy⟩ := full_of_not_tick hfrm htick
      have hle := (ho.credit hne).1
      rw [inFrame_free hbusy]
      rw [hone] at hle
      exact .inl hle

theorem frameInv_send (ho : FrameInv m M c o) (hfrm : sndFrame o.state i = false)
    (hevt : sndEvent o.state i = true) :
    FrameInv m M (inFrame Sent.last c (stream o i)) (watch o i) := by
  have hne := ho.frmCnt_ne_zero (.inr (.inl hevt))
  have hbusy := evtBusy_of_sndEvent hevt
  have hone := frmCnt_ne_one hfrm hbusy
  have hcnt : (watch o i).state.frmCnt = o.state.frmCnt - 1 := by
    simp [watch, next, frmCntNext, hfrm, hevt, show ¬ o.state.frmCnt = 0#10 from hne]
  have hlast : (watch o i).state.evtLastOut = false := by
    simp [watch, next, evtLastOutNext, hfrm, hbusy]
  obtain ⟨hlow, hhigh⟩ := ho.credit hne
  refine ⟨fun hzero ↦ ?_, fun _ ↦ ?_, fun _ h ↦ ?_⟩
  · rw [hcnt] at hzero
    exact absurd hzero (by bv_omega)
  · have hsub : (o.state.frmCnt - 1).toNat + 1 = o.state.frmCnt.toNat := by bv_omega
    rw [hcnt, ahead_watch, hfrm, hevt]
    simp only [Bool.false_eq_true, if_false, Bool.toNat_true]
    omega
  · rw [hlast] at h
    cases h

theorem frameInv_fresh (ho : FrameInv m M c o) (hzero : o.state.frmCnt = 0) (hm : 1 ≤ m)
    (hsize : m ≤ i.outputSizeIn.toNat ∧ i.outputSizeIn.toNat ≤ M) :
    FrameInv m M (inFrame Sent.last c (stream o i)) (watch o i) := by
  obtain ⟨hfresh, hc⟩ := ho.fresh hzero
  obtain ⟨hfrm, hevt, hbusy⟩ := hfresh.quiet hzero i
  have hcnt : (watch o i).state.frmCnt = i.outputSizeIn := by
    simp [watch, next, frmCntNext, hzero]
  have hvld : (watch o i).state.evtVldOut = false := by
    simp [watch, next, evtVldOutNext, hfrm, hevt, hbusy]
  have hahead : ahead c o.state = 0 := by
    rw [ahead, hfresh.2.2, hc]
    rfl
  refine ⟨fun h ↦ ?_, fun _ ↦ ?_, fun h ↦ ?_⟩
  · rw [hcnt] at h
    simp [h] at hsize
    omega
  · rw [hcnt, ahead_watch, hfrm, hevt, hahead]
    simpa using hsize
  · rw [hvld] at h
    cases h

theorem frameInv_rest (ho : FrameInv m M c o) (hne : o.state.frmCnt ≠ 0)
    (hfrm : sndFrame o.state i = false) (hevt : sndEvent o.state i = false) :
    FrameInv m M (inFrame Sent.last c (stream o i)) (watch o i) := by
  have hcnt : (watch o i).state.frmCnt = o.state.frmCnt := by
    simp [watch, next, frmCntNext, hfrm, hevt, show ¬ o.state.frmCnt = 0#10 from hne]
  refine ⟨fun h ↦ absurd (hcnt ▸ h) hne, fun _ ↦ ?_, fun hvld hlast ↦ ?_⟩
  · rw [hcnt, ahead_watch, hfrm, hevt]
    exact ho.credit hne
  · have hbusy : evtBusy o.state i = true := by
      simp [watch, next, evtVldOutNext, hfrm, hevt] at hvld
      exact hvld.1
    have hold : o.state.evtVldOut = true ∧ o.state.evtLastOut = true := by
      simp [watch, next, evtVldOutNext, evtLastOutNext, hfrm, hevt, hbusy] at hvld hlast
      exact ⟨hvld, hlast⟩
    have htick : (watch o i).byTick = o.byTick := by
      simp [watch, hfrm, hevt]
    rw [inFrame_busy hbusy, htick]
    exact ho.closing hold.1 hold.2

theorem frameInv_watch (ho : FrameInv m M c o) (hm : 1 ≤ m)
    (hsize : m ≤ i.outputSizeIn.toNat ∧ i.outputSizeIn.toNat ≤ M) :
    FrameInv m M (inFrame Sent.last c (stream o i)) (watch o i) := by
  by_cases hzero : o.state.frmCnt = 0
  · exact frameInv_fresh ho hzero hm hsize
  · cases hfrm : sndFrame o.state i with
    | true => exact frameInv_dispatch ho hm hsize hfrm
    | false =>
        cases hevt : sndEvent o.state i with
        | true => exact frameInv_send ho hfrm hevt
        | false => exact frameInv_rest ho hzero hfrm hevt

/-! ## Runs -/

theorem framed_run (s : State) {ins : List Input} (hm : 1 ≤ m)
    (hsize : ∀ i ∈ ins, m ≤ i.outputSizeIn.toNat ∧ i.outputSizeIn.toNat ≤ M) :
    Framed Sent.last (InSize m M) 0 (emit watch stream (.start s) ins) :=
  framed_emit (I := FrameInv m M)
    (C := fun _ i ↦ m ≤ i.outputSizeIn.toNat ∧ i.outputSizeIn.toNat ≤ M)
    (fun _ _ i ho hi ↦ ⟨framed_stream ho i, frameInv_watch ho hm hi⟩) (frameInv_start m M s)
    (along_of_forall_mem hsize _)

/-- An event sent leaves another one stored to close the frame with. -/
def RtgInv (o : Observed) : Prop := o.sent = true → o.state.rtgRdy = true

theorem rtgInv_watch (ho : RtgInv o) (i : Input) : RtgInv (watch o i) := by
  intro hsent
  obtain ⟨hfrm, hsnd⟩ : sndFrame o.state i = false ∧
      (sndEvent o.state i = true ∨ o.sent = true) := by
    simpa [watch] using hsent
  cases hav : pktAvailable o.state i with
  | true => simp [watch, next, rtgRdyNext, hav, hfrm]
  | false =>
      have hrtg : o.state.rtgRdy = true := by
        rcases hsnd with hevt | hold
        · simp [sndEvent, hav] at hevt
        · exact ho hold
      simp [watch, next, rtgRdyNext, hav, hfrm, hrtg]

def TickCloses (o : Observed) (i : Input) : Prop :=
  o.sent = true → o.state.rtgRdy = true ∧
    (o.state.tckCnt = 0 → sndFrame o.state i = true ∧
      (watch o i).state.evtVldOut = true ∧ (watch o i).state.evtLastOut = true)

theorem tickCloses_of_rtgInv (ho : RtgInv o) (i : Input) : TickCloses o i := by
  intro hsent
  have hrtg := ho hsent
  refine ⟨hrtg, fun htick ↦ ?_⟩
  have hfrm : sndFrame o.state i = true := by simp [sndFrame, htick, hrtg]
  simp [hfrm, watch, next, evtVldOutNext, evtLastOutNext]

/-- With a constant frame size, output frames respect it and the tick. -/
theorem frames_respected (s : State) {N : BitVec 10} (hN : N ≠ 0) {ins : List Input}
    (hsize : ∀ i ∈ ins, i.outputSizeIn = N) :
    (∀ f ∈ frames Sent.last (emit watch stream (.start s) ins),
      f.length ≤ N.toNat ∧
        ∀ x ∈ f.getLast?, x.last = true → f.length = N.toNat ∨ x.byTick = true) ∧
      Along watch TickCloses (.start s) ins := by
  have hframed : Framed Sent.last (InSize N.toNat N.toNat) 0
      (emit watch stream (.start s) ins) :=
    framed_run s (toNat_pos hN) fun i hi ↦ by simp [hsize i hi]
  refine ⟨fun f hf ↦ ⟨hframed.length_le (fun _ _ h ↦ h.1) hf, fun x hx hlast ↦ ?_⟩, ?_⟩
  · obtain ⟨hle, hlow⟩ := hframed.getLast hf x hx
    exact (hlow hlast).imp (fun h ↦ le_antisymm hle h) id
  · exact along_of_inv (I := RtgInv) (C := fun _ _ ↦ True) (fun _ i ho _ ↦ rtgInv_watch ho i)
      (fun _ i ho _ ↦ tickCloses_of_rtgInv ho i) (fun h ↦ by cases h)
      (along_of_forall_mem (fun _ _ ↦ trivial) _)

theorem frames_respected_twoPackets :
    (∀ f ∈ frames Sent.last (emit watch stream (.start cold) (twoPackets 2)),
      f.length ≤ (2#10).toNat ∧
        ∀ x ∈ f.getLast?, x.last = true → f.length = (2#10).toNat ∨ x.byTick = true) ∧
      Along watch TickCloses (.start cold) (twoPackets 2) :=
  frames_respected cold (by decide) (by decide)

end Spif.EvtDispatcher
