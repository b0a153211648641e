import Spif.Hw.TickPeriod
import Spif.Lib.Streams

/-!
# How long an event stays in the dispatcher

`evt_dispatcher` keeps the latest event back until another one arrives, until the frame
is full or until the tick.  The tick is there to bound the time: it sends what is kept
back and closes the frame, so that the DMA engine delivers it.
-/

namespace Spif.EvtDispatcher

open Clocked

def sentWord (s : State) (i : Input) : List (Word × Bool) :=
  if s.evtVldOut && i.evtRdyIn then [(s.evtDataOut, s.evtLastOut)] else []

/-- The word on the output port. -/
def onPort (s : State) : List (Word × Bool) :=
  if s.evtVldOut then [(s.evtDataOut, s.evtLastOut)] else []

theorem fst_sentWord (s : State) (i : Input) : (sentWord s i).map Prod.fst = transferred s i := by
  unfold sentWord transferred
  split <;> rfl

/-- No event is left out of the frames that `xs` consists of. -/
def Closed (xs : List (Word × Bool)) : Prop := ∀ x ∈ xs.getLast?, x.2 = true

theorem closed_nil : Closed [] := by
  rintro x ⟨⟩

theorem closed_concat {xs : List (Word × Bool)} {x : Word × Bool} :
    Closed (xs ++ [x]) ↔ x.2 = true := by
  simp [Closed]

/-! ## One cycle -/

section Step

variable {s : State} {i : Input}

theorem evtBusy_of_rdy (hrdy : i.evtRdyIn = true) : evtBusy s i = false := by
  simp [evtBusy, hrdy]

/-- While the DMA engine is ready, the dispatcher is a lossless queue. -/
theorem fifo_step_rdy (hs : CreditInv s) (hrdy : i.evtRdyIn = true) :
    transferred s i ++ held (next s i) = held s ++ accepted s i := by
  have hnone := sndFrame_eq_false (frameHasEvent_of_creditInv hs i)
  have hbusy := evtBusy_of_rdy (s := s) hrdy
  cases hav : pktAvailable s i <;> cases hrtg : s.rtgRdy <;> cases hvld : s.evtVldOut <;>
    cases hsnd : sndFrame s i <;>
    simp_all [transferred, accepted, held, next, evtVldOutNext, evtDataOutNext, rtgRdyNext,
      rtgEventNext, sndEvent]

/-- A tick moves the event kept back to the port, where it closes the frame. -/
theorem onPort_tick (htick : s.tckCnt = 0) (hrtg : s.rtgRdy = true) :
    onPort (next s i) = [(s.rtgEvent, true)] := by
  have hsnd : sndFrame s i = true := by simp [sndFrame, htick, hrtg]
  cases hevt : sndEvent s i <;>
    simp [onPort, next, evtVldOutNext, evtDataOutNext, evtLastOutNext, hsnd, hrtg, hevt]

/-- What a cycle launches after a word without `evt_last` leaves an event kept back. -/
theorem closed_onPort_next {xs : List (Word × Bool)}
    (hs : s.rtgRdy = false → Closed (xs ++ onPort s)) (hrtg : (next s i).rtgRdy = false) :
    Closed (xs ++ sentWord s i ++ onPort (next s i)) := by
  cases hsnd : sndFrame s i with
  | true =>
      have hport : ∃ w, onPort (next s i) = [(w, true)] :=
        ⟨_, by simp [onPort, next, evtVldOutNext, evtLastOutNext, hsnd]; rfl⟩
      obtain ⟨w, hw⟩ := hport
      rw [hw]
      exact closed_concat.mpr rfl
  | false =>
      have hkeep : pktAvailable s i = false ∧ s.rtgRdy = false := by
        cases hav : pktAvailable s i <;> cases hold : s.rtgRdy <;>
          simp [next, rtgRdyNext, hav, hold, hsnd] at hrtg ⊢
      have hevt : sndEvent s i = false := by simp [sndEvent, hkeep.1]
      have hport : sentWord s i ++ onPort (next s i) = onPort s := by
        cases hvld : s.evtVldOut <;> cases hrdy : i.evtRdyIn <;>
          simp [sentWord, onPort, next, evtVldOutNext, evtDataOutNext, evtLastOutNext, evtBusy,
            hsnd, hevt, hvld, hrdy]
      rw [List.append_assoc, hport]
      exact hs hkeep.2

end Step

/-! ## Streams -/

section Streams

variable (s : State) (ins : ℕ → Input)

def sentBefore (n : ℕ) : List (Word × Bool) := emitted next sentWord (reset s) ins n

def acceptedBefore (n : ℕ) : List Word := emitted next accepted (reset s) ins n

variable {s ins}

/-- Whenever no event is kept back, all that was launched is in closed frames. -/
theorem closed_launched (n : ℕ) (hrtg : (stateIn s ins n).rtgRdy = false) :
    Closed (sentBefore s ins n ++ onPort (stateIn s ins n)) := by
  induction n with
  | zero => exact closed_nil
  | succ n ih =>
      have hstep := closed_onPort_next (i := ins n) ih hrtg
      rw [sentBefore, emitted_succ]
      exact hstep

theorem sentBefore_succ (n : ℕ) : sentBefore s ins (n + 1) =
    sentBefore s ins n ++ sentWord (stateIn s ins n) (ins n) :=
  emitted_succ _ _

theorem sentWord_of_rdy {n : ℕ} (hrdy : (ins n).evtRdyIn = true) :
    sentWord (stateIn s ins n) (ins n) = onPort (stateIn s ins n) := by
  simp [sentWord, onPort, hrdy]

/-- What the tick finds in the dispatcher has left it two cycles later, in closed frames,
provided that the DMA engine takes it. -/
theorem exists_closed_of_tick {m : ℕ} (htick : Ticks s ins m) (hrdy : (ins m).evtRdyIn = true)
    (hrdy' : (ins (m + 1)).evtRdyIn = true) :
    ∃ xs, xs <+: sentBefore s ins (m + 2) ∧ Closed xs ∧
      xs.map Prod.fst = (sentBefore s ins m).map Prod.fst ++ held (stateIn s ins m) := by
  have hport : (onPort (stateIn s ins m)).map Prod.fst =
      if (stateIn s ins m).evtVldOut then [(stateIn s ins m).evtDataOut] else [] := by
    unfold onPort
    split <;> rfl
  have hfirst : sentBefore s ins (m + 1) = sentBefore s ins m ++ onPort (stateIn s ins m) := by
    rw [sentBefore_succ, sentWord_of_rdy hrdy]
  cases hrtg : (stateIn s ins m).rtgRdy with
  | false =>
      refine ⟨sentBefore s ins (m + 1), emitted_mono _ (Nat.le_succ _), ?_, ?_⟩
      · rw [hfirst]
        exact closed_launched m hrtg
      · rw [hfirst, List.map_append, hport, held, hrtg]
        simp
  | true =>
      have hlast : onPort (stateIn s ins (m + 1)) = [((stateIn s ins m).rtgEvent, true)] :=
        onPort_tick htick hrtg
      have hall : sentBefore s ins (m + 2) = sentBefore s ins m ++ onPort (stateIn s ins m) ++
          [((stateIn s ins m).rtgEvent, true)] := by
        rw [sentBefore_succ, sentWord_of_rdy hrdy', hlast, hfirst]
      refine ⟨sentBefore s ins (m + 2), List.prefix_refl _, ?_, ?_⟩
      · rw [hall]
        exact closed_concat.mpr rfl
      · rw [hall, List.map_append, List.map_append, hport, held, hrtg]
        simp

theorem creditInv_stateIn (hsize : ∀ n, 2 ≤ (ins n).outputSizeIn.toNat) (n : ℕ) :
    CreditInv (stateIn s ins n) := by
  induction n with
  | zero => exact creditInv_reset s
  | succ n ih => exact creditInv_next ih (hsize n)

/-- While the DMA engine is ready, all that was accepted is sent or stored. -/
theorem sent_append_held (hsize : ∀ n, 2 ≤ (ins n).outputSizeIn.toNat)
    (hrdy : ∀ n, (ins n).evtRdyIn = true) (n : ℕ) :
    (sentBefore s ins n).map Prod.fst ++ held (stateIn s ins n) = acceptedBefore s ins n := by
  have hfifo := emitted_fifo held accepted transferred
    (fun n ↦ fifo_step_rdy (creditInv_stateIn (s := s) hsize n) (hrdy n)) n
  rw [held_reset, List.nil_append] at hfifo
  have hwords : (sentBefore s ins n).map Prod.fst = emitted next transferred (reset s) ins n := by
    rw [sentBefore, emitted, emit_map]
    simp only [fst_sentWord]
    rfl
  rw [hwords]
  exact hfifo

/-- The next tick is at most a period away. -/
theorem exists_tick {T : ℕ} (hpos : ∀ n, 1 ≤ outputTick ins n) (hT : ∀ n, outputTick ins n ≤ T)
    (n : ℕ) : ∃ m, n ≤ m ∧ m < n + 75 * T ∧ Ticks s ins m := by
  obtain ⟨m, hm, hlt, htick⟩ : ∃ m, m ≤ n ∧ n < m + 75 * outputTick ins m ∧ Ticks s ins m := by
    induction n with
    | zero => exact ⟨0, le_rfl, by have := hpos 0; omega, ticks_zero⟩
    | succ n ih =>
        obtain ⟨m, hm, hlt, htick⟩ := ih
        by_cases hend : n + 1 = m + 75 * outputTick ins m
        · have hnew := (next_tick hpos htick).1
          rw [← hend] at hnew
          exact ⟨n + 1, le_rfl, by have := hpos (n + 1); omega, hnew⟩
        · exact ⟨m, by omega, by omega, htick⟩
  have hbound := hT m
  by_cases hsame : m = n
  · exact ⟨m, hsame.ge, by have := hpos 0; have := hT 0; omega, htick⟩
  · exact ⟨m + 75 * outputTick ins m, by omega, by omega, (next_tick hpos htick).1⟩

/-- With a tick of at most `T` microseconds and a DMA engine that is always ready, an event
has left the dispatcher in a closed frame `75 * T + 1` cycles after it was accepted. -/
theorem dispatched_within {T : ℕ} (hsize : ∀ n, 2 ≤ (ins n).outputSizeIn.toNat)
    (hrdy : ∀ n, (ins n).evtRdyIn = true) (hpos : ∀ n, 1 ≤ outputTick ins n)
    (hT : ∀ n, outputTick ins n ≤ T) (n : ℕ) :
    ∃ xs, xs <+: sentBefore s ins (n + 75 * T + 1) ∧ Closed xs ∧
      acceptedBefore s ins n <+: xs.map Prod.fst := by
  obtain ⟨m, hnm, hlt, htick⟩ := exists_tick hpos hT n
  obtain ⟨xs, hpre, hclosed, hwords⟩ := exists_closed_of_tick htick (hrdy m) (hrdy (m + 1))
  refine ⟨xs, hpre.trans (emitted_mono _ (by omega)), hclosed, ?_⟩
  rw [hwords, sent_append_held hsize hrdy]
  exact emitted_mono _ hnm

end Streams

def oneEvent (n : ℕ) : Input := cycle (if n = 1 then some (.mk 0 7 0) else none) 2 256 true

theorem dispatched_within_oneEvent :
    ∃ xs, xs <+: sentBefore cold oneEvent (2 + 75 * 2 + 1) ∧ Closed xs ∧
      acceptedBefore cold oneEvent 2 <+: xs.map Prod.fst :=
  @dispatched_within cold oneEvent 2 (fun _ ↦ Nat.le_of_ble_eq_true rfl) (fun _ ↦ rfl)
    (fun _ ↦ Nat.le_of_ble_eq_true rfl) (fun _ ↦ le_refl 2) 2

end Spif.EvtDispatcher
