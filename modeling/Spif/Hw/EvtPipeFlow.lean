import Spif.Hw.EvtPipe
import Spif.Lib.Streams

/-!
# An event pipe in motion

How long `pkt_assembler` and the gate in front of it make an event wait.  The pipe has no
latency of its own: what it stores leaves in the cycles in which the router is ready, and
the event stream is taken off again one cycle after the router was ready.
-/

namespace Spif.EvtPipe

open Clocked PktAssembler

variable (s : State) (ins : ℕ → Input)

def stateIn (n : ℕ) : State := trace next (reset s) ins n

/-- The packets of the events received before cycle `n`. -/
def mappedBefore (n : ℕ) : List Packet :=
  (emitted next received (reset s) ins n).filterMap mapEvent

def transferredBefore (n : ℕ) : List Packet := emitted next transferred (reset s) ins n

/-- The cycles among the first `k` ones from cycle `m` on with `pkt_rdy_in` high. -/
def readyCycles (m k : ℕ) : ℕ := Nat.count (fun j ↦ (ins (m + j)).pktRdyIn = true) k

/-- The stream is only held back by the router, and the packets too. -/
structure Flows : Prop where
  rdy : ∀ n, (ins n).pktRdyIn = true → axiEvtRdyInt (stateIn s ins (n + 1)) (ins (n + 1)) = true
  gate : ∀ n, (ins n).handshakeComplete = false → axiEvtRdyInt (stateIn s ins n) (ins n) = true
  latency : ∀ m k, 2 ≤ readyCycles ins m k →
    mappedBefore s ins m <+: transferredBefore s ins (m + k)
  throughput : (∀ n, (ins n).pktRdyIn = true) →
    ∀ n, transferredBefore s ins (n + 1) = mappedBefore s ins n

variable {s ins}

theorem parkInv_stateIn (n : ℕ) : ParkInv (stateIn s ins n) := by
  induction n with
  | zero => exact parkInv_reset s
  | succ n ih => exact parkInv_next ih (gate (ins n))

theorem mappedBefore_eq (n : ℕ) : mappedBefore s ins n =
    emitted next (fun s i ↦ assembled s (gate i)) (reset s) ins n := by
  rw [mappedBefore, emitted, emit_filterMap]
  simp only [received_filterMap]
  rfl

theorem transferred_append_held_stateIn (n : ℕ) :
    transferredBefore s ins n ++ held (stateIn s ins n) = mappedBefore s ins n := by
  have hfifo := emitted_fifo held (fun s i ↦ assembled s (gate i)) transferred
    (fun n ↦ fifo_step (parkInv_stateIn (s := s) n) (gate (ins n))) n
  rw [held_reset, List.nil_append] at hfifo
  rw [mappedBefore_eq]
  exact hfifo

theorem evtRdyOut_of_rdy {s : State} {i : Input} (h : i.pktRdyIn = true) :
    (next s i).evtRdyOut = true := by
  have hbusy : pktBusyInt s (EvtPipe.gate i) = false := by
    simp [pktBusyInt, EvtPipe.gate, h]
  cases hp : s.parkedInt <;> cases hv : evtPresentInt s (EvtPipe.gate i) <;>
    simp [next, PktAssembler.next, evtRdyOutNext, hbusy, hp, hv]

/-- What is stored shows on the output port. -/
theorem pktVldOut_of_held {s : State} (hs : ParkInv s) (h : held s ≠ []) :
    s.pktVldOut = true := by
  cases hp : s.parkedInt with
  | true => exact (hs hp).1
  | false =>
      cases hv : s.pktVldOut with
      | true => rfl
      | false => exact absurd (by simp [held, hp, hv]) h

theorem transferred_ne_nil {s : State} {i : Input} (hs : ParkInv s) (hrdy : i.pktRdyIn = true)
    (h : held s ≠ []) : transferred s i ≠ [] := by
  have hv := pktVldOut_of_held hs h
  simp [transferred, PktAssembler.transferred, EvtPipe.gate, hv, hrdy]

theorem length_held_le (s : State) : (held s).length ≤ 2 := by
  unfold held
  split <;> split <;> simp

theorem latency {m k : ℕ} (hk : 2 ≤ readyCycles ins m k) :
    mappedBefore s ins m <+: transferredBefore s ins (m + k) := by
  rw [mappedBefore_eq]
  exact emitted_prefix_of_count held (fun n ↦ (ins n).pktRdyIn = true)
    (fun n ↦ (transferred_append_held_stateIn n).trans (mappedBefore_eq n))
    (fun n hrdy hheld ↦ transferred_ne_nil (parkInv_stateIn n) hrdy hheld)
    ((length_held_le _).trans hk)

/-- A pipe whose packets are always taken parks none. -/
theorem parkedInt_of_rdy (hrdy : ∀ n, (ins n).pktRdyIn = true) (n : ℕ) :
    (stateIn s ins n).parkedInt = false := by
  cases n with
  | zero => rfl
  | succ n =>
      have hin : (EvtPipe.gate (ins n)).pktRdyIn = true := hrdy n
      have hbusy : pktBusyInt (stateIn s ins n) (EvtPipe.gate (ins n)) = false := by
        simp [pktBusyInt, hin]
      change parkedIntNext (stateIn s ins n) (EvtPipe.gate (ins n)) = false
      simp [parkedIntNext, hbusy, hin]

theorem throughput (hrdy : ∀ n, (ins n).pktRdyIn = true) (n : ℕ) :
    transferredBefore s ins (n + 1) = mappedBefore s ins n := by
  have hport : transferred (stateIn s ins n) (ins n) = held (stateIn s ins n) := by
    simp [transferred, PktAssembler.transferred, held, EvtPipe.gate, hrdy n,
      parkedInt_of_rdy hrdy n]
  have hsucc : transferredBefore s ins (n + 1) =
      transferredBefore s ins n ++ transferred (stateIn s ins n) (ins n) := emitted_succ _ _
  rw [hsucc, hport, transferred_append_held_stateIn]

/-- An event waits for the router only: it is taken one cycle after a packet could leave,
its packet leaves in the next or the second cycle in which the router is ready, and one
cycle later if it always is. -/
theorem flows (s : State) (ins : ℕ → Input) : Flows s ins where
  rdy n hrdy := by
    have hnext : (stateIn s ins (n + 1)).evtRdyOut = true := evtRdyOut_of_rdy hrdy
    rw [axiEvtRdyInt, hnext, Bool.true_or]
  gate n hgate := by rw [axiEvtRdyInt, hgate, Bool.not_false, Bool.or_true]
  latency _ _ := latency
  throughput := throughput

end Spif.EvtPipe
