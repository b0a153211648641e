import Spif.Hw.PktAssembler

/-!
# An event pipe

`dvs_on_hssl_top` puts a gate in front of every `pkt_assembler`: while the
handshake with SpiNNaker is not complete, events are taken off the AXI stream
and dropped.  Gate and assembler together are a queue which maps what it
accepts.
-/

namespace Spif.EvtPipe

open Clocked PktAssembler

structure Input where
  config : Config
  axiEvtData : Word
  axiEvtVld : Bool
  handshakeComplete : Bool
  pktRdyIn : Bool

def evtVldInt (i : Input) : Bool := i.axiEvtVld && i.handshakeComplete

def axiEvtRdyInt (s : State) (i : Input) : Bool := s.evtRdyOut || !i.handshakeComplete

def gate (i : Input) : PktAssembler.Input where
  config := i.config
  evtDataIn := i.axiEvtData
  evtVldIn := evtVldInt i
  pktRdyIn := i.pktRdyIn

def next (s : State) (i : Input) : State := PktAssembler.next s (gate i)

/-- The event transferred on the AXI stream in this cycle while the handshake
is complete, with the configuration in force. -/
def received (s : State) (i : Input) : List (Config × Word) :=
  if i.axiEvtVld && axiEvtRdyInt s i && i.handshakeComplete then [(i.config, i.axiEvtData)]
  else []

def transferred (s : State) (i : Input) : List Packet :=
  PktAssembler.transferred s (gate i)

def mapEvent : Config × Word → Option Packet
  | (c, evt) => if rejected c evt then none else some (assemble (mappedDataInt c evt))

theorem received_filterMap (s : State) (i : Input) :
    (received s i).filterMap mapEvent = assembled s (gate i) := by
  cases hvld : i.axiEvtVld <;> cases hrdy : s.evtRdyOut <;>
    cases hhs : i.handshakeComplete <;> cases hrej : rejected i.config i.axiEvtData <;>
    simp [received, axiEvtRdyInt, assembled, evtPresentInt, gate, evtVldInt, mapEvent,
      hvld, hrdy, hhs, hrej]

theorem transferred_append_held (s : State) (ins : List Input) :
    emit next transferred (reset s) ins ++ held (run next (reset s) ins) =
      (emit next received (reset s) ins).filterMap mapEvent := by
  have hfifo : emit next transferred (reset s) ins ++ held (run next (reset s) ins) =
      held (reset s) ++ emit next (fun s i ↦ assembled s (gate i)) (reset s) ins :=
    emit_fifo held (fun s i ↦ assembled s (gate i)) transferred
      (I := ParkInv) (C := fun _ _ ↦ True) (fun _ i hs _ ↦ parkInv_next hs (gate i))
      (fun _ i hs _ ↦ fifo_step hs (gate i)) (parkInv_reset s)
      (along_of_forall_mem (fun i (_ : i ∈ ins) ↦ trivial) _)
  rw [hfifo, held_reset, List.nil_append, emit_filterMap]
  simp only [received_filterMap]

def StallHeld (s : State) (i : Input) : Prop :=
  s.pktVldOut = true → i.pktRdyIn = false → (next s i).pktDataOut = s.pktDataOut

theorem along_stallHeld (s : State) (ins : List Input) : Along next StallHeld s ins :=
  along_of_inv (I := fun _ ↦ True) (C := fun _ _ ↦ True) (fun _ _ _ _ ↦ trivial)
    (fun s i _ _ hvld hrdy ↦ pktDataOut_stalled (by simp [pktBusyInt, gate, hvld, hrdy]))
    trivial (along_of_forall_mem (fun _ _ ↦ trivial) s)

/-- An event pipe is a lossless queue which maps the events it accepts. -/
theorem lossless_map (s : State) (ins : List Input) :
    emit next transferred (reset s) ins ++ held (run next (reset s) ins) =
        (emit next received (reset s) ins).filterMap mapEvent ∧
      Along next StallHeld (reset s) ins :=
  ⟨transferred_append_held s ins, along_stallHeld (reset s) ins⟩

end Spif.EvtPipe
