import Spif.Hw.PktRouter
import Spif.Lib.Components

/-!
# The outputs of the packet router

`pkt_router` around its switch.  The switch is the same `spio_switch` as in the packet
receiver, here with eight outputs, with the signals for blocked outputs and dropped
packets connected.  It is a parameter.  What the router relies on is that each output is
a queue of the packets accepted for it, which loses packets only when told to drop.
-/

namespace Spif.OutputStage

open Clocked PktRouter

abbrev Chan := Fin numChans

instance neZero_numChans : NeZero numChans := ⟨by decide⟩

structure SwitchIn where
  outputSelectIn : BitVec numChans
  dataIn : Packet
  vldIn : Bool

/-- The ports of `spio_switch`.  Which outputs are blocked is known before `DROP_IN`. -/
structure Switch (σ : Type*) where
  outDataOut : σ → SwitchIn → Chan → Packet
  outVldOut : σ → SwitchIn → Chan → Bool
  blockedOutputsOut : σ → SwitchIn → (Chan → Bool) → BitVec numChans
  inRdyOut : σ → SwitchIn → (Chan → Bool) → Bool → Bool
  droppedVldOut : σ → SwitchIn → (Chan → Bool) → Bool → Bool
  next : σ → SwitchIn → (Chan → Bool) → Bool → σ

variable {σ : Type*}

namespace Switch

variable (sw : Switch σ)

def accepts (s : σ) (x : SwitchIn) (rdy : Chan → Bool) (dropIn : Bool) (c : Chan) : List Packet :=
  if x.outputSelectIn.getLsbD c && x.vldIn && sw.inRdyOut s x rdy dropIn then [x.dataIn] else []

def leaves (s : σ) (x : SwitchIn) (rdy : Chan → Bool) (c : Chan) : List Packet :=
  if sw.outVldOut s x c && rdy c then [sw.outDataOut s x c] else []

/-- Accepted packets leave unmodified, at most once and in order. -/
structure Orderly (queue : σ → Chan → List Packet) : Prop where
  keeps : ∀ s x rdy c, sw.leaves s x rdy c ++ queue (sw.next s x rdy false) c =
    queue s c ++ sw.accepts s x rdy false c
  drops : ∀ s x rdy c, List.Sublist (sw.leaves s x rdy c ++ queue (sw.next s x rdy true) c)
    (queue s c ++ sw.accepts s x rdy true c)

end Switch

structure State (σ : Type*) where
  waitCnt : Word
  swi : σ

structure Input where
  dropWaitIn : Word
  table : Table
  pktInDataIn : Packet
  pktInVldIn : Bool
  pktOutRdyIn : Chan → Bool

section Router

variable (sw : Switch σ) (s : State σ) (i : Input)

def switchIn : SwitchIn where
  outputSelectIn := swiRoute i.table i.pktInDataIn.key
  dataIn := i.pktInDataIn
  vldIn := i.pktInVldIn

def blocked : BitVec numChans := sw.blockedOutputsOut s.swi (switchIn i) i.pktOutRdyIn

def waiting : PktRouter.Input := ⟨i.dropWaitIn, blocked sw s i⟩

def drop : Bool := dropPkt s.waitCnt (waiting sw s i)

def pktInRdyOut : Bool := sw.inRdyOut s.swi (switchIn i) i.pktOutRdyIn (drop sw s i)

def pktOutDataOut (c : Chan) : Packet := sw.outDataOut s.swi (switchIn i) c

def pktOutVldOut (c : Chan) : Bool := sw.outVldOut s.swi (switchIn i) c

def dropped : Bool := sw.droppedVldOut s.swi (switchIn i) i.pktOutRdyIn (drop sw s i)

/-- Packets with a routing table miss are counted as dropped. -/
def rtCntOut : Bool × Bool :=
  (dropped sw s i, i.pktInVldIn && pktInRdyOut sw s i && !dropped sw s i)

def next : State σ where
  waitCnt := PktRouter.next s.waitCnt (waiting sw s i)
  swi := sw.next s.swi (switchIn i) i.pktOutRdyIn (drop sw s i)

/-- The packet accepted, with the routing table in force. -/
def accepted : List (Packet × Table) :=
  if i.pktInVldIn && pktInRdyOut sw s i then [(i.pktInDataIn, i.table)] else []

def transferred (c : Chan) : List Packet := sw.leaves s.swi (switchIn i) i.pktOutRdyIn c

end Router

def routedTo (c : Chan) (x : Packet × Table) : Option Packet :=
  if (swiRoute x.2 x.1.key).getLsbD c then some x.1 else none

variable {sw : Switch σ} {queue : σ → Chan → List Packet}

theorem accepted_routedTo (s : State σ) (i : Input) (c : Chan) :
    (accepted sw s i).filterMap (routedTo c) =
      sw.accepts s.swi (switchIn i) i.pktOutRdyIn (drop sw s i) c := by
  have hroute : routedTo c (i.pktInDataIn, i.table) =
      if (switchIn i).outputSelectIn.getLsbD c then some i.pktInDataIn else none := rfl
  unfold accepted Switch.accepts pktInRdyOut
  cases hsel : (switchIn i).outputSelectIn.getLsbD c <;> rw [hsel] at hroute <;>
    cases hvld : i.pktInVldIn <;>
    cases hrdy : sw.inRdyOut s.swi (switchIn i) i.pktOutRdyIn (drop sw s i) <;>
    simp [hroute, switchIn, hvld]

theorem fifo_step (h : sw.Orderly queue) {s : State σ} {i : Input} (hdrop : drop sw s i = false)
    (c : Chan) : transferred sw s i c ++ queue (next sw s i).swi c =
      queue s.swi c ++ (accepted sw s i).filterMap (routedTo c) := by
  rw [accepted_routedTo, next, hdrop]
  exact h.keeps s.swi (switchIn i) i.pktOutRdyIn c

theorem sublist_step (h : sw.Orderly queue) (s : State σ) (i : Input) (c : Chan) :
    List.Sublist (transferred sw s i c ++ queue (next sw s i).swi c)
      (queue s.swi c ++ (accepted sw s i).filterMap (routedTo c)) := by
  cases hdrop : drop sw s i with
  | false => rw [fifo_step h hdrop]
  | true =>
      rw [accepted_routedTo, next, hdrop]
      exact h.drops s.swi (switchIn i) i.pktOutRdyIn c

/-- Each channel gets packets that were routed to it, in order. -/
theorem emit_transferred_sublist (h : sw.Orderly queue) {s : State σ} {c : Chan}
    (hs : queue s.swi c = []) (ins : List Input) :
    List.Sublist (emit (next sw) (transferred sw · · c) s ins ++ queue (run (next sw) s ins).swi c)
      ((emit (next sw) (accepted sw) s ins).filterMap (routedTo c)) := by
  have hall := emit_queue_sublist (fun s : State σ ↦ queue s.swi c)
    (fun s i ↦ (accepted sw s i).filterMap (routedTo c)) (transferred sw · · c)
    (fun s i _ ↦ sublist_step h s i c) (along_of_forall_mem (fun i (_ : i ∈ ins) ↦ trivial) s)
  rwa [hs, List.nil_append, ← emit_filterMap] at hall

/-- While nothing is dropped, it gets all of them. -/
theorem emit_transferred (h : sw.Orderly queue) {s : State σ} {c : Chan}
    (hs : queue s.swi c = []) {ins : List Input}
    (hdrop : Along (next sw) (fun s i ↦ drop sw s i = false) s ins) :
    emit (next sw) (transferred sw · · c) s ins ++ queue (run (next sw) s ins).swi c =
      (emit (next sw) (accepted sw) s ins).filterMap (routedTo c) := by
  have hall := emit_fifo (fun s : State σ ↦ queue s.swi c)
    (fun s i ↦ (accepted sw s i).filterMap (routedTo c)) (transferred sw · · c)
    (I := fun _ ↦ True) (fun _ _ _ _ ↦ trivial) (fun _ _ _ hi ↦ fifo_step h hi c) trivial hdrop
  rwa [hs, List.nil_append, ← emit_filterMap] at hall

/-! ## A switch -/

def busy (s : Chan → Option Packet) (x : SwitchIn) (rdy : Chan → Bool) (c : Chan) : Bool :=
  x.vldIn && x.outputSelectIn.getLsbD c && (s c).isSome && !rdy c

def anyBusy (s : Chan → Option Packet) (x : SwitchIn) (rdy : Chan → Bool) : Bool :=
  (List.finRange numChans).any (busy s x rdy)

/-- A register for each output.  A packet waits until the selected ones are empty or being
emptied. -/
def registers : Switch (Chan → Option Packet) where
  outDataOut s _ c := (s c).getD 0
  outVldOut s _ c := (s c).isSome
  blockedOutputsOut s x rdy :=
    (BitVec.ofBoolListLE ((List.finRange numChans).map (busy s x rdy))).cast (by simp)
  inRdyOut s x rdy dropIn := !anyBusy s x rdy || dropIn
  droppedVldOut _ x _ dropIn := x.vldIn && (x.outputSelectIn == 0 || dropIn)
  next s x rdy _ c :=
    if x.vldIn && x.outputSelectIn.getLsbD c && !anyBusy s x rdy then some x.dataIn
    else if rdy c then none
    else s c

theorem busy_of_not_anyBusy {s : Chan → Option Packet} {x : SwitchIn} {rdy : Chan → Bool}
    (h : anyBusy s x rdy = false) (c : Chan) : busy s x rdy c = false := by
  have hall := List.any_eq_false.mp h c (List.mem_finRange c)
  simpa using hall

theorem orderly_registers : registers.Orderly fun s c ↦ (s c).toList where
  keeps s x rdy c := by
    have hfree : anyBusy s x rdy = false → busy s x rdy c = false :=
      fun hany ↦ busy_of_not_anyBusy hany c
    cases hany : anyBusy s x rdy <;> cases hvld : x.vldIn <;>
      cases hsel : x.outputSelectIn.getLsbD c <;> cases hrdy : rdy c <;> cases hs : s c <;>
      simp_all [Switch.leaves, Switch.accepts, registers, busy]
  drops s x rdy c := by
    have hfree : anyBusy s x rdy = false → busy s x rdy c = false :=
      fun hany ↦ busy_of_not_anyBusy hany c
    cases hany : anyBusy s x rdy <;> cases hvld : x.vldIn <;>
      cases hsel : x.outputSelectIn.getLsbD c <;> cases hrdy : rdy c <;> cases hs : s c <;>
      simp_all [Switch.leaves, Switch.accepts, registers, busy]

end Spif.OutputStage
