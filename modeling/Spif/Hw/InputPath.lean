import Spif.Hw.Top

/-!
# From events to channels

The input path of `dvs_on_hssl_top`: both event pipes, the arbiter that merges them, the
router with its table, and the arbiter which shares channel 0 with the counter replies.
The registers may be rewritten at any time, so a packet is followed together with the
mapper configuration and the routing table that it met.
-/

namespace Spif.Top

open Clocked PktReceiver PktRouter EvtPipe
open OutputStage (Chan routedTo)

variable {α ρ σ : Type*} {A : ℕ} {p : Parts α ρ σ} (K : Contract p)

inductive Origin where
  | routed
  | reply
deriving DecidableEq, Repr

def received (k : Pipe) (s : State α ρ σ) (i : Input A) : List (PktAssembler.Config × Word) :=
  EvtPipe.received (s.pa k) (paIn p s i k)

/-- The packet that the router accepts, with the pipe it came from and the routing table. -/
def merged (s : State α ρ σ) (i : Input A) : List (Pipe × Packet × Table) :=
  (OutputStage.accepted p.rtrSwitch s.pr (prIn p s (rtrRdy p s i))).map fun x ↦
    (K.side s.pipeArb (pipeArbIn s), x)

def fromPipe (k : Pipe) (x : Pipe × Packet × Table) : Option Packet :=
  if x.1 = k then some x.2.1 else none

def origin (k : Fin 2) : Origin := if k = 0 then .routed else .reply

/-- The packet transferred to the HSSL interface on a channel. -/
def transmitted (c : Chan) (s : State α ρ σ) (i : Input A) : List (Origin × Packet) :=
  if c = 0 then
    (p.arbiter.merged s.chanArb (chanArbIn p s i) (i.txpRdy 0)).map fun d ↦
      (origin (K.side s.chanArb (chanArbIn p s i)), d)
  else
    (OutputStage.transferred p.rtrSwitch s.pr (prIn p s (rtrRdy p s i)) c).map fun d ↦
      (.routed, d)

/-- A packet is transferred when it is valid at the output and the interface is ready. -/
def txTransferred (p : Parts α ρ σ) (c : Chan) (s : State α ρ σ) (i : Input A) : List Packet :=
  if txpVld p s i c && i.txpRdy c then [txpData p s i c] else []

theorem map_snd_transmitted (c : Chan) (s : State α ρ σ) (i : Input A) :
    (transmitted K c s i).map Prod.snd = txTransferred p c s i := by
  unfold transmitted txTransferred txpVld txpData
  by_cases hc : c = 0
  · subst hc
    rw [if_pos rfl, if_pos rfl, if_pos rfl, List.map_map]
    exact List.map_id _
  · have hrdy : rtrRdy p s i c = i.txpRdy c := if_neg hc
    rw [if_neg hc, if_neg hc, if_neg hc, List.map_map, ← hrdy]
    exact List.map_id _

def ofOrigin (o : Origin) (x : Origin × Packet) : Option Packet :=
  if x.1 = o then some x.2 else none

/-- The routed packets on their way to a channel, oldest first. -/
def pending (c : Chan) (s : State α ρ σ) : List Packet :=
  (if c = 0 then K.arbQueue s.chanArb 0 else []) ++ K.rtrQueue s.pr.swi c

def NothingDropped (p : Parts α ρ σ) (s : State α ρ σ) (i : Input A) : Prop :=
  OutputStage.drop p.rtrSwitch s.pr (prIn p s (rtrRdy p s i)) = false

instance (s : State α ρ σ) (i : Input A) : Decidable (NothingDropped p s i) :=
  inferInstanceAs (Decidable (_ = _))

/-! ## Merging the pipes -/

theorem merged_fromPipe (k : Pipe) (s : State α ρ σ) (i : Input A) :
    (merged K s i).filterMap (fromPipe k) =
      if K.side s.pipeArb (pipeArbIn s) = k then
        p.arbiter.merged s.pipeArb (pipeArbIn s) (pktRdy p s i) else [] := by
  have hdata : (OutputStage.accepted p.rtrSwitch s.pr (prIn p s (rtrRdy p s i))).map Prod.fst =
      p.arbiter.merged s.pipeArb (pipeArbIn s) (pktRdy p s i) := by
    unfold OutputStage.accepted RrArbiter.Arbiter.merged
    simp only [apply_ite (List.map Prod.fst), List.map_cons, List.map_nil]
    rfl
  rw [merged, List.filterMap_map, ← hdata]
  by_cases hside : K.side s.pipeArb (pipeArbIn s) = k
  · rw [if_pos hside, ← List.filterMap_eq_map]
    simp [fromPipe, hside]
  · rw [if_neg hside]
    simp [fromPipe, hside]

theorem merge_step (k : Pipe) (s : State α ρ σ) (i : Input A) :
    (merged K s i).filterMap (fromPipe k) ++ K.arbQueue (next p s i).pipeArb k =
      K.arbQueue s.pipeArb k ++ EvtPipe.transferred (s.pa k) (paIn p s i k) := by
  rw [merged_fromPipe]
  exact K.merges s.pipeArb (pipeArbIn s) (pktRdy p s i) k

/-- What a pipe's events have become: packets at the router, packets in the arbiter, and
packets in the pipe itself. -/
theorem merged_append_held (k : Pipe) (s : State α ρ σ) (ins : List (Input A)) :
    (emit (next p) (merged K) (reset p s) ins).filterMap (fromPipe k) ++
        (K.arbQueue (run (next p) (reset p s) ins).pipeArb k ++
          PktAssembler.held ((run (next p) (reset p s) ins).pa k)) =
      (emit (next p) (received (p := p) k) (reset p s) ins).filterMap mapEvent := by
  have harb := emit_fifo (fun s : State α ρ σ ↦ K.arbQueue s.pipeArb k)
    (fun s (i : Input A) ↦ EvtPipe.transferred (s.pa k) (paIn p s i k))
    (fun s i ↦ (merged K s i).filterMap (fromPipe k)) (I := fun _ ↦ True) (C := fun _ _ ↦ True)
    (fun _ _ _ _ ↦ trivial) (fun s i _ _ ↦ merge_step K k s i) trivial
    (along_of_forall_mem (fun i (_ : i ∈ ins) ↦ trivial) (reset p s))
  have hempty : K.arbQueue (reset p s).pipeArb k = [] := K.arbQueue_reset _ _
  rw [hempty, List.nil_append, ← emit_filterMap] at harb
  have hpipe : emit EvtPipe.next EvtPipe.transferred ((pipe A p k).proj (reset p s))
        ((pipe A p k).inputs (reset p s) ins) ++
      PktAssembler.held (run EvtPipe.next ((pipe A p k).proj (reset p s))
        ((pipe A p k).inputs (reset p s) ins)) =
      (emit EvtPipe.next EvtPipe.received ((pipe A p k).proj (reset p s))
        ((pipe A p k).inputs (reset p s) ins)).filterMap mapEvent :=
    EvtPipe.transferred_append_held (s.pa k) _
  rw [Component.run_inputs, Component.emit_inputs, Component.emit_inputs] at hpipe
  rw [← List.append_assoc, harb]
  exact hpipe

/-! ## The channels -/

theorem transmitted_routed (c : Chan) (s : State α ρ σ) (i : Input A) :
    (transmitted K c s i).filterMap (ofOrigin .routed) =
      if c = 0 then
        if K.side s.chanArb (chanArbIn p s i) = 0 then
          p.arbiter.merged s.chanArb (chanArbIn p s i) (i.txpRdy 0) else []
      else OutputStage.transferred p.rtrSwitch s.pr (prIn p s (rtrRdy p s i)) c := by
  unfold transmitted
  by_cases hc : c = 0
  · rw [if_pos hc, if_pos hc, List.filterMap_map]
    by_cases hside : K.side s.chanArb (chanArbIn p s i) = 0
    · simp [ofOrigin, origin, hside]
    · simp [ofOrigin, origin, hside]
  · rw [if_neg hc, if_neg hc, List.filterMap_map]
    simp [Function.comp_def, ofOrigin]

theorem transmitted_reply (s : State α ρ σ) (i : Input A) :
    (transmitted K 0 s i).filterMap (ofOrigin .reply) =
      if K.side s.chanArb (chanArbIn p s i) = 1 then
        p.arbiter.merged s.chanArb (chanArbIn p s i) (i.txpRdy 0) else [] := by
  rw [transmitted, if_pos rfl, List.filterMap_map]
  by_cases hside : K.side s.chanArb (chanArbIn p s i) = 1
  · simp [ofOrigin, origin, hside]
  · have hzero : K.side s.chanArb (chanArbIn p s i) = 0 := by omega
    simp [ofOrigin, origin, hzero]

/-- What leaves the router is transmitted on its channel or waits at the arbiter. -/
theorem channel_step (c : Chan) (s : State α ρ σ) (i : Input A) :
    (transmitted K c s i).filterMap (ofOrigin .routed) ++
        (if c = 0 then K.arbQueue (next p s i).chanArb 0 else []) =
      (if c = 0 then K.arbQueue s.chanArb 0 else []) ++
        OutputStage.transferred p.rtrSwitch s.pr (prIn p s (rtrRdy p s i)) c := by
  rw [transmitted_routed]
  by_cases hc : c = 0
  · subst hc
    exact K.merges s.chanArb (chanArbIn p s i) (i.txpRdy 0) 0
  · simp [hc]

theorem emit_transmitted (c : Chan) (s : State α ρ σ) (ins : List (Input A)) :
    (emit (next p) (transmitted K c) (reset p s) ins).filterMap (ofOrigin .routed) ++
        pending K c (run (next p) (reset p s) ins) =
      emit (next p) (fun s i ↦
          OutputStage.transferred p.rtrSwitch s.pr (prIn p s (rtrRdy p s i)) c) (reset p s) ins ++
        K.rtrQueue (run (next p) (reset p s) ins).pr.swi c := by
  have harb := emit_fifo (fun s : State α ρ σ ↦ if c = 0 then K.arbQueue s.chanArb 0 else [])
    (fun s (i : Input A) ↦
      OutputStage.transferred p.rtrSwitch s.pr (prIn p s (rtrRdy p s i)) c)
    (fun s i ↦ (transmitted K c s i).filterMap (ofOrigin .routed)) (I := fun _ ↦ True)
    (C := fun _ _ ↦ True) (fun _ _ _ _ ↦ trivial) (fun s i _ _ ↦ channel_step K c s i) trivial
    (along_of_forall_mem (fun i (_ : i ∈ ins) ↦ trivial) (reset p s))
  have hempty : (if c = 0 then K.arbQueue (reset p s).chanArb 0 else []) = [] := by
    simp [reset, K.arbQueue_reset]
  rw [hempty, List.nil_append, ← emit_filterMap] at harb
  rw [pending, ← List.append_assoc, harb]

theorem merged_routedTo (c : Chan) (s : State α ρ σ) (ins : List (Input A)) :
    (emit (next p) (merged K) s ins).filterMap (fun x ↦ routedTo c x.2) =
      (emit (next p) (fun s i ↦
        OutputStage.accepted p.rtrSwitch s.pr (prIn p s (rtrRdy p s i))) s ins).filterMap
          (routedTo c) := by
  rw [emit_filterMap, emit_filterMap]
  simp only [merged, List.filterMap_map, Function.comp_def]

theorem channel_sublist (c : Chan) (s : State α ρ σ) (ins : List (Input A)) :
    List.Sublist
      ((emit (next p) (transmitted K c) (reset p s) ins).filterMap (ofOrigin .routed) ++
        pending K c (run (next p) (reset p s) ins))
      ((emit (next p) (merged K) (reset p s) ins).filterMap fun x ↦ routedTo c x.2) := by
  have hrtr : List.Sublist
      (emit (OutputStage.next p.rtrSwitch) (OutputStage.transferred p.rtrSwitch · · c)
          ((router A p).proj (reset p s)) ((router A p).inputs (reset p s) ins) ++
        K.rtrQueue (run (OutputStage.next p.rtrSwitch) ((router A p).proj (reset p s))
          ((router A p).inputs (reset p s) ins)).swi c)
      ((emit (OutputStage.next p.rtrSwitch) (OutputStage.accepted p.rtrSwitch)
        ((router A p).proj (reset p s)) ((router A p).inputs (reset p s) ins)).filterMap
          (routedTo c)) :=
    OutputStage.emit_transferred_sublist K.orderly (K.rtrQueue_reset _ _) _
  rw [Component.run_inputs, Component.emit_inputs, Component.emit_inputs] at hrtr
  rw [emit_transmitted, merged_routedTo]
  exact hrtr

theorem channel_lossless (c : Chan) (s : State α ρ σ) {ins : List (Input A)}
    (hdrop : Along (next p) (NothingDropped p) (reset p s) ins) :
    (emit (next p) (transmitted K c) (reset p s) ins).filterMap (ofOrigin .routed) ++
        pending K c (run (next p) (reset p s) ins) =
      (emit (next p) (merged K) (reset p s) ins).filterMap fun x ↦ routedTo c x.2 := by
  have hrtr : emit (OutputStage.next p.rtrSwitch) (OutputStage.transferred p.rtrSwitch · · c)
        ((router A p).proj (reset p s)) ((router A p).inputs (reset p s) ins) ++
        K.rtrQueue (run (OutputStage.next p.rtrSwitch) ((router A p).proj (reset p s))
          ((router A p).inputs (reset p s) ins)).swi c =
      (emit (OutputStage.next p.rtrSwitch) (OutputStage.accepted p.rtrSwitch)
        ((router A p).proj (reset p s)) ((router A p).inputs (reset p s) ins)).filterMap
          (routedTo c) :=
    OutputStage.emit_transferred K.orderly (K.rtrQueue_reset _ _)
      (((router A p).along_inputs _ _ _).mpr hdrop)
  rw [Component.run_inputs, Component.emit_inputs, Component.emit_inputs] at hrtr
  rw [emit_transmitted, merged_routedTo]
  exact hrtr

/-- Events become packets pipe by pipe and in order, are merged, and reach the channels
that the routing table names, in order.  Only the router drops packets, and only when a
blocked packet has waited. -/
structure Delivers (s : State α ρ σ) (ins : List (Input A)) : Prop where
  outputs : ∀ c, (emit (next p) (transmitted K c) (reset p s) ins).map Prod.snd =
    emit (next p) (txTransferred p c) (reset p s) ins
  pipes : ∀ k, (emit (next p) (merged K) (reset p s) ins).filterMap (fromPipe k) ++
      (K.arbQueue (run (next p) (reset p s) ins).pipeArb k ++
        PktAssembler.held ((run (next p) (reset p s) ins).pa k)) =
    (emit (next p) (received (p := p) k) (reset p s) ins).filterMap mapEvent
  channels : ∀ c, List.Sublist
    ((emit (next p) (transmitted K c) (reset p s) ins).filterMap (ofOrigin .routed) ++
      pending K c (run (next p) (reset p s) ins))
    ((emit (next p) (merged K) (reset p s) ins).filterMap fun x ↦ routedTo c x.2)
  lossless : Along (next p) (NothingDropped p) (reset p s) ins → ∀ c,
    (emit (next p) (transmitted K c) (reset p s) ins).filterMap (ofOrigin .routed) ++
        pending K c (run (next p) (reset p s) ins) =
      (emit (next p) (merged K) (reset p s) ins).filterMap fun x ↦ routedTo c x.2

theorem delivers (s : State α ρ σ) (ins : List (Input A)) : Delivers K s ins where
  outputs c := by
    rw [emit_map]
    simp only [map_snd_transmitted]
  pipes k := merged_append_held K k s ins
  channels c := channel_sublist K c s ins
  lossless hdrop c := channel_lossless K c s hdrop

/-- Entry 0 of the table is set to match every key, and then each pipe gets an event. -/
def routedRun : List (Input 32) :=
  [cycle (fun _ ↦ none) (some (SpifLocal.spifSetRoutingKey 0 0).deliver),
    cycle (fun _ ↦ none) none, cycle (fun k ↦ some (k.val : Word)) none] ++
      List.replicate 6 (cycle (fun _ ↦ none) none)

example : (emit (next registerParts) (transmitted registerContract 0) (reset registerParts cold)
    routedRun).length = 2 := by
  decide +kernel

theorem delivers_routedRun : Delivers registerContract cold routedRun :=
  delivers registerContract cold routedRun

end Spif.Top
