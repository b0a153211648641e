import Spif.Host.CountEvents
import Spif.Host.UdpInput

/-!
# Sequential events

`tx_evts_seq_udp` sends the same batch of events again and again, in which every pair of
coordinates occurs equally often.  With a sender for each pipe, `count_events` therefore
counts the same number of packets on every core.  This module follows the events from the
senders through spiffer and spif to the cores.
-/

namespace Spif.TxEvtsSeqUdp

open Clocked Spif.Top CountEvents
open Transfer (wordBytes)

def evtBatchSize : ℕ := 256

def evtNoTs : Word := 0x80000000

def evtXPos : ℕ := 16

def evtPipePos : ℕ := 19

def nchips : ℕ := 8

def ncores : ℕ := 8

def event (pipe : Pipe) (x y : ℕ) : Word :=
  evtNoTs ||| BitVec.ofNat 32 pipe <<< evtPipePos ||| BitVec.ofNat 32 x <<< evtXPos |||
    BitVec.ofNat 32 y

def turn (pipe : Pipe) : List Word :=
  (List.range ncores).flatMap fun x ↦ (List.range nchips).map fun y ↦ event pipe x y

theorem length_turn (pipe : Pipe) : (turn pipe).length = 64 := by
  simp [turn, ncores, nchips]

/-- The buffer from index `item` on; the inner loops are left once it is full. -/
def fill (pipe : Pipe) (item : ℕ) : List Word :=
  if item < evtBatchSize then
    (turn pipe).take (evtBatchSize - item) ++ fill pipe (item + (turn pipe).length)
  else []
termination_by evtBatchSize - item
decreasing_by
  rw [length_turn]
  omega

def evtData (pipe : Pipe) : List Word := fill pipe 0

/-- The number of batches sent by the loop on `total_items`. -/
def batches (itemsToSend totalItems : ℕ) : ℕ :=
  if totalItems + evtBatchSize ≤ itemsToSend then
    batches itemsToSend (totalItems + evtBatchSize) + 1
  else 1
termination_by itemsToSend - totalItems
decreasing_by
  have hpos : 0 < evtBatchSize := by decide
  omega

theorem evtData_eq (pipe : Pipe) : evtData pipe = (List.replicate 4 (turn pipe)).flatten := by
  have htake (item : ℕ) (h : item + 64 ≤ evtBatchSize) :
      fill pipe item = turn pipe ++ fill pipe (item + 64) := by
    rw [fill, if_pos (by omega), length_turn, List.take_of_length_le]
    rw [length_turn]
    omega
  have hend : fill pipe 256 = [] := by rw [fill, if_neg (by decide)]
  rw [evtData, htake 0 (by decide), htake 64 (by decide), htake 128 (by decide),
    htake 192 (by decide), hend]
  rfl

theorem batches_eq {itemsToSend totalItems : ℕ} (h : totalItems ≤ itemsToSend) :
    batches itemsToSend totalItems = (itemsToSend - totalItems) / 256 + 1 := by
  induction totalItems using batches.induct itemsToSend with
  | case1 total hle ih =>
      rw [batches, if_pos hle, ih hle]
      have hsize : evtBatchSize = 256 := rfl
      omega
  | case2 total hlt =>
      rw [batches, if_neg hlt]
      have hsize : evtBatchSize = 256 := rfl
      omega

/-! ## Datagrams -/

def isRecv : UdpInput.Event → Bool
  | .recv _ => true
  | _ => false

def datagrams (es : List UdpInput.Event) : ℕ := es.countP isRecv

/-- All of them come from a sender of sequential events. -/
def FromSender (pipe : Pipe) : UdpInput.Event → Prop
  | .recv r => r.data = (evtData pipe).flatMap wordBytes
  | _ => True

theorem length_evtData (pipe : Pipe) : (evtData pipe).length = 256 := by
  rw [evtData_eq, List.length_flatten, List.map_replicate, length_turn]
  rfl

theorem emit_obtained {pipe : Pipe} {es : List UdpInput.Event} (h : ∀ e ∈ es, FromSender pipe e)
    (s : UdpInput.State) : emit UdpInput.next UdpInput.obtained s es =
      ((List.replicate (datagrams es) (evtData pipe)).flatten).flatMap wordBytes := by
  induction es generalizing s with
  | nil => rfl
  | cons e es ih =>
      obtain ⟨he, hes⟩ := List.forall_mem_cons.mp h
      rw [emit_cons, ih hes]
      cases e with
      | recv r =>
          have hdata : r.data = (evtData pipe).flatMap wordBytes := he
          rw [datagrams, datagrams, List.countP_cons_of_pos rfl, List.replicate_succ,
            List.flatten_cons, List.flatMap_append, ← hdata]
          rfl
      | _ => rfl

theorem wordBytes_injective : Function.Injective wordBytes := by
  intro v w h
  apply BitVec.eq_of_getLsbD_eq
  intro i hi
  have hbyte : v.extractLsb' (8 * (i / 8)) 8 = w.extractLsb' (8 * (i / 8)) 8 :=
    List.map_inj_left.mp h (i / 8) (List.mem_range.mpr (by omega))
  have hbit := congrArg (BitVec.getLsbD · (i % 8)) hbyte
  have hlt : i % 8 < 8 := by omega
  have hsum : 8 * (i / 8) + i % 8 = i := by omega
  simpa [BitVec.getLsbD_extractLsb', hlt, hsum] using hbit

theorem prefix_of_flatMap_wordBytes : ∀ {vs ws : List Word},
    vs.flatMap wordBytes <+: ws.flatMap wordBytes → vs <+: ws := by
  intro vs ws h
  induction vs generalizing ws with
  | nil => exact List.nil_prefix
  | cons v vs ih =>
      cases ws with
      | nil => exact absurd h.length_le (by simp)
      | cons w ws =>
          obtain ⟨rest, hrest⟩ := h
          rw [List.flatMap_cons, List.flatMap_cons, List.append_assoc] at hrest
          obtain ⟨hhead, htail⟩ := List.append_inj hrest (by simp)
          rw [wordBytes_injective hhead]
          exact List.cons_prefix_cons.mpr ⟨rfl, ih ⟨rest, htail⟩⟩

/-- The AXI stream of a pipe consists of whole batches, except for what spiffer and the DMA
controller still hold. -/
theorem streamed_isPrefix {pipe : Pipe} {sb : Transfer.Buffer} {dmaInit : Bool}
    {es : List UdpInput.Event} (hsender : ∀ e ∈ es, FromSender pipe e)
    (h : Along UdpInput.next UdpInput.Enabled (UdpInput.start sb dmaInit) es) :
    emit UdpInput.next UdpInput.streamed (UdpInput.start sb dmaInit) es <+:
      (List.replicate (datagrams es) (evtData pipe)).flatten := by
  have hwords : ∀ e ∈ es, UdpInput.WholeWords e := by
    intro e he
    cases e with
    | recv r =>
        have hdata : r.data = (evtData pipe).flatMap wordBytes := hsender _ he
        rw [UdpInput.WholeWords, hdata, Transfer.length_flatMap_wordBytes, length_evtData]
        decide
    | _ => trivial
  have hbytes := UdpInput.bytes_streamed (along_and h (along_of_forall_mem hwords _))
  rw [emit_obtained hsender] at hbytes
  exact prefix_of_flatMap_wordBytes ⟨_, hbytes⟩

/-! ## Counting -/

def core (pipe : Pipe) (x : Fin 8) : Fin 18 :=
  ⟨8 * pipe + x + 1, by
    have hpipe : pipe.val < 2 := pipe.isLt
    omega⟩

/-- An event for the chip on a channel, and a core of it. -/
def isFor (c : OutputStage.Chan) (core : Fin 18) (evt : Word) : Bool :=
  decide ((xcoord evt).toNat + 1 = core) && decide ((evt &&& 7).toNat = c)

/-- Each batch has four events for every core of the pipe on every chip. -/
theorem countP_evtData (k pipe : Pipe) (x : Fin 8) (c : OutputStage.Chan) :
    (evtData k).countP (isFor c (core pipe x)) = if k = pipe then 4 else 0 := by
  have hturn : ∀ (k pipe : Pipe) (x : Fin 8) (c : OutputStage.Chan),
      (turn k).countP (isFor c (core pipe x)) = if k = pipe then 1 else 0 := by decide +kernel
  rw [evtData_eq, List.countP_flatten, List.map_replicate, hturn, List.sum_replicate]
  split <;> rfl

theorem eventKey_and_seven (evt : Word) : eventKey evt &&& 7 = evt &&& 7 := by
  have hmpr : mprKey &&& 7 = 0 := rfl
  have hmsk : mpfMask 0 &&& 7 = 7 := rfl
  rw [eventKey, BitVec.and_or_distrib_right, hmpr, BitVec.and_assoc, hmsk]
  exact BitVec.zero_or

section Session

variable {α ρ σ : Type*} {A : ℕ} {p : Parts α ρ σ} {K : Contract p} {s : Top.State α ρ σ}
  {ins₁ ins₂ : List (Top.Input A)}

def packets (K : Contract p) (s : Top.State α ρ σ) (ins : List (Top.Input A))
    (c : OutputStage.Chan) (core : Fin 18) : ℕ :=
  ((emit (Top.next p) (transmitted K c) (Top.reset p s) ins).filterMap
    (ofOrigin .routed)).countP (caught core)

/-- A packet for a core of the chip on a channel. -/
def goesTo (c : OutputStage.Chan) (core : Fin 18) (d : Packet) : Prop :=
  caught core d = true ∧ (d.key &&& 7).toNat = c

instance (c : OutputStage.Chan) (core : Fin 18) : DecidablePred (goesTo c core) :=
  fun _ ↦ inferInstanceAs (Decidable (_ ∧ _))

theorem goesTo_packetOf (c : OutputStage.Chan) (core : Fin 18) (evt : Word) :
    goesTo c core (packetOf evt) ↔ isFor c core evt = true := by
  rw [goesTo, caught_packetOf, packetOf, PktAssembler.key_assemble, eventKey_and_seven, isFor,
    Bool.and_eq_true, decide_eq_true_iff, decide_eq_true_iff]

theorem packets_eq (h : Started K s ins₁ ins₂) (c : OutputStage.Chan) (core : Fin 18) :
    packets K s (ins₁ ++ ins₂) c core =
      (arrived K (Top.reset p s) (ins₁ ++ ins₂)).countP (goesTo c core) := by
  rw [arrived, ← Multiset.coe_countPAddMonoidHom, map_sum, Finset.sum_eq_single c]
  · rw [Multiset.coe_countPAddMonoidHom, Multiset.coe_countP, packets]
    refine List.countP_congr fun d hd ↦ ?_
    rw [decide_eq_true_iff, goesTo, and_iff_left (h.channel_eq hd)]
  · intro c' _ hne
    rw [Multiset.coe_countPAddMonoidHom, Multiset.coe_countP, List.countP_eq_zero]
    intro d hd hgoes
    have hchannel := h.channel_eq hd
    exact hne (Fin.ext (hchannel.symm.trans (of_decide_eq_true hgoes).2))
  · exact fun hc ↦ absurd (Finset.mem_univ c) hc

theorem countP_accepted (s : Top.State α ρ σ) (ins : List (Top.Input A)) (c : OutputStage.Chan)
    (core : Fin 18) : ((accepted p s ins).map packetOf).countP (goesTo c core) =
      ∑ k, ((emit (Top.next p) (received (p := p) k) s ins).map Prod.snd).countP
        (isFor c core) := by
  rw [Multiset.countP_map, ← Multiset.countP_eq_card_filter, accepted,
    ← Multiset.coe_countPAddMonoidHom, map_sum]
  refine Finset.sum_congr rfl fun k _ ↦ ?_
  rw [Multiset.coe_countPAddMonoidHom, Multiset.coe_countP]
  refine List.countP_congr fun evt _ ↦ ?_
  rw [decide_eq_true_iff, goesTo_packetOf]

/-- Senders, spiffer and spif; no APB transfer and no other packet disturbs them. -/
structure Connected (K : Contract p) (s : Top.State α ρ σ) (ins₁ ins₂ : List (Top.Input A))
    (sb : Pipe → Transfer.Buffer) (dmaInit : Pipe → Bool) (es : Pipe → List UdpInput.Event)
    (itemsToSend : Pipe → ℕ) : Prop where
  started : Started K s ins₁ ins₂
  sent : ∀ k, datagrams (es k) ≤ batches (itemsToSend k) 0
  sender : ∀ k, ∀ e ∈ es k, FromSender k e
  spiffer : ∀ k, Along UdpInput.next UdpInput.Enabled (UdpInput.start (sb k) (dmaInit k)) (es k)
  axi : ∀ k, (emit (Top.next p) (received (p := p) k) (Top.reset p s)
      (ins₁ ++ ins₂)).map Prod.snd <+:
    emit UdpInput.next UdpInput.streamed (UdpInput.start (sb k) (dmaInit k)) (es k)

variable {sb : Pipe → Transfer.Buffer} {dmaInit : Pipe → Bool}
  {es : Pipe → List UdpInput.Event} {itemsToSend : Pipe → ℕ}

theorem Connected.words_isPrefix (h : Connected K s ins₁ ins₂ sb dmaInit es itemsToSend)
    (k : Pipe) : (emit (Top.next p) (received (p := p) k) (Top.reset p s)
      (ins₁ ++ ins₂)).map Prod.snd <+:
        (List.replicate (datagrams (es k)) (evtData k)).flatten :=
  (h.axi k).trans (streamed_isPrefix (h.sender k) (h.spiffer k))

theorem countP_batches (n : ℕ) (k pipe : Pipe) (x : Fin 8) (c : OutputStage.Chan) :
    ((List.replicate n (evtData k)).flatten).countP (isFor c (core pipe x)) =
      if k = pipe then 4 * n else 0 := by
  rw [List.countP_flatten, List.map_replicate, countP_evtData, List.sum_replicate]
  split
  · exact Nat.mul_comm n 4
  · exact Nat.mul_zero n

/-- A core never gets more than four packets for each datagram of its pipe, and exactly
four once all events have arrived, if none was dropped. -/
structure CountsBatches (K : Contract p) (s : Top.State α ρ σ) (ins : List (Top.Input A))
    (es : Pipe → List UdpInput.Event) (itemsToSend : Pipe → ℕ) : Prop where
  sent : ∀ k, datagrams (es k) ≤ itemsToSend k / 256 + 1
  atMost : ∀ c k x, packets K s ins c (core k x) ≤ 4 * datagrams (es k)
  exact : Along (Top.next p) (NothingDropped p) (Top.reset p s) ins →
    underway K (run (Top.next p) (Top.reset p s) ins) = 0 →
    (∀ k, (emit (Top.next p) (received (p := p) k) (Top.reset p s) ins).length =
      256 * datagrams (es k)) →
    ∀ c k x, packets K s ins c (core k x) = 4 * datagrams (es k)

def seqRun : List (Top.Input 32) :=
  [cycle (fun k ↦ some (event k 0 0)) none, cycle (fun _ ↦ none) none, cycle (fun _ ↦ none) none,
    cycle (fun k ↦ some (event k 0 1)) none, cycle (fun _ ↦ none) none, cycle (fun _ ↦ none) none]

def batch (k : Pipe) : List (BitVec 8) := (evtData k).flatMap wordBytes

theorem length_batch (k : Pipe) : (batch k).length = 1024 := by
  rw [batch, Transfer.length_flatMap_wordBytes, length_evtData]

def requested (data : List (BitVec 8)) (h : data.length ≤ 1024) : List UdpInput.Event :=
  [.recv (.batch data h), .spifTransfer]

def firstBeats : List UdpInput.Event := [.read, .read, .beat, .beat]

theorem run_requested {data : List (BitVec 8)} (h : data.length = 1024) :
    run UdpInput.next (UdpInput.start (fun _ ↦ 0) true) (requested data h.le) =
      ⟨UdpListener.store (fun _ ↦ 0) data, false, false, 0 :: 1 :: List.range' 2 254, [],
        .wait⟩ := by
  have hfetch : List.range ((BitVec.ofNat 32 data.length).toNat / 4) =
      0 :: 1 :: List.range' 2 254 := by
    have hlen : (BitVec.ofNat 32 1024).toNat / 4 = 256 := rfl
    rw [h, hlen, List.range_eq_range', List.range'_succ, List.range'_succ]
  rw [← hfetch]
  rfl

theorem along_firstBeats {data : List (BitVec 8)} (h : data.length = 1024) :
    Along UdpInput.next UdpInput.Enabled (UdpInput.start (fun _ ↦ 0) true)
      (requested data h.le ++ firstBeats) := by
  refine along_append.mpr ⟨⟨rfl, ⟨_, rfl⟩, trivial⟩, ?_⟩
  rw [run_requested h]
  exact ⟨List.cons_ne_nil _ _, List.cons_ne_nil _ _, List.cons_ne_nil _ _,
    List.cons_ne_nil _ _, trivial⟩

theorem streamed_firstBeats (k : Pipe) :
    emit UdpInput.next UdpInput.streamed (UdpInput.start (fun _ ↦ 0) true)
        (requested (batch k) (length_batch k).le ++ firstBeats) = [event k 0 0, event k 0 1] := by
  have hwords : ∀ k, [UdpListener.store (fun _ ↦ 0)
        ((List.replicate 4 (turn k)).flatten.flatMap wordBytes) 0,
      UdpListener.store (fun _ ↦ 0)
        ((List.replicate 4 (turn k)).flatten.flatMap wordBytes) 1] =
      [event k 0 0, event k 0 1] := by decide +kernel
  rw [emit_append, run_requested (length_batch k), ← hwords k, ← evtData_eq]
  rfl

theorem connected_seqRun : Connected registerContract cold startRun seqRun (fun _ _ ↦ 0)
    (fun _ ↦ true) (fun k ↦ requested (batch k) (length_batch k).le ++ firstBeats)
    (fun _ ↦ 256) where
  started :=
    { started_eventRun with
      bus := by decide
      reads := by
        have hnone : cfgAccepted registerParts (run (Top.next registerParts)
          (Top.reset registerParts cold) startRun) seqRun = [] := by decide +kernel
        rw [hnone]
        exact fun d hd ↦ absurd hd List.not_mem_nil }
  sent _ := by
    rw [batches_eq (Nat.zero_le _)]
    exact Nat.le_add_left 1 _
  sender k := by
    intro e he
    simp only [requested, firstBeats, List.cons_append, List.nil_append, List.mem_cons,
      List.not_mem_nil, or_false] at he
    rcases he with rfl | rfl | rfl | rfl | rfl | rfl
    · rfl
    all_goals trivial
  spiffer k := along_firstBeats (length_batch k)
  axi k := by
    rw [streamed_firstBeats]
    have hwords : ∀ k, (emit (Top.next registerParts) (received (p := registerParts) k)
        (Top.reset registerParts cold) (startRun ++ seqRun)).map Prod.snd =
          [event k 0 0, event k 0 1] := by decide +kernel
    rw [hwords k]

end Session

end Spif.TxEvtsSeqUdp
