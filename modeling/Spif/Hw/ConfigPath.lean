import Spif.Hw.InputPath
import Spif.Hw.RegBankPorts

/-!
# Configuration packets end to end

Configuration packets from SpiNNaker pass the packet receiver, and then either write the
register bank or are answered on channel 0.  This module follows them through
`dvs_on_hssl_top`, from the HSSL interface to the registers and back.
-/

namespace Spif.Top

open Clocked RegBank PktReceiver SpifLocal

variable {α ρ σ : Type*} {A : ℕ} {p : Parts α ρ σ}

def rxAccepted (p : Parts α ρ σ) (s : State α ρ σ) (i : Input A) : List Packet :=
  if i.rxpVld && rxpRdy p s i then [i.rxpData] else []

/-- The configuration packet carried out, with the counters and the reply key. -/
def taken (p : Parts α ρ σ) (s : State α ρ σ) (i : Input A) :
    List (Packet × (Fin numDcRegs → Word) × Word) :=
  cfgTaken p.prxSwitch s.prx (prxIn s i (dcpRdy p s i))

/-- The register write of a configuration packet. -/
def writeOf (d : Packet) : Option Write :=
  if d.lng then some ⟨d.key.extractLsb' 4 4, d.key.extractLsb' 0 4, d.pld⟩ else none

/-- Key and payload of the answer to a configuration packet. -/
def answerOf : Packet × (Fin numDcRegs → Word) × Word → Option (Word × Word)
  | (d, ctr, replyKey) =>
      let addr := d.key.extractLsb' 0 8
      if d.lng then none
      else some (replyKey ||| addr.setWidth 32, ((counter addr).map ctr).getD badReg)

/-! ## Through the receiver -/

theorem port_append_queue (K : Contract p) (o : Port) (s : State α ρ σ) (ins : List (Input A)) :
    emit (next p) (fun s i ↦ PktReceiver.transferred p.prxSwitch o s.prx
          (prxIn s i (dcpRdy p s i))) (reset p s) ins ++
        K.prxQueue (run (next p) (reset p s) ins).prx o =
      emit (next p) (fun s i ↦ p.prxSwitch.accepts s.prx (switchIn (prxIn s i (dcpRdy p s i)))
        (swiRdy p.prxSwitch s.prx (prxIn s i (dcpRdy p s i))) o) (reset p s) ins := by
  have hrx : emit (PktReceiver.next p.prxSwitch) (PktReceiver.transferred p.prxSwitch o)
        ((receiver A p).proj (reset p s)) ((receiver A p).inputs (reset p s) ins) ++
      K.prxQueue (run (PktReceiver.next p.prxSwitch) ((receiver A p).proj (reset p s))
        ((receiver A p).inputs (reset p s) ins)) o =
      emit (PktReceiver.next p.prxSwitch) (fun s i ↦
          p.prxSwitch.accepts s (switchIn i) (swiRdy p.prxSwitch s i) o)
        ((receiver A p).proj (reset p s)) ((receiver A p).inputs (reset p s) ins) :=
    PktReceiver.transferred_append_queue K.lossless o (K.prxQueue_reset _ _) _
  rw [Component.run_inputs, Component.emit_inputs, Component.emit_inputs] at hrx
  exact hrx

theorem taken_append_queue (K : Contract p) (s : State α ρ σ) (ins : List (Input A)) :
    (emit (next p) (taken p) (reset p s) ins).map Prod.fst ++
        K.prxQueue (run (next p) (reset p s) ins).prx .cfg =
      (emit (next p) (rxAccepted p) (reset p s) ins).filter Packet.cfg := by
  have hport := port_append_queue K .cfg s ins
  simp only [accepts_cfg, ← fst_cfgTaken] at hport
  rw [emit_map, emit_filter]
  exact hport

/-! ## Writes -/

theorem extractLsb'_prxAddr (d : Packet) {k : ℕ} (hk : k + 4 ≤ 8) :
    (prxAddrOut d).extractLsb' k 4 = d.key.extractLsb' k 4 :=
  extractLsb'_low d.key hk

/-- The packet write that the register bank sees is the packet carried out. -/
theorem pktWrite_rbIn (p : Parts α ρ σ) (s : State α ρ σ) (i : Input A) :
    (pktWrite (rbIn p s i)).toList = (taken p s i).filterMap fun x ↦ writeOf x.1 := by
  have htaken : taken p s i =
      if cfgVld p s i && cfgRdy (cfgData p s i) (cfgVld p s i) (dcpRdy p s i) then
        [(cfgData p s i, s.rb.regCtrOut, replyKey s)] else [] := rfl
  have hen : (rbIn p s i).prxEnIn = (cfgVld p s i && (cfgData p s i).lng) := rfl
  have hreq : prxReq (rbIn p s i) = ⟨(cfgData p s i).key.extractLsb' 4 4,
      (cfgData p s i).key.extractLsb' 0 4, (cfgData p s i).pld⟩ := by
    rw [prxReq, prxSec, prxReg, ← extractLsb'_prxAddr _ (k := 4) (by decide),
      ← extractLsb'_prxAddr _ (k := 0) (by decide)]
    rfl
  rw [htaken, pktWrite, hen, hreq]
  cases hvld : cfgVld p s i <;> cases hlng : (cfgData p s i).lng <;>
    cases hrdy : dcpRdy p s i <;> simp [cfgRdy, pldPst, writeOf, hlng]

theorem busWrite_rbIn (p : Parts α ρ σ) (s : State α ρ σ) {i : Input A}
    (h : (i.apbPsel && i.apbPwrite) = false) : busWrite (rbIn p s i) = none :=
  if_neg (by rw [Bool.not_eq_true]; exact h)

theorem merge_none (c : Regs 2) (w? : Option Write) :
    merge c w? none = w?.toList.foldl applyWrite c := by
  cases w? <;> rfl

/-- While the APB does not write, the registers are what the configuration packets made of
them. -/
theorem regs_run (s : State α ρ σ) {ins : List (Input A)}
    (hapb : ∀ i ∈ ins, (i.apbPsel && i.apbPwrite) = false) :
    (run (next p) (reset p s) ins).rb.regs =
      ((emit (next p) (taken p) (reset p s) ins).filterMap fun x ↦ writeOf x.1).foldl applyWrite
        (reset p s).rb.regs := by
  rw [emit_filterMap]
  refine foldl_emit (fun s : State α ρ σ ↦ s.rb.regs) applyWrite _ ?_
    (along_of_forall_mem hapb (reset p s))
  intro s i hi
  have hregs : (next p s i).rb.regs = regsNext s.rb (rbIn p s i) := rfl
  rw [hregs, regsNext_eq_merge, busWrite_rbIn p s hi, merge_none, pktWrite_rbIn]

theorem applyWrite_apply {c : Regs 2} {w : Write} (hw : w.isSoftReset = false) (r : Reg 2) :
    applyWrite c w r =
      (if w.target 2 = some r then some (w.data.setWidth r.width) else none).getD (c r) := by
  rw [applyWrite_of_not_soft hw]
  by_cases ht : w.target 2 = some r
  · rw [if_pos ht, writeReg_of_some ht, Function.update_self, Option.getD_some]
  · rw [if_neg ht, writeReg_apply_of_ne ht, Option.getD_none]

/-! ## The configuration interface of SpiNNaker programs -/

def CallDelivered (c : Setter × Word) (d : Packet) : Prop := Delivered (c.1.packet c.2) d

/-- What a call of the interface sets a register to. -/
def setsTo (r : Reg 2) (c : Setter × Word) : Option (BitVec r.width) :=
  if c.1.addressed = some r then some (c.2.setWidth r.width) else none

theorem writeOf_delivered {c : Setter × Word} {d : Packet} (hd : CallDelivered c d) :
    ∃ w, writeOf d = some w ∧ w.target 2 = c.1.addressed ∧
      ((∀ k, c.1 ≠ .counter k) → w.data = c.2) := by
  refine ⟨_, if_pos hd.lng, ?_, fun hc ↦ ?_⟩
  · rw [← Setter.target_packet c.2 c.1, ← hd.key]
    rfl
  · have hpld : some d.pld = some c.2 := by
      rw [hd.pld]
      cases hst : c.1 with
      | counter k => exact absurd hst (hc k)
      | _ => rfl
    exact Option.some.inj hpld

/-- A delivered call writes the register it addresses. -/
theorem applyWrite_delivered {c : Setter × Word} {d : Packet} (hd : CallDelivered c d)
    (regs : Regs 2) (r : Reg 2) :
    (writeOf d).toList.foldl applyWrite regs r = (setsTo r c).getD (regs r) := by
  obtain ⟨w, hw, htarget, hdata⟩ := writeOf_delivered hd
  have hsoft : w.isSoftReset = false := by
    rw [Bool.eq_false_iff]
    intro hreset
    exact c.1.addressed_ne_softRes (htarget ▸ target_of_isSoftReset hreset)
  rw [hw, Option.toList_some, List.foldl_cons, List.foldl_nil, applyWrite_apply hsoft, htarget,
    setsTo]
  by_cases haddr : c.1.addressed = some r
  · have hc : ∀ k, c.1 ≠ .counter k := by
      intro k hk
      rw [hk] at haddr
      cases haddr
    rw [if_pos haddr, if_pos haddr, hdata hc]
  · rw [if_neg haddr, if_neg haddr]

theorem foldl_delivered {calls : List (Setter × Word)} {ds : List Packet}
    (h : List.Forall₂ CallDelivered calls ds) (regs : Regs 2) (r : Reg 2) :
    (ds.filterMap writeOf).foldl applyWrite regs r =
      (latest (setsTo r) calls).getD (regs r) := by
  induction h generalizing regs with
  | nil => rfl
  | @cons c d calls ds hd _ ih =>
      have hfirst := applyWrite_delivered hd regs r
      have hsplit : (List.filterMap writeOf (d :: ds)).foldl applyWrite regs =
          (ds.filterMap writeOf).foldl applyWrite ((writeOf d).toList.foldl applyWrite regs) := by
        rw [← List.foldl_append, List.filterMap_cons]
        cases writeOf d <;> rfl
      rw [hsplit, ih, hfirst, latest, latest, List.filterMap_cons]
      cases setsTo r c <;> simp [List.getLast?_cons]

def writesInSwitch (K : Contract p) (s : State α ρ σ) : List Packet :=
  (K.prxQueue s.prx .cfg).filter Packet.lng

theorem filterMap_writeOf (ds : List Packet) :
    (ds.filter Packet.lng).filterMap writeOf = ds.filterMap writeOf := by
  rw [List.filterMap_filter]
  apply List.filterMap_congr
  intro d _
  cases hlng : d.lng <;> simp [writeOf, hlng]

/-- When the configuration packets with a payload are the calls of the interface, every
register holds the value of the last call that addresses it, or its default.  The calls
whose packets are still in the switch do not count yet. -/
theorem configured (K : Contract p) (s : State α ρ σ) {ins : List (Input A)}
    (hapb : ∀ i ∈ ins, (i.apbPsel && i.apbPwrite) = false) {calls : List (Setter × Word)}
    (hcalls : List.Forall₂ CallDelivered calls
      (((emit (next p) (rxAccepted p) (reset p s) ins).filter Packet.cfg).filter Packet.lng))
    (r : Reg 2) :
    (run (next p) (reset p s) ins).rb.regs r =
      (latest (setsTo r) (calls.take (calls.length -
        (writesInSwitch K (run (next p) (reset p s) ins)).length))).getD
          (defaults s.rb.regs r) := by
  set waiting := writesInSwitch K (run (next p) (reset p s) ins) with hwaiting
  set done := ((emit (next p) (taken p) (reset p s) ins).map Prod.fst).filter Packet.lng
    with hdone
  have hsplit : done ++ waiting =
      ((emit (next p) (rxAccepted p) (reset p s) ins).filter Packet.cfg).filter Packet.lng := by
    rw [← taken_append_queue K, List.filter_append]
    rfl
  rw [← hsplit] at hcalls
  have hlen : calls.length - waiting.length = done.length := by
    rw [hcalls.length_eq, List.length_append, Nat.add_sub_cancel]
  have hcarried : List.Forall₂ CallDelivered (calls.take done.length) done := by
    have htake := List.forall₂_take done.length hcalls
    rwa [List.take_left] at htake
  have hwrites : (emit (next p) (taken p) (reset p s) ins).filterMap (fun x ↦ writeOf x.1) =
      done.filterMap writeOf := by
    rw [hdone, filterMap_writeOf, List.filterMap_map]
    rfl
  rw [regs_run s hapb, hwrites, hlen]
  exact foldl_delivered hcarried _ r

def mapperKeyCalls : List (Setter × Word) := [(.mapperKey 1, 5), (.mapperKey 1, 7)]

/-- Both calls are sent, and the second one is still in the switch at the end. -/
def mapperKeyRun : List (Input 32) :=
  [cycle (fun _ ↦ none) (some ((Setter.mapperKey 1).packet 5).deliver),
    cycle (fun _ ↦ none) (some ((Setter.mapperKey 1).packet 7).deliver)]

theorem mapperKeyRun_accepted :
    ((emit (next registerParts) (rxAccepted registerParts) (reset registerParts cold)
      mapperKeyRun).filter Packet.cfg).filter Packet.lng =
        mapperKeyCalls.map fun c ↦ (c.1.packet c.2).deliver := by
  decide +kernel

theorem configured_mapperKeyRun :
    (run (next registerParts) (reset registerParts cold) mapperKeyRun).rb.regs (.mpKey 1) =
      (latest (setsTo (.mpKey 1)) (mapperKeyCalls.take (mapperKeyCalls.length -
        (writesInSwitch registerContract (run (next registerParts) (reset registerParts cold)
          mapperKeyRun)).length))).getD (defaults cold.rb.regs (.mpKey 1)) :=
  configured registerContract cold (by decide)
    (mapperKeyRun_accepted ▸ .cons (delivered_deliver rfl) (.cons (delivered_deliver rfl) .nil))
    (.mpKey 1)

/-! ## Reads -/

theorem key_dcpDataOut (d : Packet) (ctr : Fin numDcRegs → Word) (replyKey : Word) :
    (dcpDataOut d ctr replyKey).key = replyKey ||| (d.key.extractLsb' 0 8).setWidth 32 :=
  Packet.key_mk _ _ _

theorem pld_dcpDataOut (d : Packet) (ctr : Fin numDcRegs → Word) (replyKey : Word) :
    (dcpDataOut d ctr replyKey).pld =
      ((counter (d.key.extractLsb' 0 8)).map ctr).getD badReg :=
  (Packet.pld_mk _ _ _).trans (dcpPld_eq d ctr)

theorem answer_step (K : Contract p) (s : State α ρ σ) (i : Input A) :
    (transmitted K 0 s i).filterMap (ofOrigin .reply) ++ K.arbQueue (next p s i).chanArb 1 =
      K.arbQueue s.chanArb 1 ++
        p.arbiter.accepts s.chanArb (chanArbIn p s i) (i.txpRdy 0) 1 := by
  rw [transmitted_reply]
  exact K.merges s.chanArb (chanArbIn p s i) (i.txpRdy 0) 1

theorem accepts_reply (p : Parts α ρ σ) (s : State α ρ σ) (i : Input A) :
    (p.arbiter.accepts s.chanArb (chanArbIn p s i) (i.txpRdy 0) 1).map
        (fun d ↦ (d.key, d.pld)) = (taken p s i).filterMap answerOf := by
  have htaken : taken p s i =
      if cfgVld p s i && cfgRdy (cfgData p s i) (cfgVld p s i) (dcpRdy p s i) then
        [(cfgData p s i, s.rb.regCtrOut, replyKey s)] else [] := rfl
  have haccepts : p.arbiter.accepts s.chanArb (chanArbIn p s i) (i.txpRdy 0) 1 =
      if cfgVld p s i && !(cfgData p s i).lng && dcpRdy p s i then
        [dcpDataOut (cfgData p s i) s.rb.regCtrOut (replyKey s)] else [] := rfl
  rw [htaken, haccepts]
  cases hvld : cfgVld p s i <;> cases hlng : (cfgData p s i).lng <;>
    cases hrdy : dcpRdy p s i <;>
    simp [cfgRdy, pldPst, answerOf, hlng, key_dcpDataOut, pld_dcpDataOut]

/-- The replies that were sent, and those that wait at the arbiter. -/
theorem replies_append_queue (K : Contract p) (s : State α ρ σ) (ins : List (Input A)) :
    ((emit (next p) (transmitted K 0) (reset p s) ins).filterMap (ofOrigin .reply) ++
        K.arbQueue (run (next p) (reset p s) ins).chanArb 1).map (fun d ↦ (d.key, d.pld)) =
      (emit (next p) (taken p) (reset p s) ins).filterMap answerOf := by
  have harb := emit_fifo (fun s : State α ρ σ ↦ K.arbQueue s.chanArb 1)
    (fun s i ↦ p.arbiter.accepts s.chanArb (chanArbIn p s i) (i.txpRdy 0) 1)
    (fun s (i : Input A) ↦ (transmitted K 0 s i).filterMap (ofOrigin .reply))
    (I := fun _ ↦ True) (C := fun _ _ ↦ True) (fun _ _ _ _ ↦ trivial)
    (fun s i _ _ ↦ answer_step K s i) trivial
    (along_of_forall_mem (fun i (_ : i ∈ ins) ↦ trivial) (reset p s))
  have hempty : K.arbQueue (reset p s).chanArb 1 = [] := K.arbQueue_reset _ _
  rw [hempty, List.nil_append] at harb
  rw [emit_filterMap, harb, emit_map, emit_filterMap]
  simp only [accepts_reply]

/-- Every configuration packet without a payload is answered on channel 0, once and in
order, with the value that the counter holds when the packet leaves the receiver. -/
theorem answered (K : Contract p) (s : State α ρ σ) (ins : List (Input A)) :
    ((emit (next p) (transmitted K 0) (reset p s) ins).filterMap (ofOrigin .reply) ++
        K.arbQueue (run (next p) (reset p s) ins).chanArb 1).map (fun d ↦ (d.key, d.pld)) =
      (emit (next p) (taken p) (reset p s) ins).filterMap answerOf ∧
    (emit (next p) (taken p) (reset p s) ins).map Prod.fst ++
        K.prxQueue (run (next p) (reset p s) ins).prx .cfg =
      (emit (next p) (rxAccepted p) (reset p s) ins).filter Packet.cfg :=
  ⟨replies_append_queue K s ins, taken_append_queue K s ins⟩

/-- A peripheral packet arrives, and then the counter of such packets is read. -/
def readRun : List (Input 32) :=
  [cycle (fun _ ↦ none) (some (.mk 0 5 0)), cycle (fun _ ↦ none) none,
    cycle (fun _ ↦ none) (some (.mk 0 (rcfgKey ||| (spifCountOutDrop + 1)) 0b00010000)),
    cycle (fun _ ↦ none) none]

example : (emit (next registerParts) (taken registerParts) (reset registerParts cold)
    readRun).filterMap answerOf = [(defaults cold.rb.regs (.hssl 2) ||| 65, 1)] := by
  decide +kernel

theorem answered_readRun :
    ((emit (next registerParts) (transmitted registerContract 0) (reset registerParts cold)
          readRun).filterMap (ofOrigin .reply) ++
        registerContract.arbQueue (run (next registerParts) (reset registerParts cold)
          readRun).chanArb 1).map (fun d ↦ (d.key, d.pld)) =
      (emit (next registerParts) (taken registerParts) (reset registerParts cold)
        readRun).filterMap answerOf ∧
    (emit (next registerParts) (taken registerParts) (reset registerParts cold)
          readRun).map Prod.fst ++
        registerContract.prxQueue (run (next registerParts) (reset registerParts cold)
          readRun).prx .cfg =
      (emit (next registerParts) (rxAccepted registerParts) (reset registerParts cold)
        readRun).filter Packet.cfg :=
  answered registerContract cold readRun

end Spif.Top
