import Spif.Hw.PktReceiver

/-!
# What received packets do

`pkt_receiver` around its switch.  The switch is `spio_switch`, which is not part
of this repository: it is a parameter here, and what the receiver relies on is
that each output is a lossless queue of the packets accepted for it.
-/

namespace Spif.PktReceiver

open Clocked RegBank

inductive Port where
  | per
  | cfg
deriving DecidableEq, Repr

structure SwitchIn where
  outputSelectIn : Port → Bool
  dataIn : Packet
  vldIn : Bool

/-- The ports of `spio_switch`.  What it accepts may depend on the readiness of
its outputs in the same cycle. -/
structure Switch (σ : Type*) where
  inRdyOut : σ → SwitchIn → (Port → Bool) → Bool
  outDataOut : σ → SwitchIn → Port → Packet
  outVldOut : σ → SwitchIn → Port → Bool
  next : σ → SwitchIn → (Port → Bool) → σ

variable {σ : Type*}

namespace Switch

variable (sw : Switch σ)

def accepts (s : σ) (x : SwitchIn) (rdy : Port → Bool) (p : Port) : List Packet :=
  if x.outputSelectIn p && x.vldIn && sw.inRdyOut s x rdy then [x.dataIn] else []

/-- Accepted packets are presented unmodified, once and in order, each until the
selected output is ready. -/
structure Lossless (queue : σ → Port → List Packet) : Prop where
  valid : ∀ s x p, queue s p ≠ [] → sw.outVldOut s x p = true
  presents : ∀ s x rdy p, sw.outVldOut s x p = true →
    ∃ rest, queue s p ++ sw.accepts s x rdy p = sw.outDataOut s x p :: rest
  advances : ∀ s x rdy p, queue (sw.next s x rdy) p =
    if sw.outVldOut s x p && rdy p then (queue s p ++ sw.accepts s x rdy p).tail
    else queue s p ++ sw.accepts s x rdy p

end Switch

structure Input where
  pktDataIn : Packet
  pktVldIn : Bool
  regCtrIn : Fin numDcRegs → Word
  replyKeyIn : Word
  dcpRdyIn : Bool
  perRdyIn : Bool

section Receiver

variable (sw : Switch σ) (s : σ) (i : Input)

def switchIn : SwitchIn where
  outputSelectIn
    | .per => (route i.pktDataIn).1
    | .cfg => (route i.pktDataIn).2
  dataIn := i.pktDataIn
  vldIn := i.pktVldIn

def perDataOut : Packet := sw.outDataOut s (switchIn i) .per

def perVldOut : Bool := sw.outVldOut s (switchIn i) .per

def cfgData : Packet := sw.outDataOut s (switchIn i) .cfg

def cfgVld : Bool := sw.outVldOut s (switchIn i) .cfg

def swiRdy : Port → Bool
  | .per => i.perRdyIn
  | .cfg => cfgRdy (cfgData sw s i) (cfgVld sw s i) i.dcpRdyIn

def pktRdyOut : Bool := sw.inRdyOut s (switchIn i) (swiRdy sw s i)

def next : σ := sw.next s (switchIn i) (swiRdy sw s i)

def accepted : List Packet := if i.pktVldIn && pktRdyOut sw s i then [i.pktDataIn] else []

def perTransferred : List Packet :=
  if perVldOut sw s i && i.perRdyIn then [perDataOut sw s i] else []

/-- The configuration packet that leaves the switch, with the counters and the
reply key of that cycle. -/
def cfgTaken : List (Packet × (Fin numDcRegs → Word) × Word) :=
  if cfgVld sw s i && swiRdy sw s i .cfg then [(cfgData sw s i, i.regCtrIn, i.replyKeyIn)]
  else []

inductive Effect where
  | write (addr : BitVec 8) (data : Word)
  | reply (key pld : Word)
deriving DecidableEq, Repr

def effects : List Effect :=
  (if prxEnOut (cfgData sw s i) (cfgVld sw s i) then
    [.write (prxAddrOut (cfgData sw s i)) (prxWdataOut (cfgData sw s i))] else []) ++
  (if dcpVldOut (cfgData sw s i) (cfgVld sw s i) && i.dcpRdyIn then
    [.reply (dcpDataOut (cfgData sw s i) i.regCtrIn i.replyKeyIn).key
      (dcpDataOut (cfgData sw s i) i.regCtrIn i.replyKeyIn).pld] else [])

def cntOut : Bool × Bool := prxCntOut i.pktDataIn i.pktVldIn (pktRdyOut sw s i)

end Receiver

/-! ## The effect of a packet -/

def counter (addr : BitVec 8) : Option (Fin numDcRegs) :=
  if h : 64 ≤ addr.toNat ∧ addr.toNat < 64 + numDcRegs then
    some ⟨addr.toNat - 64, by omega⟩
  else none

def effectOf : Packet × (Fin numDcRegs → Word) × Word → Effect
  | (p, ctr, replyKey) =>
      let addr := p.key.extractLsb' 0 8
      if p.lng then .write addr p.pld
      else .reply (replyKey ||| addr.setWidth 32) (((counter addr).map ctr).getD badReg)

theorem counter_eq (addr : BitVec 8) : counter addr =
    if addr.extractLsb' 4 4 = 4 then index numDcRegs (addr.extractLsb' 0 4) else none := by
  have hall : ∀ addr : BitVec 8, counter addr =
      if addr.extractLsb' 4 4 = 4 then index numDcRegs (addr.extractLsb' 0 4) else none := by
    decide +kernel
  exact hall addr

theorem extractLsb'_low (key : Word) {k : ℕ} (hk : k + 4 ≤ 8) :
    (key.extractLsb' 0 8).extractLsb' k 4 = key.extractLsb' k 4 := by
  apply BitVec.eq_of_getLsbD_eq
  intro j hj
  have hlow : k + j < 8 := by omega
  simp [hj, hlow]

theorem dcpPld_eq (p : Packet) (ctr : Fin numDcRegs → Word) :
    dcpPld p ctr = ((counter (p.key.extractLsb' 0 8)).map ctr).getD badReg := by
  rw [counter_eq, extractLsb'_low p.key (k := 4) (by decide),
    extractLsb'_low p.key (k := 0) (by decide)]
  unfold dcpPld ctrSec ctrReg
  by_cases hsec : p.key.extractLsb' 4 4 = 4
  · cases hidx : index numDcRegs (p.key.extractLsb' 0 4) <;> simp [hsec]
  · have hne : (p.key.extractLsb' 4 4 == 4) = false := by simpa using hsec
    rw [if_neg hsec, hne]
    rfl

section Runs

variable {sw : Switch σ} {queue : σ → Port → List Packet}

/-- A packet has its effect in the one cycle in which it leaves the switch. -/
theorem effects_eq (s : σ) (i : Input) : effects sw s i = (cfgTaken sw s i).map effectOf := by
  unfold effects cfgTaken swiRdy cfgRdy prxEnOut dcpVldOut pldPst
  cases hvld : cfgVld sw s i with
  | false => simp
  | true =>
      cases hlng : (cfgData sw s i).lng with
      | true => simp [effectOf, hlng, prxAddrOut, prxWdataOut]
      | false =>
          cases hrdy : i.dcpRdyIn with
          | false => simp
          | true =>
              simp [effectOf, hlng, dcpDataOut, dcpKey, ctrOffset, dcpPld_eq]

def transferred (sw : Switch σ) (p : Port) (s : σ) (i : Input) : List Packet :=
  if sw.outVldOut s (switchIn i) p && swiRdy sw s i p then [sw.outDataOut s (switchIn i) p]
  else []

theorem fifo_step (h : sw.Lossless queue) (p : Port) (s : σ) (i : Input) :
    transferred sw p s i ++ queue (next sw s i) p =
      queue s p ++ sw.accepts s (switchIn i) (swiRdy sw s i) p := by
  unfold transferred next
  rw [h.advances]
  cases hvld : sw.outVldOut s (switchIn i) p with
  | false => simp
  | true =>
      obtain ⟨rest, hrest⟩ := h.presents s (switchIn i) (swiRdy sw s i) p hvld
      cases hrdy : swiRdy sw s i p <;> simp [hrest]

theorem accepts_per (s : σ) (i : Input) :
    sw.accepts s (switchIn i) (swiRdy sw s i) .per =
      (accepted sw s i).filter fun p ↦ !p.cfg := by
  unfold Switch.accepts accepted pktRdyOut
  cases hcfg : i.pktDataIn.cfg <;> cases hvld : i.pktVldIn <;>
    cases hrdy : sw.inRdyOut s (switchIn i) (swiRdy sw s i) <;>
    simp [switchIn, route, hcfg, hvld]

theorem accepts_cfg (s : σ) (i : Input) :
    sw.accepts s (switchIn i) (swiRdy sw s i) .cfg =
      (accepted sw s i).filter Packet.cfg := by
  unfold Switch.accepts accepted pktRdyOut
  cases hcfg : i.pktDataIn.cfg <;> cases hvld : i.pktVldIn <;>
    cases hrdy : sw.inRdyOut s (switchIn i) (swiRdy sw s i) <;>
    simp [switchIn, route, hcfg, hvld]

theorem transferred_append_queue (h : sw.Lossless queue) (p : Port) {s : σ}
    (hs : queue s p = []) (ins : List Input) :
    emit (next sw) (transferred sw p) s ins ++ queue (run (next sw) s ins) p =
      emit (next sw) (fun s i ↦ sw.accepts s (switchIn i) (swiRdy sw s i) p) s ins := by
  have hfifo : emit (next sw) (transferred sw p) s ins ++ queue (run (next sw) s ins) p =
      queue s p ++ emit (next sw) (fun s i ↦ sw.accepts s (switchIn i) (swiRdy sw s i) p) s ins :=
    emit_fifo (fun s ↦ queue s p) _ _ (I := fun _ ↦ True) (C := fun _ _ ↦ True)
      (fun _ _ _ _ ↦ trivial) (fun s i _ _ ↦ fifo_step h p s i) trivial
      (along_of_forall_mem (fun _ _ ↦ trivial) s)
  rw [hfifo, hs, List.nil_append]

theorem fst_cfgTaken (s : σ) (i : Input) :
    (cfgTaken sw s i).map Prod.fst = transferred sw .cfg s i := by
  unfold cfgTaken transferred cfgVld
  split <;> rfl

theorem cntOut_eq (s : σ) (i : Input) :
    (cntOut sw s i).1.toNat = ((accepted sw s i).filter fun p ↦ !p.cfg).length ∧
      (cntOut sw s i).2.toNat = ((accepted sw s i).filter Packet.cfg).length := by
  unfold cntOut prxCntOut accepted
  cases hcfg : i.pktDataIn.cfg <;> cases hvld : i.pktVldIn <;>
    cases hrdy : pktRdyOut sw s i <;> simp [hcfg]

/-- The switch presents `d` at an output. -/
def Presents (sw : Switch σ) (p : Port) (s : σ) (i : Input) (d : Packet) : Prop :=
  sw.outVldOut s (switchIn i) p = true ∧ sw.outDataOut s (switchIn i) p = d

/-- What is due in a cycle: the oldest packet for an output is presented there.  A presented
write is carried out and leaves, and a read or a peripheral packet leaves with its effect if
the receiving side is ready, and stays without one if not. -/
structure Served (sw : Switch σ) (queue : σ → Port → List Packet) (s : σ) (i : Input) : Prop where
  oldest : ∀ p d, (queue s p).head? = some d → Presents sw p s i d
  write : ∀ d, Presents sw .cfg s i d → d.lng = true →
    effects sw s i = [.write (d.key.extractLsb' 0 8) d.pld] ∧
      (cfgTaken sw s i).map Prod.fst = [d]
  read : ∀ d, Presents sw .cfg s i d → d.lng = false →
    effects sw s i = (if i.dcpRdyIn then [effectOf (d, i.regCtrIn, i.replyKeyIn)] else []) ∧
      (cfgTaken sw s i).map Prod.fst = if i.dcpRdyIn then [d] else []
  peripheral : ∀ d, Presents sw .per s i d →
    perTransferred sw s i = if i.perRdyIn then [d] else []
  idle : (∀ d, ¬ Presents sw .cfg s i d) → effects sw s i = []

theorem cfgTaken_of_presents {s : σ} {i : Input} {d : Packet} (hd : Presents sw .cfg s i d) :
    cfgTaken sw s i =
      if d.lng || i.dcpRdyIn then [(d, i.regCtrIn, i.replyKeyIn)] else [] := by
  obtain ⟨hvld, hdata⟩ := hd
  have hcfg : cfgVld sw s i = true := hvld
  have hpkt : cfgData sw s i = d := hdata
  rw [cfgTaken, swiRdy, cfgRdy, pldPst, hcfg, hpkt, Bool.true_and, Bool.true_and]

theorem served_of_lossless (h : sw.Lossless queue) (s : σ) (i : Input) : Served sw queue s i where
  oldest p d hd := by
    obtain ⟨rest, hrest⟩ := List.head?_eq_some_iff.mp hd
    have hvld := h.valid s (switchIn i) p (by simp [hrest])
    obtain ⟨rest', hrest'⟩ := h.presents s (switchIn i) (swiRdy sw s i) p hvld
    rw [hrest, List.cons_append] at hrest'
    exact ⟨hvld, (List.cons.inj hrest').1.symm⟩
  write d hd hlng := by
    rw [effects_eq, cfgTaken_of_presents hd, hlng]
    simp [effectOf, hlng]
  read d hd hlng := by
    rw [effects_eq, cfgTaken_of_presents hd, hlng, Bool.false_or]
    cases i.dcpRdyIn <;> exact ⟨rfl, rfl⟩
  peripheral d hd := by
    have hvld : perVldOut sw s i = true := hd.1
    have hdata : perDataOut sw s i = d := hd.2
    rw [perTransferred, hvld, hdata, Bool.true_and]
  idle hnone := by
    have hvld : cfgVld sw s i = false := Bool.eq_false_iff.mpr fun hvld ↦ hnone _ ⟨hvld, rfl⟩
    rw [effects_eq, cfgTaken, hvld]
    rfl

/-- Every accepted packet is on its way through the switch or has had its one
effect, and it has been counted under its class.  No packet waits for longer than the
receiving side keeps it waiting. -/
structure OneEffect (sw : Switch σ) (queue : σ → Port → List Packet) (s : σ)
    (ins : List Input) : Prop where
  peripheral : emit (next sw) (perTransferred sw) s ins ++ queue (run (next sw) s ins) .per =
    (emit (next sw) (accepted sw) s ins).filter fun p ↦ !p.cfg
  config : (emit (next sw) (cfgTaken sw) s ins).map Prod.fst ++
    queue (run (next sw) s ins) .cfg = (emit (next sw) (accepted sw) s ins).filter Packet.cfg
  effects : emit (next sw) (effects sw) s ins = (emit (next sw) (cfgTaken sw) s ins).map effectOf
  countPer : tally (next sw) (fun s i ↦ (cntOut sw s i).1.toNat) s ins =
    ((emit (next sw) (accepted sw) s ins).filter fun p ↦ !p.cfg).length
  countCfg : tally (next sw) (fun s i ↦ (cntOut sw s i).2.toNat) s ins =
    ((emit (next sw) (accepted sw) s ins).filter Packet.cfg).length
  cycles : Along (next sw) (Served sw queue) s ins

theorem one_effect (h : sw.Lossless queue) {s : σ} (hs : ∀ p, queue s p = [])
    (ins : List Input) : OneEffect sw queue s ins where
  peripheral := by
    rw [emit_filter]
    simp only [← accepts_per]
    exact transferred_append_queue h .per (hs .per) ins
  config := by
    rw [emit_filter, emit_map]
    simp only [← accepts_cfg, fst_cfgTaken]
    exact transferred_append_queue h .cfg (hs .cfg) ins
  effects := by
    rw [emit_map]
    simp only [← effects_eq]
  countPer := by
    rw [emit_filter, ← tally_length]
    simp only [(cntOut_eq _ _).1]
  countCfg := by
    rw [emit_filter, ← tally_length]
    simp only [(cntOut_eq _ _).2]
  cycles := along_of_inv (I := fun _ ↦ True) (C := fun _ _ ↦ True) (fun _ _ _ _ ↦ trivial)
    (fun s i _ _ ↦ served_of_lossless h s i) trivial
    (along_of_forall_mem (fun _ _ ↦ trivial) s)

end Runs

/-! ## A switch -/

/-- A register for each output.  A packet is taken when the selected ones are empty
or being emptied. -/
def registers : Switch (Port → Option Packet) where
  inRdyOut s x rdy :=
    [Port.per, Port.cfg].all fun p ↦ !x.outputSelectIn p || (s p).isNone || rdy p
  outDataOut s _ p := (s p).getD 0
  outVldOut s _ p := (s p).isSome
  next s x rdy p :=
    if x.outputSelectIn p && x.vldIn &&
        [Port.per, Port.cfg].all fun p ↦ !x.outputSelectIn p || (s p).isNone || rdy p then
      some x.dataIn
    else if rdy p then none else s p

theorem registers_busy {s : Port → Option Packet} {x : SwitchIn} {rdy : Port → Bool} {p : Port}
    {d : Packet} (hs : s p = some d) (hrdy : rdy p = false) (hsel : x.outputSelectIn p = true) :
    registers.inRdyOut s x rdy = false := by
  cases p <;> simp [registers, hs, hrdy, hsel]

theorem lossless_registers : registers.Lossless fun s p ↦ (s p).toList where
  valid s x p hs := by
    change (s p).isSome = true
    cases hp : s p with
    | none => exact absurd (congrArg Option.toList hp) hs
    | some => rfl
  presents s x rdy p hvld := by
    obtain ⟨d, hd⟩ := Option.isSome_iff_exists.mp hvld
    exact ⟨registers.accepts s x rdy p, by simp [hd, registers]⟩
  advances s x rdy p := by
    have hnext : registers.next s x rdy p =
        if x.outputSelectIn p && x.vldIn && registers.inRdyOut s x rdy then some x.dataIn
        else if rdy p then none else s p := rfl
    have hvld : registers.outVldOut s x p = (s p).isSome := rfl
    rw [hnext, hvld, Switch.accepts]
    cases hs : s p with
    | none => cases x.outputSelectIn p && x.vldIn && registers.inRdyOut s x rdy <;> simp
    | some d =>
        cases hrdy : rdy p with
        | true => cases x.outputSelectIn p && x.vldIn && registers.inRdyOut s x rdy <;> simp
        | false =>
            cases hsel : x.outputSelectIn p with
            | false => simp
            | true => simp [registers_busy hs hrdy hsel]

/-- A read of counter 2, followed by a write of register 2. -/
def readWrite : List Input :=
  [⟨.mk 0 66 0x10, true, fun k ↦ BitVec.ofNat 32 k, 0xfffffd00, true, false⟩,
    ⟨.mk 5 2 0x12, true, fun k ↦ BitVec.ofNat 32 (k + 1), 0xfffffd00, true, false⟩,
    ⟨0, false, fun k ↦ BitVec.ofNat 32 (k + 2), 0xfffffd00, true, false⟩]

example : emit (next registers) (effects registers) (fun _ ↦ none) readWrite =
    [.reply 0xfffffd42 3, .write 2 5] := by
  decide +kernel

theorem one_effect_readWrite :
    OneEffect registers (fun s p ↦ (s p).toList) (fun _ ↦ none) readWrite :=
  one_effect lossless_registers (fun _ ↦ rfl) readWrite

end Spif.PktReceiver
