import Spif.Hw.PktReceiver

/-!
# Configuring spif from SpiNNaker

The functions of `spif_local.h` set configuration registers by sending
multicast packets with a payload.  The low eight bits of the key are the
register number, `RCFG_KEY` routes the packet to spif.
-/

namespace Spif.SpifLocal

open RegBank PktReceiver

/-- A multicast packet as handed to `spin1_send_mc_packet`. -/
structure McPacket where
  key : Word
  payload : Option Word
deriving DecidableEq, Repr

def rcfgKey : Word := 0xffffff00

def spifDcRegsNum : ℕ := 5
def spifMpRegsNum : Word := 4
def spifFlRegsNum : Word := 8

def spifInDropWait : Word := 3
def spifRouterKey : Word := 16
def spifRouterMask : Word := 32
def spifRouterRoute : Word := 48
def spifCountOutDrop : Word := 64
def spifMapperKey : Word := 80
def spifMapperMask : Word := 96
def spifMapperShift : Word := 112
def spifFilterValue : Word := 144
def spifFilterMask : Word := 176

/-- `spin1_send_mc_packet (RCFG_KEY | reg, val, WITH_PAYLOAD)` -/
def sendConfig (reg val : Word) : McPacket := ⟨rcfgKey ||| reg, some val⟩

def spifSetRoutingKey (entry key : Word) : McPacket :=
  sendConfig (spifRouterKey + entry) key

def spifSetRoutingMask (entry mask : Word) : McPacket :=
  sendConfig (spifRouterMask + entry) mask

def spifSetRoutingRoute (entry route : Word) : McPacket :=
  sendConfig (spifRouterRoute + entry) route

def spifSetInputDropWait (wait : Word) : McPacket := sendConfig spifInDropWait wait

def spifSetMapperKey (pipe key : Word) : McPacket := sendConfig (spifMapperKey + pipe) key

def spifSetMapperFieldMask (pipe field mask : Word) : McPacket :=
  sendConfig (spifMapperMask + spifMpRegsNum * pipe + field) mask

def spifSetMapperFieldShift (pipe field shift : Word) : McPacket :=
  sendConfig (spifMapperShift + spifMpRegsNum * pipe + field) shift

/-- The source adds to `SPIF_MAPPER_MASK` here, too, and never uses `SPIF_MAPPER_LIMIT`. -/
def spifSetMapperFieldLimit (pipe field limit : Word) : McPacket :=
  sendConfig (spifMapperMask + spifMpRegsNum * pipe + field) limit

def spifSetFilterValue (pipe filter value : Word) : McPacket :=
  sendConfig (spifFilterValue + spifFlRegsNum * pipe + filter) value

def spifSetFilterMask (pipe filter mask : Word) : McPacket :=
  sendConfig (spifFilterMask + spifFlRegsNum * pipe + filter) mask

def spifResetCounters : List McPacket :=
  (List.range spifDcRegsNum).map fun k ↦
    sendConfig (spifCountOutDrop + BitVec.ofNat 32 k) 0

/-- `spiNNlink` delivers the packet unmodified, marked as a configuration packet
and as one with a payload. -/
structure Delivered (m : McPacket) (p : Packet) : Prop where
  cfg : p.cfg = true
  lng : p.lng = true
  key : p.key = m.key
  pld : some p.pld = m.payload

def McPacket.deliver (m : McPacket) : Packet := .mk (m.payload.getD 0) m.key 0b00010010

theorem delivered_deliver {m : McPacket} (h : m.payload.isSome) : Delivered m m.deliver where
  cfg := by simp [McPacket.deliver]
  lng := by simp [McPacket.deliver]
  key := by simp [McPacket.deliver]
  pld := by
    obtain ⟨v, hv⟩ := Option.isSome_iff_exists.mp h
    simp [McPacket.deliver, hv]

/-! ## The registers in use

The slices that `dvs_on_hssl_top` connects to the assembler of each pipe. -/

variable {P : ℕ}

theorem mpIndex_lt (pipe : Fin P) (k : Fin PktAssembler.numMpRegsPipe) :
    4 * pipe.val + k.val < numMpRegs P := by
  have hk : k.val < 4 := k.isLt
  change 4 * pipe.val + k.val < 4 * P
  omega

theorem flIndex_lt (pipe : Fin P) (k : Fin PktAssembler.numFlRegsPipe) :
    8 * pipe.val + k.val < numFlRegs P := by
  have hk : k.val < 8 := k.isLt
  change 8 * pipe.val + k.val < 8 * P
  omega

def mpIndex (pipe : Fin P) (k : Fin PktAssembler.numMpRegsPipe) : Fin (numMpRegs P) :=
  ⟨4 * pipe + k, mpIndex_lt pipe k⟩

def flIndex (pipe : Fin P) (k : Fin PktAssembler.numFlRegsPipe) : Fin (numFlRegs P) :=
  ⟨8 * pipe + k, flIndex_lt pipe k⟩

def evtPipe (c : Regs P) (pipe : Fin P) : PktAssembler.Config where
  flValIn := fun k ↦ c (.flVal (flIndex pipe k))
  flMskIn := fun k ↦ c (.flMsk (flIndex pipe k))
  mpKeyIn := c (.mpKey pipe)
  mpFldMskIn := fun k ↦ c (.mpFmsk (mpIndex pipe k))
  mpFldSftIn := fun k ↦ c (.mpFsft (mpIndex pipe k))
  mpFldLmtIn := fun k ↦ c (.mpFlmt (mpIndex pipe k))

/-! ## The setters -/

/-- A setter with indices in range; the hardware has two pipes. -/
inductive Setter where
  | routingKey (entry : Fin 16)
  | routingMask (entry : Fin 16)
  | routingRoute (entry : Fin 16)
  | inputDropWait
  | mapperKey (pipe : Fin 2)
  | mapperFieldMask (pipe : Fin 2) (field : Fin 4)
  | mapperFieldShift (pipe : Fin 2) (field : Fin 4)
  | mapperFieldLimit (pipe : Fin 2) (field : Fin 4)
  | filterValue (pipe : Fin 2) (filter : Fin 8)
  | filterMask (pipe : Fin 2) (filter : Fin 8)
  | counter (k : Fin numDcRegs)
deriving DecidableEq, Repr

namespace Setter

def uint {n : ℕ} (k : Fin n) : Word := BitVec.ofNat 32 k

/-- The packet sent to set the value `v`; counters are reset whatever `v` is. -/
def packet (v : Word) : Setter → McPacket
  | routingKey e => spifSetRoutingKey (uint e) v
  | routingMask e => spifSetRoutingMask (uint e) v
  | routingRoute e => spifSetRoutingRoute (uint e) v
  | inputDropWait => spifSetInputDropWait v
  | mapperKey p => spifSetMapperKey (uint p) v
  | mapperFieldMask p f => spifSetMapperFieldMask (uint p) (uint f) v
  | mapperFieldShift p f => spifSetMapperFieldShift (uint p) (uint f) v
  | mapperFieldLimit p f => spifSetMapperFieldLimit (uint p) (uint f) v
  | filterValue p f => spifSetFilterValue (uint p) (uint f) v
  | filterMask p f => spifSetFilterMask (uint p) (uint f) v
  | counter k => spifResetCounters.get (k.cast (by simp [spifResetCounters, spifDcRegsNum]))

def names : Setter → Option (Reg 2)
  | routingKey e => some (.rtKey e)
  | routingMask e => some (.rtMask e)
  | routingRoute e => some (.rtRoute e)
  | inputDropWait => some (.hssl 3)
  | mapperKey p => some (.mpKey p)
  | mapperFieldMask p f => some (.mpFmsk (mpIndex p f))
  | mapperFieldShift p f => some (.mpFsft (mpIndex p f))
  | mapperFieldLimit p f => some (.mpFlmt (mpIndex p f))
  | filterValue p f => some (.flVal (flIndex p f))
  | filterMask p f => some (.flMsk (flIndex p f))
  | counter _ => none

/-- What the router, the assembler of the pipe or the counter now works with is
the value set, truncated to the width of the register. -/
def InUse (v : Word) (s : State 2) : Setter → Prop
  | routingKey e => s.regs (.rtKey e) = v
  | routingMask e => s.regs (.rtMask e) = v
  | routingRoute e => s.regs (.rtRoute e) = v.setWidth 3
  | inputDropWait => s.regs (.hssl 3) = v
  | mapperKey p => (evtPipe s.regs p).mpKeyIn = v
  | mapperFieldMask p f => (evtPipe s.regs p).mpFldMskIn f = v
  | mapperFieldShift p f => (evtPipe s.regs p).mpFldSftIn f = v.setWidth 6
  | mapperFieldLimit p f => (evtPipe s.regs p).mpFldLmtIn f = v
  | filterValue p f => (evtPipe s.regs p).flValIn f = v
  | filterMask p f => (evtPipe s.regs p).flMskIn f = v
  | counter k => s.regCtrOut k = 0

/-- The setter configures the register it names, and no other. -/
def Configures (v : Word) (s s' : State 2) (st : Setter) : Prop :=
  st.InUse v s' ∧ ∀ r, st.names ≠ some r → s'.regs r = s.regs r

def addressed : Setter → Option (Reg 2)
  | mapperFieldLimit p f => some (.mpFmsk (mpIndex p f))
  | st => st.names

/-- The limit setter writes the field mask; it only does what it should where
the limit and the mask both hold the value already. -/
def LimitHarmless (v : Word) (c : Regs 2) : Setter → Prop
  | mapperFieldLimit p f => c (.mpFlmt (mpIndex p f)) = v ∧ c (.mpFmsk (mpIndex p f)) = v
  | _ => True

/-- A soft reset pre-empts the packet; it only does what the setter should
where the value is the default and the other registers hold theirs already. -/
def ResetHarmless (v : Word) (c : Regs 2) (st : Setter) : Prop :=
  (∀ r, st.names = some r → defaults c r = v.setWidth r.width) ∧
    ∀ r, st.names ≠ some r → defaults c r = c r

def Unhindered {A : ℕ} (v : Word) (c : Regs 2) (i : Input A) (st : Setter) : Prop :=
  if apbWrite i && (apbReq i).isSoftReset then st.ResetHarmless v c else st.LimitHarmless v c

theorem key_packet (v : Word) (st : Setter) : (st.packet v).key = (st.packet 0).key := by
  cases st <;> rfl

theorem target_packet (v : Word) (st : Setter) :
    target 2 ((st.packet v).key.extractLsb' 4 4) ((st.packet v).key.extractLsb' 0 4) =
      st.addressed := by
  rw [key_packet]
  cases st with
  | inputDropWait => decide
  | mapperKey p => revert p; decide
  | counter k => revert k; decide
  | routingKey e | routingMask e | routingRoute e => revert e; decide
  | mapperFieldMask p f | mapperFieldShift p f | mapperFieldLimit p f | filterValue p f
  | filterMask p f => revert p f; decide

theorem addressed_ne_softRes (st : Setter) : st.addressed ≠ some (.hssl 1) := by
  cases st <;> simp [addressed, names, numIfRegs]

theorem inUse_iff {v : Word} {s : State 2} {st : Setter} (hst : ∀ k, st ≠ counter k) :
    st.InUse v s ↔ ∀ r, st.names = some r → s.regs r = v.setWidth r.width := by
  cases st with
  | counter k => exact absurd rfl (hst k)
  | _ => simp [InUse, names, evtPipe]

section Delivery

variable {A : ℕ} {s : State 2} {i : Input A} {v : Word} {p : Packet} {st : Setter}

theorem target_present (hp : Delivered (st.packet v) p) :
    (prxReq (present p true i)).target 2 = st.addressed := by
  rw [← target_packet v st]
  simp [Write.target, prxReq, prxSec, prxReg, present, prxAddrOut, hp.key]

theorem not_isSoftReset_present (hp : Delivered (st.packet v) p) :
    (prxReq (present p true i)).isSoftReset = false := by
  rw [Bool.eq_false_iff]
  intro hreset
  exact st.addressed_ne_softRes (target_present (i := i) hp ▸ target_of_isSoftReset hreset)

theorem prxEnIn_present (hp : Delivered (st.packet v) p) :
    (present p true i).prxEnIn = true := by
  simp [present, prxEnOut, pldPst, hp.lng]

theorem regsNext_present (hp : Delivered (st.packet v) p) :
    regsNext s (present p true i) =
      if apbWrite i && (apbReq i).isSoftReset then defaults s.regs
      else writeReg s.regs (prxReq (present p true i)) := by
  have hen := prxEnIn_present (i := i) hp
  have hres := not_isSoftReset_present (i := i) hp
  simp only [regsNext, isSoftReset, hen, hres, Bool.and_false, Bool.false_or, if_true]
  rfl

theorem prxSec_counter (v : Word) (k : Fin numDcRegs) :
    ((counter k).packet v).key.extractLsb' 4 4 = 4 ∧
      (((counter k).packet v).key.extractLsb' 0 4).toNat = k := by
  rw [key_packet]
  revert k
  decide

theorem regCtrOutNext_present {k : Fin numDcRegs} (hp : Delivered ((counter k).packet v) p) :
    regCtrOutNext s (present p true i) k = 0 := by
  obtain ⟨hsec, hreg⟩ := prxSec_counter v k
  have hhit : ((present p true i).prxEnIn && prxSec (present p true i) == 4 &&
      (prxReg (present p true i)).toNat == k) = true := by
    simp [prxSec, prxReg, present, prxAddrOut, prxEnOut, pldPst, hp.lng, hp.key, hsec, hreg]
  have hpld : p.pld = 0 := by
    simpa [packet, spifResetCounters, sendConfig] using hp.pld
  rw [regCtrOutNext, hhit]
  exact hpld

theorem prxWdataIn_present (hst : ∀ k, st ≠ counter k) (hp : Delivered (st.packet v) p) :
    (prxReq (present p true i)).data = v := by
  have hpld : some p.pld = some v := by
    rw [hp.pld]
    cases st with
    | counter k => exact absurd rfl (hst k)
    | _ => rfl
  simpa [prxReq, present, prxWdataOut] using hpld

theorem writeReg_configures {c : Regs 2} {w : Write} (ht : w.target 2 = st.names) :
    (∀ r, st.names = some r → writeReg c w r = w.data.setWidth r.width) ∧
      ∀ r, st.names ≠ some r → writeReg c w r = c r := by
  constructor
  · intro r hr
    rw [writeReg_of_some (ht.trans hr), Function.update_self]
  · intro r hr
    exact writeReg_apply_of_ne (ht ▸ hr)

/-- Only the limit setter goes astray: the mask it writes must hold the value
already, and so must the limit it does not write. -/
theorem writeReg_configures_iff {c : Regs 2} {w : Write} (hw : (∀ k, st ≠ counter k) → w.data = v)
    (ht : w.target 2 = st.addressed) :
    ((∀ r, st.names = some r → writeReg c w r = v.setWidth r.width) ∧
        ∀ r, st.names ≠ some r → writeReg c w r = c r) ↔ st.LimitHarmless v c := by
  cases st with
  | mapperFieldLimit p f =>
      have hmsk : w.target 2 = some (.mpFmsk (mpIndex p f)) := ht
      have hdata : w.data = v := hw (by simp)
      have hlmt : writeReg c w (.mpFlmt (mpIndex p f)) = c (.mpFlmt (mpIndex p f)) :=
        writeReg_apply_of_ne (by simp [hmsk])
      constructor
      · rintro ⟨hnamed, hother⟩
        have hkept := hother (.mpFmsk (mpIndex p f)) (by simp [names])
        rw [writeReg_of_some hmsk, Function.update_self, hdata] at hkept
        exact ⟨hlmt ▸ by simpa using hnamed _ rfl, by simpa using hkept.symm⟩
      · rintro ⟨hl, hm⟩
        have hsame : writeReg c w = c := writeReg_eq_self hmsk (by simpa [hdata] using hm)
        rw [hsame]
        refine ⟨?_, fun _ _ ↦ rfl⟩
        rintro r ⟨⟩
        simpa using hl
  | counter k =>
      have hnone : w.target 2 = (counter k).names := ht
      refine iff_of_true ⟨?_, (writeReg_configures hnone).2⟩ trivial
      rintro r ⟨⟩
  | _ =>
      rw [← hw (by simp)]
      exact iff_of_true (writeReg_configures ht) trivial

end Delivery

/-- A delivered setter configures the register it names, and no other, exactly
if it is not the limit setter, or one whose value the limit and the mask hold
already; an APB reset in the same cycle must be one that nothing shows of. -/
theorem configures_iff_unhindered {A : ℕ} (q : Params) (s : State 2) (i : Input A) (v : Word)
    {p : Packet} {st : Setter} (hp : Delivered (st.packet v) p) :
    st.Configures v s (next q s (present p true i)) ↔ st.Unhindered v s.regs i := by
  have huse : st.InUse v (next q s (present p true i)) ↔
      ∀ r, st.names = some r →
        regsNext s (present p true i) r = v.setWidth r.width := by
    by_cases hst : ∃ k, st = counter k
    · obtain ⟨k, rfl⟩ := hst
      apply iff_of_true (regCtrOutNext_present hp)
      rintro r ⟨⟩
    · exact inUse_iff (by simpa using hst)
  rw [Configures, huse, next, regsNext_present hp, Unhindered]
  split
  · rfl
  · exact writeReg_configures_iff (fun hst ↦ prxWdataIn_present hst hp) (target_present hp)

def resetBank : State 2 := reset ⟨fun _ ↦ 0, fun _ ↦ 0, false, 0⟩

def idle : Input 32 :=
  ⟨false, false, false, 0, 0, 0, 0, false, fun _ ↦ false, false, false, 0⟩

theorem configures_mapperFieldShift_resetBank :
    (mapperFieldShift 1 2).Configures 0xfffffffc resetBank
      (next ⟨0, 1, 1⟩ resetBank
        (present ((mapperFieldShift 1 2).packet 0xfffffffc).deliver true idle)) :=
  (configures_iff_unhindered ⟨0, 1, 1⟩ resetBank idle 0xfffffffc
    (delivered_deliver rfl)).mpr trivial

theorem not_configures_mapperFieldLimit_resetBank :
    ¬ ∀ (s : State 2) (st : Setter) (v : Word) (p : Packet), Delivered (st.packet v) p →
      st.Configures v s (next ⟨0, 1, 1⟩ s (present p true idle)) := by
  intro h
  have hset := h resetBank (mapperFieldLimit 0 0) 5 _ (delivered_deliver rfl)
  have hlmt : regsNext resetBank (present ((mapperFieldLimit 0 0).packet 5).deliver true idle)
      (.mpFlmt 0) = 5#32 := hset.1
  exact absurd hlmt (by decide +kernel)

end Setter

end Spif.SpifLocal
