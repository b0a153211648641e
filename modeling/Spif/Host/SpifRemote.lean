import Spif.Hw.RegBank
import Spif.Lib.Clocked

/-!
# Register access through the driver

The user library asks the driver for a register with an `ioctl` request that
carries the register number in its size field.  The driver turns it into an
access to a word of the memory that the register bank occupies, which the bank
sees as an APB transfer.
-/

namespace Spif.SpifRemote

open RegBank Clocked

variable {P w : ℕ}

/-! ## Requests -/

def spifRegRd : Word := 0x69f0

def spifRegWr : Word := 0x69f1

def readReq (reg : Word) : Word := reg <<< 16 ||| spifRegRd

def writeReq (reg : Word) : Word := reg <<< 16 ||| spifRegWr

def locReq (req : Word) : Word := req &&& 0x0000ffff

def locReg (req : Word) : Word := (req &&& 0x00ff0000) >>> 16

/-- `&apb_regs[loc_reg]`, in the address window of the bank -/
def apbAddr (win : BitVec w) (reg : Word) : BitVec (w + 10) := win ++ (4 * reg).setWidth 10

/-! ## Bus cycles -/

/-- What the other ports of the bank show while no packet is written and no
counter is enabled. -/
structure Side where
  prxAddrIn : BitVec 8
  prxWdataIn : Word
  hsCompleteIn : Bool
  hsMismatchIn : Bool
  idsiIn : BitVec 16

def Side.cycle (x : Side) (penable pwrite : Bool) (paddr : BitVec (w + 10)) (pwdata : Word) :
    Input (w + 10) where
  apbPselIn := true
  apbPenableIn := penable
  apbPwriteIn := pwrite
  apbPaddrIn := paddr
  apbPwdataIn := pwdata
  prxAddrIn := x.prxAddrIn
  prxWdataIn := x.prxWdataIn
  prxEnIn := false
  ctrCntIn := fun _ ↦ false
  hsCompleteIn := x.hsCompleteIn
  hsMismatchIn := x.hsMismatchIn
  idsiIn := x.idsiIn

def Quiet (i : Input (w + 10)) : Prop :=
  i.apbPselIn = false ∧ i.prxEnIn = false ∧ ∀ k, i.ctrCntIn k = false

/-- A packet writes `v` to register number `a`, the APB being idle. -/
def Writes (i : Input (w + 10)) (a : BitVec 8) (v : Word) : Prop :=
  i.apbPselIn = false ∧ i.prxEnIn = true ∧ i.prxAddrIn = a ∧ i.prxWdataIn = v ∧
    ∀ k, i.ctrCntIn k = false

section Access

variable (q : Params) (s : State P) (win : BitVec w) (x y : Side)

/-- A setup cycle and an access cycle.  The transfer ends there if `pready` is
high, and the master takes what is on `prdata`. -/
def apbTransfer (pwrite : Bool) (paddr : BitVec (w + 10)) (pwdata : Word) :
    Option (State P × Word) :=
  let t := next q s (x.cycle false pwrite paddr pwdata)
  if t.apbPreadyOut then some (next q t (y.cycle true pwrite paddr pwdata), t.apbPrdataOut)
  else none

/-- The requests that access registers; a read request returns its data.  `arg`
is an `unsigned long`. -/
def spifIoctl (req : Word) (arg : BitVec 64) : Option (State P × Option Word) :=
  if locReq req = spifRegRd then
    (apbTransfer q s x y false (apbAddr win (locReg req)) 0).map fun (t, data) ↦ (t, some data)
  else if locReq req = spifRegWr then
    (apbTransfer q s x y true (apbAddr win (locReg req)) (arg.setWidth 32)).map
      fun (t, _) ↦ (t, none)
  else none

def spifReadReg (reg : Word) : Option (State P × Word) :=
  (spifIoctl q s win x y (readReq reg) 0).bind fun (t, data) ↦ data.map fun d ↦ (t, d)

def spifWriteReg (reg val : Word) : Option (State P) :=
  (spifIoctl q s win x y (writeReq reg) (val.signExtend 64)).map Prod.fst

end Access

/-! ## Addresses -/

theorem locReq_readReq : ∀ a : BitVec 8, locReq (readReq (a.setWidth 32)) = spifRegRd := by
  decide +kernel

theorem locReq_writeReq : ∀ a : BitVec 8, locReq (writeReq (a.setWidth 32)) = spifRegWr := by
  decide +kernel

theorem locReg_readReq : ∀ a : BitVec 8, locReg (readReq (a.setWidth 32)) = a.setWidth 32 := by
  decide +kernel

theorem locReg_writeReq : ∀ a : BitVec 8, locReg (writeReq (a.setWidth 32)) = a.setWidth 32 := by
  decide +kernel

theorem offset_eq : ∀ a : BitVec 8, (4 * a.setWidth 32 : Word).setWidth 10 = a ++ 0#2 := by
  decide +kernel

/-- Bits 2 to 9 of an address in the window are the register number. -/
theorem extractLsb'_apbAddr (win : BitVec w) (a : BitVec 8) {k n : ℕ} (h : k + n ≤ 8) :
    (apbAddr win (a.setWidth 32)).extractLsb' (2 + k) n = a.extractLsb' k n := by
  apply BitVec.eq_of_getLsbD_eq
  intro i hi
  have hlow : 2 + k + i < 10 := by omega
  have hsub : 2 + k + i - 2 = k + i := by omega
  rw [apbAddr, offset_eq, BitVec.getLsbD_extractLsb', BitVec.getLsbD_extractLsb',
    BitVec.getLsbD_append, if_pos hlow, BitVec.getLsbD_append, if_neg (by omega), hsub]

def numbered (P : ℕ) (a : BitVec 8) : Option (Reg P) :=
  target P (a.extractLsb' 4 4) (a.extractLsb' 0 4)

def toNumber (a : BitVec 8) (v : Word) : Write := ⟨a.extractLsb' 4 4, a.extractLsb' 0 4, v⟩

/-- The bank after a write to a number other than that of the soft reset. -/
def wrote (s : State P) (r : Write) : State P where
  regs := writeReg s.regs r
  regCtrOut := fun k ↦ if r.sec = 4 ∧ r.reg.toNat = k then r.data else s.regCtrOut k
  apbPreadyOut := true
  apbPrdataOut := s.apbPrdataOut

theorem isSoftReset_toNumber {a : BitVec 8} (ha : a ≠ 1) (v : Word) :
    (toNumber a v).isSoftReset = false := by
  have hall : ∀ a : BitVec 8, a ≠ 1 →
      (a.extractLsb' 4 4 == 0 && a.extractLsb' 0 4 == 1) = false := by
    decide +kernel
  exact hall a ha

theorem regCtrOutNext_of_pkt {s : State P} {i : Input (w + 10)} (hsel : i.apbPselIn = false)
    (hen : i.prxEnIn = true) (hctr : ∀ k, i.ctrCntIn k = false) (k : Fin numDcRegs) :
    regCtrOutNext s i k = (wrote s (prxReq i)).regCtrOut k := by
  by_cases hk : prxSec i = 4 ∧ (prxReg i).toNat = k
  · simp [regCtrOutNext, wrote, prxReq, apbWrite, hsel, hen, hctr, hk]
  · have hne : (prxSec i == 4 && (prxReg i).toNat == ↑k) = false := by simpa using hk
    simp only [regCtrOutNext, apbWrite, hsel, hen, hctr, hne, Bool.true_and, Bool.false_and]
    exact (if_neg hk).symm

theorem regCtrOutNext_of_apb {s : State P} {i : Input (w + 10)} (hwr : apbWrite i = true)
    (hen : i.prxEnIn = false) (hctr : ∀ k, i.ctrCntIn k = false) (k : Fin numDcRegs) :
    regCtrOutNext s i k = (wrote s (apbReq i)).regCtrOut k := by
  by_cases hk : apbSec i = 4 ∧ (apbReg i).toNat = k
  · simp [regCtrOutNext, wrote, apbReq, hwr, hen, hctr, hk]
  · have hne : (apbSec i == 4 && (apbReg i).toNat == ↑k) = false := by simpa using hk
    simp only [regCtrOutNext, hwr, hen, hctr, hne, Bool.true_and, Bool.false_and]
    exact (if_neg hk).symm

theorem next_writes (q : Params) (s : State P) {i : Input (w + 10)} {a : BitVec 8} {v : Word}
    (ha : a ≠ 1) (hi : Writes i a v) : next q s i = wrote s (toNumber a v) := by
  obtain ⟨hsel, hen, haddr, hdata, hctr⟩ := hi
  have hreq : prxReq i = toNumber a v := by
    simp [prxReq, prxSec, prxReg, haddr, hdata, toNumber]
  have hsoft : isSoftReset i = false := by
    simp [isSoftReset, hreq, isSoftReset_toNumber ha, apbWrite, hsel]
  simp only [next, wrote, State.mk.injEq]
  refine ⟨?_, ?_, ?_, ?_⟩
  · simp [regsNext, hsoft, hen, hreq]
  · funext k
    rw [regCtrOutNext_of_pkt hsel hen hctr, hreq]
    rfl
  · simp [regWrCflt, apbRead, hsel]
  · simp [apbRead, hsel]

theorem apbReq_cycle (win : BitVec w) (x : Side) (penable pwrite : Bool) (a : BitVec 8)
    (v : Word) :
    apbReq (x.cycle penable pwrite (apbAddr win (a.setWidth 32)) v) = toNumber a v := by
  have hsec : (apbAddr win (a.setWidth 32)).extractLsb' 6 4 = a.extractLsb' 4 4 :=
    extractLsb'_apbAddr win a (k := 4) (by decide)
  have hreg : (apbAddr win (a.setWidth 32)).extractLsb' 2 4 = a.extractLsb' 0 4 :=
    extractLsb'_apbAddr win a (k := 0) (by decide)
  simp only [apbReq, apbSec, apbReg, Side.cycle, hsec, hreg, toNumber]

theorem next_write_cycle (q : Params) (s : State P) (win : BitVec w) (x : Side) {a : BitVec 8}
    (ha : a ≠ 1) (penable : Bool) (v : Word) :
    next q s (x.cycle penable true (apbAddr win (a.setWidth 32)) v) = wrote s (toNumber a v) := by
  have hreq := apbReq_cycle win x penable true a v
  have hwr : apbWrite (x.cycle penable true (apbAddr win (a.setWidth 32)) v) = true := rfl
  generalize hi : x.cycle penable true (apbAddr win (a.setWidth 32)) v = i at hreq hwr ⊢
  have hen : i.prxEnIn = false := by rw [← hi]; rfl
  have hrd : apbRead i = false := by rw [← hi]; rfl
  have hctr : ∀ k, i.ctrCntIn k = false := by rw [← hi]; exact fun _ ↦ rfl
  have hsoft : isSoftReset i = false := by
    simp [isSoftReset, hreq, isSoftReset_toNumber ha, hen]
  simp only [next, wrote, State.mk.injEq]
  refine ⟨?_, ?_, ?_, ?_⟩
  · simp [regsNext, hsoft, hen, hwr, hreq]
  · funext k
    rw [regCtrOutNext_of_apb hwr hen hctr, hreq]
    rfl
  · simp [regWrCflt, hrd]
  · simp [hrd]

theorem wrote_wrote (s : State P) (r : Write) : wrote (wrote s r) r = wrote s r := by
  simp only [wrote, State.mk.injEq, writeReg_idem, true_and, and_true]
  funext k
  split <;> rfl

theorem setWidth_signExtend (v : Word) : (v.signExtend 64).setWidth 32 = v := by
  apply BitVec.eq_of_getLsbD_eq
  intro i hi
  have hi' : i < 64 := by omega
  rw [BitVec.getLsbD_setWidth, BitVec.getLsbD_signExtend, if_pos hi]
  simp [hi, hi']

/-- The bank carries a write out in the setup cycle, and once more in the access cycle. -/
theorem spifWriteReg_eq (q : Params) (s : State P) (win : BitVec w) (x y : Side) {a : BitVec 8}
    (ha : a ≠ 1) (v : Word) :
    spifWriteReg q s win x y (a.setWidth 32) v = some (wrote s (toNumber a v)) := by
  simp only [spifWriteReg, spifIoctl, locReq_writeReq, if_true, locReg_writeReq,
    apbTransfer, setWidth_signExtend, next_write_cycle q _ win _ ha, wrote_wrote]
  rfl

/-! ## Reads -/

/-- What a read of number `b` returns, if that is a configuration register. -/
def contents (c : Regs P) (b : BitVec 8) : Word :=
  match numbered P b with
  | some r => readReg c r
  | none => badReg

/-- The soft-reset, status and version registers and the counters are special. -/
def Plain (b : BitVec 8) : Prop :=
  b ≠ 1 ∧ b ≠ 14 ∧ b ≠ 15 ∧ ¬ (64 ≤ b.toNat ∧ b.toNat < 64 + numDcRegs)

instance (b : BitVec 8) : Decidable (Plain b) := inferInstanceAs (Decidable (_ ∧ _))

theorem Plain.not_status {b : BitVec 8} (hb : Plain b) :
    (b.extractLsb' 4 4 == 0 && b.extractLsb' 0 4 == 14) = false ∧
      (b.extractLsb' 4 4 == 0 && b.extractLsb' 0 4 == 15) = false ∧
      (b.extractLsb' 4 4 = 4 → index numDcRegs (b.extractLsb' 0 4) = none) := by
  have hall : ∀ b : BitVec 8, Plain b →
      (b.extractLsb' 4 4 == 0 && b.extractLsb' 0 4 == 14) = false ∧
        (b.extractLsb' 4 4 == 0 && b.extractLsb' 0 4 == 15) = false ∧
        (b.extractLsb' 4 4 = 4 → index numDcRegs (b.extractLsb' 0 4) = none) := by
    decide +kernel
  exact hall b hb

theorem apbSample_eq_contents (q : Params) (s : State P) {i : Input (w + 10)} {b : BitVec 8}
    (hb : Plain b) (hsec : apbSec i = b.extractLsb' 4 4) (hreg : apbReg i = b.extractLsb' 0 4) :
    apbSample q s i = contents s.regs b := by
  obtain ⟨hstatus, hversion, hctr⟩ := hb.not_status
  unfold apbSample contents numbered
  rw [hsec, hreg, hstatus, hversion]
  simp only [Bool.false_eq_true, if_false]
  by_cases hfour : b.extractLsb' 4 4 = 4
  · have htarget : target P (b.extractLsb' 4 4) (b.extractLsb' 0 4) = none := by
      rw [hfour]
      rfl
    rw [hctr hfour, htarget, hfour]
    rfl
  · have hne : ¬ (b.extractLsb' 4 4 == 4) = true := by simpa using hfour
    exact if_neg hne

theorem spifReadReg_eq (q : Params) (s : State P) (win : BitVec w) (x y : Side) {b : BitVec 8}
    (hb : Plain b) :
    ∃ u, spifReadReg q s win x y (b.setWidth 32) = some (u, contents s.regs b) := by
  have hreq := apbReq_cycle win x false false b 0
  have hsample : apbSample q s (x.cycle false false (apbAddr win (b.setWidth 32)) 0) =
      contents s.regs b :=
    apbSample_eq_contents q s hb (congrArg Write.sec hreq) (congrArg Write.reg hreq)
  refine ⟨next q (next q s (x.cycle false false (apbAddr win (b.setWidth 32)) 0))
    (y.cycle true false (apbAddr win (b.setWidth 32)) 0), ?_⟩
  simp only [spifReadReg, spifIoctl, locReq_readReq, if_true, locReg_readReq, apbTransfer]
  rw [← hsample]
  rfl

theorem regs_run_quiet (q : Params) {s : State P} {idles : List (Input (w + 10))}
    (h : ∀ i ∈ idles, Quiet i) : (run (next q) s idles).regs = s.regs := by
  have hstep : ∀ (t : State P) (i : Input (w + 10)), t.regs = s.regs → Quiet i →
      (next q t i).regs = s.regs := by
    intro t i ht hi
    have hwr : apbWrite i = false := by simp [apbWrite, hi.1]
    simp [next, regsNext, isSoftReset, hwr, hi.2.1, ht]
  exact inv_run (I := fun t ↦ t.regs = s.regs) hstep rfl (along_of_forall_mem h s)

/-! ## A memory -/

def number : Reg P → ℕ
  | .hssl k => k
  | .rtKey k => 16 + k
  | .rtMask k => 32 + k
  | .rtRoute k => 48 + k
  | .mpKey k => 80 + k
  | .mpFmsk k => 96 + k
  | .mpFsft k => 112 + k
  | .mpFlmt k => 128 + k
  | .flVal k => 144 + k
  | .flMsk k => 176 + k
  | .dsKey k => 208 + k
  | .dsMsk k => 224 + k
  | .dsSft k => 240 + k

theorem number_of_target {sec reg : BitVec 4} {r : Reg P} (h : target P sec reg = some r) :
    number r = 16 * sec.toNat + reg.toNat := by
  unfold target at h
  split at h <;> rename_i hsec <;> first
    | cases h
    | (obtain ⟨k, hk, rfl⟩ := Option.map_eq_some_iff.mp h
       rw [hsec, index_eq_some.mp hk]
       simp [number])

theorem numbered_injective {a b : BitVec 8} {r : Reg P} (ha : numbered P a = some r)
    (hb : numbered P b = some r) : a = b := by
  have hnum := (number_of_target ha).symm.trans (number_of_target hb)
  have hsplit : ∀ c : BitVec 8, 16 * (c.extractLsb' 4 4).toNat + (c.extractLsb' 0 4).toNat =
      c.toNat := by
    decide +kernel
  rw [hsplit, hsplit] at hnum
  exact BitVec.eq_of_toNat_eq hnum

/-- A value cut to the width of a register and extended to a word again: mapper
shifts are signed. -/
def truncated : Reg P → Word → Word
  | .rtRoute _, v => (v.setWidth 3).setWidth 32
  | .mpFsft _, v => (v.setWidth 6).signExtend 32
  | .dsSft _, v => (v.setWidth 5).setWidth 32
  | _, v => v

theorem readReg_update (c : Regs P) (r : Reg P) (v : Word) :
    readReg (Function.update c r (v.setWidth r.width)) r = truncated r v := by
  cases r <;> simp [readReg, truncated, Function.update_self]

theorem contents_writeReg_self {c : Regs P} {a : BitVec 8} {r : Reg P} (v : Word)
    (ha : numbered P a = some r) : contents (writeReg c (toNumber a v)) a = truncated r v := by
  have htarget : (toNumber a v).target P = some r := ha
  rw [writeReg_of_some htarget]
  unfold contents
  rw [ha]
  exact readReg_update c r v

theorem readReg_congr {c d : Regs P} {r : Reg P} (h : c r = d r) : readReg c r = readReg d r := by
  cases r <;> simp [readReg, h]

theorem contents_writeReg_of_ne {c : Regs P} {a b : BitVec 8} (v : Word) (h : b ≠ a) :
    contents (writeReg c (toNumber a v)) b = contents c b := by
  unfold contents
  cases hb : numbered P b with
  | none => rfl
  | some r => exact readReg_congr (writeReg_apply_of_ne fun ha ↦ h (numbered_injective hb ha))

structure ReadsAs (q : Params) (s : State P) (win : BitVec w) (a : BitVec 8) (v : Word)
    (b : BitVec 8) (d : Word) : Prop where
  written : ∀ r, b = a → numbered P b = some r → d = truncated r v
  kept : b ≠ a → ∀ x y, ∃ u, spifReadReg q s win x y (b.setWidth 32) = some (u, d)
  bad : numbered P b = none → d = badReg

def Unwritable (P : ℕ) (a : BitVec 8) : Prop :=
  numbered P a = none ∧ ¬ (64 ≤ a.toNat ∧ a.toNat < 64 + numDcRegs)

theorem wrote_of_unwritable {s : State P} {a : BitVec 8} (ha : Unwritable P a) (v : Word) :
    (wrote s (toNumber a v)).regs = s.regs ∧
      (wrote s (toNumber a v)).regCtrOut = s.regCtrOut := by
  refine ⟨writeReg_of_none ha.1, ?_⟩
  funext k
  have hall : ∀ a : BitVec 8, ¬ (64 ≤ a.toNat ∧ a.toNat < 64 + numDcRegs) → ∀ k : Fin numDcRegs,
      ¬ (a.extractLsb' 4 4 = 4 ∧ (a.extractLsb' 0 4).toNat = k) := by
    decide +kernel
  exact if_neg (hall a ha.2 k)

/-- Through the driver the register file behaves as a memory, and a packet
writes it like the driver. -/
theorem spifWriteReg_memory (q : Params) (s : State P) (win : BitVec w) (x y : Side)
    {a : BitVec 8} (ha : a ≠ 1) (v : Word) :
    ∃ t, spifWriteReg q s win x y (a.setWidth 32) v = some t ∧
      (∀ idles : List (Input (w + 10)), (∀ i ∈ idles, Quiet i) → ∀ x' y' b, Plain b →
        ∃ u d, spifReadReg q (run (next q) t idles) win x' y' (b.setWidth 32) = some (u, d) ∧
          ReadsAs q s win a v b d) ∧
      (Unwritable P a → t.regs = s.regs ∧ t.regCtrOut = s.regCtrOut) ∧
      ∀ i : Input (w + 10), Writes i a v → next q s i = t := by
  refine ⟨_, spifWriteReg_eq q s win x y ha v, ?_, fun hun ↦ wrote_of_unwritable hun v,
    fun i hi ↦ next_writes q s ha hi⟩
  intro idles hidles x' y' b hb
  obtain ⟨u, hu⟩ := spifReadReg_eq q (run (next q) (wrote s (toNumber a v)) idles) win x' y' hb
  rw [regs_run_quiet q hidles] at hu
  refine ⟨u, _, hu, fun r hba hr ↦ ?_, fun hba x y ↦ ?_, fun hnone ↦ ?_⟩
  · subst hba
    exact contents_writeReg_self v hr
  · obtain ⟨u', hu'⟩ := spifReadReg_eq q s win x y hb
    exact ⟨u', by rw [hu', ← contents_writeReg_of_ne v hba]; rfl⟩
  · rw [contents, hnone]

def resetBank : State 1 := reset ⟨fun _ ↦ 0, fun _ ↦ 0, false, 0⟩

def idsi : Side := ⟨0, 0, true, false, 0x1234⟩

/-- The shift of mapper field 0, in the address window of the device tree. -/
theorem spifWriteReg_memory_mapperShift :
    ∃ t, spifWriteReg ⟨0, 1, 1⟩ resetBank 0x10f080#22 idsi idsi ((112 : BitVec 8).setWidth 32)
        0xfffffff8 = some t ∧
      (∀ idles : List (Input (22 + 10)), (∀ i ∈ idles, Quiet i) → ∀ x' y' b, Plain b →
        ∃ u d, spifReadReg ⟨0, 1, 1⟩ (run (next ⟨0, 1, 1⟩) t idles) 0x10f080#22 x' y'
            (b.setWidth 32) = some (u, d) ∧
          ReadsAs ⟨0, 1, 1⟩ resetBank 0x10f080#22 112 0xfffffff8 b d) ∧
      (Unwritable 1 112 → t.regs = resetBank.regs ∧ t.regCtrOut = resetBank.regCtrOut) ∧
      ∀ i : Input (22 + 10), Writes i 112 0xfffffff8 → next ⟨0, 1, 1⟩ resetBank i = t :=
  spifWriteReg_memory ⟨0, 1, 1⟩ resetBank 0x10f080#22 idsi idsi (by decide) 0xfffffff8

end Spif.SpifRemote
