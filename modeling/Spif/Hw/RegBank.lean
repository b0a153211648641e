import Mathlib.Data.Fintype.Basic
import Mathlib.Logic.Function.Basic
import Mathlib.Tactic.FinCases
import Spif.Hw.Packet

/-!
# The register bank

`hssl_reg_bank` holds the configuration registers and the diagnostic counters.
It is written through two ports, the APB and configuration packets, and read
through the APB.  Addresses are a section and a register number of four bits
each; the number of pipes `P` is the parameter `HW_NUM_PIPES`.
-/

namespace Spif.RegBank

abbrev numIfRegs : ℕ := 7
abbrev numRtRegs : ℕ := 16
abbrev numDcRegs : ℕ := 5
abbrev numMpRegs (P : ℕ) : ℕ := 4 * P
abbrev numFlRegs (P : ℕ) : ℕ := 8 * P
abbrev numDsRegs : ℕ := 6

instance : NeZero numIfRegs := ⟨by decide⟩

def badReg : Word := 0xdeadbeef

/-- The configuration registers, one constructor for each register array. -/
inductive Reg (P : ℕ) where
  | hssl (k : Fin numIfRegs)
  | rtKey (k : Fin numRtRegs)
  | rtMask (k : Fin numRtRegs)
  | rtRoute (k : Fin numRtRegs)
  | mpKey (k : Fin P)
  | mpFmsk (k : Fin (numMpRegs P))
  | mpFsft (k : Fin (numMpRegs P))
  | mpFlmt (k : Fin (numMpRegs P))
  | flVal (k : Fin (numFlRegs P))
  | flMsk (k : Fin (numFlRegs P))
  | dsKey (k : Fin numDsRegs)
  | dsMsk (k : Fin numDsRegs)
  | dsSft (k : Fin numDsRegs)
deriving DecidableEq, Repr

variable {P : ℕ}

/-- `` `RTRTE_BITS``, `` `MPSFT_BITS``, `` `DSSFT_BITS``, or a full word. -/
abbrev Reg.width : Reg P → ℕ
  | .rtRoute _ => 3
  | .mpFsft _ => 6
  | .dsSft _ => 5
  | _ => 32

abbrev Regs (P : ℕ) := (r : Reg P) → BitVec r.width

structure Write where
  sec : BitVec 4
  reg : BitVec 4
  data : Word
deriving DecidableEq, Repr

def Write.isSoftReset (w : Write) : Bool := w.sec == 0 && w.reg == 1

/-- An index into an array of `n` registers; an index out of range selects none. -/
def index (n : ℕ) (reg : BitVec 4) : Option (Fin n) :=
  if h : reg.toNat < n then some ⟨reg.toNat, h⟩ else none

/-- The register selected by the `case` on the section, which is the same for
packet writes and for APB writes.  Writes beyond an array's end are lost, and
the counters in section 4 are not among the configuration registers. -/
def target (P : ℕ) (sec reg : BitVec 4) : Option (Reg P) :=
  match sec.toNat with
  | 0 => (index numIfRegs reg).map .hssl
  | 1 => (index numRtRegs reg).map .rtKey
  | 2 => (index numRtRegs reg).map .rtMask
  | 3 => (index numRtRegs reg).map .rtRoute
  | 5 => (index P reg).map .mpKey
  | 6 => (index (numMpRegs P) reg).map .mpFmsk
  | 7 => (index (numMpRegs P) reg).map .mpFsft
  | 8 => (index (numMpRegs P) reg).map .mpFlmt
  | 9 => (index (numFlRegs P) reg).map .flVal
  | 11 => (index (numFlRegs P) reg).map .flMsk
  | 13 => (index numDsRegs reg).map .dsKey
  | 14 => (index numDsRegs reg).map .dsMsk
  | 15 => (index numDsRegs reg).map .dsSft
  | _ => none

def Write.target (P : ℕ) (w : Write) : Option (Reg P) := RegBank.target P w.sec w.reg

/-- A register write of the `case` statements, truncated to the register. -/
def writeReg (c : Regs P) (w : Write) : Regs P :=
  match w.target P with
  | some r => Function.update c r (w.data.setWidth r.width)
  | none => c

/-- The `*_DEF` values.  The slot of `SOFT_RES_REG` is not a real register and
keeps what it holds. -/
def defaults (c : Regs P) : Regs P
  | .hssl k =>
      match k.val with
      | 0 => 0#32
      | 1 => c (.hssl k)
      | 2 => 0xfffffd00#32
      | 3 => 32#32
      | 4 => 0#32
      | 5 => 1000#32
      | _ => 256#32
  | .rtKey _ => 0xffffffff#32
  | .rtMask _ => 0#32
  | .rtRoute _ => 0#3
  | .mpKey _ => 0#32
  | .mpFmsk _ => 0#32
  | .mpFsft _ => 0#6
  | .mpFlmt _ => 0xffffffff#32
  | .flVal _ => 0xffffffff#32
  | .flMsk _ => 0#32
  | .dsKey _ => 0#32
  | .dsMsk _ => 0xffffffff#32
  | .dsSft _ => 0#5

structure Params where
  hwVersion : BitVec 24
  hwNumOutps : BitVec 4
  targetFpga : BitVec 2

structure State (P : ℕ) where
  regs : Regs P
  regCtrOut : Fin numDcRegs → Word
  apbPreadyOut : Bool
  apbPrdataOut : Word

structure Input (A : ℕ) where
  apbPselIn : Bool
  apbPenableIn : Bool
  apbPwriteIn : Bool
  apbPaddrIn : BitVec A
  apbPwdataIn : Word
  prxAddrIn : BitVec 8
  prxWdataIn : Word
  prxEnIn : Bool
  ctrCntIn : Fin numDcRegs → Bool
  hsCompleteIn : Bool
  hsMismatchIn : Bool
  idsiIn : BitVec 16

variable {A : ℕ}

def reset (s : State P) : State P :=
  { s with
    regs := defaults s.regs
    regCtrOut := fun _ ↦ 0
    apbPreadyOut := false }

section Ports

variable (i : Input A)

def apbRead : Bool := i.apbPselIn && !i.apbPwriteIn
def apbWrite : Bool := i.apbPselIn && i.apbPwriteIn
/-- APB addresses are byte addresses. -/
def apbSec : BitVec 4 := i.apbPaddrIn.extractLsb' 6 4
def apbReg : BitVec 4 := i.apbPaddrIn.extractLsb' 2 4

def prxSec : BitVec 4 := i.prxAddrIn.extractLsb' 4 4
def prxReg : BitVec 4 := i.prxAddrIn.extractLsb' 0 4

def prxReq : Write := ⟨prxSec i, prxReg i, i.prxWdataIn⟩

def apbReq : Write := ⟨apbSec i, apbReg i, i.apbPwdataIn⟩

def regWrCflt : Bool := apbRead i && i.prxEnIn

def isSoftReset : Bool :=
  (i.prxEnIn && (prxReq i).isSoftReset) || (apbWrite i && (apbReq i).isSoftReset)

end Ports

section Registers

variable (q : Params) (s : State P) (i : Input A)

def regCtrOutNext (k : Fin numDcRegs) : Word :=
  match i.prxEnIn && prxSec i == 4 && (prxReg i).toNat == k,
    apbWrite i && apbSec i == 4 && (apbReg i).toNat == k, i.ctrCntIn k with
  | true, _, _ => i.prxWdataIn
  | false, true, _ => i.apbPwdataIn
  | false, false, true => s.regCtrOut k + 1
  | _, _, _ => s.regCtrOut k

/-- packet writes have priority -/
def regsNext : Regs P :=
  if isSoftReset i then defaults s.regs
  else if i.prxEnIn then writeReg s.regs (prxReq i)
  else if apbWrite i then writeReg s.regs (apbReq i)
  else s.regs

/-- A register as it appears on the APB: shifts of the mapper are sign-extended,
the other short registers zero-extended. -/
def readReg (c : Regs P) : Reg P → Word
  | .mpFsft k => (c (.mpFsft k)).signExtend 32
  | r => (c r).setWidth 32

/-- The word an APB read samples.  Registers that do not exist read `BAD_REG`. -/
def apbSample : Word :=
  if apbSec i == 0 && apbReg i == 14 then
    0x5ec#12 ++ q.targetFpga ++ BitVec.ofBool i.hsMismatchIn ++
      BitVec.ofBool i.hsCompleteIn ++ i.idsiIn
  else if apbSec i == 0 && apbReg i == 15 then
    q.hwNumOutps ++ BitVec.ofNat 4 P ++ q.hwVersion
  else if apbSec i == 4 then
    match index numDcRegs (apbReg i) with
    | some k => s.regCtrOut k
    | none => badReg
  else
    match target P (apbSec i) (apbReg i) with
    | some r => readReg s.regs r
    | none => badReg

def next : State P where
  regs := regsNext s i
  regCtrOut := regCtrOutNext s i
  apbPreadyOut := !regWrCflt i
  apbPrdataOut := if apbRead i then apbSample q s i else s.apbPrdataOut

end Registers

/-! ## Writes -/

@[simp] theorem writeReg_of_none {c : Regs P} {w : Write} (h : w.target P = none) :
    writeReg c w = c := by
  simp [writeReg, h]

theorem writeReg_of_some {c : Regs P} {w : Write} {r : Reg P} (h : w.target P = some r) :
    writeReg c w = Function.update c r (w.data.setWidth r.width) := by
  simp [writeReg, h]

theorem writeReg_apply_of_ne {c : Regs P} {w : Write} {r : Reg P}
    (h : w.target P ≠ some r) : writeReg c w r = c r := by
  cases ht : w.target P with
  | none => rw [writeReg_of_none ht]
  | some r' =>
      have hne : r ≠ r' := by
        rintro rfl
        exact h ht
      rw [writeReg_of_some ht, Function.update_of_ne hne]

theorem writeReg_eq_self {c : Regs P} {w : Write} {r : Reg P} (ht : w.target P = some r)
    (hr : c r = w.data.setWidth r.width) : writeReg c w = c := by
  rw [writeReg_of_some ht, ← hr, Function.update_eq_self]

theorem writeReg_idem (c : Regs P) (w : Write) :
    writeReg (writeReg c w) w = writeReg c w := by
  cases ht : w.target P with
  | none => simp [ht]
  | some r => simp [writeReg_of_some ht]

theorem writeReg_writeReg_of_eq (c : Regs P) {w w' : Write} (h : w.target P = w'.target P) :
    writeReg (writeReg c w) w' = writeReg c w' := by
  cases ht : w.target P with
  | none => rw [writeReg_of_none ht]
  | some r =>
      rw [writeReg_of_some ht, writeReg_of_some (h ▸ ht), writeReg_of_some (h ▸ ht),
        Function.update_idem]

theorem writeReg_comm (c : Regs P) {w w' : Write} (h : w.target P ≠ w'.target P) :
    writeReg (writeReg c w) w' = writeReg (writeReg c w') w := by
  cases ht : w.target P with
  | none => rw [writeReg_of_none ht, writeReg_of_none ht]
  | some r =>
      cases ht' : w'.target P with
      | none => rw [writeReg_of_none ht', writeReg_of_none ht']
      | some r' =>
          have hne : r ≠ r' := by
            rintro rfl
            exact h (ht.trans ht'.symm)
          simp only [writeReg_of_some ht, writeReg_of_some ht']
          exact Function.update_comm hne _ _ _

theorem index_eq_some {n : ℕ} {reg : BitVec 4} {k : Fin n} :
    index n reg = some k ↔ reg.toNat = k := by
  unfold index
  split
  · simp [Fin.ext_iff]
  · rename_i h
    simp only [reduceCtorEq, false_iff]
    have := k.isLt
    omega

theorem target_eq_hssl {w : Write} {k : Fin numIfRegs} (h : w.target P = some (.hssl k)) :
    w.sec = 0 ∧ w.reg.toNat = k := by
  simp only [Write.target, target] at h
  split at h <;> simp_all [index_eq_some]
  rename_i hsec
  exact BitVec.eq_of_toNat_eq (by simpa using hsec)

/-- Soft resets are writes to the slot of `SOFT_RES_REG`. -/
theorem target_of_isSoftReset {w : Write} (h : w.isSoftReset = true) :
    w.target P = some (.hssl 1) := by
  obtain ⟨hsec, hreg⟩ : w.sec = 0 ∧ w.reg = 1 := by simpa [Write.isSoftReset] using h
  rw [Write.target, hsec, hreg]
  rfl

/-- The slot of `SOFT_RES_REG` is never written. -/
theorem target_ne_softRes {w : Write} (h : w.isSoftReset = false) :
    w.target P ≠ some (.hssl 1) := by
  intro ht
  obtain ⟨hsec, hreg⟩ := target_eq_hssl ht
  have hone : w.reg = 1 := BitVec.eq_of_toNat_eq (by simpa using hreg)
  simp [Write.isSoftReset, hsec, hone] at h

theorem defaults_writeReg (c : Regs P) {w : Write} (h : w.isSoftReset = false) :
    defaults (writeReg c w) = defaults c := by
  have hslot : writeReg c w (.hssl 1) = c (.hssl 1) :=
    writeReg_apply_of_ne (target_ne_softRes h)
  funext r
  cases r with
  | hssl k => fin_cases k <;> first | rfl | exact hslot
  | _ => rfl

@[simp] theorem defaults_defaults (c : Regs P) : defaults (defaults c) = defaults c := by
  funext r
  cases r with
  | hssl k => fin_cases k <;> rfl
  | _ => rfl

end Spif.RegBank
