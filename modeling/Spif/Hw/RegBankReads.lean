import Spif.Hw.RegBankPorts

/-!
# Reading the register bank

The read data and `pready` of the APB are registers: what a read returns was
sampled one cycle earlier.  The conflict detector takes `pready` away after
every cycle in which a packet writes while the APB reads.
-/

namespace Spif.RegBank

open Clocked

variable {P A : ℕ}

/-- `psel`, `penable` and `pready` are high, and `pwrite` is low. -/
def readDone (x : Bus P A) (i : Input A) : Bool :=
  apbRead i && i.apbPenableIn && x.bank.apbPreadyOut

/-- A read that completes returns what the register holds in this cycle. -/
def Fresh (x : Bus P A) (i : Input A) : Prop :=
  readDone x i = true → ∀ r ∈ target P (apbSec i) (apbReg i),
    x.bank.apbPrdataOut = readReg x.bank.regs r

theorem target_status (P : ℕ) : target P 0 14 = none ∧ target P 0 15 = none := ⟨rfl, rfl⟩

theorem target_counters (P : ℕ) (reg : BitVec 4) : target P 4 reg = none := rfl

/-- The read multiplexer and the write decoder agree on the addresses. -/
theorem apbSample_of_target (q : Params) (s : State P) (i : Input A) {r : Reg P}
    (hr : target P (apbSec i) (apbReg i) = some r) : apbSample q s i = readReg s.regs r := by
  obtain ⟨hstatus, hversion⟩ := target_status P
  have hnot14 : ¬ (apbSec i == 0 && apbReg i == 14) = true := by
    intro h
    obtain ⟨hsec, hreg⟩ := Bool.and_eq_true_iff.mp h
    rw [eq_of_beq hsec, eq_of_beq hreg, hstatus] at hr
    cases hr
  have hnot15 : ¬ (apbSec i == 0 && apbReg i == 15) = true := by
    intro h
    obtain ⟨hsec, hreg⟩ := Bool.and_eq_true_iff.mp h
    rw [eq_of_beq hsec, eq_of_beq hreg, hversion] at hr
    cases hr
  have hnot4 : ¬ (apbSec i == 4) = true := by
    intro hsec
    rw [eq_of_beq hsec, target_counters] at hr
    cases hr
  rw [apbSample, if_neg hnot14, if_neg hnot15, if_neg hnot4, hr]

/-- Only a packet can change a register while the APB reads. -/
theorem regsNext_of_read (s : State P) {i : Input A} (hread : apbRead i = true)
    (hprx : i.prxEnIn = false) : regsNext s i = s.regs := by
  have hwrite : apbWrite i = false := by
    obtain ⟨-, hpwrite⟩ := Bool.and_eq_true_iff.mp hread
    simpa [apbWrite] using fun _ ↦ hpwrite
  simp [regsNext, isSoftReset, hprx, hwrite]

theorem sample_of_ready (q : Params) (s : State P) {i : Input A} {r : Reg P}
    (hread : apbRead i = true) (hready : (next q s i).apbPreadyOut = true)
    (hr : target P (apbSec i) (apbReg i) = some r) :
    (next q s i).apbPrdataOut = readReg (next q s i).regs r := by
  have hprx : i.prxEnIn = false := by
    simpa [next, regWrCflt, hread] using hready
  have hdata : (next q s i).apbPrdataOut = apbSample q s i := if_pos hread
  have hregs : (next q s i).regs = s.regs := regsNext_of_read s hread hprx
  rw [hdata, hregs, apbSample_of_target q s i hr]

/-- While a read is in progress, `pready` is high only with fresh data. -/
def ReadInv (x : Bus P A) : Prop :=
  ∀ a ∈ x.access, a.pwrite = false → x.bank.apbPreadyOut = true →
    ∀ r ∈ a.req.target P, x.bank.apbPrdataOut = readReg x.bank.regs r

variable {q : Params} {x : Bus P A} {i : Input A}

theorem readInv_next (hlegal : Legal x i) : ReadInv (busNext q x i) := by
  intro a ha hread hready r hr
  cases hacc : x.access with
  | none =>
      cases hsel : i.apbPselIn with
      | false => simp [busNext, accessNext, hacc, hsel] at ha
      | true =>
          simp only [busNext, accessNext, hacc, hsel, if_true, Option.mem_some_iff] at ha
          subst ha
          have hapb : apbRead i = true := by simpa [apbRead, hsel] using hread
          exact sample_of_ready q x.bank hapb hready hr
  | some b =>
      cases hdone : x.bank.apbPreadyOut with
      | true => simp [busNext, accessNext, hacc, hdone] at ha
      | false =>
          simp only [busNext, accessNext, hacc, hdone, Bool.false_eq_true, if_false,
            Option.mem_some_iff] at ha
          subst ha
          simp only [Legal, hacc] at hlegal
          obtain ⟨hsel, -, hpwrite, hpaddr, -⟩ := hlegal
          have hapb : apbRead i = true := by simp [apbRead, hsel, hpwrite, hread]
          apply sample_of_ready q x.bank hapb hready
          rwa [apbSec, apbReg, hpaddr]

theorem fresh_of_readInv (hx : ReadInv x) (hlegal : Legal x i) : Fresh x i := by
  intro hdone r hr
  rw [readDone, Bool.and_eq_true_iff, Bool.and_eq_true_iff] at hdone
  obtain ⟨⟨hread, hen⟩, hready⟩ := hdone
  obtain ⟨hsel, hpwrite⟩ := Bool.and_eq_true_iff.mp hread
  cases hacc : x.access with
  | none =>
      simp only [Legal, hacc] at hlegal
      rw [hlegal hsel] at hen
      cases hen
  | some a =>
      simp only [Legal, hacc] at hlegal
      obtain ⟨-, -, hwrite, hpaddr, -⟩ := hlegal
      have hpwrite' : a.pwrite = false := by simpa [← hwrite] using hpwrite
      apply hx a hacc hpwrite' hready r
      rwa [apbSec, apbReg, hpaddr] at hr

/-- No APB read returns a stale word, whenever packets write. -/
theorem along_fresh (q : Params) (s : State P) (ins : List (Input A))
    (hrun : Along (busNext q) Legal (Bus.start s) ins) :
    Along (busNext q) Fresh (Bus.start s) ins := by
  have hstart : ReadInv (Bus.start s : Bus P A) := by
    rintro a ⟨⟩
  exact along_of_inv (fun _ _ _ ↦ readInv_next) (fun _ _ ↦ fresh_of_readInv) hstart hrun

/-- The reply key is read while a packet writes it in the setup cycle. -/
def replyKeyRead : List (Input 32) :=
  [busCycle (some (false, 0x8, 0)) (some (0x02, 9)), busCycle (some (true, 0x8, 0)) none,
    busCycle (some (true, 0x8, 0)) none].map fun i ↦ { i with apbPwriteIn := false }

theorem along_fresh_replyKeyRead :
    Along (busNext ⟨0, 1, 1⟩) Fresh (Bus.start coldBank) replyKeyRead ∧
      (run (busNext ⟨0, 1, 1⟩) (Bus.start coldBank) replyKeyRead).access = none ∧
      (run (busNext ⟨0, 1, 1⟩) (Bus.start coldBank) replyKeyRead).bank.apbPrdataOut = 9 :=
  ⟨along_fresh ⟨0, 1, 1⟩ coldBank replyKeyRead (by decide +kernel), rfl, rfl⟩

end Spif.RegBank
