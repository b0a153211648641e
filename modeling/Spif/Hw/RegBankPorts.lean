import Mathlib.Data.List.Perm.Basic
import Spif.Hw.RegBank
import Spif.Lib.Clocked
import Spif.Lib.Linearization

/-!
# Two ports, one register bank

Packet writes take one cycle.  An APB transfer takes a setup cycle and then
access cycles up to the one with `pready` high.  In each of them the bank
carries out the APB write, unless a packet write comes in the same cycle.  The
conflict detector, which should make the master wait, looks at APB reads only,
so a write that meets packet writes in both its cycles is never carried out.
-/

namespace Spif.RegBank

open Clocked Linearization

variable {P A : ℕ}

/-- The effect of a write when nothing else happens. -/
def applyWrite (c : Regs P) (w : Write) : Regs P :=
  if w.isSoftReset then defaults c else writeReg c w

/-- The effect of one cycle: the packet write and the APB write in it. -/
def merge (c : Regs P) : Option Write → Option Write → Regs P
  | none, none => c
  | some p, none => applyWrite c p
  | none, some a => applyWrite c a
  | some p, some a => if a.isSoftReset then defaults c else applyWrite c p

def pktWrite (i : Input A) : Option Write := if i.prxEnIn then some (prxReq i) else none

def busWrite (i : Input A) : Option Write := if apbWrite i then some (apbReq i) else none

theorem regsNext_eq_merge (s : State P) (i : Input A) :
    regsNext s i = merge s.regs (pktWrite i) (busWrite i) := by
  cases hp : i.prxEnIn <;> cases ha : apbWrite i <;>
    simp [regsNext, isSoftReset, pktWrite, busWrite, merge, applyWrite, hp, ha]
  cases (prxReq i).isSoftReset <;> cases (apbReq i).isSoftReset <;> simp

@[simp] theorem defaults_applyWrite (c : Regs P) (w : Write) :
    defaults (applyWrite c w) = defaults c := by
  cases h : w.isSoftReset <;> simp [applyWrite, h, defaults_writeReg]

theorem applyWrite_of_soft {c : Regs P} {w : Write} (h : w.isSoftReset = true) :
    applyWrite c w = defaults c := by
  simp [applyWrite, h]

theorem applyWrite_of_not_soft {c : Regs P} {w : Write} (h : w.isSoftReset = false) :
    applyWrite c w = writeReg c w := by
  simp [applyWrite, h]

@[simp] theorem applyWrite_idem (c : Regs P) (w : Write) :
    applyWrite (applyWrite c w) w = applyWrite c w := by
  cases h : w.isSoftReset <;> simp [applyWrite, h, writeReg_idem]

/-! ## The buses -/

structure Access (A : ℕ) where
  pwrite : Bool
  paddr : BitVec A
  pwdata : Word
  since : ℕ
  setupPkt : Option Write

def Access.req (a : Access A) : Write :=
  ⟨a.paddr.extractLsb' 6 4, a.paddr.extractLsb' 2 4, a.pwdata⟩

/-- The register bank, the transfer in progress on the APB, and the record of
the packet writes and completed APB writes so far. -/
structure Bus (P A : ℕ) where
  bank : State P
  access : Option (Access A)
  cycle : ℕ
  history : List (Timed Write)

def Bus.start (s : State P) : Bus P A where
  bank := s
  access := none
  cycle := 0
  history := []

/-- The APB protocol: `psel` without `penable` first, then `psel` with
`penable` and everything held until `pready` is high. -/
def Legal (x : Bus P A) (i : Input A) : Prop :=
  match x.access with
  | none => i.apbPselIn = true → i.apbPenableIn = false
  | some a =>
      i.apbPselIn = true ∧ i.apbPenableIn = true ∧ i.apbPwriteIn = a.pwrite ∧
        i.apbPaddrIn = a.paddr ∧ i.apbPwdataIn = a.pwdata

def accessNext (x : Bus P A) (i : Input A) : Option (Access A) :=
  match x.access with
  | none =>
      if i.apbPselIn then
        some ⟨i.apbPwriteIn, i.apbPaddrIn, i.apbPwdataIn, x.cycle, pktWrite i⟩
      else none
  | some a => if x.bank.apbPreadyOut then none else some a

def pktOps (x : Bus P A) (i : Input A) : List (Timed Write) :=
  (pktWrite i).toList.map fun w ↦ ⟨w, x.cycle, x.cycle⟩

def apbOps (x : Bus P A) : List (Timed Write) :=
  match x.access with
  | none => []
  | some a =>
      if a.pwrite && x.bank.apbPreadyOut then [⟨a.req, a.since, x.cycle⟩] else []

def busNext (q : Params) (x : Bus P A) (i : Input A) : Bus P A where
  bank := next q x.bank i
  access := accessNext x i
  cycle := x.cycle + 1
  history := x.history ++ (pktOps x i ++ apbOps x)

/-- An APB write that meets packet writes in both its cycles still shows: the
write or one of the packets is a reset, or a packet writes the same register,
or the register `regs` already holds the data. -/
def Shows (regs : Regs P) (a p q : Write) : Prop :=
  a.isSoftReset = false → p.isSoftReset = false → q.isSoftReset = false →
    ∀ r ∈ a.target P, p.target P = some r ∨ q.target P = some r ∨
      regs r = a.data.setWidth r.width

/-- The packet writes that meet an APB write in its access cycle do not hide it. -/
def WriteShows (x : Bus P A) (i : Input A) : Prop :=
  ∀ a ∈ x.access, a.pwrite = true → ∀ p ∈ a.setupPkt, ∀ q ∈ pktWrite i,
    Shows x.bank.regs a.req p q

/-! ## One APB write -/

def pktAt (p? : Option Write) (t : ℕ) : List (Timed Write) :=
  p?.toList.map fun w ↦ ⟨w, t, t⟩

theorem applyWrite_hidden {c : Regs P} {a p q : Write} (ha : a.isSoftReset = false)
    (h : p.isSoftReset = true ∨ q.isSoftReset = true ∨
      p.target P = a.target P ∨ q.target P = a.target P) :
    applyWrite (applyWrite (applyWrite c a) p) q = applyWrite (applyWrite c p) q := by
  cases hq : q.isSoftReset with
  | true => simp [applyWrite_of_soft hq]
  | false =>
      cases hp : p.isSoftReset with
      | true => simp [applyWrite_of_soft hp]
      | false =>
          simp only [applyWrite_of_not_soft ha, applyWrite_of_not_soft hp,
            applyWrite_of_not_soft hq]
          by_cases hpa : a.target P = p.target P
          · rw [writeReg_writeReg_of_eq c hpa]
          · have hqa : a.target P = q.target P := by
              simpa [hp, hq, Ne.symm hpa, eq_comm] using h
            rw [writeReg_comm c hpa, writeReg_writeReg_of_eq _ hqa]

theorem applyWrite_eq_self {c : Regs P} {a : Write} (ha : a.isSoftReset = false)
    (h : ∀ r ∈ a.target P, c r = a.data.setWidth r.width) : applyWrite c a = c := by
  rw [applyWrite_of_not_soft ha]
  cases ht : a.target P with
  | none => exact writeReg_of_none ht
  | some r => exact writeReg_eq_self ht (h r ht)

theorem effect_both {c : Regs P} {a p q : Write} (ha : a.isSoftReset = false)
    (hshow : Shows (applyWrite c p) a p q) :
    applyWrite (applyWrite (applyWrite c a) p) q = applyWrite (applyWrite c p) q ∨
      applyWrite (applyWrite (applyWrite c p) q) a = applyWrite (applyWrite c p) q := by
  by_cases hhid : p.isSoftReset = true ∨ q.isSoftReset = true ∨
      p.target P = a.target P ∨ q.target P = a.target P
  · exact Or.inl (applyWrite_hidden ha hhid)
  · simp only [not_or, Bool.not_eq_true] at hhid
    obtain ⟨hp, hq, hpa, hqa⟩ := hhid
    refine Or.inr (applyWrite_eq_self ha ?_)
    intro r hr
    have hr' : a.target P = some r := hr
    have hdata : applyWrite c p r = a.data.setWidth r.width := by
      simpa [← hr', hpa, hqa] using hshow ha hp hq r hr
    rw [applyWrite_of_not_soft hq, writeReg_apply_of_ne (hr' ▸ hqa), hdata]

/-- The operations of one APB write, with the packet writes in its two cycles,
in an order that has the effect of those two cycles. -/
theorem exists_block {c : Regs P} {p? q? : Option Write} {a : Write} (t : ℕ)
    (hshow : ∀ p ∈ p?, ∀ q ∈ q?, Shows (merge c p? (some a)) a p q) :
    ∃ block : List (Timed Write),
      block.Perm (pktAt p? t ++ (pktAt q? (t + 1) ++ [⟨a, t, t + 1⟩])) ∧
        block.Pairwise MayPrecede ∧
          effect applyWrite c block = merge (merge c p? (some a)) q? (some a) := by
  let A : Timed Write := ⟨a, t, t + 1⟩
  cases ha : a.isSoftReset with
  | true =>
      -- a reset is repeated in the access cycle: the packets come first
      refine ⟨pktAt p? t ++ (pktAt q? (t + 1) ++ [A]), List.Perm.refl _, ?_, ?_⟩
      · cases p? <;> cases q? <;> simp [pktAt, MayPrecede, A]
      · cases p? <;> cases q? <;> simp [pktAt, A, merge, applyWrite_of_soft ha, ha]
  | false =>
      cases p? with
      | none =>
          refine ⟨A :: pktAt q? (t + 1), ?_, ?_, ?_⟩
          · exact (List.perm_append_singleton A _).symm
          · cases q? <;> simp [pktAt, MayPrecede, A]
          · cases q? <;> simp [pktAt, A, merge, ha]
      | some p =>
          cases q? with
          | none =>
              refine ⟨[⟨p, t, t⟩, A], List.Perm.refl _, ?_, ?_⟩
              · simp [MayPrecede, A]
              · simp [A, merge, ha]
          | some q =>
              have hmerge : merge (merge c (some p) (some a)) (some q) (some a) =
                  applyWrite (applyWrite c p) q := by
                simp [merge, ha]
              have hshow' : Shows (applyWrite c p) a p q := by
                simpa [merge, ha] using hshow p rfl q rfl
              rw [hmerge]
              rcases effect_both ha hshow' with hfirst | hlast
              · refine ⟨[A, ⟨p, t, t⟩, ⟨q, t + 1, t + 1⟩], ?_, ?_, hfirst⟩
                · exact (List.perm_append_singleton A _).symm
                · simp [MayPrecede, A]
              · refine ⟨[⟨p, t, t⟩, ⟨q, t + 1, t + 1⟩, A], List.Perm.refl _, ?_, hlast⟩
                simp [MayPrecede, A]

/-! ## Whole runs -/

/-- What is known of the bus: between transfers and during reads the record
explains the registers; in the access cycle of a write it explains them up to
the setup cycle. -/
def BusInv (init : Regs P) (x : Bus P A) : Prop :=
  (∀ o ∈ x.history, o.start < x.cycle) ∧
    match x.access with
    | none => Linearizable applyWrite init x.history x.bank.regs
    | some a =>
        if a.pwrite then
          x.cycle = a.since + 1 ∧ x.bank.apbPreadyOut = true ∧
            ∃ h c, x.history = h ++ pktAt a.setupPkt a.since ∧
              (∀ o ∈ h, o.start < a.since) ∧ Linearizable applyWrite init h c ∧
                x.bank.regs = merge c a.setupPkt (some a.req)
        else Linearizable applyWrite init x.history x.bank.regs

theorem busInv_start (s : State P) : BusInv s.regs (Bus.start s : Bus P A) :=
  ⟨by simp [Bus.start], linearizable_nil applyWrite s.regs⟩

theorem mem_pktAt {p? : Option Write} {t : ℕ} {o : Timed Write} (h : o ∈ pktAt p? t) :
    o.start = t ∧ o.finish = t := by
  obtain ⟨w, -, rfl⟩ := List.mem_map.mp h
  exact ⟨rfl, rfl⟩

theorem mem_block {p? q? : Option Write} {a : Write} {t : ℕ} {o : Timed Write}
    (h : o ∈ pktAt p? t ++ (pktAt q? (t + 1) ++ [⟨a, t, t + 1⟩])) :
    o.start ≤ t + 1 ∧ t ≤ o.finish := by
  simp only [List.mem_append, List.mem_singleton] at h
  rcases h with ho | ho | rfl
  · have := mem_pktAt ho
    omega
  · have := mem_pktAt ho
    omega
  · simp

theorem linearizable_pkt {init c : Regs P} {h : List (Timed Write)} {t : ℕ}
    (hlin : Linearizable applyWrite init h c) (hstart : ∀ o ∈ h, o.start < t)
    (p? : Option Write) :
    Linearizable applyWrite init (h ++ pktAt p? t) (merge c p? none) := by
  cases p? with
  | none => simpa [pktAt, merge] using hlin
  | some p => exact hlin.snoc ⟨p, t, t⟩ (fun o ho ↦ (hstart o ho).le)

theorem start_lt_append {h new : List (Timed Write)} {t : ℕ} (hh : ∀ o ∈ h, o.start < t)
    (hnew : ∀ o ∈ new, o.start ≤ t) : ∀ o ∈ h ++ new, o.start < t + 1 := by
  intro o ho
  rcases List.mem_append.mp ho with ho | ho
  · exact (hh o ho).trans (Nat.lt_succ_self t)
  · exact Nat.lt_succ_of_le (hnew o ho)

section Step

variable {q : Params} {init : Regs P} {x : Bus P A} {i : Input A}

theorem busNext_regs (q : Params) (x : Bus P A) (i : Input A) :
    (busNext q x i).bank.regs = merge x.bank.regs (pktWrite i) (busWrite i) :=
  regsNext_eq_merge x.bank i

theorem busInv_next_idle (hx : BusInv init x) (hidle : x.access = none) :
    BusInv init (busNext q x i) := by
  obtain ⟨hstart, hlin⟩ := hx
  simp only [hidle] at hlin
  have hhist : (busNext q x i).history = x.history ++ pktAt (pktWrite i) x.cycle := by
    simp [busNext, apbOps, hidle, pktOps, pktAt]
  have hstart' : ∀ o ∈ (busNext q x i).history, o.start < (busNext q x i).cycle := by
    rw [hhist]
    exact start_lt_append hstart (fun o ho ↦ (mem_pktAt ho).1.le)
  refine ⟨hstart', ?_⟩
  cases hsel : i.apbPselIn with
  | false =>
      have hacc : (busNext q x i).access = none := by
        simp [busNext, accessNext, hidle, hsel]
      have hbus : busWrite i = none := by simp [busWrite, apbWrite, hsel]
      simp only [hacc, hhist, busNext_regs, hbus]
      exact linearizable_pkt hlin hstart _
  | true =>
      have hacc : (busNext q x i).access =
          some ⟨i.apbPwriteIn, i.apbPaddrIn, i.apbPwdataIn, x.cycle, pktWrite i⟩ := by
        simp [busNext, accessNext, hidle, hsel]
      simp only [hacc]
      cases hwr : i.apbPwriteIn with
      | false =>
          have hbus : busWrite i = none := by simp [busWrite, apbWrite, hwr]
          simp only [hhist, busNext_regs, hbus, Bool.false_eq_true, if_false]
          exact linearizable_pkt hlin hstart _
      | true =>
          have hbus : busWrite i = some (apbReq i) := by simp [busWrite, apbWrite, hsel, hwr]
          have hready : (busNext q x i).bank.apbPreadyOut = true := by
            simp [busNext, next, regWrCflt, apbRead, hwr]
          refine ⟨rfl, hready, x.history, x.bank.regs, hhist, hstart, hlin, ?_⟩
          rw [busNext_regs, hbus]
          rfl

theorem busInv_next_read (hx : BusInv init x) {a : Access A} (hacc : x.access = some a)
    (hread : a.pwrite = false) (hlegal : Legal x i) : BusInv init (busNext q x i) := by
  obtain ⟨hstart, hlin⟩ := hx
  simp only [hacc, hread, Bool.false_eq_true, if_false] at hlin
  have hwr : i.apbPwriteIn = false := by
    simp only [Legal, hacc] at hlegal
    exact hlegal.2.2.1.trans hread
  have hbus : busWrite i = none := by simp [busWrite, apbWrite, hwr]
  have hhist : (busNext q x i).history = x.history ++ pktAt (pktWrite i) x.cycle := by
    simp [busNext, apbOps, hacc, hread, pktOps, pktAt]
  refine ⟨?_, ?_⟩
  · rw [hhist]
    exact start_lt_append hstart (fun o ho ↦ (mem_pktAt ho).1.le)
  · have hlin' := linearizable_pkt hlin hstart (pktWrite i)
    have hacc' : (busNext q x i).access = if x.bank.apbPreadyOut then none else some a := by
      simp [busNext, accessNext, hacc]
    rw [hacc', hhist, busNext_regs, hbus]
    cases x.bank.apbPreadyOut <;> simpa [hread] using hlin'

theorem busInv_next_write (hx : BusInv init x) {a : Access A} (hacc : x.access = some a)
    (hwrite : a.pwrite = true) (hlegal : Legal x i) (hshow : WriteShows x i) :
    BusInv init (busNext q x i) := by
  obtain ⟨hstart, hinv⟩ := hx
  simp only [hacc, hwrite, if_true] at hinv
  obtain ⟨hcycle, hready, h, c, hhist, hearly, hlin, hregs⟩ := hinv
  simp only [Legal, hacc] at hlegal
  obtain ⟨hsel, -, hwr, haddr, hdata⟩ := hlegal
  have hbus : busWrite i = some a.req := by
    simp [busWrite, apbWrite, hsel, hwr, hwrite, apbReq, apbSec, apbReg, Access.req, haddr,
      hdata]
  have hhist' : (busNext q x i).history =
      h ++ (pktAt a.setupPkt a.since ++
        (pktAt (pktWrite i) (a.since + 1) ++ [⟨a.req, a.since, a.since + 1⟩])) := by
    simp [busNext, apbOps, hacc, hwrite, hready, pktOps, pktAt, hhist, hcycle]
  have hacc' : (busNext q x i).access = none := by
    simp [busNext, accessNext, hacc, hready]
  have hshow' : ∀ p ∈ a.setupPkt, ∀ w ∈ pktWrite i,
      Shows (merge c a.setupPkt (some a.req)) a.req p w := by
    rw [← hregs]
    exact hshow a hacc hwrite
  obtain ⟨block, hperm, hord, heffect⟩ := exists_block a.since hshow'
  refine ⟨?_, ?_⟩
  · have hcycle' : (busNext q x i).cycle = a.since + 1 + 1 := by simp [busNext, hcycle]
    rw [hhist', hcycle']
    intro o ho
    rcases List.mem_append.mp ho with ho | ho
    · have := hearly o ho
      omega
    · exact Nat.lt_succ_of_le (mem_block ho).1
  · rw [hacc', hhist', busNext_regs, hbus, hregs, ← heffect]
    apply hlin.append _ hperm hord
    intro o ho o' ho'
    exact (hearly o ho).le.trans (mem_block ho').2

theorem busInv_next (hx : BusInv init x) (hlegal : Legal x i) (hshow : WriteShows x i) :
    BusInv init (busNext q x i) := by
  cases hacc : x.access with
  | none => exact busInv_next_idle hx hacc
  | some a =>
      cases hwrite : a.pwrite with
      | false => exact busInv_next_read hx hacc hwrite hlegal
      | true => exact busInv_next_write hx hacc hwrite hlegal hshow

end Step

/-- While packet writes leave every APB write visible, the registers are at all
times between APB transfers explained by the packet writes and the completed
APB writes, applied atomically in an order that respects real time. -/
theorem linearizable_of_writeShows (q : Params) (s : State P) (ins : List (Input A))
    (hrun : Along (busNext q) (fun x i ↦ Legal x i ∧ WriteShows x i) (Bus.start s) ins)
    (hidle : (run (busNext q) (Bus.start s) ins).access = none) :
    Linearizable applyWrite s.regs (run (busNext q) (Bus.start s) ins).history
      (run (busNext q) (Bus.start s) ins).bank.regs := by
  have hinv := inv_run (I := BusInv s.regs) (fun _ _ hx hi ↦ busInv_next hx hi.1 hi.2)
    (busInv_start s) hrun
  have hlin := hinv.2
  simpa only [hidle] using hlin

def coldBank : State 2 where
  regs := defaults fun _ ↦ 0
  regCtrOut := fun _ ↦ 0
  apbPreadyOut := false
  apbPrdataOut := 0

/-- A cycle with an APB request (`true` in the access cycle) and a packet write. -/
def busCycle (apb : Option (Bool × BitVec 32 × Word)) (prx : Option (BitVec 8 × Word)) :
    Input 32 where
  apbPselIn := apb.isSome
  apbPenableIn := (apb.map Prod.fst).getD false
  apbPwriteIn := true
  apbPaddrIn := (apb.map fun a ↦ a.2.1).getD 0
  apbPwdataIn := (apb.map fun a ↦ a.2.2).getD 0
  prxAddrIn := (prx.map Prod.fst).getD 0
  prxWdataIn := (prx.map Prod.snd).getD 0
  prxEnIn := prx.isSome
  ctrCntIn := fun _ ↦ false
  hsCompleteIn := true
  hsMismatchIn := false
  idsiIn := 0

/-- The reply key is written through the APB; a router key is written by a
packet in the setup cycle, and the packet `prx` comes in the access cycle. -/
def replyKeyRun (prx : Option (BitVec 8 × Word)) : List (Input 32) :=
  [busCycle (some (false, 0x8, 5)) (some (0x10, 1)), busCycle (some (true, 0x8, 5)) prx]

instance (x : Bus P A) (i : Input A) : Decidable (Legal x i) := by
  unfold Legal
  split <;> infer_instance

instance (regs : Regs P) (a p q : Write) : Decidable (Shows regs a p q) := by
  unfold Shows
  infer_instance

instance (x : Bus P A) (i : Input A) : Decidable (WriteShows x i) := by
  unfold WriteShows
  infer_instance

theorem linearizable_replyKeyRun :
    Linearizable applyWrite coldBank.regs
      (run (busNext ⟨0, 1, 1⟩) (Bus.start coldBank) (replyKeyRun (some (0x02, 9)))).history
      (run (busNext ⟨0, 1, 1⟩) (Bus.start coldBank) (replyKeyRun (some (0x02, 9)))).bank.regs :=
  linearizable_of_writeShows ⟨0, 1, 1⟩ coldBank (replyKeyRun (some (0x02, 9)))
    (by decide +kernel) rfl

/-- Two packets write router keys: the APB transfer completes, but no order of
the three writes leaves the reply key as it was. -/
theorem not_linearizable_replyKeyRun :
    Along (busNext ⟨0, 1, 1⟩) Legal (Bus.start coldBank) (replyKeyRun (some (0x11, 2))) ∧
      (run (busNext ⟨0, 1, 1⟩) (Bus.start coldBank) (replyKeyRun (some (0x11, 2)))).access =
        none ∧
      ¬ Linearizable applyWrite coldBank.regs
        (run (busNext ⟨0, 1, 1⟩) (Bus.start coldBank) (replyKeyRun (some (0x11, 2)))).history
        (run (busNext ⟨0, 1, 1⟩) (Bus.start coldBank)
          (replyKeyRun (some (0x11, 2)))).bank.regs := by
  refine ⟨by decide +kernel, rfl, ?_⟩
  apply not_linearizable_of_permutations (P := fun c ↦ c (.hssl 2) = 0xfffffd00#32)
  · decide +kernel
  · decide +kernel

end Spif.RegBank
