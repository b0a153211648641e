import Mathlib.Data.BitVec
import Mathlib.Tactic.LinearCombination
import Spif.Hw.EvtStream
import Spif.Hw.Top
import Spif.Hw.RegBankPorts

/-!
# The account of the output path

Peripheral packets pass the packet receiver and the event dispatcher on their way to the
DMA engine.  The register bank counts the ones received and the ones dropped.  This
module says when the two counters account for what the DMA engine gets.
-/

namespace Spif.Top

open Clocked RegBank PktReceiver EvtDispatcher

variable {α ρ σ : Type*} {A : ℕ} {p : Parts α ρ σ}

/-! ## The counters -/

/-- Neither a packet nor the APB writes counter `k` in this cycle. -/
def CtrUntouched (p : Parts α ρ σ) (k : Fin numDcRegs) (s : State α ρ σ) (i : Input A) : Prop :=
  ∀ w ∈ (pktWrite (rbIn p s i)).toList ++ (busWrite (rbIn p s i)).toList,
    ¬ (w.sec = 4 ∧ w.reg.toNat = k)

instance (k : Fin numDcRegs) (s : State α ρ σ) (i : Input A) :
    Decidable (CtrUntouched p k s i) :=
  inferInstanceAs (Decidable (∀ w ∈ _, _))

theorem regCtrOut_next {k : Fin numDcRegs} {s : State α ρ σ} {i : Input A}
    (h : CtrUntouched p k s i) : (next p s i).rb.regCtrOut k =
      s.rb.regCtrOut k + ((ctrCnt p s i k).toNat : Word) := by
  have hprx : ((rbIn p s i).prxEnIn && prxSec (rbIn p s i) == 4 &&
      (prxReg (rbIn p s i)).toNat == k) = false := by
    rw [Bool.eq_false_iff]
    intro hhit
    simp only [Bool.and_eq_true, beq_iff_eq] at hhit
    refine h (prxReq (rbIn p s i)) (List.mem_append_left _ ?_) ⟨hhit.1.2, hhit.2⟩
    simp [pktWrite, hhit.1.1]
  have hapb : (apbWrite (rbIn p s i) && apbSec (rbIn p s i) == 4 &&
      (apbReg (rbIn p s i)).toNat == k) = false := by
    rw [Bool.eq_false_iff]
    intro hhit
    simp only [Bool.and_eq_true, beq_iff_eq] at hhit
    refine h (apbReq (rbIn p s i)) (List.mem_append_right _ ?_) ⟨hhit.1.2, hhit.2⟩
    simp [busWrite, hhit.1.1]
  have hnext : (next p s i).rb.regCtrOut k = regCtrOutNext s.rb (rbIn p s i) k := rfl
  have hcnt : (rbIn p s i).ctrCntIn k = ctrCnt p s i k := rfl
  rw [hnext, regCtrOutNext, hprx, hapb, hcnt]
  cases ctrCnt p s i k <;> simp

/-! ## The path -/

/-- Events received and neither transferred to the DMA engine nor counted as dropped yet. -/
def stored (K : Contract p) (s : State α ρ σ) : ℕ :=
  (K.prxQueue s.prx .per).length + heldCount s.ed + s.ed.outDrpCntOut.toNat

/-- What the DMA engine has got, if the counters of received and dropped events are right. -/
def balance (K : Contract p) (s : State α ρ σ) : Word :=
  s.rb.regCtrOut 1 - s.rb.regCtrOut 0 - (stored K s : Word)

def sent (s : State α ρ σ) (i : Input A) : ℕ := (s.ed.evtVldOut && i.outEvtRdy).toNat

def Accounted (K : Contract p) (s : State α ρ σ) (ins : List (Input A)) : Prop :=
  ∀ w, w <+: ins → balance K (run (next p) s w) = balance K s + (tally (next p) sent s w : Word)

theorem queue_step (K : Contract p) (s : State α ρ σ) (i : Input A) :
    (pktAvailable s.ed (edIn p s i)).toNat + (K.prxQueue (next p s i).prx .per).length =
      (K.prxQueue s.prx .per).length + (prxCnt p s i).1.toNat := by
  have hfifo := congrArg List.length
    (PktReceiver.fifo_step K.lossless .per s.prx (prxIn s i (dcpRdy p s i)))
  rw [List.length_append, List.length_append, accepts_per, ← (cntOut_eq _ _).1] at hfifo
  have hout : (PktReceiver.transferred p.prxSwitch .per s.prx (prxIn s i (dcpRdy p s i))).length =
      (pktAvailable s.ed (edIn p s i)).toNat := by
    have havail : pktAvailable s.ed (edIn p s i) =
        (p.prxSwitch.outVldOut s.prx (switchIn (prxIn s i (dcpRdy p s i))) .per &&
          swiRdy p.prxSwitch s.prx (prxIn s i (dcpRdy p s i)) .per) := rfl
    rw [havail, PktReceiver.transferred]
    cases p.prxSwitch.outVldOut s.prx (switchIn (prxIn s i (dcpRdy p s i))) .per &&
      swiRdy p.prxSwitch s.prx (prxIn s i (dcpRdy p s i)) .per <;> rfl
  rw [hout] at hfifo
  exact hfifo

theorem natCast_inj {a b : ℕ} (ha : a < 2 ^ 32) (hb : b < 2 ^ 32) :
    ((a : Word) = (b : Word)) ↔ a = b := by
  refine ⟨fun h ↦ ?_, congrArg _⟩
  have hnat : a % 2 ^ 32 = b % 2 ^ 32 := by
    simpa [BitVec.natCast_eq_ofNat] using congrArg BitVec.toNat h
  rwa [Nat.mod_eq_of_lt ha, Nat.mod_eq_of_lt hb] at hnat

/-- Receiver and counters always account for their part, so a cycle is accounted for
exactly if the dispatcher's cycle balances. -/
theorem balance_next (K : Contract p) {s : State α ρ σ} {i : Input A}
    (h0 : CtrUntouched p 0 s i) (h1 : CtrUntouched p 1 s i) :
    balance K (next p s i) = balance K s + (sent s i : Word) ↔
      CycleBalances s.ed (edIn p s i) := by
  have hdrop : (next p s i).rb.regCtrOut 0 = s.rb.regCtrOut 0 + (s.ed.outDrpCntOut.toNat : Word) :=
    regCtrOut_next h0
  have hacc : (next p s i).rb.regCtrOut 1 = s.rb.regCtrOut 1 + ((prxCnt p s i).1.toNat : Word) :=
    regCtrOut_next h1
  have hqueue := congrArg (Nat.cast (R := Word)) (queue_step K s i)
  have hed : (next p s i).ed = EvtDispatcher.next s.ed (edIn p s i) := rfl
  have hpulse : (EvtDispatcher.next s.ed (edIn p s i)).outDrpCntOut =
      outDrpCntOutNext s.ed (edIn p s i) := rfl
  have hsent : sent s i = (s.ed.evtVldOut && (edIn p s i).evtRdyIn).toNat := rfl
  have hle (b : Bool) : b.toNat ≤ 1 := Bool.toNat_le b
  have hheld (e : EvtDispatcher.State) : heldCount e ≤ 2 := Nat.add_le_add (hle _) (hle _)
  rw [CycleBalances, ← hsent, ← natCast_inj]
  · simp only [balance, stored, hdrop, hacc, hed, hpulse]
    push_cast at hqueue ⊢
    constructor
    · intro h
      linear_combination h + hqueue
    · intro h
      linear_combination h - hqueue
  · have := hheld s.ed
    have := hle (pktAvailable s.ed (edIn p s i))
    omega
  · have := hheld (EvtDispatcher.next s.ed (edIn p s i))
    have := hle (outDrpCntOutNext s.ed (edIn p s i))
    have : sent s i ≤ 1 := hle _
    omega

theorem creditInv_run (s : State α ρ σ) {ins : List (Input A)}
    (hsize : Along (next p) (fun s _ ↦ 2 ≤ (outputSize s).toNat) (reset p s) ins) :
    CreditInv (run (next p) (reset p s) ins).ed :=
  inv_run (I := fun s : State α ρ σ ↦ CreditInv s.ed)
    (fun s i hs hi ↦ creditInv_next (i := edIn p s i) hs hi) (creditInv_reset s.ed) hsize

/-- From any cycle of a run with frame sizes of two or more, and while the two counters
are not written, they account for every event exactly if no tick overwrites a stalled
event. -/
theorem accounted_iff (K : Contract p) (s : State α ρ σ) {before ins : List (Input A)}
    (hbefore : Along (next p) (fun s _ ↦ 2 ≤ (outputSize s).toNat) (reset p s) before)
    (hins : Along (next p) (fun s i ↦ 2 ≤ (outputSize s).toNat ∧ CtrUntouched p 0 s i ∧
      CtrUntouched p 1 s i) (run (next p) (reset p s) before) ins) :
    Accounted K (run (next p) (reset p s) before) ins ↔
      Along (next p) (fun s i ↦ ¬ TickOverStall s.ed (edIn p s i))
        (run (next p) (reset p s) before) ins := by
  rw [Accounted, account_iff_along]
  refine along_congr (I := fun s : State α ρ σ ↦ CreditInv s.ed)
    (fun s i hs hi ↦ creditInv_next (i := edIn p s i) hs hi.1) (fun s i hs hi ↦ ?_)
    (creditInv_run s hbefore) hins
  rw [balance_next K hi.2.1 hi.2.2]
  exact cycleBalances_iff hs

def onePacket : List (Input 32) :=
  [cycle (fun _ ↦ none) (some (.mk 0 7 0)), cycle (fun _ ↦ none) none]

theorem accounted_iff_onePacket :
    Accounted registerContract
        (run (next registerParts) (reset registerParts cold) onePacket) onePacket ↔
      Along (next registerParts)
        (fun s i ↦ ¬ TickOverStall s.ed (edIn registerParts s i))
        (run (next registerParts) (reset registerParts cold) onePacket) onePacket :=
  accounted_iff registerContract cold (by decide +kernel) (by decide +kernel)

end Spif.Top
