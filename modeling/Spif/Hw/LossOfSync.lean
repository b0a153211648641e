import Mathlib.Data.List.Induction
import Spif.Hw.Packet
import Spif.Lib.Clocked

/-!
# The loss-of-sync state machine

`hssl_interface` waits for a comma, then for `NUM_CLKC_FOR_SYNC` cycles of valid
data, and gives up sync when too many invalid flits have been received.  Every
`NUM_VLD_PER_INV` valid flits cancel an invalid one; the counter `inv_cnt_int`
counts in units of one valid flit.
-/

namespace Spif.LossOfSync

open Clocked

def numClkcForSync : ℕ := 4
def numVldPerInv : ℕ := 4
def numInvForLoss : ℕ := 8

def lossOfSyncSt : BitVec 2 := 0b10
def resyncSt : BitVec 2 := 0b01
def syncAcquiredSt : BitVec 2 := 0b00

/-- The counters have `$clog2 (NUM + 1) + 1` bits. -/
structure State where
  resyncCntInt : BitVec 4
  invCntInt : BitVec 5
  lossOfSyncStateOut : BitVec 2
deriving DecidableEq, Repr

/-- `rcvd_vld_int` comes from the receiver. -/
structure Input where
  rxCommadetIn : Bool
  rxDisperrIn : BitVec 4
  rxEncerrIn : BitVec 4
  rcvdVldInt : Bool
deriving DecidableEq, Repr

def reset : State := ⟨0, 0, lossOfSyncSt⟩

def invalidData (i : Input) : Bool := i.rxDisperrIn != 0 || i.rxEncerrIn != 0

section Registers

variable (s : State) (i : Input)

def resyncCntNext : BitVec 4 :=
  if s.lossOfSyncStateOut = resyncSt then s.resyncCntInt + 1 else 0

def invCntNext : BitVec 5 :=
  if s.lossOfSyncStateOut = syncAcquiredSt then
    if invalidData i then s.invCntInt + BitVec.ofNat 5 numVldPerInv
    else if i.rcvdVldInt && s.invCntInt != 0 then s.invCntInt - 1
    else s.invCntInt
  else 0

def stateNext : BitVec 2 :=
  if s.lossOfSyncStateOut = lossOfSyncSt then
    if i.rxCommadetIn then resyncSt else lossOfSyncSt
  else if s.lossOfSyncStateOut = resyncSt then
    if invalidData i then lossOfSyncSt
    else if numClkcForSync ≤ s.resyncCntInt.toNat then syncAcquiredSt
    else resyncSt
  else if s.lossOfSyncStateOut = syncAcquiredSt then
    if numInvForLoss ≤ s.invCntInt.toNat then lossOfSyncSt else syncAcquiredSt
  else lossOfSyncSt

def next : State where
  resyncCntInt := resyncCntNext s
  invCntInt := invCntNext s i
  lossOfSyncStateOut := stateNext s i

end Registers

/-! ## One cycle -/

section Cycle

variable {s : State} (i : Input)

theorem next_loss (h : s.lossOfSyncStateOut = lossOfSyncSt) :
    next s i = ⟨0, 0, if i.rxCommadetIn then resyncSt else lossOfSyncSt⟩ := by
  simp [next, resyncCntNext, invCntNext, stateNext, h, lossOfSyncSt, resyncSt, syncAcquiredSt]

theorem next_resync (h : s.lossOfSyncStateOut = resyncSt) :
    next s i = ⟨s.resyncCntInt + 1, 0,
      if invalidData i then lossOfSyncSt
      else if numClkcForSync ≤ s.resyncCntInt.toNat then syncAcquiredSt else resyncSt⟩ := by
  simp [next, resyncCntNext, invCntNext, stateNext, h, lossOfSyncSt, resyncSt, syncAcquiredSt]

theorem next_sync (h : s.lossOfSyncStateOut = syncAcquiredSt) :
    next s i = ⟨0, invCntNext s i,
      if numInvForLoss ≤ s.invCntInt.toNat then lossOfSyncSt else syncAcquiredSt⟩ := by
  simp [next, resyncCntNext, stateNext, h, lossOfSyncSt, resyncSt, syncAcquiredSt]

/-- What a cycle in sync adds to the counter. -/
theorem toNat_invCntNext (h : s.lossOfSyncStateOut = syncAcquiredSt)
    (hle : s.invCntInt.toNat ≤ 27) :
    (invCntNext s i).toNat =
      if invalidData i then s.invCntInt.toNat + 4
      else if i.rcvdVldInt then s.invCntInt.toNat - 1 else s.invCntInt.toNat := by
  rw [invCntNext, if_pos h]
  split
  · rw [numVldPerInv, BitVec.toNat_add]
    exact Nat.mod_eq_of_lt (by change _ + 4 < 2 ^ 5; omega)
  · cases hvld : i.rcvdVldInt with
    | false => simp
    | true =>
        by_cases hzero : s.invCntInt = 0
        · simp [hzero]
        · simp only [Bool.true_and, bne_iff_ne, ne_eq, hzero, not_false_eq_true, if_true]
          bv_omega

end Cycle

/-! ## How sync is acquired -/

/-- The last `n` cycles, after a comma was detected out of sync, brought valid data. -/
def CleanSince (ins : List Input) (n : ℕ) : Prop :=
  ∃ pre c mid, ins = pre ++ c :: mid ∧
    (run next reset pre).lossOfSyncStateOut = lossOfSyncSt ∧ c.rxCommadetIn = true ∧
    mid.length = n ∧ ∀ j ∈ mid, invalidData j = false

theorem CleanSince.concat {ins : List Input} {n : ℕ} (h : CleanSince ins n) {i : Input}
    (hi : invalidData i = false) : CleanSince (ins ++ [i]) (n + 1) := by
  obtain ⟨pre, c, mid, rfl, hloss, hcomma, rfl, hclean⟩ := h
  refine ⟨pre, c, mid ++ [i], by simp, hloss, hcomma, by simp, ?_⟩
  intro j hj
  rcases List.mem_append.mp hj with hj | hj
  · exact hclean j hj
  · rwa [List.mem_singleton.mp hj]

/-- What the counters can be in each state, after the inputs `ins`. -/
inductive Reached (ins : List Input) (s : State) : Prop where
  | loss (h : s.lossOfSyncStateOut = lossOfSyncSt) (hcnt : s.resyncCntInt.toNat ≤ 5)
      (hinv : s.invCntInt.toNat ≤ 15)
  | resync (h : s.lossOfSyncStateOut = resyncSt) (hcnt : s.resyncCntInt.toNat ≤ 4)
      (hinv : s.invCntInt = 0) (hclean : CleanSince ins s.resyncCntInt.toNat)
  | sync (h : s.lossOfSyncStateOut = syncAcquiredSt) (hcnt : s.resyncCntInt.toNat ≤ 5)
      (hinv : s.invCntInt.toNat ≤ 11)

theorem Reached.next {ins : List Input} (h : Reached ins (run next reset ins)) (i : Input) :
    Reached (ins ++ [i]) (next (run next reset ins) i) := by
  generalize hs : run LossOfSync.next reset ins = s at h
  cases h with
  | loss h hcnt hinv =>
      rw [next_loss i h]
      cases hcomma : i.rxCommadetIn with
      | false => exact .loss rfl (Nat.zero_le _) (Nat.zero_le _)
      | true =>
          exact .resync rfl (Nat.zero_le _) rfl
            ⟨ins, i, [], rfl, hs ▸ h, hcomma, rfl, fun _ hj ↦ absurd hj List.not_mem_nil⟩
  | resync h hcnt hinv hclean =>
      have hone : (s.resyncCntInt + 1).toNat = s.resyncCntInt.toNat + 1 := by bv_omega
      rw [next_resync i h]
      cases hinvalid : invalidData i with
      | true => exact .loss rfl (by rw [hone]; omega) (Nat.zero_le _)
      | false =>
          by_cases hfour : numClkcForSync ≤ s.resyncCntInt.toNat
          · simp only [Bool.false_eq_true, if_false, hfour, if_true]
            exact .sync rfl (by rw [hone]; omega) (Nat.zero_le _)
          · simp only [Bool.false_eq_true, if_false, hfour]
            rw [numClkcForSync] at hfour
            refine .resync rfl (by rw [hone]; omega) rfl ?_
            rw [hone]
            exact hclean.concat hinvalid
  | sync h hcnt hinv =>
      have hadd := toNat_invCntNext i h (hinv.trans (by decide))
      have hle : (invCntNext s i).toNat ≤ s.invCntInt.toNat + 4 := by
        rw [hadd]
        split_ifs <;> omega
      rw [next_sync i h]
      by_cases height : numInvForLoss ≤ s.invCntInt.toNat
      · rw [if_pos height]
        exact .loss rfl (Nat.zero_le _) (hle.trans (by omega))
      · rw [if_neg height]
        rw [numInvForLoss] at height
        exact .sync rfl (Nat.zero_le _) (hle.trans (by omega))

theorem reached (ins : List Input) : Reached ins (run next reset ins) := by
  induction ins using List.reverseRecOn with
  | nil => exact .loss rfl (Nat.zero_le _) (Nat.zero_le _)
  | append_singleton ins i ih =>
      rw [run_concat]
      exact ih.next i

/-- Sync is acquired from `RESYNC` only, after a comma and enough cycles of valid data,
and with no error counted. -/
def AcquiresClean (ins : List Input) (i : Input) : Prop :=
  (run next reset ins).lossOfSyncStateOut ≠ syncAcquiredSt →
    (run next reset (ins ++ [i])).lossOfSyncStateOut = syncAcquiredSt →
      (run next reset ins).lossOfSyncStateOut = resyncSt ∧
        (∃ n ≥ numClkcForSync, CleanSince (ins ++ [i]) n) ∧
        (run next reset (ins ++ [i])).invCntInt = 0

/-- From reset on, sync is acquired on clean data only, the state register is one of
the three states, and the counters have room for another count. -/
theorem acquires_clean (ins : List Input) (i : Input) :
    AcquiresClean ins i ∧ (run next reset ins).lossOfSyncStateOut ≠ 0b11 ∧
      (run next reset ins).resyncCntInt.toNat + 1 < 2 ^ 4 ∧
      (run next reset ins).invCntInt.toNat + numVldPerInv < 2 ^ 5 := by
  rw [AcquiresClean, run_concat, numVldPerInv]
  have hreach := reached ins
  generalize run next reset ins = s at hreach
  cases hreach with
  | loss h hcnt hinv =>
      refine ⟨fun _ hsync ↦ ?_, by rw [h]; decide, by omega, by omega⟩
      rw [next_loss i h] at hsync
      cases hcomma : i.rxCommadetIn <;> rw [hcomma] at hsync <;> exact absurd hsync (by decide)
  | resync h hcnt hinv hclean =>
      refine ⟨fun _ hsync ↦ ⟨h, ?_⟩, by rw [h]; decide, by omega, by rw [hinv]; decide⟩
      rw [next_resync i h] at hsync ⊢
      refine ⟨?_, rfl⟩
      cases hinvalid : invalidData i with
      | true =>
          rw [hinvalid] at hsync
          exact absurd (show lossOfSyncSt = syncAcquiredSt from hsync) (by decide)
      | false =>
          by_cases hfour : numClkcForSync ≤ s.resyncCntInt.toNat
          · exact ⟨_, Nat.le_succ_of_le hfour, hclean.concat hinvalid⟩
          · simp only [hinvalid, hfour, if_false, Bool.false_eq_true] at hsync
            exact absurd hsync (by decide)
  | sync h hcnt hinv =>
      exact ⟨fun hne ↦ absurd h hne, by rw [h]; decide, by omega, by omega⟩

/-! ## How sync is lost -/

/-- The invalid flits that are not cancelled, and the valid ones received towards the
next cancellation. -/
structure Ledger where
  invalid : ℕ
  valid : ℕ
deriving DecidableEq, Repr

def Ledger.record (l : Ledger) (i : Input) : Ledger :=
  if invalidData i then { l with invalid := l.invalid + 1 }
  else if i.rcvdVldInt then
    if l.invalid = 0 then l
    else if l.valid + 1 = numVldPerInv then ⟨l.invalid - 1, 0⟩
    else { l with valid := l.valid + 1 }
  else l

/-- The state machine, and the flits since sync was acquired. -/
structure Observed where
  state : State
  ledger : Ledger

def Observed.start : Observed := ⟨reset, ⟨0, 0⟩⟩

def watch (o : Observed) (i : Input) : Observed where
  state := next o.state i
  ledger :=
    if o.state.lossOfSyncStateOut = syncAcquiredSt then o.ledger.record i else ⟨0, 0⟩

/-- Sync is lost in a cycle if and only if as many invalid flits are uncancelled as the
constant's name says. -/
def LossIsDue (o : Observed) (i : Input) : Prop :=
  o.state.lossOfSyncStateOut = syncAcquiredSt →
    ((next o.state i).lossOfSyncStateOut = lossOfSyncSt ↔ numInvForLoss ≤ o.ledger.invalid)

instance (o : Observed) (i : Input) : Decidable (LossIsDue o i) :=
  inferInstanceAs (Decidable (_ → _))

/-- The invalid flits less the quarters cancelled by valid ones are worth less than two. -/
def BelowTwo (o : Observed) (_ : Input) : Prop :=
  o.state.lossOfSyncStateOut = syncAcquiredSt →
    numVldPerInv * o.ledger.invalid < o.ledger.valid + numInvForLoss

/-- The counter is the ledger in units of one valid flit. -/
structure LedgerInv (o : Observed) : Prop where
  count : o.state.invCntInt.toNat + o.ledger.valid = 4 * o.ledger.invalid
  progress : o.ledger.valid ≤ 3
  bound : o.state.lossOfSyncStateOut = syncAcquiredSt → o.state.invCntInt.toNat ≤ 11

theorem ledgerInv_start : LedgerInv .start := ⟨rfl, Nat.zero_le _, fun _ ↦ Nat.zero_le _⟩

variable {o : Observed}

theorem LedgerInv.record (ho : LedgerInv o) (i : Input)
    (h : o.state.lossOfSyncStateOut = syncAcquiredSt) :
    (invCntNext o.state i).toNat + (o.ledger.record i).valid = 4 * (o.ledger.record i).invalid ∧
      (o.ledger.record i).valid ≤ 3 := by
  obtain ⟨state, invalid, valid⟩ := o
  obtain ⟨hcount, hvalid, hbound⟩ := ho
  rw [toNat_invCntNext i h ((hbound h).trans (by decide)), Ledger.record, numVldPerInv]
  split_ifs <;> dsimp only at * <;> omega

theorem ledgerInv_watch (ho : LedgerInv o) (i : Input) : LedgerInv (watch o i) := by
  by_cases h : o.state.lossOfSyncStateOut = syncAcquiredSt
  · obtain ⟨hcount, hprogress⟩ := ho.record i h
    have hbound := ho.bound h
    have hadd := toNat_invCntNext i h (hbound.trans (by decide))
    have hledger : (watch o i).ledger = o.ledger.record i := if_pos h
    refine ⟨hledger ▸ hcount, hledger ▸ hprogress, ?_⟩
    change (next o.state i).lossOfSyncStateOut = _ → (invCntNext o.state i).toNat ≤ 11
    rw [next_sync i h, hadd, numInvForLoss]
    intro hsync
    have hlow : ¬ 8 ≤ o.state.invCntInt.toNat := by
      intro height
      rw [if_pos height] at hsync
      exact absurd (show lossOfSyncSt = syncAcquiredSt from hsync) (by decide)
    split_ifs <;> omega
  · have hledger : (watch o i).ledger = ⟨0, 0⟩ := if_neg h
    have hcnt : (watch o i).state.invCntInt = 0 := if_neg h
    exact ⟨by rw [hledger, hcnt]; rfl, by rw [hledger]; decide,
      fun _ ↦ by rw [hcnt]; decide⟩

theorem leaves_iff (i : Input) (h : o.state.lossOfSyncStateOut = syncAcquiredSt) :
    (next o.state i).lossOfSyncStateOut = lossOfSyncSt ↔
      numInvForLoss ≤ o.state.invCntInt.toNat := by
  rw [next_sync i h]
  by_cases height : numInvForLoss ≤ o.state.invCntInt.toNat
  · simp [height]
  · simp only [height, if_false, iff_false]
    decide

/-- The machine never gets to the stated number: it has lost sync before. -/
theorem lossIsDue_iff (ho : LedgerInv o) (i : Input) : LossIsDue o i ↔ BelowTwo o i := by
  rw [LossIsDue, BelowTwo]
  apply imp_congr_right
  intro h
  have hbound := ho.bound h
  have hcount := ho.count
  have hvalid := ho.progress
  rw [leaves_iff i h, numInvForLoss, numVldPerInv]
  omega

theorem along_lossIsDue_iff (ins : List Input) :
    Along watch LossIsDue .start ins ↔ Along watch BelowTwo .start ins :=
  along_congr (D := fun _ _ ↦ True) (fun _ i ho _ ↦ ledgerInv_watch ho i)
    (fun _ i ho _ ↦ lossIsDue_iff ho i) ledgerInv_start
    (along_of_forall_mem (fun _ _ ↦ trivial) _)

def flit (comma : Bool) (disperr : BitVec 4) : Input := ⟨comma, disperr, 0, true⟩

/-- Sync is acquired, and lost after two invalid flits. -/
theorem not_lossIsDue_two_invalid :
    ¬ ∀ ins : List Input, Along watch LossIsDue .start ins := by
  intro h
  exact absurd (h (flit true 0 :: List.replicate 5 (flit false 0) ++
    List.replicate 3 (flit false 1))) (by decide +kernel)

end Spif.LossOfSync
