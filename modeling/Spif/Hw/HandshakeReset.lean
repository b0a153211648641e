import Mathlib.Data.BitVec
import Spif.Lib.Clocked

/-!
# The handshake watchdog

`hssl_transceiver` resets the transceiver when the handshake has not been completed
for `NUM_CLKC_FOR_HSR` cycles.  One counter keeps track of these cycles, the other of
what is left of the reset pulse.
-/

namespace Spif.HandshakeReset

open Clocked

def lenHsr : ℕ := 128

def numClkcForHsr : ℕ := 75000000

/-- The counters have `$clog2 (NUM + 1) + 1` bits. -/
structure State where
  hsrCntInt : BitVec 28
  hsrPulseInt : BitVec 9

def reset : State := ⟨0, 0⟩

def hsrResetInt (s : State) : Bool := s.hsrPulseInt != 0

def next (s : State) (handshakeCompleteIn : Bool) : State where
  hsrCntInt := if handshakeCompleteIn || hsrResetInt s then 0 else s.hsrCntInt + 1
  hsrPulseInt :=
    if s.hsrPulseInt ≠ 0 then s.hsrPulseInt - 1
    else if s.hsrCntInt.toNat = numClkcForHsr then BitVec.ofNat 9 lenHsr
    else s.hsrPulseInt

/-! ## One cycle -/

section Cycle

variable {s : State} {h : Bool}

theorem next_of_pulse (hpulse : hsrResetInt s = true) :
    next s h = ⟨0, s.hsrPulseInt - 1⟩ := by
  have hne : ¬ s.hsrPulseInt = 0#9 := bne_iff_ne.mp hpulse
  simp [next, hpulse, hne]

theorem next_of_idle (hpulse : hsrResetInt s = false) :
    next s h = ⟨if h then 0 else s.hsrCntInt + 1,
      if s.hsrCntInt.toNat = numClkcForHsr then BitVec.ofNat 9 lenHsr else 0⟩ := by
  have hzero : s.hsrPulseInt = 0 := by simpa [hsrResetInt] using hpulse
  simp [next, hpulse, hzero]

/-- The counter stops one above the timeout, and only with the pulse that it starts. -/
structure Inv (s : State) : Prop where
  cnt : s.hsrCntInt.toNat ≤ numClkcForHsr + 1
  idle : hsrResetInt s = false → s.hsrCntInt.toNat ≤ numClkcForHsr
  pulse : s.hsrPulseInt.toNat ≤ lenHsr

theorem Inv.room (hs : Inv s) : s.hsrCntInt.toNat + 1 < 2 ^ 28 := by
  have hcnt := hs.cnt
  rw [numClkcForHsr] at hcnt
  omega

theorem Inv.toNat_succ (hs : Inv s) : (s.hsrCntInt + 1).toNat = s.hsrCntInt.toNat + 1 := by
  rw [BitVec.toNat_add]
  exact Nat.mod_eq_of_lt hs.room

theorem Inv.next (hs : Inv s) (h : Bool) : Inv (next s h) := by
  cases hpulse : hsrResetInt s with
  | true =>
      rw [next_of_pulse hpulse]
      refine ⟨Nat.zero_le _, fun _ ↦ Nat.zero_le _, ?_⟩
      have hle := hs.pulse
      have hne : s.hsrPulseInt ≠ 0 := bne_iff_ne.mp hpulse
      change (s.hsrPulseInt - 1).toNat ≤ lenHsr
      bv_omega
  | false =>
      have hidle := hs.idle hpulse
      have hcnt : (if h then (0 : BitVec 28) else s.hsrCntInt + 1).toNat ≤
          s.hsrCntInt.toNat + 1 := by
        cases h with
        | true => exact Nat.zero_le _
        | false => exact hs.toNat_succ.le
      rw [next_of_idle hpulse]
      by_cases hout : s.hsrCntInt.toNat = numClkcForHsr
      · rw [if_pos hout]
        refine ⟨hcnt.trans (by omega), fun hoff ↦ ?_, (by decide : 128 ≤ lenHsr)⟩
        have hon : (BitVec.ofNat 9 lenHsr != 0) = true := by decide
        cases hon.symm.trans hoff
      · rw [if_neg hout]
        exact ⟨hcnt.trans (by omega), fun _ ↦ hcnt.trans (by omega), Nat.zero_le _⟩

end Cycle

/-! ## Runs -/

section Runs

variable (hs : ℕ → Bool)

/-- The state in cycle `n` after reset, in which `handshake_complete_in` is `hs n`. -/
def stateIn (n : ℕ) : State := trace next reset hs n

def InReset (n : ℕ) : Prop := hsrResetInt (stateIn hs n) = true

/-- A reset pulse begins as the result of cycle `n`. -/
def Begins (n : ℕ) : Prop := ¬ InReset hs n ∧ InReset hs (n + 1)

/-- The counter has reached the timeout. -/
def TimesOut (n : ℕ) : Prop :=
  ¬ InReset hs n ∧ (stateIn hs n).hsrCntInt.toNat = numClkcForHsr

/-- The watchdog resets only an unconnected link. -/
structure Watchdog : Prop where
  unconnected : ∀ n, Begins hs n → hs n = false
  waited : ∀ n, Begins hs n → numClkcForHsr ≤ n ∧
    ∀ k, n - numClkcForHsr ≤ k → k < n → hs k = false ∧ ¬ InReset hs k
  length : ∀ n, Begins hs n →
    (∀ k < lenHsr, InReset hs (n + 1 + k)) ∧ ¬ InReset hs (n + 1 + lenHsr)
  noWrap : ∀ n, (stateIn hs n).hsrCntInt.toNat + 1 < 2 ^ 28 ∧
    (stateIn hs n).hsrPulseInt.toNat ≤ lenHsr

variable {hs}

theorem inv_stateIn (n : ℕ) : Inv (stateIn hs n) :=
  trace_inv (fun _ h hinv ↦ hinv.next h)
    ⟨Nat.zero_le _, fun _ ↦ Nat.zero_le _, Nat.zero_le _⟩ hs n

theorem stateIn_succ_of_idle {n : ℕ} (hidle : ¬ InReset hs n) :
    stateIn hs (n + 1) = ⟨if hs n then 0 else (stateIn hs n).hsrCntInt + 1,
      if (stateIn hs n).hsrCntInt.toNat = numClkcForHsr then BitVec.ofNat 9 lenHsr else 0⟩ :=
  next_of_idle (Bool.eq_false_of_not_eq_true hidle)

theorem begins_iff {n : ℕ} : Begins hs n ↔ TimesOut hs n := by
  apply and_congr_right
  intro hidle
  rw [InReset, stateIn_succ_of_idle hidle]
  by_cases hout : (stateIn hs n).hsrCntInt.toNat = numClkcForHsr
  · rw [if_pos hout]
    exact iff_of_true (by decide : (BitVec.ofNat 9 lenHsr != 0) = true) hout
  · rw [if_neg hout]
    exact iff_of_false (by decide : ¬ ((0 : BitVec 9) != 0) = true) hout

/-- The counter counts the quiet cycles up to now. -/
theorem quiet_cycles (hs : ℕ → Bool) (n : ℕ) : (stateIn hs n).hsrCntInt.toNat ≤ n ∧
    ∀ k, n - (stateIn hs n).hsrCntInt.toNat ≤ k → k < n → hs k = false ∧ ¬ InReset hs k := by
  induction n with
  | zero => exact ⟨Nat.zero_le _, fun k _ hk ↦ absurd hk (Nat.not_lt_zero k)⟩
  | succ n ih =>
      obtain ⟨hle, hquiet⟩ := ih
      have hcleared (hzero : (stateIn hs (n + 1)).hsrCntInt = 0) :
          (stateIn hs (n + 1)).hsrCntInt.toNat ≤ n + 1 ∧
            ∀ k, n + 1 - (stateIn hs (n + 1)).hsrCntInt.toNat ≤ k → k < n + 1 →
              hs k = false ∧ ¬ InReset hs k := by
        rw [hzero]
        exact ⟨Nat.zero_le _, fun k hk hlt ↦ absurd hlt (Nat.not_lt.mpr hk)⟩
      by_cases hreset : InReset hs n
      · exact hcleared (congrArg State.hsrCntInt (next_of_pulse hreset))
      · have hnext := congrArg State.hsrCntInt (stateIn_succ_of_idle hreset)
        cases hn : hs n with
        | true =>
            rw [hn] at hnext
            exact hcleared hnext
        | false =>
            rw [hn] at hnext
            have hcnt : (stateIn hs (n + 1)).hsrCntInt.toNat =
                (stateIn hs n).hsrCntInt.toNat + 1 :=
              (congrArg BitVec.toNat hnext).trans (inv_stateIn n).toNat_succ
            rw [hcnt]
            refine ⟨Nat.succ_le_succ hle, fun k hk hlt ↦ ?_⟩
            rcases Nat.lt_or_eq_of_le (Nat.le_of_lt_succ hlt) with hlt | rfl
            · exact hquiet k (by omega) hlt
            · exact ⟨hn, hreset⟩

/-- The pulse counts down. -/
theorem pulse_add (n k : ℕ) (hk : k ≤ (stateIn hs n).hsrPulseInt.toNat) :
    (stateIn hs (n + k)).hsrPulseInt.toNat = (stateIn hs n).hsrPulseInt.toNat - k := by
  induction k with
  | zero => rfl
  | succ k ih =>
      have hpulse := ih (Nat.le_of_succ_le hk)
      have hne : (stateIn hs (n + k)).hsrPulseInt ≠ 0 := by
        intro hzero
        rw [hzero] at hpulse
        change 0 = _ at hpulse
        omega
      have hnext : stateIn hs (n + k + 1) = ⟨0, (stateIn hs (n + k)).hsrPulseInt - 1⟩ :=
        next_of_pulse (bne_iff_ne.mpr hne)
      rw [← Nat.add_assoc, hnext]
      change ((stateIn hs (n + k)).hsrPulseInt - 1).toNat = _
      bv_omega

theorem inReset_iff {n : ℕ} : InReset hs n ↔ 0 < (stateIn hs n).hsrPulseInt.toNat := by
  rw [InReset, hsrResetInt, bne_iff_ne, Nat.pos_iff_ne_zero, Ne, Ne, ← BitVec.toNat_inj]
  rfl

theorem length_of_begins {n : ℕ} (hbegins : Begins hs n) :
    (∀ k < lenHsr, InReset hs (n + 1 + k)) ∧ ¬ InReset hs (n + 1 + lenHsr) := by
  obtain ⟨hidle, hout⟩ := begins_iff.mp hbegins
  have hload : (stateIn hs (n + 1)).hsrPulseInt.toNat = lenHsr := by
    rw [stateIn_succ_of_idle hidle, if_pos hout]
    rfl
  constructor
  · intro k hk
    rw [inReset_iff, pulse_add (n + 1) k (hload ▸ hk.le), hload]
    omega
  · rw [inReset_iff, pulse_add (n + 1) lenHsr hload.ge, hload]
    omega

variable (hs)

/-- The watchdog does what it should unless the handshake is completed in the very
cycle of a timeout. -/
theorem watchdog_iff : Watchdog hs ↔ ∀ n, TimesOut hs n → hs n = false := by
  constructor
  · exact fun h n hout ↦ h.unconnected n (begins_iff.mpr hout)
  · intro h
    refine ⟨fun n hbegins ↦ h n (begins_iff.mp hbegins), fun n hbegins ↦ ?_,
      fun n hbegins ↦ length_of_begins hbegins, fun n ↦ ?_⟩
    · obtain ⟨-, hout⟩ := begins_iff.mp hbegins
      have hquiet := quiet_cycles hs n
      rwa [hout] at hquiet
    · exact ⟨(inv_stateIn n).room, (inv_stateIn n).pulse⟩

end Runs

/-- The handshake is completed in one cycle only. -/
def completedIn (m n : ℕ) : Bool := decide (n = m)

theorem stateIn_before (m n : ℕ) (hn : n ≤ m) (hm : m ≤ numClkcForHsr) :
    ¬ InReset (completedIn m) n ∧ (stateIn (completedIn m) n).hsrCntInt.toNat = n := by
  induction n with
  | zero => exact ⟨(by decide : ¬ hsrResetInt reset = true), rfl⟩
  | succ n ih =>
      obtain ⟨hidle, hcnt⟩ := ih (Nat.le_of_succ_le hn)
      have hoff : completedIn m n = false := decide_eq_false (by omega)
      have hnot : (stateIn (completedIn m) n).hsrCntInt.toNat ≠ numClkcForHsr := by omega
      have hnext := stateIn_succ_of_idle hidle
      rw [hoff, if_neg hnot] at hnext
      rw [InReset, hnext]
      refine ⟨by simp [hsrResetInt], ?_⟩
      exact (inv_stateIn n).toNat_succ.trans (congrArg (· + 1) hcnt)

/-- The handshake that comes with the timeout does not prevent the reset. -/
theorem not_watchdog_completedIn : ¬ ∀ hs, Watchdog hs := by
  intro h
  obtain ⟨hidle, hcnt⟩ := stateIn_before numClkcForHsr numClkcForHsr le_rfl le_rfl
  have hfalse := (h (completedIn numClkcForHsr)).unconnected numClkcForHsr
    (begins_iff.mpr ⟨hidle, hcnt⟩)
  have htrue : completedIn numClkcForHsr numClkcForHsr = true := decide_eq_true rfl
  cases htrue.symm.trans hfalse

end Spif.HandshakeReset
