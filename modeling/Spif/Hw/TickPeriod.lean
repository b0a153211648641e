import Spif.Hw.TickFrames

/-!
# The period of the frame tick

The frame tick counts microseconds, and the microseconds count clock cycles.  Both
counters run on whatever packets arrive and however long the output port is busy, so
the tick comes every `output_tick_in` microseconds to the cycle.
-/

namespace Spif.EvtDispatcher

open Clocked

theorem untilTick_eq_zero_iff {s : State} : untilTick s = 0 ↔ s.tckCnt = 0 := by
  rw [untilTick]
  split
  · exact iff_of_true rfl ‹_›
  · exact iff_of_false (Nat.succ_ne_zero _) ‹_›

/-- A tick finds a microsecond just begun. -/
structure Phase (s : State) : Prop where
  us : s.usCnt.toNat ≤ 74
  tick : s.tckCnt = 0 → s.usCnt = 74

theorem phase_reset (s : State) : Phase (reset s) where
  us := show usClkCnt.toNat ≤ 74 by decide
  tick _ := rfl

theorem Phase.next {s : State} (hs : Phase s) {i : Input} (hi : 1 ≤ i.outputTickIn.toNat) :
    Phase (next s i) where
  us := usCnt_next hs.us i
  tick h := by
    by_cases htick : s.tckCnt = 0
    · have hload : (EvtDispatcher.next s i).tckCnt = i.outputTickIn := by
        simp [EvtDispatcher.next, tckCntNext, htick]
      rw [hload] at h
      rw [h] at hi
      exact absurd hi (by decide)
    · have hne : ¬ s.tckCnt = 0#32 := htick
      by_cases hus : s.usCnt = 0
      · simp [EvtDispatcher.next, usCntNext, hus, usClkCnt]
      · have hkeep : (EvtDispatcher.next s i).tckCnt = s.tckCnt := by
          simp [EvtDispatcher.next, tckCntNext, hne, show ¬ s.usCnt = 0#32 from hus]
        exact absurd (hkeep.symm.trans h) htick

/-- The cycle of the reload is the first one of the new period. -/
theorem Phase.reload {s : State} (hs : Phase s) (htick : s.tckCnt = 0) {i : Input}
    (hi : 1 ≤ i.outputTickIn.toNat) :
    untilTick (EvtDispatcher.next s i) + 1 = 75 * i.outputTickIn.toNat := by
  have hus := hs.tick htick
  have hload : (EvtDispatcher.next s i).tckCnt = i.outputTickIn := by
    simp [EvtDispatcher.next, tckCntNext, htick]
  have hcnt : (EvtDispatcher.next s i).usCnt = 73 := by
    simp [EvtDispatcher.next, usCntNext, hus]
  have hne : i.outputTickIn ≠ 0 := by
    rintro h
    simp [h] at hi
  have h73 : (73 : BitVec 32).toNat = 73 := by decide
  rw [untilTick, hload, if_neg hne, hcnt, h73]
  omega

/-! ## Runs -/

section Runs

variable (s : State) (ins : ℕ → Input)

def stateIn (n : ℕ) : State := trace next (reset s) ins n

def Ticks (n : ℕ) : Prop := (stateIn s ins n).tckCnt = 0

def outputTick (n : ℕ) : ℕ := (ins n).outputTickIn.toNat

/-- The tick is periodic: its period is the `output_tick_in` of the cycle in which it
begins, and lasts to the cycle whatever `output_tick_in` is afterwards. -/
structure Periodic : Prop where
  constant : ∀ T, (∀ n, outputTick ins n = T) → ∀ n, Ticks s ins n ↔ 75 * T ∣ n
  oneCycle : ∀ n, Ticks s ins n → ¬ Ticks s ins (n + 1)
  period : ∀ n, Ticks s ins n → Ticks s ins (n + 75 * outputTick ins n) ∧
    ∀ k, n < k → k < n + 75 * outputTick ins n → ¬ Ticks s ins k
  change : ∀ T T' m, 0 < m → (∀ n < m, outputTick ins n = T) →
    (∀ n, m ≤ n → outputTick ins n = T') →
      ∃ e, m ≤ e ∧ e < m + 75 * T ∧ (∀ n ≤ e, Ticks s ins n ↔ 75 * T ∣ n) ∧
        ∀ k, Ticks s ins (e + k) ↔ 75 * T' ∣ k

variable {s ins}

theorem ticks_zero : Ticks s ins 0 := rfl

theorem ticks_iff_untilTick {n : ℕ} : Ticks s ins n ↔ untilTick (stateIn s ins n) = 0 :=
  untilTick_eq_zero_iff.symm

variable (hpos : ∀ n, 1 ≤ outputTick ins n)
include hpos

theorem phase_stateIn (n : ℕ) : Phase (stateIn s ins n) := by
  induction n with
  | zero => exact phase_reset s
  | succ n ih => exact ih.next (hpos n)

theorem untilTick_stateIn {n : ℕ} (hn : Ticks s ins n) {k : ℕ}
    (hk : k < 75 * outputTick ins n) :
    untilTick (stateIn s ins (n + 1 + k)) + (k + 1) = 75 * outputTick ins n := by
  induction k with
  | zero => exact (phase_stateIn hpos n).reload hn (hpos n)
  | succ k ih =>
      have hleft := ih (Nat.lt_of_succ_lt hk)
      have hne : (stateIn s ins (n + 1 + k)).tckCnt ≠ 0 := by
        rw [Ne, ← untilTick_eq_zero_iff]
        omega
      have hstep := untilTick_next (phase_stateIn hpos (n + 1 + k)).us hne (ins (n + 1 + k))
      change untilTick (stateIn s ins (n + 1 + (k + 1))) + 1 = _ at hstep
      omega

theorem next_tick {n : ℕ} (hn : Ticks s ins n) :
    Ticks s ins (n + 75 * outputTick ins n) ∧
      ∀ k, n < k → k < n + 75 * outputTick ins n → ¬ Ticks s ins k := by
  have hT := hpos n
  constructor
  · have hlast := untilTick_stateIn hpos hn (k := 75 * outputTick ins n - 1) (by omega)
    rw [ticks_iff_untilTick]
    rw [show n + 1 + (75 * outputTick ins n - 1) = n + 75 * outputTick ins n by omega] at hlast
    omega
  · intro k hlt hk htick
    have hleft := untilTick_stateIn hpos hn (k := k - (n + 1)) (by omega)
    rw [show n + 1 + (k - (n + 1)) = k by omega, ticks_iff_untilTick.mp htick] at hleft
    omega

/-- As long as periods of `T` microseconds begin, the tick is at the multiples. -/
theorem ticks_add_iff {T n₀ k : ℕ} (hT : 1 ≤ T) (h₀ : Ticks s ins n₀)
    (hsame : ∀ q, q * (75 * T) < k → outputTick ins (n₀ + q * (75 * T)) = T) :
    Ticks s ins (n₀ + k) ↔ 75 * T ∣ k := by
  refine mark_add_iff_dvd (by omega) h₀ fun q hq hmark ↦ ?_
  have hnext := next_tick hpos hmark
  rwa [hsame q hq] at hnext

theorem ticks_iff_of_lt {T m n : ℕ} (hT : 1 ≤ T) (hbefore : ∀ n < m, outputTick ins n = T)
    (hn : ∀ q, q * (75 * T) < n → q * (75 * T) < m) : Ticks s ins n ↔ 75 * T ∣ n := by
  have hiff := ticks_add_iff (s := s) hpos (k := n) hT ticks_zero fun q hq ↦ by
    rw [Nat.zero_add]
    exact hbefore _ (hn q hq)
  rwa [Nat.zero_add] at hiff

/-- The period in which `output_tick_in` is changed is completed. -/
theorem exists_completed {T T' m : ℕ} (hm : 0 < m) (hbefore : ∀ n < m, outputTick ins n = T)
    (hafter : ∀ n, m ≤ n → outputTick ins n = T') :
    ∃ e, m ≤ e ∧ e < m + 75 * T ∧ (∀ n ≤ e, Ticks s ins n ↔ 75 * T ∣ n) ∧
      ∀ k, Ticks s ins (e + k) ↔ 75 * T' ∣ k := by
  have hT : 1 ≤ T := hbefore 0 hm ▸ hpos 0
  have hT' : 1 ≤ T' := hafter m le_rfl ▸ hpos m
  have hd : 0 < 75 * T := by omega
  -- the period `q` is the one that goes on in cycle `m - 1`
  obtain ⟨q, hlow, hhigh⟩ : ∃ q, q * (75 * T) < m ∧ m ≤ q * (75 * T) + 75 * T := by
    have hle := Nat.div_mul_le_self (m - 1) (75 * T)
    have hlt := Nat.lt_div_mul_add (a := m - 1) hd
    exact ⟨(m - 1) / (75 * T), by omega, by omega⟩
  have hbegins : ∀ p, p * (75 * T) < q * (75 * T) + 75 * T → p * (75 * T) < m := by
    intro p hp
    rw [← Nat.succ_mul] at hp
    have hpq : p ≤ q := Nat.le_of_lt_succ (Nat.lt_of_mul_lt_mul_right hp)
    exact (Nat.mul_le_mul_right _ hpq).trans_lt hlow
  have hticks : ∀ n ≤ q * (75 * T) + 75 * T, Ticks s ins n ↔ 75 * T ∣ n := fun n hn ↦
    ticks_iff_of_lt hpos hT hbefore fun p hp ↦ hbegins p (hp.trans_le hn)
  refine ⟨q * (75 * T) + 75 * T, hhigh, by omega, hticks, fun k ↦ ?_⟩
  have hend : Ticks s ins (q * (75 * T) + 75 * T) :=
    (hticks _ le_rfl).mpr (Nat.dvd_add (Nat.dvd_mul_left _ q) (dvd_refl _))
  exact ticks_add_iff hpos hT' hend fun p _ ↦ hafter _ (by omega)

theorem tick_periodic : Periodic s ins where
  constant T hT n := by
    refine ticks_iff_of_lt (m := n) hpos (hT 0 ▸ hpos 0) (fun k _ ↦ hT k) fun _ hq ↦ hq
  oneCycle n hn := by
    have hT := hpos n
    exact (next_tick hpos hn).2 (n + 1) (by omega) (by omega)
  period n hn := next_tick hpos hn
  change T T' m hm hbefore hafter := exists_completed hpos hm hbefore hafter

end Runs

/-- The tick is changed from two to three microseconds. -/
theorem tick_periodic_change :
    Periodic cold fun n ↦ cycle none (if n < 100 then 2 else 3) 256 true :=
  tick_periodic fun n ↦ by
    change 1 ≤ (if n < 100 then 2 else 3 : BitVec 32).toNat
    split <;> decide

end Spif.EvtDispatcher
