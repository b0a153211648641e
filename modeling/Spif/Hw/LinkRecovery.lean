import Spif.Hw.HandshakeReset
import Spif.Hw.LossOfSync

/-!
# How the link recovers

Whatever has happened before, clean data brings the link back to sync: the state machine
of `hssl_interface` settles from every state of its registers.  While there is no
handshake, `hssl_transceiver` keeps resetting the transceiver, at regular intervals.
-/

namespace Spif

namespace LossOfSync

open Clocked

/-- In sync, with fewer invalid flits counted than it takes to lose it. -/
def Settled (s : State) : Prop :=
  s.lossOfSyncStateOut = syncAcquiredSt ∧ s.invCntInt.toNat < numInvForLoss

section Cycle

variable {s : State} {i : Input}

theorem Settled.next (hs : Settled s) (hi : invalidData i = false) : Settled (next s i) := by
  obtain ⟨hsync, hcnt⟩ := hs
  have hroom : s.invCntInt.toNat ≤ 27 := by
    rw [numInvForLoss] at hcnt
    omega
  have hinv := toNat_invCntNext i hsync hroom
  rw [hi, if_neg (by decide)] at hinv
  rw [next_sync i hsync, if_neg (by omega)]
  refine ⟨rfl, ?_⟩
  change (invCntNext s i).toNat < _
  rw [hinv]
  split <;> omega

/-- The states that one cycle of clean data leads to from any state. -/
def Sane (s : State) : Prop :=
  s.lossOfSyncStateOut = lossOfSyncSt ∨ s.lossOfSyncStateOut = resyncSt ∨ Settled s

theorem sane_resync (h : s.lossOfSyncStateOut = resyncSt) (hi : invalidData i = false) :
    (next s i).lossOfSyncStateOut = resyncSt ∧ s.resyncCntInt.toNat < numClkcForSync ∧
        (next s i).resyncCntInt = s.resyncCntInt + 1 ∨ Settled (next s i) := by
  rw [next_resync i h, hi]
  by_cases hfour : numClkcForSync ≤ s.resyncCntInt.toNat
  · refine .inr ⟨?_, by change (0 : BitVec 5).toNat < _; decide⟩
    simp [hfour]
  · refine .inl ⟨?_, Nat.lt_of_not_le hfour, rfl⟩
    simp [hfour]

theorem sane_next (s : State) (hi : invalidData i = false) : Sane (next s i) := by
  by_cases hloss : s.lossOfSyncStateOut = lossOfSyncSt
  · rw [next_loss i hloss]
    cases i.rxCommadetIn
    · exact .inl rfl
    · exact .inr (.inl rfl)
  by_cases hresync : s.lossOfSyncStateOut = resyncSt
  · rcases sane_resync hresync hi with hstay | hsettled
    · exact .inr (.inl hstay.1)
    · exact .inr (.inr hsettled)
  by_cases hsync : s.lossOfSyncStateOut = syncAcquiredSt
  · by_cases hcnt : numInvForLoss ≤ s.invCntInt.toNat
    · left
      rw [next_sync i hsync, if_pos hcnt]
    · exact .inr (.inr (Settled.next ⟨hsync, Nat.lt_of_not_le hcnt⟩ hi))
  · left
    simp [next, stateNext, hloss, hresync, hsync]

/-- Settled, or in `RESYNC` for at least `k` cycles. -/
def Settling (k : ℕ) (s : State) : Prop :=
  Settled s ∨ s.lossOfSyncStateOut = resyncSt ∧ k ≤ s.resyncCntInt.toNat

theorem settling_comma (hs : Sane s) (hi : invalidData i = false) (hcomma : i.rxCommadetIn = true) :
    Settling 0 (next s i) := by
  rcases hs with hloss | hresync | hsettled
  · refine .inr ⟨?_, Nat.zero_le _⟩
    rw [next_loss i hloss, hcomma, if_pos rfl]
  · rcases sane_resync hresync hi with hstay | hsettled
    · exact .inr ⟨hstay.1, Nat.zero_le _⟩
    · exact .inl hsettled
  · exact .inl (hsettled.next hi)

theorem Settling.next {k : ℕ} (hs : Settling k s) (hi : invalidData i = false) :
    Settling (k + 1) (next s i) ∧ (numClkcForSync ≤ k → Settled (LossOfSync.next s i)) := by
  rcases hs with hsettled | ⟨hresync, hk⟩
  · exact ⟨.inl (hsettled.next hi), fun _ ↦ hsettled.next hi⟩
  · rcases sane_resync hresync hi with ⟨hstay, hlow, hcnt⟩ | hsettled
    · refine ⟨.inr ⟨hstay, ?_⟩, fun hfour ↦ absurd (hfour.trans hk) (Nat.not_le.mpr hlow)⟩
      rw [numClkcForSync] at hlow
      rw [hcnt]
      bv_omega
    · exact ⟨.inl hsettled, fun _ ↦ hsettled⟩

end Cycle

/-- From any state of the registers, sync is there six cycles after a comma, and stays as
long as data is clean. -/
theorem recovers (s : State) {ins : ℕ → Input} {m c n : ℕ}
    (hclean : ∀ k, m ≤ k → k < n → invalidData (ins k) = false) (hmc : m < c)
    (hcomma : (ins c).rxCommadetIn = true) (hn : c + 6 ≤ n) :
    (trace next s ins n).lossOfSyncStateOut = syncAcquiredSt := by
  have hsane : Sane (trace next s ins c) := by
    obtain ⟨k, rfl⟩ : ∃ k, c = k + 1 := ⟨c - 1, by omega⟩
    exact sane_next _ (hclean k (by omega) (by omega))
  have hsettling (k : ℕ) (hk : c + 1 + k ≤ n) : Settling k (trace next s ins (c + 1 + k)) := by
    induction k with
    | zero => exact settling_comma hsane (hclean c hmc.le (by omega)) hcomma
    | succ k ih => exact ((ih (by omega)).next (hclean (c + 1 + k) (by omega) (by omega))).1
  have hsettled (l : ℕ) (hl : c + 6 ≤ l) : l ≤ n → Settled (trace next s ins l) := by
    induction l, hl using Nat.le_induction with
    | base =>
        intro hle
        exact ((hsettling 4 (by omega)).next (hclean _ (by omega) (by omega))).2 le_rfl
    | succ l hl ih =>
        intro hle
        exact (ih (by omega)).next (hclean l (by omega) (by omega))
  exact (hsettled n hn le_rfl).1

/-- Commas and clean data for eight cycles, then invalid data. -/
def briefClean (k : ℕ) : Input := if k < 8 then flit true 0 else flit false 1

/-- An impossible state code and full counters, before that. -/
theorem recovers_garbage :
    (trace next ⟨15, 31, 0b11⟩ briefClean 8).lossOfSyncStateOut = syncAcquiredSt :=
  recovers ⟨15, 31, 0b11⟩ (m := 0) (c := 1) (by decide) Nat.zero_lt_one rfl (by decide)

end LossOfSync

namespace HandshakeReset

/-- From one reset to the next while there is no handshake. -/
def period : ℕ := numClkcForHsr + lenHsr + 1

variable {hs : ℕ → Bool} {m n a : ℕ}

theorem counts (hquiet : ∀ n ≥ m, hs n = false) (hn : m ≤ n) (hidle : ¬ InReset hs n)
    (ha : (stateIn hs n).hsrCntInt.toNat = a) (j : ℕ) (hj : a + j ≤ numClkcForHsr) :
    ¬ InReset hs (n + j) ∧ (stateIn hs (n + j)).hsrCntInt.toNat = a + j := by
  induction j with
  | zero => exact ⟨hidle, ha⟩
  | succ j ih =>
      obtain ⟨hidle', hcnt⟩ := ih (by omega)
      have hnot : (stateIn hs (n + j)).hsrCntInt.toNat ≠ numClkcForHsr := by omega
      have hnext := stateIn_succ_of_idle hidle'
      rw [hquiet (n + j) (by omega), if_neg hnot] at hnext
      rw [← Nat.add_assoc, InReset, hnext]
      refine ⟨by simp [hsrResetInt], ?_⟩
      exact (inv_stateIn (n + j)).toNat_succ.trans (by omega)

theorem first_timeout (hquiet : ∀ n ≥ m, hs n = false) (hn : m ≤ n) (hidle : ¬ InReset hs n)
    (ha : (stateIn hs n).hsrCntInt.toNat = a) (hle : a ≤ numClkcForHsr) :
    Begins hs (n + (numClkcForHsr - a)) ∧
      ∀ k, n ≤ k → k < n + (numClkcForHsr - a) → ¬ Begins hs k := by
  constructor
  · obtain ⟨hidle', hcnt⟩ := counts hquiet hn hidle ha (numClkcForHsr - a) (by omega)
    exact begins_iff.mpr ⟨hidle', by omega⟩
  · intro k hk hlt hbegins
    have hcnt := (counts hquiet hn hidle ha (k - n) (by omega)).2
    rw [show n + (k - n) = k by omega, (begins_iff.mp hbegins).2] at hcnt
    omega

/-- A reset pulse that is on at cycle `n` ends, and leaves the counter at zero. -/
theorem pulse_ends (hn : InReset hs n) : ∃ e, n < e ∧ e ≤ n + lenHsr ∧ ¬ InReset hs e ∧
    (stateIn hs e).hsrCntInt.toNat = 0 ∧ ∀ k, n ≤ k → k < e → InReset hs k := by
  have hpos := inReset_iff.mp hn
  set p := (stateIn hs n).hsrPulseInt.toNat with hp
  have hle : p ≤ lenHsr := (inv_stateIn n).pulse
  have hon (k : ℕ) (hk : n ≤ k) (hlt : k < n + p) : InReset hs k := by
    have hk' : (stateIn hs (n + (k - n))).hsrPulseInt.toNat = p - (k - n) :=
      pulse_add n (k - n) (by omega)
    rw [show n + (k - n) = k by omega] at hk'
    rw [inReset_iff]
    omega
  refine ⟨n + p, by omega, by omega, ?_, ?_, hon⟩
  · rw [inReset_iff, pulse_add n p hp.le]
    omega
  · obtain ⟨q, hq⟩ : ∃ q, n + p = q + 1 := ⟨n + p - 1, by omega⟩
    have hlast : stateIn hs (q + 1) = ⟨0, (stateIn hs q).hsrPulseInt - 1⟩ :=
      next_of_pulse (hon q (by omega) (by omega))
    rw [hq, hlast]
    rfl

theorem not_begins_inReset (h : InReset hs n) : ¬ Begins hs n := fun hb ↦ hb.1 h

/-- One reset follows the other after exactly one period. -/
theorem next_reset (hquiet : ∀ n ≥ m, hs n = false) (hn : m ≤ n) (hbegins : Begins hs n) :
    Begins hs (n + period) ∧ ∀ k, n < k → k < n + period → ¬ Begins hs k := by
  obtain ⟨hon, hoff⟩ := length_of_begins hbegins
  have hon' (k : ℕ) (hk : n < k) (hlt : k < n + 1 + lenHsr) : InReset hs k := by
    have h := hon (k - (n + 1)) (by omega)
    rwa [show n + 1 + (k - (n + 1)) = k by omega] at h
  have hlen : 0 < lenHsr := by decide
  have hzero : (stateIn hs (n + 1 + lenHsr)).hsrCntInt.toNat = 0 := by
    have hlast : stateIn hs (n + lenHsr + 1) = ⟨0, (stateIn hs (n + lenHsr)).hsrPulseInt - 1⟩ :=
      next_of_pulse (hon' (n + lenHsr) (by omega) (by omega))
    rw [show n + 1 + lenHsr = n + lenHsr + 1 by omega, hlast]
    rfl
  obtain ⟨hnext, hnone⟩ := first_timeout hquiet (by omega) hoff hzero (Nat.zero_le _)
  rw [period]
  constructor
  · rwa [show n + (numClkcForHsr + lenHsr + 1) = n + 1 + lenHsr + (numClkcForHsr - 0) by omega]
  · intro k hk hlt
    by_cases hpulse : k < n + 1 + lenHsr
    · exact not_begins_inReset (hon' k hk hpulse)
    · exact hnone k (by omega) (by omega)

/-- Without a handshake from cycle `m` on, the transceiver is reset for the first time
within a period, and then once in every period. -/
theorem resets_periodic (hquiet : ∀ n ≥ m, hs n = false) :
    ∃ n₀, m ≤ n₀ ∧ n₀ < m + period ∧ (∀ n, m ≤ n → n < n₀ → ¬ Begins hs n) ∧
      ∀ k, Begins hs (n₀ + k) ↔ period ∣ k := by
  obtain ⟨n₀, hle, hlt, hnone, hfirst⟩ : ∃ n₀, m ≤ n₀ ∧ n₀ < m + period ∧
      (∀ n, m ≤ n → n < n₀ → ¬ Begins hs n) ∧ Begins hs n₀ := by
    rw [period]
    by_cases hreset : InReset hs m
    · obtain ⟨e, hme, hlen, hoff, hzero, hon⟩ := pulse_ends hreset
      obtain ⟨hnext, hnone⟩ := first_timeout hquiet hme.le hoff hzero (Nat.zero_le _)
      refine ⟨_, by omega, by omega, fun n hn hlt ↦ ?_, hnext⟩
      by_cases hpulse : n < e
      · exact not_begins_inReset (hon n hn hpulse)
      · exact hnone n (by omega) hlt
    · have hcnt : (stateIn hs m).hsrCntInt.toNat ≤ numClkcForHsr :=
        (inv_stateIn m).idle (Bool.eq_false_of_not_eq_true hreset)
      obtain ⟨hnext, hnone⟩ := first_timeout hquiet le_rfl hreset rfl hcnt
      exact ⟨_, by omega, by omega, hnone, hnext⟩
  refine ⟨n₀, hle, hlt, hnone, fun k ↦ ?_⟩
  exact Clocked.mark_add_iff_dvd (by rw [period]; omega) hfirst fun q _ hmark ↦
    next_reset hquiet (by omega) hmark

theorem resets_periodic_never :
    ∃ n₀, 5 ≤ n₀ ∧ n₀ < 5 + period ∧
      (∀ n, 5 ≤ n → n < n₀ → ¬ Begins (fun n ↦ n == 4) n) ∧
      ∀ k, Begins (fun n ↦ n == 4) (n₀ + k) ↔ period ∣ k :=
  resets_periodic fun n hn ↦ beq_false_of_ne (by omega)

end HandshakeReset

end Spif
