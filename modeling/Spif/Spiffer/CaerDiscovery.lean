import Mathlib.Algebra.BigOperators.Group.Finset.Basic
import Mathlib.Algebra.Order.BigOperators.Group.Finset
import Spif.Spiffer.Surveys

/-!
# The discovery of Inivation cameras

`spiffer_caer_discover_devs` discovers cameras by opening them, one in each round of
its loop.  Which camera that is depends on libcaer: all that is known is that
`caerDeviceOpen` returns an attached camera that is not open, or null when there is
none.  A camera that cannot be configured is closed again, and may be the next one to
be opened.
-/

namespace Spif.Spiffer.CaerDiscovery

open Transition

def spifferOk : ℤ := 0

def spifferError : ℤ := -1

def usbMixCameras : Bool := false

def caerDiscoverCnt : ℕ := usbDiscoverCnt

/-- The results of the library calls that configure a camera. -/
structure ConfigCalls where
  sendDefaultConfig : Bool
  maxContainerPacketSize : Bool
  dataexchangeBlocking : Bool
deriving DecidableEq, Repr

/-- The result, and the lines written to the log. -/
def spifferCaerConfigDev (c : ConfigCalls) : ℤ × List String :=
  if !c.sendDefaultConfig then
    (spifferError, ["error: failed to send camera default configuration"])
  else if !c.maxContainerPacketSize then
    (spifferError, ["error: failed to set camera container packet size"])
  else if !c.dataexchangeBlocking then
    (spifferError, ["error: failed to set blocking mode"])
  else (spifferOk, [])

structure DavisInfo where
  deviceString : String
  deviceSerialNumber : Serial

/-- The cameras: which of them are attached, and how the attempts to configure them
turn out, from the first one in a discovery on. -/
structure Cameras (Dev : Type*) where
  attached : Finset Dev
  davisInfo : Dev → DavisInfo
  configCalls : Dev → ℕ → ConfigCalls

/-- What discovery writes to an entry of `usb_devs.params`. -/
structure Params (Dev : Type*) where
  type : DeviceType
  sn : Serial
  caerHdl : Option Dev

structure State (Dev : Type*) where
  usbDevs : List (Params Dev)
  opened : Finset Dev
  attempts : Dev → ℕ
  ndd : ℕ
  looping : Bool
  log : List String

section Discovery

variable {Dev : Type*}

/-- What comes before the loop. -/
def enter (usbDevs : List (Params Dev)) (opened : Finset Dev) (log : List String) : State Dev :=
  let s : State Dev := ⟨usbDevs, opened, fun _ ↦ 0, 0, true, log⟩
  if !usbMixCameras && usbDevs.length != 0 then
    { s with
      looping := false
      log := log ++ ["warning: Inivation discovery cancelled - camera mixing disallowed"] }
  else s

theorem enter_of_ne_nil {usbDevs : List (Params Dev)} (h : usbDevs ≠ []) (opened : Finset Dev)
    (log : List String) : (enter usbDevs opened log).looping = false := by
  simp [enter, usbMixCameras, h]

theorem enter_nil (opened : Finset Dev) (log : List String) :
    enter ([] : List (Params Dev)) opened log = ⟨[], opened, fun _ ↦ 0, 0, true, log⟩ := rfl

def State.Continues (s : State Dev) : Prop :=
  s.looping = true ∧ s.usbDevs.length < caerDiscoverCnt

instance (s : State Dev) : Decidable s.Continues := inferInstanceAs (Decidable (_ ∧ _))

variable [DecidableEq Dev] (c : Cameras Dev)

/-- What `caerDeviceOpen` may return; `none` is the null handle. -/
def Opens (s : State Dev) : Option Dev → Prop
  | some d => d ∈ c.attached ∧ d ∉ s.opened
  | none => c.attached ⊆ s.opened

def Enabled (s : State Dev) (dh : Option Dev) : Prop := s.Continues ∧ Opens c s dh

instance (s : State Dev) : ∀ dh, Decidable (Enabled c s dh)
  | some _ => inferInstanceAs (Decidable (_ ∧ _ ∧ _))
  | none => inferInstanceAs (Decidable (_ ∧ c.attached ⊆ s.opened))

def round (s : State Dev) : Option Dev → State Dev
  | none => { s with looping := false }
  | some dh =>
      let davisInfo := c.davisInfo dh
      let (rc, lines) := spifferCaerConfigDev (c.configCalls dh (s.attempts dh))
      let s :=
        { s with
          opened := insert dh s.opened
          attempts := Function.update s.attempts dh (s.attempts dh + 1)
          log := s.log ++ lines }
      if rc = spifferError then
        { s with
          opened := s.opened.erase dh
          log := s.log ++ ["warning: cannot configure device: " ++ davisInfo.deviceString] }
      else
        { s with
          usbDevs := s.usbDevs ++ [⟨.CAER, davisInfo.deviceSerialNumber, some dh⟩]
          ndd := s.ndd + 1
          log := s.log ++ [davisInfo.deviceString] }

def step (s : State Dev) (dh : Option Dev) : Option (State Dev) :=
  guarded (Enabled c) (round c) s dh

/-- What comes after the loop. -/
def leave (s : State Dev) : State Dev :=
  { s with
    log := s.log ++ ["discovered " ++ toString s.ndd ++ " Inivation device" ++
      (if s.ndd = 1 then " " else "s")] }

/-- A call of `spiffer_caer_discover_devs` may return in state `t`. -/
def Returns (usbDevs : List (Params Dev)) (opened : Finset Dev) (log : List String)
    (t : State Dev) : Prop :=
  if (enter usbDevs opened log).looping then
    ∃ dhs s, exec (step c) (enter usbDevs opened log) dhs = some s ∧ ¬ s.Continues ∧ t = leave s
  else t = enter usbDevs opened log

/-- The loop performs a bounded number of rounds, whatever libcaer returns. -/
def Bounded (s : State Dev) : Prop :=
  ∃ n, ∀ dhs t, exec (step c) s dhs = some t → dhs.length ≤ n

def Configures (d : Dev) (k : ℕ) : Prop :=
  (spifferCaerConfigDev (c.configCalls d k)).1 ≠ spifferError

/-! ## One round -/

def entry (d : Dev) : Params Dev := ⟨.CAER, (c.davisInfo d).deviceSerialNumber, some d⟩

variable {c} {s : State Dev} {d : Dev}

theorem round_of_configures (h : Configures c d (s.attempts d)) :
    (round c s (some d)).usbDevs = s.usbDevs ++ [entry c d] ∧
      (round c s (some d)).opened = insert d s.opened ∧
      (round c s (some d)).attempts = Function.update s.attempts d (s.attempts d + 1) ∧
      (round c s (some d)).ndd = s.ndd + 1 ∧
      (round c s (some d)).looping = s.looping := by
  rw [Configures] at h
  simp [round, h, entry]

theorem round_of_not_configures (hd : d ∉ s.opened) (h : ¬ Configures c d (s.attempts d)) :
    (round c s (some d)).usbDevs = s.usbDevs ∧
      (round c s (some d)).opened = s.opened ∧
      (round c s (some d)).attempts = Function.update s.attempts d (s.attempts d + 1) ∧
      (round c s (some d)).ndd = s.ndd ∧
      (round c s (some d)).looping = s.looping := by
  rw [Configures, not_not] at h
  simp [round, h, hd]

theorem looping_round (hd : d ∉ s.opened) : (round c s (some d)).looping = s.looping := by
  by_cases h : Configures c d (s.attempts d)
  · exact (round_of_configures h).2.2.2.2
  · exact (round_of_not_configures hd h).2.2.2.2

/-! ## What is left to try -/

/-- Every camera that is not open will be configured at attempt `f d`, if not before. -/
def Within (c : Cameras Dev) (f : Dev → ℕ) (s : State Dev) : Prop :=
  ∀ d ∈ c.attached, d ∉ s.opened → s.attempts d ≤ f d ∧ Configures c d (f d)

def attemptsLeft (f : Dev → ℕ) (s : State Dev) (d : Dev) : ℕ :=
  if d ∈ s.opened then 0 else f d + 1 - s.attempts d

def roundsLeft (c : Cameras Dev) (f : Dev → ℕ) (s : State Dev) : ℕ :=
  ∑ d ∈ c.attached, attemptsLeft f s d + s.looping.toNat

variable {f : Dev → ℕ}

/-- A round takes one of the attempts left to its camera, and keeps the others'. -/
theorem attemptsLeft_round (hs : Within c f s) (hd : d ∈ c.attached)
    (hclosed : d ∉ s.opened) :
    Within c f (round c s (some d)) ∧
      attemptsLeft f (round c s (some d)) d < attemptsLeft f s d ∧
      ∀ d', d' ≠ d → attemptsLeft f (round c s (some d)) d' = attemptsLeft f s d' := by
  obtain ⟨hle, hlast⟩ := hs d hd hclosed
  by_cases hconf : Configures c d (s.attempts d)
  · obtain ⟨-, hopen, htry, -⟩ := round_of_configures hconf
    refine ⟨fun d' hd' hclosed' ↦ ?_, ?_, fun d' hne ↦ ?_⟩
    · rw [hopen, Finset.mem_insert, not_or] at hclosed'
      rw [htry, Function.update_of_ne hclosed'.1]
      exact hs d' hd' hclosed'.2
    · rw [attemptsLeft, attemptsLeft, hopen, if_pos (Finset.mem_insert_self d _), if_neg hclosed]
      omega
    · rw [attemptsLeft, attemptsLeft, hopen, htry, Function.update_of_ne hne]
      simp [hne]
  · obtain ⟨-, hopen, htry, -⟩ := round_of_not_configures hclosed hconf
    -- the attempt was not the successful one
    have hne : s.attempts d ≠ f d := fun heq ↦ hconf (heq ▸ hlast)
    refine ⟨fun d' hd' hclosed' ↦ ?_, ?_, fun d' hne' ↦ ?_⟩
    · rw [hopen] at hclosed'
      rw [htry]
      rcases eq_or_ne d' d with rfl | hne'
      · rw [Function.update_self]
        exact ⟨by omega, hlast⟩
      · rw [Function.update_of_ne hne']
        exact hs d' hd' hclosed'
    · rw [attemptsLeft, attemptsLeft, hopen, htry, Function.update_self, if_neg hclosed,
        if_neg hclosed]
      omega
    · rw [attemptsLeft, attemptsLeft, hopen, htry, Function.update_of_ne hne']

theorem roundsLeft_step (hs : Within c f s) {dh : Option Dev} {t : State Dev}
    (hstep : step c s dh = some t) :
    Within c f t ∧ roundsLeft c f t < roundsLeft c f s := by
  obtain ⟨⟨⟨hloop, -⟩, hopens⟩, rfl⟩ := guarded_eq_some.mp hstep
  cases dh with
  | none =>
      refine ⟨hs, ?_⟩
      rw [roundsLeft, roundsLeft, hloop]
      change _ + 0 < _ + 1
      exact Nat.lt_succ_self _
  | some d =>
      obtain ⟨hd, hclosed⟩ := hopens
      obtain ⟨hwithin, hlt, hsame⟩ := attemptsLeft_round hs hd hclosed
      refine ⟨hwithin, ?_⟩
      rw [roundsLeft, roundsLeft, looping_round hclosed]
      refine Nat.add_lt_add_right (Finset.sum_lt_sum (fun d' _ ↦ ?_) ⟨d, hd, hlt⟩) _
      rcases eq_or_ne d' d with rfl | hne
      · exact hlt.le
      · exact (hsame d' hne).le

theorem bounded_of_within (hs : Within c f s) : Bounded c s :=
  ⟨roundsLeft c f s, fun _ _ hrun ↦
    length_le_of_measure (I := Within c f) (fun _ _ _ hs hstep ↦ roundsLeft_step hs hstep) hs hrun⟩

/-! ## Cameras that cannot be configured -/

theorem bounded_of_not_looping (hs : s.looping = false) : Bounded c s := by
  refine ⟨0, fun dhs t hrun ↦ ?_⟩
  cases dhs with
  | nil => exact le_rfl
  | cons dh dhs =>
      obtain ⟨r, hr, -⟩ := exec_cons.mp hrun
      obtain ⟨⟨⟨hloop, -⟩, -⟩, -⟩ := guarded_eq_some.mp hr
      exact absurd (hs.symm.trans hloop) (by decide)

/-- A camera that is never configured can be opened again in every round. -/
theorem not_bounded_of_never (hs : s.Continues) (hd : d ∈ c.attached) (hclosed : d ∉ s.opened)
    (hnever : ∀ k, ¬ Configures c d k) : ¬ Bounded c s := by
  have hagain : ∀ r : State Dev, r.Continues ∧ d ∉ r.opened →
      ∃ t, step c r (some d) = some t ∧ t.Continues ∧ d ∉ t.opened := by
    rintro r ⟨⟨hloop, hroom⟩, hclosed⟩
    obtain ⟨hdevs, hopen, -, -, hkeep⟩ := round_of_not_configures hclosed (hnever (r.attempts d))
    refine ⟨_, guarded_eq_some.mpr ⟨⟨⟨hloop, hroom⟩, hd, hclosed⟩, rfl⟩, ⟨?_, ?_⟩, ?_⟩
    · rw [hkeep, hloop]
    · rwa [hdevs]
    · rwa [hopen]
  rintro ⟨n, hn⟩
  obtain ⟨t, ht⟩ := exists_exec_replicate (I := fun r : State Dev ↦ r.Continues ∧ d ∉ r.opened)
    hagain ⟨hs, hclosed⟩ (n + 1)
  have hlen := hn _ t ht
  rw [List.length_replicate] at hlen
  omega

variable (c)

/-- The loop is bounded exactly if no attached camera fails to be configured for ever,
or if discovery is cancelled in favour of the cameras found before. -/
theorem bounded_iff (usbDevs : List (Params Dev)) (opened : Finset Dev) (log : List String) :
    Bounded c (enter usbDevs opened log) ↔
      usbDevs ≠ [] ∨ ∀ d ∈ c.attached, d ∉ opened → ∃ k, Configures c d k := by
  by_cases hcancel : usbDevs = []
  · subst hcancel
    have hroom : 0 < caerDiscoverCnt := by decide
    rw [enter_nil]
    constructor
    · intro hbounded
      apply Or.inr
      intro d hd hclosed
      by_contra hnever
      refine not_bounded_of_never ?_ hd hclosed (not_exists.mp hnever) hbounded
      exact ⟨rfl, hroom⟩
    · rintro (hne | hconf)
      · exact absurd rfl hne
      · choose! f hf using hconf
        exact bounded_of_within (f := f) fun d hd hclosed ↦ ⟨Nat.zero_le _, hf d hd hclosed⟩
  · exact iff_of_true (bounded_of_not_looping (enter_of_ne_nil hcancel opened log)) (.inl hcancel)

/-- One camera, which does not accept its default configuration. -/
def brokenCamera : Cameras ℕ where
  attached := {0}
  davisInfo _ := ⟨"DAVIS346", [48, 48, 48, 49]⟩
  configCalls _ _ := ⟨false, true, true⟩

theorem not_bounded_brokenCamera : ¬ Bounded brokenCamera (enter [] ∅ []) := by
  refine not_bounded_of_never (d := 0) ⟨rfl, by decide⟩ (Finset.mem_singleton_self 0)
    (Finset.notMem_empty 0) fun k hk ↦ hk ?_
  rfl

/-! ## What discovery returns -/

variable {c}

theorem exists_step (hs : s.Continues) : ∃ dh t, step c s dh = some t := by
  by_cases hall : c.attached ⊆ s.opened
  · exact ⟨none, _, guarded_eq_some.mpr ⟨⟨hs, hall⟩, rfl⟩⟩
  · obtain ⟨d, hd, hclosed⟩ := Finset.not_subset.mp hall
    exact ⟨some d, _, guarded_eq_some.mpr ⟨⟨hs, hd, hclosed⟩, rfl⟩⟩

theorem exists_returns {usbDevs : List (Params Dev)} {opened : Finset Dev} {log : List String}
    (hbounded : Bounded c (enter usbDevs opened log)) : ∃ t, Returns c usbDevs opened log t := by
  simp only [Returns]
  split
  · obtain ⟨n, hn⟩ := hbounded
    obtain ⟨dhs, s, hrun, hdone⟩ := exists_exec_done (D := fun s ↦ ¬ s.Continues)
      (fun s hs ↦ exists_step (not_not.mp hs)) hn
    exact ⟨leave s, dhs, s, hrun, hdone, rfl⟩
  · exact ⟨_, rfl⟩

/-- The cameras `ds` have been found: they are the entries of the table, in order, and
the only cameras that discovery has left open. -/
structure Found (c : Cameras Dev) (opened : Finset Dev) (s : State Dev) (ds : List Dev) :
    Prop where
  devs : s.usbDevs = ds.map (entry c)
  ndd : s.ndd = ds.length
  nodup : ds.Nodup
  fresh : ∀ d ∈ ds, d ∈ c.attached ∧ d ∉ opened
  isOpen : ∀ d, d ∈ s.opened ↔ d ∈ opened ∨ d ∈ ds
  room : ds.length ≤ caerDiscoverCnt
  rest : s.looping = false → c.attached ⊆ s.opened

variable {opened : Finset Dev} {ds : List Dev}

theorem Found.add (h : Found c opened s ds) (hs : s.Continues) (hd : d ∈ c.attached)
    (hclosed : d ∉ s.opened) (hconf : Configures c d (s.attempts d)) :
    Found c opened (round c s (some d)) (ds ++ [d]) := by
  obtain ⟨hdevs, hopen, -, hndd, hkeep⟩ := round_of_configures hconf
  obtain ⟨hbefore, hnew⟩ := not_or.mp (mt (h.isOpen d).mpr hclosed)
  obtain ⟨hloop, hroom⟩ := hs
  refine ⟨?_, ?_, ?_, ?_, ?_, ?_, ?_⟩
  · rw [hdevs, h.devs, List.map_append, List.map_singleton]
  · rw [hndd, h.ndd, List.length_append, List.length_singleton]
  · rw [List.nodup_append_comm, List.singleton_append]
    exact List.nodup_cons.mpr ⟨hnew, h.nodup⟩
  · intro d' hd'
    rcases List.mem_append.mp hd' with hold | hlast
    · exact h.fresh d' hold
    · rw [List.mem_singleton.mp hlast]
      exact ⟨hd, hbefore⟩
  · intro d'
    rw [hopen, Finset.mem_insert, h.isOpen, List.mem_append, List.mem_singleton]
    tauto
  · rw [h.devs, List.length_map] at hroom
    rw [List.length_append, List.length_singleton]
    exact hroom
  · rw [hkeep, hloop]
    exact fun hfalse ↦ by cases hfalse

theorem Found.skip (h : Found c opened s ds) (hclosed : d ∉ s.opened)
    (hconf : ¬ Configures c d (s.attempts d)) : Found c opened (round c s (some d)) ds := by
  obtain ⟨hdevs, hopen, -, hndd, hkeep⟩ := round_of_not_configures hclosed hconf
  refine ⟨hdevs.trans h.devs, hndd.trans h.ndd, h.nodup, h.fresh, ?_, h.room, ?_⟩
  · rw [hopen]
    exact h.isOpen
  · rw [hkeep, hopen]
    exact h.rest

theorem Found.step (h : Found c opened s ds) {dh : Option Dev} {t : State Dev}
    (hstep : step c s dh = some t) : ∃ ds', Found c opened t ds' := by
  obtain ⟨⟨hs, hopens⟩, rfl⟩ := guarded_eq_some.mp hstep
  cases dh with
  | none => exact ⟨ds, h.devs, h.ndd, h.nodup, h.fresh, h.isOpen, h.room, fun _ ↦ hopens⟩
  | some d =>
      obtain ⟨hd, hclosed⟩ := hopens
      by_cases hconf : Configures c d (s.attempts d)
      · exact ⟨ds ++ [d], h.add hs hd hclosed hconf⟩
      · exact ⟨ds, h.skip hclosed hconf⟩

/-- Where discovery returns, it has found as many cameras as there is room for, or all. -/
theorem found_of_returns {log : List String} {t : State Dev}
    (h : Returns c [] opened log t) : ∃ ds, Found c opened t ds ∧
      (ds.length = caerDiscoverCnt ∨ ∀ d ∈ c.attached, d ∈ opened ∨ d ∈ ds) := by
  rw [Returns, enter_nil] at h
  obtain ⟨dhs, s, hrun, hdone, rfl⟩ := h
  have hstart : Found c opened ⟨[], opened, fun _ ↦ 0, 0, true, log⟩ [] :=
    ⟨rfl, rfl, List.nodup_nil, by simp, by simp, Nat.zero_le _, fun hfalse ↦ by cases hfalse⟩
  obtain ⟨ds, hds⟩ : ∃ ds, Found c opened s ds :=
    inv_exec (I := fun s ↦ ∃ ds, Found c opened s ds) (C := fun _ _ ↦ True)
      (fun s dh t hs _ hstep ↦ hs.elim fun _ hds ↦ hds.step hstep) ⟨[], hstart⟩
      (along_of_exec (fun _ _ ↦ trivial) hrun) hrun
  refine ⟨ds, ⟨hds.devs, hds.ndd, hds.nodup, hds.fresh, hds.isOpen, hds.room, hds.rest⟩, ?_⟩
  cases hloop : s.looping with
  | false => exact .inr fun d hd ↦ (hds.isOpen d).mp (hds.rest hloop hd)
  | true =>
      have hfull : ¬ s.usbDevs.length < caerDiscoverCnt := fun hlt ↦ hdone ⟨hloop, hlt⟩
      rw [hds.devs, List.length_map] at hfull
      exact .inl (le_antisymm hds.room (Nat.not_lt.mp hfull))

end Discovery

end Spif.Spiffer.CaerDiscovery
