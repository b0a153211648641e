import Spif.Spiffer.CaerDiscovery
import Spif.Spiffer.OneListener

/-!
# Surveys and shutdown come to an end

A survey joins threads and looks for cameras, and `spiffer_stop` joins threads.  In benign
runs neither of them joins a thread that cannot be cancelled, and both are done after a
bounded number of their own steps, whatever happens in between.

That they get on depends on two things outside: a listener that runs has to exit when it is
cancelled (it does not while it waits for a DMA controller), and the loop that opens cameras
has to end (it does not with a camera that is never configured).
-/

namespace Spif.Spiffer

open Transition
open CaerDiscovery (Cameras Params Returns Bounded)

/-- The steps of the thread that holds `usb_mtx`. -/
def Event.surveys : Event → Bool
  | .surveyStep | .discover _ _ => true
  | _ => false

def Event.stops : Event → Bool
  | .stopStep => true
  | _ => false

namespace State

variable {s : State}

/-! ## Nothing waits for a paused thread -/

theorem Inv.not_blocked (h : s.Inv) {p : ℕ} (hp : s.served p) : ¬ s.Blocked p := by
  obtain ⟨t, th, hl, ht, hrun, -⟩ := h.listening.one.1 p hp
  simp [Blocked, hl, status, ht, hrun]

theorem Inv.listener_running (h : s.Inv) {p t : ℕ} (hp : s.served p)
    (hl : s.listener p = some t) : s.status t = some .running := by
  obtain ⟨t', th, hl', ht, hrun, -⟩ := h.listening.one.1 p hp
  obtain rfl : t' = t := Option.some.inj (hl'.symm.trans hl)
  rw [status, ht, Option.map_some, hrun]

/-! ## What a step waits for -/

inductive Joinee where
  | listener (t : ℕ)
  | spinnListener (pipe : ℕ)
  | outListener (pipe : ℕ)
deriving DecidableEq, Repr

/-- The threads which a step of a survey or of `spiffer_stop` joins. -/
def joins (s : State) : Event → List Joinee
  | .surveyStep =>
      s.survey.elim [] fun sv ↦
        match sv.stage with
        | .shutdown pipe =>
            if pipe < s.pipeNumIn ∧ ¬ s.Skips sv.data pipe then
              (s.listener pipe).toList.map .listener
            else []
        | _ => []
  | .stopStep =>
      s.stop.elim [] fun
        | .inputs pipe =>
            if pipe < s.pipeNumIn then (s.listener pipe).toList.map .listener else []
        | .outputs pipe =>
            if pipe < s.pipeNumOut then [.spinnListener pipe, .outListener pipe] else []
        | .done => []
  | _ => []

/-- The threads that exit when they are cancelled, the Prophesee cameras, and the Inivation
cameras with those that are already open. -/
structure World (Dev : Type*) where
  exits : Joinee → Prop
  metas : List Serial
  cameras : Cameras Dev
  opened : Finset Dev

namespace World

variable {Dev : Type*} [DecidableEq Dev] (w : World Dev)

def metaDevs : List (Params Dev) := w.metas.map fun sn ↦ ⟨.META, sn, none⟩

/-- `usb_discover_devs` may return with these cameras. -/
def Finds (metas caers : List Serial) : Prop :=
  metas = w.metas ∧
    ∃ t, Returns w.cameras w.metaDevs w.opened [] t ∧ t.usbDevs.map Params.sn = metas ++ caers

/-- The step returns, with what is there outside. -/
def Lets (s : State) (e : Event) : Prop :=
  (∀ j ∈ s.joins e, w.exits j) ∧ ∀ metas caers, e = .discover metas caers → w.Finds metas caers

/-- Threads that run exit when they are cancelled, `spiffer_caer_discover_devs` returns, and
there are no more cameras than pipes. -/
structure Cooperates (s : State) : Prop where
  listeners : ∀ t, s.status t = some .running → w.exits (.listener t)
  outputs : ∀ pipe, w.exits (.spinnListener pipe) ∧ w.exits (.outListener pipe)
  returns : Bounded w.cameras (CaerDiscovery.enter w.metaDevs w.opened [])
  few : ∀ metas caers, w.Finds metas caers → camerasFound metas caers ≤ s.pipeNumIn

variable {w}

theorem exists_finds (h : Bounded w.cameras (CaerDiscovery.enter w.metaDevs w.opened [])) :
    ∃ caers, w.Finds w.metas caers := by
  obtain ⟨t, ht⟩ := CaerDiscovery.exists_returns h
  by_cases hmetas : w.metas = []
  · exact ⟨t.usbDevs.map Params.sn, rfl, t, ht, by rw [hmetas, List.nil_append]⟩
  · -- the discovery is cancelled in favour of the Prophesee cameras
    have hdevs : w.metaDevs ≠ [] := by simpa [metaDevs] using hmetas
    have hcancel := CaerDiscovery.enter_of_ne_nil hdevs w.opened []
    refine ⟨[], rfl, t, ht, ?_⟩
    rw [Returns, hcancel, if_neg Bool.false_ne_true] at ht
    have hkeep : t.usbDevs = w.metaDevs := by
      rw [ht, CaerDiscovery.enter]
      split <;> rfl
    rw [hkeep, metaDevs, List.map_map, List.append_nil]
    exact List.map_id _

/-- No camera is found twice. -/
theorem Finds.camerasFound_le {metas caers : List Serial} (h : w.Finds metas caers)
    (hmetas : w.metas = []) : camerasFound metas caers ≤ w.cameras.attached.card := by
  obtain ⟨rfl, t, ht, hcaers⟩ := h
  rw [metaDevs, hmetas, List.map_nil] at ht
  obtain ⟨ds, hds, -⟩ := CaerDiscovery.found_of_returns ht
  have hlength : caers.length = ds.length := by
    have heq := congrArg List.length hcaers
    rw [hmetas, hds.devs] at heq
    simpa using heq.symm
  calc camerasFound w.metas caers ≤ caers.length := by
        rw [camerasFound, if_pos hmetas]
        exact min_le_right _ _
    _ = ds.toFinset.card := by rw [hlength, List.toFinset_card_of_nodup hds.nodup]
    _ ≤ w.cameras.attached.card :=
        Finset.card_le_card fun d hd ↦ (hds.fresh d (List.mem_toFinset.mp hd)).1

theorem lets_of_joins {e : Event} (hjoins : ∀ j ∈ s.joins e, w.exits j)
    (he : ∀ metas caers, e ≠ .discover metas caers) : w.Lets s e :=
  ⟨hjoins, fun metas caers h ↦ absurd h (he metas caers)⟩

end World

variable {Dev : Type*} [DecidableEq Dev] {w : World Dev}

theorem Inv.exits_listener (h : s.Inv) (hw : w.Cooperates s) {p : ℕ} (hp : s.served p) :
    ∀ j ∈ (s.listener p).toList.map Joinee.listener, w.exits j := by
  intro j hj
  obtain ⟨t, ht, rfl⟩ := List.mem_map.mp hj
  exact hw.listeners t (h.listener_running hp (Option.mem_toList.mp ht))

theorem Inv.survey_ready (h : s.Inv) (hw : w.Cooperates s) {sv : Survey}
    (hsv : s.survey = some sv) :
    ∃ e, e.surveys ∧ s.Benign e ∧ s.Enabled e ∧ w.Lets s e := by
  have hstop := (h.late_of_survey hsv).2
  have halive : s.stop ≠ some .done := by simp [hstop]
  cases hstage : sv.stage with
  | discover =>
      obtain ⟨caers, hfinds⟩ := World.exists_finds hw.returns
      refine ⟨.discover w.metas caers, rfl, hw.few _ _ hfinds, ⟨halive, ?_⟩, ?_, ?_⟩
      · simp [hsv, hstage]
      · simp [joins]
      · rintro metas caers' ⟨⟩
        exact hfinds
  | shutdown pipe =>
      have hserved : pipe < s.pipeNumIn → ¬ s.Skips sv.data pipe → s.served pipe := by
        intro hpipe hskip
        simp only [served, hsv, hstage]
        exact ⟨⟨le_refl pipe, hpipe⟩, hskip⟩
      refine ⟨.surveyStep, rfl, trivial, ⟨halive, ?_⟩, World.lets_of_joins ?_ (by simp)⟩
      · simp only [hsv, Option.any_some, decide_eq_true_eq, SurveyReady, hstage]
        exact fun hpipe hskip ↦ h.not_blocked (hserved hpipe hskip)
      · intro j hj
        simp only [joins, hsv, Option.elim_some, hstage] at hj
        split at hj
        · rename_i hjoin
          exact h.exits_listener hw (hserved hjoin.1 hjoin.2) j hj
        · cases hj
  | startUsb dv =>
      exact ⟨.surveyStep, rfl, trivial, ⟨halive, by simp [hsv, SurveyReady, hstage]⟩,
        World.lets_of_joins (by simp [joins, hsv, hstage]) (by simp)⟩
  | startUdp pipe =>
      exact ⟨.surveyStep, rfl, trivial, ⟨halive, by simp [hsv, SurveyReady, hstage]⟩,
        World.lets_of_joins (by simp [joins, hsv, hstage]) (by simp)⟩

theorem Inv.stop_ready (h : s.Inv) (hw : w.Cooperates s) {st : Stop} (hstop : s.stop = some st)
    (hst : st ≠ .done) : s.Enabled .stopStep ∧ w.Lets s .stopStep := by
  obtain ⟨hsurvey, hphase⟩ := h.stopping hstop hst
  have hserved : ∀ pipe, st = .inputs pipe → pipe < s.pipeNumIn → s.served pipe := by
    rintro pipe rfl hpipe
    rcases hphase with ⟨hsurveyed, -⟩ | ⟨-, -, hzero, -⟩
    · simp [served, hsurvey, hstop, hsurveyed, hpipe]
    · omega
  have hready : s.StopReady st := by
    cases st with
    | done => exact absurd rfl hst
    | outputs pipe => trivial
    | inputs pipe => exact fun hpipe ↦ h.not_blocked (hserved pipe rfl hpipe)
  refine ⟨⟨by simp [hstop, hst], ?_⟩, World.lets_of_joins ?_ (by simp)⟩
  · rw [hstop]
    exact decide_eq_true hready
  · intro j hj
    rw [joins, hstop, Option.elim_some] at hj
    cases st with
    | done => exact absurd rfl hst
    | inputs pipe =>
        simp only at hj
        split at hj
        · rename_i hpipe
          exact h.exits_listener hw (hserved pipe rfl hpipe) j hj
        · cases hj
    | outputs pipe =>
        simp only at hj
        split at hj
        · rcases List.mem_pair.mp hj with rfl | rfl
          · exact (hw.outputs pipe).1
          · exact (hw.outputs pipe).2
        · cases hj

/-! ## The rest of a survey -/

/-- The number of steps to the end of a survey, the one that is to come included. -/
def stepsLeft (pipeNumIn cnt : ℕ) : Stage → ℕ
  | .shutdown pipe => (pipeNumIn - pipe) + pipeNumIn + usbDiscoverCnt + 4
  | .discover => pipeNumIn + usbDiscoverCnt + 3
  | .startUsb dv => (cnt - dv) + pipeNumIn + 2
  | .startUdp pipe => (pipeNumIn - pipe) + 1

def surveyRank (s : State) : ℕ :=
  s.survey.elim 0 fun sv ↦ stepsLeft s.pipeNumIn s.usbDevs.length sv.stage

theorem surveyRank_pos (hsurvey : s.survey ≠ none) : 0 < s.surveyRank := by
  obtain ⟨sv, hsv⟩ := Option.ne_none_iff_exists'.mp hsurvey
  rw [surveyRank, hsv, Option.elim_some]
  cases sv.stage <;> exact Nat.succ_pos _

theorem Inv.surveyRank_le (h : s.Inv) :
    s.surveyRank ≤ 2 * s.pipeNumIn + usbDiscoverCnt + 4 := by
  have hcameras := h.cameras.2
  cases hsv : s.survey with
  | none => simp [surveyRank, hsv]
  | some sv =>
      rw [surveyRank, hsv, Option.elim_some]
      cases sv.stage <;> simp only [stepsLeft] <;> omega

theorem cancelJoin_frame (s : State) (pipe : ℕ) :
    (s.cancelJoin pipe).pipeNumIn = s.pipeNumIn ∧ (s.cancelJoin pipe).pipeNumOut = s.pipeNumOut ∧
      (s.cancelJoin pipe).usbDevs = s.usbDevs := by
  unfold cancelJoin
  split <;> exact ⟨rfl, rfl, rfl⟩

theorem shutdownPipe_frame (s : State) (data : Option ℕ) (pipe : ℕ) :
    (s.shutdownPipe data pipe).pipeNumIn = s.pipeNumIn ∧
      (s.shutdownPipe data pipe).pipeNumOut = s.pipeNumOut ∧
        (s.shutdownPipe data pipe).usbDevs = s.usbDevs := by
  unfold shutdownPipe
  split
  · exact ⟨rfl, rfl, rfl⟩
  · exact cancelJoin_frame s pipe

/-- A step of a survey ends it or brings it nearer to its end. -/
theorem surveyStep_rank {sv : Survey} (hsv : s.survey = some sv) (hstage : sv.stage ≠ .discover) :
    (s.surveyStep sv).survey = none ∨ (s.surveyStep sv).surveyRank + 1 ≤ s.surveyRank := by
  have hrank : s.surveyRank = stepsLeft s.pipeNumIn s.usbDevs.length sv.stage := by
    rw [surveyRank, hsv, Option.elim_some]
  have hset (s' : State) (stage : Stage) : (s'.setStage sv stage).surveyRank =
      stepsLeft s'.pipeNumIn s'.usbDevs.length stage := rfl
  cases hst : sv.stage with
  | discover => exact absurd hst hstage
  | shutdown pipe =>
      right
      simp only [State.surveyStep, hst, hrank]
      split
      · obtain ⟨hin, -, hdevs⟩ := shutdownPipe_frame s sv.data pipe
        rw [hset, hin, hdevs]
        simp only [stepsLeft]
        omega
      · rw [hset]
        simp only [stepsLeft]
        omega
  | startUsb dv =>
      right
      simp only [State.surveyStep, hst, hrank]
      split
      · rename_i d hd
        have hlt := (List.getElem?_eq_some_iff.mp hd).1
        rw [hset]
        simp only [stepsLeft, create]
        omega
      · rw [hset]
        simp only [stepsLeft]
        omega
  | startUdp pipe =>
      simp only [State.surveyStep, hst, hrank]
      split
      · right
        rw [hset]
        simp only [stepsLeft, create]
        omega
      · left
        cases sv.caller <;> rfl

/-- What other threads do leaves a survey alone. -/
theorem Inv.survey_kept (h : s.Inv) {sv : Survey} (hsv : s.survey = some sv) {e : Event}
    (hbenign : s.Benign e) (hen : s.Enabled e) (he : ¬ e.surveys) :
    (effect s e).survey = s.survey ∧ (effect s e).pipeNumIn = s.pipeNumIn ∧
      (effect s e).usbDevs = s.usbDevs := by
  obtain ⟨⟨⟨-, -, husr1, hterm⟩, hmain⟩, hstop⟩ := h.late_of_survey hsv
  have hcall (s' : State) (hs' : s'.survey = s.survey) (caller : Caller) (data : Option ℕ) :
      s'.callSurvey caller data = s'.returnTo caller := by
    rw [callSurvey, if_pos (by rw [hs', hsv]; rfl)]
  cases e with
  | surveyStep | discover => exact absurd rfl he
  | openLog | openPipe0 | initPipes | initUdp | initSpinn | setUsr1 | setTerm | wakeUp =>
      obtain ⟨hsurveying, hpausing⟩ := hen.main_ne trivial
      rcases hmain with ⟨hm, -⟩ | ⟨hm, -⟩
      · exact absurd hm hsurveying
      · exact absurd hm hpausing
  | mainSurvey =>
      have hcalling : s.main = .calling := hen.2
      rcases hmain with ⟨hm, -⟩ | ⟨hm, -⟩ <;> rw [hm] at hcalling <;> cases hcalling
  | raiseUsr1 =>
      simp only [effect, husr1, if_true]
      exact ⟨trivial, trivial, trivial⟩
  | enterUsr1 | leaveUsr1 => exact ⟨rfl, rfl, rfl⟩
  | usr1Survey =>
      simp only [effect]
      split
      · exact ⟨rfl, rfl, rfl⟩
      · rw [hcall s rfl]
        exact ⟨rfl, rfl, rfl⟩
  | sigTerm => exact absurd (hsv.symm.trans (hbenign hterm).2) (by simp)
  | stopStep =>
      have hready := hen.2
      simp [hstop] at hready
  | startCamera t ok =>
      obtain rfl : ok = true := hbenign
      exact ⟨rfl, rfl, rfl⟩
  | metaLost t => exact absurd (hsv.symm.trans hbenign.1) (by simp)
  | caerLost t =>
      simp only [effect]
      rw [hcall s rfl]
      exact ⟨rfl, rfl, rfl⟩

theorem Inv.surveyRank_step (h : s.Inv) {t : State} {e : Event} (hbenign : s.Benign e)
    (hstep : step s e = some t) (hs : s.survey ≠ none) (ht : t.survey ≠ none) :
    t.surveyRank + (if e.surveys then 1 else 0) ≤ s.surveyRank := by
  obtain ⟨sv, hsv⟩ := Option.ne_none_iff_exists'.mp hs
  have hinv := inv_step s e t h hbenign hstep
  obtain ⟨hen, rfl⟩ := guarded_eq_some.mp hstep
  by_cases he : e.surveys
  · rw [if_pos he]
    cases e with
    | surveyStep =>
        obtain ⟨sv', hsv', hready⟩ := (Option.any_eq_true _ _).mp hen.2
        obtain rfl := Option.some.inj (hsv.symm.trans hsv')
        have hstage : sv.stage ≠ .discover := by
          intro hst
          have hfalse : s.SurveyReady sv := of_decide_eq_true hready
          rw [SurveyReady, hst] at hfalse
          exact hfalse
        simp only [effect, hsv, Option.elim_some] at ht ⊢
        exact (surveyStep_rank hsv hstage).resolve_left ht
    | discover metas caers =>
        obtain ⟨sv', hsv', hstage⟩ := (Option.any_eq_true _ _).mp hen.2
        obtain rfl := Option.some.inj (hsv.symm.trans hsv')
        have hdiscover : sv.stage = .discover := by simpa using hstage
        have hcameras := hinv.cameras.2
        have hrank : s.surveyRank = s.pipeNumIn + usbDiscoverCnt + 3 := by
          rw [surveyRank, hsv, Option.elim_some, hdiscover, stepsLeft]
        have hafter : (effect s (.discover metas caers)).surveyRank =
            stepsLeft s.pipeNumIn (effect s (.discover metas caers)).usbDevs.length
              (.startUsb 0) := by
          simp only [effect, hsv, Option.elim_some]
          rfl
        rw [hrank, hafter, stepsLeft]
        omega
    | _ => exact absurd he Bool.false_ne_true
  · obtain ⟨hsurvey, hin, hdevs⟩ := h.survey_kept hsv hbenign hen he
    rw [if_neg he, surveyRank, surveyRank, hsurvey, hin, hdevs]
    exact le_rfl

/-! ## The rest of a shutdown -/

def stopRank (s : State) : ℕ :=
  s.stop.elim 0 fun
    | .inputs pipe => (s.pipeNumIn - pipe) + s.pipeNumOut + 2
    | .outputs pipe => (s.pipeNumOut - pipe) + 1
    | .done => 0

theorem stopRank_le (s : State) : s.stopRank ≤ s.pipeNumIn + s.pipeNumOut + 2 := by
  unfold stopRank
  cases s.stop with
  | none => exact Nat.zero_le _
  | some st => cases st <;> simp only [Option.elim_some] <;> omega

theorem stopStep_rank {st : Stop} (hstop : s.stop = some st) (hst : st ≠ .done) :
    (s.stopStep st).stopRank + 1 ≤ s.stopRank := by
  cases st with
  | done => exact absurd rfl hst
  | inputs pipe =>
      simp only [State.stopStep, stopRank, hstop, Option.elim_some]
      split
      · obtain ⟨hin, hout, -⟩ := shutdownPipe_frame s none pipe
        simp only [hin, hout, Option.elim_some]
        omega
      · simp only [Option.elim_some]
        omega
  | outputs pipe =>
      simp only [State.stopStep, stopRank, hstop, Option.elim_some]
      split <;> simp only [Option.elim_some] <;> omega

/-- What happens during a shutdown leaves it alone, or ends the process at once. -/
theorem Inv.stop_kept (h : s.Inv) {st : Stop} (hstop : s.stop = some st) (hst : st ≠ .done)
    {e : Event} (hbenign : s.Benign e) (hen : s.Enabled e) (he : ¬ e.stops) :
    (effect s e).stop = some .done ∨ (effect s e).stop = s.stop ∧
      (effect s e).pipeNumIn = s.pipeNumIn ∧ (effect s e).pipeNumOut = s.pipeNumOut := by
  obtain ⟨hsurvey, hphase⟩ := h.stopping hstop hst
  have hmain : s.main = .pausing ∨ s.main = .stopping := hphase.imp (·.2.2) (·.2.1)
  cases e with
  | stopStep => exact absurd rfl he
  | openLog | openPipe0 | initUdp | initSpinn | setUsr1 | setTerm | wakeUp | mainSurvey =>
      have hm := hen.2
      rcases hmain with hpausing | hstopping
      · exact absurd (hpausing.symm.trans hm) (by simp)
      · exact absurd (hstopping.symm.trans hm) (by simp)
  | initPipes =>
      have hm := hen.2.1
      rcases hmain with hpausing | hstopping
      · exact absurd (hpausing.symm.trans hm) (by simp)
      · exact absurd (hstopping.symm.trans hm) (by simp)
  | raiseUsr1 =>
      simp only [effect]
      split
      · exact .inr ⟨rfl, rfl, rfl⟩
      · exact .inl rfl
  | enterUsr1 | leaveUsr1 => exact .inr ⟨rfl, rfl, rfl⟩
  | usr1Survey =>
      rcases hbenign with htaken | hbusy | ⟨-, hnone⟩
      · simp only [effect, htaken, if_true]
        exact .inr ⟨trivial, trivial, trivial⟩
      · rw [hsurvey] at hbusy
        cases hbusy
      · exact absurd (hstop.symm.trans hnone) (by simp)
  | sigTerm =>
      have hterm : ¬ s.termSet := fun hterm ↦ absurd (hstop.symm.trans (hen.2 hterm)) (by simp)
      exact .inl (by simp [effect, hterm])
  | surveyStep | discover =>
      have hready := hen.2
      simp [hsurvey] at hready
  | startCamera t ok =>
      obtain rfl : ok = true := hbenign
      exact .inr ⟨rfl, rfl, rfl⟩
  | metaLost t => exact absurd (hstop.symm.trans hbenign.2) (by simp)
  | caerLost t =>
      rcases hbenign with hbusy | hnone
      · rw [hsurvey] at hbusy
        cases hbusy
      · exact absurd (hstop.symm.trans hnone) (by simp)

structure Stopping (s : State) : Prop where
  inv : s.Inv
  stop : s.stop ≠ none

theorem Stopping.step_rank (h : s.Stopping) {t : State} {e : Event} (hbenign : s.Benign e)
    (hstep : step s e = some t) (hs : s.stop ≠ some .done) (ht : t.stop ≠ some .done) :
    t.Stopping ∧ t.stopRank + (if e.stops then 1 else 0) ≤ s.stopRank := by
  obtain ⟨st, hstop⟩ := Option.ne_none_iff_exists'.mp h.stop
  have hst : st ≠ .done := fun hdone ↦ hs (hstop.trans (congrArg some hdone))
  have hinv := inv_step s e t h.inv hbenign hstep
  obtain ⟨hen, rfl⟩ := guarded_eq_some.mp hstep
  by_cases he : e.stops
  · cases e with
    | stopStep =>
        rw [if_pos he]
        have heffect : effect s .stopStep = s.stopStep st := by
          simp only [effect, hstop, Option.elim_some]
        rw [heffect] at hinv ⊢
        refine ⟨⟨hinv, ?_⟩, stopStep_rank hstop hst⟩
        cases st with
        | done => exact absurd rfl hst
        | inputs pipe | outputs pipe =>
            simp only [State.stopStep]
            split <;> exact Option.some_ne_none _
    | _ => exact absurd he Bool.false_ne_true
  · obtain ⟨hkept, hin, hout⟩ := (h.inv.stop_kept hstop hst hbenign hen he).resolve_left ht
    refine ⟨⟨hinv, hkept ▸ h.stop⟩, ?_⟩
    rw [if_neg he, stopRank, stopRank, hkept, hin, hout]
    exact le_rfl

theorem Stopping.next (h : s.Stopping) {t : State} {e : Event} (hbenign : s.Benign e)
    (hstep : step s e = some t) : t.Stopping := by
  have hs : s.stop ≠ some .done := (guarded_eq_some.mp hstep).1.1
  by_cases ht : t.stop = some .done
  · exact ⟨inv_step s e t h.inv hbenign hstep, by simp [ht]⟩
  · exact (h.step_rank hbenign hstep hs ht).1

theorem Stopping.stopRank_pos (h : s.Stopping) (hs : s.stop ≠ some .done) : 0 < s.stopRank := by
  obtain ⟨st, hstop⟩ := Option.ne_none_iff_exists'.mp h.stop
  rw [stopRank, hstop, Option.elim_some]
  cases st with
  | done => exact absurd hstop hs
  | inputs pipe | outputs pipe => exact Nat.succ_pos _

/-! ## Runs -/

/-- Where the world cooperates, a survey in progress can take its next step, and so can a
shutdown.  Both end after a bounded number of steps of their own, among which a discovery
that has returned is one. -/
structure Progresses (w : World Dev) (s : State) : Prop where
  surveyReady : s.survey ≠ none → w.Cooperates s →
    ∃ e, e.surveys ∧ s.Benign e ∧ s.Enabled e ∧ w.Lets s e
  surveyEnds : ∀ es t, Along step Benign s es → exec step s es = some t →
    2 * s.pipeNumIn + usbDiscoverCnt + 4 ≤ es.countP Event.surveys →
      ∃ pre u, pre <+: es ∧ exec step s pre = some u ∧ u.survey = none
  stopReady : s.stop ≠ none → s.stop ≠ some .done → w.Cooperates s →
    s.Enabled .stopStep ∧ w.Lets s .stopStep
  stopEnds : s.stop ≠ none → ∀ es t, Along step Benign s es → exec step s es = some t →
    s.pipeNumIn + s.pipeNumOut + 2 ≤ es.countP Event.stops →
      ∃ pre u, pre <+: es ∧ exec step s pre = some u ∧ u.stop = some .done

theorem progresses (w : World Dev) (es : List Event) (s : State)
    (hbenign : Along step Benign init es) (hrun : exec step init es = some s) :
    s.Progresses w := by
  have h : s.Inv := inv_exec inv_step inv_init hbenign hrun
  constructor
  · intro hsurvey hw
    obtain ⟨sv, hsv⟩ := Option.ne_none_iff_exists'.mp hsurvey
    exact h.survey_ready hw hsv
  · intro es t hes ht hwork
    exact exists_prefix_done _ inv_step (fun s _ hs ↦ surveyRank_pos hs)
      (fun s e t hs hb hst ↦ hs.surveyRank_step hb hst) h hes ht (h.surveyRank_le.trans hwork)
  · intro hstop hdone hw
    obtain ⟨st, hst⟩ := Option.ne_none_iff_exists'.mp hstop
    exact h.stop_ready hw hst fun heq ↦ hdone (hst.trans (congrArg some heq))
  · intro hstop es t hes ht hwork
    have hstopping : s.Stopping := ⟨h, hstop⟩
    exact exists_prefix_done (fun s ↦ s.stop = some .done)
      (fun s e t hs hb hst ↦ hs.next hb hst) (fun s hs hd ↦ hs.stopRank_pos hd)
      (fun s e t hs hb hst hd hd' ↦ (hs.step_rank hb hst hd hd').2) hstopping hes ht
      (s.stopRank_le.trans hwork)

/-- A camera is lost, and the survey has shut down its listener. -/
def lostCamera : List Event :=
  startUp ++
    [.wakeUp, .mainSurvey, .discover [] [[49]], .surveyStep, .surveyStep, .surveyStep, .surveyStep,
      .startCamera 0 true, .caerLost 0, .surveyStep]

/-- Listeners exit when they are cancelled, and another camera is there, which is configured
at the second attempt. -/
def otherCamera : World ℕ where
  exits _ := True
  metas := []
  cameras := ⟨{1}, fun _ ↦ ⟨"DAVIS346", [50]⟩, fun _ k ↦ ⟨k = 1, true, true⟩⟩
  opened := ∅

theorem bounded_otherCamera : Bounded otherCamera.cameras
    (CaerDiscovery.enter otherCamera.metaDevs otherCamera.opened []) := by
  refine (CaerDiscovery.bounded_iff _ _ _ _).mpr (.inr fun d _ _ ↦ ⟨1, ?_⟩)
  change (CaerDiscovery.spifferCaerConfigDev ⟨true, true, true⟩).1 ≠ CaerDiscovery.spifferError
  decide

theorem cooperates_otherCamera (hin : 1 ≤ s.pipeNumIn) : otherCamera.Cooperates s where
  listeners _ _ := trivial
  outputs _ := ⟨trivial, trivial⟩
  returns := bounded_otherCamera
  few metas caers h := by
    have hcard : camerasFound metas caers ≤ 1 := h.camerasFound_le rfl
    exact hcard.trans hin

theorem progresses_lostCamera :
    ((exec step init lostCamera).get (by decide +kernel)).Progresses otherCamera ∧
      otherCamera.Cooperates ((exec step init lostCamera).get (by decide +kernel)) :=
  ⟨progresses otherCamera lostCamera _ (by decide +kernel) (Option.some_get _).symm,
    cooperates_otherCamera (by decide +kernel)⟩

end State

end Spif.Spiffer
