import Spif.Spiffer.Surveys

/-!
# One listener per pipe

At rest every input pipe has exactly one listener.  While a survey runs, and
while `spiffer_stop` shuts spiffer down, the pipes that have a listener are
known from how far it has come: `served` says which they are.
-/

namespace Spif.Spiffer

open Transition

def Event.StartsUp : Event → Prop
  | .openLog _ | .openPipe0 _ _ _ | .initPipes _ | .initUdp _ | .initSpinn | .setUsr1 _
  | .setTerm _ | .wakeUp => True
  | _ => False

namespace State

/-- The pipes in `S` have one running listener each, which `listener` names, and
no others are running. -/
def OnePerPipe (s : State) (S : ℕ → Prop) : Prop :=
  (∀ p, S p → ∃ (t : ℕ) (th : Thread), s.listener p = some t ∧ s.threads[t]? = some th ∧
      th.status = .running ∧ th.pipe = p) ∧
    ∀ (t : ℕ) (th : Thread), s.threads[t]? = some th → th.status = .running →
      S th.pipe ∧ s.listener th.pipe = some t

/-- No thread is misused, no listener uses a pipe that does not exist, and at
rest there is one listener for every input pipe. -/
def OneListener (s : State) : Prop :=
  s.misuse = false ∧
    (∀ th ∈ s.threads, th.status = .running → th.pipe < s.pipeNumIn) ∧
    (s.surveyed → s.survey = none → s.stop = none → s.OnePerPipe (· < s.pipeNumIn))

def camerasFound (metas caers : List Serial) : ℕ :=
  min usbDiscoverCnt (if metas = [] then caers.length else metas.length)

/-- Start-up succeeds once the number of pipes is known, and so do the cameras.
SIGUSR1 does not come before the first survey holds `usb_mtx`.  SIGTERM comes
after the first survey and not during a survey, and no survey begins after it.
There are no more cameras than pipes.  Prophesee cameras are not lost during
a survey. -/
def Benign (s : State) : Event → Prop
  | .initPipes ok | .initUdp ok | .setUsr1 ok | .setTerm ok | .startCamera _ ok => ok
  | .usr1Survey => s.usr1Taken ∨ s.survey.isSome ∨ s.surveyed ∧ s.stop = none
  | .sigTerm => s.termSet → s.surveyed ∧ s.survey = none
  | .discover metas caers => camerasFound metas caers ≤ s.pipeNumIn
  | .metaLost _ => s.survey = none ∧ s.stop = none
  | .caerLost _ => s.survey.isSome ∨ s.stop = none
  | _ => True

instance (s : State) : ∀ e, Decidable (Benign s e)
  | .initPipes _ | .initUdp _ | .setUsr1 _ | .setTerm _ | .startCamera _ _ =>
      inferInstanceAs (Decidable (_ = true))
  | .usr1Survey => inferInstanceAs (Decidable (_ ∨ _ ∨ _ ∧ _))
  | .sigTerm => inferInstanceAs (Decidable (_ → _ ∧ _))
  | .discover _ _ => inferInstanceAs (Decidable (_ ≤ _))
  | .metaLost _ => inferInstanceAs (Decidable (_ ∧ _))
  | .caerLost _ => inferInstanceAs (Decidable (_ ∨ _))
  | .openLog _ | .openPipe0 _ _ _ | .initSpinn | .wakeUp | .mainSurvey | .raiseUsr1 | .enterUsr1
  | .leaveUsr1 | .surveyStep | .stopStep => .isTrue trivial

/-! ## Listeners come and go -/

/-- `OnePerPipe`, and camera listeners have the pipes of their devices. -/
structure Listening (s : State) (S : ℕ → Prop) : Prop where
  one : s.OnePerPipe S
  device : ∀ (t : ℕ) (th : Thread), s.threads[t]? = some th → th.status = .running →
    ∀ dev type, th.source = .usb dev type →
      ∃ d, s.usbDevs[dev]? = some d ∧ d.pipe = th.pipe ∧ d.type = type

variable {s s' : State} {S S' : ℕ → Prop}

theorem Listening.congr (h : s.Listening S) (hthreads : s'.threads = s.threads)
    (hlistener : s'.listener = s.listener) (hdevs : s'.usbDevs = s.usbDevs)
    (hS : ∀ p, S p ↔ S' p) : s'.Listening S' := by
  obtain rfl : S = S' := funext fun p ↦ propext (hS p)
  obtain ⟨⟨hnamed, honly⟩, hdevice⟩ := h
  constructor
  · rw [OnePerPipe, hthreads, hlistener]
    exact ⟨hnamed, honly⟩
  · rw [hthreads, hdevs]
    exact hdevice

theorem Listening.retire (h : s.Listening S) {t : ℕ} {th : Thread} (ht : s.threads[t]? = some th)
    (hrun : th.status = .running) {st : Status} (hst : st ≠ .running) :
    (s.setStatus t st).Listening fun p ↦ S p ∧ p ≠ th.pipe := by
  obtain ⟨⟨hnamed, honly⟩, hdevice⟩ := h
  have hkeep : ∀ (t' : ℕ) (th' : Thread), (s.setStatus t st).threads[t']? = some th' →
      th'.status = .running → t ≠ t' ∧ s.threads[t']? = some th' := by
    intro t' th' ht' hrun'
    obtain ⟨th₀, hth₀, rfl⟩ := getElem?_modify_eq_some.mp ht'
    by_cases heq : t = t'
    · simp only [heq, if_true] at hrun'
      exact absurd hrun' hst
    · simpa [heq] using hth₀
  refine ⟨⟨?_, ?_⟩, ?_⟩
  · rintro p ⟨hp, hne⟩
    obtain ⟨t', th', hl, ht', hrun', hpipe⟩ := hnamed p hp
    have heq : t ≠ t' := by
      rintro rfl
      obtain rfl := Option.some.inj (ht.symm.trans ht')
      exact hne hpipe.symm
    refine ⟨t', th', hl, ?_, hrun', hpipe⟩
    exact getElem?_modify_eq_some.mpr ⟨th', ht', (if_neg heq).symm⟩
  · intro t' th' ht' hrun'
    obtain ⟨heq, hth'⟩ := hkeep t' th' ht' hrun'
    obtain ⟨hS, hl⟩ := honly t' th' hth' hrun'
    refine ⟨⟨hS, ?_⟩, hl⟩
    intro hpipe
    have hsame := (honly t th ht hrun).2
    rw [← hpipe, hl] at hsame
    exact heq (Option.some.inj hsame).symm
  · intro t' th' ht' hrun'
    exact hdevice t' th' (hkeep t' th' ht' hrun').2 hrun'

theorem Listening.create (h : s.Listening S) {pipe : ℕ} (hpipe : ¬ S pipe) {source : Source}
    (hsource : ∀ dev type, source = .usb dev type →
      ∃ d, s.usbDevs[dev]? = some d ∧ d.pipe = pipe ∧ d.type = type) :
    (s.create pipe source).Listening fun p ↦ S p ∨ p = pipe := by
  obtain ⟨⟨hnamed, honly⟩, hdevice⟩ := h
  refine ⟨⟨?_, ?_⟩, ?_⟩
  · rintro p (hp | rfl)
    · obtain ⟨t, th, hl, ht, hrun, hpp⟩ := hnamed p hp
      have hne : p ≠ pipe := by
        rintro rfl
        exact hpipe hp
      exact ⟨t, th, by simp [State.create, hne, hl],
        getElem?_concat_eq_some.mpr (.inl ht), hrun, hpp⟩
    · exact ⟨s.threads.length, _, by simp [State.create],
        getElem?_concat_eq_some.mpr (.inr ⟨rfl, rfl⟩), rfl, rfl⟩
  · intro t th ht hrun
    rcases getElem?_concat_eq_some.mp ht with ht | ⟨rfl, rfl⟩
    · obtain ⟨hS, hl⟩ := honly t th ht hrun
      have hne : th.pipe ≠ pipe := by
        rintro rfl
        exact hpipe hS
      exact ⟨.inl hS, by simp [State.create, hne, hl]⟩
    · exact ⟨.inr rfl, by simp [State.create]⟩
  · intro t th ht hrun dev type hsrc
    rcases getElem?_concat_eq_some.mp ht with ht | ⟨rfl, rfl⟩
    · exact hdevice t th ht hrun dev type hsrc
    · exact hsource dev type hsrc

theorem Listening.cancelJoin (h : s.Listening S) {pipe : ℕ} (hpipe : S pipe) :
    (s.cancelJoin pipe).Listening (fun p ↦ S p ∧ p ≠ pipe) ∧
      ∃ t, s.cancelJoin pipe = s.setStatus t .joined := by
  obtain ⟨t, th, hl, ht, hrun, rfl⟩ := h.one.1 pipe hpipe
  have hjoin : s.cancelJoin th.pipe = s.setStatus t .joined := by
    simp [State.cancelJoin, hl, status, ht, hrun, Option.filter]
  rw [hjoin]
  exact ⟨h.retire ht hrun (by simp), t, rfl⟩

/-! ## The invariant -/

def served (s : State) (p : ℕ) : Prop :=
  match s.survey with
  | some sv =>
      match sv.stage with
      | .shutdown pipe => (pipe ≤ p ∧ p < s.pipeNumIn) ∧ ¬ s.Skips sv.data p
      | .discover => False
      | .startUsb dv => p ∈ (s.usbDevs.map DevParams.pipe).take dv
      | .startUdp pipe => p < pipe
  | none =>
      s.surveyed ∧
        match s.stop with
        | none => p < s.pipeNumIn
        | some (.inputs pipe) => pipe ≤ p ∧ p < s.pipeNumIn
        | some _ => False

def Early (s : State) : Prop :=
  s.threads = [] ∧ s.usbDevs = [] ∧ s.survey = none ∧ s.surveyed = false

def Ready (s : State) : Prop :=
  s.outListeners = s.pipeNumOut ∧ s.spinnListeners = s.pipeNumOut ∧ s.usr1Set ∧ s.termSet

def Unstopped (s : State) : Prop := s.stop = none ∨ s.stop = some .done

/-- How far start-up has come before the first survey. -/
def Starting (s : State) : Prop :=
  match s.main with
  | .openLog | .openPipe0 => s.Unstopped ∧ s.pipeNumIn = 0 ∧ s.pipeNumOut = 0
  | .initPipes | .initUdp => s.Unstopped
  | .initSpinn => s.Unstopped ∧ s.outListeners = s.pipeNumOut
  | .setUsr1 => s.Unstopped ∧ s.outListeners = s.pipeNumOut ∧ s.spinnListeners = s.pipeNumOut
  | .setTerm =>
      s.Unstopped ∧ s.outListeners = s.pipeNumOut ∧ s.spinnListeners = s.pipeNumOut ∧ s.usr1Set
  | .sleeping | .calling => s.Unstopped ∧ s.Ready
  | .surveying | .pausing => False
  | .stopping => s.pipeNumIn = 0 ∧ s.pipeNumOut = 0

def Late (s : State) : Prop :=
  s.Ready ∧
    (s.main = .surveying ∧ (∃ sv, s.survey = some sv ∧ sv.caller = .main) ∨
      s.main = .pausing ∧ s.surveyed)

structure Inv (s : State) : Prop where
  misuse : s.misuse = false
  listening : s.Listening s.served
  table : (s.usbDevs.map DevParams.pipe).Perm (List.range s.usbDevs.length)
  cameras : s.usbDevs.length ≤ s.pipeNumIn ∧ s.usbDevs.length ≤ usbDiscoverCnt
  phase : s.Early ∧ s.Starting ∨ s.Late
  startUdp : ∀ sv pipe, s.survey = some sv → sv.stage = .startUdp pipe → pipe ≤ s.pipeNumIn
  stop : s.stop ≠ none → s.survey = none

theorem inv_of_early (he : s.Early) (hstarting : s.Starting) (hmisuse : s.misuse = false) :
    s.Inv := by
  obtain ⟨hthreads, hdevs, hsurvey, hsurveyed⟩ := he
  constructor
  · exact hmisuse
  · constructor
    · simp [OnePerPipe, served, hthreads, hsurvey, hsurveyed]
    · simp [hthreads]
  · simp [hdevs]
  · simp [hdevs]
  · exact .inl ⟨⟨hthreads, hdevs, hsurvey, hsurveyed⟩, hstarting⟩
  · simp [hsurvey]
  · exact fun _ ↦ hsurvey

theorem inv_init : init.Inv :=
  inv_of_early ⟨rfl, rfl, rfl, rfl⟩ ⟨.inl rfl, rfl, rfl⟩ rfl

theorem Inv.late_of_survey (h : s.Inv) {sv : Survey} (hsv : s.survey = some sv) :
    s.Late ∧ s.stop = none := by
  constructor
  · rcases h.phase with ⟨⟨-, -, hnone, -⟩, -⟩ | hlate
    · exact absurd (hsv.symm.trans hnone) (by simp)
    · exact hlate
  · by_contra hstop
    exact absurd (hsv.symm.trans (h.stop hstop)) (by simp)

theorem Inv.pausing_of_surveyed (h : s.Inv) (hsurveyed : s.surveyed) (hsv : s.survey = none) :
    s.Ready ∧ s.main = .pausing := by
  rcases h.phase with ⟨⟨-, -, -, hnot⟩, -⟩ | ⟨hready, ⟨-, sv, hsome, -⟩ | ⟨hmain, -⟩⟩
  · exact absurd (hsurveyed.symm.trans hnot) (by simp)
  · exact absurd (hsv.symm.trans hsome) (by simp)
  · exact ⟨hready, hmain⟩

theorem Starting.stop_eq_none (h : s.Starting) (hmain : s.main ≠ .stopping)
    (halive : s.stop ≠ some .done) : s.stop = none := by
  have hun : s.Unstopped := by
    unfold Starting at h
    split at h
    all_goals first | exact h.1 | exact h | exact h.elim | contradiction
  exact hun.resolve_right halive

/-! ## Start-up -/

theorem inv_fail (he : s.Early) (hmisuse : s.misuse = false) (hin : s.pipeNumIn = 0)
    (hout : s.pipeNumOut = 0) : s.fail.Inv :=
  inv_of_early he ⟨hin, hout⟩ hmisuse

theorem Inv.killed (h : s.Inv) (hnot : ¬ (s.usr1Set ∧ s.termSet)) :
    ({ s with stop := some .done } : State).Inv := by
  rcases h.phase with ⟨he, hstarting⟩ | ⟨⟨-, -, husr1, hterm⟩, -⟩
  · refine inv_of_early (s := { s with stop := some .done }) he ?_ h.misuse
    unfold Starting at hstarting ⊢
    cases hmain : s.main <;> simp only [hmain, Unstopped] at hstarting ⊢ <;> simp_all [Ready]
  · exact absurd ⟨husr1, hterm⟩ hnot

theorem Inv.starting (h : s.Inv) (hsurveying : s.main ≠ .surveying) (hpausing : s.main ≠ .pausing) :
    s.Early ∧ s.Starting := by
  rcases h.phase with hearly | ⟨-, ⟨hmain, -⟩ | ⟨hmain, -⟩⟩
  · exact hearly
  · exact absurd hmain hsurveying
  · exact absurd hmain hpausing

theorem Enabled.main_ne {e : Event} (hen : s.Enabled e) (hup : e.StartsUp) :
    s.main ≠ .surveying ∧ s.main ≠ .pausing := by
  obtain ⟨-, hmain⟩ := hen
  cases e with
  | openLog | openPipe0 | initUdp | initSpinn | setUsr1 | setTerm | wakeUp => simp [hmain]
  | initPipes => simp [hmain.1]
  | _ => exact absurd hup (by simp [Event.StartsUp])

theorem Inv.startUp (h : s.Inv) {e : Event} (hup : e.StartsUp) (hbenign : s.Benign e)
    (hen : s.Enabled e) : (effect s e).Inv := by
  obtain ⟨hsurveying, hpausing⟩ := hen.main_ne hup
  obtain ⟨he, hst⟩ := h.starting hsurveying hpausing
  obtain ⟨-, hmain⟩ := hen
  cases e with
  | openLog ok =>
      simp only [Starting, hmain] at hst
      cases ok with
      | true => exact inv_of_early (s := { s with main := .openPipe0 }) he hst h.misuse
      | false => exact inv_fail he h.misuse hst.2.1 hst.2.2
  | openPipe0 ok pipeNumIn pipeNumOut =>
      simp only [Starting, hmain] at hst
      cases ok with
      | true =>
          exact inv_of_early (s := { s with main := .initPipes, pipeNumIn, pipeNumOut }) he hst.1
            h.misuse
      | false => exact inv_fail he h.misuse hst.2.1 hst.2.2
  | initPipes ok =>
      obtain rfl : ok = true := hbenign
      simp only [Starting, hmain.1] at hst
      exact inv_of_early (s := { s with main := .initUdp }) he hst h.misuse
  | initUdp ok =>
      obtain rfl : ok = true := hbenign
      simp only [Starting, hmain] at hst
      exact inv_of_early (s := { s with main := .initSpinn, outListeners := s.pipeNumOut }) he
        ⟨hst, rfl⟩ h.misuse
  | initSpinn =>
      simp only [Starting, hmain] at hst
      obtain ⟨hthreads, -, hsurvey⟩ := he
      exact inv_of_early
        (s := { s with main := .setUsr1, usbDevs := [], spinnListeners := s.pipeNumOut })
        ⟨hthreads, rfl, hsurvey⟩ ⟨hst.1, hst.2, rfl⟩ h.misuse
  | setUsr1 ok =>
      obtain rfl : ok = true := hbenign
      simp only [Starting, hmain] at hst
      obtain ⟨hun, hout, hspinn⟩ := hst
      exact inv_of_early (s := { s with main := .setTerm, usr1Taken := false, usr1Set := true }) he
        ⟨hun, hout, hspinn, rfl⟩ h.misuse
  | setTerm ok =>
      obtain rfl : ok = true := hbenign
      simp only [Starting, hmain] at hst
      obtain ⟨hun, hout, hspinn, husr1⟩ := hst
      exact inv_of_early (s := { s with main := .sleeping, termSet := true }) he
        ⟨hun, hout, hspinn, husr1, rfl⟩ h.misuse
  | wakeUp =>
      simp only [Starting, hmain] at hst
      have hcalling : effect s .wakeUp = { s with main := .calling } := by
        simp [effect, he.2.1]
      rw [hcalling]
      exact inv_of_early (s := { s with main := .calling }) he hst h.misuse
  | _ => exact absurd hup (by simp [Event.StartsUp])

/-! ## Surveys -/

theorem Inv.setHandler (h : s.Inv) (pending taken : Bool) (handler : Handler) :
    ({ s with usr1Pending := pending, usr1Taken := taken, handler } : State).Inv :=
  ⟨h.misuse, h.listening.congr rfl rfl rfl fun _ ↦ Iff.rfl, h.table, h.cameras, h.phase,
    h.startUdp, h.stop⟩

theorem Inv.callSurvey_busy (h : s.Inv) (hbusy : s.survey.isSome) {caller : Caller}
    (hcaller : caller ≠ .main) (data : Option ℕ) : (s.callSurvey caller data).Inv := by
  rw [callSurvey, if_pos hbusy]
  cases caller with
  | main => exact absurd rfl hcaller
  | usr1 => exact h.setHandler _ _ _
  | camera => exact h

/-- The first survey finds no listeners, and no cameras, and shuts down nothing. -/
theorem Inv.callSurvey_main (h : s.Inv) (halive : s.stop ≠ some .done) (hmain : s.main = .calling) :
    (s.callSurvey .main (some usbDiscoverCnt)).Inv := by
  obtain ⟨⟨hthreads, hdevs, hsurvey, -⟩, hst⟩ := h.starting (by simp [hmain]) (by simp [hmain])
  simp only [Starting, hmain] at hst
  have hcall : s.callSurvey .main (some usbDiscoverCnt) =
      { s with main := .surveying, survey := some ⟨.main, some usbDiscoverCnt, .discover⟩ } := by
    simp [callSurvey, hsurvey, enter]
  rw [hcall]
  constructor
  · exact h.misuse
  · constructor
    · simp [OnePerPipe, served, hthreads]
    · simp [hthreads]
  · exact h.table
  · exact h.cameras
  · exact .inr ⟨hst.2, .inl ⟨rfl, _, rfl, rfl⟩⟩
  · rintro sv pipe ⟨rfl⟩ hstage
    exact absurd hstage (by simp)
  · exact fun hstop ↦ absurd (hst.1.resolve_right halive) hstop

/-- A later survey begins with the listeners of all pipes but the one that it skips. -/
theorem Inv.callSurvey_idle (h : s.Inv) (hsurveyed : s.surveyed) (hsurvey : s.survey = none)
    (hstop : s.stop = none) {caller : Caller} (hcaller : caller ≠ .main) {data : Option ℕ}
    (hdata : data.all (· < usbDiscoverCnt)) {threads : List Thread}
    (hlistening : ({ s with threads } : State).Listening fun p ↦
      p < s.pipeNumIn ∧ ¬ s.Skips data p) :
    (({ s with threads } : State).callSurvey caller data).Inv := by
  obtain ⟨hready, hmain⟩ := h.pausing_of_surveyed hsurveyed hsurvey
  have hcall : ({ s with threads } : State).callSurvey caller data =
      { ({ s with threads } : State).enter caller with
        survey := some ⟨caller, data, .shutdown 0⟩ } := by
    simp [callSurvey, hsurvey, hdata]
  rw [hcall]
  have hlist : ({ s with threads, survey := some ⟨caller, data, .shutdown 0⟩ } : State).Listening
      (served { s with threads, survey := some ⟨caller, data, .shutdown 0⟩ }) := by
    refine hlistening.congr rfl rfl rfl fun p ↦ ?_
    simp only [served, Nat.zero_le, true_and]
    rfl
  have hudp : ∀ sv pipe, some (⟨caller, data, .shutdown 0⟩ : Survey) = some sv →
      sv.stage = .startUdp pipe → pipe ≤ s.pipeNumIn := by
    rintro sv pipe ⟨rfl⟩ hstage
    exact absurd hstage (by simp)
  cases caller with
  | main => exact absurd rfl hcaller
  | usr1 | camera =>
      exact ⟨h.misuse, hlist.congr rfl rfl rfl fun _ ↦ Iff.rfl, h.table, h.cameras,
        .inr ⟨hready, .inr ⟨hmain, hsurveyed⟩⟩, hudp, fun hne ↦ absurd hstop hne⟩

theorem Late.setStage (h : s.Late) {sv : Survey} (hsv : s.survey = some sv) {stage : Stage} :
    (s.setStage sv stage).Late := by
  obtain ⟨hready, hmain⟩ := h
  refine ⟨hready, hmain.imp_left ?_⟩
  rintro ⟨hmain, sv', hsv', hcaller⟩
  obtain rfl := Option.some.inj (hsv.symm.trans hsv')
  exact ⟨hmain, _, rfl, hcaller⟩

theorem Inv.setStage (h : s.Inv) {sv : Survey} (hsv : s.survey = some sv) {stage : Stage}
    {threads : List Thread} {listener : ℕ → Option ℕ}
    (hlistening : ({ s with threads, listener } : State).Listening
      (served (s.setStage sv stage)))
    (hudp : ∀ pipe, stage = .startUdp pipe → pipe ≤ s.pipeNumIn) :
    (({ s with threads, listener } : State).setStage sv stage).Inv := by
  obtain ⟨hlate, hstop⟩ := h.late_of_survey hsv
  constructor
  · exact h.misuse
  · exact hlistening.congr rfl rfl rfl fun _ ↦ Iff.rfl
  · exact h.table
  · exact h.cameras
  · exact .inr (hlate.setStage hsv)
  · rintro sv' pipe ⟨rfl⟩ hstage
    exact hudp pipe hstage
  · exact fun hne ↦ absurd hstop hne

theorem Inv.shutdown_step (h : s.Inv) {sv : Survey} (hsv : s.survey = some sv) {pipe : ℕ}
    (hstage : sv.stage = .shutdown pipe) : (s.surveyStep sv).Inv := by
  have hl : s.Listening fun p ↦ (pipe ≤ p ∧ p < s.pipeNumIn) ∧ ¬ s.Skips sv.data p :=
    h.listening.congr rfl rfl rfl fun p ↦ by simp [served, hsv, hstage]
  simp only [State.surveyStep, hstage]
  split
  · rename_i hpipe
    rw [shutdownPipe]
    split
    · rename_i hskip
      refine h.setStage hsv (hl.congr rfl rfl rfl fun p ↦ ?_) (by simp)
      change (_ ∧ ¬ s.Skips sv.data p) ↔ (_ ∧ ¬ s.Skips sv.data p)
      have hne : ¬ s.Skips sv.data p → p ≠ pipe := by
        rintro hp rfl
        exact hp hskip
      constructor <;> rintro ⟨⟨hle, hlt⟩, hp⟩ <;> have := hne hp <;> exact ⟨⟨by omega, hlt⟩, hp⟩
    · rename_i hskip
      obtain ⟨hl', t, ht⟩ := hl.cancelJoin ⟨⟨le_refl pipe, hpipe⟩, hskip⟩
      rw [ht] at hl' ⊢
      refine h.setStage hsv (hl'.congr rfl rfl rfl fun p ↦ ?_) (by simp)
      change (_ ∧ ¬ s.Skips sv.data p) ∧ _ ↔ (_ ∧ ¬ s.Skips sv.data p)
      constructor
      · rintro ⟨⟨⟨hle, hlt⟩, hp⟩, hne⟩
        exact ⟨⟨by omega, hlt⟩, hp⟩
      · rintro ⟨⟨hle, hlt⟩, hp⟩
        exact ⟨⟨⟨by omega, hlt⟩, hp⟩, by omega⟩
  · rename_i hpipe
    refine h.setStage hsv (hl.congr rfl rfl rfl fun p ↦ ?_) (by simp)
    change _ ↔ False
    rw [iff_false]
    rintro ⟨⟨hle, hlt⟩, -⟩
    omega

theorem Inv.startUsb_step (h : s.Inv) {sv : Survey} (hsv : s.survey = some sv) {dv : ℕ}
    (hstage : sv.stage = .startUsb dv) : (s.surveyStep sv).Inv := by
  have hl : s.Listening fun p ↦ p ∈ (s.usbDevs.map DevParams.pipe).take dv :=
    h.listening.congr rfl rfl rfl fun p ↦ by simp [served, hsv, hstage]
  simp only [State.surveyStep, hstage]
  split
  · rename_i d hd
    have hpipe : (s.usbDevs.map DevParams.pipe)[dv]? = some d.pipe := by simp [hd]
    have htake : (s.usbDevs.map DevParams.pipe).take (dv + 1) =
        (s.usbDevs.map DevParams.pipe).take dv ++ [d.pipe] := by
      rw [List.take_add_one, hpipe, Option.toList_some]
    have hfree : d.pipe ∉ (s.usbDevs.map DevParams.pipe).take dv := by
      have hnodup := h.table.nodup_iff.mpr List.nodup_range
      have := hnodup.sublist (List.take_sublist (dv + 1) _)
      rw [htake, List.nodup_append] at this
      exact fun hmem ↦ this.2.2 _ hmem _ (by simp) rfl
    have hsource : ∀ dev type, Source.usb dv d.type = .usb dev type →
        ∃ d', s.usbDevs[dev]? = some d' ∧ d'.pipe = d.pipe ∧ d'.type = type := by
      rintro dev type ⟨rfl, rfl⟩
      exact ⟨d, hd, rfl, rfl⟩
    refine h.setStage hsv ((hl.create hfree hsource).congr rfl rfl rfl fun p ↦ ?_) (by simp)
    change _ ↔ p ∈ (s.usbDevs.map DevParams.pipe).take (dv + 1)
    rw [htake, List.mem_append, List.mem_singleton]
  · rename_i hd
    have hlen : s.usbDevs.length ≤ dv := List.getElem?_eq_none_iff.mp hd
    refine h.setStage hsv (hl.congr rfl rfl rfl fun p ↦ ?_) ?_
    · change _ ↔ p < s.usbDevs.length
      rw [List.take_of_length_le (by simpa using hlen), h.table.mem_iff, List.mem_range]
    · rintro pipe ⟨rfl⟩
      exact h.cameras.1

theorem Inv.startUdp_step (h : s.Inv) {sv : Survey} (hsv : s.survey = some sv) {pipe : ℕ}
    (hstage : sv.stage = .startUdp pipe) : (s.surveyStep sv).Inv := by
  have hl : s.Listening (· < pipe) :=
    h.listening.congr rfl rfl rfl fun p ↦ by simp [served, hsv, hstage]
  simp only [State.surveyStep, hstage]
  split
  · rename_i hpipe
    have hcreate : (s.create pipe .udp).Listening fun p ↦ p < pipe ∨ p = pipe :=
      hl.create (lt_irrefl pipe) (by simp)
    refine h.setStage hsv (hcreate.congr rfl rfl rfl fun p ↦ ?_) ?_
    · change _ ↔ p < pipe + 1
      omega
    · rintro pipe' ⟨rfl⟩
      exact hpipe
  · rename_i hpipe
    obtain rfl : pipe = s.pipeNumIn := le_antisymm (h.startUdp sv pipe hsv hstage) (not_lt.mp hpipe)
    obtain ⟨⟨hready, hmain⟩, hstop⟩ := h.late_of_survey hsv
    have hdone : ({ s with survey := none, surveyed := true } : State).Listening
        (served { s with survey := none, surveyed := true }) :=
      hl.congr rfl rfl rfl fun p ↦ by simp [served, hstop]
    cases hcaller : sv.caller with
    | main =>
        exact ⟨h.misuse, hdone.congr rfl rfl rfl fun _ ↦ Iff.rfl, h.table, h.cameras,
          .inr ⟨hready, .inr ⟨rfl, rfl⟩⟩, by simp [returnTo], fun _ ↦ rfl⟩
    | usr1 | camera =>
        have hpausing : s.main = .pausing := by
          rcases hmain with ⟨-, sv', hsv', hcaller'⟩ | ⟨hmain, -⟩
          · obtain rfl := Option.some.inj (hsv.symm.trans hsv')
            rw [hcaller] at hcaller'
            contradiction
          · exact hmain
        exact ⟨h.misuse, hdone.congr rfl rfl rfl fun _ ↦ Iff.rfl, h.table, h.cameras,
          .inr ⟨hready, .inr ⟨hpausing, rfl⟩⟩, by simp [returnTo], fun _ ↦ rfl⟩

theorem Inv.surveyStep (h : s.Inv) {sv : Survey} (hsv : s.survey = some sv) :
    (s.surveyStep sv).Inv := by
  cases hstage : sv.stage with
  | shutdown pipe => exact h.shutdown_step hsv hstage
  | discover =>
      rw [State.surveyStep, hstage]
      exact h
  | startUsb dv => exact h.startUsb_step hsv hstage
  | startUdp pipe => exact h.startUdp_step hsv hstage

theorem length_usbDiscoverDevs (metas caers : List Serial) :
    (usbDiscoverDevs metas caers).length = camerasFound metas caers := by
  rw [usbDiscoverDevs, camerasFound, length_usbSortPipes]
  split <;> simp

theorem Inv.discover (h : s.Inv) {sv : Survey} (hsv : s.survey = some sv)
    (hstage : sv.stage = .discover) {metas caers : List Serial}
    (hfew : camerasFound metas caers ≤ s.pipeNumIn) :
    (({ s with usbDevs := usbDiscoverDevs metas caers } : State).setStage sv
      (.startUsb 0)).Inv := by
  obtain ⟨hlate, hstop⟩ := h.late_of_survey hsv
  have hl : s.Listening fun _ ↦ False :=
    h.listening.congr rfl rfl rfl fun p ↦ by simp [served, hsv, hstage]
  constructor
  · exact h.misuse
  · constructor
    · refine ⟨fun p hp ↦ ?_, fun t th ht hrun ↦ (hl.one.2 t th ht hrun).1.elim⟩
      simp [served, State.setStage] at hp
    · exact fun t th ht hrun ↦ (hl.one.2 t th ht hrun).1.elim
  · change ((usbDiscoverDevs metas caers).map _).Perm
      (List.range (usbDiscoverDevs metas caers).length)
    rw [usbDiscoverDevs, length_usbSortPipes]
    exact pipes_usbSortPipes_perm _
  · change (usbDiscoverDevs metas caers).length ≤ _ ∧ (usbDiscoverDevs metas caers).length ≤ _
    rw [length_usbDiscoverDevs]
    exact ⟨hfew, min_le_left _ _⟩
  · exact .inr (hlate.setStage hsv)
  · rintro sv' pipe ⟨rfl⟩ hstage'
    exact absurd hstage' (by simp)
  · exact fun hne ↦ absurd hstop hne

/-! ## Cameras -/

theorem Inv.late_of_thread (h : s.Inv) {t : ℕ} {th : Thread} (ht : s.threads[t]? = some th) :
    s.Late := by
  rcases h.phase with ⟨⟨hthreads, -⟩, -⟩ | hlate
  · simp [hthreads] at ht
  · exact hlate

theorem Listening.stream (h : s.Listening S) (t : ℕ) :
    ({ s with threads := s.threads.modify t fun th ↦ { th with streaming := true } } :
      State).Listening S := by
  obtain ⟨⟨hnamed, honly⟩, hdevice⟩ := h
  constructor
  · constructor
    · intro p hp
      obtain ⟨t', th, hl, ht', hrun, hpipe⟩ := hnamed p hp
      refine ⟨t', _, hl, getElem?_modify_eq_some.mpr ⟨th, ht', rfl⟩, ?_, ?_⟩
      · split <;> exact hrun
      · split <;> exact hpipe
    · intro t' th' ht' hrun
      obtain ⟨th, hth, rfl⟩ := getElem?_modify_eq_some.mp ht'
      have hrun' : th.status = .running := by split at hrun <;> exact hrun
      have := honly t' th hth hrun'
      split <;> exact this
  · intro t' th' ht' hrun dev type hsrc
    obtain ⟨th, hth, rfl⟩ := getElem?_modify_eq_some.mp ht'
    have hrun' : th.status = .running := by split at hrun <;> exact hrun
    have hsrc' : th.source = .usb dev type := by split at hsrc <;> exact hsrc
    have := hdevice t' th hth hrun' dev type hsrc'
    split <;> exact this

theorem Inv.startCamera (h : s.Inv) {t : ℕ} {th : Thread} (ht : s.threads[t]? = some th) :
    (effect s (.startCamera t true)).Inv :=
  ⟨h.misuse, (h.listening.stream t).congr rfl rfl rfl fun _ ↦ Iff.rfl, h.table, h.cameras,
    .inr (h.late_of_thread ht), h.startUdp, h.stop⟩

theorem Inv.surveyed_of_running (h : s.Inv) (hsurvey : s.survey = none) (hstop : s.stop = none)
    {t : ℕ} {th : Thread} (ht : s.threads[t]? = some th) (hrun : th.status = .running) :
    s.surveyed ∧ s.Listening (· < s.pipeNumIn) := by
  have hserved := (h.listening.one.2 t th ht hrun).1
  simp only [served, hsurvey, hstop] at hserved
  refine ⟨hserved.1, h.listening.congr rfl rfl rfl fun p ↦ ?_⟩
  simp [served, hsurvey, hstop, hserved.1]

theorem watches_iff {type : DeviceType} {th : Thread} :
    th.watches type ↔
      th.status = .running ∧ th.streaming ∧ ∃ dev, th.source = .usb dev type := by
  rw [Thread.watches]
  cases th.source <;> simp [and_assoc]

/-- The device of a listener, in the table and in the call of `usb_survey_devs`. -/
theorem Inv.lost (h : s.Inv) {t : ℕ} {th : Thread} (ht : s.threads[t]? = some th) {dev : ℕ}
    {type : DeviceType} (hrun : th.status = .running) (hsource : th.source = .usb dev type) :
    s.threads[t]?.bind Thread.dev = some dev ∧ dev < usbDiscoverCnt ∧
      ∀ p, s.Skips (some dev) p ↔ p = th.pipe ∧ type = .META := by
  obtain ⟨d, hd, hpipe, htype⟩ := h.listening.device t th ht hrun dev type hsource
  have hlt := (List.getElem?_eq_some_iff.mp hd).1
  refine ⟨by simp [ht, Thread.dev, hsource], by have := h.cameras.2; omega, fun p ↦ ?_⟩
  simp [Skips, discon, hd, hpipe, htype, @eq_comm _ p]

theorem Inv.metaLost (h : s.Inv) {t : ℕ} (hwatches : s.threads[t]?.any (Thread.watches .META))
    (hsurvey : s.survey = none) (hstop : s.stop = none) : (effect s (.metaLost t)).Inv := by
  obtain ⟨th, ht, hw⟩ := (Option.any_eq_true _ _).mp hwatches
  obtain ⟨hrun, -, dev, hsource⟩ := watches_iff.mp hw
  obtain ⟨hdev, hlt, hskips⟩ := h.lost ht hrun hsource
  obtain ⟨hsurveyed, hl⟩ := h.surveyed_of_running hsurvey hstop ht hrun
  simp only [effect, hdev]
  apply h.callSurvey_idle hsurveyed hsurvey hstop (by simp) (by simpa using hlt)
  have hretire : (s.setStatus t .paused).Listening fun p ↦ p < s.pipeNumIn ∧ p ≠ th.pipe :=
    hl.retire ht hrun (by simp)
  refine hretire.congr rfl rfl rfl fun p ↦ ?_
  simp [hskips]

theorem Inv.caerLost (h : s.Inv) {t : ℕ} (hwatches : s.threads[t]?.any (Thread.watches .CAER))
    (hidle : s.survey.isSome ∨ s.stop = none) : (effect s (.caerLost t)).Inv := by
  cases hsurvey : s.survey with
  | some sv => exact h.callSurvey_busy (by simp [hsurvey]) (by simp) _
  | none =>
      have hstop := hidle.resolve_left (by simp [hsurvey])
      obtain ⟨th, ht, hw⟩ := (Option.any_eq_true _ _).mp hwatches
      obtain ⟨hrun, -, dev, hsource⟩ := watches_iff.mp hw
      obtain ⟨hdev, hlt, hskips⟩ := h.lost ht hrun hsource
      obtain ⟨hsurveyed, hl⟩ := h.surveyed_of_running hsurvey hstop ht hrun
      simp only [effect, hdev]
      refine h.callSurvey_idle hsurveyed hsurvey hstop (by simp) (by simpa using hlt)
        (hl.congr rfl rfl rfl fun p ↦ ?_)
      simp [hskips]

/-! ## Signals and shutdown -/

theorem Inv.usr1Survey (h : s.Inv) (hbenign : s.Benign .usr1Survey) :
    (effect s .usr1Survey).Inv := by
  simp only [effect]
  split
  · exact h.setHandler _ _ _
  · rename_i htaken
    rcases hbenign.resolve_left htaken with hbusy | ⟨hsurveyed, hstop⟩
    · exact h.callSurvey_busy hbusy (by simp) _
    · cases hsurvey : s.survey with
      | some sv => exact h.callSurvey_busy (by simp [hsurvey]) (by simp) _
      | none =>
          refine h.callSurvey_idle hsurveyed hsurvey hstop (by simp) rfl
            (h.listening.congr rfl rfl rfl fun p ↦ ?_)
          simp [served, hsurvey, hstop, hsurveyed, Skips, discon]

theorem Inv.raiseUsr1 (h : s.Inv) : (effect s .raiseUsr1).Inv := by
  simp only [effect]
  split
  · exact h.setHandler true _ _
  · rename_i husr1
    exact h.killed fun hset ↦ husr1 hset.1

theorem Inv.sigTerm (h : s.Inv) (hbenign : s.Benign .sigTerm) (hen : s.termSet → s.stop = none) :
    (effect s .sigTerm).Inv := by
  simp only [effect]
  split
  · rename_i hterm
    obtain ⟨hsurveyed, hsurvey⟩ := hbenign hterm
    obtain ⟨hready, hmain⟩ := h.pausing_of_surveyed hsurveyed hsurvey
    refine ⟨h.misuse, h.listening.congr rfl rfl rfl fun p ↦ ?_, h.table, h.cameras,
      .inr ⟨hready, .inr ⟨hmain, hsurveyed⟩⟩, h.startUdp, fun _ ↦ hsurvey⟩
    simp [served, hsurvey, hsurveyed, hen hterm]
  · rename_i hterm
    exact h.killed fun hset ↦ hterm hset.2

/-- While `spiffer_stop` runs, all listeners have been started, or there are no pipes. -/
theorem Inv.stopping (h : s.Inv) {st : Stop} (hstop : s.stop = some st) (hst : st ≠ .done) :
    s.survey = none ∧
      (s.surveyed ∧ s.Ready ∧ s.main = .pausing ∨
        s.Early ∧ s.main = .stopping ∧ s.pipeNumIn = 0 ∧ s.pipeNumOut = 0) := by
  have hsurvey := h.stop (by simp [hstop])
  refine ⟨hsurvey, ?_⟩
  rcases h.phase with ⟨hearly, hstarting⟩ | ⟨hready, ⟨-, sv, hsv, -⟩ | ⟨hmain, hsurveyed⟩⟩
  · right
    have hmain : s.main = .stopping := by
      by_contra hne
      have := Starting.stop_eq_none hstarting hne (by simp [hstop, hst])
      exact absurd (hstop.symm.trans this) (by simp)
    simp only [Starting, hmain] at hstarting
    exact ⟨hearly, hmain, hstarting⟩
  · exact absurd (hsurvey.symm.trans hsv) (by simp)
  · exact .inl ⟨hsurveyed, hready, hmain⟩

theorem Inv.setStop (h : s.Inv) {st st' : Stop} (hstop : s.stop = some st) (hst : st ≠ .done)
    {threads : List Thread} (hthreads : s.threads = [] → threads = [])
    (hlistening : s.surveyed → ({ s with threads } : State).Listening
      (served { s with stop := some st' })) :
    ({ s with threads, stop := some st' } : State).Inv := by
  obtain ⟨hsurvey, ⟨hsurveyed, hready, hmain⟩ | ⟨⟨hnil, hearly⟩, hmain, hpipes⟩⟩ :=
    h.stopping hstop hst
  · exact ⟨h.misuse, (hlistening hsurveyed).congr rfl rfl rfl fun _ ↦ Iff.rfl, h.table, h.cameras,
      .inr ⟨hready, .inr ⟨hmain, hsurveyed⟩⟩, h.startUdp, fun _ ↦ hsurvey⟩
  · have hstarting : ({ s with threads, stop := some st' } : State).Starting := by
      simpa only [Starting, hmain] using hpipes
    exact inv_of_early (s := { s with threads, stop := some st' }) ⟨hthreads hnil, hearly⟩
      hstarting h.misuse

theorem Inv.stopStep (h : s.Inv) {st : Stop} (hstop : s.stop = some st) (hst : st ≠ .done) :
    (s.stopStep st).Inv := by
  obtain ⟨hsurvey, hphase⟩ := h.stopping hstop hst
  cases st with
  | inputs pipe =>
      have hl : s.surveyed → s.Listening fun p ↦ pipe ≤ p ∧ p < s.pipeNumIn := fun hsurveyed ↦
        h.listening.congr rfl rfl rfl fun p ↦ by simp [served, hsurvey, hstop, hsurveyed]
      simp only [State.stopStep]
      split
      · rename_i hpipe
        obtain ⟨hsurveyed, -⟩ | ⟨-, -, hzero, -⟩ := hphase
        · obtain ⟨hl', t, ht⟩ := (hl hsurveyed).cancelJoin ⟨le_refl pipe, hpipe⟩
          have hskip : ¬ s.Skips none pipe := by simp [Skips, discon]
          rw [shutdownPipe, if_neg hskip]
          rw [ht] at hl' ⊢
          have hthreads : s.threads = [] → (s.setStatus t .joined).threads = [] := by
            intro hnil
            simp [setStatus, hnil]
          refine h.setStop hstop hst hthreads fun _ ↦ hl'.congr rfl rfl rfl fun p ↦ ?_
          simp only [served, hsurvey, hsurveyed, true_and]
          omega
        · omega
      · rename_i hpipe
        refine h.setStop hstop hst id fun hsurveyed ↦ (hl hsurveyed).congr rfl rfl rfl fun p ↦ ?_
        simp only [served, hsurvey, hsurveyed, true_and, iff_false]
        omega
  | outputs pipe =>
      have hl : s.surveyed → s.Listening fun _ ↦ False := fun hsurveyed ↦
        h.listening.congr rfl rfl rfl fun p ↦ by simp [served, hsurvey, hstop]
      simp only [State.stopStep]
      split
      · rename_i hpipe
        have hused : (s.misuse || decide (s.spinnListeners ≤ pipe) ||
            decide (s.outListeners ≤ pipe)) = s.misuse := by
          obtain ⟨-, ⟨hout, hspinn, -⟩, -⟩ | ⟨-, -, -, hzero⟩ := hphase
          · simp [hout, hspinn, hpipe]
          · omega
        rw [hused]
        refine h.setStop hstop hst id fun hsurveyed ↦ (hl hsurveyed).congr rfl rfl rfl fun p ↦ ?_
        simp [served, hsurvey]
      · refine h.setStop hstop hst id fun hsurveyed ↦ (hl hsurveyed).congr rfl rfl rfl fun p ↦ ?_
        simp [served, hsurvey]
  | done => exact absurd rfl hst

/-! ## Runs -/

theorem inv_step (s : State) (e : Event) (s' : State) (h : s.Inv) (hbenign : s.Benign e)
    (hstep : step s e = some s') : s'.Inv := by
  obtain ⟨hen, rfl⟩ := guarded_eq_some.mp hstep
  cases e with
  | openLog | openPipe0 | initPipes | initUdp | initSpinn | setUsr1 | setTerm | wakeUp =>
      exact h.startUp trivial hbenign hen
  | mainSurvey => exact h.callSurvey_main hen.1 hen.2
  | raiseUsr1 => exact h.raiseUsr1
  | enterUsr1 | leaveUsr1 => exact h.setHandler _ _ _
  | usr1Survey => exact h.usr1Survey hbenign
  | sigTerm => exact h.sigTerm hbenign hen.2
  | stopStep =>
      obtain ⟨st, hst, hready⟩ := (Option.any_eq_true _ _).mp hen.2
      simp only [effect, hst, Option.elim_some]
      exact h.stopStep hst fun hdone ↦ hen.1 (hst.trans (congrArg some hdone))
  | surveyStep =>
      obtain ⟨sv, hsv, -⟩ := (Option.any_eq_true _ _).mp hen.2
      simp only [effect, hsv, Option.elim_some]
      exact h.surveyStep hsv
  | discover metas caers =>
      obtain ⟨sv, hsv, hstage⟩ := (Option.any_eq_true _ _).mp hen.2
      simp only [effect, hsv, Option.elim_some]
      exact h.discover hsv (by simpa using hstage) hbenign
  | startCamera t ok =>
      obtain rfl : ok = true := hbenign
      obtain ⟨th, ht, -⟩ := (Option.any_eq_true _ _).mp hen.2
      exact h.startCamera ht
  | metaLost t => exact h.metaLost hen.2 hbenign.1 hbenign.2
  | caerLost t => exact h.caerLost hen.2 hbenign

theorem Inv.served_lt (h : s.Inv) {p : ℕ} (hp : s.served p) : p < s.pipeNumIn := by
  unfold served at hp
  split at hp
  · rename_i sv hsv
    split at hp
    · exact hp.1.2
    · exact hp.elim
    · have hmem := h.table.mem_iff.mp (List.mem_of_mem_take hp)
      have := h.cameras.1
      rw [List.mem_range] at hmem
      omega
    · rename_i pipe hstage
      have := h.startUdp sv pipe hsv hstage
      omega
  · obtain ⟨-, hp⟩ := hp
    split at hp
    · exact hp
    · exact hp.2
    · exact hp.elim

theorem Inv.oneListener (h : s.Inv) : s.OneListener := by
  refine ⟨h.misuse, ?_, ?_⟩
  · intro th hth hrun
    obtain ⟨t, ht⟩ := List.mem_iff_getElem?.mp hth
    exact h.served_lt (h.listening.one.2 t th ht hrun).1
  · intro hsurveyed hsurvey hstop
    have hl : s.Listening (· < s.pipeNumIn) :=
      h.listening.congr rfl rfl rfl fun p ↦ by simp [served, hsurvey, hstop, hsurveyed]
    exact hl.one

/-- In every run whose steps are benign, spiffer keeps one listener per pipe. -/
theorem oneListener_of_benign (es : List Event) (s : State) (hbenign : Along step Benign init es)
    (hrun : exec step init es = some s) : s.OneListener :=
  (inv_exec inv_step inv_init hbenign hrun).oneListener

def startUp : List Event :=
  [.openLog true, .openPipe0 true 2 1, .initPipes true, .initUdp true, .initSpinn, .setUsr1 true,
    .setTerm true]

def cameraSwap : List Event :=
  startUp ++
    [.wakeUp, .mainSurvey, .discover [] [[49]], .surveyStep, .surveyStep, .surveyStep, .surveyStep,
      .startCamera 0 true, .caerLost 0, .surveyStep, .surveyStep, .surveyStep, .discover [] [],
      .surveyStep, .surveyStep, .surveyStep, .surveyStep,
      .raiseUsr1, .enterUsr1, .usr1Survey, .surveyStep, .surveyStep, .surveyStep,
      .discover [[50]] [], .surveyStep, .surveyStep, .surveyStep, .surveyStep, .leaveUsr1]

theorem oneListener_cameraSwap :
    ((exec step init cameraSwap).get (by decide +kernel)).OneListener :=
  oneListener_of_benign cameraSwap _ (by decide +kernel) (Option.some_get _).symm

/-- SIGUSR1 comes during the sleep that precedes the first survey: its handler
shuts down listeners that do not exist. -/
theorem not_oneListener_earlyUsr1 :
    ¬ ∀ es s, exec step init es = some s → s.OneListener := by
  intro hclaim
  have hmisuse : ((exec step init (startUp ++
      [.raiseUsr1, .enterUsr1, .usr1Survey, .surveyStep])).get (by decide +kernel)).misuse := by
    decide +kernel
  exact absurd (hmisuse.symm.trans (hclaim _ _ (Option.some_get _).symm).1) (by simp)

end State

end Spif.Spiffer
