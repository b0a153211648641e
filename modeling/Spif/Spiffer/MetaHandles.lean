import Spif.Lib.Transition
import Spif.Spiffer.SortPipes
import Mathlib.Logic.Function.Basic

/-!
# The handles of Prophesee cameras

A survey opens the cameras it discovers and leaves their handles in the device
table, in `usb_devs.params[dev].meta_hdl`.  The listener thread of a camera moves
the handle out of the table.  A listener that loses its camera asks for a survey
and then resets the handle with its own device number, although the number may be
in use again.

SIGUSR1 asks for surveys at any time.  Listeners of other kinds do not touch the
handles, and only their pipes matter here.
-/

namespace Spif.Spiffer.MetaHandles

open Transition

def spifHwPipesNum : ℕ := 2

def metaDiscoverCnt : ℕ := spifHwPipesNum

/-- The device objects of the Metavision library, numbered as they are opened. -/
abbrev Handle := ℕ

/-- A device in use: its pipe, and the object opened for it. -/
structure Device where
  pipe : ℕ
  camera : Handle
deriving DecidableEq, Repr

/-- Where a listener thread is.  `listening none` dereferences a null pointer. -/
inductive Phase where
  | created
  | listening (ud : Option Handle)
  | surveying
  | leaving
  | paused
  | joined
deriving DecidableEq, Repr

def Phase.inLoop : Phase → Bool
  | .listening (some _) => true
  | _ => false

/-- A `spiffer_meta_usb_listener` thread, and the camera it was started for. -/
structure Thread where
  dev : ℕ
  camera : Handle
  phase : Phase
deriving DecidableEq, Repr

inductive Stage where
  | join (pipe : ℕ)
  | reset (dv : ℕ)
  | discover
  | start (dv : ℕ)
deriving DecidableEq, Repr

/-- The camera with this number has yet to get its listener. -/
def Stage.startsLater (stage : Stage) (dev : ℕ) : Bool :=
  match stage with
  | .start dv => dv ≤ dev
  | _ => false

/-- A call of `usb_survey_devs` that holds `usb_mtx`: the listener that called
it, if it was one, and `discon_dev`. -/
structure Survey where
  caller : Option ℕ
  disconDev : Option ℕ
  stage : Stage
deriving DecidableEq, Repr

/-- `listener` gives the thread on a pipe, if that is a Prophesee listener. -/
structure State where
  pipeNumIn : ℕ
  usbDevs : List Device
  metaHdl : ℕ → Option Handle
  opened : ℕ
  threads : List Thread
  listener : ℕ → Option ℕ
  survey : Option Survey

/-- The first survey shuts down nothing. -/
def start (pipeNumIn : ℕ) : State where
  pipeNumIn := pipeNumIn
  usbDevs := []
  metaHdl := fun _ ↦ none
  opened := 0
  threads := []
  listener := fun _ ↦ none
  survey := some ⟨none, none, .discover⟩

inductive Event where
  /-- `std::move (usb_devs.params[dev].meta_hdl)` -/
  | take (t : ℕ)
  /-- `wait_next_buffer` fails, and the listener calls `usb_survey_devs` -/
  | lost (t : ℕ)
  /-- `spiffer_meta_shutdown_dev (dev)`, before the listener pauses -/
  | shutdown (t : ℕ)
  /-- `usb_survey_devs (NULL)` -/
  | signal
  | surveyStep
  | discover (metas : List Serial)
deriving DecidableEq, Repr

namespace State

def phase (s : State) (t : ℕ) : Option Phase := s.threads[t]?.map Thread.phase

def dev (s : State) (t : ℕ) : Option ℕ := s.threads[t]?.map Thread.dev

def setPhase (s : State) (t : ℕ) (ph : Phase) : State :=
  { s with threads := s.threads.modify t fun th ↦ { th with phase := ph } }

/-- `usb_devs.params[dev].meta_hdl.reset ()` -/
def metaShutdownDev (s : State) (dev : ℕ) : State :=
  { s with metaHdl := Function.update s.metaHdl dev none }

def setStage (s : State) (sv : Survey) (stage : Stage) : State :=
  { s with survey := some { sv with stage := stage } }

/-- `usb_survey_devs`, up to where it holds `usb_mtx`. -/
def callSurvey (s : State) (caller disconDev : Option ℕ) : State :=
  { s with survey := some ⟨caller, disconDev, .join 0⟩ }

/-- The pipe is `discon_pipe`, whose listener leaves its loop by itself. -/
def Skips (s : State) (sv : Survey) (pipe : ℕ) : Prop :=
  ∃ dv ∈ sv.disconDev, ∃ d ∈ s.usbDevs[dv]?, d.pipe = pipe

instance (s : State) (sv : Survey) (pipe : ℕ) : Decidable (s.Skips sv pipe) :=
  inferInstanceAs (Decidable (∃ _ ∈ _, _))

/-- `pthread_join` returns. -/
def Joins (s : State) (pipe : ℕ) : Prop :=
  ∀ t ∈ s.listener pipe, (s.phase t).any Phase.inLoop = true

instance (s : State) (pipe : ℕ) : Decidable (s.Joins pipe) :=
  inferInstanceAs (Decidable (∀ _ ∈ _, _))

def joinListener (s : State) (pipe : ℕ) : State :=
  match s.listener pipe with
  | some t => s.setPhase t .joined
  | none => s

def create (s : State) (dv : ℕ) (d : Device) : State :=
  { s with
    threads := s.threads ++ [⟨dv, d.camera, .created⟩]
    listener := Function.update s.listener d.pipe (some s.threads.length) }

/-- The rest of the pipes get other listeners, and a listener that called the
survey leaves. -/
def endSurvey (s : State) (sv : Survey) : State :=
  let s' : State :=
    { s with
      listener := fun pipe ↦
        if s.usbDevs.length ≤ pipe ∧ pipe < s.pipeNumIn then none else s.listener pipe
      survey := none }
  match sv.caller with
  | some t => s'.setPhase t .leaving
  | none => s'

def surveyStep (s : State) (sv : Survey) : State :=
  match sv.stage with
  | .join pipe =>
      if pipe < s.pipeNumIn then
        (if s.Skips sv pipe then s else s.joinListener pipe).setStage sv (.join (pipe + 1))
      else s.setStage sv (.reset 0)
  | .reset dv =>
      if dv < s.usbDevs.length then
        (if sv.disconDev = some dv then s else s.metaShutdownDev dv).setStage sv (.reset (dv + 1))
      else s.setStage sv .discover
  | .discover => s
  | .start dv =>
      match s.usbDevs[dv]? with
      | some d => (s.create dv d).setStage sv (.start (dv + 1))
      | none => s.endSurvey sv

/-- The pipes of the cameras that `spiffer_meta_discover_devs` finds. -/
def metaPipes (metas : List Serial) : List ℕ :=
  (usbSortPipes ((metas.take metaDiscoverCnt).map fun sn ↦ ⟨0, .META, sn⟩)).map DevParams.pipe

def found (s : State) (metas : List Serial) : List Device :=
  (metaPipes metas).mapIdx fun k pipe ↦ ⟨pipe, s.opened + k⟩

/-- `usb_discover_devs` -/
def usbDiscoverDevs (s : State) (metas : List Serial) : State :=
  { s with
    usbDevs := s.found metas
    metaHdl := fun dev ↦
      ((s.found metas)[dev]?.map Device.camera).or (s.metaHdl dev)
    opened := s.opened + (metaPipes metas).length }

def StepReady (s : State) (sv : Survey) : Prop :=
  match sv.stage with
  | .join pipe => pipe < s.pipeNumIn → s.Skips sv pipe ∨ s.Joins pipe
  | .discover => False
  | _ => True

instance (s : State) (sv : Survey) : Decidable (s.StepReady sv) := by
  unfold StepReady
  cases sv.stage <;> infer_instance

def Enabled (s : State) : Event → Prop
  | .take t => s.phase t = some .created
  | .lost t => (s.phase t).any Phase.inLoop = true
  | .shutdown t => s.phase t = some .leaving
  | .signal => s.survey = none
  | .surveyStep => ∃ sv ∈ s.survey, s.StepReady sv
  | .discover _ => ∃ sv ∈ s.survey, sv.stage = .discover

instance : ∀ (s : State) (e : Event), Decidable (s.Enabled e) := fun s e ↦ by
  cases e <;> unfold Enabled <;> infer_instance

def effect (s : State) : Event → State
  | .take t =>
      (s.dev t).elim s fun dev ↦
        (s.setPhase t (.listening (s.metaHdl dev))).metaShutdownDev dev
  | .lost t =>
      if s.survey.isSome then s.setPhase t .leaving
      else (s.setPhase t .surveying).callSurvey (some t) (s.dev t)
  | .shutdown t => (s.dev t).elim s fun dev ↦ (s.setPhase t .paused).metaShutdownDev dev
  | .signal => s.callSurvey none none
  | .surveyStep => s.survey.elim s s.surveyStep
  | .discover metas =>
      s.survey.elim s fun sv ↦ (s.usbDiscoverDevs metas).setStage sv (.start 0)

def step : State → Event → Option State := guarded Enabled effect

/-! ## Handing over -/

/-- The handles that are destroyed in the device table. -/
def destroyed (s : State) : Event → List Handle
  | .shutdown t => ((s.dev t).bind s.metaHdl).toList
  | .surveyStep => s.survey.elim [] fun sv ↦
      match sv.stage with
      | .reset dv =>
          if dv < s.usbDevs.length ∧ sv.disconDev ≠ some dv then (s.metaHdl dv).toList else []
      | _ => []
  | .discover metas => (List.range (metaPipes metas).length).filterMap s.metaHdl
  | _ => []

/-- The listener gets the handle of its camera, and no handle is destroyed before
a listener takes it. -/
def HandsOver (s : State) : Event → Prop
  | .take t => ∀ th ∈ s.threads[t]?, s.metaHdl th.dev = some th.camera
  | e => s.destroyed e = []

instance (s : State) (e : Event) : Decidable (s.HandsOver e) := by
  cases e <;> unfold HandsOver <;> infer_instance

/-- The listener with this device number, or that of the camera which a survey has
just discovered under it, has yet to take its handle. -/
def Awaited (s : State) (dev : ℕ) : Prop :=
  (∃ th ∈ s.threads, th.phase = .created ∧ th.dev = dev) ∨
    ∃ sv ∈ s.survey, sv.stage.startsLater dev = true ∧ dev < s.usbDevs.length

instance (s : State) (dev : ℕ) : Decidable (s.Awaited dev) :=
  inferInstanceAs (Decidable (_ ∨ _))

/-- A listener that lost its camera resets the handle with its number only after the
new listener has taken it. -/
def ShutsDownLate (s : State) : Event → Prop
  | .shutdown t => ∀ dev ∈ s.dev t, ¬ s.Awaited dev
  | _ => True

instance (s : State) (e : Event) : Decidable (s.ShutsDownLate e) := by
  cases e <;> unfold ShutsDownLate <;> infer_instance

def HasPipes (s : State) : Event → Prop
  | .discover metas => (metaPipes metas).length ≤ s.pipeNumIn
  | _ => True

instance (s : State) (e : Event) : Decidable (s.HasPipes e) := by
  cases e <;> unfold HasPipes <;> infer_instance

/-! ## The invariant -/

def Created (s : State) (dev : ℕ) (h : Handle) : Prop :=
  ∃ (t : ℕ) (th : Thread), s.threads[t]? = some th ∧ th.phase = .created ∧ th.dev = dev ∧
    th.camera = h

def StartsLater (s : State) (dev : ℕ) (h : Handle) : Prop :=
  ∃ sv ∈ s.survey, sv.stage.startsLater dev = true ∧ ∃ d ∈ s.usbDevs[dev]?, d.camera = h

end State

def Phase.active : Phase → Bool
  | .created | .listening _ => true
  | _ => false

/-- How far the survey is with the device: a listener it has not joined, or one it
has started. -/
def Stage.spares : Stage → ℕ → Device → Prop
  | .join pipe, _, d => pipe ≤ d.pipe
  | .reset _, _, _ | .discover, _, _ => False
  | .start dv, dev, _ => dev < dv

namespace State

/-- The listener that called the survey is the one whose pipe is left out. -/
def CallerOk (s : State) (sv : Survey) : Prop :=
  sv.caller = none ∧ sv.disconDev = none ∨
    ∃ (t : ℕ) (th : Thread), sv.caller = some t ∧ sv.disconDev = some th.dev ∧
      s.threads[t]? = some th ∧ th.phase = .surveying ∧
      ∀ pipe, sv.stage = .join pipe →
        ∃ d, s.usbDevs[th.dev]? = some d ∧ s.listener d.pipe = some t

/-- The table holds a handle exactly while somebody is to take it.  Every active
listener is the one on the pipe of its device, so that a survey finds and joins it. -/
structure Inv (s : State) : Prop where
  slots : ∀ dev h, s.metaHdl dev = some h ↔ s.Created dev h ∨ s.StartsLater dev h
  current : ∀ t th, s.threads[t]? = some th → th.phase.active = true →
    ∃ d, s.usbDevs[th.dev]? = some d ∧ s.listener d.pipe = some t ∧
      ∀ sv ∈ s.survey, sv.stage.spares th.dev d
  caller : ∀ sv ∈ s.survey, s.CallerOk sv
  pipes : (s.usbDevs.map Device.pipe).Perm (List.range s.usbDevs.length)
  enough : s.usbDevs.length ≤ s.pipeNumIn

theorem inv_start (pipeNumIn : ℕ) : (start pipeNumIn).Inv where
  slots dev h := by
    refine iff_of_false (by rintro ⟨⟩) ?_
    rintro (⟨t, th, hth, -⟩ | ⟨sv, hsv, hlater, -⟩)
    · cases hth
    · cases hsv
      cases hlater
  current _ _ hth := by cases hth
  caller sv hsv := by
    cases hsv
    exact .inl ⟨rfl, rfl⟩
  pipes := List.Perm.refl _
  enough := Nat.zero_le _

variable {s : State} {t : ℕ} {th : Thread}

theorem getElem?_setPhase (s : State) (t : ℕ) (ph : Phase) (u : ℕ) :
    (s.setPhase t ph).threads[u]? =
      if t = u then s.threads[u]?.map fun th ↦ { th with phase := ph } else s.threads[u]? := by
  rw [setPhase, List.getElem?_modify]
  split <;> simp

theorem phase_eq_some {ph : Phase} :
    s.phase t = some ph ↔ ∃ th, s.threads[t]? = some th ∧ th.phase = ph := by
  simp [phase]

theorem dev_of_thread (hth : s.threads[t]? = some th) : s.dev t = some th.dev := by
  simp [State.dev, hth]

theorem ne_of_phase (hth : s.threads[t]? = some th) {u : ℕ} {th' : Thread}
    (hth' : s.threads[u]? = some th') (hne : th.phase ≠ th'.phase) : t ≠ u := by
  rintro rfl
  obtain rfl := Option.some.inj (hth.symm.trans hth')
  exact hne rfl

theorem setPhase_of_ne {u : ℕ} (hne : t ≠ u) (ph : Phase) :
    (s.setPhase t ph).threads[u]? = s.threads[u]? := by
  rw [getElem?_setPhase, if_neg hne]

/-- A thread in another phase than `ph` is another thread, and was there before. -/
theorem of_setPhase {ph : Phase} {u : ℕ} {th' : Thread}
    (hth' : (s.setPhase t ph).threads[u]? = some th') (hne : th'.phase ≠ ph) :
    t ≠ u ∧ s.threads[u]? = some th' := by
  rw [getElem?_setPhase] at hth'
  split at hth'
  · obtain ⟨_, -, rfl⟩ := Option.map_eq_some_iff.mp hth'
    exact absurd rfl hne
  · exact ⟨‹_›, hth'⟩

/-- After a thread has got to a phase other than `created`, the created threads are
the other ones. -/
theorem created_setPhase_iff {ph : Phase} (hph : ph ≠ .created) {dev : ℕ} {h : Handle} :
    (s.setPhase t ph).Created dev h ↔ ∃ (u : ℕ) (th : Thread), t ≠ u ∧
      s.threads[u]? = some th ∧ th.phase = .created ∧ th.dev = dev ∧ th.camera = h := by
  constructor
  · rintro ⟨u, th, hth, hcreated, hrest⟩
    obtain ⟨hne, hold⟩ := of_setPhase hth (by rw [hcreated]; exact hph.symm)
    exact ⟨u, th, hne, hold, hcreated, hrest⟩
  · rintro ⟨u, th, hne, hth, hrest⟩
    exact ⟨u, th, (setPhase_of_ne hne ph).trans hth, hrest⟩

theorem created_setPhase {ph : Phase} (hph : ph ≠ .created) (hth : s.threads[t]? = some th)
    (hnew : th.phase ≠ .created) {dev : ℕ} {h : Handle} :
    (s.setPhase t ph).Created dev h ↔ s.Created dev h := by
  rw [created_setPhase_iff hph]
  constructor
  · rintro ⟨u, th', -, hth', hrest⟩
    exact ⟨u, th', hth', hrest⟩
  · rintro ⟨u, th', hth', hcreated, hrest⟩
    exact ⟨u, th', ne_of_phase hth hth' (by rwa [hcreated]), hth', hcreated, hrest⟩

/-- The caller is still there for a survey that has not gone back to joining. -/
theorem CallerOk.congr {s' : State} {sv sv' : Survey} (h : s.CallerOk sv)
    (hcaller : sv'.caller = sv.caller) (hdis : sv'.disconDev = sv.disconDev)
    (hkeep : ∀ (u : ℕ) (th' : Thread), s.threads[u]? = some th' → th'.phase = .surveying →
      s'.threads[u]? = some th')
    (hjoin : ∀ pipe, sv'.stage = .join pipe → (∃ pipe', sv.stage = .join pipe') ∧
      s'.usbDevs = s.usbDevs ∧ s'.listener = s.listener) : s'.CallerOk sv' := by
  rcases h with ⟨hnone, hdis'⟩ | ⟨u, th', hu, hdis', hth', hsurv, hold⟩
  · exact .inl ⟨hcaller.trans hnone, hdis.trans hdis'⟩
  · refine .inr ⟨u, th', hcaller.trans hu, hdis.trans hdis', hkeep u th' hth' hsurv, hsurv, ?_⟩
    intro pipe hpipe
    obtain ⟨⟨pipe', hpipe'⟩, hdevs, hlist⟩ := hjoin pipe hpipe
    rw [hdevs, hlist]
    exact hold pipe' hpipe'

theorem CallerOk.setPhase {sv : Survey} (h : s.CallerOk sv) (ph : Phase)
    (hth : s.threads[t]? = some th) (hnot : th.phase ≠ .surveying) :
    (s.setPhase t ph).CallerOk sv := by
  refine h.congr rfl rfl (fun u th' hth' hsurv ↦ ?_) fun pipe hpipe ↦ ⟨⟨pipe, hpipe⟩, rfl, rfl⟩
  exact (setPhase_of_ne (ne_of_phase hth hth' (by rwa [hsurv])) ph).trans hth'

/-- A thread that has no handle to take, and did not call the survey, may stop
being a listener. -/
theorem Inv.setPhase (hs : s.Inv) {ph : Phase} (hph : ph.active = false)
    (hth : s.threads[t]? = some th) (hnew : th.phase ≠ .created)
    (hcaller : th.phase ≠ .surveying ∨ s.survey = none) : (s.setPhase t ph).Inv where
  slots dev h := by
    have hcreated : ph ≠ .created := by
      rintro rfl
      cases hph
    rw [created_setPhase hcreated hth hnew]
    exact hs.slots dev h
  current u th' hth' hactive := by
    refine hs.current u th' (of_setPhase hth' ?_).2 hactive
    rintro rfl
    cases hph.symm.trans hactive
  caller sv hsv := by
    rcases hcaller with hcaller | hfree
    · exact (hs.caller sv hsv).setPhase ph hth hcaller
    · cases hfree.symm.trans hsv
  pipes := hs.pipes
  enough := hs.enough

theorem Inv.setStage (hs : s.Inv) {sv : Survey} (hsv : s.survey = some sv) {stage : Stage}
    (hlater : ∀ dev, stage.startsLater dev = sv.stage.startsLater dev)
    (hspares : ∀ u th' d, s.threads[u]? = some th' → th'.phase.active = true →
      s.listener d.pipe = some u → sv.stage.spares th'.dev d → stage.spares th'.dev d)
    (hjoin : ∀ pipe, stage = .join pipe → ∃ pipe', sv.stage = .join pipe') :
    (s.setStage sv stage).Inv where
  slots dev h := by
    rw [State.setStage]
    refine (hs.slots dev h).trans (or_congr Iff.rfl ?_)
    simp only [StartsLater, hsv, Option.mem_some_iff, exists_eq_left', hlater]
  current u th' hth' hactive := by
    obtain ⟨d, hd, hlist, hspare⟩ := hs.current u th' hth' hactive
    refine ⟨d, hd, hlist, ?_⟩
    rintro _ ⟨⟩
    exact hspares u th' d hth' hactive hlist (hspare sv hsv)
  caller := by
    rintro _ ⟨⟩
    exact (hs.caller sv hsv).congr rfl rfl (fun _ _ hth' _ ↦ hth')
      fun pipe hpipe ↦ ⟨hjoin pipe hpipe, rfl, rfl⟩
  pipes := hs.pipes
  enough := hs.enough

theorem Inv.callSurvey (hs : s.Inv) (hfree : s.survey = none) {caller disconDev}
    (hcaller : (s.callSurvey caller disconDev).CallerOk ⟨caller, disconDev, .join 0⟩) :
    (s.callSurvey caller disconDev).Inv where
  slots dev h := by
    have hold := hs.slots dev h
    simp only [StartsLater, hfree, Option.mem_def, reduceCtorEq, false_and, exists_false,
      or_false] at hold
    refine hold.trans (iff_of_eq (or_false _).symm |>.trans (or_congr Iff.rfl ?_))
    simp [StartsLater, State.callSurvey, Stage.startsLater]
  current u th' hth' hactive := by
    obtain ⟨d, hd, hlist, -⟩ := hs.current u th' hth' hactive
    refine ⟨d, hd, hlist, ?_⟩
    rintro _ ⟨⟩
    exact Nat.zero_le _
  caller := by
    rintro _ ⟨⟩
    exact hcaller
  pipes := hs.pipes
  enough := hs.enough

/-! ## The listeners -/

theorem metaShutdownDev_of_none {dev : ℕ} (h : s.metaHdl dev = none) :
    s.metaShutdownDev dev = s := by
  rw [metaShutdownDev, ← h, Function.update_eq_self]

theorem Inv.dev_ne (hs : s.Inv) (hth : s.threads[t]? = some th) (hactive : th.phase.active = true)
    {u : ℕ} {th' : Thread} (hth' : s.threads[u]? = some th') (hactive' : th'.phase.active = true)
    (hne : t ≠ u) : th.dev ≠ th'.dev := by
  intro hdev
  obtain ⟨d, hd, hlist, -⟩ := hs.current t th hth hactive
  obtain ⟨d', hd', hlist', -⟩ := hs.current u th' hth' hactive'
  obtain rfl : d = d' := Option.some.inj (hd.symm.trans (hdev ▸ hd'))
  exact hne (Option.some.inj (hlist.symm.trans hlist'))

theorem Inv.slot_of_created (hs : s.Inv) (hth : s.threads[t]? = some th)
    (hcreated : th.phase = .created) : s.metaHdl th.dev = some th.camera :=
  (hs.slots _ _).mpr (.inl ⟨t, th, hth, hcreated, rfl, rfl⟩)

theorem Inv.not_startsLater (hs : s.Inv) (hth : s.threads[t]? = some th)
    (hactive : th.phase.active = true) (h : Handle) : ¬ s.StartsLater th.dev h := by
  rintro ⟨sv, hsv, hlater, -⟩
  obtain ⟨d, -, -, hspare⟩ := hs.current t th hth hactive
  have hspare := hspare sv hsv
  cases hstage : sv.stage with
  | start dv =>
      rw [hstage] at hspare hlater
      exact absurd (of_decide_eq_true hlater) (Nat.not_le.mpr hspare)
  | _ =>
      rw [hstage] at hlater
      cases hlater

theorem Inv.take (hs : s.Inv) (hth : s.threads[t]? = some th) (hcreated : th.phase = .created) :
    ((s.setPhase t (.listening (s.metaHdl th.dev))).metaShutdownDev th.dev).Inv where
  slots dev h := by
    have hactive : th.phase.active = true := by rw [hcreated]; rfl
    change Function.update s.metaHdl th.dev none dev = some h ↔
      (s.setPhase t _).Created dev h ∨ s.StartsLater dev h
    rw [created_setPhase_iff (by simp)]
    by_cases hdev : dev = th.dev
    · subst hdev
      rw [Function.update_self]
      refine iff_of_false (by rintro ⟨⟩) ?_
      rintro (⟨u, th', hne, hth', hcreated', hdev', -⟩ | hlater)
      · exact hs.dev_ne hth hactive hth' (by rw [hcreated']; rfl) hne hdev'.symm
      · exact hs.not_startsLater hth hactive h hlater
    · rw [Function.update_of_ne hdev, hs.slots]
      refine or_congr ⟨?_, ?_⟩ Iff.rfl
      · rintro ⟨u, th', hth', hcreated', hdev', hcam⟩
        have hne : t ≠ u := by
          rintro rfl
          obtain rfl := Option.some.inj (hth.symm.trans hth')
          exact hdev hdev'.symm
        exact ⟨u, th', hne, hth', hcreated', hdev', hcam⟩
      · rintro ⟨u, th', -, hth', hrest⟩
        exact ⟨u, th', hth', hrest⟩
  current u th' hth' hactive := by
    change (s.setPhase t _).threads[u]? = _ at hth'
    rw [getElem?_setPhase] at hth'
    split at hth'
    · obtain ⟨th₀, hth₀, rfl⟩ := Option.map_eq_some_iff.mp hth'
      obtain rfl : t = u := ‹_›
      obtain rfl := Option.some.inj (hth.symm.trans hth₀)
      exact hs.current t th hth (by rw [hcreated]; rfl)
    · exact hs.current u th' hth' hactive
  caller sv hsv := (hs.caller sv hsv).setPhase _ hth (by simp [hcreated])
  pipes := hs.pipes
  enough := hs.enough

theorem inLoop_eq_some {ph : Option Phase} (h : ph.any Phase.inLoop = true) :
    ∃ ud, ph = some (.listening (some ud)) := by
  obtain ⟨ph, rfl, hloop⟩ := (Option.any_eq_true _ _).mp h
  unfold Phase.inLoop at hloop
  split at hloop
  · exact ⟨_, rfl⟩
  · cases hloop

theorem Inv.lost (hs : s.Inv) (hen : s.Enabled (.lost t)) : (s.effect (.lost t)).Inv := by
  obtain ⟨ud, hphase⟩ := inLoop_eq_some hen
  obtain ⟨th, hth, hlistening⟩ := phase_eq_some.mp hphase
  have hnew : th.phase ≠ .created := by simp [hlistening]
  have hsurv : th.phase ≠ .surveying := by simp [hlistening]
  rw [effect]
  split
  · exact hs.setPhase rfl hth hnew (.inl hsurv)
  · rename_i hfree
    have hfree : s.survey = none := by simpa using hfree
    obtain ⟨d, hd, hlist, -⟩ := hs.current t th hth (by rw [hlistening]; rfl)
    apply (hs.setPhase rfl hth hnew (.inl hsurv)).callSurvey hfree
    have hdev : s.dev t = some th.dev := dev_of_thread hth
    refine .inr ⟨t, { th with phase := .surveying }, rfl, hdev, ?_, rfl, ?_⟩
    · change (s.setPhase t _).threads[t]? = _
      rw [getElem?_setPhase, if_pos rfl, hth]
      rfl
    · exact fun _ _ ↦ ⟨d, hd, hlist⟩

theorem Inv.not_awaited_iff (hs : s.Inv) {dev : ℕ} : ¬ s.Awaited dev ↔ s.metaHdl dev = none := by
  rw [← not_iff_not, not_not, ← Ne, Option.ne_none_iff_exists']
  constructor
  · rintro (⟨th, hmem, hcreated, rfl⟩ | ⟨sv, hsv, hlater, hlt⟩)
    · obtain ⟨t, hth⟩ := List.mem_iff_getElem?.mp hmem
      exact ⟨_, hs.slot_of_created hth hcreated⟩
    · exact ⟨_, (hs.slots _ _).mpr
        (.inr ⟨sv, hsv, hlater, _, List.getElem?_eq_getElem hlt, rfl⟩)⟩
  · rintro ⟨h, hslot⟩
    rcases (hs.slots _ _).mp hslot with ⟨t, th, hth, hcreated, hdev, -⟩ | ⟨sv, hsv, hlater, d, hd, -⟩
    · exact .inl ⟨th, List.mem_of_getElem? hth, hcreated, hdev⟩
    · exact .inr ⟨sv, hsv, hlater, (List.getElem?_eq_some_iff.mp hd).1⟩

theorem Inv.shutdown (hs : s.Inv) (hen : s.Enabled (.shutdown t))
    (hlate : s.ShutsDownLate (.shutdown t)) : (s.effect (.shutdown t)).Inv := by
  obtain ⟨th, hth, hleaving⟩ := phase_eq_some.mp hen
  have hslot : s.metaHdl th.dev = none :=
    hs.not_awaited_iff.mp (hlate _ (dev_of_thread hth))
  have hkeep : (s.setPhase t .paused).metaShutdownDev th.dev = s.setPhase t .paused :=
    metaShutdownDev_of_none hslot
  rw [effect, dev_of_thread hth, Option.elim_some, hkeep]
  exact hs.setPhase rfl hth (by simp [hleaving]) (.inl (by simp [hleaving]))

/-! ## The survey -/

variable {sv : Survey}

/-- A listener on a pipe that the survey has dealt with is not active. -/
theorem Inv.joined (hs : s.Inv) (hsv : s.survey = some sv) {pipe : ℕ}
    (hstage : sv.stage = .join pipe)
    (hpipe : ∀ t, s.listener pipe = some t → ∀ th, s.threads[t]? = some th →
      th.phase.active = false) :
    (s.setStage sv (.join (pipe + 1))).Inv := by
  refine hs.setStage hsv (fun dev ↦ by rw [hstage]; rfl) ?_ fun _ _ ↦ ⟨pipe, hstage⟩
  intro u th d hth hactive hlist hspare
  rw [hstage] at hspare
  rcases Nat.lt_or_eq_of_le hspare with hlt | rfl
  · exact hlt
  · rw [hpipe u hlist th hth] at hactive
    cases hactive

theorem Inv.join (hs : s.Inv) (hsv : s.survey = some sv) {pipe : ℕ}
    (hstage : sv.stage = .join pipe) (hready : s.Skips sv pipe ∨ s.Joins pipe) :
    ((if s.Skips sv pipe then s else s.joinListener pipe).setStage sv (.join (pipe + 1))).Inv := by
  split
  · rename_i hskip
    obtain ⟨dv, hdv, d, hd, hpipe⟩ := hskip
    apply hs.joined hsv hstage
    intro t ht th hth
    rcases hs.caller sv hsv with ⟨-, hnone⟩ | ⟨u, th', -, hdis, hth', hsurv, hjoin⟩
    · cases hdv.symm.trans hnone
    · obtain ⟨d', hd', hlist⟩ := hjoin pipe hstage
      obtain rfl : dv = th'.dev := Option.some.inj (hdv.symm.trans hdis)
      obtain rfl : d = d' := Option.some.inj (hd.symm.trans hd')
      obtain rfl : t = u := Option.some.inj (ht.symm.trans (hpipe ▸ hlist))
      obtain rfl := Option.some.inj (hth.symm.trans hth')
      rw [hsurv]
      rfl
  · rename_i hskip
    have hjoins := hready.resolve_left hskip
    rw [joinListener]
    cases hlist : s.listener pipe with
    | none =>
        apply hs.joined hsv hstage
        intro t ht
        cases hlist.symm.trans ht
    | some t =>
        obtain ⟨ud, hphase⟩ := inLoop_eq_some (hjoins t hlist)
        obtain ⟨th, hth, hlistening⟩ := phase_eq_some.mp hphase
        have hs' : (s.setPhase t .joined).Inv :=
          hs.setPhase rfl hth (by simp [hlistening]) (.inl (by simp [hlistening]))
        apply hs'.joined hsv hstage
        intro u hu th' hth'
        obtain rfl : t = u := Option.some.inj (hlist.symm.trans hu)
        rw [getElem?_setPhase, if_pos rfl, hth] at hth'
        obtain rfl := Option.some.inj hth'
        rfl

theorem Inv.nodup (hs : s.Inv) : (s.usbDevs.map Device.pipe).Nodup :=
  hs.pipes.nodup_iff.mpr List.nodup_range

theorem Inv.pipe_ne (hs : s.Inv) {dev dev' : ℕ} {d d' : Device} (hd : s.usbDevs[dev]? = some d)
    (hd' : s.usbDevs[dev']? = some d') (hlt : dev < dev') : d.pipe ≠ d'.pipe := by
  have hlen : dev' < (s.usbDevs.map Device.pipe).length := by
    rw [List.length_map]
    exact (List.getElem?_eq_some_iff.mp hd').1
  have hne := List.nodup_iff_getElem?_ne_getElem?.mp hs.nodup dev dev' hlt hlen
  rw [List.getElem?_map, List.getElem?_map, hd, hd'] at hne
  exact fun hpipe ↦ hne (congrArg some hpipe)

theorem Inv.pipe_lt (hs : s.Inv) {dev : ℕ} {d : Device} (hd : s.usbDevs[dev]? = some d) :
    d.pipe < s.usbDevs.length := by
  have hmem : d.pipe ∈ s.usbDevs.map Device.pipe :=
    List.mem_map_of_mem (List.mem_of_getElem? hd)
  exact List.mem_range.mp (hs.pipes.mem_iff.mp hmem)

/-- Once the listeners are joined there is nobody to take a handle. -/
theorem Inv.slots_none (hs : s.Inv) (hsv : s.survey = some sv)
    (hspares : ∀ dev d, ¬ sv.stage.spares dev d)
    (hlater : ∀ dev, sv.stage.startsLater dev = false) (dev : ℕ) : s.metaHdl dev = none := by
  rw [Option.eq_none_iff_forall_ne_some]
  intro h hslot
  rcases (hs.slots dev h).mp hslot with ⟨t, th, hth, hcreated, -⟩ | ⟨sv', hsv', hlate, -⟩
  · obtain ⟨d, -, -, hspare⟩ := hs.current t th hth (by rw [hcreated]; rfl)
    exact hspares th.dev d (hspare sv hsv)
  · obtain rfl := Option.some.inj (hsv.symm.trans hsv')
    cases (hlater dev).symm.trans hlate

theorem Inv.slots_none_reset (hs : s.Inv) (hsv : s.survey = some sv) {dv : ℕ}
    (hstage : sv.stage = .reset dv) (dev : ℕ) : s.metaHdl dev = none :=
  hs.slots_none hsv (by simp [hstage, Stage.spares]) (by simp [hstage, Stage.startsLater]) dev

theorem Inv.slots_none_discover (hs : s.Inv) (hsv : s.survey = some sv)
    (hstage : sv.stage = .discover) (dev : ℕ) : s.metaHdl dev = none :=
  hs.slots_none hsv (by simp [hstage, Stage.spares]) (by simp [hstage, Stage.startsLater]) dev

theorem getElem?_create {dv : ℕ} {d : Device} :
    (s.create dv d).threads[t]? = some th ↔
      s.threads[t]? = some th ∨ t = s.threads.length ∧ th = ⟨dv, d.camera, .created⟩ :=
  getElem?_concat_eq_some

theorem created_create {dv : ℕ} {d : Device} {dev : ℕ} {h : Handle} :
    (s.create dv d).Created dev h ↔ s.Created dev h ∨ dv = dev ∧ d.camera = h := by
  constructor
  · rintro ⟨t, th, hth, hrest⟩
    rcases getElem?_create.mp hth with hth | ⟨-, rfl⟩
    · exact .inl ⟨t, th, hth, hrest⟩
    · exact .inr hrest.2
  · rintro (⟨t, th, hth, hrest⟩ | ⟨hdev, hcam⟩)
    · exact ⟨t, th, getElem?_create.mpr (.inl hth), hrest⟩
    · exact ⟨_, _, getElem?_create.mpr (.inr ⟨rfl, rfl⟩), rfl, hdev, hcam⟩

/-- What is to be started from `dv` on is `dv` and what is to be started after it. -/
theorem startsLater_iff (hsv : s.survey = some sv) {dv : ℕ} (hstage : sv.stage = .start dv)
    {d : Device} (hd : s.usbDevs[dv]? = some d) {dev : ℕ} {h : Handle} :
    s.StartsLater dev h ↔
      dv = dev ∧ d.camera = h ∨ (s.setStage sv (.start (dv + 1))).StartsLater dev h := by
  constructor
  · rintro ⟨sv', hsv', hlater, d', hd', hcam⟩
    obtain rfl := Option.some.inj (hsv.symm.trans hsv')
    rw [hstage] at hlater
    rcases Nat.lt_or_eq_of_le (of_decide_eq_true hlater) with hlt | rfl
    · exact .inr ⟨_, rfl, decide_eq_true hlt, d', hd', hcam⟩
    · obtain rfl : d = d' := Option.some.inj (hd.symm.trans hd')
      exact .inl ⟨rfl, hcam⟩
  · rintro (⟨rfl, hcam⟩ | ⟨_, ⟨⟩, hlater, d', hd', hcam⟩)
    · exact ⟨sv, hsv, by rw [hstage]; exact decide_eq_true le_rfl, d, hd, hcam⟩
    · refine ⟨sv, hsv, ?_, d', hd', hcam⟩
      rw [hstage]
      exact decide_eq_true (Nat.le_of_succ_le (of_decide_eq_true hlater))

theorem Inv.start (hs : s.Inv) (hsv : s.survey = some sv) {dv : ℕ} (hstage : sv.stage = .start dv)
    {d : Device} (hd : s.usbDevs[dv]? = some d) :
    ((s.create dv d).setStage sv (.start (dv + 1))).Inv where
  slots dev h := by
    change s.metaHdl dev = some h ↔
      (s.create dv d).Created dev h ∨ (s.setStage sv (.start (dv + 1))).StartsLater dev h
    rw [hs.slots dev h, created_create, or_assoc, startsLater_iff hsv hstage hd]
  current t th hth hactive := by
    rcases getElem?_create.mp hth with hth | ⟨rfl, rfl⟩
    · obtain ⟨d', hd', hlist, hspare⟩ := hs.current t th hth hactive
      have hspare : th.dev < dv := by
        have := hspare sv hsv
        rwa [hstage] at this
      have hpipe : d'.pipe ≠ d.pipe := hs.pipe_ne hd' hd hspare
      refine ⟨d', hd', (Function.update_of_ne hpipe _ _).trans hlist, ?_⟩
      rintro _ ⟨⟩
      exact Nat.lt_succ_of_lt hspare
    · refine ⟨d, hd, Function.update_self _ _ _, ?_⟩
      rintro _ ⟨⟩
      exact Nat.lt_succ_self dv
  caller := by
    rintro _ ⟨⟩
    exact (hs.caller sv hsv).congr rfl rfl
      (fun _ _ hth' _ ↦ getElem?_create.mpr (.inl hth')) (by rintro _ ⟨⟩)
  pipes := hs.pipes
  enough := hs.enough

theorem Inv.endSurvey (hs : s.Inv) (hsv : s.survey = some sv) {dv : ℕ}
    (hstage : sv.stage = .start dv) (hd : s.usbDevs[dv]? = none) : (s.endSurvey sv).Inv := by
  let s' : State :=
    { s with
      listener := fun pipe ↦
        if s.usbDevs.length ≤ pipe ∧ pipe < s.pipeNumIn then none else s.listener pipe
      survey := none }
  have hs' : s'.Inv := by
    refine ⟨fun dev h ↦ ?_, fun t th hth hactive ↦ ?_, ?_, hs.pipes, hs.enough⟩
    · refine (hs.slots dev h).trans (or_congr Iff.rfl (iff_of_false ?_ ?_))
      · rintro ⟨sv', hsv', hlater, d, hd', -⟩
        obtain rfl := Option.some.inj (hsv.symm.trans hsv')
        rw [hstage] at hlater
        have hle := of_decide_eq_true hlater
        have hlt := (List.getElem?_eq_some_iff.mp hd').1
        exact absurd (List.getElem?_eq_none_iff.mp hd) (by omega)
      · rintro ⟨_, ⟨⟩, -⟩
    · obtain ⟨d, hd', hlist, -⟩ := hs.current t th hth hactive
      refine ⟨d, hd', ?_, by rintro _ ⟨⟩⟩
      have hlt := hs.pipe_lt hd'
      exact (if_neg fun h ↦ absurd h.1 (Nat.not_le.mpr hlt)).trans hlist
    · rintro _ ⟨⟩
  rw [State.endSurvey]
  rcases hs.caller sv hsv with ⟨hnone, -⟩ | ⟨t, th, ht, -, hth, hsurv, -⟩
  · rw [hnone]
    exact hs'
  · rw [ht]
    exact hs'.setPhase rfl hth (by simp [hsurv]) (.inr rfl)

theorem Inv.surveyStep (hs : s.Inv) (hsv : s.survey = some sv) (hready : s.StepReady sv) :
    (s.surveyStep sv).Inv := by
  cases hstage : sv.stage with
  | join pipe =>
      simp only [StepReady, hstage] at hready
      simp only [State.surveyStep, hstage]
      split
      · exact hs.join hsv hstage (hready ‹_›)
      · rename_i hall
        refine hs.setStage hsv (fun dev ↦ by rw [hstage]; rfl) ?_ (by rintro _ ⟨⟩)
        intro u th d hth hactive hlist hspare
        obtain ⟨d', hd', hlist', hspare'⟩ := hs.current u th hth hactive
        have hpipe : pipe ≤ d'.pipe := by
          have := hspare' sv hsv
          rwa [hstage] at this
        exact absurd (hs.pipe_lt hd') (Nat.not_lt.mpr (hs.enough.trans (by omega)))
  | reset dv =>
      have hkeep : (if sv.disconDev = some dv then s else s.metaShutdownDev dv) = s := by
        split
        · rfl
        · exact metaShutdownDev_of_none (hs.slots_none_reset hsv hstage dv)
      simp only [State.surveyStep, hstage, hkeep]
      have hset (stage : Stage) (hlater : ∀ dev, stage.startsLater dev = false)
          (hjoin : ∀ pipe, stage ≠ .join pipe) : (s.setStage sv stage).Inv := by
        refine hs.setStage hsv (fun dev ↦ by rw [hlater, hstage]; rfl) ?_
          fun pipe hpipe ↦ absurd hpipe (hjoin pipe)
        intro u th d hth hactive hlist hspare
        rw [hstage] at hspare
        exact hspare.elim
      split
      · exact hset _ (fun _ ↦ rfl) (by rintro _ ⟨⟩)
      · exact hset _ (fun _ ↦ rfl) (by rintro _ ⟨⟩)
  | discover =>
      simp only [StepReady, hstage] at hready
  | start dv =>
      simp only [State.surveyStep, hstage]
      split
      · exact hs.start hsv hstage ‹_›
      · exact hs.endSurvey hsv hstage ‹_›

theorem metaPipes_perm (metas : List Serial) :
    (metaPipes metas).Perm (List.range (metaPipes metas).length) := by
  have hperm := pipes_usbSortPipes_perm
    ((metas.take metaDiscoverCnt).map fun sn ↦ (⟨0, .META, sn⟩ : DevParams))
  have hlen := hperm.length_eq
  rw [List.length_range] at hlen
  rw [metaPipes, hlen]
  exact hperm

theorem Inv.discover (hs : s.Inv) (hsv : s.survey = some sv) (hstage : sv.stage = .discover)
    {metas : List Serial} (hpipes : s.HasPipes (.discover metas)) :
    ((s.usbDiscoverDevs metas).setStage sv (.start 0)).Inv where
  slots dev h := by
    have hnone : ¬ s.Created dev h := by
      rintro ⟨t, th, hth, hcreated, -⟩
      obtain ⟨d, -, -, hspare⟩ := hs.current t th hth (by rw [hcreated]; rfl)
      have hfalse := hspare sv hsv
      rwa [hstage] at hfalse
    change (((s.found metas)[dev]?.map Device.camera).or (s.metaHdl dev)) = some h ↔
      s.Created dev h ∨ _
    rw [hs.slots_none_discover hsv hstage dev, Option.or_none, Option.map_eq_some_iff]
    refine Iff.trans ?_ (or_iff_right hnone).symm
    constructor
    · rintro ⟨d, hd, hcam⟩
      exact ⟨_, rfl, decide_eq_true (Nat.zero_le dev), d, hd, hcam⟩
    · rintro ⟨_, -, -, d, hd, hcam⟩
      exact ⟨d, hd, hcam⟩
  current t th hth hactive := by
    obtain ⟨d, -, -, hspare⟩ := hs.current t th hth hactive
    have hfalse := hspare sv hsv
    rw [hstage] at hfalse
    exact hfalse.elim
  caller := by
    rintro _ ⟨⟩
    exact (hs.caller sv hsv).congr rfl rfl (fun _ _ hth' _ ↦ hth') (by rintro _ ⟨⟩)
  pipes := by
    have hmap : (s.found metas).map Device.pipe = metaPipes metas := by
      apply List.ext_getElem?
      intro k
      rw [found, List.getElem?_map, List.getElem?_mapIdx]
      cases (metaPipes metas)[k]? <;> rfl
    have hlen : (s.found metas).length = (metaPipes metas).length := by simp [found]
    change ((s.found metas).map Device.pipe).Perm (List.range (s.found metas).length)
    rw [hmap, hlen]
    exact metaPipes_perm metas
  enough := by
    have hlen : (s.found metas).length = (metaPipes metas).length := by simp [found]
    change (s.found metas).length ≤ s.pipeNumIn
    rw [hlen]
    exact hpipes

/-! ## Runs -/

variable {e : Event}

theorem handsOver_iff (hs : s.Inv) (hen : s.Enabled e) : s.HandsOver e ↔ s.ShutsDownLate e := by
  cases e with
  | take t =>
      refine iff_of_true ?_ trivial
      obtain ⟨th, hth, hcreated⟩ := phase_eq_some.mp hen
      intro th' hth'
      obtain rfl := Option.some.inj (hth.symm.trans hth')
      exact hs.slot_of_created hth hcreated
  | shutdown t =>
      obtain ⟨th, hth, -⟩ := phase_eq_some.mp hen
      simp only [HandsOver, destroyed, ShutsDownLate, dev_of_thread hth, Option.bind_some,
        Option.mem_some_iff, forall_eq', Option.toList_eq_nil_iff]
      exact hs.not_awaited_iff.symm
  | surveyStep =>
      refine iff_of_true ?_ trivial
      obtain ⟨sv, hsv, -⟩ := hen
      change s.destroyed .surveyStep = []
      rw [destroyed, Option.mem_def.mp hsv, Option.elim_some]
      cases hstage : sv.stage with
      | reset dv => simp [hs.slots_none_reset hsv hstage dv]
      | _ => rfl
  | discover metas =>
      refine iff_of_true ?_ trivial
      obtain ⟨sv, hsv, hstage⟩ := hen
      apply List.filterMap_eq_nil_iff.mpr
      intro dev _
      exact hs.slots_none_discover hsv hstage dev
  | lost t => exact iff_of_true rfl trivial
  | signal => exact iff_of_true rfl trivial

theorem Inv.effect (hs : s.Inv) (hen : s.Enabled e) (hpipes : s.HasPipes e)
    (hlate : s.ShutsDownLate e) : (s.effect e).Inv := by
  cases e with
  | take t =>
      obtain ⟨th, hth, hcreated⟩ := phase_eq_some.mp hen
      rw [State.effect, dev_of_thread hth]
      exact hs.take hth hcreated
  | lost t => exact hs.lost hen
  | shutdown t => exact hs.shutdown hen hlate
  | signal => exact hs.callSurvey hen (.inl ⟨rfl, rfl⟩)
  | surveyStep =>
      obtain ⟨sv, hsv, hready⟩ := hen
      rw [State.effect, Option.mem_def.mp hsv]
      exact hs.surveyStep hsv hready
  | discover metas =>
      obtain ⟨sv, hsv, hstage⟩ := hen
      rw [State.effect, Option.mem_def.mp hsv]
      exact hs.discover hsv hstage hpipes

/-- Every camera's handle reaches its listener exactly if no listener that lost its
camera resets the handle of a later camera. -/
theorem along_handsOver_iff (pipeNumIn : ℕ) {es : List Event}
    (hrun : Along step HasPipes (start pipeNumIn) es) :
    Along step HandsOver (start pipeNumIn) es ↔ Along step ShutsDownLate (start pipeNumIn) es := by
  refine along_congr_of (I := Inv) ?_ ?_ (inv_start pipeNumIn) hrun
  · intro s e t hs hpipes hlate ht
    obtain ⟨hen, rfl⟩ := guarded_eq_some.mp ht
    exact hs.effect hen hpipes hlate
  · intro s e t hs _ ht
    exact handsOver_iff hs (guarded_eq_some.mp ht).1

/-- A camera is connected, lost, and found again by the survey of its own listener. -/
def reconnection : List Event :=
  .discover [[1]] :: List.replicate 2 .surveyStep ++ [.take 0, .lost 0] ++
    List.replicate 5 .surveyStep ++ .discover [[1]] :: List.replicate 2 .surveyStep

theorem handsOver_reconnection :
    Along step HandsOver (start 2) (reconnection ++ [.take 1, .shutdown 0]) :=
  (along_handsOver_iff 2 (by decide +kernel)).mpr (by decide +kernel)

/-- The old listener is faster than the new one. -/
theorem not_handsOver_reconnection :
    Along step HasPipes (start 2) (reconnection ++ [.shutdown 0, .take 1]) ∧
      ¬ Along step HandsOver (start 2) (reconnection ++ [.shutdown 0, .take 1]) := by
  decide +kernel

end State

end Spif.Spiffer.MetaHandles
