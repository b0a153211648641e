import Mathlib.Logic.Function.Basic
import Spif.Lib.Transition
import Spif.Spiffer.SortPipes

/-!
# Start-up, surveys and shutdown of spiffer

A survey shuts down the input listeners, looks for cameras, and starts a
listener for every input pipe.  Surveys are made at start-up, on SIGUSR1, and
by the threads that find a camera disconnected; `usb_mtx` keeps them apart.
SIGTERM and errors at start-up make `spiffer_stop` shut down the listeners
without taking `usb_mtx`.

Listener threads block all signals.  The handlers may run in any other thread,
so that their steps interleave with everything else.
-/

namespace Spif.Spiffer

open Transition

def spifHwPipesNum : ℕ := 2

def usbDiscoverCnt : ℕ := spifHwPipesNum

/-- A camera listener is started with the index of its device. -/
inductive Source where
  | udp
  | usb (dev : ℕ) (type : DeviceType)
deriving DecidableEq, Repr

/-- A Prophesee listener that has lost its camera pauses, and can no longer be
cancelled.  A camera listener whose camera does not start exits. -/
inductive Status where
  | running
  | paused
  | exited
  | joined
deriving DecidableEq, Repr

/-- A listener thread.  `streaming` says that its camera transmits events. -/
structure Thread where
  pipe : ℕ
  source : Source
  streaming : Bool
  status : Status
deriving DecidableEq, Repr

def Thread.dev (th : Thread) : Option ℕ :=
  match th.source with
  | .usb dev _ => some dev
  | .udp => none

def Thread.watches (type : DeviceType) (th : Thread) : Bool :=
  th.status == .running && th.streaming &&
    match th.source with
    | .usb _ ty => ty == type
    | .udp => false

inductive Caller where
  | main
  | usr1
  | camera
deriving DecidableEq, Repr

inductive Stage where
  | shutdown (pipe : ℕ)
  | discover
  | startUsb (dv : ℕ)
  | startUdp (pipe : ℕ)
deriving DecidableEq, Repr

/-- A call of `usb_survey_devs` that holds `usb_mtx`.  `data` is the device
number it points to, if any. -/
structure Survey where
  caller : Caller
  data : Option ℕ
  stage : Stage
deriving DecidableEq, Repr

inductive Main where
  | openLog
  | openPipe0
  | initPipes
  | initUdp
  | initSpinn
  | setUsr1
  | setTerm
  | sleeping
  | calling
  | surveying
  | pausing
  | stopping
deriving DecidableEq, Repr

inductive Handler where
  | none
  | entered
  | surveying
  | returned
deriving DecidableEq, Repr

/-- The progress of `spiffer_stop`, and the end of the process. -/
inductive Stop where
  | inputs (pipe : ℕ)
  | outputs (pipe : ℕ)
  | done
deriving DecidableEq, Repr

/-- `misuse` records that `pthread_cancel` or `pthread_join` was applied to
a thread that was never created or already joined. -/
structure State where
  main : Main
  pipeNumIn : ℕ
  pipeNumOut : ℕ
  threads : List Thread
  listener : ℕ → Option ℕ
  outListeners : ℕ
  spinnListeners : ℕ
  usbDevs : List DevParams
  survey : Option Survey
  surveyed : Bool
  usr1Set : Bool
  usr1Pending : Bool
  usr1Taken : Bool
  handler : Handler
  termSet : Bool
  stop : Option Stop
  misuse : Bool

def init : State where
  main := .openLog
  pipeNumIn := 0
  pipeNumOut := 0
  threads := []
  listener := fun _ ↦ none
  outListeners := 0
  spinnListeners := 0
  usbDevs := []
  survey := none
  surveyed := false
  usr1Set := false
  usr1Pending := false
  usr1Taken := false
  handler := .none
  termSet := false
  stop := none
  misuse := false

namespace State

/-! ## Threads -/

def status (s : State) (t : ℕ) : Option Status := s.threads[t]?.map Thread.status

def create (s : State) (pipe : ℕ) (source : Source) : State :=
  { s with
    threads := s.threads ++ [⟨pipe, source, false, .running⟩]
    listener := Function.update s.listener pipe (some s.threads.length) }

def setStatus (s : State) (t : ℕ) (st : Status) : State :=
  { s with threads := s.threads.modify t fun th ↦ { th with status := st } }

/-- `pthread_cancel (listener[pipe])` and `pthread_join (listener[pipe], NULL)` -/
def cancelJoin (s : State) (pipe : ℕ) : State :=
  match (s.listener pipe).filter fun t ↦ (s.status t).any (· ≠ .joined) with
  | some t => s.setStatus t .joined
  | none => { s with misuse := true }

/-- The join does not return. -/
def Blocked (s : State) (pipe : ℕ) : Prop :=
  (s.listener pipe).bind s.status = some .paused

instance (s : State) (pipe : ℕ) : Decidable (s.Blocked pipe) :=
  inferInstanceAs (Decidable (_ = _))

def discon (s : State) (data : Option ℕ) : Option DevParams :=
  data.bind fun dev ↦ s.usbDevs[dev]?

/-- The listener of a disconnected Prophesee camera is left alone. -/
def Skips (s : State) (data : Option ℕ) (pipe : ℕ) : Prop :=
  (s.discon data).any fun d ↦ d.pipe == pipe && d.type == .META

instance (s : State) (data : Option ℕ) (pipe : ℕ) : Decidable (s.Skips data pipe) :=
  inferInstanceAs (Decidable (_ = _))

def shutdownPipe (s : State) (data : Option ℕ) (pipe : ℕ) : State :=
  if s.Skips data pipe then s else s.cancelJoin pipe

/-! ## Surveys -/

def returnTo (s : State) : Caller → State
  | .main => { s with main := .pausing }
  | .usr1 => { s with handler := .returned }
  | .camera => s

def enter (s : State) : Caller → State
  | .main => { s with main := .surveying }
  | .usr1 => { s with handler := .surveying }
  | .camera => s

/-- `usb_survey_devs (data)`, up to where it holds `usb_mtx`.  Only device
numbers below `SPIFFER_USB_DISCOVER_CNT` ask for a shutdown. -/
def callSurvey (s : State) (caller : Caller) (data : Option ℕ) : State :=
  if s.survey.isSome then s.returnTo caller
  else
    { s.enter caller with
      survey := some ⟨caller, data,
        if data.all (· < usbDiscoverCnt) then .shutdown 0 else .discover⟩ }

def setStage (s : State) (sv : Survey) (stage : Stage) : State :=
  { s with survey := some { sv with stage := stage } }

def surveyStep (s : State) (sv : Survey) : State :=
  match sv.stage with
  | .shutdown pipe =>
      if pipe < s.pipeNumIn then (s.shutdownPipe sv.data pipe).setStage sv (.shutdown (pipe + 1))
      else s.setStage sv .discover
  | .discover => s
  | .startUsb dv =>
      match s.usbDevs[dv]? with
      | some d => (s.create d.pipe (.usb dv d.type)).setStage sv (.startUsb (dv + 1))
      | none => s.setStage sv (.startUdp s.usbDevs.length)
  | .startUdp pipe =>
      if pipe < s.pipeNumIn then (s.create pipe .udp).setStage sv (.startUdp (pipe + 1))
      else ({ s with survey := none, surveyed := true } : State).returnTo sv.caller

/-- `usb_discover_devs`: cameras of different vendors are not mixed. -/
def usbDiscoverDevs (metas caers : List Serial) : List DevParams :=
  usbSortPipes <|
    if metas = [] then (caers.take usbDiscoverCnt).map fun sn ↦ ⟨0, .CAER, sn⟩
    else (metas.take usbDiscoverCnt).map fun sn ↦ ⟨0, .META, sn⟩

/-! ## Shutdown -/

/-- `spiffer_stop`, from its input listeners on. -/
def stopStep (s : State) : Stop → State
  | .inputs pipe =>
      if pipe < s.pipeNumIn then
        { s.shutdownPipe none pipe with stop := some (.inputs (pipe + 1)) }
      else { s with stop := some (.outputs 0) }
  | .outputs pipe =>
      if pipe < s.pipeNumOut then
        { s with
          stop := some (.outputs (pipe + 1))
          misuse := s.misuse || s.spinnListeners ≤ pipe || s.outListeners ≤ pipe }
      else { s with stop := some .done }
  | .done => s

def fail (s : State) : State := { s with main := .stopping, stop := some (.inputs 0) }

end State

/-! ## Events -/

inductive Event where
  | openLog (ok : Bool)
  /-- `spif_pipes_init` opens pipe 0 and reads the numbers of pipes -/
  | openPipe0 (ok : Bool) (pipeNumIn pipeNumOut : ℕ)
  /-- the rest of `spif_pipes_init` -/
  | initPipes (ok : Bool)
  | initUdp (ok : Bool)
  | initSpinn
  | setUsr1 (ok : Bool)
  | setTerm (ok : Bool)
  | wakeUp
  | mainSurvey
  | raiseUsr1
  | enterUsr1
  | usr1Survey
  | leaveUsr1
  | sigTerm
  | stopStep
  | surveyStep
  /-- the cameras that can be opened and configured -/
  | discover (metas caers : List Serial)
  /-- a camera listener starts the transmission of events -/
  | startCamera (t : ℕ) (ok : Bool)
  /-- a Prophesee listener finds its camera disconnected -/
  | metaLost (t : ℕ)
  /-- `libcaer` reports the camera of listener `t` as disconnected -/
  | caerLost (t : ℕ)
deriving DecidableEq, Repr

namespace State

/-- The survey is not kept waiting by a thread it joins. -/
def SurveyReady (s : State) (sv : Survey) : Prop :=
  match sv.stage with
  | .shutdown pipe => pipe < s.pipeNumIn → ¬ s.Skips sv.data pipe → ¬ s.Blocked pipe
  | .discover => False
  | _ => True

instance (s : State) (sv : Survey) : Decidable (s.SurveyReady sv) := by
  unfold SurveyReady
  cases sv.stage <;> infer_instance

def StopReady (s : State) : Stop → Prop
  | .inputs pipe => pipe < s.pipeNumIn → ¬ s.Blocked pipe
  | .outputs _ => True
  | .done => False

instance (s : State) (st : Stop) : Decidable (s.StopReady st) := by
  cases st <;> unfold StopReady <;> infer_instance

/-- Nothing happens once the process has ended. -/
def Enabled (s : State) (e : Event) : Prop :=
  s.stop ≠ some .done ∧
    match e with
    | .openLog _ => s.main = .openLog
    | .openPipe0 _ _ _ => s.main = .openPipe0
    | .initPipes ok => s.main = .initPipes ∧ (ok → max s.pipeNumIn s.pipeNumOut ≤ spifHwPipesNum)
    | .initUdp _ => s.main = .initUdp
    | .initSpinn => s.main = .initSpinn
    | .setUsr1 _ => s.main = .setUsr1
    | .setTerm _ => s.main = .setTerm
    | .wakeUp => s.main = .sleeping
    | .mainSurvey => s.main = .calling
    | .raiseUsr1 => True
    | .enterUsr1 => s.usr1Pending
    | .usr1Survey => s.handler = .entered
    | .leaveUsr1 => s.handler = .returned
    | .sigTerm => s.termSet → s.stop = none
    | .stopStep => s.stop.any fun st ↦ s.StopReady st
    | .surveyStep => s.survey.any fun sv ↦ s.SurveyReady sv
    | .discover _ _ => s.survey.any fun sv ↦ sv.stage == .discover
    | .startCamera t _ => s.threads[t]?.any fun th ↦
        th.status == .running && !th.streaming && th.dev.isSome
    | .metaLost t => s.threads[t]?.any (Thread.watches .META)
    | .caerLost t => s.threads[t]?.any (Thread.watches .CAER)

instance : ∀ (s : State) (e : Event), Decidable (Enabled s e) := fun s e ↦ by
  cases e <;> unfold Enabled <;> infer_instance

/-- The signals end a process that has no handlers for them yet.  A SIGUSR1 that
comes while another is served is dropped by `signal_mtx`. -/
def effect (s : State) : Event → State
  | .openLog ok => if ok then { s with main := .openPipe0 } else s.fail
  | .openPipe0 ok pipeNumIn pipeNumOut =>
      if ok then { s with main := .initPipes, pipeNumIn := pipeNumIn, pipeNumOut := pipeNumOut }
      else s.fail
  | .initPipes ok => if ok then { s with main := .initUdp } else s.fail
  | .initUdp ok =>
      if ok then { s with main := .initSpinn, outListeners := s.pipeNumOut } else s.fail
  | .initSpinn =>
      { s with main := .setUsr1, usbDevs := [], spinnListeners := s.pipeNumOut }
  | .setUsr1 ok =>
      if ok then { s with main := .setTerm, usr1Taken := false, usr1Set := true } else s.fail
  | .setTerm ok => if ok then { s with main := .sleeping, termSet := true } else s.fail
  | .wakeUp => { s with main := if s.usbDevs = [] then .calling else .pausing }
  | .mainSurvey => s.callSurvey .main (some usbDiscoverCnt)
  | .raiseUsr1 =>
      if s.usr1Set then { s with usr1Pending := true } else { s with stop := some .done }
  | .enterUsr1 =>
      { s with
        usr1Pending := false
        handler := if s.handler = .none then .entered else s.handler }
  | .usr1Survey =>
      if s.usr1Taken then { s with usr1Taken := false, handler := .none }
      else s.callSurvey .usr1 none
  | .leaveUsr1 =>
      { s with usr1Taken := s.usr1Taken || s.usr1Pending, handler := .none }
  | .sigTerm => { s with stop := some (if s.termSet then .inputs 0 else .done) }
  | .stopStep => s.stop.elim s s.stopStep
  | .surveyStep => s.survey.elim s s.surveyStep
  | .discover metas caers =>
      s.survey.elim s fun sv ↦
        ({ s with usbDevs := usbDiscoverDevs metas caers } : State).setStage sv (.startUsb 0)
  | .startCamera t ok =>
      if ok then
        { s with threads := s.threads.modify t fun th ↦ { th with streaming := true } }
      else s.setStatus t .exited
  | .metaLost t =>
      (s.setStatus t .paused).callSurvey .camera (s.threads[t]?.bind Thread.dev)
  | .caerLost t => s.callSurvey .camera (s.threads[t]?.bind Thread.dev)

def step : State → Event → Option State := guarded Enabled effect

end State

end Spif.Spiffer
