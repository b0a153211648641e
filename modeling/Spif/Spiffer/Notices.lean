import Spif.Spiffer.Surveys

/-!
# News of cameras

Cameras come and go on the USB bus.  A connection raises SIGUSR1, a disconnection
makes a thread call `usb_survey_devs` with the number of the device.  Because of
`signal_mtx`, `usb_mtx` and `signal_usr1_taken` spiffer discards some of these
notices.
-/

namespace Spif.Spiffer

open Transition

structure Camera where
  type : DeviceType
  sn : Serial
deriving DecidableEq, Repr

def DevParams.camera (d : DevParams) : Camera := ⟨d.type, d.sn⟩

/-- `SPIFFER_USB_DISCOVER_CNT` cameras of a single vendor -/
def Supported (cs : List Camera) : Prop :=
  cs.Nodup ∧ cs.length ≤ usbDiscoverCnt ∧ ∀ c ∈ cs, ∀ c' ∈ cs, c.type = c'.type

instance (cs : List Camera) : Decidable (Supported cs) := inferInstanceAs (Decidable (_ ∧ _))

def serials (type : DeviceType) (cs : List Camera) : List Serial :=
  cs.filterMap fun c ↦ if c.type = type then some c.sn else none

/-- Discovery finds and configures the cameras in some order. -/
def Reports (cs : List Camera) (metas caers : List Serial) : Prop :=
  metas.Perm (serials .META cs) ∧ caers.Perm (serials .CAER cs)

instance (cs : List Camera) (metas caers : List Serial) : Decidable (Reports cs metas caers) :=
  inferInstanceAs (Decidable (_ ∧ _))

def SameCameras (cs cs' : List Camera) : Prop := (∀ c ∈ cs, c ∈ cs') ∧ ∀ c ∈ cs', c ∈ cs

instance (cs cs' : List Camera) : Decidable (SameCameras cs cs') :=
  inferInstanceAs (Decidable (_ ∧ _))

/-- spiffer, the cameras on the bus, those that were there at the last discovery,
and the devices for whose disconnection `usb_survey_devs` has yet to be called. -/
structure Bus where
  spiffer : State
  connected : List Camera
  reported : Option (List Camera)
  calls : List ℕ

inductive UsbEvent where
  | connect (c : Camera)
  | disconnect (c : Camera)
  | call (dev : ℕ)
  | discover (metas caers : List Serial)
  | spiffer (e : Event)
deriving DecidableEq, Repr

/-- The events which the bus has no part in. -/
def Event.internal : Event → Bool
  | .raiseUsr1 | .discover _ _ | .metaLost _ | .caerLost _ => false
  | _ => true

/-- The listener of a Prophesee camera pauses once it has asked for the survey. -/
def State.pauseLost (s : State) (dev : ℕ) : State :=
  { s with
    threads := s.threads.map fun th ↦
      if th.watches .META && th.dev == some dev then { th with status := .paused } else th }

/-- spiffer from where SIGUSR1 has a handler. -/
def State.listening (pipeNumIn pipeNumOut : ℕ) : State :=
  { init with
    main := .setTerm
    pipeNumIn := pipeNumIn
    pipeNumOut := pipeNumOut
    outListeners := pipeNumOut
    spinnListeners := pipeNumOut
    usr1Set := true }

example : exec State.step init [.openLog true, .openPipe0 true 2 1, .initPipes true, .initUdp true,
    .initSpinn, .setUsr1 true] = some (State.listening 2 1) := rfl

namespace Bus

def start (pipeNumIn pipeNumOut : ℕ) (connected : List Camera) : Bus :=
  ⟨.listening pipeNumIn pipeNumOut, connected, none, []⟩

def table (b : Bus) : List Camera := b.spiffer.usbDevs.map DevParams.camera

def Enabled (b : Bus) : UsbEvent → Prop
  | .connect c => Supported (c :: b.connected)
  | .disconnect c => c ∈ b.connected
  | .call dev => b.spiffer.stop ≠ some .done ∧ dev ∈ b.calls
  | .discover metas caers =>
      b.spiffer.Enabled (.discover metas caers) ∧ Reports b.connected metas caers
  | .spiffer e => e.internal ∧ b.spiffer.Enabled e

instance : ∀ (b : Bus) (e : UsbEvent), Decidable (Enabled b e) := fun b e ↦ by
  cases e <;> unfold Enabled <;> infer_instance

def effect (b : Bus) : UsbEvent → Bus
  | .connect c =>
      { b with
        spiffer := (b.spiffer.step .raiseUsr1).getD b.spiffer
        connected := c :: b.connected }
  | .disconnect c =>
      { b with
        connected := b.connected.erase c
        calls := b.calls ++ (b.table.findIdx? (· == c)).toList }
  | .call dev =>
      { b with
        spiffer := (b.spiffer.pauseLost dev).callSurvey .camera (some dev)
        calls := b.calls.erase dev }
  | .discover metas caers =>
      { b with
        spiffer := b.spiffer.effect (.discover metas caers)
        reported := some b.connected }
  | .spiffer e => { b with spiffer := b.spiffer.effect e }

def step : Bus → UsbEvent → Option Bus := guarded Enabled effect

/-- Start-up is over, no survey is running and no notice is outstanding. -/
def Quiet (b : Bus) : Prop :=
  b.spiffer.main = .pausing ∧ b.spiffer.stop = none ∧ b.spiffer.survey = none ∧
    b.spiffer.usr1Pending = false ∧ b.spiffer.handler ≠ .entered ∧ b.calls = []

instance (b : Bus) : Decidable (Quiet b) := inferInstanceAs (Decidable (_ ∧ _))

end Bus

/-! ## Discarded notices -/

def Survey.undiscovered (sv : Survey) : Bool :=
  match sv.stage with
  | .shutdown _ | .discover => true
  | _ => false

namespace Bus

/-- Nothing has changed since the last discovery. -/
def Current (b : Bus) : Prop := ∃ cs ∈ b.reported, SameCameras cs b.connected

instance (b : Bus) : Decidable (Current b) := inferInstanceAs (Decidable (∃ _ ∈ _, _))

def undiscovered (b : Bus) : Bool := b.spiffer.survey.any Survey.undiscovered

/-- The notices that spiffer has not acted on. -/
def notices (b : Bus) : ℕ :=
  b.spiffer.usr1Pending.toNat + (b.spiffer.handler == .entered).toNat + b.calls.length

/-- A trylock fails, or the handler takes the signal for one already served. -/
def discards (b : Bus) : UsbEvent → Bool
  | .spiffer .enterUsr1 => b.spiffer.handler != .none
  | .spiffer .usr1Survey => b.spiffer.usr1Taken || b.spiffer.survey.isSome
  | .call _ => b.spiffer.survey.isSome
  | _ => false

/-- A notice is discarded only while there is no news, or while a survey has yet to
look for cameras, or while there is another notice. -/
def KeepsNews (b : Bus) (e : UsbEvent) : Prop :=
  b.discards e = true → b.Current ∨ b.undiscovered = true ∨ 2 ≤ b.notices

instance : ∀ (b : Bus) (e : UsbEvent), Decidable (KeepsNews b e) :=
  fun _ _ ↦ inferInstanceAs (Decidable (_ → _))

end Bus

/-! ## The device table -/

theorem map_camera_assignPipes (p : ℕ) (sorted : List ℕ) (params : List DevParams) :
    (assignPipes p sorted params).map DevParams.camera = params.map DevParams.camera := by
  induction sorted generalizing p params with
  | nil => rfl
  | cons dv sorted ih =>
      rw [assignPipes, ih]
      apply List.ext_getElem?
      intro k
      simp only [List.getElem?_map, List.getElem?_modify]
      cases params[k]? with
      | none => rfl
      | some d => by_cases hk : dv = k <;> simp [hk, DevParams.camera]

theorem map_camera_usbDiscoverDevs (metas caers : List Serial) :
    (State.usbDiscoverDevs metas caers).map DevParams.camera =
      if metas = [] then (caers.take usbDiscoverCnt).map (⟨.CAER, ·⟩)
      else (metas.take usbDiscoverCnt).map (⟨.META, ·⟩) := by
  rw [State.usbDiscoverDevs, usbSortPipes, map_camera_assignPipes]
  split <;> simp [DevParams.camera, Function.comp_def]

theorem mem_serials {type : DeviceType} {cs : List Camera} {sn : Serial} :
    sn ∈ serials type cs ↔ ⟨type, sn⟩ ∈ cs := by
  simp only [serials, List.mem_filterMap]
  constructor
  · rintro ⟨⟨type', sn'⟩, hmem, hsome⟩
    split at hsome
    · rename_i htype
      obtain rfl : sn' = sn := Option.some.inj hsome
      obtain rfl : type' = type := htype
      exact hmem
    · cases hsome
  · intro hmem
    exact ⟨_, hmem, if_pos rfl⟩

theorem Supported.take_serials {cs : List Camera} (hcs : Supported cs) {type : DeviceType}
    {sns : List Serial} (hsns : sns.Perm (serials type cs)) : sns.take usbDiscoverCnt = sns := by
  apply List.take_of_length_le
  rw [hsns.length_eq]
  exact (List.length_filterMap_le _ _).trans hcs.2.1

/-- With few enough cameras of one vendor, discovery finds them all. -/
theorem mem_usbDiscoverDevs {cs : List Camera} (hcs : Supported cs) {metas caers : List Serial}
    (hrep : Reports cs metas caers) (c : Camera) :
    c ∈ (State.usbDiscoverDevs metas caers).map DevParams.camera ↔ c ∈ cs := by
  obtain ⟨hmetas, hcaers⟩ := hrep
  have hmeta (sn : Serial) : sn ∈ metas ↔ ⟨.META, sn⟩ ∈ cs := by
    rw [hmetas.mem_iff, mem_serials]
  have hcaer (sn : Serial) : sn ∈ caers ↔ ⟨.CAER, sn⟩ ∈ cs := by
    rw [hcaers.mem_iff, mem_serials]
  obtain ⟨type, sn⟩ := c
  rw [map_camera_usbDiscoverDevs, hcs.take_serials hmetas, hcs.take_serials hcaers]
  split
  · rename_i hnil
    cases type with
    | CAER => simp [hcaer]
    | META => simp [← hmeta, hnil]
  · rename_i hcons
    obtain ⟨sn', hsn'⟩ := List.exists_mem_of_ne_nil metas hcons
    cases type with
    | META => simp [hmeta]
    | CAER =>
        have hnone : (⟨.CAER, sn⟩ : Camera) ∉ cs := by
          intro hmem
          have htype := hcs.2.2 _ hmem _ ((hmeta sn').mp hsn')
          cases htype
        simp [hnone]

/-! ## No news is lost -/

def Main.starting : Main → Bool
  | .setTerm | .sleeping | .calling => true
  | _ => false

/-- SIGUSR1 has a handler. -/
def Main.listening : Main → Bool
  | .openLog | .openPipe0 | .initPipes | .initUdp | .initSpinn | .setUsr1 => false
  | _ => true

namespace Bus

def NewsKept (b : Bus) : Prop :=
  b.Current ∨ b.undiscovered = true ∨ 0 < b.notices ∨
    b.reported = none ∧ b.spiffer.main.starting = true

structure Inv (b : Bus) : Prop where
  listening : b.spiffer.main.listening = true ∧ b.spiffer.usr1Set = true
  supported : Supported b.connected
  table : ∀ c, c ∈ b.table ↔ c ∈ b.reported.getD []
  first : b.reported = none → ∀ sv, b.spiffer.survey = some sv → sv.undiscovered = true
  caller : ∀ sv, b.spiffer.survey = some sv → sv.caller = .usr1 → b.spiffer.handler = .surveying
  news : b.spiffer.stop = none → b.NewsKept

variable {b b' : Bus}

theorem inv_start (pipeNumIn pipeNumOut : ℕ) {cs : List Camera} (hcs : Supported cs) :
    (start pipeNumIn pipeNumOut cs).Inv where
  listening := ⟨rfl, rfl⟩
  supported := hcs
  table _ := Iff.rfl
  first _ _ h := by cases h
  caller _ h := by cases h
  news _ := .inr (.inr (.inr ⟨rfl, rfl⟩))

theorem notices_pos : 0 < b.notices ↔
    b.spiffer.usr1Pending = true ∨ b.spiffer.handler = .entered ∨ b.calls ≠ [] := by
  rw [Nat.pos_iff_ne_zero, notices, Ne, Nat.add_eq_zero_iff, Nat.add_eq_zero_iff,
    Bool.toNat_eq_zero, Bool.toNat_eq_zero, List.length_eq_zero_iff, beq_eq_false_iff_ne,
    not_and_or, not_and_or, Bool.not_eq_false, not_ne_iff, or_assoc]

theorem Inv.congr (h : b.Inv) (hreported : b'.reported = b.reported)
    (hdevs : b'.spiffer.usbDevs = b.spiffer.usbDevs)
    (hsurvey : b'.spiffer.survey = b.spiffer.survey)
    (hlistening : b'.spiffer.main.listening = true ∧ b'.spiffer.usr1Set = true)
    (hsupported : Supported b'.connected)
    (hhandler : b.spiffer.handler = .surveying → b'.spiffer.handler = .surveying)
    (hnews : b'.spiffer.stop = none → b'.NewsKept) : b'.Inv where
  listening := hlistening
  supported := hsupported
  table c := by
    rw [Bus.table, hdevs, hreported]
    exact h.table c
  first := by
    rw [hreported, hsurvey]
    exact h.first
  caller sv := by
    rw [hsurvey]
    exact fun hsv hcaller ↦ hhandler (h.caller sv hsv hcaller)
  news := hnews

theorem Inv.connect (h : b.Inv) {c : Camera} (hen : b.Enabled (.connect c)) :
    (b.effect (.connect c)).Inv := by
  by_cases hdone : b.spiffer.stop = some .done
  · have hstep : b.spiffer.step .raiseUsr1 = none := by
      simp [State.step, guarded, State.Enabled, hdone]
    refine h.congr rfl ?_ ?_ ?_ hen ?_ ?_ <;> simp only [effect, hstep, Option.getD_none]
    · exact h.listening
    · exact id
    · simp [hdone]
  · have hstep : b.spiffer.step .raiseUsr1 = some { b.spiffer with usr1Pending := true } := by
      simp [State.step, guarded, State.Enabled, hdone, State.effect, h.listening.2]
    refine h.congr rfl ?_ ?_ ?_ hen ?_ ?_ <;> simp only [effect, hstep, Option.getD_some]
    · exact h.listening
    · exact id
    · intro _
      exact .inr (.inr (.inl (notices_pos.mpr (.inl rfl))))

theorem Supported.erase {cs : List Camera} (hcs : Supported cs) (c : Camera) :
    Supported (cs.erase c) :=
  ⟨hcs.1.erase c, (List.length_erase_le).trans hcs.2.1,
    fun d hd d' hd' ↦ hcs.2.2 d (List.mem_of_mem_erase hd) d' (List.mem_of_mem_erase hd')⟩

/-- A camera of the table is missed through its call, and one that is not in the table
while the table is current does not exist. -/
theorem Inv.disconnect (h : b.Inv) {c : Camera} (hen : b.Enabled (.disconnect c)) :
    (b.effect (.disconnect c)).Inv := by
  refine h.congr rfl rfl rfl h.listening (Supported.erase h.supported c) id fun hstop ↦ ?_
  by_cases hc : c ∈ b.table
  · have hsome : (b.table.findIdx? (· == c)).isSome = true := by
      rw [List.findIdx?_isSome, List.any_eq_true]
      exact ⟨c, hc, beq_self_eq_true c⟩
    obtain ⟨dev, hdev⟩ := Option.isSome_iff_exists.mp hsome
    exact .inr (.inr (.inl (notices_pos.mpr (.inr (.inr (by simp [effect, hdev]))))))
  · rcases h.news hstop with ⟨cs, hcs, hsame⟩ | hund | hnot | hfirst
    · have hmem : c ∈ cs := hsame.2 c hen
      exact absurd ((h.table c).mpr (by rw [Option.mem_def.mp hcs]; exact hmem)) hc
    · exact .inr (.inl hund)
    · exact .inr (.inr (.inl (by simp only [notices, effect, List.length_append] at hnot ⊢; omega)))
    · exact .inr (.inr (.inr hfirst))

theorem Inv.discover (h : b.Inv) {metas caers : List Serial}
    (hen : b.Enabled (.discover metas caers)) : (b.effect (.discover metas caers)).Inv := by
  obtain ⟨⟨-, hstage⟩, hrep⟩ := hen
  obtain ⟨sv, hsv, -⟩ := (Option.any_eq_true _ _).mp hstage
  have heff : b.spiffer.effect (.discover metas caers) =
      { b.spiffer with
        usbDevs := State.usbDiscoverDevs metas caers
        survey := some { sv with stage := .startUsb 0 } } := by
    simp [State.effect, hsv, State.setStage]
  simp only [effect, heff]
  refine ⟨h.listening, h.supported, mem_usbDiscoverDevs h.supported hrep, ?_, ?_, ?_⟩
  · rintro ⟨⟩
  · intro _ hsome hcaller
    obtain rfl := Option.some.inj hsome
    exact h.caller sv hsv hcaller
  · exact fun _ ↦ .inl ⟨_, rfl, fun _ hc ↦ hc, fun _ hc ↦ hc⟩

/-! ## Surveys -/

/-- A survey that finds `usb_mtx` free will look for cameras. -/
theorem Inv.callSurvey (h : b.Inv) (hfree : b.spiffer.survey = none) (caller : Caller)
    (data : Option ℕ) (calls : List ℕ) :
    ({ b with spiffer := b.spiffer.callSurvey caller data, calls := calls } : Bus).Inv := by
  have hcall : b.spiffer.callSurvey caller data = { b.spiffer.enter caller with
      survey := some ⟨caller, data,
        if data.all (· < usbDiscoverCnt) then .shutdown 0 else .discover⟩ } := by
    simp [State.callSurvey, hfree]
  have hund : ∀ (stage : Bool), (Survey.mk caller data
      (if stage then .shutdown 0 else .discover)).undiscovered = true := by
    rintro (_ | _) <;> rfl
  simp only [hcall]
  refine ⟨?_, h.supported, ?_, ?_, ?_, fun _ ↦ .inr (.inl (hund _))⟩
  · cases caller with
    | main => exact ⟨rfl, h.listening.2⟩
    | usr1 | camera => exact h.listening
  · cases caller <;> exact h.table
  · intro _ _ hsome
    obtain rfl := Option.some.inj hsome
    exact hund _
  · intro _ hsome hcaller
    obtain rfl := Option.some.inj hsome
    obtain rfl : caller = .usr1 := hcaller
    rfl

theorem Inv.setStage (h : b.Inv) {sv : Survey} (hsv : b.spiffer.survey = some sv) (stage : Stage)
    (hund : ({ sv with stage := stage } : Survey).undiscovered = sv.undiscovered)
    (threads : List Thread) (listener : ℕ → Option ℕ) (misuse : Bool) :
    ({ b with
      spiffer :=
        { b.spiffer with
          threads := threads
          listener := listener
          misuse := misuse
          survey := some { sv with stage := stage } } } : Bus).Inv := by
  refine ⟨h.listening, h.supported, h.table, ?_, ?_, ?_⟩
  · intro hnone _ hsome
    obtain rfl := Option.some.inj hsome
    exact hund.trans (h.first hnone sv hsv)
  · intro _ hsome hcaller
    obtain rfl := Option.some.inj hsome
    exact h.caller sv hsv hcaller
  · intro hstop
    have hnews := h.news hstop
    simpa only [NewsKept, Current, undiscovered, hsv, Option.any_some, hund, notices] using hnews

theorem shutdownPipe_eq (s : State) (data : Option ℕ) (pipe : ℕ) :
    ∃ threads misuse, s.shutdownPipe data pipe =
      { s with threads := threads, misuse := misuse } := by
  unfold State.shutdownPipe State.cancelJoin
  split
  · exact ⟨_, _, rfl⟩
  · split <;> exact ⟨_, _, rfl⟩

theorem Inv.endSurvey (h : b.Inv) {sv : Survey} (hsv : b.spiffer.survey = some sv)
    (hund : sv.undiscovered = false) :
    ({ b with
      spiffer := ({ b.spiffer with survey := none, surveyed := true } : State).returnTo
        sv.caller } : Bus).Inv := by
  have hfound : b.reported ≠ none := fun hnone ↦ by
    simp [h.first hnone sv hsv] at hund
  have hnews : b.spiffer.stop = none → b.Current ∨ 0 < b.notices := by
    intro hstop
    rcases h.news hstop with hcur | hund' | hnot | ⟨hnone, -⟩
    · exact .inl hcur
    · simp [undiscovered, hsv, hund] at hund'
    · exact .inr hnot
    · exact absurd hnone hfound
  cases hcaller : sv.caller with
  | main =>
      exact ⟨⟨rfl, h.listening.2⟩, h.supported, h.table, by rintro - _ ⟨⟩, by rintro _ ⟨⟩,
        fun hstop ↦ (hnews hstop).imp id fun hnot ↦ .inr (.inl hnot)⟩
  | usr1 =>
      refine ⟨h.listening, h.supported, h.table, by rintro - _ ⟨⟩, by rintro _ ⟨⟩,
        fun hstop ↦ (hnews hstop).imp id fun hnot ↦ .inr (.inl ?_)⟩
      have hhandler := h.caller sv hsv hcaller
      simp only [notices, hhandler] at hnot
      exact hnot
  | camera =>
      exact ⟨h.listening, h.supported, h.table, by rintro - _ ⟨⟩, by rintro _ ⟨⟩,
        fun hstop ↦ (hnews hstop).imp id fun hnot ↦ .inr (.inl hnot)⟩

theorem Inv.surveyStep (h : b.Inv) {sv : Survey} (hsv : b.spiffer.survey = some sv) :
    ({ b with spiffer := b.spiffer.surveyStep sv } : Bus).Inv := by
  unfold State.surveyStep
  split
  · rename_i pipe hstage
    have hund : sv.undiscovered = true := by simp [Survey.undiscovered, hstage]
    split
    · obtain ⟨threads, misuse, heq⟩ := shutdownPipe_eq b.spiffer sv.data pipe
      rw [heq]
      exact h.setStage hsv (.shutdown (pipe + 1)) hund.symm _ _ _
    · exact h.setStage hsv .discover hund.symm _ _ _
  · exact h
  · rename_i dv hstage
    have hund : sv.undiscovered = false := by simp [Survey.undiscovered, hstage]
    split
    · exact h.setStage hsv (.startUsb (dv + 1)) hund.symm _ _ _
    · exact h.setStage hsv (.startUdp b.spiffer.usbDevs.length) hund.symm _ _ _
  · rename_i pipe hstage
    have hund : sv.undiscovered = false := by simp [Survey.undiscovered, hstage]
    split
    · exact h.setStage hsv (.startUdp (pipe + 1)) hund.symm _ _ _
    · exact h.endSurvey hsv hund

/-! ## Notices -/

/-- A notice that was discarded left others, or was not needed. -/
theorem Inv.discard (h : b.Inv) {e : UsbEvent} (he : b.KeepsNews e) (hdisc : b.discards e = true)
    {pending taken : Bool} {handler : Handler} {calls : List ℕ}
    (hhandler : b.spiffer.handler = .surveying → handler = .surveying)
    (hone : b.notices ≤ pending.toNat + (handler == .entered).toNat + calls.length + 1) :
    ({ b with
      spiffer :=
        { b.spiffer with usr1Pending := pending, usr1Taken := taken, handler := handler }
      calls := calls } : Bus).Inv := by
  refine h.congr rfl rfl rfl h.listening h.supported hhandler fun _ ↦ ?_
  rcases he hdisc with hcur | hund | hnot
  · exact .inl hcur
  · exact .inr (.inl hund)
  · refine .inr (.inr (.inl ?_))
    change 0 < pending.toNat + (handler == .entered).toNat + calls.length
    omega

theorem Inv.call (h : b.Inv) {dev : ℕ} (hen : b.Enabled (.call dev)) (he : b.KeepsNews (.call dev)) :
    (b.effect (.call dev)).Inv := by
  have hpause : ({ b with spiffer := b.spiffer.pauseLost dev } : Bus).Inv :=
    h.congr rfl rfl rfl h.listening h.supported id h.news
  by_cases hfree : b.spiffer.survey = none
  · exact hpause.callSurvey hfree .camera (some dev) (b.calls.erase dev)
  · have hbusy : b.spiffer.survey.isSome = true := Option.isSome_iff_ne_none.mpr hfree
    have hcall : (b.spiffer.pauseLost dev).callSurvey .camera (some dev) =
        b.spiffer.pauseLost dev := by
      simp [State.callSurvey, State.pauseLost, hbusy, State.returnTo]
    simp only [effect, hcall]
    refine hpause.discard (e := .call dev) he hbusy id ?_
    have hlen := List.length_erase_of_mem hen.2
    have hpos := List.length_pos_of_mem hen.2
    simp only [notices, hlen, State.pauseLost]
    omega

theorem Inv.enterUsr1 (h : b.Inv) (he : b.KeepsNews (.spiffer .enterUsr1)) :
    (b.effect (.spiffer .enterUsr1)).Inv := by
  by_cases hnone : b.spiffer.handler = .none
  · refine h.congr rfl rfl rfl h.listening h.supported (by simp [hnone]) fun _ ↦ ?_
    exact .inr (.inr (.inl (notices_pos.mpr (.inr (.inl (if_pos hnone))))))
  · simp only [effect, State.effect, if_neg hnone]
    apply h.discard he (by simpa [discards] using hnone) id
    have hone := Bool.toNat_le b.spiffer.usr1Pending
    rw [notices]
    omega

theorem Inv.usr1Survey (h : b.Inv) (hen : b.Enabled (.spiffer .usr1Survey))
    (he : b.KeepsNews (.spiffer .usr1Survey)) : (b.effect (.spiffer .usr1Survey)).Inv := by
  have hentered : b.spiffer.handler = .entered := hen.2.2
  have hdiscard (hdisc : b.discards (.spiffer .usr1Survey) = true) (taken : Bool)
      (handler : Handler) : ({ b with
        spiffer := { b.spiffer with usr1Taken := taken, handler := handler } } : Bus).Inv := by
    apply h.discard he hdisc (by simp [hentered])
    have hone := Bool.toNat_le (b.spiffer.handler == .entered)
    rw [notices]
    omega
  cases htaken : b.spiffer.usr1Taken with
  | true =>
      simp only [effect, State.effect, htaken, if_true]
      exact hdiscard (by simp [discards, htaken]) _ _
  | false =>
      simp only [effect, State.effect, htaken, Bool.false_eq_true, if_false]
      by_cases hfree : b.spiffer.survey = none
      · exact h.callSurvey hfree .usr1 none b.calls
      · have hbusy : b.spiffer.survey.isSome = true := Option.isSome_iff_ne_none.mpr hfree
        simp only [State.callSurvey, hbusy, if_true, State.returnTo]
        exact hdiscard (by simp [discards, hbusy]) _ _

theorem Inv.leaveUsr1 (h : b.Inv) (hen : b.Enabled (.spiffer .leaveUsr1)) :
    (b.effect (.spiffer .leaveUsr1)).Inv := by
  have hreturned : b.spiffer.handler = .returned := hen.2.2
  refine h.congr rfl rfl rfl h.listening h.supported (by simp [hreturned]) fun hstop ↦ ?_
  have hnews := h.news hstop
  simp only [NewsKept, notices, hreturned] at hnews
  exact hnews

/-! ## Start-up and the rest -/

theorem Inv.frame (h : b.Inv) (main : Main) (stop : Option Stop) (threads : List Thread)
    (termSet misuse : Bool) (hlistening : main.listening = true)
    (hstop : stop = none → b.spiffer.stop = none ∧
      (b.reported = none → b.spiffer.main.starting = true →
        main.starting = true ∨ b.undiscovered = true)) :
    ({ b with
      spiffer :=
        { b.spiffer with
          main := main
          stop := stop
          threads := threads
          termSet := termSet
          misuse := misuse } } : Bus).Inv := by
  refine h.congr rfl rfl rfl ⟨hlistening, h.listening.2⟩ h.supported id fun hnone ↦ ?_
  obtain ⟨hstop, hstart⟩ := hstop hnone
  rcases h.news hstop with hcur | hund | hnot | ⟨hfirst, hmain⟩
  · exact .inl hcur
  · exact .inr (.inl hund)
  · exact .inr (.inr (.inl hnot))
  · rcases hstart hfirst hmain with hmain' | hund
    · exact .inr (.inr (.inr ⟨hfirst, hmain'⟩))
    · exact .inr (.inl hund)

theorem Inv.stopping (h : b.Inv) (stop : Stop) (threads : List Thread) (misuse : Bool) :
    ({ b with
      spiffer :=
        { b.spiffer with stop := some stop, threads := threads, misuse := misuse } } : Bus).Inv :=
  h.frame b.spiffer.main (some stop) threads b.spiffer.termSet misuse h.listening.1 (by rintro ⟨⟩)

theorem Inv.wakeUp (h : b.Inv) : (b.effect (.spiffer .wakeUp)).Inv := by
  refine h.frame _ _ _ _ _ ?_ fun hstop ↦ ⟨hstop, fun hfirst _ ↦ .inl ?_⟩
  · split <;> rfl
  · -- nothing has been discovered, so that the table is empty
    have hnil : b.spiffer.usbDevs = [] := by
      have hempty := h.table
      rw [hfirst] at hempty
      simpa [Bus.table, List.eq_nil_iff_forall_not_mem] using hempty
    simp [hnil, Main.starting]

theorem Inv.mainSurvey (h : b.Inv) : (b.effect (.spiffer .mainSurvey)).Inv := by
  by_cases hfree : b.spiffer.survey = none
  · exact h.callSurvey hfree .main (some usbDiscoverCnt) b.calls
  · obtain ⟨sv, hsv⟩ := Option.ne_none_iff_exists'.mp hfree
    have hcall : b.spiffer.effect .mainSurvey = { b.spiffer with main := .pausing } := by
      simp [State.effect, State.callSurvey, hsv, State.returnTo]
    simp only [effect, hcall]
    refine h.frame _ _ _ _ _ rfl fun hstop ↦ ⟨hstop, fun hfirst _ ↦ ?_⟩
    -- the survey that keeps `main` out is the first one
    exact .inr (by simp [undiscovered, hsv, h.first hfirst sv hsv])

theorem Inv.stopStep (h : b.Inv) (hen : b.Enabled (.spiffer .stopStep)) :
    (b.effect (.spiffer .stopStep)).Inv := by
  obtain ⟨st, hst, -⟩ := (Option.any_eq_true _ _).mp hen.2.2
  simp only [effect, State.effect, hst, Option.elim_some]
  unfold State.stopStep
  split
  · rename_i pipe
    split
    · obtain ⟨threads, misuse, heq⟩ := shutdownPipe_eq b.spiffer none pipe
      rw [heq]
      exact h.stopping _ _ _
    · exact h.stopping _ _ _
  · split <;> exact h.stopping _ _ _
  · exact h

theorem Inv.spiffer (h : b.Inv) {e : Event} (hen : b.Enabled (.spiffer e))
    (he : b.KeepsNews (.spiffer e)) : (b.effect (.spiffer e)).Inv := by
  cases e with
  | raiseUsr1 | discover | metaLost | caerLost => exact absurd hen.1 Bool.false_ne_true
  | openLog | openPipe0 | initUdp | initSpinn | setUsr1 =>
      have hmain := h.listening.1
      rw [hen.2.2] at hmain
      cases hmain
  | initPipes =>
      have hmain := h.listening.1
      rw [hen.2.2.1] at hmain
      cases hmain
  | setTerm ok =>
      cases ok with
      | true => exact h.frame .sleeping _ _ true _ rfl fun hstop ↦ ⟨hstop, fun _ _ ↦ .inl rfl⟩
      | false => exact h.frame .stopping (some (.inputs 0)) _ _ _ rfl (by rintro ⟨⟩)
  | wakeUp => exact h.wakeUp
  | mainSurvey => exact h.mainSurvey
  | enterUsr1 => exact h.enterUsr1 he
  | usr1Survey => exact h.usr1Survey hen he
  | leaveUsr1 => exact h.leaveUsr1 hen
  | sigTerm => exact h.stopping _ _ _
  | stopStep => exact h.stopStep hen
  | surveyStep =>
      obtain ⟨sv, hsv, -⟩ := (Option.any_eq_true _ _).mp hen.2.2
      have heff : b.spiffer.effect .surveyStep = b.spiffer.surveyStep sv := by
        simp [State.effect, hsv]
      simp only [effect, heff]
      exact h.surveyStep hsv
  | startCamera t ok =>
      simp only [effect, State.effect]
      split <;> exact h.frame _ _ _ _ _ h.listening.1 fun hstop ↦
        ⟨hstop, fun _ hmain ↦ .inl hmain⟩

theorem inv_step (b : Bus) (e : UsbEvent) (b' : Bus) (h : b.Inv) (he : b.KeepsNews e)
    (hstep : step b e = some b') : b'.Inv := by
  obtain ⟨hen, rfl⟩ := guarded_eq_some.mp hstep
  cases e with
  | connect c => exact h.connect hen
  | disconnect c => exact h.disconnect hen
  | call dev => exact h.call hen he
  | discover metas caers => exact h.discover hen
  | spiffer e => exact h.spiffer hen he

theorem Inv.table_of_quiet (h : b.Inv) (hquiet : b.Quiet) (c : Camera) :
    c ∈ b.table ↔ c ∈ b.connected := by
  obtain ⟨hmain, hstop, hsurvey, hpending, hhandler, hcalls⟩ := hquiet
  rcases h.news hstop with ⟨cs, hcs, hsame⟩ | hund | hnot | ⟨-, hstart⟩
  · rw [h.table c, Option.mem_def.mp hcs]
    exact ⟨hsame.1 c, hsame.2 c⟩
  · simp [undiscovered, hsurvey] at hund
  · rcases notices_pos.mp hnot with hpend | hent | hcall
    · simp [hpending] at hpend
    · exact absurd hent hhandler
    · exact absurd hcalls hcall
  · simp [hmain, Main.starting] at hstart

/-- While no notice with news is discarded, the device table is right whenever
spiffer is quiet. -/
theorem table_eq_connected (pipeNumIn pipeNumOut : ℕ) {cs : List Camera} (hcs : Supported cs)
    {es : List UsbEvent} (hes : Along step KeepsNews (start pipeNumIn pipeNumOut cs) es) {b : Bus}
    (hrun : exec step (start pipeNumIn pipeNumOut cs) es = some b) (hquiet : b.Quiet) :
    SameCameras b.table b.connected := by
  have hinv : b.Inv := inv_exec inv_step (inv_start _ _ hcs) hes hrun
  exact ⟨fun c ↦ (hinv.table_of_quiet hquiet c).mp, fun c ↦ (hinv.table_of_quiet hquiet c).mpr⟩

def dvs : Camera := ⟨.CAER, [49]⟩

/-- A camera is connected during the first survey, before it looks for cameras: the
signal is discarded, the camera found. -/
def earlyCamera : List UsbEvent :=
  [.spiffer (.setTerm true), .spiffer .wakeUp, .spiffer .mainSurvey, .connect dvs,
    .spiffer .enterUsr1, .spiffer .usr1Survey, .spiffer .leaveUsr1, .discover [] [[49]],
    .spiffer .surveyStep, .spiffer .surveyStep, .spiffer .surveyStep, .spiffer .surveyStep]

theorem table_eq_connected_earlyCamera :
    SameCameras ((exec step (start 2 2 []) earlyCamera).get (by decide +kernel)).table
      ((exec step (start 2 2 []) earlyCamera).get (by decide +kernel)).connected :=
  table_eq_connected 2 2 (by decide) (by decide +kernel) (Option.some_get _).symm
    (by decide +kernel)

/-- The same after it has looked for cameras. -/
def lateCamera : List UsbEvent :=
  [.spiffer (.setTerm true), .spiffer .wakeUp, .spiffer .mainSurvey, .discover [] [],
    .connect dvs, .spiffer .enterUsr1, .spiffer .usr1Survey, .spiffer .leaveUsr1,
    .spiffer .surveyStep, .spiffer .surveyStep, .spiffer .surveyStep, .spiffer .surveyStep]

theorem not_table_eq_connected_lateCamera :
    ¬ ∀ b, exec step (start 2 2 []) lateCamera = some b → b.Quiet →
      SameCameras b.table b.connected := by
  intro h
  have hlost : ¬ SameCameras
      ((exec step (start 2 2 []) lateCamera).get (by decide +kernel)).table
      ((exec step (start 2 2 []) lateCamera).get (by decide +kernel)).connected := by
    decide +kernel
  exact hlost (h _ (Option.some_get _).symm (by decide +kernel))

end Bus

end Spif.Spiffer
