import Spif.Host.Transfer

/-!
# The camera listeners

`spiffer_caer_usb_listener` and `spiffer_meta_usb_listener` write camera events
to the pipe buffer, in the format of spif, and request transfers.  The two
fill the buffer alike, but differ in when they empty it.
-/

namespace Spif.CameraListeners

open Transfer

def batchSize : ℕ := 256
def usbEvtsPerPkt : ℕ := 256

def evtNoTs : Word := 0x80000000
def evtXShift : ℕ := 16
def evtPShift : ℕ := 15
def evtYShift : ℕ := 0

def formatEvt (x y pol : Word) : Word :=
  evtNoTs ||| (x <<< evtXShift) ||| (pol <<< evtPShift) ||| (y <<< evtYShift)

/-- What a listener works on: its pipe buffer, with the indices written so far
on record, the number of events in the batch, and the pipe. -/
structure Listener where
  sb : Buffer
  written : List ℕ
  evtNum : ℕ
  pipe : Pipe

namespace Listener

variable (dur : ℕ → ℕ)

def store (s : Listener) (evt : Word) : Listener :=
  { s with
    sb := Function.update s.sb s.evtNum evt
    written := s.written ++ [s.evtNum]
    evtNum := s.evtNum + 1 }

/-- `spif_transfer (pipe, evt_num)`, followed by the wait loop. -/
def forward (s : Listener) : Listener :=
  { s with
    pipe := (s.pipe.spifTransfer dur s.sb (BitVec.ofNat 32 s.evtNum)).2.waitIdle }

def start (sb : Buffer) (p : Pipe) : Listener := ⟨sb, [], 0, p⟩

end Listener

/-! ## Inivation cameras -/

structure PolarityEvent where
  valid : Bool
  pol : Bool
  x : BitVec 16
  y : BitVec 16
deriving DecidableEq, Repr

def PolarityEvent.format (e : PolarityEvent) : Word :=
  formatEvt (e.x.setWidth 32) (e.y.setWidth 32) ((BitVec.ofBool e.pol).setWidth 32)

inductive Container where
  | null
  | noPolarity
  | polarity (evts : List PolarityEvent)
deriving DecidableEq, Repr

def Container.evts : Container → List PolarityEvent
  | polarity evts => evts
  | _ => []

def storePolarity : List PolarityEvent → Listener → Listener
  | [], s => s
  | e :: evts, s => if e.valid then storePolarity evts (s.store e.format) else storePolarity evts s

/-- The loop of `spiffer_caer_get_events`.  Returns the listener with the batch
and the containers left; without one the thread stays in the loop. -/
def getEvents : List Container → Listener → Option (Listener × List Container)
  | [], _ => none
  | .null :: cs, s => getEvents cs s
  | .noPolarity :: cs, s => getEvents cs s
  | .polarity evts :: cs, s =>
      let s' := storePolarity evts s
      if s'.evtNum ≠ 0 then some (s', cs) else getEvents cs s'

def spifferCaerGetEvents (cs : List Container) (s : Listener) :
    Option (Listener × List Container) := getEvents cs { s with evtNum := 0 }

/-- The loop of `spiffer_caer_usb_listener`.  Each round takes a container at
least, so that many rounds are enough. -/
def caerLoop (dur : ℕ → ℕ) : ℕ → List Container → Listener → Listener
  | 0, _, s => s
  | fuel + 1, cs, s =>
      match spifferCaerGetEvents cs s with
      | none => s
      | some (s', cs') => caerLoop dur fuel cs' (s'.forward dur)

def spifferCaerUsbListener (dur : ℕ → ℕ) (cs : List Container) (s : Listener) : Listener :=
  caerLoop dur cs.length cs s

/-! ## Prophesee cameras -/

structure EventCD where
  p : BitVec 16
  x : BitVec 16
  y : BitVec 16
deriving DecidableEq, Repr

/-- The polarity is a `short`, the coordinates are `unsigned short`. -/
def EventCD.format (e : EventCD) : Word :=
  formatEvt (e.x.setWidth 32) (e.y.setWidth 32) (e.p.signExtend 32)

/-- What `wait_next_buffer` returns; `data` comes with the event buffers which
the decoder passes to the callback. -/
inductive Wait where
  | error
  | empty
  | data (bufs : List (List EventCD))
deriving DecidableEq, Repr

def onEvent (dur : ℕ → ℕ) (s : Listener) (e : EventCD) : Listener :=
  let s' := s.store e.format
  if s'.evtNum = batchSize then { s'.forward dur with evtNum := 0 } else s'

def callback (dur : ℕ → ℕ) (s : Listener) (evts : List EventCD) : Listener :=
  evts.foldl (onEvent dur) s

def decodeRound (dur : ℕ → ℕ) (s : Listener) (bufs : List (List EventCD)) : Listener :=
  let s' := bufs.foldl (callback dur) s
  let sent := if s'.evtNum ≠ 0 then (s'.pipe.spifTransfer dur s'.sb (BitVec.ofNat 32 s'.evtNum)).2
    else s'.pipe
  { s' with pipe := sent.waitIdle, evtNum := 0 }

/-- The loop of `spiffer_meta_usb_listener`; after an error the thread pauses. -/
def spifferMetaUsbListener (dur : ℕ → ℕ) : List Wait → Listener → Listener
  | [], s => s
  | .error :: _, s => s
  | .empty :: ws, s => spifferMetaUsbListener dur ws s
  | .data bufs :: ws, s => spifferMetaUsbListener dur ws (decodeRound dur s bufs)

/-! ## What is sent and what is pending -/

namespace Listener

variable (dur : ℕ → ℕ) {s : Listener}

def batch (s : Listener) : List Word := (List.range s.evtNum).map s.sb

def pending (s : Listener) : List Word := words s.pipe.reqs ++ s.batch

/-- The batch fits the buffer, all writes so far did, and the pipe is ready. -/
structure Sound (s : Listener) : Prop where
  evtNum_le : s.evtNum ≤ batchSize
  written_lt : ∀ k ∈ s.written, k < batchSize
  ready : s.pipe.busy = false

theorem batch_store (s : Listener) (evt : Word) : (s.store evt).batch = s.batch ++ [evt] := by
  have hkeep : (List.range s.evtNum).map (Function.update s.sb s.evtNum evt) =
      (List.range s.evtNum).map s.sb := by
    apply List.map_congr_left
    intro k hk
    exact Function.update_of_ne (List.mem_range.mp hk).ne _ _
  simp [batch, store, List.range_succ, hkeep]

theorem pending_store (s : Listener) (evt : Word) :
    (s.store evt).pending = s.pending ++ [evt] := by
  rw [pending, batch_store, pending, List.append_assoc]
  rfl

theorem Sound.store (hs : s.Sound) (hlt : s.evtNum < batchSize) (evt : Word) :
    (s.store evt).Sound where
  evtNum_le := hlt
  written_lt := by
    intro k hk
    rcases List.mem_append.mp hk with hk | hk
    · exact hs.written_lt k hk
    · exact List.mem_singleton.mp hk ▸ hlt
  ready := hs.ready

theorem words_forward (hs : s.Sound) :
    words (s.forward dur).pipe.reqs = words s.pipe.reqs ++ s.batch := by
  obtain ⟨-, hreqs⟩ := Pipe.spifTransfer_of_not_busy hs.ready dur s.sb (BitVec.ofNat 32 s.evtNum)
  have hsmall : s.evtNum % 2 ^ 32 = s.evtNum := by
    apply Nat.mod_eq_of_lt
    have hle : s.evtNum ≤ 256 := hs.evtNum_le
    omega
  simp only [forward, Pipe.waitIdle_reqs, hreqs, words_append, words_singleton, Request.words,
    batch, BitVec.toNat_ofNat, hsmall]

theorem Sound.forward (hs : s.Sound) : (s.forward dur).Sound where
  evtNum_le := hs.evtNum_le
  written_lt := hs.written_lt
  ready := Pipe.waitIdle_busy _

theorem Sound.restart (hs : s.Sound) : ({ s with evtNum := 0 } : Listener).Sound where
  evtNum_le := Nat.zero_le _
  written_lt := hs.written_lt
  ready := hs.ready

theorem sound_start {sb : Buffer} {p : Pipe} (hp : p.busy = false) : (start sb p).Sound where
  evtNum_le := Nat.zero_le _
  written_lt := by simp [start]
  ready := hp

theorem pending_forward (hs : s.Sound) :
    ({ s.forward dur with evtNum := 0 } : Listener).pending = s.pending := by
  rw [pending, pending, ← words_forward dur hs]
  simp [batch]

theorem pending_of_empty (h : s.evtNum = 0) : s.pending = words s.pipe.reqs := by
  simp [pending, batch, h]

end Listener

open Listener

section Caer

def validEvts (evts : List PolarityEvent) : List Word :=
  (evts.filter PolarityEvent.valid).map PolarityEvent.format

def caerEvts (cs : List Container) : List Word := cs.flatMap fun c ↦ validEvts c.evts

theorem storePolarity_spec (evts : List PolarityEvent) :
    ∀ {s : Listener}, s.Sound → s.evtNum + evts.length ≤ batchSize →
      (storePolarity evts s).Sound ∧
        (storePolarity evts s).pending = s.pending ++ validEvts evts ∧
        (storePolarity evts s).evtNum = s.evtNum + (validEvts evts).length := by
  induction evts with
  | nil =>
      intro s hs _
      simp [storePolarity, validEvts, hs]
  | cons e evts ih =>
      intro s hs hroom
      rw [List.length_cons] at hroom
      cases hvalid : e.valid with
      | false =>
          have hrest := ih hs (by omega)
          simpa [storePolarity, validEvts, hvalid] using hrest
      | true =>
          have hlt : s.evtNum < batchSize := by omega
          have hnum : (s.store e.format).evtNum = s.evtNum + 1 := rfl
          obtain ⟨hsound, hpending, hcount⟩ := ih (hs.store hlt e.format) (by omega)
          rw [pending_store, List.append_assoc] at hpending
          rw [hnum] at hcount
          have hhead : validEvts (e :: evts) = e.format :: validEvts evts := by
            simp [validEvts, hvalid]
          simp only [storePolarity, hvalid, if_true, hhead]
          exact ⟨hsound, hpending, by rw [hcount, List.length_cons]; omega⟩

/-- What a call of `spiffer_caer_get_events` gives: a batch with all events of
the containers taken, or no event at all. -/
def Gets (cs : List Container) (s : Listener) : Option (Listener × List Container) → Prop
  | none => caerEvts cs = []
  | some (s', cs') => s'.Sound ∧ cs'.length < cs.length ∧ (∀ c ∈ cs', c ∈ cs) ∧
      s.pending ++ caerEvts cs = s'.pending ++ caerEvts cs'

theorem Gets.skip {c : Container} {cs : List Container} {s t : Listener}
    {r : Option (Listener × List Container)} (h : Gets cs t r) (hc : validEvts c.evts = [])
    (ht : t.pending = s.pending) : Gets (c :: cs) s r := by
  have hevts : caerEvts (c :: cs) = caerEvts cs := by simp [caerEvts, hc]
  cases r with
  | none => exact hevts.trans h
  | some r =>
      obtain ⟨hsound, hlen, hmem, heq⟩ := h
      refine ⟨hsound, Nat.lt_succ_of_lt hlen, fun d hd ↦ List.mem_cons_of_mem c (hmem d hd), ?_⟩
      rw [hevts, ← ht, heq]

theorem gets_getEvents (cs : List Container) (hcs : ∀ c ∈ cs, c.evts.length ≤ usbEvtsPerPkt) :
    ∀ {s : Listener}, s.Sound → s.evtNum = 0 → Gets cs s (getEvents cs s) := by
  induction cs with
  | nil =>
      intro s _ _
      rfl
  | cons c cs ih =>
      intro s hs hzero
      have hrest {t : Listener} := ih (fun d hd ↦ hcs d (List.mem_cons_of_mem _ hd)) (s := t)
      cases c with
      | null => exact (hrest hs hzero).skip rfl rfl
      | noPolarity => exact (hrest hs hzero).skip rfl rfl
      | polarity evts =>
          have hroom : s.evtNum + evts.length ≤ batchSize := by
            rw [hzero, Nat.zero_add]
            exact hcs (.polarity evts) List.mem_cons_self
          obtain ⟨hsound, hpending, hcount⟩ := storePolarity_spec evts hs hroom
          rw [hzero, Nat.zero_add] at hcount
          rw [getEvents]
          split
          · refine ⟨hsound, Nat.lt_succ_self _, fun d ↦ List.mem_cons_of_mem _, ?_⟩
            rw [hpending, List.append_assoc]
            rfl
          · rename_i hnone
            have hempty : (storePolarity evts s).evtNum = 0 := by simpa using hnone
            have hnil : validEvts evts = [] := List.length_eq_zero_iff.mp (hcount ▸ hempty)
            exact (hrest hsound hempty).skip hnil (by rw [hpending, hnil, List.append_nil])

/-- The requests of an Inivation listener carry the valid events, in order. -/
theorem caerLoop_spec (dur : ℕ → ℕ) (fuel : ℕ) :
    ∀ {cs : List Container} {s : Listener}, cs.length ≤ fuel →
      (∀ c ∈ cs, c.evts.length ≤ usbEvtsPerPkt) → s.Sound →
      (caerLoop dur fuel cs s).Sound ∧
        words (caerLoop dur fuel cs s).pipe.reqs = words s.pipe.reqs ++ caerEvts cs := by
  induction fuel with
  | zero =>
      intro cs s hlen _ hs
      rw [List.length_eq_zero_iff.mp (Nat.le_zero.mp hlen)]
      simp [caerLoop, caerEvts, hs]
  | succ fuel ih =>
      intro cs s hlen hcs hs
      have hgets := gets_getEvents cs hcs hs.restart rfl
      rw [caerLoop, spifferCaerGetEvents]
      cases hresult : getEvents cs { s with evtNum := 0 } with
      | none =>
          rw [hresult] at hgets
          have hnone : caerEvts cs = [] := hgets
          simp [hnone, hs]
      | some r =>
          obtain ⟨s', cs'⟩ := r
          rw [hresult] at hgets
          obtain ⟨hsound, hshort, hmem, heq⟩ := hgets
          obtain ⟨hfinal, hwords⟩ :=
            ih (by omega) (fun c hc ↦ hcs c (hmem c hc)) (hsound.forward dur)
          refine ⟨hfinal, ?_⟩
          rw [hwords, words_forward dur hsound]
          rw [pending_of_empty rfl] at heq
          exact heq.symm

end Caer

section Meta

variable (dur : ℕ → ℕ) {s : Listener}

def decoded : List Wait → List EventCD
  | [] => []
  | .error :: _ => []
  | .empty :: ws => decoded ws
  | .data bufs :: ws => bufs.flatten ++ decoded ws

def metaEvts (ws : List Wait) : List Word := (decoded ws).map EventCD.format

/-- The callback sends a batch as soon as it is full, so there is always room
for the next event. -/
theorem onEvent_spec (hs : s.Sound) (hroom : s.evtNum < batchSize) (e : EventCD) :
    (onEvent dur s e).Sound ∧ (onEvent dur s e).evtNum < batchSize ∧
      (onEvent dur s e).pending = s.pending ++ [e.format] := by
  have hstored := hs.store hroom e.format
  simp only [onEvent]
  split
  · refine ⟨(hstored.forward dur).restart, by simp [batchSize], ?_⟩
    rw [pending_forward dur hstored, pending_store]
  · rename_i hne
    exact ⟨hstored, lt_of_le_of_ne hstored.evtNum_le hne, pending_store s e.format⟩

theorem callback_spec (evts : List EventCD) :
    ∀ {s : Listener}, s.Sound → s.evtNum < batchSize →
      (callback dur s evts).Sound ∧ (callback dur s evts).evtNum < batchSize ∧
        (callback dur s evts).pending = s.pending ++ evts.map EventCD.format := by
  induction evts with
  | nil =>
      intro s hs hroom
      simp [callback, hs, hroom]
  | cons e evts ih =>
      intro s hs hroom
      obtain ⟨hone, hroom1, hpending1⟩ := onEvent_spec dur hs hroom e
      obtain ⟨hall, hroom2, hpending2⟩ := ih hone hroom1
      refine ⟨hall, hroom2, ?_⟩
      rw [hpending1, List.append_assoc] at hpending2
      exact hpending2

theorem callbacks_spec (bufs : List (List EventCD)) :
    ∀ {s : Listener}, s.Sound → s.evtNum < batchSize →
      (bufs.foldl (callback dur) s).Sound ∧ (bufs.foldl (callback dur) s).evtNum < batchSize ∧
        (bufs.foldl (callback dur) s).pending =
          s.pending ++ bufs.flatten.map EventCD.format := by
  induction bufs with
  | nil =>
      intro s hs hroom
      simp [hs, hroom]
  | cons evts bufs ih =>
      intro s hs hroom
      obtain ⟨hone, hroom1, hpending1⟩ := callback_spec dur evts hs hroom
      obtain ⟨hall, hroom2, hpending2⟩ := ih hone hroom1
      refine ⟨hall, hroom2, ?_⟩
      rw [hpending1, List.append_assoc, ← List.map_append] at hpending2
      exact hpending2

theorem decodeRound_spec (hs : s.Sound) (hzero : s.evtNum = 0) (bufs : List (List EventCD)) :
    (decodeRound dur s bufs).Sound ∧ (decodeRound dur s bufs).evtNum = 0 ∧
      words (decodeRound dur s bufs).pipe.reqs =
        words s.pipe.reqs ++ bufs.flatten.map EventCD.format := by
  obtain ⟨hsound, -, hpending⟩ :=
    callbacks_spec dur bufs hs (by rw [hzero]; decide)
  rw [pending_of_empty hzero] at hpending
  refine ⟨⟨Nat.zero_le _, hsound.written_lt, Pipe.waitIdle_busy _⟩, rfl, ?_⟩
  by_cases hempty : (bufs.foldl (callback dur) s).evtNum = 0
  · rw [pending_of_empty hempty] at hpending
    simpa [decodeRound, hempty] using hpending
  · have hsent := words_forward dur hsound
    rw [← hpending, pending, ← hsent]
    simp [decodeRound, hempty, Listener.forward]

/-- The requests of a Prophesee listener carry the events, in order. -/
theorem metaListener_spec (ws : List Wait) :
    ∀ {s : Listener}, s.Sound → s.evtNum = 0 →
      (spifferMetaUsbListener dur ws s).Sound ∧
        words (spifferMetaUsbListener dur ws s).pipe.reqs =
          words s.pipe.reqs ++ metaEvts ws := by
  induction ws with
  | nil =>
      intro s hs _
      simp [spifferMetaUsbListener, metaEvts, decoded, hs]
  | cons w ws ih =>
      intro s hs hzero
      cases w with
      | error => simp [spifferMetaUsbListener, metaEvts, decoded, hs]
      | empty => exact ih hs hzero
      | data bufs =>
          obtain ⟨hround, hzero1, hwords1⟩ := decodeRound_spec dur hs hzero bufs
          obtain ⟨hall, hwords2⟩ := ih hround hzero1
          refine ⟨hall, ?_⟩
          rw [hwords1, List.append_assoc, metaEvts, ← List.map_append] at hwords2
          exact hwords2

end Meta

/-! ## Forwarding -/

/-- The bytes handed to the DMA controller are those of the events, and the
listener stayed inside the pipe buffer. -/
def Forwards (s : Listener) (evts : List Word) : Prop :=
  bytes s.pipe.reqs = evts.flatMap wordBytes ∧ ∀ k ∈ s.written, k ≤ batchSize - 1

theorem forwards_iff_of_words {s : Listener} {evts : List Word} (hs : s.Sound)
    (hwords : words s.pipe.reqs = evts) : Forwards s evts ↔ evts = [] := by
  rw [Forwards, bytes_eq_wordBytes_iff hwords, and_iff_left]
  intro k hk
  exact Nat.le_sub_one_of_lt (hs.written_lt k hk)

/-- The listeners request as many bytes as there are events: the events are
forwarded only if there are none. -/
theorem forwards_iff (dur : ℕ → ℕ) (sb : Buffer) {p : Pipe} (hp : p.busy = false)
    (hreqs : p.reqs = []) :
    (∀ cs : List Container, (∀ c ∈ cs, c.evts.length ≤ usbEvtsPerPkt) →
      (Forwards (spifferCaerUsbListener dur cs (start sb p)) (caerEvts cs) ↔
        ∀ c ∈ cs, ∀ e ∈ c.evts, e.valid = false)) ∧
    ∀ ws : List Wait,
      (Forwards (spifferMetaUsbListener dur ws (start sb p)) (metaEvts ws) ↔
        decoded ws = []) := by
  have hstart : (start sb p).Sound := sound_start hp
  have hnone : words (start sb p).pipe.reqs = [] := by simp [start, hreqs]
  constructor
  · intro cs hcs
    obtain ⟨hsound, hwords⟩ := caerLoop_spec dur cs.length le_rfl hcs hstart
    rw [hnone, List.nil_append] at hwords
    rw [spifferCaerUsbListener, forwards_iff_of_words hsound hwords]
    simp [caerEvts, validEvts]
  · intro ws
    obtain ⟨hsound, hwords⟩ := metaListener_spec dur ws hstart rfl
    rw [hnone, List.nil_append] at hwords
    rw [forwards_iff_of_words hsound hwords]
    simp [metaEvts]

def opened : Pipe := ⟨true, 0, []⟩

theorem forwards_nothing :
    Forwards (spifferCaerUsbListener (fun _ ↦ 3) [.null, .polarity [⟨false, true, 5, 6⟩]]
        (start (fun _ ↦ 0) opened)) [] ∧
      Forwards (spifferMetaUsbListener (fun _ ↦ 3) [.empty, .data [[], []], .error]
        (start (fun _ ↦ 0) opened)) [] :=
  ⟨((forwards_iff (fun _ ↦ 3) (fun _ ↦ 0) rfl rfl).1 _ (by decide)).mpr (by decide),
    ((forwards_iff (fun _ ↦ 3) (fun _ ↦ 0) rfl rfl).2 _).mpr rfl⟩

theorem not_forwards_singleEvent :
    ¬ Forwards (spifferCaerUsbListener (fun _ ↦ 3) [.polarity [⟨true, true, 5, 6⟩]]
        (start (fun _ ↦ 0) opened)) (caerEvts [.polarity [⟨true, true, 5, 6⟩]]) ∧
      ¬ Forwards (spifferMetaUsbListener (fun _ ↦ 3) [.data [[⟨1, 5, 6⟩]]]
        (start (fun _ ↦ 0) opened)) (metaEvts [.data [[⟨1, 5, 6⟩]]]) :=
  ⟨fun h ↦ absurd h.1 (by decide +kernel), fun h ↦ absurd h.1 (by decide +kernel)⟩

end Spif.CameraListeners
