import Spif.Driver.OutputDma
import Spif.Host.FireOut
import Spif.Hw.OutputFrames

/-!
# Frames to datagrams

`evt_dispatcher` cuts the events for a client into frames, by their number or by the tick.
The frames cross the DMA controller, the driver and `spiNNaker_listener`.  This module shows
that the datagrams a client gets are these frames.
-/

namespace Spif.OutputDatagrams

open Clocked Frames RegBank EvtDispatcher OutCommands
open Spif.Top (Parts next reset outputSize dispatcher edIn)

variable {α ρ σ : Type*} {A P w : ℕ} {Client : Type*} {p : Parts α ρ σ} {s : Top.State α ρ σ}
  {before ins : List (Top.Input A)} {m M : ℕ}

/-- The dispatcher after a run of spif from its reset. -/
def watched (p : Parts α ρ σ) (s : Top.State α ρ σ) (before : List (Top.Input A)) : Observed :=
  run watch (.start s.ed) ((dispatcher A p).inputs (reset p s) before)

/-- The words that the DMA controller gets after `before`, with the marks of their frames. -/
def toDma (p : Parts α ρ σ) (s : Top.State α ρ σ) (before ins : List (Top.Input A)) : List Sent :=
  emit watch stream (watched p s before)
    ((dispatcher A p).inputs (run (next p) (reset p s) before) ins)

theorem toDma_append (p : Parts α ρ σ) (s : Top.State α ρ σ) (before ins : List (Top.Input A)) :
    toDma p s [] (before ++ ins) = toDma p s [] before ++ toDma p s before ins := by
  change emit watch stream (.start s.ed) ((dispatcher A p).inputs (reset p s) (before ++ ins)) = _
  rw [Component.inputs_append, emit_append]
  rfl

/-- An observer of the dispatcher does not disturb it. -/
def observed : Component watch EvtDispatcher.next where
  proj := Observed.state
  feed _ i := i
  proj_next _ _ := rfl

theorem inputs_observed (o : Observed) (is : List EvtDispatcher.Input) :
    observed.inputs o is = is := by
  induction is generalizing o with
  | nil => rfl
  | cons i is ih => exact congrArg (i :: ·) (ih _)

theorem state_watched (p : Parts α ρ σ) (s : Top.State α ρ σ) (before : List (Top.Input A)) :
    (watched p s before).state = (dispatcher A p).proj (run (next p) (reset p s) before) := by
  have hrun := observed.run_inputs (.start s.ed) ((dispatcher A p).inputs (reset p s) before)
  rw [inputs_observed] at hrun
  exact hrun.symm.trans ((dispatcher A p).run_inputs (reset p s) before)

theorem map_word_toDma (p : Parts α ρ σ) (s : Top.State α ρ σ) (before ins : List (Top.Input A)) :
    (toDma p s before ins).map Sent.word =
      emit (next p) (Top.toDma p) (run (next p) (reset p s) before) ins := by
  have hword : (fun (o : Observed) i ↦ (stream o i).map Sent.word) =
      fun o i ↦ EvtDispatcher.transferred o.state i := by
    funext o i
    rw [stream, EvtDispatcher.transferred]
    split <;> rfl
  have hwatch := observed.emit_inputs EvtDispatcher.transferred (watched p s before)
    ((dispatcher A p).inputs (run (next p) (reset p s) before) ins)
  rw [inputs_observed] at hwatch
  rw [toDma, emit_map, hword]
  refine hwatch.symm.trans ?_
  change emit _ _ (watched p s before).state _ = _
  rw [state_watched]
  exact (dispatcher A p).emit_inputs EvtDispatcher.transferred _ ins

/-! ## Frames -/

/-- Only a word that closes its frame has the highest number. -/
def Roomy (m M n : ℕ) (x : Sent) : Prop := InSize m M n x ∧ (x.last = false → n < M)

theorem roomy_of_inv {c : ℕ} {o : Observed} (ho : FrameInv m M c o)
    (hvld : o.state.evtVldOut = true) (w : Word) :
    Roomy m M (c + 1) ⟨w, o.state.evtLastOut, o.byTick⟩ := by
  refine ⟨inSize_of_inv ho hvld w, fun hlast ↦ ?_⟩
  have hopen : o.state.evtLastOut = false := hlast
  have hne : o.state.frmCnt ≠ 0 := by
    intro hzero
    rw [(ho.fresh hzero).1.2.2] at hvld
    cases hvld
  have hle := (ho.credit hne).2
  have hpos := toNat_pos hne
  rw [ahead, if_pos hvld, hopen, if_neg Bool.false_ne_true] at hle
  omega

theorem framed_roomy {c : ℕ} {o : Observed} (ho : FrameInv m M c o) (i : EvtDispatcher.Input) :
    Framed Sent.last (Roomy m M) c (stream o i) := by
  unfold stream
  split
  · rename_i hvld
    exact ⟨roomy_of_inv ho (Bool.and_eq_true_iff.mp hvld).1 _, trivial⟩
  · trivial

/-- After `before` no frame is open, and the size of the next one is between `m` and `M`. -/
structure Between (p : Parts α ρ σ) (s : Top.State α ρ σ) (before : List (Top.Input A))
    (m M : ℕ) : Prop where
  opened : leftOpen Sent.last [] (toDma p s [] before) = []
  credit : FrameInv m M 0 (watched p s before)

theorem between_nil (p : Parts α ρ σ) (s : Top.State α ρ σ) (m M : ℕ) :
    Between p s ([] : List (Top.Input A)) m M where
  opened := rfl
  credit := frameInv_start m M s.ed

/-- The frames that come after `before` are frames of the whole run. -/
theorem Between.closed_append (h : Between p s before m M) (ins : List (Top.Input A)) :
    closed Sent.last [] (toDma p s [] (before ++ ins)) =
      closed Sent.last [] (toDma p s [] before) ++ closed Sent.last [] (toDma p s before ins) := by
  rw [toDma_append, Frames.closed_append, h.opened]

/-- While the frame size stays between `m` and `M`, so do the frames, unless the tick closes
them. -/
theorem Between.framed (h : Between p s before m M) (hm : 1 ≤ m)
    (hsize : Along (next p) (fun s _ ↦ m ≤ (outputSize s).toNat ∧ (outputSize s).toNat ≤ M)
      (run (next p) (reset p s) before) ins) :
    Framed Sent.last (Roomy m M) 0 (toDma p s before ins) := by
  have hinputs : Along EvtDispatcher.next
      (fun _ i ↦ m ≤ i.outputSizeIn.toNat ∧ i.outputSizeIn.toNat ≤ M)
      ((dispatcher A p).proj (run (next p) (reset p s) before))
      ((dispatcher A p).inputs (run (next p) (reset p s) before) ins) :=
    ((dispatcher A p).along_inputs _ _ _).mpr hsize
  exact framed_emit (I := FrameInv m M)
    (fun _ _ i ho hi ↦ ⟨framed_roomy ho i, frameInv_watch ho hm hi⟩) h.credit
    (along_of_forall_mem (along_iff_forall_mem.mp hinputs) _)

/-! ## The way of the frames -/

/-- spif has run through `before` and goes on with `ins`; `calls` is a run of the DMA
controller and the driver from there on, and `es` one of spiffer. -/
structure Connected (p : Parts α ρ σ) (s : Top.State α ρ σ) (before ins : List (Top.Input A))
    (m M : ℕ) (calls : List (OutputDma.Event Sent)) (q : Params) (win : BitVec w)
    (x y : SpifRemote.Side) (sys : System P) (c₀ : Client)
    (es : List (OutSession.Event Client (List Sent))) : Prop where
  between : Between p s before m M
  size : Along (next p) (fun s _ ↦ m ≤ (outputSize s).toNat ∧ (outputSize s).toNat ≤ M)
    (run (next p) (reset p s) before) ins
  driver : Along (OutputDma.next Sent.last)
    (fun s e ↦ OutputDma.Enabled 256 s e ∧ OutputDma.Calm s e) OutputDma.start calls
  axi : emit (OutputDma.next Sent.last) OutputDma.beats OutputDma.start calls =
    toDma p s before ins
  session : Along (OutSession.next q win x y) OutSession.Enabled (OutSession.start sys c₀) es
  listener : emit (OutSession.next q win x y) OutSession.obtained (OutSession.start sys c₀) es =
    emit (OutputDma.next Sent.last) OutputDma.returned OutputDma.start calls

def datagrams (q : Params) (win : BitVec w) (x y : SpifRemote.Side) (sys : System P)
    (c₀ : Client) (es : List (OutSession.Event Client (List Sent))) : List (List Sent) :=
  (emit (OutSession.next q win x y) OutSession.sent (OutSession.start sys c₀) es).map Prod.snd

/-- The frames that are on their way to the client. -/
def underway (calls : List (OutputDma.Event Sent)) (q : Params) (win : BitVec w)
    (x y : SpifRemote.Side) (sys : System P) (c₀ : Client)
    (es : List (OutSession.Event Client (List Sent))) : List (List Sent) :=
  OutSession.underway (run (OutSession.next q win x y) (OutSession.start sys c₀) es) ++
    OutputDma.held (run (OutputDma.next Sent.last) OutputDma.start calls)

/-- Each datagram is a frame of the dispatcher, whole, in order and at most once; it has `m`
events at least, unless the tick closed it, and `M` at most.  None is lost while the output
is on, and a frame never fills the buffer before it ends.  The frames are made of the words
that spif gives to the DMA controller, and come after those of `before`. -/
structure DeliversFrames (p : Parts α ρ σ) (s : Top.State α ρ σ)
    (before ins : List (Top.Input A)) (m M : ℕ) (calls : List (OutputDma.Event Sent))
    (q : Params) (win : BitVec w) (x y : SpifRemote.Side) (sys : System P) (c₀ : Client)
    (es : List (OutSession.Event Client (List Sent))) : Prop where
  words : (toDma p s before ins).map Sent.word =
    emit (next p) (Top.toDma p) (run (next p) (reset p s) before) ins
  frames : closed Sent.last [] (toDma p s [] (before ++ ins)) =
    closed Sent.last [] (toDma p s [] before) ++ closed Sent.last [] (toDma p s before ins)
  order : List.Sublist (datagrams q win x y sys c₀ es ++ underway calls q win x y sys c₀ es)
    (closed Sent.last [] (toDma p s before ins))
  sizes : ∀ f ∈ datagrams q win x y sys c₀ es, f.length ≤ M ∧
    ∃ e ∈ f.getLast?, e.last = true ∧ (m ≤ f.length ∨ e.byTick = true)
  lossless : Along (OutSession.next q win x y)
      (fun s e ↦ e = .test → s.sys.outStart = true) (OutSession.start sys c₀) es →
    datagrams q win x y sys c₀ es ++ underway calls q win x y sys c₀ es =
      closed Sent.last [] (toDma p s before ins)
  room : (run (OutputDma.next Sent.last) OutputDma.start calls).running = true →
    (run (OutputDma.next Sent.last) OutputDma.start calls).buf.length < 256

variable {calls : List (OutputDma.Event Sent)} {q : Params} {win : BitVec w}
  {x y : SpifRemote.Side} {sys : System P} {c₀ : Client}
  {es : List (OutSession.Event Client (List Sent))}

theorem Connected.obtained_append_held
    (h : Connected p s before ins m M calls q win x y sys c₀ es) :
    emit (OutSession.next q win x y) OutSession.obtained (OutSession.start sys c₀) es ++
        OutputDma.held (run (OutputDma.next Sent.last) OutputDma.start calls) =
      closed Sent.last [] (toDma p s before ins) := by
  rw [h.listener, ← h.axi]
  exact (OutputDma.returned_append_held h.driver).1

theorem Connected.datagrams_sublist (h : Connected p s before ins m M calls q win x y sys c₀ es) :
    List.Sublist (datagrams q win x y sys c₀ es ++ underway calls q win x y sys c₀ es)
      (closed Sent.last [] (toDma p s before ins)) := by
  have hsent := emit_queue_sublist OutSession.underway OutSession.obtained
    (fun s e ↦ (OutSession.sent s e).map Prod.snd) (fun _ _ he ↦ OutSession.order_step he)
    h.session
  rw [← emit_map] at hsent
  rw [← h.obtained_append_held, underway, ← List.append_assoc]
  exact hsent.append_right _

theorem Connected.frame (h : Connected p s before ins m M calls q win x y sys c₀ es) (hm : 1 ≤ m)
    {f : List Sent} (hf : f ∈ closed Sent.last [] (toDma p s before ins)) :
    f.length ≤ M ∧ ∃ e ∈ f.getLast?, e.last = true ∧ (m ≤ f.length ∨ e.byTick = true) := by
  have hframed := h.between.framed hm h.size
  have hmem : f ∈ frames Sent.last (toDma p s before ins) := by
    rw [frames_eq]
    exact List.mem_append_left _ hf
  obtain ⟨e, he, hlast⟩ := exists_last_of_mem_closed hf
  have hsize := (hframed.getLast hmem e he).1
  exact ⟨hsize.1, e, he, hlast, hsize.2 hlast⟩

theorem delivers_frames (h : Connected p s before ins m M calls q win x y sys c₀ es) (hm : 1 ≤ m)
    (hmM : m ≤ M) (hM : M ≤ 256) : DeliversFrames p s before ins m M calls q win x y sys c₀ es where
  words := map_word_toDma p s before ins
  frames := h.between.closed_append ins
  order := h.datagrams_sublist
  sizes f hf := h.frame hm (h.datagrams_sublist.subset (List.mem_append_left _ hf))
  lossless hon := by
    have hsent := emit_queue OutSession.underway OutSession.obtained
      (fun s e ↦ (OutSession.sent s e).map Prod.snd)
      (fun _ _ he ↦ OutSession.lossless_step he.1 he.2) (along_and h.session hon)
    rw [← emit_map] at hsent
    have hempty : OutSession.underway
        (OutSession.start sys c₀ : OutSession.State P Client (List Sent)) = [] := rfl
    rw [hempty, List.nil_append] at hsent
    rw [← h.obtained_append_held, ← hsent, underway, List.append_assoc]
    rfl
  room hrun := by
    have hopened := (OutputDma.returned_append_held h.driver).2
    rw [OutputDma.opened, if_pos hrun, h.axi] at hopened
    have hlt : inFrame Sent.last 0 (toDma p s before ins) < M :=
      (h.between.framed hm h.size).inFrame_lt (fun _ _ hn ↦ hn.2) (hm.trans hmM)
    rw [hopened, length_leftOpen]
    exact hlt.trans_le hM

/-! ## Frames of fired events -/

/-- A client switches the output on, and gets every frame. -/
def forwarded (client : Client) (fs : List (List Sent)) :
    List (OutSession.Event Client (List Sent)) :=
  .recvfrom client [spifOutStart] :: .execute :: fs.flatMap fun f ↦ [.getOutput f, .test, .sendto]

theorem emit_obtained_forwards (fs : List (List Sent))
    (s : OutSession.State P Client (List Sent)) :
    emit (OutSession.next q win x y) OutSession.obtained s
      (fs.flatMap fun f ↦ [.getOutput f, .test, .sendto]) = fs := by
  induction fs generalizing s with
  | nil => rfl
  | cons f fs ih => exact congrArg (f :: ·) (ih _)

theorem along_forwards (fs : List (List Sent)) :
    ∀ {s : OutSession.State P Client (List Sent)}, s.listener = .transfer →
      s.sys.outStart = true →
      Along (OutSession.next q win x y)
        (fun s e ↦ OutSession.Enabled s e ∧ (e = .test → s.sys.outStart = true)) s
        (fs.flatMap fun f ↦ [.getOutput f, .test, .sendto]) := by
  induction fs with
  | nil => exact fun _ _ ↦ trivial
  | cons f fs ih =>
      intro s hl hout
      have htest : OutSession.next q win x y (OutSession.next q win x y s (.getOutput f)) .test =
          { s with listener := .send f } := by
        simp [OutSession.next, hout]
      refine ⟨⟨hl, by rintro ⟨⟩⟩, ⟨⟨f, rfl⟩, fun _ ↦ hout⟩, ?_⟩
      rw [htest]
      exact ⟨⟨⟨f, rfl⟩, by rintro ⟨⟩⟩, ih (s := { s with listener := .transfer }) rfl hout⟩

theorem along_forwarded (client : Client) (fs : List (List Sent)) :
    Along (OutSession.next q win x y)
      (fun s e ↦ OutSession.Enabled s e ∧ (e = .test → s.sys.outStart = true))
      (OutSession.start sys c₀) (forwarded client fs) :=
  ⟨⟨rfl, by rintro ⟨⟩⟩, ⟨List.cons_ne_nil _ _, by rintro ⟨⟩⟩, along_forwards fs rfl rfl⟩

/-- A driver and a listener that keep up pass on every frame of a run of spif. -/
theorem connected_forwarded (client : Client) (hbetween : Between p s before m M) (hm : 1 ≤ m)
    (hM : M ≤ 256)
    (hsize : Along (next p) (fun s _ ↦ m ≤ (outputSize s).toNat ∧ (outputSize s).toNat ≤ M)
      (run (next p) (reset p s) before) ins) :
    Connected p s before ins m M (OutputDma.calls Sent.last (toDma p s before ins)) q win x y sys c₀
      (forwarded client (closed Sent.last [] (toDma p s before ins))) := by
  obtain ⟨hdriver, haxi, hreturned⟩ := OutputDma.along_calls
    (fun n _ hn hlast ↦ (hn.2 hlast).trans_le hM) (by decide) (hbetween.framed hm hsize)
  refine ⟨hbetween, hsize, hdriver, haxi, ?_, ?_⟩
  · exact along_of_inv (I := fun _ ↦ True) (fun _ _ _ _ ↦ trivial) (fun _ _ _ he ↦ he.1) trivial
      (along_forwarded client _)
  · rw [hreturned]
    exact emit_obtained_forwards _ _

/-! ## A run with shorter frames -/

def arrive (keys : List Word) : List (Top.Input 32) :=
  keys.map fun key ↦ Top.cycle (fun _ ↦ none) (some (FireOut.firedPacket key))

/-- The frame size is set to 128 when the first frame, of 256 events, has already begun. -/
def firstFrame : List (Top.Input 32) :=
  FireOut.setLen false :: FireOut.setLen true :: arrive (FireOut.sendPkts 259 5)

theorem between_firstFrame : Between Top.registerParts Top.cold firstFrame 128 128 where
  opened := by decide +kernel
  credit := by
    obtain ⟨hcnt, hvld, hlast⟩ :
        (watched Top.registerParts Top.cold firstFrame).state.frmCnt = 127 ∧
          (watched Top.registerParts Top.cold firstFrame).state.evtVldOut = true ∧
          (watched Top.registerParts Top.cold firstFrame).state.evtLastOut = false := by
      decide +kernel
    refine ⟨fun hzero ↦ absurd (hcnt.symm.trans hzero) (by decide), fun _ ↦ ?_, fun _ h ↦ ?_⟩
    · rw [ahead, hvld, hlast, hcnt]
      decide
    · exact absurd (hlast.symm.trans h) Bool.false_ne_true

/-- The next frame has 128 events. -/
def nextFrame : List (Top.Input 32) := arrive (FireOut.sendPkts 130 264)

example : (closed Sent.last [] (toDma Top.registerParts Top.cold firstFrame nextFrame)).map
    List.length = [128] := by
  decide +kernel

/-- From reset on, the first frame may have 256 events. -/
example : Connected Top.registerParts Top.cold [] FireOut.fireRun 128 256
    (OutputDma.calls Sent.last (toDma Top.registerParts Top.cold [] FireOut.fireRun)) ⟨0, 1, 1⟩
    0x10f080#22 SpifRemote.idsi SpifRemote.idsi (withSettings 2 ⟨false, 1000, 256⟩) ()
    (forwarded () (closed Sent.last [] (toDma Top.registerParts Top.cold [] FireOut.fireRun))) :=
  connected_forwarded () (between_nil _ _ _ _) (by decide) le_rfl (by decide +kernel)

theorem delivers_frames_nextFrame :
    DeliversFrames Top.registerParts Top.cold firstFrame nextFrame 128 128
      (OutputDma.calls Sent.last (toDma Top.registerParts Top.cold firstFrame nextFrame))
      ⟨0, 1, 1⟩ 0x10f080#22 SpifRemote.idsi SpifRemote.idsi (withSettings 2 ⟨false, 1000, 128⟩) ()
      (forwarded ()
        (closed Sent.last [] (toDma Top.registerParts Top.cold firstFrame nextFrame))) :=
  delivers_frames (connected_forwarded () between_firstFrame (by decide) (by decide)
    (by decide +kernel)) (by decide) le_rfl (by decide)

end Spif.OutputDatagrams
