import Mathlib.Data.List.Sublists
import Spif.Spiffer.OutSession

/-!
# The output client

`spif_output_client` sets the frame length and the tick, switches the output on, and writes
the frames that it receives to a file, until there are enough events in it.  Then it
switches the output off.

Here the client, the two threads of spiffer and the network take their steps in any order.
The network may lose datagrams, but it neither reorders nor repeats them.  There is no other
client.  Failing system calls are left out.
-/

namespace Spif.OutputClient

open Clocked RegBank SpifRemote OutCommands

variable {P w : ℕ}

def evtBatchSize : ℕ := 256

def startCommands : List Word := [spifOutSetLen + 128, spifOutSetTick + 500, spifOutStart]

def stopCommands : List Word := [spifOutStop]

/-- Where `main` is: before the first `sendto`, in `recv`, before the second `sendto`, or at
its end. -/
inductive Phase where
  | start
  | recv
  | stop
  | exit
deriving DecidableEq

abbrev Spiffer (P : ℕ) := OutSession.State P Unit (List Word)

abbrev SpifferEvent := OutSession.Event Unit (List Word)

/-- `toSpiffer` and `toClient` are the datagrams on their way. -/
structure State (P : ℕ) where
  spiffer : Spiffer P
  phase : Phase
  events : Word
  toSpiffer : List (List Word)
  toClient : List (List Word)

inductive Event where
  | spiffer (e : SpifferEvent)
  | start
  | recv
  | stop
  | loseCommands (k : ℕ)
  | loseFrame (k : ℕ)

/-- spiffer gets at most `SPIFFER_BATCH_SIZE` events at a time. -/
def Enabled (s : State P) : Event → Prop
  | .spiffer e => OutSession.Enabled s.spiffer e ∧
      match e with
      | .recvfrom _ ws => s.toSpiffer.head? = some ws
      | .getOutput sb => sb.length ≤ spifferBatchSize
      | _ => True
  | .start => s.phase = .start
  | .recv => s.phase = .recv ∧ s.toClient ≠ []
  | .stop => s.phase = .stop
  | _ => True

section

variable (q : Params) (win : BitVec w) (x y : Side) (numEvents : Word)

/-- `while (events < num_events)` -/
def loop (events : Word) : Phase := if events < numEvents then .recv else .stop

def next (s : State P) : Event → State P
  | .spiffer e =>
      { s with
        spiffer := OutSession.next q win x y s.spiffer e
        toSpiffer := if (OutSession.client e).isSome then s.toSpiffer.tail else s.toSpiffer
        toClient := s.toClient ++ (OutSession.sent s.spiffer e).map Prod.snd }
  | .start =>
      { s with phase := loop numEvents s.events, toSpiffer := s.toSpiffer ++ [startCommands] }
  | .recv =>
      match s.toClient with
      | [] => s
      | frame :: toClient =>
          let events := s.events + (BitVec.ofNat 32 (frame.take evtBatchSize).length)
          { s with events, toClient, phase := loop numEvents events }
  | .stop => { s with phase := .exit, toSpiffer := s.toSpiffer ++ [stopCommands] }
  | .loseCommands k => { s with toSpiffer := s.toSpiffer.eraseIdx k }
  | .loseFrame k => { s with toClient := s.toClient.eraseIdx k }

end

def start (sys : System P) : State P where
  spiffer := OutSession.start sys ()
  phase := .start
  events := 0
  toSpiffer := []
  toClient := []

def view : Event → Option SpifferEvent
  | .spiffer e => some e
  | _ => none

def spiffer (P : ℕ) (q : Params) (win : BitVec w) (x y : Side) (numEvents : Word) :
    Party (next q win x y numEvents : State P → Event → State P)
      (OutSession.next q win x y : Spiffer P → SpifferEvent → Spiffer P) where
  proj := State.spiffer
  view := view
  proj_next s e := by
    cases e with
    | recv => cases hframes : s.toClient <;> simp [next, view, hframes]
    | _ => rfl

/-! ## What an observer sees -/

def seen {ω : Type*} (f : Spiffer P → SpifferEvent → List ω) (s : State P) (e : Event) : List ω :=
  (view e).elim [] (f s.spiffer)

def received (s : State P) : Event → List (List Word)
  | .recv => s.toClient.head?.toList
  | _ => []

/-- What `write_raw_evt_batch` writes: the part of a datagram that fits the buffer. -/
def written (s : State P) (e : Event) : List Word :=
  (received s e).flatMap (List.take evtBatchSize)

/-- Frames that are on their way, the oldest first. -/
def underway (s : State P) : List (List Word) := s.toClient ++ OutSession.underway s.spiffer

def heard (_ : State P) : Event → List (List Word)
  | .spiffer (.recvfrom _ ws) => [ws]
  | _ => []

def unsent : Phase → List (List Word)
  | .start => [startCommands, stopCommands]
  | .recv | .stop => [stopCommands]
  | .exit => []

@[simp] theorem unsent_loop (numEvents events : Word) :
    unsent (loop numEvents events) = [stopCommands] := by
  unfold loop
  split <;> rfl

variable {q : Params} {win : BitVec w} {x y : Side} {numEvents : Word}

theorem emit_seen {ω : Type*} (f : Spiffer P → SpifferEvent → List ω) (s : State P)
    (es : List Event) :
    emit (OutSession.next q win x y) f s.spiffer (es.filterMap view) =
      emit (next q win x y numEvents) (seen f) s es :=
  (spiffer P q win x y numEvents).emit_view f s es

/-! ## Frames -/

theorem received_append_underway {s : State P} {e : Event} (he : Enabled s e)
    (htest : e = .spiffer .test → s.spiffer.sys.outStart = true)
    (hlose : ∀ k, e ≠ .loseFrame k) :
    received s e ++ underway (next q win x y numEvents s e) =
      underway s ++ seen OutSession.obtained s e := by
  cases e with
  | spiffer e =>
      have hstep : (OutSession.sent s.spiffer e).map Prod.snd ++
            OutSession.underway (OutSession.next q win x y s.spiffer e) =
          OutSession.underway s.spiffer ++ OutSession.obtained s.spiffer e :=
        OutSession.lossless_step he.1 fun h ↦ htest (congrArg Event.spiffer h)
      simp only [received, underway, next, seen, view, Option.elim_some, List.nil_append,
        List.append_assoc]
      rw [hstep]
  | recv => cases hframes : s.toClient <;> simp [received, underway, next, seen, view, hframes]
  | loseFrame k => exact absurd rfl (hlose k)
  | _ => simp [received, underway, next, seen, view]

theorem order_step {s : State P} {e : Event} (he : Enabled s e) :
    List.Sublist (received s e ++ underway (next q win x y numEvents s e))
      (underway s ++ seen OutSession.obtained s e) := by
  cases e with
  | spiffer e =>
      have hstep : List.Sublist ((OutSession.sent s.spiffer e).map Prod.snd ++
            OutSession.underway (OutSession.next q win x y s.spiffer e))
          (OutSession.underway s.spiffer ++ OutSession.obtained s.spiffer e) :=
        OutSession.order_step he.1
      simp only [received, underway, next, seen, view, Option.elim_some, List.nil_append,
        List.append_assoc]
      exact hstep.append_left _
  | loseFrame k =>
      simp only [received, underway, next, seen, view, Option.elim_none, List.nil_append,
        List.append_nil]
      exact (List.eraseIdx_sublist _ _).append_right _
  | _ => rw [received_append_underway he (by rintro ⟨⟩) (by rintro k ⟨⟩)]

/-! ## Commands -/

theorem heard_step {s : State P} {e : Event} (he : Enabled s e) :
    List.Sublist (heard s e ++ ((next q win x y numEvents s e).toSpiffer ++
        unsent (next q win x y numEvents s e).phase))
      ((s.toSpiffer ++ unsent s.phase) ++ []) := by
  rw [List.append_nil]
  cases e with
  | spiffer e =>
      cases e with
      | recvfrom c ws =>
          obtain ⟨rest, hrest⟩ := List.head?_eq_some_iff.mp he.2
          simp [heard, next, unsent, OutSession.client, hrest]
      | _ => exact List.Sublist.refl _
  | start =>
      have hphase : s.phase = .start := he
      have hunsent : unsent .start = [startCommands, stopCommands] := rfl
      simp [heard, next, hphase, hunsent]
  | recv =>
      obtain ⟨hphase, hne⟩ := he
      obtain ⟨frame, rest, hframes⟩ := List.exists_cons_of_ne_nil hne
      have hunsent : unsent .recv = [stopCommands] := rfl
      simp [heard, next, hphase, hframes, hunsent]
  | stop =>
      have hphase : s.phase = .stop := he
      simp [heard, next, unsent, hphase]
  | loseCommands k => exact (List.eraseIdx_sublist _ _).append_right _
  | loseFrame k => exact List.Sublist.refl _

theorem executed_step {s : State P} {e : Event} (he : Enabled s e) :
    seen OutSession.executed s e ++ (next q win x y numEvents s e).spiffer.dd =
      s.spiffer.dd ++ (heard s e).flatMap OutCommands.received := by
  cases e with
  | spiffer e =>
      cases e with
      | recvfrom c ws =>
          have hdd : s.spiffer.dd = [] := he.1
          simp [seen, view, OutSession.executed, next, OutSession.next, heard, hdd]
      | execute =>
          cases hdd : s.spiffer.dd <;>
            simp [seen, view, OutSession.executed, next, OutSession.next, heard, hdd]
      | test =>
          cases hl : s.spiffer.listener <;>
            simp [seen, view, OutSession.executed, next, OutSession.next, heard, hl]
      | _ => simp [seen, view, OutSession.executed, next, OutSession.next, heard]
  | recv => cases hframes : s.toClient <;> simp [seen, view, next, heard, hframes]
  | _ => simp [seen, view, next, heard]

/-- The commands executed are the first words of the datagrams heard, and of the two
datagrams the second may be heard alone. -/
theorem executed_mem {sys : System P} {es : List Event}
    (h : Along (next q win x y numEvents) Enabled (start sys) es) :
    emit (next q win x y numEvents) (seen OutSession.executed) (start sys) es ∈
      (startCommands ++ stopCommands).inits ++ stopCommands.inits := by
  have hheard : List.Sublist (emit (next q win x y numEvents) heard (start sys) es)
      [startCommands, stopCommands] := by
    have hledger := emit_queue_sublist
      (fun s : State P ↦ s.toSpiffer ++ unsent s.phase) (fun _ _ ↦ []) heard
      (fun _ _ he ↦ heard_step he) h
    rw [emit_nothing, List.append_nil] at hledger
    exact (List.sublist_append_left _ _).trans hledger
  have hexecuted := emit_queue (fun s : State P ↦ s.spiffer.dd)
    (fun s e ↦ (heard s e).flatMap OutCommands.received) (seen OutSession.executed)
    (fun _ _ he ↦ executed_step he) h
  rw [show (start sys).spiffer.dd = [] from rfl, List.nil_append, ← emit_flatMap] at hexecuted
  have hcases : ∀ ds ∈ [startCommands, stopCommands].sublists,
      ∀ ws ∈ (ds.flatMap OutCommands.received).inits,
        ws ∈ (startCommands ++ stopCommands).inits ++ stopCommands.inits := by decide
  exact hcases _ (List.mem_sublists.2 hheard) _ ((List.mem_inits _ _).mpr ⟨_, hexecuted⟩)

theorem sys_eq_run (s : State P) (es : List Event) :
    (run (next q win x y numEvents) s es).spiffer.sys =
      run (execute q win x y) s.spiffer.sys
        (emit (next q win x y numEvents) (seen OutSession.executed) s es) := by
  refine foldl_emit (fun s : State P ↦ s.spiffer.sys) (execute q win x y)
    (seen OutSession.executed) (C := fun _ _ ↦ True) (fun s e _ ↦ ?_)
    (along_of_forall_mem (fun i (_ : i ∈ es) ↦ trivial) s)
  cases e with
  | spiffer e =>
      cases e with
      | execute =>
          cases hdd : s.spiffer.dd <;>
            simp [seen, view, OutSession.executed, next, OutSession.next, hdd]
      | test =>
          cases hl : s.spiffer.listener <;>
            simp [seen, view, OutSession.executed, next, OutSession.next, hl]
      | _ => rfl
  | recv => cases hframes : s.toClient <;> simp [seen, view, next, hframes]
  | _ => rfl

variable (q win x y numEvents) in
theorem settings_eq (sys : System P) (es : List Event) :
    settings (run (next q win x y numEvents) (start sys) es).spiffer.sys =
      ⟨(latest switched
          (emit (next q win x y numEvents) (seen OutSession.executed) (start sys) es)).getD false,
        (latest (setting spifOutSetTick)
          (emit (next q win x y numEvents) (seen OutSession.executed) (start sys) es)).getD
            (settings sys).outTick,
        (latest (setting spifOutSetLen)
          (emit (next q win x y numEvents) (seen OutSession.executed) (start sys) es)).getD
            (settings sys).outLen⟩ := by
  rw [sys_eq_run, settings_run]
  rfl

/-- The output is never on without the settings of the client. -/
theorem settings_of_outStart {sys : System P} {es : List Event}
    (h : Along (next q win x y numEvents) Enabled (start sys) es)
    (hout : (run (next q win x y numEvents) (start sys) es).spiffer.sys.outStart = true) :
    settings (run (next q win x y numEvents) (start sys) es).spiffer.sys = ⟨true, 500, 128⟩ := by
  have hcases : ∀ ws ∈ (startCommands ++ stopCommands).inits ++ stopCommands.inits,
      (latest switched ws).getD false = true →
        latest switched ws = some true ∧ latest (setting spifOutSetTick) ws = some 500 ∧
          latest (setting spifOutSetLen) ws = some 128 := by decide
  have hsettings := settings_eq q win x y numEvents sys es
  have hon := congrArg Settings.outStart hsettings
  obtain ⟨hswitched, htick, hlen⟩ := hcases _ (executed_mem h) (hon.symm.trans hout)
  rw [hsettings, hswitched, htick, hlen]
  rfl

theorem executed_subset {sys : System P} {es : List Event}
    (h : Along (next q win x y numEvents) Enabled (start sys) es) :
    emit (next q win x y numEvents) (seen OutSession.executed) (start sys) es ⊆
      startCommands ++ stopCommands := by
  rcases List.mem_append.mp (executed_mem h) with hall | hstop
  · exact ((List.mem_inits _ _).mp hall).subset
  · exact List.subset_append_of_subset_right startCommands ((List.mem_inits _ _).mp hstop).subset

theorem eq_stop_of_switched {cmd : Word} (hcmd : cmd ∈ startCommands ++ stopCommands)
    (hoff : switched cmd = some false) : cmd = spifOutStop := by
  have hfilter : (startCommands ++ stopCommands).filter (fun cmd ↦ switched cmd == some false) =
      [spifOutStop] := by decide
  rw [← List.mem_singleton, ← hfilter, List.mem_filter, hoff]
  exact ⟨hcmd, rfl⟩

/-- `STOP` is the last command, and switches the output off. -/
theorem stop_executed {sys : System P} {pre post : List Event}
    (h : Along (next q win x y numEvents) Enabled (start sys) (pre ++ post))
    (hstop : spifOutStop ∈
      emit (next q win x y numEvents) (seen OutSession.executed) (start sys) pre) :
    (run (next q win x y numEvents) (start sys) pre).spiffer.sys.outStart = false ∧
      emit (next q win x y numEvents) (seen OutSession.executed)
        (run (next q win x y numEvents) (start sys) pre) post = [] := by
  have hcases : ∀ ws ∈ (startCommands ++ stopCommands).inits ++ stopCommands.inits,
      ∀ vs ∈ ws.inits, spifOutStop ∈ vs → vs = ws ∧ (latest switched vs).getD false = false := by
    decide
  have hall := executed_mem h
  rw [emit_append] at hall
  obtain ⟨hlast, hoff⟩ := hcases _ hall _
    ((List.mem_inits _ _).mpr (List.prefix_append _ _)) hstop
  refine ⟨?_, List.append_cancel_left ((List.append_nil _).trans hlast).symm⟩
  exact (congrArg Settings.outStart (settings_eq q win x y numEvents sys pre)).trans hoff

/-! ## Events -/

theorem received_sublist_obtained {sys : System P} {es : List Event}
    (h : Along (next q win x y numEvents) Enabled (start sys) es) :
    List.Sublist (emit (next q win x y numEvents) received (start sys) es ++
        underway (run (next q win x y numEvents) (start sys) es))
      (emit (next q win x y numEvents) (seen OutSession.obtained) (start sys) es) :=
  emit_queue_sublist underway (seen OutSession.obtained) received (fun _ _ he ↦ order_step he) h

theorem written_eq_flatten {sys : System P} {es : List Event}
    (h : Along (next q win x y numEvents) Enabled (start sys) es) :
    emit (next q win x y numEvents) written (start sys) es =
      (emit (next q win x y numEvents) received (start sys) es).flatten := by
  have hobtained : ∀ sb ∈ emit (next q win x y numEvents) (seen OutSession.obtained) (start sys) es,
      sb.length ≤ evtBatchSize := by
    refine forall_mem_emit_iff.mpr (along_of_inv (I := fun _ ↦ True) (fun _ _ _ _ ↦ trivial)
      (fun s e _ he sb hsb ↦ ?_) trivial h)
    rcases e with (⟨c, ws⟩ | _ | sb' | _ | _) | _ | _ | _ | _ | _
    case spiffer.getOutput =>
      rw [List.mem_singleton.mp hsb]
      exact he.2
    all_goals cases hsb
  have hreceived : ∀ sb ∈ emit (next q win x y numEvents) received (start sys) es,
      sb.take evtBatchSize = sb := fun sb hsb ↦
    List.take_of_length_le (hobtained sb ((received_sublist_obtained h).subset
      (List.mem_append_left _ hsb)))
  have hwritten : emit (next q win x y numEvents) written (start sys) es =
      (emit (next q win x y numEvents) received (start sys) es).flatMap
        (List.take evtBatchSize) := (emit_flatMap _ _ _ _).symm
  rw [hwritten, List.flatMap_def, List.map_congr_left hreceived, List.map_id']

structure Counted (numEvents : Word) (s : State P) : Prop where
  start : s.phase = .start → s.events = 0
  recv : s.phase = .recv → s.events.toNat < numEvents.toNat
  stop : s.phase = .stop ∨ s.phase = .exit →
    numEvents.toNat ≤ s.events.toNat ∧ s.events.toNat < numEvents.toNat + evtBatchSize

theorem counted_loop {s : State P} (hphase : s.phase = loop numEvents s.events)
    (hlt : s.events.toNat < numEvents.toNat + evtBatchSize) : Counted numEvents s := by
  unfold loop at hphase
  by_cases hmore : s.events < numEvents
  · rw [if_pos hmore] at hphase
    exact ⟨by simp [hphase], fun _ ↦ hmore, by simp [hphase]⟩
  · rw [if_neg hmore] at hphase
    exact ⟨by simp [hphase], by simp [hphase], fun _ ↦ ⟨Nat.le_of_not_lt hmore, hlt⟩⟩

theorem counted_next {s : State P} {e : Event} (hn : numEvents.toNat + evtBatchSize ≤ 2 ^ 32)
    (hs : Counted numEvents s) (he : Enabled s e) :
    Counted numEvents (next q win x y numEvents s e) ∧
      (next q win x y numEvents s e).events.toNat =
        s.events.toNat + ((written s e).length : ℕ) := by
  cases e with
  | start =>
      have hphase : s.phase = .start := he
      have hzero := hs.start hphase
      refine ⟨counted_loop rfl ?_, rfl⟩
      change s.events.toNat < _
      rw [hzero]
      exact Nat.add_pos_right _ (by decide)
  | recv =>
      obtain ⟨hphase, hne⟩ := he
      obtain ⟨frame, rest, hframes⟩ := List.exists_cons_of_ne_nil hne
      have hlt := hs.recv hphase
      have hlen : (frame.take evtBatchSize).length ≤ evtBatchSize := List.length_take_le _ _
      have hevents : (next q win x y numEvents s .recv).events.toNat =
          s.events.toNat + (frame.take evtBatchSize).length := by
        simp only [next, hframes, BitVec.toNat_add, BitVec.toNat_ofNat]
        rw [Nat.mod_eq_of_lt (a := (frame.take evtBatchSize).length) (by omega),
          Nat.mod_eq_of_lt (by omega)]
      refine ⟨counted_loop ?_ (by omega), ?_⟩
      · simp only [next, hframes]
      · simp [hevents, written, received, hframes]
  | stop =>
      have hphase : s.phase = .stop := he
      exact ⟨⟨by rintro ⟨⟩, by rintro ⟨⟩, fun _ ↦ hs.stop (.inl hphase)⟩, rfl⟩
  | _ => exact ⟨⟨hs.start, hs.recv, hs.stop⟩, rfl⟩

theorem counted_run {sys : System P} {es : List Event}
    (hn : numEvents.toNat + evtBatchSize ≤ 2 ^ 32)
    (h : Along (next q win x y numEvents) Enabled (start sys) es) :
    Counted numEvents (run (next q win x y numEvents) (start sys) es) ∧
      (run (next q win x y numEvents) (start sys) es).events.toNat =
        (emit (next q win x y numEvents) written (start sys) es).length := by
  have hstart : Counted numEvents (start sys) :=
    ⟨fun _ ↦ rfl, by rintro ⟨⟩, by rintro (⟨⟨⟩⟩ | ⟨⟨⟩⟩)⟩
  refine ⟨inv_run (I := Counted numEvents) (C := Enabled)
    (fun _ _ hs he ↦ (counted_next hn hs he).1) hstart h, ?_⟩
  have haccount := account_run (fun s : State P ↦ s.events.toNat)
    (along_of_inv (fun _ _ hs he ↦ (counted_next hn hs he).1)
      (fun _ _ hs he ↦ (counted_next hn hs he).2) hstart h)
  rw [tally_length] at haccount
  simpa [start] using haccount

/-! ## Sessions -/

theorem lossless {s : State P} {es : List Event}
    (h : Along (next q win x y numEvents) Enabled s es)
    (hs : s.spiffer.sys.outStart = true)
    (hcmds : ∀ cmd ∈ emit (next q win x y numEvents) (seen OutSession.executed) s es,
      switched cmd ≠ some false)
    (hlose : ∀ k, Event.loseFrame k ∉ es) :
    emit (next q win x y numEvents) received s es ++
        underway (run (next q win x y numEvents) s es) =
      underway s ++ emit (next q win x y numEvents) (seen OutSession.obtained) s es := by
  refine emit_fifo underway (seen OutSession.obtained) received
    (I := fun s : State P ↦ s.spiffer.sys.outStart = true) (fun s e hs he ↦ ?_)
    (fun s e hs he ↦ received_append_underway he.1.1 (fun _ ↦ hs) he.2) hs
    (along_and (along_and h (forall_mem_emit_iff.mp hcmds))
      (along_of_forall_mem (P := fun e ↦ ∀ k, e ≠ .loseFrame k)
        (by rintro e he k rfl; exact hlose k he) s))
  cases e with
  | spiffer e => exact OutSession.outStart_kept hs he.1.2
  | recv => cases hframes : s.toClient <;> simpa [next, hframes] using hs
  | _ => exact hs

theorem stopped {s : State P} {es : List Event}
    (h : Along (next q win x y numEvents) Enabled s es)
    (hs : s.spiffer.sys.outStart = false)
    (hcmds : emit (next q win x y numEvents) (seen OutSession.executed) s es = []) :
    (emit (next q win x y numEvents) (seen OutSession.sent) s es).length ≤ 1 := by
  have hsession : Along (OutSession.next q win x y) OutSession.Enabled s.spiffer
      (es.filterMap view) := by
    refine (spiffer P q win x y numEvents).along_view (along_of_inv (I := fun _ ↦ True)
      (fun _ _ _ _ ↦ trivial) (fun s e _ he e' he' ↦ ?_) trivial h)
    cases e with
    | spiffer e =>
        obtain rfl := Option.some.inj he'
        exact he.1
    | _ => cases he'
  have hfew := OutSession.stopped hsession hs (by
    rw [emit_seen, hcmds]
    exact fun cmd hcmd ↦ absurd hcmd List.not_mem_nil)
  have hone : (OutSession.sending s.spiffer).length ≤ 1 := by
    unfold OutSession.sending
    split <;> simp
  rw [← emit_seen, ← List.length_map (f := Prod.snd)]
  exact hfew.length_le.trans hone

/-- The file consists of whole frames, in order and at most once, and of no fewer events
than asked for once the client has had enough of them; the output is on with the settings
of the client only; without losses every frame gets to the file while it is on, and after
`STOP` at most one more frame is sent. -/
structure Served (q : Params) (win : BitVec w) (x y : Side) (numEvents : Word) (s : State P)
    (es : List Event) : Prop where
  whole : emit (next q win x y numEvents) written s es =
    (emit (next q win x y numEvents) received s es).flatten
  order : List.Sublist (emit (next q win x y numEvents) received s es ++
      underway (run (next q win x y numEvents) s es))
    (emit (next q win x y numEvents) (seen OutSession.obtained) s es)
  more : (run (next q win x y numEvents) s es).phase = .recv →
    (emit (next q win x y numEvents) written s es).length < numEvents.toNat
  enough : (run (next q win x y numEvents) s es).phase = .stop ∨
      (run (next q win x y numEvents) s es).phase = .exit →
    numEvents.toNat ≤ (emit (next q win x y numEvents) written s es).length ∧
      (emit (next q win x y numEvents) written s es).length < numEvents.toNat + evtBatchSize
  settings : (run (next q win x y numEvents) s es).spiffer.sys.outStart = true →
    settings (run (next q win x y numEvents) s es).spiffer.sys = ⟨true, 500, 128⟩
  lossless : ∀ pre post, es = pre ++ post →
    (run (next q win x y numEvents) s pre).spiffer.sys.outStart = true →
    spifOutStop ∉ emit (next q win x y numEvents) (seen OutSession.executed)
      (run (next q win x y numEvents) s pre) post →
    (∀ k, Event.loseFrame k ∉ post) →
    emit (next q win x y numEvents) received (run (next q win x y numEvents) s pre) post ++
        underway (run (next q win x y numEvents) s es) =
      underway (run (next q win x y numEvents) s pre) ++
        emit (next q win x y numEvents) (seen OutSession.obtained)
          (run (next q win x y numEvents) s pre) post
  stopped : ∀ pre post, es = pre ++ post →
    spifOutStop ∈ emit (next q win x y numEvents) (seen OutSession.executed) s pre →
    ((emit (next q win x y numEvents) (seen OutSession.sent)
      (run (next q win x y numEvents) s pre) post)).length ≤ 1

theorem served {sys : System P} {es : List Event}
    (hn : numEvents.toNat + evtBatchSize ≤ 2 ^ 32)
    (h : Along (next q win x y numEvents) Enabled (start sys) es) :
    Served q win x y numEvents (start sys) es where
  whole := written_eq_flatten h
  order := received_sublist_obtained h
  more hphase := by
    obtain ⟨hcounted, hevents⟩ := counted_run hn h
    rw [← hevents]
    exact hcounted.recv hphase
  enough hphase := by
    obtain ⟨hcounted, hevents⟩ := counted_run hn h
    rw [← hevents]
    exact hcounted.stop hphase
  settings := settings_of_outStart h
  lossless := by
    rintro pre post rfl hs hcmds hlose
    rw [run_append]
    refine lossless (along_append.mp h).2 hs (fun cmd hcmd hoff ↦ hcmds ?_) hlose
    have hall := executed_subset h
    rw [emit_append] at hall
    rwa [← eq_stop_of_switched (hall (List.mem_append_right _ hcmd)) hoff]
  stopped := by
    rintro pre post rfl hstop
    obtain ⟨hoff, hnone⟩ := stop_executed h hstop
    exact stopped (along_append.mp h).2 hoff hnone

/-- Two events are asked for.  A frame comes too early, another one too late. -/
def twoEvents : List Event :=
  [.start, .spiffer (.getOutput [9]), .spiffer (.recvfrom () startCommands), .spiffer .test,
    .spiffer .execute, .spiffer .execute, .spiffer .execute, .spiffer (.getOutput [10, 11]),
    .spiffer .test, .spiffer .sendto, .recv, .stop, .spiffer (.getOutput [12]), .spiffer .test,
    .spiffer (.recvfrom () stopCommands), .spiffer .execute, .spiffer .sendto, .loseFrame 0]

theorem served_twoEvents :
    Served ⟨0, 1, 1⟩ 0x10f080#22 idsi idsi 2 (start (withSettings 2 ⟨false, 1000, 256⟩))
      twoEvents :=
  served (by decide)
    ⟨rfl, ⟨rfl, by decide⟩, ⟨rfl, rfl⟩, ⟨⟨[9], rfl⟩, trivial⟩, ⟨List.cons_ne_nil _ _, trivial⟩,
      ⟨List.cons_ne_nil _ _, trivial⟩, ⟨List.cons_ne_nil _ _, trivial⟩, ⟨rfl, by decide⟩,
      ⟨⟨[10, 11], rfl⟩, trivial⟩, ⟨⟨[10, 11], rfl⟩, trivial⟩, ⟨rfl, List.cons_ne_nil _ _⟩, rfl,
      ⟨rfl, by decide⟩, ⟨⟨[12], rfl⟩, trivial⟩, ⟨rfl, rfl⟩, ⟨List.cons_ne_nil _ _, trivial⟩,
      ⟨⟨[12], rfl⟩, trivial⟩, trivial, trivial⟩

end Spif.OutputClient
