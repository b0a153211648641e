import Spif.Lib.Components
import Spif.Spiffer.OutProtocol

/-!
# Output sessions

Each output pipe has two threads.  `out_udp_listener` keeps the address of the client whose
datagram came last, and executes the commands in it.  `spiNNaker_listener` gets frames from
spif and sends them to that address while the output is on.  The two share `out_start` and
`client_addr` without a lock, so that their steps come in any order.

Failing system calls are left out here.
-/

namespace Spif.OutSession

open Clocked RegBank SpifRemote OutCommands

variable {P w : ℕ} {Client Frame : Type*}

/-- Where `spiNNaker_listener` is: in `spif_get_output`, before the test of `out_start`,
or before `sendto`. -/
inductive Listener (Frame : Type*) where
  | transfer
  | test (sb : Frame)
  | send (sb : Frame)

/-- `dd` holds the commands that `out_udp_listener` has yet to execute. -/
structure State (P : ℕ) (Client Frame : Type*) where
  sys : System P
  clientAddr : Client
  dd : List Word
  listener : Listener Frame

/-- The steps of the threads.  `getOutput` is a call of `spif_get_output` that returns at
least one byte; other calls are repeated. -/
inductive Event (Client Frame : Type*) where
  | recvfrom (client : Client) (ws : List Word)
  | execute
  | getOutput (sb : Frame)
  | test
  | sendto

def Enabled (s : State P Client Frame) : Event Client Frame → Prop
  | .recvfrom _ _ => s.dd = []
  | .execute => s.dd ≠ []
  | .getOutput _ => s.listener = .transfer
  | .test => ∃ sb, s.listener = .test sb
  | .sendto => ∃ sb, s.listener = .send sb

section

variable (q : Params) (win : BitVec w) (x y : Side)

def next (s : State P Client Frame) : Event Client Frame → State P Client Frame
  | .recvfrom client ws => { s with clientAddr := client, dd := received ws }
  | .execute =>
      match s.dd with
      | [] => s
      | cmd :: dd => { s with sys := OutCommands.execute q win x y s.sys cmd, dd := dd }
  | .getOutput sb => { s with listener := .test sb }
  | .test =>
      match s.listener with
      | .test sb => { s with listener := if s.sys.outStart then .send sb else .transfer }
      | _ => s
  | .sendto => { s with listener := .transfer }

end

def start (sys : System P) (client : Client) : State P Client Frame where
  sys := { sys with outStart := false }
  clientAddr := client
  dd := []
  listener := .transfer

/-! ## What an observer sees -/

def sent (s : State P Client Frame) : Event Client Frame → List (Client × Frame)
  | .sendto =>
      match s.listener with
      | .send sb => [(s.clientAddr, sb)]
      | _ => []
  | _ => []

def obtained (_ : State P Client Frame) : Event Client Frame → List Frame
  | .getOutput sb => [sb]
  | _ => []

def executed (s : State P Client Frame) : Event Client Frame → List Word
  | .execute => s.dd.head?.toList
  | _ => []

def client : Event Client Frame → Option Client
  | .recvfrom c _ => some c
  | _ => none

/-- The frame that has passed the test of `out_start`. -/
def sending (s : State P Client Frame) : List Frame :=
  match s.listener with
  | .send sb => [sb]
  | _ => []

/-- The frame that the listener has, tested or not. -/
def underway (s : State P Client Frame) : List Frame :=
  match s.listener with
  | .transfer => []
  | .test sb | .send sb => [sb]

variable {q : Params} {win : BitVec w} {x y : Side}

/-! ## The switch -/

theorem outStart_next (s : State P Client Frame) (e : Event Client Frame) :
    (next q win x y s e).sys.outStart = (latest switched (executed s e)).getD s.sys.outStart := by
  cases e with
  | execute =>
      cases hdd : s.dd with
      | nil => simp [next, executed, hdd, latest]
      | cons cmd dd =>
          simp only [next, executed, hdd, outStart_execute, latest, List.head?_cons,
            Option.toList_some]
          cases hcmd : switched cmd <;> simp [hcmd]
  | test =>
      cases hl : s.listener <;> simp [next, executed, hl, latest]
  | _ => rfl

/-- Commands that do not switch the output the other way leave it as it is. -/
theorem outStart_kept {s : State P Client Frame} {e : Event Client Frame} {b : Bool}
    (hs : s.sys.outStart = b) (he : ∀ cmd ∈ executed s e, switched cmd ≠ some !b) :
    (next q win x y s e).sys.outStart = b := by
  rw [outStart_next, hs]
  cases hlatest : latest switched (executed s e) with
  | none => rfl
  | some b' =>
      obtain ⟨cmd, hcmd, hswitched⟩ := List.mem_filterMap.mp (List.mem_of_getLast? hlatest)
      have hne := he cmd hcmd
      rw [hswitched] at hne
      cases b <;> cases b' <;> simp_all

/-! ## Steps of the listener -/

/-- A frame is lost only by a test that finds the output off. -/
theorem lossless_step {s : State P Client Frame} {e : Event Client Frame} (he : Enabled s e)
    (htest : e = .test → s.sys.outStart = true) :
    (sent s e).map Prod.snd ++ underway (next q win x y s e) = underway s ++ obtained s e := by
  cases e with
  | execute => cases hdd : s.dd <;> simp [sent, underway, next, obtained, hdd]
  | recvfrom client ws => simp [sent, underway, next, obtained]
  | getOutput sb =>
      have hl : s.listener = .transfer := he
      simp [sent, underway, next, obtained, hl]
  | test =>
      obtain ⟨sb, hl⟩ := he
      simp [sent, underway, next, obtained, hl, htest rfl]
  | sendto =>
      obtain ⟨sb, hl⟩ := he
      simp [sent, underway, next, obtained, hl]

/-- Frames are sent in the order in which they come, and at most once. -/
theorem order_step {s : State P Client Frame} {e : Event Client Frame} (he : Enabled s e) :
    List.Sublist ((sent s e).map Prod.snd ++ underway (next q win x y s e))
      (underway s ++ obtained s e) := by
  cases e with
  | test =>
      cases hout : s.sys.outStart with
      | true => rw [lossless_step he fun _ ↦ hout]
      | false =>
          obtain ⟨sb, hl⟩ := he
          simp [sent, underway, next, obtained, hl, hout]
  | _ => rw [lossless_step he (by rintro ⟨⟩)]

/-- While it is off, only a frame that has passed the test before is sent. -/
theorem stopped_step {s : State P Client Frame} {e : Event Client Frame} (he : Enabled s e)
    (hout : s.sys.outStart = false) :
    (sent s e).map Prod.snd ++ sending (next q win x y s e) = sending s := by
  cases e with
  | execute => cases hdd : s.dd <;> simp [sent, sending, next, hdd]
  | recvfrom client ws => simp [sent, sending, next]
  | getOutput sb =>
      have hl : s.listener = .transfer := he
      simp [sent, sending, next, hl]
  | test =>
      obtain ⟨sb, hl⟩ := he
      simp [sent, sending, next, hl, hout]
  | sendto =>
      obtain ⟨sb, hl⟩ := he
      simp [sent, sending, next, hl]

/-! ## Before the first datagram -/

structure Quiet (s : State P Client Frame) : Prop where
  outStart : s.sys.outStart = false
  dd : s.dd = []
  sending : sending s = []

theorem quiet_next {s : State P Client Frame} {e : Event Client Frame} (hs : Quiet s)
    (he : Enabled s e ∧ client e = none) : Quiet (next q win x y s e) := by
  have hstopped : (sent s e).map Prod.snd ++ sending (next q win x y s e) = sending s :=
    stopped_step he.1 hs.outStart
  rw [hs.sending, List.append_eq_nil_iff] at hstopped
  have hout : (next q win x y s e).sys.outStart = false := by
    refine outStart_kept hs.outStart fun cmd hcmd ↦ ?_
    cases e with
    | execute => exact absurd hs.dd he.1
    | _ => cases hcmd
  refine ⟨hout, ?_, hstopped.2⟩
  cases e with
  | recvfrom c ws => cases he.2
  | execute => exact absurd hs.dd he.1
  | test =>
      obtain ⟨sb, hl⟩ := he.1
      simpa [next, hl] using hs.dd
  | _ => exact hs.dd

/-! ## Runs -/

/-- Frames are sent in order and at most once, each of them to the client that was heard
last; none is lost while the output is on, and once it is off, only a frame that has passed
the test before is sent. -/
structure Session (q : Params) (win : BitVec w) (x y : Side) (s : State P Client Frame)
    (es : List (Event Client Frame)) : Prop where
  order : List.Sublist ((emit (next q win x y) sent s es).map Prod.snd ++
    underway (run (next q win x y) s es)) (emit (next q win x y) obtained s es)
  addressed : ∀ pre post, es = pre ++ Event.sendto :: post →
    ∃ c ∈ latest client pre, ∃ sb, sent (run (next q win x y) s pre) .sendto = [(c, sb)]
  running : ∀ pre post, es = pre ++ post → (run (next q win x y) s pre).sys.outStart = true →
    (∀ cmd ∈ emit (next q win x y) executed (run (next q win x y) s pre) post,
      switched cmd ≠ some false) →
    (emit (next q win x y) sent (run (next q win x y) s pre) post).map Prod.snd ++
        underway (run (next q win x y) s es) =
      underway (run (next q win x y) s pre) ++
        emit (next q win x y) obtained (run (next q win x y) s pre) post
  stopped : ∀ pre post, es = pre ++ post → (run (next q win x y) s pre).sys.outStart = false →
    (∀ cmd ∈ emit (next q win x y) executed (run (next q win x y) s pre) post,
      switched cmd ≠ some true) →
    (emit (next q win x y) sent (run (next q win x y) s pre) post).map Prod.snd <+:
      sending (run (next q win x y) s pre)

/-- A frame that is sent has passed the test, so a datagram has come before. -/
theorem addressed {sys : System P} {c₀ : Client} {pre post : List (Event Client Frame)}
    (h : Along (next q win x y) Enabled (start sys c₀) (pre ++ Event.sendto :: post)) :
    ∃ c ∈ latest client pre, ∃ sb,
      sent (run (next q win x y) (start sys c₀) pre) .sendto = [(c, sb)] := by
  obtain ⟨hpre, ⟨sb, hl⟩, -⟩ := along_append.mp h
  have haddr : (run (next q win x y) (start sys c₀) pre).clientAddr =
      (latest client pre).getD c₀ := by
    refine run_latest State.clientAddr client (fun s e ↦ ?_) _ pre
    cases e with
    | execute => cases hdd : s.dd <;> simp [next, client, hdd]
    | test => cases hl : s.listener <;> simp [next, client, hl]
    | _ => rfl
  cases hlatest : latest client pre with
  | some c =>
      refine ⟨c, rfl, sb, ?_⟩
      rw [hlatest, Option.getD_some] at haddr
      simp [sent, hl, haddr]
  | none =>
      have hnone : ∀ e ∈ pre, client e = none :=
        List.filterMap_eq_nil_iff.mp (List.getLast?_eq_none_iff.mp hlatest)
      have hquiet : Quiet (run (next q win x y) (start sys c₀) pre) :=
        inv_run (fun _ _ ↦ quiet_next) ⟨rfl, rfl, rfl⟩
          (along_and hpre (along_of_forall_mem hnone _))
      have hsending := hquiet.sending
      simp [sending, hl] at hsending

theorem running {s : State P Client Frame} {es : List (Event Client Frame)}
    (h : Along (next q win x y) Enabled s es) (hs : s.sys.outStart = true)
    (hcmds : ∀ cmd ∈ emit (next q win x y) executed s es, switched cmd ≠ some false) :
    (emit (next q win x y) sent s es).map Prod.snd ++ underway (run (next q win x y) s es) =
      underway s ++ emit (next q win x y) obtained s es := by
  rw [emit_map]
  exact emit_fifo underway obtained (fun s e ↦ (sent s e).map Prod.snd)
    (I := fun s ↦ s.sys.outStart = true) (fun _ _ hs he ↦ outStart_kept hs he.2)
    (fun _ _ hs he ↦ lossless_step he.1 fun _ ↦ hs) hs
    (along_and h (forall_mem_emit_iff.mp hcmds))

theorem stopped {s : State P Client Frame} {es : List (Event Client Frame)}
    (h : Along (next q win x y) Enabled s es) (hs : s.sys.outStart = false)
    (hcmds : ∀ cmd ∈ emit (next q win x y) executed s es, switched cmd ≠ some true) :
    (emit (next q win x y) sent s es).map Prod.snd <+: sending s := by
  have hledger := emit_fifo sending (fun _ _ ↦ []) (fun s e ↦ (sent s e).map Prod.snd)
    (I := fun s ↦ s.sys.outStart = false) (fun _ _ hs he ↦ outStart_kept hs he.2)
    (fun _ _ hs he ↦ (stopped_step he.1 hs).trans (List.append_nil _).symm) hs
    (along_and h (forall_mem_emit_iff.mp hcmds))
  rw [emit_nothing, List.append_nil] at hledger
  rw [emit_map, ← hledger]
  exact List.prefix_append _ _

theorem session {sys : System P} {c₀ : Client} {es : List (Event Client Frame)}
    (h : Along (next q win x y) Enabled (start sys c₀) es) :
    Session q win x y (start sys c₀) es where
  order := by
    have hledger := emit_queue_sublist underway obtained (fun s e ↦ (sent s e).map Prod.snd)
      (fun _ _ he ↦ order_step he) h
    rwa [← emit_map] at hledger
  addressed := by
    rintro pre post rfl
    exact addressed h
  running := by
    rintro pre post rfl hs hcmds
    rw [run_append]
    exact running (along_append.mp h).2 hs hcmds
  stopped := by
    rintro pre post rfl hs hcmds
    exact stopped (along_append.mp h).2 hs hcmds

/-- A client switches the output on; a second one does not say anything sensible, and gets
the next frame. -/
def twoClients : List (Event ℕ ℕ) :=
  [.recvfrom 1 [spifOutStart], .getOutput 10, .execute, .test, .sendto, .recvfrom 2 [0],
    .getOutput 20, .test, .execute, .sendto]

theorem session_twoClients :
    Session ⟨0, 1, 1⟩ 0x10f080#22 idsi idsi (start (withSettings 2 ⟨false, 1000, 256⟩) 0)
      twoClients :=
  session ⟨rfl, rfl, List.cons_ne_nil _ _, ⟨10, rfl⟩, ⟨10, rfl⟩, rfl, rfl, ⟨20, rfl⟩,
    List.cons_ne_nil _ _, ⟨20, rfl⟩, trivial⟩

end Spif.OutSession
