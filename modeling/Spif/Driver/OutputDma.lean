import Spif.Driver.GetOutp
import Spif.Lib.Components
import Spif.Lib.Frames

/-!
# Frames in the output buffer

`SPIF_GET_OUTP` together with the AXI DMA controller, which is not part of this repository.
A write to its length register starts the controller.  It stores the words of the AXI stream
from the base of the buffer on, and the word that closes a frame ends the transfer: the
controller raises its interrupt, and its length register reads the number of bytes stored.
-/

namespace Spif.OutputDma

open Clocked Frames

variable {α : Type*}

/-- `buf` are the words stored by the last transfer, `irq` is the line of the controller. -/
structure State (α : Type*) where
  pipe : GetOutp.Pipe
  running : Bool
  irq : Bool
  buf : List α

inductive Event (α : Type*) where
  | driver (e : GetOutp.Event)
  | beat (x : α)

/-- `size` is the length that `spiNNaker_listener` asks for, in words. -/
def Enabled (size : ℕ) (s : State α) : Event α → Prop
  | .driver (.complete _) => False
  | .driver e => GetOutp.Enabled s.pipe e
  | .beat _ => s.running = true ∧ s.buf.length < size

/-- The device stays open, no other device raises the line, and no call waits for so long
that it times out.  `spiNNaker_listener` has its signals blocked. -/
def Calm (s : State α) : Event α → Prop
  | .driver .irqHandler => s.irq = true
  | .driver .openFile | .driver (.release _) | .driver .timeout | .driver .signal => False
  | _ => True

def start : State α where
  pipe := ⟨true, true, false, .idle, 0, []⟩
  running := false
  irq := false
  buf := []

variable (last : α → Bool)

def next (s : State α) : Event α → State α
  | .driver .writeLen =>
      { s with pipe := GetOutp.effect s.pipe .writeLen, running := true, buf := [] }
  | .driver .irqHandler => { s with pipe := GetOutp.effect s.pipe .irqHandler, irq := false }
  | .driver e => { s with pipe := GetOutp.effect s.pipe e }
  | .beat x =>
      if last x then
        { pipe := GetOutp.effect s.pipe (.complete (s.pipe.written - 1))
          running := false
          irq := true
          buf := s.buf ++ [x] }
      else { s with buf := s.buf ++ [x] }

/-! ## What an observer sees -/

def beats (_ : State α) : Event α → List α
  | .beat x => [x]
  | _ => []

/-- What the buffer holds when a call returns. -/
def returned (s : State α) : Event α → List (List α)
  | .driver .returnLen => [s.buf]
  | _ => []

def opened (s : State α) : List α := if s.running then s.buf else []

/-- The frame that is complete and has not been returned yet. -/
def held (s : State α) : List (List α) :=
  if s.running then [] else (s.pipe.phase.transfer.map fun _ ↦ s.buf).toList

/-! ## Calls and transfers -/

/-- A call waits for a running transfer, for the interrupt handler, or for its turn. -/
structure Inv (s : State α) : Prop where
  waiting : s.pipe.phase.isWaiting = true →
    s.running.toNat + s.irq.toNat + s.pipe.outpReady.toNat = 1
  answered : s.pipe.phase.isWaiting = false → s.running = false ∧ s.irq = false
  cleared : s.pipe.phase.isWaiting = false → s.pipe.phase.isWoken = false →
    s.pipe.outpReady = false

variable {last} {size : ℕ}

theorem exists_of_isWaiting {p : GetOutp.Phase} (h : p.isWaiting = true) :
    ∃ id, p = .waiting id := by
  cases p <;> simp_all [GetOutp.Phase.isWaiting]

theorem exists_of_isWoken {p : GetOutp.Phase} (h : p.isWoken = true) : ∃ id, p = .woken id := by
  cases p <;> simp_all [GetOutp.Phase.isWoken]

theorem exists_of_isCleared {p : GetOutp.Phase} (h : p.isCleared = true) :
    ∃ id, p = .cleared id := by
  cases p <;> simp_all [GetOutp.Phase.isCleared]

theorem inv_start : Inv (start : State α) where
  waiting := by rintro ⟨⟩
  answered _ := ⟨rfl, rfl⟩
  cleared _ _ := rfl

/-- A transfer runs only while its call waits. -/
theorem Inv.of_running {s : State α} (hs : Inv s) (hrun : s.running = true) :
    s.pipe.phase.isWaiting = true ∧ s.irq = false ∧ s.pipe.outpReady = false := by
  have hwait : s.pipe.phase.isWaiting = true := by
    by_contra hnot
    rw [(hs.answered (Bool.eq_false_iff.mpr hnot)).1] at hrun
    cases hrun
  have hsum := hs.waiting hwait
  rw [hrun] at hsum
  cases hirq : s.irq <;> cases hready : s.pipe.outpReady <;> simp_all

theorem inv_next {s : State α} {e : Event α} (hs : Inv s) (he : Enabled size s e ∧ Calm s e) :
    Inv (next last s e) := by
  cases e with
  | beat x =>
      obtain ⟨hwait, hirq, hready⟩ := hs.of_running he.1.1
      have hnot : s.pipe.phase.isWaiting ≠ false := by simp [hwait]
      rw [next]
      split
      · refine ⟨fun _ ↦ ?_, fun h ↦ absurd h hnot, fun h ↦ absurd h hnot⟩
        simp [GetOutp.effect, hready]
      · exact ⟨hs.waiting, hs.answered, hs.cleared⟩
  | driver e =>
      obtain ⟨hen, hcalm⟩ := he
      cases e with
      | openFile | release | timeout | signal => exact hcalm.elim
      | complete => exact hen.elim
      | getOutp =>
          have hidle : s.pipe.phase = .idle := hen.2
          have hnot := hs.answered (by simp [hidle, GetOutp.Phase.isWaiting])
          have hready := hs.cleared (by simp [hidle, GetOutp.Phase.isWaiting])
            (by simp [hidle, GetOutp.Phase.isWoken])
          exact ⟨by rintro ⟨⟩, fun _ ↦ hnot, fun _ _ ↦ hready⟩
      | writeLen =>
          have hentered : s.pipe.phase = .entered := hen
          have hnot := hs.answered (by simp [hentered, GetOutp.Phase.isWaiting])
          have hready := hs.cleared (by simp [hentered, GetOutp.Phase.isWaiting])
            (by simp [hentered, GetOutp.Phase.isWoken])
          refine ⟨fun _ ↦ ?_, by rintro ⟨⟩, by rintro ⟨⟩⟩
          simp [next, GetOutp.effect, hnot, hready]
      | irqHandler =>
          have hirq : s.irq = true := hcalm
          have hwait : s.pipe.phase.isWaiting = true := by
            by_contra hnot
            rw [(hs.answered (Bool.eq_false_iff.mpr hnot)).2] at hirq
            cases hirq
          have hnot : s.pipe.phase.isWaiting ≠ false := by simp [hwait]
          refine ⟨fun _ ↦ ?_, fun h ↦ absurd h hnot, fun h ↦ absurd h hnot⟩
          have hsum := hs.waiting hwait
          rw [hirq] at hsum
          have hrun : s.running = false := by
            cases hrun : s.running with
            | false => rfl
            | true =>
                simp only [hrun, Bool.toNat_true] at hsum
                omega
          simp [next, GetOutp.effect, hrun]
      | ready =>
          obtain ⟨hwait, hready⟩ := hen
          have hwoken := GetOutp.isWoken_wake hwait
          refine ⟨fun h ↦ ?_, fun _ ↦ ?_, fun _ h ↦ ?_⟩
          · exact absurd h (by simp [next, GetOutp.effect, GetOutp.isWaiting_of_isWoken hwoken])
          · have hsum := hs.waiting hwait
            rw [hready] at hsum
            cases hrun : s.running <;> cases hirq : s.irq <;> simp_all [next]
          · exact absurd hwoken (by simpa [next, GetOutp.effect] using h)
      | clearReady =>
          have hnot := hs.answered (GetOutp.isWaiting_of_isWoken hen)
          refine ⟨fun h ↦ ?_, fun _ ↦ hnot, fun _ _ ↦ rfl⟩
          obtain ⟨id, hid⟩ := exists_of_isWoken hen
          exact absurd h (by
            simp [next, GetOutp.effect, hid, GetOutp.Phase.clear, GetOutp.Phase.isWaiting])
      | returnLen =>
          have hcleared : s.pipe.phase.isCleared = true := hen
          have hwait := GetOutp.isWaiting_of_isCleared hcleared
          obtain ⟨id, hid⟩ := exists_of_isCleared hcleared
          have hwoken : s.pipe.phase.isWoken = false := by rw [hid]; rfl
          exact ⟨by rintro ⟨⟩, fun _ ↦ hs.answered hwait, fun _ _ ↦ hs.cleared hwait hwoken⟩

/-! ## Frames -/

theorem opened_next {s : State α} {e : Event α} (hs : Inv s) (he : Enabled size s e ∧ Calm s e) :
    opened (next last s e) = leftOpen last (opened s) (beats s e) := by
  cases e with
  | beat x =>
      have hrun : s.running = true := he.1.1
      by_cases hx : last x = true <;> simp [opened, next, beats, leftOpen, hrun, hx]
  | driver e =>
      cases e with
      | writeLen =>
          have hentered : s.pipe.phase = .entered := he.1
          have hnot := hs.answered (by simp [hentered, GetOutp.Phase.isWaiting])
          simp [opened, next, beats, leftOpen, hnot.1]
      | _ => rfl

/-- A call returns the frame that its transfer has stored. -/
theorem frame_step {s : State α} {e : Event α} (hs : Inv s) (he : Enabled size s e ∧ Calm s e) :
    returned s e ++ held (next last s e) = held s ++ closed last (opened s) (beats s e) := by
  cases e with
  | beat x =>
      have hrun : s.running = true := he.1.1
      obtain ⟨hwait, -, -⟩ := hs.of_running hrun
      obtain ⟨id, hid⟩ := exists_of_isWaiting hwait
      by_cases hx : last x = true <;>
        simp [returned, held, next, opened, beats, closed, hrun, hx, hid, GetOutp.effect,
          GetOutp.Phase.transfer]
  | driver e =>
      obtain ⟨hen, hcalm⟩ := he
      cases e with
      | openFile | release | timeout | signal => exact hcalm.elim
      | complete => exact hen.elim
      | getOutp =>
          have hidle : s.pipe.phase = .idle := hen.2
          have hnot := hs.answered (by simp [hidle, GetOutp.Phase.isWaiting])
          simp [returned, held, next, beats, closed, hidle, hnot.1, GetOutp.effect,
            GetOutp.Phase.transfer]
      | writeLen =>
          have hentered : s.pipe.phase = .entered := hen
          simp [returned, held, next, beats, closed, hentered, GetOutp.Phase.transfer]
      | irqHandler => exact (List.append_nil _).symm
      | ready => simp [returned, held, next, beats, closed, GetOutp.effect]
      | clearReady => simp [returned, held, next, beats, closed, GetOutp.effect]
      | returnLen =>
          have hcleared : s.pipe.phase.isCleared = true := hen
          have hnot := hs.answered (GetOutp.isWaiting_of_isCleared hcleared)
          obtain ⟨id, hid⟩ := exists_of_isCleared hcleared
          simp [returned, held, next, beats, closed, hnot.1, hid, GetOutp.effect,
            GetOutp.Phase.transfer]

/-- Each call returns one frame, whole; together they return the frames of the stream in
order.  A frame is held back only while its call is on its way back. -/
theorem returned_append_held {es : List (Event α)}
    (h : Along (next last) (fun s e ↦ Enabled size s e ∧ Calm s e) start es) :
    emit (next last) returned start es ++ held (run (next last) start es) =
        closed last [] (emit (next last) beats start es) ∧
      opened (run (next last) start es) = leftOpen last [] (emit (next last) beats start es) := by
  obtain ⟨hclosed, hopened⟩ := emit_closed opened (fun _ _ ↦ inv_next)
    (fun _ _ ↦ opened_next) inv_start h
  refine ⟨?_, hopened⟩
  have hledger := emit_fifo held (fun s e ↦ closed last (opened s) (beats s e)) returned
    (fun _ _ ↦ inv_next) (fun _ _ ↦ frame_step) inv_start h
  rw [hclosed] at hledger
  exact hledger

/-! ## A driver that keeps up -/

/-- The call for the frame that has just ended returns, and the next one is made. -/
def nextCall : List (Event α) :=
  [.driver .irqHandler, .driver .ready, .driver .clearReady, .driver .returnLen, .driver .getOutp,
    .driver .writeLen]

variable (last) in
def keepUp (xs : List α) : List (Event α) :=
  xs.flatMap fun x ↦ .beat x :: if last x then nextCall else []

structure Begun (s : State α) : Prop where
  running : s.running = true
  irq : s.irq = false
  outpReady : s.pipe.outpReady = false
  fileOpen : s.pipe.fileOpen = true
  waiting : s.pipe.phase.isWaiting = true

variable (size) in
theorem along_nextCall {s : State α} (hs : Begun s) {x : α} (hx : last x = true) :
    Along (next last) (fun s e ↦ Enabled size s e ∧ Calm s e) (next last s (.beat x)) nextCall ∧
      Begun (run (next last) (next last s (.beat x)) nextCall) ∧
      (run (next last) (next last s (.beat x)) nextCall).buf = [] := by
  obtain ⟨⟨devOpen, fileOpen, outpReady, phase, written, done⟩, running, irq, buf⟩ := s
  obtain ⟨rfl, rfl, rfl, rfl, hwait⟩ := hs
  obtain ⟨id, rfl⟩ := exists_of_isWaiting hwait
  have hbeat : next last ⟨⟨devOpen, true, false, .waiting id, written, done⟩, true, false, buf⟩
      (.beat x) = ⟨⟨devOpen, true, false, .waiting id, written, (written - 1) :: done⟩, false,
        true, buf ++ [x]⟩ := by
    simp [next, hx, GetOutp.effect]
  rw [hbeat]
  refine ⟨⟨⟨trivial, rfl⟩, ⟨⟨rfl, rfl⟩, trivial⟩, ⟨rfl, trivial⟩, ⟨rfl, trivial⟩,
    ⟨⟨rfl, rfl⟩, trivial⟩, ⟨rfl, trivial⟩, trivial⟩, ⟨rfl, rfl, rfl, rfl, rfl⟩, rfl⟩

theorem along_keepUp {F : ℕ → α → Prop} (hF : ∀ n x, F n x → last x = false → n < size)
    {xs : List α} : ∀ {s : State α}, Begun s → s.buf.length < size →
      Framed last F s.buf.length xs →
      Along (next last) (fun s e ↦ Enabled size s e ∧ Calm s e) s (keepUp last xs) ∧
        (run (next last) s (keepUp last xs)).running = true := by
  induction xs with
  | nil =>
      intro s hs _ _
      exact ⟨trivial, hs.running⟩
  | cons x xs ih =>
      intro s hs hlen hxs
      obtain ⟨hx, hrest⟩ := hxs
      have hbeat : Enabled size s (.beat x) ∧ Calm s (.beat x) := ⟨⟨hs.running, hlen⟩, trivial⟩
      rw [keepUp, List.flatMap_cons, List.cons_append, along_cons, run_cons]
      cases hlast : last x with
      | false =>
          rw [hlast, if_neg Bool.false_ne_true] at hrest
          have hnext : next last s (.beat x) = { s with buf := s.buf ++ [x] } := by
            simp [next, hlast]
          rw [if_neg Bool.false_ne_true, List.nil_append, hnext]
          have hlen' : (s.buf ++ [x]).length = s.buf.length + 1 := by simp
          obtain ⟨halong, hrun⟩ := ih (s := { s with buf := s.buf ++ [x] })
            ⟨hs.running, hs.irq, hs.outpReady, hs.fileOpen, hs.waiting⟩
            (hlen'.trans_lt (hF _ x hx hlast)) (hlen' ▸ hrest)
          exact ⟨⟨hbeat, halong⟩, hrun⟩
      | true =>
          rw [hlast, if_pos rfl] at hrest
          obtain ⟨hcall, hbegun, hbuf⟩ := along_nextCall size hs hlast
          obtain ⟨halong, hrun⟩ := ih hbegun (hbuf ▸ Nat.zero_lt_of_lt hlen) (hbuf ▸ hrest)
          rw [if_pos rfl, along_append, run_append]
          exact ⟨⟨hbeat, hcall, halong⟩, hrun⟩

theorem emit_beats_keepUp (s : State α) (xs : List α) :
    emit (next last) beats s (keepUp last xs) = xs := by
  induction xs generalizing s with
  | nil => rfl
  | cons x xs ih =>
      rw [keepUp, List.flatMap_cons, List.cons_append, emit_cons, emit_append]
      have hcall : emit (next last) beats (next last s (.beat x))
          (if last x then nextCall else []) = [] := by
        split <;> rfl
      rw [hcall, List.nil_append]
      exact congrArg ([x] ++ ·) (ih _)

variable (last) in
def calls (xs : List α) : List (Event α) :=
  .driver .getOutp :: .driver .writeLen :: keepUp last xs

/-- Whatever comes on the stream, the driver can return its frames as they end. -/
theorem along_calls {F : ℕ → α → Prop} (hF : ∀ n x, F n x → last x = false → n < size)
    (hsize : 0 < size) {xs : List α} (hxs : Framed last F 0 xs) :
    Along (next last) (fun s e ↦ Enabled size s e ∧ Calm s e) start (calls last xs) ∧
      emit (next last) beats start (calls last xs) = xs ∧
      emit (next last) returned start (calls last xs) = closed last [] xs := by
  have hbegun : Begun (next last (next last start (.driver .getOutp))
    (.driver .writeLen : Event α)) := ⟨rfl, rfl, rfl, rfl, rfl⟩
  obtain ⟨halong, hrun⟩ := along_keepUp hF hbegun hsize hxs
  have hall : Along (next last) (fun s e ↦ Enabled size s e ∧ Calm s e) start (calls last xs) :=
    ⟨⟨⟨rfl, rfl⟩, trivial⟩, ⟨rfl, trivial⟩, halong⟩
  have hbeats : emit (next last) beats start (calls last xs) = xs := emit_beats_keepUp _ xs
  refine ⟨hall, hbeats, ?_⟩
  have hreturned := (returned_append_held hall).1
  have hheld : held (run (next last) start (calls last xs)) = [] := if_pos hrun
  rwa [hheld, List.append_nil, hbeats] at hreturned

end Spif.OutputDma
