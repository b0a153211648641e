import Spif.Host.UdpListener
import Spif.Lib.Components

/-!
# Datagrams to events

A request is handed to the DMA controller in one step, but the controller reads the pipe
buffer later, word by word, while `udp_listener` waits for its idle bit.  Here the two run
side by side: the words that go to the AXI stream are still those of the datagrams.

The controller reads the words of a request in order, and does not report idle before it
has read all of them.  Datagrams consist of whole words.
-/

namespace Spif.UdpInput

open Clocked Transfer UdpListener

/-- Where `udp_listener` is: in `recv`, before `spif_transfer`, or in the loop on
`spif_busy`. -/
inductive Phase where
  | recv
  | transfer (rcvBytes : Word)
  | wait
deriving DecidableEq

/-- `fetch` are the words of the request that the controller has yet to read, `fifo` those
which it has read and not yet put on the AXI stream. -/
structure State where
  sb : Buffer
  dmaInit : Bool
  idle : Bool
  fetch : List ℕ
  fifo : List Word
  phase : Phase

inductive Event where
  | recv (r : Recv)
  | spifTransfer
  | spifBusy
  | read
  | complete
  | beat

/-- `dma_busy` -/
def busy (s : State) : Bool := !s.dmaInit && !s.idle

def Enabled (s : State) : Event → Prop
  | .recv _ => s.phase = .recv
  | .spifTransfer => ∃ rcvBytes, s.phase = .transfer rcvBytes
  | .spifBusy => s.phase = .wait
  | .read => s.fetch ≠ []
  | .complete => s.fetch = []
  | .beat => s.fifo ≠ []

def next (s : State) : Event → State
  | .recv r => { s with sb := store s.sb r.data, phase := .transfer r.result }
  | .spifTransfer =>
      match s.phase with
      | .transfer rcvBytes =>
          -- `SPIF_TRANSFER` fails with `EBUSY`, which the listener does not notice
          if busy s then { s with phase := .wait }
          else
            { s with
              dmaInit := false
              idle := false
              fetch := List.range (rcvBytes.toNat / 4)
              phase := .wait }
      | _ => s
  | .spifBusy => if busy s then s else { s with phase := .recv }
  | .read => { s with fetch := s.fetch.tail, fifo := s.fifo ++ (s.fetch.head?.map s.sb).toList }
  | .complete => { s with idle := true }
  | .beat => { s with fifo := s.fifo.tail }

/-- Before the first transfer after an open, the idle bit has no meaning. -/
def start (sb : Buffer) (dmaInit : Bool) : State where
  sb := sb
  dmaInit := dmaInit
  idle := !dmaInit
  fetch := []
  fifo := []
  phase := .recv

def obtained (_ : State) : Event → List (BitVec 8)
  | .recv r => r.data
  | _ => []

def streamed (s : State) : Event → List Word
  | .beat => s.fifo.head?.toList
  | _ => []

/-- The datagram that is in the buffer, but not requested yet. -/
def unrequested (s : State) : List (BitVec 8) :=
  match s.phase with
  | .transfer rcvBytes => Request.bytes ⟨rcvBytes, s.sb⟩
  | _ => []

/-- What was received and has not been put on the stream. -/
def held (s : State) : List (BitVec 8) :=
  (s.fifo ++ s.fetch.map s.sb).flatMap wordBytes ++ unrequested s

def WholeWords : Event → Prop
  | .recv r => 1 ≤ r.data.length ∧ 4 ∣ r.data.length
  | _ => True

/-! ## The buffer is not written while it is read -/

/-- The listener is behind a transfer, or everything has been read. -/
structure Inv (s : State) : Prop where
  idle : s.idle = true → s.fetch = []
  fresh : s.dmaInit = true → s.fetch = []
  free : s.phase ≠ .wait → busy s = false
  whole : ∀ rcvBytes, s.phase = .transfer rcvBytes → 4 ∣ rcvBytes.toNat

theorem Inv.fetch_eq_nil {s : State} (hs : Inv s) (hbusy : busy s = false) : s.fetch = [] := by
  cases hinit : s.dmaInit with
  | true => exact hs.fresh hinit
  | false =>
      apply hs.idle
      simpa [busy, hinit] using hbusy

theorem inv_start (sb : Buffer) (dmaInit : Bool) : Inv (start sb dmaInit) where
  idle _ := rfl
  fresh _ := rfl
  free _ := by simp [start, busy]
  whole := by rintro rcvBytes ⟨⟩

theorem toNat_result {r : Recv} (hr : 1 ≤ r.data.length) : r.result.toNat = r.data.length := by
  cases r with
  | error => cases hr
  | batch data h =>
      change data.length ≤ 256 * 4 at h
      change data.length % 2 ^ 32 = data.length
      exact Nat.mod_eq_of_lt (by omega)

theorem inv_next {s : State} {e : Event} (hs : Inv s) (he : Enabled s e ∧ WholeWords e) :
    Inv (next s e) := by
  cases e with
  | recv r =>
      have hphase : s.phase = .recv := he.1
      refine ⟨hs.idle, hs.fresh, fun _ ↦ hs.free (by simp [hphase]), ?_⟩
      rintro rcvBytes ⟨⟩
      rw [toNat_result he.2.1]
      exact he.2.2
  | spifTransfer =>
      obtain ⟨rcvBytes, hphase⟩ := he.1
      have hbusy : busy s = false := hs.free (by simp [hphase])
      constructor <;> simp [next, hphase, hbusy]
  | spifBusy =>
      cases hbusy : busy s with
      | true => simpa [next, hbusy] using hs
      | false =>
          have hnext : next s .spifBusy = { s with phase := .recv } := by simp [next, hbusy]
          rw [hnext]
          exact ⟨hs.idle, hs.fresh, fun _ ↦ hbusy, by rintro rcvBytes ⟨⟩⟩
  | read =>
      refine ⟨fun h ↦ ?_, fun h ↦ ?_, hs.free, hs.whole⟩
      · exact absurd (hs.idle h) he.1
      · exact absurd (hs.fresh h) he.1
  | complete =>
      refine ⟨fun _ ↦ he.1, hs.fresh, fun _ ↦ ?_, hs.whole⟩
      simp [next, busy]
  | beat => exact ⟨hs.idle, hs.fresh, hs.free, hs.whole⟩

theorem flatMap_wordBytes_range (buf : Buffer) (n : ℕ) :
    ((List.range n).map buf).flatMap wordBytes = (List.range (4 * n)).map (byteAt buf) := by
  induction n with
  | zero => rfl
  | succ n ih =>
      have hword : wordBytes (buf n) = (List.range 4).map fun k ↦ byteAt buf (4 * n + k) := by
        apply List.map_congr_left
        intro k hk
        have hk4 : k < 4 := List.mem_range.mp hk
        have hdiv : (4 * n + k) / 4 = n := by omega
        have hmod : (4 * n + k) % 4 = k := by omega
        rw [byteAt, hdiv, hmod]
      rw [List.range_succ, List.map_append, List.flatMap_append, ih, Nat.mul_succ,
        List.range_add, List.map_append, List.map_map, List.map_singleton,
        List.flatMap_singleton, hword]
      rfl

theorem bytes_fetch (sb : Buffer) {rcvBytes : Word} (h : 4 ∣ rcvBytes.toNat) :
    ((List.range (rcvBytes.toNat / 4)).map sb).flatMap wordBytes =
      Request.bytes ⟨rcvBytes, sb⟩ := by
  rw [flatMap_wordBytes_range, Nat.mul_div_cancel' h]
  rfl

/-- A step neither loses, repeats nor reorders a byte. -/
theorem fifo_step {s : State} {e : Event} (hs : Inv s) (he : Enabled s e ∧ WholeWords e) :
    (streamed s e).flatMap wordBytes ++ held (next s e) = held s ++ obtained s e := by
  cases e with
  | recv r =>
      have hphase : s.phase = .recv := he.1
      have hfetch : s.fetch = [] := hs.fetch_eq_nil (hs.free (by simp [hphase]))
      have hbytes : Request.bytes ⟨r.result, store s.sb r.data⟩ = r.data :=
        bytes_store s.sb r.data (toNat_result he.2.1)
      simp [streamed, held, next, obtained, unrequested, hphase, hfetch, hbytes]
  | spifTransfer =>
      obtain ⟨rcvBytes, hphase⟩ := he.1
      have hbusy : busy s = false := hs.free (by simp [hphase])
      have hfetch : s.fetch = [] := hs.fetch_eq_nil hbusy
      simp [streamed, held, next, obtained, unrequested, hphase, hbusy, hfetch,
        bytes_fetch s.sb (hs.whole rcvBytes hphase)]
  | spifBusy =>
      have hphase : s.phase = .wait := he.1
      cases hbusy : busy s <;>
        simp [streamed, held, next, obtained, unrequested, hphase, hbusy]
  | read =>
      obtain ⟨k, ks, hfetch⟩ := List.exists_cons_of_ne_nil he.1
      simp [streamed, held, next, obtained, unrequested, hfetch]
  | complete => simp [streamed, held, next, obtained, unrequested]
  | beat =>
      obtain ⟨w, ws, hfifo⟩ := List.exists_cons_of_ne_nil he.1
      simp [streamed, held, next, obtained, unrequested, hfifo]

/-! ## Runs -/

def Granted (s : State) : Event → Prop
  | .spifTransfer => busy s = false
  | _ => True

theorem bytes_streamed {sb : Buffer} {dmaInit : Bool} {es : List Event}
    (h : Along next (fun s e ↦ Enabled s e ∧ WholeWords e) (start sb dmaInit) es) :
    (emit next streamed (start sb dmaInit) es).flatMap wordBytes ++
        held (run next (start sb dmaInit) es) =
      emit next obtained (start sb dmaInit) es := by
  rw [emit_flatMap]
  have hfifo := emit_fifo held obtained (fun s e ↦ (streamed s e).flatMap wordBytes)
    (fun _ _ ↦ inv_next) (fun _ _ ↦ fifo_step) (inv_start sb dmaInit) h
  rwa [show held (start sb dmaInit) = [] from rfl, List.nil_append] at hfifo

/-- Whatever the order in which listener and controller take their steps, the AXI stream
carries the bytes of the datagrams, once and in order, and `spif_transfer` never fails. -/
theorem streams_datagrams (sb : Buffer) (dmaInit : Bool) {es : List Event}
    (h : Along next (fun s e ↦ Enabled s e ∧ WholeWords e) (start sb dmaInit) es) :
    (emit next streamed (start sb dmaInit) es).flatMap wordBytes ++
        held (run next (start sb dmaInit) es) =
      emit next obtained (start sb dmaInit) es ∧
    Along next Granted (start sb dmaInit) es := by
  constructor
  · exact bytes_streamed h
  · refine along_of_inv (fun _ _ ↦ inv_next) (fun s e hs he ↦ ?_) (inv_start sb dmaInit) h
    cases e with
    | spifTransfer =>
        obtain ⟨rcvBytes, hphase⟩ := he.1
        exact hs.free (by simp [hphase])
    | _ => trivial

/-- The second datagram comes while the last word of the first one is on its way. -/
def twoDatagrams : List Event :=
  [.recv (.batch [1, 2, 3, 4] (by decide)), .spifTransfer, .spifBusy, .read, .complete,
    .spifBusy, .recv (.batch [5, 6, 7, 8] (by decide)), .spifTransfer, .beat, .read]

theorem streams_datagrams_twoDatagrams :
    (emit next streamed (start (fun _ ↦ 0) true) twoDatagrams).flatMap wordBytes ++
        held (run next (start (fun _ ↦ 0) true) twoDatagrams) =
      emit next obtained (start (fun _ ↦ 0) true) twoDatagrams ∧
    Along next Granted (start (fun _ ↦ 0) true) twoDatagrams :=
  streams_datagrams (fun _ ↦ 0) true
    ⟨⟨rfl, by decide, by decide⟩, ⟨⟨_, rfl⟩, trivial⟩, ⟨rfl, trivial⟩,
      ⟨List.cons_ne_nil _ _, trivial⟩, ⟨rfl, trivial⟩, ⟨rfl, trivial⟩,
      ⟨rfl, by decide, by decide⟩, ⟨⟨_, rfl⟩, trivial⟩, ⟨List.cons_ne_nil _ _, trivial⟩,
      ⟨List.cons_ne_nil _ _, trivial⟩, trivial⟩

end Spif.UdpInput
