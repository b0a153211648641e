import Mathlib.Algebra.BigOperators.Group.List.Basic
import Mathlib.Logic.Function.Basic
import Spif.Hw.Packet

/-!
# Transfers to SpiNNaker

A transfer request passes through `spif_transfer` of the user library and the
`SPIF_TRANSFER` branch of the driver's `spif_ioctl`, which writes the length
register of the DMA controller.  The controller then reads that many bytes from
the base of the pipe buffer.

How long a transfer takes is up to the DMA controller: `dur k` is the number of
status reads which still find the `k`-th transfer running.
-/

namespace Spif.Transfer

abbrev Buffer := ℕ → Word

/-- The value written to the length register, and the buffer at that time. -/
structure Request where
  len : Word
  buf : Buffer

/-- The members of `spif_pipe_data` that transfers use, with the DMA controller. -/
structure Pipe where
  dmaInit : Bool
  running : ℕ
  reqs : List Request

/-- Byte `j` of the buffer, which is little-endian. -/
def byteAt (buf : Buffer) (j : ℕ) : BitVec 8 := (buf (j / 4)).extractLsb' (8 * (j % 4)) 8

def Request.bytes (r : Request) : List (BitVec 8) := (List.range r.len.toNat).map (byteAt r.buf)

/-- The words that a request would transfer if its length counted words. -/
def Request.words (r : Request) : List Word := (List.range r.len.toNat).map r.buf

def bytes (reqs : List Request) : List (BitVec 8) := reqs.flatMap Request.bytes

def words (reqs : List Request) : List Word := reqs.flatMap Request.words

def wordBytes (w : Word) : List (BitVec 8) :=
  (List.range 4).map fun k ↦ w.extractLsb' (8 * k) 8

namespace Pipe

/-- The status bit `SPIF_DMAC_IDLE`: a transfer was started, and none is running. -/
def idle (p : Pipe) : Bool := !p.dmaInit && p.running == 0

/-- `dma_busy`: the controller does not report idle at init state. -/
def busy (p : Pipe) : Bool := !p.dmaInit && !p.idle

def ebusy : ℤ := -16

/-- The `SPIF_TRANSFER` branch of `spif_ioctl`; `arg` is an unsigned long. -/
def ioctlTransfer (dur : ℕ → ℕ) (p : Pipe) (buf : Buffer) (arg : BitVec 64) : ℤ × Pipe :=
  if p.busy then (ebusy, p)
  else
    (0, { dmaInit := false
          running := dur p.reqs.length
          reqs := p.reqs ++ [⟨arg.setWidth 32, buf⟩] })

/-- `spif_transfer`; the length is an `int` and becomes a `long`. -/
def spifTransfer (dur : ℕ → ℕ) (p : Pipe) (buf : Buffer) (length : Word) : ℤ × Pipe :=
  p.ioctlTransfer dur buf (length.signExtend 64)

def poll (p : Pipe) : Pipe := { p with running := p.running - 1 }

/-- `while (spif_busy (pipe))`, for at most `fuel` rounds. -/
def waitLoop : ℕ → Pipe → Pipe
  | 0, p => p
  | fuel + 1, p => if p.busy then waitLoop fuel p.poll else p

def waitIdle (p : Pipe) : Pipe := waitLoop p.running p

@[simp] theorem poll_reqs (p : Pipe) : p.poll.reqs = p.reqs := rfl

@[simp] theorem waitIdle_reqs (p : Pipe) : p.waitIdle.reqs = p.reqs := by
  have hloop : ∀ fuel q, (waitLoop fuel q).reqs = q.reqs := by
    intro fuel
    induction fuel with
    | zero => simp [waitLoop]
    | succ fuel ih =>
        intro q
        rw [waitLoop]
        split
        · simpa using ih q.poll
        · rfl
  exact hloop p.running p

theorem busy_eq (p : Pipe) : p.busy = (!p.dmaInit && p.running != 0) := by
  cases hinit : p.dmaInit <;> simp [busy, idle, hinit, bne]

@[simp] theorem waitIdle_busy (p : Pipe) : p.waitIdle.busy = false := by
  have hloop : ∀ fuel q, q.running ≤ fuel → (waitLoop fuel q).busy = false := by
    intro fuel
    induction fuel with
    | zero =>
        intro q hq
        simp [waitLoop, busy_eq, Nat.le_zero.mp hq]
    | succ fuel ih =>
        intro q hq
        rw [waitLoop]
        split
        · apply ih
          simp only [poll]
          omega
        · simpa using ‹¬ q.busy = true›
  exact hloop p.running p le_rfl

theorem setWidth_signExtend (x : Word) : (x.signExtend 64).setWidth 32 = x := by
  apply BitVec.eq_of_getLsbD_eq
  intro i hi
  have hi64 : i < 64 := by omega
  rw [BitVec.getLsbD_setWidth, BitVec.getLsbD_signExtend]
  simp [hi, hi64]

theorem spifTransfer_of_not_busy {p : Pipe} (hp : p.busy = false) (dur : ℕ → ℕ) (buf : Buffer)
    (length : Word) :
    (p.spifTransfer dur buf length).1 = 0 ∧
      (p.spifTransfer dur buf length).2.reqs = p.reqs ++ [⟨length, buf⟩] := by
  simp [spifTransfer, ioctlTransfer, hp, setWidth_signExtend]

end Pipe

@[simp] theorem words_nil : words [] = [] := rfl

@[simp] theorem words_append (xs ys : List Request) : words (xs ++ ys) = words xs ++ words ys := by
  simp [words]

theorem words_singleton (r : Request) : words [r] = r.words := by
  simp [words]

@[simp] theorem length_wordBytes (w : Word) : (wordBytes w).length = 4 := rfl

/-- A request hands over as many bytes as its length says, one for each word
that it should have. -/
theorem length_bytes (reqs : List Request) : (bytes reqs).length = (words reqs).length := by
  simp [bytes, words, List.length_flatMap, Request.bytes, Request.words]

theorem length_flatMap_wordBytes (ws : List Word) :
    (ws.flatMap wordBytes).length = 4 * ws.length := by
  induction ws with
  | nil => rfl
  | cons w ws ih =>
      simp only [List.flatMap_cons, List.length_append, length_wordBytes, List.length_cons, ih]
      omega

/-- Where the lengths count words, the bytes handed over are those of the words
only if there are none. -/
theorem bytes_eq_wordBytes_iff {reqs : List Request} {ws : List Word} (h : words reqs = ws) :
    bytes reqs = ws.flatMap wordBytes ↔ ws = [] := by
  constructor
  · intro heq
    have hlen := congrArg List.length heq
    rw [length_bytes, h, length_flatMap_wordBytes] at hlen
    exact List.length_eq_zero_iff.mp (by omega)
  · rintro rfl
    have hlen := length_bytes reqs
    rw [h] at hlen
    simpa using List.length_eq_zero_iff.mp hlen

end Spif.Transfer
