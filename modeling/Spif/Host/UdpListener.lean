import Spif.Host.Transfer
import Spif.Lib.Clocked

/-!
# The UDP listener

`udp_listener` receives event batches into the pipe buffer and has them
transferred.  It hands the result of `recv` to `spif_transfer` as it is, an error
or an empty datagram included.
-/

namespace Spif.UdpListener

open Clocked Transfer

def spifferBatchSize : ℕ := 256

/-- What `recv` may return for the pipe buffer. -/
inductive Recv where
  | error
  | batch (data : List (BitVec 8)) (h : data.length ≤ spifferBatchSize * 4)

namespace Recv

def data : Recv → List (BitVec 8)
  | .error => []
  | .batch data _ => data

def result : Recv → Word
  | .error => -1
  | .batch data _ => BitVec.ofNat 32 data.length

theorem length_data_le (r : Recv) : r.data.length ≤ spifferBatchSize * 4 := by
  cases r with
  | error => exact Nat.zero_le _
  | batch data h => exact h

end Recv

/-- Byte `j` of the buffer once the bytes received are at its base. -/
def storedByte (sb : Buffer) (data : List (BitVec 8)) (j : ℕ) : BitVec 8 :=
  data[j]?.getD (byteAt sb j)

def store (sb : Buffer) (data : List (BitVec 8)) (k : ℕ) : Word :=
  storedByte sb data (4 * k + 3) ++ storedByte sb data (4 * k + 2) ++
    storedByte sb data (4 * k + 1) ++ storedByte sb data (4 * k)

structure Listener where
  sb : Buffer
  pipe : Pipe

/-- The listener starts on an idle pipe: the listeners before it could not be
cancelled during a transfer. -/
def start (sb : Buffer) (dmaInit : Bool) (reqs : List Request) : Listener where
  sb := sb
  pipe := ⟨dmaInit, 0, reqs⟩

/-- One round of the loop. -/
def next (dur : ℕ → ℕ) (s : Listener) (r : Recv) : Listener where
  sb := store s.sb r.data
  pipe := (s.pipe.spifTransfer dur (store s.sb r.data) r.result).2.waitIdle

/-- A round requests the transfer of the bytes received, if there are any. -/
def Transfers (dur : ℕ → ℕ) (s : Listener) (r : Recv) : Prop :=
  ∃ reqs, (next dur s r).pipe.reqs = s.pipe.reqs ++ reqs ∧
    reqs.length = (if 1 ≤ r.data.length then 1 else 0) ∧
    ∀ q ∈ reqs, q.len.toNat = r.data.length ∧ q.len.toNat ≤ spifferBatchSize * 4 ∧
      q.bytes = r.data

/-! ## The buffer -/

theorem extractLsb'_bytes (b3 b2 b1 b0 : BitVec 8) :
    (b3 ++ b2 ++ b1 ++ b0).extractLsb' 0 8 = b0 ∧ (b3 ++ b2 ++ b1 ++ b0).extractLsb' 8 8 = b1 ∧
      (b3 ++ b2 ++ b1 ++ b0).extractLsb' 16 8 = b2 ∧
      (b3 ++ b2 ++ b1 ++ b0).extractLsb' 24 8 = b3 := by
  refine ⟨BitVec.extractLsb'_append_eq_right, ?_, ?_, ?_⟩
  · rw [BitVec.extractLsb'_append_eq_of_le (by decide)]
    exact BitVec.extractLsb'_append_eq_right
  · rw [BitVec.extractLsb'_append_eq_of_le (by decide),
      BitVec.extractLsb'_append_eq_of_le (by decide)]
    exact BitVec.extractLsb'_append_eq_right
  · rw [BitVec.extractLsb'_append_eq_of_le (by decide),
      BitVec.extractLsb'_append_eq_of_le (by decide)]
    exact BitVec.extractLsb'_append_eq_left

theorem byteAt_store (sb : Buffer) (data : List (BitVec 8)) (j : ℕ) :
    byteAt (store sb data) j = storedByte sb data j := by
  obtain ⟨h0, h1, h2, h3⟩ := extractLsb'_bytes (storedByte sb data (4 * (j / 4) + 3))
    (storedByte sb data (4 * (j / 4) + 2)) (storedByte sb data (4 * (j / 4) + 1))
    (storedByte sb data (4 * (j / 4)))
  have hj := Nat.div_add_mod j 4
  rw [byteAt, store]
  rcases (by omega : j % 4 = 0 ∨ j % 4 = 1 ∨ j % 4 = 2 ∨ j % 4 = 3) with h | h | h | h
  · rw [h] at hj ⊢
    exact h0.trans (congrArg _ hj)
  · rw [h] at hj ⊢
    exact h1.trans (congrArg _ hj)
  · rw [h] at hj ⊢
    exact h2.trans (congrArg _ hj)
  · rw [h] at hj ⊢
    exact h3.trans (congrArg _ hj)

/-- A request of that length hands over exactly the bytes received. -/
theorem bytes_store (sb : Buffer) (data : List (BitVec 8)) {len : Word}
    (hlen : len.toNat = data.length) : Request.bytes ⟨len, store sb data⟩ = data := by
  rw [Request.bytes, hlen]
  apply List.ext_getElem
  · simp
  · intro j _ hj
    simp [byteAt_store, storedByte, hj]

/-! ## The rounds -/

theorem next_reqs {s : Listener} (hs : s.pipe.busy = false) (dur : ℕ → ℕ) (r : Recv) :
    (next dur s r).pipe.reqs = s.pipe.reqs ++ [⟨r.result, store s.sb r.data⟩] := by
  rw [next, Pipe.waitIdle_reqs]
  exact (Pipe.spifTransfer_of_not_busy hs dur _ _).2

/-- Every round makes a request, whose length is the result of `recv`. -/
theorem transfers_iff {s : Listener} (hs : s.pipe.busy = false) (dur : ℕ → ℕ) (r : Recv) :
    Transfers dur s r ↔ 1 ≤ r.data.length := by
  have hreqs := next_reqs hs dur r
  constructor
  · rintro ⟨reqs, hnext, hcount, -⟩
    obtain rfl := List.append_cancel_left (hnext.symm.trans hreqs)
    by_contra hempty
    rw [if_neg hempty] at hcount
    cases hcount
  · intro hdata
    have hlen : r.result.toNat = r.data.length := by
      cases r with
      | error => cases hdata
      | batch data h =>
          change data.length ≤ 256 * 4 at h
          change data.length % 2 ^ 32 = data.length
          exact Nat.mod_eq_of_lt (by omega)
    refine ⟨_, hreqs, (if_pos hdata).symm, ?_⟩
    intro q hq
    obtain rfl := List.mem_singleton.mp hq
    exact ⟨hlen, hlen ▸ r.length_data_le, bytes_store s.sb r.data hlen⟩

/-- The listener transfers exactly what it receives if every result of `recv` is
at least one byte. -/
theorem along_transfers_iff (dur : ℕ → ℕ) (sb : Buffer) (dmaInit : Bool) (reqs : List Request)
    (rs : List Recv) :
    Along (next dur) (Transfers dur) (start sb dmaInit reqs) rs ↔
      ∀ r ∈ rs, 1 ≤ r.data.length := by
  have hidle : (start sb dmaInit reqs).pipe.busy = false := by
    rw [Pipe.busy_eq]
    simp [start]
  rw [along_congr (I := fun s : Listener ↦ s.pipe.busy = false) (D := fun _ _ ↦ True)
    (Q := fun _ r ↦ 1 ≤ r.data.length) (fun _ _ _ _ ↦ Pipe.waitIdle_busy _)
    (fun s r hs _ ↦ transfers_iff hs dur r) hidle
    (along_of_forall_mem (fun _ _ ↦ trivial) _)]
  exact along_iff_forall_mem

/-- An error of `recv` starts a transfer of 2^32 - 1 bytes. -/
theorem not_transfers_error :
    ¬ ∀ rs : List Recv, Along (next fun _ ↦ 3) (Transfers fun _ ↦ 3)
      (start (fun _ ↦ 0) true []) rs := by
  intro h
  have hround : Transfers (fun _ ↦ 3) (start (fun _ ↦ 0) true []) .error := (h [.error]).1
  exact absurd ((transfers_iff rfl _ _).mp hround) (by decide)

end Spif.UdpListener
