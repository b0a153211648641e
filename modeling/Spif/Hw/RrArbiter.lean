import Spif.Hw.Packet

/-!
# Merging two packet streams

`spio_rr_arbiter`, which is not part of this repository, merges the packets of the
two event pipes, and the routed packets with the counter replies on channel 0.  It is
a parameter here.  What the design relies on is that each of its inputs is a lossless
queue: every packet on the output is the next one of one of the inputs.
-/

namespace Spif.RrArbiter

structure Input where
  dataIn : Fin 2 → Packet
  vldIn : Fin 2 → Bool

/-- The ports of `spio_rr_arbiter`.  What it accepts may depend on `RDY_IN` in the same
cycle. -/
structure Arbiter (σ : Type*) where
  rdyOut : σ → Input → Bool → Fin 2 → Bool
  dataOut : σ → Input → Packet
  vldOut : σ → Input → Bool
  next : σ → Input → Bool → σ

variable {σ : Type*} (arb : Arbiter σ)

namespace Arbiter

def accepts (s : σ) (x : Input) (rdyIn : Bool) (k : Fin 2) : List Packet :=
  if x.vldIn k && arb.rdyOut s x rdyIn k then [x.dataIn k] else []

def merged (s : σ) (x : Input) (rdyIn : Bool) : List Packet :=
  if arb.vldOut s x && rdyIn then [arb.dataOut s x] else []

/-- `side` tells which input the packet on the output came from. -/
def Merges (queue : σ → Fin 2 → List Packet) (side : σ → Input → Fin 2) : Prop :=
  ∀ s x rdyIn k,
    (if side s x = k then arb.merged s x rdyIn else []) ++ queue (arb.next s x rdyIn) k =
      queue s k ++ arb.accepts s x rdyIn k

end Arbiter

/-! ## An arbiter -/

/-- The input that was not served last goes first. -/
def select (last : Fin 2) (x : Input) : Fin 2 :=
  if x.vldIn (1 - last) then 1 - last else last

/-- One output register, and the input it was loaded from last. -/
def register : Arbiter (Fin 2 × Option Packet) where
  rdyOut s x rdyIn k := (s.2.isNone || rdyIn) && k == select s.1 x
  dataOut s _ := s.2.getD 0
  vldOut s _ := s.2.isSome
  next s x rdyIn :=
    if s.2.isNone || rdyIn then
      if x.vldIn (select s.1 x) then (select s.1 x, some (x.dataIn (select s.1 x)))
      else (s.1, none)
    else s

theorem merged_register (s : Fin 2 × Option Packet) (x : Input) (rdyIn : Bool) :
    register.merged s x rdyIn = if rdyIn then s.2.toList else [] := by
  obtain ⟨last, out⟩ := s
  cases out <;> cases rdyIn <;> rfl

theorem accepts_register (s : Fin 2 × Option Packet) (x : Input) (rdyIn : Bool) (k : Fin 2) :
    register.accepts s x rdyIn k =
      if x.vldIn k && ((s.2.isNone || rdyIn) && k == select s.1 x) then [x.dataIn k] else [] :=
  rfl

/-- The packet stored, if it came from input `k`. -/
def stored (s : Fin 2 × Option Packet) (k : Fin 2) : List Packet :=
  if s.1 = k then s.2.toList else []

theorem next_register_free {s : Fin 2 × Option Packet} {rdyIn : Bool}
    (hfree : (s.2.isNone || rdyIn) = true) (x : Input) :
    register.next s x rdyIn =
      if x.vldIn (select s.1 x) then (select s.1 x, some (x.dataIn (select s.1 x)))
      else (s.1, none) :=
  if_pos hfree

theorem merges_register : register.Merges stored fun s _ ↦ s.1 := by
  intro s x rdyIn k
  rw [merged_register, accepts_register]
  by_cases hfree : (s.2.isNone || rdyIn) = true
  · have hold : (if s.1 = k then if rdyIn then s.2.toList else [] else []) = stored s k := by
      cases hout : s.2 <;> simp_all [stored]
    rw [hold, next_register_free hfree, hfree]
    congr 1
    cases hvld : x.vldIn (select s.1 x) with
    | false => by_cases hk : k = select s.1 x <;> simp [stored, hk, hvld]
    | true => by_cases hk : k = select s.1 x <;> simp [stored, hk, hvld, Ne.symm]
  · obtain ⟨hout, rfl⟩ : s.2 ≠ none ∧ rdyIn = false := by simpa using hfree
    have hstay : register.next s x false = s := if_neg hfree
    simp [hstay, hout]

end Spif.RrArbiter
