import Spif.Hw.Packet
import Spif.Lib.Clocked

/-!
# The packet assembler

`pkt_assembler` filters incoming events, maps the others to packet keys and
offers the packets to the router.  It stores two of them: the packet on the
output port, and a parked key for an event that was accepted in the cycle in
which the output port stalled.
-/

namespace Spif

/-- The Verilog reduction operator `^x`. -/
def redXor {w : ℕ} (x : BitVec w) : Bool :=
  (List.range w).foldr (fun k b ↦ x.getLsbD k ^^ b) false

namespace PktAssembler

abbrev numMpRegsPipe : ℕ := 4

abbrev numFlRegsPipe : ℕ := 8

structure Config where
  flValIn : Fin numFlRegsPipe → Word
  flMskIn : Fin numFlRegsPipe → Word
  mpKeyIn : Word
  mpFldMskIn : Fin numMpRegsPipe → Word
  mpFldSftIn : Fin numMpRegsPipe → BitVec 6
  mpFldLmtIn : Fin numMpRegsPipe → Word

section Mapper

variable (c : Config) (evt : Word)

def evtFilterInt (k : Fin numFlRegsPipe) : Bool := c.flValIn k == (evt &&& c.flMskIn k)

/-- `~mp_fld_sft_in[i][4:0] + 1`, in five bits -/
def leftShift (sft : BitVec 6) : BitVec 5 := ~~~(sft.extractLsb' 0 5) + 1

def evtFieldInt (k : Fin numMpRegsPipe) : Word :=
  if (c.mpFldSftIn k).getLsbD 5 then
    (evt &&& c.mpFldMskIn k) <<< leftShift (c.mpFldSftIn k)
  else (evt &&& c.mpFldMskIn k) >>> (c.mpFldSftIn k).extractLsb' 0 5

def evtDropInt (k : Fin numMpRegsPipe) : Bool := evtFieldInt c evt k > c.mpFldLmtIn k

/-- The accumulator chain: stage 0 starts from the mapper key. -/
def fieldAccInt : (k : ℕ) → k < numMpRegsPipe → Word
  | 0, h => c.mpKeyIn ||| evtFieldInt c evt ⟨0, h⟩
  | k + 1, h => fieldAccInt k (Nat.lt_of_succ_lt h) ||| evtFieldInt c evt ⟨k + 1, h⟩

def mappedDataInt : Word := fieldAccInt c evt (numMpRegsPipe - 1) (by decide)

/-- Some filter matches the event or some field exceeds its limit. -/
def rejected : Bool :=
  (List.finRange numMpRegsPipe).any (evtDropInt c evt) ||
    (List.finRange numFlRegsPipe).any (evtFilterInt c evt)

end Mapper

/-- `{pkt_pld_int, pkt_key_int, pkt_hdr_int}` for a key: no payload, and the
parity bit as the only header bit in use. -/
def assemble (key : Word) : Packet :=
  let pld : Word := 0
  let pty := !(redXor key ^^ redXor pld)
  .mk pld key (0#7 ++ BitVec.ofBool pty)

structure State where
  parkedInt : Bool
  parkedDataInt : Word
  evtRdyOut : Bool
  pktDataOut : Packet
  pktVldOut : Bool
deriving DecidableEq, Repr

structure Input where
  config : Config
  evtDataIn : Word
  evtVldIn : Bool
  pktRdyIn : Bool

def reset (s : State) : State :=
  { s with parkedInt := false, evtRdyOut := false, pktVldOut := false }

section

variable (s : State) (i : Input)

def evtPresentInt : Bool := i.evtVldIn && !rejected i.config i.evtDataIn && s.evtRdyOut

def pktBusyInt : Bool := s.pktVldOut && !i.pktRdyIn

def parkedIntNext : Bool :=
  if evtPresentInt s i && pktBusyInt s i then true
  else if i.pktRdyIn then false
  else s.parkedInt

def parkedDataIntNext : Word :=
  if evtPresentInt s i && pktBusyInt s i then mappedDataInt i.config i.evtDataIn
  else s.parkedDataInt

def evtRdyOutNext : Bool :=
  match s.parkedInt, evtPresentInt s i, pktBusyInt s i with
  | _, true, true => false
  | true, _, true => false
  | _, _, false => true
  | false, false, true => true

def pktKeyInt : Word :=
  if s.parkedInt then s.parkedDataInt else mappedDataInt i.config i.evtDataIn

def pktDataOutNext : Packet :=
  if !pktBusyInt s i && (s.parkedInt || evtPresentInt s i) then assemble (pktKeyInt s i)
  else s.pktDataOut

def pktVldOutNext : Bool :=
  match s.parkedInt, evtPresentInt s i, pktBusyInt s i with
  | false, false, false => false
  | true, _, false => true
  | _, true, false => true
  | _, _, true => true

/-- One clock edge with `reset` low. -/
def next : State where
  parkedInt := parkedIntNext s i
  parkedDataInt := parkedDataIntNext s i
  evtRdyOut := evtRdyOutNext s i
  pktDataOut := pktDataOutNext s i
  pktVldOut := pktVldOutNext s i

end

/-- The packets stored, oldest first: the output register, then the parked key. -/
def held (s : State) : List Packet :=
  (if s.pktVldOut then [s.pktDataOut] else []) ++
    (if s.parkedInt then [assemble s.parkedDataInt] else [])

@[simp] theorem held_reset (s : State) : held (reset s) = [] := rfl

def transferred (s : State) (i : Input) : List Packet :=
  if s.pktVldOut && i.pktRdyIn then [s.pktDataOut] else []

def assembled (s : State) (i : Input) : List Packet :=
  if evtPresentInt s i then [assemble (mappedDataInt i.config i.evtDataIn)] else []

/-! ## The park invariant -/

/-- While a key is parked the output register is occupied and no event is
accepted.  This excludes the two states which the source calls data loss. -/
def ParkInv (s : State) : Prop :=
  s.parkedInt = true → s.pktVldOut = true ∧ s.evtRdyOut = false

theorem parkInv_reset (s : State) : ParkInv (reset s) := by
  intro h
  simp [reset] at h

theorem evtPresentInt_parked {s : State} (hs : ParkInv s) (hp : s.parkedInt = true)
    (i : Input) : evtPresentInt s i = false := by
  simp [evtPresentInt, (hs hp).2]

theorem parkInv_next {s : State} (hs : ParkInv s) (i : Input) : ParkInv (next s i) := by
  intro hp
  cases hpk : s.parkedInt with
  | false =>
      cases hpres : evtPresentInt s i <;> cases hbusy : pktBusyInt s i <;>
        simp_all [next, parkedIntNext, pktVldOutNext, evtRdyOutNext]
  | true =>
      have hpres := evtPresentInt_parked hs hpk i
      have hvld := (hs hpk).1
      cases hrdy : i.pktRdyIn <;>
        simp_all [next, parkedIntNext, pktVldOutNext, evtRdyOutNext, pktBusyInt]

/-- One cycle of the skid buffer neither loses, repeats nor reorders a packet. -/
theorem fifo_step {s : State} (hs : ParkInv s) (i : Input) :
    transferred s i ++ held (next s i) = held s ++ assembled s i := by
  cases hpk : s.parkedInt with
  | false =>
      cases hpres : evtPresentInt s i <;> cases hvld : s.pktVldOut <;>
        cases hrdy : i.pktRdyIn <;>
        simp [transferred, held, assembled, next, parkedIntNext, parkedDataIntNext,
          pktVldOutNext, pktDataOutNext, pktKeyInt, pktBusyInt, hpk, hpres, hvld, hrdy]
  | true =>
      have hpres := evtPresentInt_parked hs hpk i
      have hvld := (hs hpk).1
      cases hrdy : i.pktRdyIn <;>
        simp [transferred, held, assembled, next, parkedIntNext, parkedDataIntNext,
          pktVldOutNext, pktDataOutNext, pktKeyInt, pktBusyInt, hpk, hpres, hvld, hrdy]

theorem pktDataOut_stalled {s : State} {i : Input} (hbusy : pktBusyInt s i = true) :
    (next s i).pktDataOut = s.pktDataOut := by
  simp [next, pktDataOutNext, hbusy]

end PktAssembler

end Spif
