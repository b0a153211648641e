import Spif.Hw.PktReceiver

/-!
# Parity of the packets built

SpiNNaker routers discard packets whose 72 bits do not have odd parity.  Packets are
built in two places: `pkt_assembler` makes them from events, without a payload, and
`pkt_receiver` answers counter requests with the counter as payload.
-/

namespace Spif

open Clocked

/-! ## The reduction operator -/

theorem foldr_xor (f : ℕ → Bool) (l : List ℕ) (b : Bool) :
    l.foldr (fun k b ↦ f k ^^ b) b = (l.foldr (fun k b ↦ f k ^^ b) false ^^ b) := by
  induction l with
  | nil => simp
  | cons k l ih => rw [List.foldr_cons, List.foldr_cons, ih, Bool.xor_assoc]

theorem redXor_zero (w : ℕ) : redXor (0 : BitVec w) = false := by
  simp [redXor]

theorem redXor_ofBool (b : Bool) : redXor (BitVec.ofBool b) = b := by
  cases b <;> rfl

/-- The parity of a concatenation is that of its parts. -/
theorem redXor_append {v w : ℕ} (x : BitVec v) (y : BitVec w) :
    redXor (x ++ y) = (redXor x ^^ redXor y) := by
  have hlow : (List.range w).foldr (fun k b ↦ (x ++ y).getLsbD k ^^ b) false = redXor y := by
    apply List.foldr_ext
    intro k hk b
    rw [BitVec.getLsbD_append, if_pos (List.mem_range.mp hk)]
  have hhigh : ((List.range v).map (w + ·)).foldr (fun k b ↦ (x ++ y).getLsbD k ^^ b) false =
      redXor x := by
    rw [List.foldr_map]
    apply List.foldr_ext
    intro k _ b
    rw [BitVec.getLsbD_append, if_neg (by omega), Nat.add_sub_cancel_left]
  have hrange : List.range (v + w) = List.range w ++ (List.range v).map (w + ·) := by
    rw [Nat.add_comm, List.range_add]
  rw [redXor, hrange, List.foldr_append, hhigh, foldr_xor, hlow, Bool.xor_comm]

/-- Parity is odd, and the header says whether there is a payload. -/
structure WellFormed (payload : Bool) (p : Packet) : Prop where
  parity : redXor p = true
  lng : p.lng = payload

theorem redXor_mk (pld key : Word) (h : BitVec 8) :
    redXor (Packet.mk pld key h) = (redXor pld ^^ redXor key ^^ redXor h) := by
  rw [Packet.mk, redXor_append, redXor_append]

/-! ## The two builders -/

namespace PktAssembler

theorem wellFormed_assemble (key : Word) : WellFormed false (assemble key) where
  parity := by
    have hhdr : redXor (0#7) = false := redXor_zero 7
    rw [assemble, redXor_mk, redXor_append, redXor_ofBool, redXor_zero, hhdr]
    cases redXor key <;> rfl
  lng := by
    rw [assemble, Packet.lng_mk, BitVec.getLsbD_append]
    simp

/-- What is on offer has been assembled. -/
def Offers (s : State) : Prop := s.pktVldOut = true → ∃ key, s.pktDataOut = assemble key

theorem offers_reset (s : State) : Offers (reset s) := by
  intro h
  cases h

theorem offers_next {s : State} (hs : Offers s) (i : Input) : Offers (next s i) := by
  intro hvld
  cases hbusy : pktBusyInt s i with
  | true =>
      rw [pktDataOut_stalled hbusy]
      simp only [pktBusyInt, Bool.and_eq_true] at hbusy
      exact hs hbusy.1
  | false =>
      have hnew : (s.parkedInt || evtPresentInt s i) = true := by
        cases hpk : s.parkedInt <;> cases hpres : evtPresentInt s i <;>
          simp_all [next, pktVldOutNext]
      exact ⟨pktKeyInt s i, by simp [next, pktDataOutNext, hbusy, hnew]⟩

theorem offers_run (s : State) (ins : List Input) : Offers (run next (reset s) ins) :=
  inv_run (I := Offers) (C := fun _ _ ↦ True) (fun _ i hs _ ↦ offers_next hs i) (offers_reset s)
    (along_of_forall_mem (fun _ _ ↦ trivial) _)

end PktAssembler

namespace PktReceiver

open RegBank

theorem wellFormed_dcpDataOut (cfgData : Packet) (regCtrIn : Fin numDcRegs → Word)
    (replyKeyIn : Word) : WellFormed true (dcpDataOut cfgData regCtrIn replyKeyIn) where
  parity := by
    have hhdr : redXor (0b0011001#7) = true := by decide
    rw [dcpDataOut, redXor_mk, redXor_append, redXor_ofBool, hhdr, dcpPty]
    cases redXor (dcpKey cfgData replyKeyIn) <;> cases redXor (dcpPld cfgData regCtrIn) <;> rfl
  lng := by
    rw [dcpDataOut, Packet.lng_mk, BitVec.getLsbD_append]
    simp

end PktReceiver

/-- Every packet that spif builds has odd parity, and its header announces a payload
exactly in the counter replies. -/
theorem packets_wellFormed :
    (∀ key, WellFormed false (PktAssembler.assemble key)) ∧
      (∀ (s : PktAssembler.State) (ins : List PktAssembler.Input),
        (run PktAssembler.next (PktAssembler.reset s) ins).pktVldOut = true →
          WellFormed false (run PktAssembler.next (PktAssembler.reset s) ins).pktDataOut) ∧
      ∀ (cfgData : Packet) (regCtrIn : Fin RegBank.numDcRegs → Word) (replyKeyIn : Word),
        WellFormed true (PktReceiver.dcpDataOut cfgData regCtrIn replyKeyIn) := by
  refine ⟨PktAssembler.wellFormed_assemble, fun s ins hvld ↦ ?_,
    PktReceiver.wellFormed_dcpDataOut⟩
  obtain ⟨key, hkey⟩ := PktAssembler.offers_run s ins hvld
  rw [hkey]
  exact PktAssembler.wellFormed_assemble key

end Spif
