import Spif.Hw.EvtMapping
import Spif.Lib.OrNetwork

/-!
# What a packet key tells about its event

The mapper of `pkt_assembler` selects up to four fields of an event, shifts each of them
and combines them with the mapper key by a bitwise or.  Fields may overlap in the key, and
the mapper key may cover them.  This module says when events that differ in a selected bit
get different keys.
-/

namespace Spif.PktAssembler

open OrNetwork

/-- Bit `i` of a field is moved to bit `j`. -/
def Lands (sft : BitVec 6) (i j : ℕ) : Prop :=
  if sft.getLsbD 5 then j = i + (leftShift sft).toNat else i = j + (sft.extractLsb' 0 5).toNat

instance (sft : BitVec 6) (i j : ℕ) : Decidable (Lands sft i j) := by
  unfold Lands
  infer_instance

/-- Some field moves bit `i` of the event to bit `j` of the key. -/
def Feeds (c : Config) (i j : Fin 32) : Prop :=
  ∃ k, (c.mpFldMskIn k).getLsbD i = true ∧ Lands (c.mpFldSftIn k) i j

instance (c : Config) (i j : Fin 32) : Decidable (Feeds c i j) :=
  inferInstanceAs (Decidable (∃ _, _))

def bits (w : Word) : Set (Fin 32) := {i | w.getLsbD i = true}

theorem bits_injective : Function.Injective bits := by
  intro v w h
  apply BitVec.eq_of_getLsbD_eq
  intro i hi
  rw [Bool.eq_iff_iff]
  exact Set.ext_iff.mp h ⟨i, hi⟩

theorem bits_surjective : Function.Surjective bits := by
  classical
  intro x
  refine ⟨(BitVec.ofBoolListLE ((List.finRange 32).map fun i ↦ decide (i ∈ x))).cast (by simp), ?_⟩
  ext i
  change BitVec.getLsbD _ _ = true ↔ _
  rw [BitVec.getLsbD_cast, BitVec.getLsbD_ofBoolListLE, List.getD_eq_getElem?_getD,
    List.getElem?_map, List.getElem?_eq_getElem (by simp), List.getElem_finRange]
  simp

variable {c : Config} {evt : Word}

/-- A field's bit `j` is the bit of the event that lands there, if it is selected. -/
theorem getLsbD_evtFieldInt {k : Fin numMpRegsPipe} {j : Fin 32} :
    (evtFieldInt c evt k).getLsbD j = true ↔
      ∃ i : Fin 32, evt.getLsbD i = true ∧ (c.mpFldMskIn k).getLsbD i = true ∧
        Lands (c.mpFldSftIn k) i j := by
  have hlow {i : ℕ} (hi : evt.getLsbD i = true) : i < 32 := BitVec.lt_of_getLsbD hi
  unfold evtFieldInt Lands
  cases (c.mpFldSftIn k).getLsbD 5 with
  | true =>
      simp only [if_true, BitVec.shiftLeft_eq', BitVec.getLsbD_shiftLeft, BitVec.getLsbD_and,
        j.isLt, decide_true, Bool.true_and, Bool.and_eq_true, Bool.not_eq_true',
        decide_eq_false_iff_not]
      constructor
      · rintro ⟨hj, hevt, hmsk⟩
        exact ⟨⟨_, hlow hevt⟩, hevt, hmsk, by simp only; omega⟩
      · rintro ⟨i, hevt, hmsk, hij⟩
        have hsub : j.val - (leftShift (c.mpFldSftIn k)).toNat = i.val := by omega
        rw [hsub]
        exact ⟨by omega, hevt, hmsk⟩
  | false =>
      simp only [Bool.false_eq_true, if_false, BitVec.ushiftRight_eq', BitVec.getLsbD_ushiftRight,
        BitVec.getLsbD_and, Bool.and_eq_true]
      constructor
      · rintro ⟨hevt, hmsk⟩
        exact ⟨⟨_, hlow hevt⟩, hevt, hmsk, Nat.add_comm _ _⟩
      · rintro ⟨i, hevt, hmsk, hij⟩
        rw [Nat.add_comm, ← hij]
        exact ⟨hevt, hmsk⟩

/-- The mapper is a wired-or network from event bits to key bits. -/
theorem bits_mappedDataInt (c : Config) (evt : Word) :
    bits (mappedDataInt c evt) = output (bits c.mpKeyIn) (Feeds c) (bits evt) := by
  ext j
  change (mappedDataInt c evt).getLsbD j = true ↔
    c.mpKeyIn.getLsbD j = true ∨ ∃ i : Fin 32, evt.getLsbD i = true ∧ Feeds c i j
  rw [getLsbD_mappedDataInt]
  refine or_congr Iff.rfl ?_
  simp only [getLsbD_evtFieldInt]
  constructor
  · rintro ⟨k, i, hevt, hmsk, hland⟩
    exact ⟨i, hevt, k, hmsk, hland⟩
  · rintro ⟨i, hevt, k, hmsk, hland⟩
    exact ⟨k, i, hevt, hmsk, hland⟩

theorem assemble_inj {k k' : Word} : assemble k = assemble k' ↔ k = k' := by
  refine ⟨fun h ↦ ?_, congrArg assemble⟩
  rw [← key_assemble k, h, key_assemble]

/-- Packets tell events apart by exactly the bits selected, for all events, if and only if
every selected bit has a bit of the key to itself: no other selected bit lands there and
the mapper key is zero there. -/
theorem packets_separate_iff (c : Config) :
    (∀ evt evt' : Word, assemble (mappedDataInt c evt) = assemble (mappedDataInt c evt') ↔
        ∀ i, Used (Feeds c) i → (evt.getLsbD i = true ↔ evt'.getLsbD i = true)) ↔
      ∀ i, Used (Feeds c) i → ∃ j, Shows (bits c.mpKeyIn) (Feeds c) i j := by
  rw [← separates_iff]
  have hout (evt evt' : Word) : assemble (mappedDataInt c evt) = assemble (mappedDataInt c evt') ↔
      output (bits c.mpKeyIn) (Feeds c) (bits evt) =
        output (bits c.mpKeyIn) (Feeds c) (bits evt') := by
    rw [assemble_inj, ← bits_injective.eq_iff, bits_mappedDataInt, bits_mappedDataInt]
  constructor
  · intro h x y
    obtain ⟨evt, rfl⟩ := bits_surjective x
    obtain ⟨evt', rfl⟩ := bits_surjective y
    rw [← hout]
    exact h evt evt'
  · intro h evt evt'
    rw [hout]
    exact h (bits evt) (bits evt')

end Spif.PktAssembler
