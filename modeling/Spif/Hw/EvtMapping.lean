import Spif.Hw.EvtPipe

/-!
# The documented mapping

The configuration manual gives filters and mapper as pseudocode over six-bit
signed shifts.  `pkt_assembler` negates only the low five bits of a shift, so
the two differ for the one shift whose negation has six bits.
-/

namespace Spif

namespace PktAssembler

section

variable (c : Config) (evt : Word)

/-- `field[i]` of the manual's mapping algorithm. -/
def docField (k : Fin numMpRegsPipe) : Word :=
  if (c.mpFldSftIn k).toInt < 0 then
    (evt &&& c.mpFldMskIn k) <<< (-(c.mpFldSftIn k).toInt).toNat
  else (evt &&& c.mpFldMskIn k) >>> (c.mpFldSftIn k).toInt.toNat

def DocDropped : Prop :=
  (∃ k, c.flValIn k = evt &&& c.flMskIn k) ∨ ∃ k, c.mpFldLmtIn k < docField c evt k

def docKey : Word :=
  c.mpKeyIn ||| docField c evt 0 ||| docField c evt 1 ||| docField c evt 2 |||
    docField c evt 3

def Documented : Prop :=
  (rejected c evt = true ↔ DocDropped c evt) ∧
    (¬ DocDropped c evt → (assemble (mappedDataInt c evt)).key = docKey c evt)

/-- The event is dropped in any case, or no field with shift -32 shows: moved
out of the word, as it should be, or left in place, it is within its limit and
adds no bit to the key. -/
def NoStuckField : Prop :=
  DocDropped c evt ∨ ∀ k, c.mpFldSftIn k = -32 →
    evt &&& c.mpFldMskIn k ≤ c.mpFldLmtIn k ∧
      docKey c evt ||| (evt &&& c.mpFldMskIn k) = docKey c evt

instance : Decidable (DocDropped c evt) := inferInstanceAs (Decidable (_ ∨ _))

instance : Decidable (Documented c evt) := inferInstanceAs (Decidable (_ ∧ _))

end

variable {c : Config} {evt : Word}

theorem toNat_leftShift : ∀ sft : BitVec 6, sft.toInt < 0 → sft ≠ -32 →
    (leftShift sft).toNat = (-sft.toInt).toNat := by
  decide

theorem toNat_rightShift : ∀ sft : BitVec 6, ¬ sft.toInt < 0 →
    (sft.extractLsb' 0 5).toNat = sft.toInt.toNat := by
  decide

theorem getLsbD_five : ∀ sft : BitVec 6, sft.getLsbD 5 = decide (sft.toInt < 0) := by
  decide

theorem evtFieldInt_eq_docField {k : Fin numMpRegsPipe} (h : c.mpFldSftIn k ≠ -32) :
    evtFieldInt c evt k = docField c evt k := by
  unfold evtFieldInt docField
  rw [getLsbD_five]
  by_cases hneg : (c.mpFldSftIn k).toInt < 0
  · simp only [hneg, decide_true, if_true]
    rw [BitVec.shiftLeft_eq', toNat_leftShift _ hneg h]
  · simp only [hneg, decide_false, if_false, Bool.false_eq_true]
    rw [BitVec.ushiftRight_eq', toNat_rightShift _ hneg]

/-- Five bits hold no 32: the field stays where it is. -/
theorem evtFieldInt_stuck {k : Fin numMpRegsPipe} (h : c.mpFldSftIn k = -32) :
    evtFieldInt c evt k = evt &&& c.mpFldMskIn k := by
  have hsft : leftShift (-32) = 0#5 := by decide
  have hneg : (-32 : BitVec 6).getLsbD 5 = true := by decide
  simp only [evtFieldInt, h, hsft, hneg, if_true]
  exact BitVec.shiftLeft_zero _

theorem docField_stuck {k : Fin numMpRegsPipe} (h : c.mpFldSftIn k = -32) :
    docField c evt k = 0 := by
  have hneg : (-32 : BitVec 6).toInt = -32 := by decide
  simp only [docField, h, hneg]
  exact BitVec.shiftLeft_eq_zero (by decide)

theorem rejected_iff : rejected c evt = true ↔
    (∃ k, c.flValIn k = evt &&& c.flMskIn k) ∨ ∃ k, c.mpFldLmtIn k < evtFieldInt c evt k := by
  simp [rejected, evtDropInt, evtFilterInt, or_comm]

theorem getLsbD_mappedDataInt (j : ℕ) : (mappedDataInt c evt).getLsbD j = true ↔
    c.mpKeyIn.getLsbD j = true ∨ ∃ k, (evtFieldInt c evt k).getLsbD j = true := by
  have hchain : mappedDataInt c evt = c.mpKeyIn ||| evtFieldInt c evt 0 |||
      evtFieldInt c evt 1 ||| evtFieldInt c evt 2 ||| evtFieldInt c evt 3 := rfl
  simp [hchain, Fin.exists_fin_succ, or_assoc]

theorem getLsbD_docKey (j : ℕ) : (docKey c evt).getLsbD j = true ↔
    c.mpKeyIn.getLsbD j = true ∨ ∃ k, (docField c evt k).getLsbD j = true := by
  simp [docKey, Fin.exists_fin_succ, or_assoc]

theorem or_eq_left_iff {x y : Word} :
    x ||| y = x ↔ ∀ j, y.getLsbD j = true → x.getLsbD j = true := by
  constructor
  · intro h j hy
    rw [← h, BitVec.getLsbD_or, hy, Bool.or_true]
  · intro h
    apply BitVec.eq_of_getLsbD_eq
    intro j _
    rw [BitVec.getLsbD_or]
    have hj := h j
    cases hy : y.getLsbD j with
    | false => exact Bool.or_false _
    | true => rw [hj hy, Bool.or_true]

/-- A field with another shift is the manual's; a stuck one is absent there. -/
theorem mappedDataInt_eq_docKey (h : ∀ k, c.mpFldSftIn k = -32 →
      docKey c evt ||| (evt &&& c.mpFldMskIn k) = docKey c evt) :
    mappedDataInt c evt = docKey c evt := by
  apply BitVec.eq_of_getLsbD_eq
  intro j _
  rw [Bool.eq_iff_iff]
  constructor
  · intro hj
    rcases (getLsbD_mappedDataInt j).mp hj with hkey | ⟨k, hk⟩
    · exact (getLsbD_docKey j).mpr (.inl hkey)
    · by_cases hsft : c.mpFldSftIn k = -32
      · rw [evtFieldInt_stuck hsft] at hk
        exact or_eq_left_iff.mp (h k hsft) j hk
      · rw [evtFieldInt_eq_docField hsft] at hk
        exact (getLsbD_docKey j).mpr (.inr ⟨k, hk⟩)
  · intro hj
    rcases (getLsbD_docKey j).mp hj with hkey | ⟨k, hk⟩
    · exact (getLsbD_mappedDataInt j).mpr (.inl hkey)
    · by_cases hsft : c.mpFldSftIn k = -32
      · rw [docField_stuck hsft] at hk
        simp at hk
      · rw [← evtFieldInt_eq_docField hsft] at hk
        exact (getLsbD_mappedDataInt j).mpr (.inr ⟨k, hk⟩)

theorem rejected_of_docDropped (h : DocDropped c evt) : rejected c evt = true := by
  rcases h with hfl | ⟨k, hk⟩
  · exact rejected_iff.mpr (.inl hfl)
  · by_cases hsft : c.mpFldSftIn k = -32
    · rw [docField_stuck hsft] at hk
      exact absurd hk (BitVec.not_lt_zero)
    · rw [← evtFieldInt_eq_docField hsft] at hk
      exact rejected_iff.mpr (.inr ⟨k, hk⟩)

theorem docDropped_of_rejected (hrej : rejected c evt = true)
    (h : ∀ k, c.mpFldSftIn k = -32 → evt &&& c.mpFldMskIn k ≤ c.mpFldLmtIn k) :
    DocDropped c evt := by
  rcases rejected_iff.mp hrej with hfl | ⟨k, hk⟩
  · exact .inl hfl
  · by_cases hsft : c.mpFldSftIn k = -32
    · rw [evtFieldInt_stuck hsft] at hk
      exact absurd hk (BitVec.not_lt.mpr (h k hsft))
    · rw [evtFieldInt_eq_docField hsft] at hk
      exact .inr ⟨k, hk⟩

@[simp] theorem key_assemble (k : Word) : (assemble k).key = k := Packet.key_mk _ _ _

theorem noStuckField_of_documented (h : Documented c evt) : NoStuckField c evt := by
  by_cases hdoc : DocDropped c evt
  · exact .inl hdoc
  refine .inr fun k hsft ↦ ⟨?_, ?_⟩
  · have hnot : ¬ rejected c evt = true := fun hrej ↦ hdoc (h.1.mp hrej)
    rw [rejected_iff, not_or, not_exists, not_exists] at hnot
    have hk := hnot.2 k
    rw [evtFieldInt_stuck hsft] at hk
    exact BitVec.not_lt.mp hk
  · have hmap : mappedDataInt c evt = docKey c evt := by simpa using h.2 hdoc
    apply or_eq_left_iff.mpr
    intro j hj
    rw [← hmap]
    exact (getLsbD_mappedDataInt j).mpr (.inr ⟨k, by rwa [evtFieldInt_stuck hsft]⟩)

theorem documented_of_noStuckField (h : NoStuckField c evt) : Documented c evt := by
  refine ⟨⟨fun hrej ↦ ?_, rejected_of_docDropped⟩, fun hdoc ↦ ?_⟩
  · exact h.elim id fun hk ↦ docDropped_of_rejected hrej fun k hsft ↦ (hk k hsft).1
  · have hk := h.resolve_left hdoc
    rw [key_assemble]
    exact mappedDataInt_eq_docKey fun k hsft ↦ (hk k hsft).2

/-- The assembler computes the documented mapping of an event exactly when no
field with shift -32 shows. -/
theorem documented_iff_noStuckField (c : Config) (evt : Word) :
    Documented c evt ↔ NoStuckField c evt :=
  ⟨noStuckField_of_documented, documented_of_noStuckField⟩

/-- One field, the whole event, moved out of the word. -/
def shiftOut : Config where
  flValIn := fun _ ↦ 0xffffffff
  flMskIn := fun _ ↦ 0
  mpKeyIn := 0
  mpFldMskIn := fun k ↦ if k = 0 then 0xffffffff else 0
  mpFldSftIn := fun k ↦ if k = 0 then -32 else 0
  mpFldLmtIn := fun _ ↦ 0xffffffff

theorem not_documented_shiftOut : ¬ Documented shiftOut 1 := by
  decide +kernel

end PktAssembler

namespace EvtPipe

open Clocked PktAssembler

def docEvent : Config × Word → Option Packet
  | (c, evt) => if DocDropped c evt then none else some (assemble (docKey c evt))

theorem mapEvent_eq_docEvent {c : Config} {evt : Word} (h : Documented c evt) :
    mapEvent (c, evt) = docEvent (c, evt) := by
  by_cases hdoc : DocDropped c evt
  · simp [mapEvent, docEvent, hdoc, h.1.mpr hdoc]
  · have hrej : rejected c evt = false := by simpa [hdoc] using h.1
    have hkey : mappedDataInt c evt = docKey c evt := by simpa using h.2 hdoc
    simp [mapEvent, docEvent, hdoc, hrej, hkey]

/-- A pipe whose mapper shifts are all above -32 delivers the documented packet
of each event it accepts. -/
theorem transferred_documented (s : State) (ins : List Input)
    (h : ∀ i ∈ ins, ∀ k, i.config.mpFldSftIn k ≠ -32) :
    emit next transferred (reset s) ins ++ held (run next (reset s) ins) =
      (emit next received (reset s) ins).filterMap docEvent := by
  rw [transferred_append_held]
  apply List.filterMap_congr
  intro x hx
  obtain ⟨i, hi, t, hx⟩ := exists_of_mem_emit hx
  have hc : x.1 = i.config := by
    unfold received at hx
    split at hx
    · rw [List.mem_singleton.mp hx]
    · cases hx
  have hshift : NoStuckField x.1 x.2 := .inr fun k hsft ↦ absurd hsft (hc ▸ h i hi k)
  exact mapEvent_eq_docEvent (documented_of_noStuckField hshift)

end EvtPipe

end Spif
