import Spif.Hw.ConfigPath
import Spif.Hw.EvtStream

/-!
# The events that the DMA engine gets

Peripheral packets from SpiNNaker pass the packet receiver, and `evt_dispatcher` distils an
event from each of them with the registers of the distiller that the header names.  This
module follows the events through `dvs_on_hssl_top` to the DMA engine.
-/

namespace Spif.Top

open Clocked RegBank PktReceiver EvtDispatcher

variable {α ρ σ : Type*} {A : ℕ} {p : Parts α ρ σ}

def toDma (p : Parts α ρ σ) (s : State α ρ σ) (i : Input A) : List Word :=
  EvtDispatcher.transferred s.ed (edIn p s i)

def perTaken (p : Parts α ρ σ) (s : State α ρ σ) (i : Input A) : List Packet :=
  PktReceiver.transferred p.prxSwitch .per s.prx (prxIn s i (dcpRdy p s i))

/-- The event of a packet, if it names a distiller that exists. -/
def distil (c : Regs 2) (d : Packet) : Word :=
  if h : d.dis.toNat < RegBank.numDsRegs then
    c (.dsKey ⟨_, h⟩) ||| ((d.key &&& c (.dsMsk ⟨_, h⟩)) >>> c (.dsSft ⟨_, h⟩))
  else 0

def distilled (p : Parts α ρ σ) (s : State α ρ σ) (i : Input A) : List Word :=
  (perTaken p s i).map (distil s.rb.regs)

/-! ## Through receiver and dispatcher -/

theorem perTaken_append_queue (K : Contract p) (s : State α ρ σ) (ins : List (Input A)) :
    emit (next p) (perTaken p) (reset p s) ins ++
        K.prxQueue (run (next p) (reset p s) ins).prx .per =
      (emit (next p) (rxAccepted p) (reset p s) ins).filter fun d ↦ !d.cfg := by
  have hport := port_append_queue K .per s ins
  simp only [accepts_per] at hport
  rw [emit_filter]
  exact hport

theorem accepted_edIn (p : Parts α ρ σ) (s : State α ρ σ) (i : Input A) :
    EvtDispatcher.accepted s.ed (edIn p s i) = distilled p s i := by
  have havail : pktAvailable s.ed (edIn p s i) =
      (p.prxSwitch.outVldOut s.prx (switchIn (prxIn s i (dcpRdy p s i))) .per &&
        swiRdy p.prxSwitch s.prx (prxIn s i (dcpRdy p s i)) .per) := rfl
  rw [EvtDispatcher.accepted, distilled, perTaken, PktReceiver.transferred, havail]
  split <;> rfl

/-- With frame sizes of two or more, the events are those of packets from SpiNNaker, in the
same order. -/
theorem toDma_append_held (s : State α ρ σ) {ins : List (Input A)}
    (hsize : Along (next p) (fun s _ ↦ 2 ≤ (outputSize s).toNat) (reset p s) ins) :
    List.Sublist (emit (next p) (toDma p) (reset p s) ins ++
        held (run (next p) (reset p s) ins).ed)
      (emit (next p) (distilled p) (reset p s) ins) := by
  have hledger := @emit_sublist _ _ _ (next p) (fun s ↦ CreditInv s.ed)
    (fun s _ ↦ 2 ≤ (outputSize s).toNat) (fun s ↦ held s.ed) (distilled p) (toDma p)
    (fun s i hs hi ↦ creditInv_next (i := edIn p s i) hs hi)
    (fun s i hs _ ↦ by
      rw [← accepted_edIn]
      exact ledger_step (frameHasEvent_of_creditInv hs _))
    (reset p s) ins (creditInv_reset s.ed) hsize
  exact hledger

/-! ## Registers that are not written -/

def busReq (i : Input A) : Option Write :=
  if i.apbPsel && i.apbPwrite then
    some ⟨i.apbPaddr.extractLsb' 6 4, i.apbPaddr.extractLsb' 2 4, i.apbPwdata⟩
  else none

theorem merge_inv {I : Regs 2 → Prop} {c : Regs 2} {p? a? : Option Write} (hc : I c)
    (hp : ∀ w ∈ p?, ∀ c, I c → I (applyWrite c w))
    (ha : ∀ w ∈ a?, ∀ c, I c → I (applyWrite c w)) : I (merge c p? a?) := by
  cases p? with
  | none =>
      cases a? with
      | none => exact hc
      | some a => exact ha a rfl c hc
  | some w =>
      cases a? with
      | none => exact hp w rfl c hc
      | some a =>
          rw [merge]
          split
          · rename_i hsoft
            rw [← applyWrite_of_soft hsoft]
            exact ha a rfl c hc
          · exact hp w rfl c hc

/-- What all writes of a cycle preserve, the cycle preserves. -/
theorem regs_inv_next {I : Regs 2 → Prop} {s : State α ρ σ} {i : Input A} (hs : I s.rb.regs)
    (hpkt : ∀ x ∈ taken p s i, ∀ w ∈ writeOf x.1, ∀ c, I c → I (applyWrite c w))
    (hbus : ∀ w ∈ busReq i, ∀ c, I c → I (applyWrite c w)) : I (next p s i).rb.regs := by
  have hregs : (next p s i).rb.regs = regsNext s.rb (rbIn p s i) := rfl
  rw [hregs, regsNext_eq_merge]
  refine merge_inv hs (fun w hw ↦ ?_) hbus
  have hmem : w ∈ (pktWrite (rbIn p s i)).toList := Option.mem_toList.mpr hw
  rw [pktWrite_rbIn] at hmem
  obtain ⟨x, hx, hwrite⟩ := List.mem_filterMap.mp hmem
  exact hpkt x hx w hwrite

end Spif.Top
