import Mathlib.Data.BitVec
import Mathlib.Tactic.Common

/-!
# SpiNNaker packets

The packets exchanged with SpiNNaker are 72 bits long: an 8-bit header, a
32-bit key and a 32-bit payload, from the least significant bit upwards.  The
bit positions are the local parameters shared by `evt_dispatcher`,
`pkt_assembler` and `pkt_receiver`.
-/

namespace Spif

abbrev Word := BitVec 32

abbrev Packet := BitVec 72

namespace Packet

/-- `{payload, key, header}` -/
def mk (pld key : Word) (hdr : BitVec 8) : Packet := pld ++ key ++ hdr

def hdr (p : Packet) : BitVec 8 := p.extractLsb' 0 8

def key (p : Packet) : Word := p.extractLsb' 8 32

def pld (p : Packet) : Word := p.extractLsb' 40 32

/-- `PKT_LNG_BIT`: the packet carries a payload. -/
def lng (p : Packet) : Bool := p.getLsbD 1

/-- `PKT_CFG_BIT`: the packet is a configuration packet. -/
def cfg (p : Packet) : Bool := p.getLsbD 4

/-- Bits `PKT_DIS_BIT +: PKT_DIS_SZ`: the distiller the packet was routed by. -/
def dis (p : Packet) : BitVec 3 := p.extractLsb' 5 3

theorem getLsbD_mk (pld key : Word) (h : BitVec 8) (i : ℕ) :
    (mk pld key h).getLsbD i = if i < 8 then h.getLsbD i
      else if i < 40 then key.getLsbD (i - 8) else pld.getLsbD (i - 40) := by
  have houter : (mk pld key h).getLsbD i =
      if i < 8 then h.getLsbD i else (pld ++ key).getLsbD (i - 8) :=
    BitVec.getLsbD_append
  rw [houter, BitVec.getLsbD_append]
  have hlt : i - 8 < 32 ↔ i < 40 := by omega
  have hsub : i - 8 - 32 = i - 40 := by omega
  simp only [hlt, hsub]

@[simp] theorem key_mk (pld k : Word) (h : BitVec 8) : (mk pld k h).key = k := by
  apply BitVec.eq_of_getLsbD_eq
  intro i hi
  have h40 : 8 + i < 40 := by omega
  simp [key, getLsbD_mk, hi, h40]

@[simp] theorem pld_mk (p k : Word) (h : BitVec 8) : (mk p k h).pld = p := by
  apply BitVec.eq_of_getLsbD_eq
  intro i hi
  have h8 : ¬ 40 + i < 8 := by omega
  have h40 : ¬ 40 + i < 40 := by omega
  simp [pld, getLsbD_mk, hi, h8, h40]

@[simp] theorem lng_mk (pld k : Word) (h : BitVec 8) :
    (mk pld k h).lng = h.getLsbD 1 := by
  rw [lng, getLsbD_mk, if_pos (by decide)]

@[simp] theorem cfg_mk (pld k : Word) (h : BitVec 8) :
    (mk pld k h).cfg = h.getLsbD 4 := by
  rw [cfg, getLsbD_mk, if_pos (by decide)]

end Packet

end Spif
