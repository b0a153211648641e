import Mathlib.Data.List.FinRange
import Spif.Hw.Packet
import Spif.Lib.Clocked

/-!
# The packet router

`pkt_router` looks a packet's key up in a table of ternary entries, whose hits
are encoded by sixteen `casex` items, and tells the switch which output to use.
A packet that finds its output blocked is dropped after `drop_wait_in` cycles.
-/

namespace Spif.PktRouter

open Clocked

abbrev numRtRegs : ℕ := 16
abbrev numChans : ℕ := 8

structure Table where
  regKeyIn : Fin numRtRegs → Word
  regMaskIn : Fin numRtRegs → Word
  regRouteIn : Fin numRtRegs → BitVec 3

/-! ## Routing -/

section Routing

variable (t : Table) (packetKey : Word)

def hit (te : Fin numRtRegs) : Bool := packetKey &&& t.regMaskIn te == t.regKeyIn te

def hits : BitVec numRtRegs :=
  (BitVec.ofBoolListLE ((List.finRange numRtRegs).map (hit t packetKey))).cast (by simp)

/-- A `casex` item: the bits that are not `x`, their values, and the entry. -/
structure Item where
  care : BitVec numRtRegs
  value : BitVec numRtRegs
  entry : Fin numRtRegs
deriving DecidableEq, Repr

def items : List Item :=
  [⟨0x0001, 0x0001, 0⟩, ⟨0x0003, 0x0002, 1⟩, ⟨0x0007, 0x0004, 2⟩, ⟨0x000f, 0x0008, 3⟩,
    ⟨0x001f, 0x0010, 4⟩, ⟨0x003f, 0x0020, 5⟩, ⟨0x007f, 0x0040, 6⟩, ⟨0x00ff, 0x0080, 7⟩,
    ⟨0x01ff, 0x0100, 8⟩, ⟨0x03ff, 0x0200, 9⟩, ⟨0x07ff, 0x0400, 10⟩, ⟨0x0fff, 0x0800, 11⟩,
    ⟨0x1fff, 0x1000, 12⟩, ⟨0x3fff, 0x2000, 13⟩, ⟨0x7fff, 0x4000, 14⟩, ⟨0xffff, 0x8000, 15⟩]

def Item.isMatch (h : BitVec numRtRegs) (it : Item) : Bool := h &&& it.care == it.value

def route : BitVec 3 :=
  match items.find? (Item.isMatch (hits t packetKey)) with
  | some it => t.regRouteIn it.entry
  | none => 0

def swiRoute : BitVec numChans :=
  if hits t packetKey ≠ 0 then ((1 : BitVec 32) <<< route t packetKey).setWidth numChans else 0

end Routing

/-! ## Dropping -/

structure Input where
  dropWaitIn : Word
  blocked : BitVec numChans

def next (waitCnt : Word) (i : Input) : Word :=
  if waitCnt = 0 ∨ i.blocked = 0 then i.dropWaitIn else waitCnt - 1

def dropPkt (waitCnt : Word) (i : Input) : Bool := i.blocked ≠ 0 && waitCnt == 0

/-! ## The entry that routes a packet -/

/-- Entry `te` is the first one that matches. -/
def FirstHit (t : Table) (packetKey : Word) (te : Fin numRtRegs) : Prop :=
  hit t packetKey te = true ∧ ∀ j < te, hit t packetKey j = false

theorem getLsbD_hits (t : Table) (packetKey : Word) (te : Fin numRtRegs) :
    (hits t packetKey).getLsbD te = hit t packetKey te := by
  rw [hits, BitVec.getLsbD_cast, BitVec.getLsbD_ofBoolListLE, List.getD_eq_getElem?_getD,
    List.getElem?_map, List.getElem?_eq_getElem (by simp), List.getElem_finRange]
  rfl

/-- Item `k` looks at the bits up to `k`, the highest of which is to be set. -/
def item (k : Fin numRtRegs) : Item :=
  ⟨BitVec.ofNat numRtRegs (2 ^ (k.val + 1) - 1), BitVec.twoPow numRtRegs k, k⟩

theorem items_eq : items = (List.finRange numRtRegs).map item := by decide

theorem item_isMatch (h : BitVec numRtRegs) (k : Fin numRtRegs) :
    (item k).isMatch h = true ↔ h.getLsbD k = true ∧ ∀ j < k, h.getLsbD j = false := by
  have hbit (i : ℕ) (hi : i < numRtRegs) : (h &&& (item k).care).getLsbD i =
      (h.getLsbD i && decide (i < k.val + 1)) := by
    rw [BitVec.getLsbD_and, item, BitVec.getLsbD_ofNat, Nat.testBit_two_pow_sub_one]
    simp [hi]
  have hvalue (i : ℕ) : (item k).value.getLsbD i = decide (k.val = i) := by
    rw [item, BitVec.getLsbD_twoPow, decide_eq_true k.isLt, Bool.true_and]
  rw [Item.isMatch, beq_iff_eq, BitVec.eq_of_getLsbD_eq_iff]
  constructor
  · intro heq
    refine ⟨?_, fun j hj ↦ ?_⟩
    · have hk := heq k k.isLt
      rw [hbit k k.isLt, hvalue] at hk
      simpa using hk
    · have hne : k.val ≠ j.val := fun h ↦ absurd hj (by rw [Fin.lt_def, h]; exact lt_irrefl _)
      have hlt : j.val < k.val + 1 := Nat.lt_succ_of_lt hj
      have hj := heq j j.isLt
      rw [hbit j j.isLt, hvalue] at hj
      simpa [hne, hlt] using hj
  · rintro ⟨hk, hlow⟩ i hi
    rw [hbit i hi, hvalue i]
    rcases Nat.lt_trichotomy i k.val with hlt | rfl | hgt
    · have hne : k.val ≠ i := hlt.ne'
      rw [hlow ⟨i, hi⟩ hlt]
      simp [hne]
    · simp [hk]
    · have hne : k.val ≠ i := hgt.ne
      simp [hne]
      omega

theorem firstHit_unique {t : Table} {packetKey : Word} {te te' : Fin numRtRegs}
    (h : FirstHit t packetKey te) (h' : FirstHit t packetKey te') : te = te' := by
  rcases lt_trichotomy te te' with hlt | heq | hgt
  · exact absurd h.1 (by simp [h'.2 te hlt])
  · exact heq
  · exact absurd h'.1 (by simp [h.2 te' hgt])

/-- The `casex` finds the item of the first entry that matches. -/
theorem route_of_firstHit {t : Table} {packetKey : Word} {te : Fin numRtRegs}
    (h : FirstHit t packetKey te) : route t packetKey = t.regRouteIn te := by
  have hmatch (k : Fin numRtRegs) :
      (item k).isMatch (hits t packetKey) = true ↔ FirstHit t packetKey k := by
    simp only [item_isMatch, getLsbD_hits, FirstHit]
  rw [route, items_eq, List.find?_map]
  cases hfind : (List.finRange numRtRegs).find? (Item.isMatch (hits t packetKey) ∘ item) with
  | none => exact absurd ((hmatch te).mpr h) (List.find?_eq_none.mp hfind te (List.mem_finRange te))
  | some k =>
      have hk : (Item.isMatch (hits t packetKey) ∘ item) k = true := List.find?_some hfind
      rw [firstHit_unique h ((hmatch k).mp hk)]
      rfl

theorem exists_firstHit {t : Table} {packetKey : Word} {te : Fin numRtRegs}
    (h : hit t packetKey te = true) : ∃ k, FirstHit t packetKey k := by
  induction te using WellFoundedLT.induction with
  | ind te ih =>
      by_cases hfirst : ∀ j < te, hit t packetKey j = false
      · exact ⟨te, h, hfirst⟩
      · obtain ⟨j, hj⟩ := not_forall.mp hfirst
        obtain ⟨hlt, hne⟩ := Classical.not_imp.mp hj
        exact ih j hlt (Bool.eq_true_of_not_eq_false hne)

theorem hits_eq_zero_iff {t : Table} {packetKey : Word} :
    hits t packetKey = 0 ↔ ∀ te, hit t packetKey te = false := by
  rw [BitVec.eq_of_getLsbD_eq_iff]
  constructor
  · intro h te
    rw [← getLsbD_hits, h te te.isLt]
    exact BitVec.getLsbD_zero
  · intro h i hi
    rw [getLsbD_hits t packetKey ⟨i, hi⟩, h]
    exact BitVec.getLsbD_zero.symm

theorem swiRoute_of_firstHit {t : Table} {packetKey : Word} {te : Fin numRtRegs}
    (h : FirstHit t packetKey te) :
    swiRoute t packetKey = BitVec.twoPow numChans (t.regRouteIn te).toNat := by
  have hne : hits t packetKey ≠ 0 := by
    intro hzero
    cases (hits_eq_zero_iff.mp hzero te).symm.trans h.1
  rw [swiRoute, if_pos hne, route_of_firstHit h]
  generalize t.regRouteIn te = rt
  revert rt
  decide

theorem swiRoute_of_no_hit {t : Table} {packetKey : Word}
    (h : ∀ te, hit t packetKey te = false) : swiRoute t packetKey = 0 :=
  if_neg (not_not.mpr (hits_eq_zero_iff.mpr h))

/-- The switch gets the route of the first entry that matches, one-hot, and nothing
at all when none does. -/
theorem first_match (t : Table) (packetKey : Word) :
    (∀ te, packetKey &&& t.regMaskIn te = t.regKeyIn te →
      (∀ j < te, packetKey &&& t.regMaskIn j ≠ t.regKeyIn j) →
        ∀ c < numChans,
          (swiRoute t packetKey).getLsbD c = true ↔ c = (t.regRouteIn te).toNat) ∧
      (swiRoute t packetKey = 0 ↔ ∀ te, packetKey &&& t.regMaskIn te ≠ t.regKeyIn te) ∧
      ∀ te, t.regKeyIn te &&& ~~~ t.regMaskIn te ≠ 0 →
        packetKey &&& t.regMaskIn te ≠ t.regKeyIn te := by
  have hhit (te : Fin numRtRegs) :
      hit t packetKey te = false ↔ packetKey &&& t.regMaskIn te ≠ t.regKeyIn te := by
    simp [hit]
  refine ⟨fun te hmatch hfirst c hc ↦ ?_, ?_, ?_⟩
  · have hte : FirstHit t packetKey te :=
      ⟨beq_iff_eq.mpr hmatch, fun j hj ↦ (hhit j).mpr (hfirst j hj)⟩
    rw [swiRoute_of_firstHit hte, BitVec.getLsbD_twoPow]
    simp only [Bool.and_eq_true, decide_eq_true_eq]
    constructor
    · exact fun h ↦ h.2.symm
    · rintro rfl
      exact ⟨hc, rfl⟩
  · constructor
    · intro hzero te hmatch
      obtain ⟨k, hk⟩ := exists_firstHit (beq_iff_eq.mpr hmatch)
      rw [swiRoute_of_firstHit hk] at hzero
      generalize t.regRouteIn k = rt at hzero
      revert rt
      decide
    · exact fun h ↦ swiRoute_of_no_hit fun te ↦ (hhit te).mpr (h te)
  · intro te hbit hmatch
    apply hbit
    rw [← hmatch, BitVec.and_assoc, BitVec.and_not_self]
    exact BitVec.and_zero

/-- Entries 1 and 2 both match; their routes are 5 and 6. -/
def overlap : Table where
  regKeyIn te := if te = 1 ∨ te = 2 then 0x1200 else 0xffffffff
  regMaskIn te := if te = 1 then 0xff00 else if te = 2 then 0xf200 else 0
  regRouteIn te := if te = 1 then 5 else 6

theorem first_match_overlap : (swiRoute overlap 0x1234).getLsbD 5 = true :=
  ((first_match overlap 0x1234).1 1 rfl (by decide) 5 (by decide)).mpr rfl

/-! ## The wait before a packet is dropped -/

section Waiting

variable (dropWait : Word) (blocked : ℕ → BitVec numChans)

def inputs (n : ℕ) : Input := ⟨dropWait, blocked n⟩

/-- `wait_cnt` in cycle `n` after reset. -/
def waitCnt (n : ℕ) : Word := trace next 0 (inputs dropWait blocked) n

def Drops (n : ℕ) : Prop := dropPkt (waitCnt dropWait blocked n) (inputs dropWait blocked n) = true

/-- Counting starts anew after a cycle in which nothing is blocked or a packet is
dropped. -/
def Restarts (n : ℕ) : Prop := blocked n = 0 ∨ Drops dropWait blocked n

variable {dropWait blocked} {n : ℕ}

theorem drops_iff_waitCnt : Drops dropWait blocked n ↔
    blocked n ≠ 0 ∧ waitCnt dropWait blocked n = 0 :=
  Bool.and_eq_true_iff.trans (and_congr decide_eq_true_iff beq_iff_eq)

theorem waitCnt_succ_of_restarts (h : Restarts dropWait blocked n) :
    waitCnt dropWait blocked (n + 1) = dropWait := by
  apply if_pos
  rcases h with hfree | hdrop
  · exact .inr hfree
  · exact .inl (drops_iff_waitCnt.mp hdrop).2

theorem waitCnt_succ_of_not_restarts (h : ¬ Restarts dropWait blocked n) :
    waitCnt dropWait blocked n ≠ 0 ∧
      waitCnt dropWait blocked (n + 1) = waitCnt dropWait blocked n - 1 := by
  obtain ⟨hblocked, hdrop⟩ := not_or.mp h
  have hcnt : waitCnt dropWait blocked n ≠ 0 := fun hzero ↦
    hdrop (drops_iff_waitCnt.mpr ⟨hblocked, hzero⟩)
  exact ⟨hcnt, if_neg (not_or.mpr ⟨hcnt, hblocked⟩)⟩

/-- The counter holds what is left of the wait. -/
theorem waitCnt_eq (dropWait : Word) {n₀ : ℕ} (h₀ : blocked n₀ = 0) (hn : n₀ < n) :
    ∃ m, LastBefore (Restarts dropWait blocked) n m ∧
      n + (waitCnt dropWait blocked n).toNat = m + 1 + dropWait.toNat := by
  refine exists_lastBefore (Q := fun n m ↦
    n + (waitCnt dropWait blocked n).toNat = m + 1 + dropWait.toNat)
    (fun n h ↦ ?_) (fun n m _ h hcnt ↦ ?_) (.inl h₀) hn
  · rw [waitCnt_succ_of_restarts h]
  · obtain ⟨hne, hsucc⟩ := waitCnt_succ_of_not_restarts h
    have hpos : (waitCnt dropWait blocked n).toNat ≠ 0 :=
      fun hzero ↦ hne (BitVec.eq_of_toNat_eq hzero)
    have hle : (1 : Word) ≤ waitCnt dropWait blocked n := Nat.one_le_iff_ne_zero.mpr hpos
    rw [hsucc, BitVec.toNat_sub_of_le hle]
    change n + 1 + ((waitCnt dropWait blocked n).toNat - 1) = _
    omega

/-- A packet is dropped in the cycle that is the `dropWait + 1`-st blocked one in a
row since nothing was blocked or a packet was dropped. -/
theorem drops_iff (dropWait : Word) {n₀ : ℕ} (h₀ : blocked n₀ = 0) (hn : n₀ ≤ n) :
    Drops dropWait blocked n ↔ blocked n ≠ 0 ∧
      ∃ m, LastBefore (Restarts dropWait blocked) n m ∧ n = m + (dropWait.toNat + 1) := by
  rw [drops_iff_waitCnt]
  apply and_congr_right
  intro hblocked
  have hlt : n₀ < n := by
    apply Nat.lt_of_le_of_ne hn
    rintro rfl
    exact hblocked h₀
  obtain ⟨m, hlast, hcnt⟩ := waitCnt_eq dropWait h₀ hlt
  have hzero : waitCnt dropWait blocked n = 0 ↔ (waitCnt dropWait blocked n).toNat = 0 :=
    BitVec.toNat_inj.symm
  rw [hzero]
  constructor
  · intro h
    exact ⟨m, hlast, by omega⟩
  · rintro ⟨m', hlast', hrun⟩
    obtain rfl := hlast.unique hlast'
    omega

end Waiting

/-- With a wait of two cycles, the third blocked cycle after cycle 0 drops. -/
theorem drops_iff_third :
    Drops 2 (fun n ↦ if n = 0 then 0 else 1) 3 ↔ (1 : BitVec 8) ≠ 0 ∧
      ∃ m, LastBefore (Restarts 2 fun n ↦ if n = 0 then 0 else 1) 3 m ∧ 3 = m + (2 + 1) :=
  have hfree : (fun n ↦ if n = 0 then 0 else 1 : ℕ → BitVec numChans) 0 = 0 := rfl
  drops_iff 2 hfree (Nat.zero_le 3)

end Spif.PktRouter
