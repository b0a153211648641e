import Mathlib.Tactic.Common
import Mathlib.Tactic.Ring
import Mathlib.Tactic.Positivity

/-!
# Pipe buffers

The reserved memory is split between the pipes: each gets an input and an output
buffer of `pmem_sz` bytes.  A pipe's DMA channel works on its buffers, and the
user library maps them.
-/

namespace Spif.Driver

abbrev pageSize : ℕ := 4096

/-- Reserved memory of whole pages, for `unsigned long` addresses of `w` bits. -/
structure Region (w : ℕ) where
  start : ℕ
  size : ℕ
  start_page : pageSize ∣ start
  size_page : pageSize ∣ size
  pos : 0 < size
  fits : start + size ≤ 2 ^ w

namespace Region

variable {w : ℕ} (r : Region w) (n : ℕ)

/-- An `unsigned int`. -/
def rsvdSz : ℕ := r.size % 2 ^ 32

/-- A division by zero, which is undefined in the source, is 0. -/
def pmemSz : ℕ := r.rsvdSz / (2 * n)

/-- The loop of `spif_pipes_init`: `pmem_pa = pmem_pa + (2 * pmem_sz)`. -/
def pmemPa : ℕ → ℕ
  | 0 => r.start
  | i + 1 => (pmemPa i + 2 * r.pmemSz n % 2 ^ 32) % 2 ^ w

/-- What `spif_open` writes to the start address register, a `uint`. -/
def dmacSa (i : ℕ) : ℕ := r.pmemPa n i % 2 ^ 32

/-- Where the mapping of `vsize` bytes starts, if `spif_mmap` accepts it. -/
def spifMmap (i vsize : ℕ) : Option ℕ :=
  if vsize > 2 * r.pmemSz n % 2 ^ 32 then none
  else some (r.pmemPa n i / pageSize * pageSize)

/-- The length that the user library asks for, unless its `int` overflows. -/
def mmapLength : Option ℕ :=
  if 2 * r.pmemSz n < 2 ^ 31 then some (2 * r.pmemSz n) else none

/-- The kernel rounds a length up to pages, and refuses length 0. -/
def vmaSize (len : ℕ) : Option ℕ :=
  if len = 0 then none else some ((len + (pageSize - 1)) / pageSize * pageSize)

structure Isolated (i : ℕ) : Prop where
  mapped : ∀ k start, 0 < k → r.spifMmap n i (k * pageSize) = some start →
    start = r.dmacSa n i ∧ start = r.pmemPa n i ∧
      start + k * pageSize ≤ r.pmemPa n i + 2 * r.pmemSz n
  within : r.start ≤ r.pmemPa n i ∧ r.pmemPa n i + 2 * r.pmemSz n ≤ r.start + r.size
  requested : ∃ start,
    ((r.mmapLength n).bind vmaSize).bind (r.spifMmap n i) = some start

/-- Each pipe gets a positive number of whole pages, less than 2 GB of them, and
the last pipe starts below 4 GB. -/
def PageSplit : Prop :=
  let bytes := 2 * (r.size % 2 ^ 32 / (2 * n))
  0 < bytes ∧ pageSize ∣ bytes ∧ bytes < 2 ^ 31 ∧ r.start + (n - 1) * bytes < 2 ^ 32

variable {r n}

theorem share_le : n * (2 * r.pmemSz n) ≤ r.size := by
  calc n * (2 * r.pmemSz n) = r.rsvdSz / (2 * n) * (2 * n) := by rw [pmemSz]; ring
    _ ≤ r.rsvdSz := Nat.div_mul_le_self _ _
    _ ≤ r.size := Nat.mod_le _ _

/-- The product does not overflow an `unsigned int`. -/
theorem share_mod (r : Region w) (n : ℕ) : 2 * r.pmemSz n % 2 ^ 32 = 2 * r.pmemSz n := by
  apply Nat.mod_eq_of_lt
  have hsz : r.rsvdSz < 2 ^ 32 := Nat.mod_lt _ (by positivity)
  rcases Nat.eq_zero_or_pos n with rfl | hn
  · simp [pmemSz]
  · have hdiv : r.pmemSz n ≤ r.rsvdSz / 2 :=
      Nat.div_le_div_left (by omega) (by decide)
    omega

theorem share_fits {i : ℕ} (hi : i < n) :
    r.start + i * (2 * r.pmemSz n) + 2 * r.pmemSz n ≤ r.start + r.size := by
  have hmul : (i + 1) * (2 * r.pmemSz n) ≤ n * (2 * r.pmemSz n) := Nat.mul_le_mul_right _ hi
  have hle := share_le (r := r) (n := n)
  have hsucc : (i + 1) * (2 * r.pmemSz n) = i * (2 * r.pmemSz n) + 2 * r.pmemSz n := by ring
  omega

theorem pmemPa_eq {i : ℕ} (hi : i < n) : r.pmemPa n i = r.start + i * (2 * r.pmemSz n) := by
  induction i with
  | zero => simp [pmemPa]
  | succ i ih =>
      have hlt : r.start + i * (2 * r.pmemSz n) + 2 * r.pmemSz n < 2 ^ w := by
        have hfits := share_fits (r := r) hi
        have hpos := r.pos
        have hregion := r.fits
        have hsucc : (i + 1) * (2 * r.pmemSz n) = i * (2 * r.pmemSz n) + 2 * r.pmemSz n := by
          ring
        rcases Nat.eq_zero_or_pos (2 * r.pmemSz n) with hzero | hshare
        · rw [hzero]
          omega
        · omega
      rw [pmemPa, ih (Nat.lt_of_succ_lt hi), share_mod, Nat.mod_eq_of_lt hlt]
      ring

theorem spifMmap_eq_some {i vsize start : ℕ} (hi : i < n) :
    r.spifMmap n i vsize = some start ↔ vsize ≤ 2 * r.pmemSz n ∧
      (r.start + i * (2 * r.pmemSz n)) / pageSize * pageSize = start := by
  rw [spifMmap, share_mod, pmemPa_eq hi]
  by_cases h : 2 * r.pmemSz n < vsize
  · simp [h]
  · simp [h, not_lt.mp h]

theorem spifMmap_isSome {i vsize : ℕ} :
    (∃ start, r.spifMmap n i vsize = some start) ↔ vsize ≤ 2 * r.pmemSz n := by
  rw [spifMmap, share_mod]
  by_cases h : 2 * r.pmemSz n < vsize
  · simp [h]
  · simp [h, not_lt.mp h]

/-- Of a length that is not a multiple of the page size, the last page is too long. -/
theorem vmaSize_le_iff {len : ℕ} :
    (∃ vsize, vmaSize len = some vsize ∧ vsize ≤ len) ↔ 0 < len ∧ pageSize ∣ len := by
  unfold vmaSize pageSize
  rcases Nat.eq_zero_or_pos len with rfl | hpos
  · simp
  · simp only [hpos.ne', if_false, Option.some.injEq, exists_eq_left', hpos, true_and]
    omega

theorem requested_iff {i : ℕ} :
    (∃ start, ((r.mmapLength n).bind vmaSize).bind (r.spifMmap n i) = some start) ↔
      2 * r.pmemSz n < 2 ^ 31 ∧ 0 < 2 * r.pmemSz n ∧ pageSize ∣ 2 * r.pmemSz n := by
  rw [← vmaSize_le_iff, mmapLength]
  by_cases hint : 2 * r.pmemSz n < 2 ^ 31
  · simp only [hint, if_true, Option.bind_some, Option.bind_eq_some_iff, true_and]
    constructor
    · rintro ⟨start, vsize, hv, hs⟩
      exact ⟨vsize, hv, spifMmap_isSome.mp ⟨start, hs⟩⟩
    · rintro ⟨vsize, hv, hle⟩
      obtain ⟨start, hs⟩ := spifMmap_isSome.mpr hle
      exact ⟨start, vsize, hv, hs⟩
  · simp only [hint, if_false, Option.bind_none, false_and, reduceCtorEq, exists_false]

theorem isolated_iff {i : ℕ} (hi : i < n) : r.Isolated n i ↔
    (0 < 2 * r.pmemSz n ∧ pageSize ∣ 2 * r.pmemSz n ∧ 2 * r.pmemSz n < 2 ^ 31) ∧
      r.start + i * (2 * r.pmemSz n) < 2 ^ 32 := by
  constructor
  · rintro ⟨hmapped, -, hreq⟩
    obtain ⟨hint, hpos, hpage⟩ := requested_iff.mp hreq
    refine ⟨⟨hpos, hpage, hint⟩, ?_⟩
    -- the first page alone shows the address given to the DMA channel
    have hone : 1 * pageSize ≤ 2 * r.pmemSz n := by
      simpa using Nat.le_of_dvd hpos hpage
    obtain ⟨start, hstart⟩ := spifMmap_isSome.mpr hone
    obtain ⟨hdmac, hpa, -⟩ := hmapped 1 start one_pos hstart
    rw [← pmemPa_eq hi, ← hpa, hdmac]
    exact Nat.mod_lt _ (by positivity)
  · rintro ⟨⟨hpos, hpage, hint⟩, hlow⟩
    have hfits := share_fits (r := r) hi
    refine ⟨fun k start _ hstart ↦ ?_, ?_, requested_iff.mpr ⟨hint, hpos, hpage⟩⟩
    · obtain ⟨hle, hpage'⟩ := (spifMmap_eq_some hi).mp hstart
      have haligned : pageSize ∣ r.start + i * (2 * r.pmemSz n) :=
        Nat.dvd_add r.start_page (Dvd.dvd.mul_left hpage i)
      rw [Nat.div_mul_cancel haligned] at hpage'
      rw [dmacSa, pmemPa_eq hi, Nat.mod_eq_of_lt hlow]
      omega
    · rw [pmemPa_eq hi]
      omega

theorem pmemPa_disjoint {i j : ℕ} (hij : i < j) (hj : j < n) :
    r.pmemPa n i + 2 * r.pmemSz n ≤ r.pmemPa n j := by
  rw [pmemPa_eq hj, pmemPa_eq (hij.trans hj)]
  have hmul : (i + 1) * (2 * r.pmemSz n) ≤ j * (2 * r.pmemSz n) := Nat.mul_le_mul_right _ hij
  have hsucc : (i + 1) * (2 * r.pmemSz n) = i * (2 * r.pmemSz n) + 2 * r.pmemSz n := by ring
  omega

theorem all_isolated_iff (r : Region w) {n : ℕ} (hn : 0 < n) :
    (∀ i < n, r.Isolated n i) ↔ r.PageSplit n := by
  constructor
  · intro h
    obtain ⟨⟨hpos, hpage, hint⟩, hlow⟩ :=
      (isolated_iff (Nat.sub_lt hn one_pos)).mp (h (n - 1) (Nat.sub_lt hn one_pos))
    exact ⟨hpos, hpage, hint, hlow⟩
  · rintro ⟨hpos, hpage, hint, hlow⟩ i hi
    refine (isolated_iff hi).mpr ⟨⟨hpos, hpage, hint⟩, lt_of_le_of_lt ?_ hlow⟩
    exact Nat.add_le_add_left (Nat.mul_le_mul_right _ (Nat.le_pred_of_lt hi)) _

/-- The region of the example device tree. -/
def spifReserved : Region 32 where
  start := 0x3fffc000
  size := 0x4000
  start_page := by decide
  size_page := by decide
  pos := by decide
  fits := by decide

theorem all_isolated_spifReserved :
    (∀ i < 2, spifReserved.Isolated 2 i) ↔ spifReserved.PageSplit 2 :=
  all_isolated_iff spifReserved (by decide)

/-- With three pipes the mapping of the second one begins in the first one's buffers. -/
theorem not_all_isolated_spifReserved : ¬ ∀ i < 3, spifReserved.Isolated 3 i := by
  intro h
  have hmap : spifReserved.spifMmap 3 1 (1 * pageSize) = some 0x3fffd000 := by decide
  have hpa := ((h 1 (by decide)).mapped 1 _ one_pos hmap).2.1
  exact absurd hpa (by decide)

end Region

end Spif.Driver
