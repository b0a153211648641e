import Mathlib.Data.List.Nodup
import Mathlib.Data.List.Range
import Mathlib.Tactic.Common

/-!
# Cameras and their pipes

`usb_sort_pipes` sorts the discovered cameras by serial number and gives them
the pipes from 0 on, in this order.
-/

namespace Spif.Spiffer

inductive DeviceType where
  | CAER
  | META
deriving DecidableEq, Repr

abbrev Serial := List ℕ

/-- `device_params_t`, without the handles. -/
structure DevParams where
  pipe : ℕ
  type : DeviceType
  sn : Serial
deriving DecidableEq, Repr

/-- `strcmp (a, b) > 0` -/
def strcmpGt (a b : Serial) : Bool := decide (b < a)

def swapAt (gt : ℕ → ℕ → Bool) : ℕ → List ℕ → List ℕ
  | 0, x :: y :: l => if gt x y then y :: x :: l else x :: y :: l
  | j + 1, x :: l => x :: swapAt gt j l
  | _, l => l

def bubblePass (gt : ℕ → ℕ → Bool) (n : ℕ) (sorted : List ℕ) : List ℕ :=
  (List.range n).foldl (fun l j ↦ swapAt gt j l) sorted

def bubbleSort (gt : ℕ → ℕ → Bool) (cnt : ℕ) (sorted : List ℕ) : List ℕ :=
  (List.range (cnt - 1)).foldl (fun l i ↦ bubblePass gt (cnt - i - 1) l) sorted

/-- `usb_devs.params[sorted[p]].pipe = p`, from `p` on. -/
def assignPipes : ℕ → List ℕ → List DevParams → List DevParams
  | _, [], params => params
  | p, dv :: sorted, params =>
      assignPipes (p + 1) sorted (params.modify dv fun d ↦ { d with pipe := p })

def snOf (params : List DevParams) (dv : ℕ) : Serial := (params[dv]?.map DevParams.sn).getD []

def sortedDevs (params : List DevParams) : List ℕ :=
  bubbleSort (fun a b ↦ strcmpGt (snOf params a) (snOf params b)) params.length
    (List.range params.length)

def usbSortPipes (params : List DevParams) : List DevParams :=
  assignPipes 0 (sortedDevs params) params

/-! ## The pipes are a permutation -/

variable {gt : ℕ → ℕ → Bool}

theorem swapAt_perm (j : ℕ) (l : List ℕ) : (swapAt gt j l).Perm l := by
  induction j generalizing l with
  | zero =>
      rcases l with _ | ⟨x, _ | ⟨y, l⟩⟩
      · exact List.Perm.refl _
      · exact List.Perm.refl _
      · rw [swapAt]
        split
        · exact List.Perm.swap x y l
        · exact List.Perm.refl _
  | succ j ih =>
      cases l with
      | nil => exact List.Perm.refl _
      | cons x l => exact (ih l).cons x

theorem foldl_perm {f : List ℕ → ℕ → List ℕ} (hf : ∀ l j, (f l j).Perm l) (js l : List ℕ) :
    (js.foldl f l).Perm l := by
  induction js generalizing l with
  | nil => exact List.Perm.refl l
  | cons j js ih => exact (ih (f l j)).trans (hf l j)

theorem sortedDevs_perm (params : List DevParams) :
    (sortedDevs params).Perm (List.range params.length) :=
  foldl_perm (fun l _ ↦ foldl_perm (fun l j ↦ swapAt_perm j l) _ l) _ _

theorem nodup_sortedDevs (params : List DevParams) : (sortedDevs params).Nodup :=
  (sortedDevs_perm params).nodup_iff.mpr List.nodup_range

theorem mem_sortedDevs {params : List DevParams} {dv : ℕ} :
    dv ∈ sortedDevs params ↔ dv < params.length := by
  rw [(sortedDevs_perm params).mem_iff, List.mem_range]

@[simp] theorem length_assignPipes (p : ℕ) (sorted : List ℕ) (params : List DevParams) :
    (assignPipes p sorted params).length = params.length := by
  induction sorted generalizing p params with
  | nil => rfl
  | cons dv sorted ih => simp [assignPipes, ih]

@[simp] theorem length_usbSortPipes (params : List DevParams) :
    (usbSortPipes params).length = params.length :=
  length_assignPipes _ _ _

theorem assignPipes_getElem? (dv : ℕ) (sorted : List ℕ) (hsorted : sorted.Nodup) :
    ∀ (p : ℕ) (params : List DevParams), (assignPipes p sorted params)[dv]? =
      params[dv]?.map fun d ↦
        if dv ∈ sorted then { d with pipe := p + sorted.idxOf dv } else d := by
  induction sorted with
  | nil => simp [assignPipes]
  | cons s sorted ih =>
      intro p params
      obtain ⟨hs, hsorted⟩ := List.nodup_cons.mp hsorted
      rw [assignPipes, ih hsorted]
      by_cases hdv : s = dv
      · subst hdv
        simp [hs, Function.comp_def]
      · have hne : dv ≠ s := fun h ↦ hdv h.symm
        have hidx : (s :: sorted).idxOf dv = sorted.idxOf dv + 1 := List.idxOf_cons_ne _ hdv
        rw [List.getElem?_modify_ne _ _ hdv, hidx]
        simp [hne, Nat.add_assoc, Nat.add_comm 1]

/-- The cameras get the pipes from 0 on, each its own. -/
theorem pipes_usbSortPipes_perm (params : List DevParams) :
    ((usbSortPipes params).map DevParams.pipe).Perm (List.range params.length) := by
  have hperm := sortedDevs_perm params
  have hnodup := nodup_sortedDevs params
  have hpipes : (usbSortPipes params).map DevParams.pipe =
      (List.range params.length).map fun dv ↦ (sortedDevs params).idxOf dv := by
    apply List.ext_getElem?
    intro dv
    rw [List.getElem?_map, usbSortPipes, assignPipes_getElem? dv _ hnodup, List.getElem?_map]
    by_cases hdv : dv < params.length
    · simp [mem_sortedDevs, hdv]
    · simp [hdv]
  have hindex : (sortedDevs params).map (fun dv ↦ (sortedDevs params).idxOf dv) =
      List.range (sortedDevs params).length := by
    apply List.ext_getElem
    · simp
    · intro k hk _
      simpa using hnodup.idxOf_getElem k (by simpa using hk)
  rw [hpipes]
  refine (hperm.map _).symm.trans ?_
  rw [hindex, hperm.length_eq, List.length_range]

end Spif.Spiffer
