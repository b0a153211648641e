import Mathlib.Data.List.Lex
import Mathlib.Data.List.Perm.Basic
import Spif.Lib.Ranks
import Spif.Spiffer.SortPipes

/-!
# The order of the pipes

`usb_sort_pipes` sorts the device numbers, not the devices, and in place.  The pipe of
a device is its rank by serial number, so that each camera has the same pipe whatever
the order in which the cameras are discovered.
-/

namespace Spif.Spiffer

open Ranks

/-! ## The bubble sort -/

section BubbleSort

variable {gt : ℕ → ℕ → Bool}

theorem bubblePass_perm (gt : ℕ → ℕ → Bool) (n : ℕ) (l : List ℕ) :
    (bubblePass gt n l).Perm l :=
  foldl_perm (fun l j ↦ swapAt_perm j l) _ l

theorem foldl_swapAt_cons (js : List ℕ) (x : ℕ) (l : List ℕ) :
    (js.map Nat.succ).foldl (fun l j ↦ swapAt gt j l) (x :: l) =
      x :: js.foldl (fun l j ↦ swapAt gt j l) l := by
  induction js generalizing l with
  | nil => rfl
  | cons j js ih => exact ih (swapAt gt j l)

/-- A pass carries the greater one of the first two elements on. -/
theorem bubblePass_succ (n x y : ℕ) (l : List ℕ) :
    bubblePass gt (n + 1) (x :: y :: l) =
      if gt x y then y :: bubblePass gt n (x :: l) else x :: bubblePass gt n (y :: l) := by
  rw [bubblePass, List.range_succ_eq_map, List.foldl_cons, swapAt]
  split
  · exact foldl_swapAt_cons _ y (x :: l)
  · exact foldl_swapAt_cons _ x (y :: l)

theorem swapAt_pairwise {S : ℕ → ℕ → Prop} (hS : ∀ x y, gt x y = true → S y x) (j : ℕ)
    {l : List ℕ} (h : l.Pairwise S) : (swapAt gt j l).Pairwise S := by
  induction j generalizing l with
  | zero =>
      rcases l with _ | ⟨x, _ | ⟨y, l⟩⟩
      · exact h
      · exact h
      · rw [swapAt]
        split
        · rename_i hgt
          obtain ⟨hx, hrest⟩ := List.pairwise_cons.mp h
          obtain ⟨hy, hl⟩ := List.pairwise_cons.mp hrest
          refine List.pairwise_cons.mpr ⟨?_, List.pairwise_cons.mpr ⟨?_, hl⟩⟩
          · rintro z hz
            rcases List.mem_cons.mp hz with rfl | hz
            · exact hS _ _ hgt
            · exact hy z hz
          · exact fun z hz ↦ hx z (List.mem_cons_of_mem y hz)
        · exact h
  | succ j ih =>
      cases l with
      | nil => exact h
      | cons x l =>
          obtain ⟨hx, hl⟩ := List.pairwise_cons.mp h
          refine List.pairwise_cons.mpr ⟨fun z hz ↦ hx z ?_, ih hl⟩
          exact (swapAt_perm j l).mem_iff.mp hz

theorem bubbleSort_pairwise {S : ℕ → ℕ → Prop} (hS : ∀ x y, gt x y = true → S y x) (cnt : ℕ)
    {l : List ℕ} (h : l.Pairwise S) : (bubbleSort gt cnt l).Pairwise S :=
  List.foldlRecOn _ _ h fun _ hl _ _ ↦
    List.foldlRecOn _ _ hl fun _ hl j _ ↦ swapAt_pairwise hS j hl

variable {κ : Type*} [LinearOrder κ] {key : ℕ → κ}

theorem key_le_of_perm {x m : ℕ} {pre pre' : List ℕ} (hperm : (pre' ++ [m]).Perm (x :: pre))
    (hmax : ∀ y ∈ pre', key y ≤ key m) : key x ≤ key m := by
  have hx : x ∈ pre' ++ [m] := hperm.mem_iff.mpr List.mem_cons_self
  rcases List.mem_append.mp hx with hx | hx
  · exact hmax x hx
  · rw [List.mem_singleton.mp hx]

/-- A pass over `n + 1` elements leaves their maximum in the last place. -/
theorem bubblePass_append (hgt : ∀ x y, gt x y = true ↔ key y < key x) (suf : List ℕ) {n : ℕ} :
    ∀ {pre : List ℕ}, pre.length = n + 1 → ∃ pre' m,
      bubblePass gt n (pre ++ suf) = pre' ++ m :: suf ∧ (pre' ++ [m]).Perm pre ∧
        ∀ x ∈ pre', key x ≤ key m := by
  induction n with
  | zero =>
      intro pre hlen
      obtain ⟨x, rfl⟩ := List.length_eq_one_iff.mp hlen
      exact ⟨[], x, rfl, List.Perm.refl _, by simp⟩
  | succ n ih =>
      intro pre hlen
      obtain _ | ⟨x, _ | ⟨y, pre⟩⟩ := pre
      · cases hlen
      · cases hlen
      · simp only [List.length_cons, Nat.add_right_cancel_iff] at hlen
        rw [List.cons_append, List.cons_append, bubblePass_succ]
        split
        · rename_i hswap
          obtain ⟨pre', m, heq, hperm, hmax⟩ := ih (show (x :: pre).length = n + 1 by simp [hlen])
          refine ⟨y :: pre', m, by rw [← List.cons_append, heq]; rfl, ?_, ?_⟩
          · exact (hperm.cons y).trans (List.Perm.swap x y pre)
          · intro z hz
            rcases List.mem_cons.mp hz with rfl | hz
            · exact ((hgt _ _).mp hswap).le.trans (key_le_of_perm hperm hmax)
            · exact hmax z hz
        · rename_i hkeep
          obtain ⟨pre', m, heq, hperm, hmax⟩ := ih (show (y :: pre).length = n + 1 by simp [hlen])
          refine ⟨x :: pre', m, by rw [← List.cons_append, heq]; rfl, hperm.cons x, ?_⟩
          intro z hz
          rcases List.mem_cons.mp hz with rfl | hz
          · exact (not_lt.mp fun hlt ↦ hkeep ((hgt _ _).mpr hlt)).trans (key_le_of_perm hperm hmax)
          · exact hmax z hz

/-- After `i` passes the last `i` elements are in their places. -/
def Bubbled (key : ℕ → κ) (i : ℕ) (l : List ℕ) : Prop :=
  ∃ pre suf, l = pre ++ suf ∧ suf.length = i ∧ suf.Pairwise (fun x y ↦ key x ≤ key y) ∧
    ∀ x ∈ pre, ∀ y ∈ suf, key x ≤ key y

theorem Bubbled.pass (hgt : ∀ x y, gt x y = true ↔ key y < key x) {i : ℕ} {l : List ℕ}
    (h : Bubbled key i l) (hi : i < l.length) :
    Bubbled key (i + 1) (bubblePass gt (l.length - i - 1) l) := by
  obtain ⟨pre, suf, rfl, rfl, hsorted, hbelow⟩ := h
  rw [List.length_append] at hi ⊢
  have hlen : pre.length = pre.length + suf.length - suf.length - 1 + 1 := by omega
  obtain ⟨pre', m, heq, hperm, hmax⟩ := bubblePass_append hgt suf hlen
  have hmem : ∀ x ∈ pre' ++ [m], x ∈ pre := fun x hx ↦ hperm.mem_iff.mp hx
  refine ⟨pre', m :: suf, heq, rfl, List.pairwise_cons.mpr ⟨fun y hy ↦ ?_, hsorted⟩, ?_⟩
  · exact hbelow m (hmem m (by simp)) y hy
  · intro x hx y hy
    rcases List.mem_cons.mp hy with rfl | hy
    · exact hmax x hx
    · exact hbelow x (hmem x (List.mem_append_left _ hx)) y hy

theorem bubbled_passes (hgt : ∀ x y, gt x y = true ↔ key y < key x) (l : List ℕ) {k : ℕ}
    (hk : k ≤ l.length - 1) :
    Bubbled key k ((List.range k).foldl (fun l' i ↦ bubblePass gt (l.length - i - 1) l') l) := by
  induction k with
  | zero => exact ⟨l, [], by simp, rfl, List.Pairwise.nil, by simp⟩
  | succ k ih =>
      have hperm := foldl_perm (fun l' i ↦ bubblePass_perm gt (l.length - i - 1) l')
        (List.range k) l
      have hpass := (ih (by omega)).pass hgt (by rw [hperm.length_eq]; omega)
      rw [hperm.length_eq] at hpass
      rwa [List.range_succ, List.foldl_append, List.foldl_cons, List.foldl_nil]

theorem bubbleSort_sorted (hgt : ∀ x y, gt x y = true ↔ key y < key x) (l : List ℕ) :
    (bubbleSort gt l.length l).Pairwise fun x y ↦ key x ≤ key y := by
  have hlen : (bubbleSort gt l.length l).length = l.length :=
    (foldl_perm (fun l' i ↦ bubblePass_perm gt (l.length - i - 1) l') _ l).length_eq
  obtain ⟨pre, suf, heq, hsuf, hsorted, hbelow⟩ := bubbled_passes hgt l le_rfl
  change bubbleSort gt l.length l = pre ++ suf at heq
  rw [heq] at hlen ⊢
  rw [List.length_append] at hlen
  refine List.pairwise_append.mpr ⟨?_, hsorted, hbelow⟩
  -- at most one element is left
  obtain _ | ⟨x, _ | ⟨y, pre⟩⟩ := pre
  · exact List.Pairwise.nil
  · exact List.pairwise_singleton _ _
  · simp only [List.length_cons] at hlen
    omega

end BubbleSort

/-! ## The pipe of a device -/

theorem strcmpGt_iff {a b : Serial} : strcmpGt a b = true ↔ b < a := decide_eq_true_iff

variable (params : List DevParams)

/-- The devices are sorted by serial number, and equal ones as they were discovered. -/
theorem sortedDevs_pairwise : (sortedDevs params).Pairwise (Before (snOf params)) := by
  have hgt : ∀ a b, strcmpGt (snOf params a) (snOf params b) = true ↔
      snOf params b < snOf params a := fun _ _ ↦ strcmpGt_iff
  have hsorted := bubbleSort_sorted hgt (List.range params.length)
  rw [List.length_range] at hsorted
  refine pairwise_before hsorted (bubbleSort_pairwise ?_ _ ?_)
  · intro x y hgt heq
    exact absurd heq (strcmpGt_iff.mp hgt).ne
  · apply List.pairwise_lt_range.imp
    intro a b hlt
    exact fun _ ↦ hlt

def rank (dv : ℕ) : ℕ :=
  (List.range params.length).countP fun b ↦ Before (snOf params) b dv

variable {params}

theorem idxOf_sortedDevs {dv : ℕ} (hdv : dv < params.length) :
    (sortedDevs params).idxOf dv = rank params dv := by
  rw [idxOf_eq_countP (sortedDevs_pairwise params) Before.asymm (mem_sortedDevs.mpr hdv)]
  exact (sortedDevs_perm params).countP_eq _

theorem rank_lt_rank_iff {a b : ℕ} (ha : a < params.length) (hb : b < params.length) :
    rank params a < rank params b ↔ Before (snOf params) a b := by
  rw [← idxOf_sortedDevs ha, ← idxOf_sortedDevs hb]
  exact idxOf_lt_idxOf_iff (sortedDevs_pairwise params) Before.asymm (mem_sortedDevs.mpr ha)
    (mem_sortedDevs.mpr hb)

/-- With serial numbers that are all different, only they count. -/
theorem rank_eq_countP (hdistinct : (params.map DevParams.sn).Nodup) {dv : ℕ}
    (hdv : dv < params.length) :
    rank params dv = (params.map DevParams.sn).countP fun sn ↦ sn < snOf params dv := by
  have hsns : params.map DevParams.sn = (List.range params.length).map (snOf params) := by
    apply List.ext_getElem
    · simp
    · intro k hk _
      rw [List.length_map] at hk
      simp [snOf, hk]
  rw [hsns] at hdistinct ⊢
  rw [rank, List.countP_map]
  apply List.countP_congr
  intro b hb
  simp only [decide_eq_true_eq, Function.comp_apply]
  refine ⟨fun hbefore ↦ hbefore.elim id ?_, .inl⟩
  rintro ⟨heq, hlt⟩
  have hsame := List.inj_on_of_nodup_map hdistinct hb (List.mem_range.mpr hdv) heq
  exact absurd hsame hlt.ne

/-! ## The device table -/

/-- An entry of `usb_devs.params`, with the handles of the two camera libraries. -/
structure DeviceParams (C M : Type*) extends DevParams where
  caerHdl : C
  metaHdl : M

/-- `usb_devs`.  The first `cnt` entries of the array are in use. -/
structure UsbDevs (C M : Type*) where
  cnt : ℕ
  params : ℕ → DeviceParams C M

namespace UsbDevs

variable {C M : Type*}

def devs (u : UsbDevs C M) : List DevParams :=
  (List.range u.cnt).map fun dv ↦ (u.params dv).toDevParams

/-- `usb_devs.params[sorted[p]].pipe = p`, from `p` on. -/
def assign : ℕ → List ℕ → (ℕ → DeviceParams C M) → ℕ → DeviceParams C M
  | _, [], params => params
  | p, dv :: sorted, params =>
      assign (p + 1) sorted (Function.update params dv { params dv with pipe := p })

def usbSortPipes (u : UsbDevs C M) : UsbDevs C M :=
  { u with params := assign 0 (sortedDevs u.devs) u.params }

theorem assign_apply {sorted : List ℕ} (hsorted : sorted.Nodup) (dv : ℕ) :
    ∀ (p : ℕ) (params : ℕ → DeviceParams C M), assign p sorted params dv =
      if dv ∈ sorted then { params dv with pipe := p + sorted.idxOf dv } else params dv := by
  induction sorted with
  | nil => exact fun _ _ ↦ rfl
  | cons s sorted ih =>
      intro p params
      obtain ⟨hs, hsorted⟩ := List.nodup_cons.mp hsorted
      rw [assign, ih hsorted]
      rcases eq_or_ne dv s with rfl | hne
      · simp [hs]
      · have hidx : (s :: sorted).idxOf dv = sorted.idxOf dv + 1 := List.idxOf_cons_ne _ hne.symm
        rw [Function.update_of_ne hne, hidx]
        simp [hne, Nat.add_assoc, Nat.add_comm 1]

variable (u : UsbDevs C M)

@[simp] theorem length_devs : u.devs.length = u.cnt := by simp [devs]

theorem getElem?_devs {dv : ℕ} (hdv : dv < u.cnt) :
    u.devs[dv]? = some (u.params dv).toDevParams := by
  simp [devs, hdv]

theorem snOf_devs {dv : ℕ} (hdv : dv < u.cnt) : snOf u.devs dv = (u.params dv).sn := by
  rw [snOf, getElem?_devs u hdv]
  rfl

theorem params_usbSortPipes (dv : ℕ) : u.usbSortPipes.params dv =
    if dv < u.cnt then { u.params dv with pipe := rank u.devs dv } else u.params dv := by
  change assign 0 (sortedDevs u.devs) u.params dv = _
  rw [assign_apply (nodup_sortedDevs _), Nat.zero_add]
  simp only [mem_sortedDevs, length_devs]
  split
  · rw [idxOf_sortedDevs (by rwa [length_devs])]
  · rfl

/-- The array and the list of the devices in use are sorted alike. -/
theorem devs_usbSortPipes : u.usbSortPipes.devs = Spiffer.usbSortPipes u.devs := by
  apply List.ext_getElem?
  intro dv
  rw [Spiffer.usbSortPipes, assignPipes_getElem? dv _ (nodup_sortedDevs _), Nat.zero_add]
  simp only [mem_sortedDevs, length_devs]
  by_cases hdv : dv < u.cnt
  · have hsorted : u.usbSortPipes.devs[dv]? = some (u.usbSortPipes.params dv).toDevParams :=
      getElem?_devs u.usbSortPipes hdv
    rw [hsorted, getElem?_devs u hdv, params_usbSortPipes, if_pos hdv, Option.map_some, if_pos hdv,
      idxOf_sortedDevs (by rwa [length_devs])]
  · have hsorted : u.usbSortPipes.devs.length ≤ dv := by simpa [usbSortPipes] using hdv
    rw [List.getElem?_eq_none hsorted, List.getElem?_eq_none (by simpa using hdv)]
    rfl

/-- What `usb_sort_pipes` does to `usb_devs`. -/
structure SortsPipes (u v : UsbDevs C M) : Prop where
  cnt : v.cnt = u.cnt
  unchanged : ∀ dv, { v.params dv with pipe := (u.params dv).pipe } = u.params dv
  unused : ∀ dv, u.cnt ≤ dv → v.params dv = u.params dv
  perm : ((List.range u.cnt).map fun dv ↦ (v.params dv).pipe).Perm (List.range u.cnt)
  ordered : ∀ a < u.cnt, ∀ b < u.cnt, (v.params a).pipe < (v.params b).pipe ↔
    strcmpGt (u.params b).sn (u.params a).sn = true ∨ (u.params a).sn = (u.params b).sn ∧ a < b

theorem usbSortPipes_sorts : SortsPipes u u.usbSortPipes where
  cnt := rfl
  unchanged dv := by
    rw [params_usbSortPipes]
    split <;> rfl
  unused dv hdv := by rw [params_usbSortPipes, if_neg (Nat.not_lt.mpr hdv)]
  perm := by
    have hperm := pipes_usbSortPipes_perm u.devs
    rw [← devs_usbSortPipes, length_devs, devs, List.map_map] at hperm
    exact hperm
  ordered a ha b hb := by
    rw [params_usbSortPipes, params_usbSortPipes, if_pos ha, if_pos hb]
    rw [rank_lt_rank_iff (by rwa [length_devs]) (by rwa [length_devs]), Before, snOf_devs u ha,
      snOf_devs u hb, strcmpGt_iff]

def serials : List Serial := (List.range u.cnt).map fun dv ↦ (u.params dv).sn

theorem serials_eq : u.serials = u.devs.map DevParams.sn := by
  rw [serials, devs, List.map_map]
  rfl

variable {u}

theorem pipe_eq_of_perm {v : UsbDevs C M} (hperm : u.serials.Perm v.serials)
    (hdistinct : u.serials.Nodup) {a b : ℕ} (ha : a < u.cnt) (hb : b < v.cnt)
    (hsn : (u.params a).sn = (v.params b).sn) :
    (u.usbSortPipes.params a).pipe = (v.usbSortPipes.params b).pipe := by
  have hdistinct' : v.serials.Nodup := hperm.nodup_iff.mp hdistinct
  rw [params_usbSortPipes, params_usbSortPipes, if_pos ha, if_pos hb]
  rw [serials_eq] at hdistinct hdistinct'
  change rank u.devs a = rank v.devs b
  rw [rank_eq_countP hdistinct (by rwa [length_devs]), snOf_devs u ha,
    rank_eq_countP hdistinct' (by rwa [length_devs]), snOf_devs v hb, hsn, ← serials_eq,
    ← serials_eq]
  exact hperm.countP_eq _

/-- `usb_sort_pipes` gives the pipes out by serial number and leaves everything else
alone, so that the order of discovery does not matter. -/
theorem usbSortPipes_by_serial (u : UsbDevs C M) :
    SortsPipes u u.usbSortPipes ∧
      ∀ v : UsbDevs C M, u.serials.Perm v.serials → u.serials.Nodup →
        ∀ a < u.cnt, ∀ b < v.cnt, (u.params a).sn = (v.params b).sn →
          (u.usbSortPipes.params a).pipe = (v.usbSortPipes.params b).pipe :=
  ⟨usbSortPipes_sorts u, fun _ hperm hdistinct _ ha _ hb hsn ↦
    pipe_eq_of_perm hperm hdistinct ha hb hsn⟩

/-- Two Prophesee cameras, in the order of their discovery. -/
def twoCameras (first second : Serial) : UsbDevs Unit ℕ where
  cnt := 2
  params dv :=
    { pipe := 0
      type := .META
      sn := if dv = 0 then first else second
      caerHdl := ()
      metaHdl := dv }

theorem usbSortPipes_by_serial_swapped :
    SortsPipes (twoCameras [50] [49]) (twoCameras [50] [49]).usbSortPipes ∧
      ((twoCameras [50] [49]).usbSortPipes.params 0).pipe =
        ((twoCameras [49] [50]).usbSortPipes.params 1).pipe :=
  ⟨(usbSortPipes_by_serial _).1, (usbSortPipes_by_serial (twoCameras [50] [49])).2
    (twoCameras [49] [50]) (List.Perm.swap _ _ _) (by decide) 0 (by decide) 1 (by decide) rfl⟩

end UsbDevs

end Spif.Spiffer
