import Mathlib.Data.List.Infix
import Mathlib.Logic.Nontrivial.Basic
import Mathlib.Tactic.Common

/-!
# Clocked machines

A clocked machine is a next-state function `σ → ι → σ`.  A run is the list of
the inputs sampled at successive clock edges.  This module collects what the
verification of such machines needs again and again: invariants of a run, the
words that a port transfers during a run, and the ledger rules which lift one
cycle's bookkeeping to the whole run.
-/

namespace Clocked

variable {σ ι ω : Type*}

def run (next : σ → ι → σ) (s : σ) (ins : List ι) : σ := ins.foldl next s

/-- `P` holds in every cycle of the run. -/
def Along (next : σ → ι → σ) (P : σ → ι → Prop) : σ → List ι → Prop
  | _, [] => True
  | s, i :: ins => P s i ∧ Along next P (next s i) ins

/-- The words which `f` puts out during the run, in order. -/
def emit (next : σ → ι → σ) (f : σ → ι → List ω) : σ → List ι → List ω
  | _, [] => []
  | s, i :: ins => f s i ++ emit next f (next s i) ins

def tally (next : σ → ι → σ) (f : σ → ι → ℕ) : σ → List ι → ℕ
  | _, [] => 0
  | s, i :: ins => f s i + tally next f (next s i) ins

variable {next : σ → ι → σ}

@[simp] theorem run_nil (s : σ) : run next s [] = s := rfl

@[simp] theorem run_cons (s : σ) (i : ι) (ins : List ι) :
    run next s (i :: ins) = run next (next s i) ins := rfl

theorem run_concat (s : σ) (ins : List ι) (i : ι) :
    run next s (ins ++ [i]) = next (run next s ins) i := by
  simp [run]

@[simp] theorem along_nil (P : σ → ι → Prop) (s : σ) : Along next P s [] := trivial

@[simp] theorem along_cons (P : σ → ι → Prop) (s : σ) (i : ι) (ins : List ι) :
    Along next P s (i :: ins) ↔ P s i ∧ Along next P (next s i) ins := Iff.rfl

@[simp] theorem emit_nil (f : σ → ι → List ω) (s : σ) : emit next f s [] = [] := rfl

@[simp] theorem emit_cons (f : σ → ι → List ω) (s : σ) (i : ι) (ins : List ι) :
    emit next f s (i :: ins) = f s i ++ emit next f (next s i) ins := rfl

@[simp] theorem tally_nil (f : σ → ι → ℕ) (s : σ) : tally next f s [] = 0 := rfl

@[simp] theorem tally_cons (f : σ → ι → ℕ) (s : σ) (i : ι) (ins : List ι) :
    tally next f s (i :: ins) = f s i + tally next f (next s i) ins := rfl

instance decidableAlong (P : σ → ι → Prop) [∀ s i, Decidable (P s i)] :
    ∀ s ins, Decidable (Along next P s ins)
  | _, [] => .isTrue trivial
  | s, i :: ins =>
      have := decidableAlong P (next s i) ins
      inferInstanceAs (Decidable (P s i ∧ Along next P (next s i) ins))

theorem emit_append (f : σ → ι → List ω) (s : σ) (ins ins' : List ι) :
    emit next f s (ins ++ ins') = emit next f s ins ++ emit next f (run next s ins) ins' := by
  induction ins generalizing s with
  | nil => rfl
  | cons i ins ih => simp [ih]

/-! ## Invariants -/

/-- The run rule: what every good cycle preserves holds after every good run. -/
theorem inv_run {I : σ → Prop} {C : σ → ι → Prop}
    (hstep : ∀ s i, I s → C s i → I (next s i)) :
    ∀ {s : σ} {ins : List ι}, I s → Along next C s ins → I (run next s ins) := by
  intro s ins hs hins
  induction ins generalizing s with
  | nil => exact hs
  | cons i ins ih => exact ih (hstep s i hs hins.1) hins.2

/-- A condition on the cycles of a run may be replaced by another one wherever
an invariant makes the two agree. -/
theorem along_congr {I : σ → Prop} {D P Q : σ → ι → Prop}
    (hstep : ∀ s i, I s → D s i → I (next s i))
    (h : ∀ s i, I s → D s i → (P s i ↔ Q s i)) :
    ∀ {s : σ} {ins : List ι}, I s → Along next D s ins →
      (Along next P s ins ↔ Along next Q s ins) := by
  intro s ins hs hD
  induction ins generalizing s with
  | nil => simp
  | cons i ins ih =>
      rw [along_cons, along_cons, h s i hs hD.1, ih (hstep s i hs hD.1) hD.2]

theorem along_of_inv {I : σ → Prop} {C P : σ → ι → Prop}
    (hstep : ∀ s i, I s → C s i → I (next s i))
    (h : ∀ s i, I s → C s i → P s i) :
    ∀ {s : σ} {ins : List ι}, I s → Along next C s ins → Along next P s ins := by
  intro s ins hs hC
  induction ins generalizing s with
  | nil => trivial
  | cons i ins ih => exact ⟨h s i hs hC.1, ih (hstep s i hs hC.1) hC.2⟩

theorem along_iff_forall_mem {P : ι → Prop} {s : σ} {ins : List ι} :
    Along next (fun _ i ↦ P i) s ins ↔ ∀ i ∈ ins, P i := by
  induction ins generalizing s with
  | nil => simp
  | cons i ins ih => rw [along_cons, ih, List.forall_mem_cons]

theorem along_of_forall_mem {P : ι → Prop} {ins : List ι} (h : ∀ i ∈ ins, P i) (s : σ) :
    Along next (fun _ i ↦ P i) s ins :=
  along_iff_forall_mem.mpr h

theorem exists_of_mem_emit {f : σ → ι → List ω} {w : ω} :
    ∀ {s : σ} {ins : List ι}, w ∈ emit next f s ins → ∃ i ∈ ins, ∃ t, w ∈ f t i := by
  intro s ins hw
  induction ins generalizing s with
  | nil => cases hw
  | cons i ins ih =>
      rcases List.mem_append.mp hw with h | h
      · exact ⟨i, List.mem_cons_self, s, h⟩
      · obtain ⟨j, hj, t, ht⟩ := ih h
        exact ⟨j, List.mem_cons_of_mem i hj, t, ht⟩

/-! ## Ledgers

`held` is what a machine stores, `acc` what a cycle takes in and `out` what it
gives away.  The rules below turn one cycle's account into the run's account. -/

/-- The ordered ledger.  `R` relates what left to what came; equality makes the
machine a lossless queue, `List.Sublist` a lossy one that never reorders. -/
theorem emit_ledger {R : List ω → List ω → Prop}
    (hrefl : ∀ xs, R xs xs) (htrans : ∀ xs ys zs, R xs ys → R ys zs → R xs zs)
    (happ : ∀ xs ys zs ws, R ys zs → R (xs ++ ys ++ ws) (xs ++ zs ++ ws))
    {I : σ → Prop} {C : σ → ι → Prop}
    {held : σ → List ω} {acc out : σ → ι → List ω}
    (hinv : ∀ s i, I s → C s i → I (next s i))
    (hstep : ∀ s i, I s → C s i → R (out s i ++ held (next s i)) (held s ++ acc s i)) :
    ∀ {s : σ} {ins : List ι}, I s → Along next C s ins →
      R (emit next out s ins ++ held (run next s ins)) (held s ++ emit next acc s ins) := by
  intro s ins hs hC
  induction ins generalizing s with
  | nil => simpa using hrefl (held s)
  | cons i ins ih =>
      have hrest := ih (hinv s i hs hC.1) hC.2
      have hfirst := hstep s i hs hC.1
      simp only [emit_cons, run_cons]
      refine htrans _ (out s i ++ (held (next s i) ++ emit next acc (next s i) ins)) _ ?_ ?_
      · simpa using happ (out s i) _ _ [] hrest
      · simpa using happ [] _ _ (emit next acc (next s i) ins) hfirst

/-- A lossless queue: what left, followed by what is stored, is what came. -/
theorem emit_fifo (held : σ → List ω) (acc out : σ → ι → List ω) {I : σ → Prop}
    {C : σ → ι → Prop}
    (hinv : ∀ s i, I s → C s i → I (next s i))
    (hstep : ∀ s i, I s → C s i → out s i ++ held (next s i) = held s ++ acc s i)
    {s : σ} {ins : List ι} (hs : I s) (hC : Along next C s ins) :
    emit next out s ins ++ held (run next s ins) = held s ++ emit next acc s ins :=
  emit_ledger (R := Eq) (fun _ ↦ rfl) (fun _ _ _ ↦ Eq.trans) (by rintro _ _ _ _ rfl; rfl) hinv
    hstep hs hC

/-- A lossy queue: what left, followed by what is stored, is a subsequence of
what came. -/
theorem emit_sublist {I : σ → Prop} {C : σ → ι → Prop}
    {held : σ → List ω} {acc out : σ → ι → List ω}
    (hinv : ∀ s i, I s → C s i → I (next s i))
    (hstep : ∀ s i, I s → C s i →
      List.Sublist (out s i ++ held (next s i)) (held s ++ acc s i))
    {s : σ} {ins : List ι} (hs : I s) (hC : Along next C s ins) :
    List.Sublist (emit next out s ins ++ held (run next s ins))
      (held s ++ emit next acc s ins) :=
  emit_ledger (R := List.Sublist) List.Sublist.refl (fun _ _ _ ↦ List.Sublist.trans)
    (fun xs _ _ ws h ↦ ((List.Sublist.refl xs).append h).append (List.Sublist.refl ws))
    hinv hstep hs hC

theorem emit_filterMap {ω' : Type*} (g : ω → Option ω') (f : σ → ι → List ω)
    (s : σ) (ins : List ι) :
    (emit next f s ins).filterMap g = emit next (fun s i ↦ (f s i).filterMap g) s ins := by
  induction ins generalizing s with
  | nil => rfl
  | cons i ins ih => simp [ih]

theorem emit_map {ω' : Type*} (g : ω → ω') (f : σ → ι → List ω) (s : σ) (ins : List ι) :
    (emit next f s ins).map g = emit next (fun s i ↦ (f s i).map g) s ins := by
  simpa only [List.filterMap_eq_map] using emit_filterMap (some ∘ g) f s ins

theorem emit_filter (g : ω → Bool) (f : σ → ι → List ω) (s : σ) (ins : List ι) :
    (emit next f s ins).filter g = emit next (fun s i ↦ (f s i).filter g) s ins := by
  simpa only [List.filterMap_eq_filter] using emit_filterMap (Option.guard g) f s ins

theorem tally_length (f : σ → ι → List ω) (s : σ) (ins : List ι) :
    tally next (fun s i ↦ (f s i).length) s ins = (emit next f s ins).length := by
  induction ins generalizing s with
  | nil => rfl
  | cons i ins ih => simp [ih]

theorem tally_add (f g : σ → ι → ℕ) (s : σ) (ins : List ι) :
    tally next (fun s i ↦ f s i + g s i) s ins = tally next f s ins + tally next g s ins := by
  induction ins generalizing s with
  | nil => rfl
  | cons i ins ih =>
      have hrest := ih (next s i)
      simp only [tally_cons]
      omega

/-- A registered pulse is seen one cycle late: counting the register in every
cycle, and once more in the state reached, counts the pulses themselves. -/
theorem tally_registered (reg : σ → ℕ) (pulse : σ → ι → ℕ)
    (h : ∀ s i, reg (next s i) = pulse s i) (s : σ) (ins : List ι) :
    tally next (fun s _ ↦ reg s) s ins + reg (run next s ins) =
      reg s + tally next pulse s ins := by
  induction ins generalizing s with
  | nil => simp
  | cons i ins ih =>
      have hrest := ih (next s i)
      rw [h s i] at hrest
      simp only [tally_cons, run_cons]
      omega

def Balanced (next : σ → ι → σ) (held : σ → ℕ) (acc out : σ → ι → ℕ)
    (s : σ) (ins : List ι) : Prop :=
  ∀ pre, pre <+: ins →
    held s + tally next acc s pre = tally next out s pre + held (run next s pre)

/-- The account of a run balances after every cycle exactly if each of its
cycles balances. -/
theorem balanced_iff_along {held : σ → ℕ} {acc out : σ → ι → ℕ} {s : σ} {ins : List ι} :
    Balanced next held acc out s ins ↔
      Along next (fun s i ↦ held s + acc s i = out s i + held (next s i)) s ins := by
  induction ins generalizing s with
  | nil =>
      refine iff_of_true ?_ trivial
      intro pre hpre
      simp [List.prefix_nil.mp hpre]
  | cons i ins ih =>
      rw [along_cons, ← ih]
      constructor
      · intro h
        have hfirst : held s + acc s i = out s i + held (next s i) := by
          simpa using h [i] (by simp)
        refine ⟨hfirst, ?_⟩
        intro pre hpre
        have hall := h (i :: pre) (List.cons_prefix_cons.mpr ⟨rfl, hpre⟩)
        simp only [tally_cons, run_cons] at hall
        omega
      · rintro ⟨hfirst, hrest⟩ pre hpre
        cases pre with
        | nil => simp
        | cons j pre =>
            obtain ⟨rfl, hshort⟩ := List.cons_prefix_cons.mp hpre
            have htail := hrest pre hshort
            simp only [tally_cons, run_cons]
            omega

/-! ## The latest setting -/

def latest {α : Type*} (set : ι → Option α) (ins : List ι) : Option α :=
  (ins.filterMap set).getLast?

/-- A field that inputs only ever set has the value of the latest setting. -/
theorem run_latest {α : Type*} (field : σ → α) (set : ι → Option α)
    (h : ∀ s i, field (next s i) = (set i).getD (field s)) (s : σ) (ins : List ι) :
    field (run next s ins) = (latest set ins).getD (field s) := by
  induction ins generalizing s with
  | nil => rfl
  | cons i ins ih =>
      rw [run_cons, ih, h, latest, latest, List.filterMap_cons]
      cases set i <;> simp [List.getLast?_cons]

theorem latest_map {κ α : Type*} (set : κ → Option α) (f : ι → κ) (ins : List ι) :
    latest set (ins.map f) = latest (fun i ↦ set (f i)) ins := by
  simp [latest, List.filterMap_map]

theorem latest_map_value {α β : Type*} (set : ι → Option α) (f : α → β) (ins : List ι) :
    latest (fun i ↦ (set i).map f) ins = (latest set ins).map f := by
  rw [latest, latest, ← List.getLast?_map, List.map_filterMap]

/-- Settings that always leave the same value are the same setting. -/
theorem eq_of_getD_eq {α : Type*} [Nontrivial α] {x y : Option α}
    (h : ∀ a, x.getD a = y.getD a) : x = y := by
  cases x with
  | some v =>
      cases y with
      | some w => exact congrArg some (h v)
      | none =>
          obtain ⟨a, ha⟩ := exists_ne v
          exact absurd (h a).symm ha
  | none =>
      cases y with
      | some w =>
          obtain ⟨a, ha⟩ := exists_ne w
          exact absurd (h a) ha
      | none => rfl

/-! ## Streams -/

/-- The state before cycle `n`, for a stream of inputs. -/
def trace (next : σ → ι → σ) (s : σ) (ins : ℕ → ι) : ℕ → σ
  | 0 => s
  | n + 1 => next (trace next s ins n) (ins n)

@[simp] theorem trace_zero (s : σ) (ins : ℕ → ι) : trace next s ins 0 = s := rfl

@[simp] theorem trace_succ (s : σ) (ins : ℕ → ι) (n : ℕ) :
    trace next s ins (n + 1) = next (trace next s ins n) (ins n) := rfl

theorem trace_inv {I : σ → Prop} (hstep : ∀ s i, I s → I (next s i)) {s : σ} (hs : I s)
    (ins : ℕ → ι) (n : ℕ) : I (trace next s ins n) := by
  induction n with
  | zero => exact hs
  | succ n ih => exact hstep _ _ ih

/-- Cycle `m` is the last one before cycle `n` with the mark. -/
def LastBefore (mark : ℕ → Prop) (n m : ℕ) : Prop :=
  m < n ∧ mark m ∧ ∀ k, m < k → k < n → ¬ mark k

section LastBefore

variable {mark : ℕ → Prop} {n m m' : ℕ}

theorem LastBefore.unique (h : LastBefore mark n m) (h' : LastBefore mark n m') : m = m' := by
  rcases Nat.lt_trichotomy m m' with hlt | heq | hgt
  · exact absurd h'.2.1 (h.2.2 m' hlt h'.1)
  · exact heq
  · exact absurd h.2.1 (h'.2.2 m hgt h.1)

theorem lastBefore_succ_self (h : mark n) : LastBefore mark (n + 1) n :=
  ⟨Nat.lt_succ_self n, h, fun _ hlt hle ↦ absurd hle (Nat.not_lt.mpr hlt)⟩

theorem LastBefore.succ (h : LastBefore mark n m) (hn : ¬ mark n) :
    LastBefore mark (n + 1) m := by
  refine ⟨Nat.lt_succ_of_lt h.1, h.2.1, fun k hm hk ↦ ?_⟩
  rcases Nat.lt_or_eq_of_le (Nat.le_of_lt_succ hk) with hlt | rfl
  · exact h.2.2 k hm hlt
  · exact hn

/-- What a mark establishes, and the cycles up to the next mark keep, holds from the
first mark on. -/
theorem exists_lastBefore {Q : ℕ → ℕ → Prop} (hmark : ∀ n, mark n → Q (n + 1) n)
    (hkeep : ∀ n m, LastBefore mark n m → ¬ mark n → Q n m → Q (n + 1) m) {n₀ : ℕ}
    (h₀ : mark n₀) {n : ℕ} (hn : n₀ < n) : ∃ m, LastBefore mark n m ∧ Q n m := by
  induction n, hn using Nat.le_induction with
  | base => exact ⟨n₀, lastBefore_succ_self h₀, hmark n₀ h₀⟩
  | succ n _ ih =>
      by_cases h : mark n
      · exact ⟨n, lastBefore_succ_self h, hmark n h⟩
      · obtain ⟨m, hlast, hq⟩ := ih
        exact ⟨m, hlast.succ h, hkeep n m hlast h hq⟩

end LastBefore

/-! ## Periods -/

/-- Marks that follow each other after `d` cycles, up to cycle `n₀ + k`, are at the
multiples of `d` from the first one on. -/
theorem mark_add_iff_dvd {mark : ℕ → Prop} {d n₀ k : ℕ} (hd : 0 < d) (h₀ : mark n₀)
    (hnext : ∀ q, q * d < k → mark (n₀ + q * d) → mark (n₀ + q * d + d) ∧
      ∀ j, n₀ + q * d < j → j < n₀ + q * d + d → ¬ mark j) :
    mark (n₀ + k) ↔ d ∣ k := by
  have hmarks : ∀ q, q * d ≤ k → mark (n₀ + q * d) := by
    intro q
    induction q with
    | zero =>
        intro _
        rwa [Nat.zero_mul, Nat.add_zero]
    | succ q ih =>
        intro hq
        rw [Nat.succ_mul] at hq ⊢
        rw [← Nat.add_assoc]
        exact (hnext q (by omega) (ih (by omega))).1
  have hdiv : k / d * d + k % d = k := by
    rw [Nat.mul_comm]
    exact Nat.div_add_mod k d
  have hrest : k % d < d := Nat.mod_lt k hd
  rw [Nat.dvd_iff_mod_eq_zero]
  by_cases hzero : k % d = 0
  · refine iff_of_true ?_ hzero
    have hlast := hmarks (k / d) (by omega)
    rwa [show k / d * d = k by omega] at hlast
  · refine iff_of_false ?_ hzero
    exact (hnext (k / d) (by omega) (hmarks (k / d) (by omega))).2 _ (by omega) (by omega)

end Clocked
