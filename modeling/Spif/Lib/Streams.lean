import Mathlib.Data.Nat.Count
import Spif.Lib.Clocked

/-!
# The first cycles of a stream

Runs are lists of inputs, streams are functions of the cycle.  A stream seen up to
cycle `n` is a run, which connects what is known about runs with statements on time.
-/

namespace Clocked

variable {σ ι ω : Type*} {next : σ → ι → σ} {s : σ} {ins : ℕ → ι}

/-- The inputs before cycle `n`. -/
def upTo (ins : ℕ → ι) (n : ℕ) : List ι := (List.range n).map ins

theorem upTo_succ (ins : ℕ → ι) (n : ℕ) : upTo ins (n + 1) = upTo ins n ++ [ins n] := by
  rw [upTo, List.range_succ, List.map_append]
  rfl

theorem run_upTo (n : ℕ) : run next s (upTo ins n) = trace next s ins n := by
  induction n with
  | zero => rfl
  | succ n ih => rw [upTo_succ, run_concat, ih, trace_succ]

/-- The words put out before cycle `n`. -/
def emitted (next : σ → ι → σ) (f : σ → ι → List ω) (s : σ) (ins : ℕ → ι) (n : ℕ) : List ω :=
  emit next f s (upTo ins n)

theorem emitted_zero (f : σ → ι → List ω) : emitted next f s ins 0 = [] := rfl

theorem emitted_succ (f : σ → ι → List ω) (n : ℕ) :
    emitted next f s ins (n + 1) = emitted next f s ins n ++ f (trace next s ins n) (ins n) := by
  rw [emitted, emitted, upTo_succ, emit_append, run_upTo, emit_cons, emit_nil, List.append_nil]

theorem emitted_mono (f : σ → ι → List ω) {m n : ℕ} (h : m ≤ n) :
    emitted next f s ins m <+: emitted next f s ins n := by
  induction n, h using Nat.le_induction with
  | base => exact List.prefix_refl _
  | succ n _ ih =>
      rw [emitted_succ]
      exact ih.trans (List.prefix_append _ _)

/-- The ordered ledger of a stream in which every cycle is a lossless one. -/
theorem emitted_fifo (held : σ → List ω) (acc out : σ → ι → List ω)
    (hstep : ∀ n, out (trace next s ins n) (ins n) ++ held (trace next s ins (n + 1)) =
      held (trace next s ins n) ++ acc (trace next s ins n) (ins n)) (n : ℕ) :
    emitted next out s ins n ++ held (trace next s ins n) =
      held s ++ emitted next acc s ins n := by
  induction n with
  | zero => simp [emitted_zero]
  | succ n ih =>
      rw [emitted_succ, emitted_succ, List.append_assoc, hstep n, ← List.append_assoc, ih,
        List.append_assoc]

/-! ## Progress -/

/-- A lossless queue that gives something away in every good cycle has given away what it
holds after as many good cycles as it holds words. -/
theorem emitted_prefix_of_count (held : σ → List ω) {acc out : σ → ι → List ω}
    (good : ℕ → Prop) [DecidablePred good]
    (hfifo : ∀ n, emitted next out s ins n ++ held (trace next s ins n) =
      emitted next acc s ins n)
    (hgood : ∀ n, good n → held (trace next s ins n) ≠ [] →
      out (trace next s ins n) (ins n) ≠ [])
    {m k : ℕ} (hk : (held (trace next s ins m)).length ≤ Nat.count (fun j ↦ good (m + j)) k) :
    emitted next acc s ins m <+: emitted next out s ins (m + k) := by
  have hlen (n : ℕ) : (emitted next out s ins n).length + (held (trace next s ins n)).length =
      (emitted next acc s ins n).length := by
    rw [← List.length_append, hfifo n]
  have hmono (k : ℕ) : (emitted next acc s ins m).length ≤
      (emitted next acc s ins (m + k)).length :=
    (emitted_mono acc (Nat.le_add_right m k)).length_le
  have hcount (k : ℕ) : min (Nat.count (fun j ↦ good (m + j)) k)
        (held (trace next s ins m)).length + (emitted next out s ins m).length ≤
      (emitted next out s ins (m + k)).length := by
    induction k with
    | zero => simp
    | succ k ih =>
        have hsucc : (emitted next out s ins (m + (k + 1))).length =
            (emitted next out s ins (m + k)).length +
              (out (trace next s ins (m + k)) (ins (m + k))).length := by
          rw [← Nat.add_assoc, emitted_succ, List.length_append]
        rw [Nat.count_succ, hsucc]
        by_cases hg : good (m + k)
        · rw [if_pos hg]
          by_cases hempty : held (trace next s ins (m + k)) = []
          · have hall := hlen (m + k)
            rw [hempty, List.length_nil] at hall
            have := hlen m
            have := hmono k
            omega
          · have := List.length_pos_of_ne_nil (hgood (m + k) hg hempty)
            omega
        · rw [if_neg hg]
          omega
  have hsent : emitted next out s ins (m + k) <+: emitted next acc s ins (m + k) := by
    rw [← hfifo (m + k)]
    exact List.prefix_append _ _
  refine List.prefix_of_prefix_length_le (emitted_mono acc (Nat.le_add_right m k)) hsent ?_
  have := hcount k
  have := hlen m
  omega

end Clocked
