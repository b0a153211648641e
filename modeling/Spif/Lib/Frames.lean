import Spif.Lib.Clocked

/-!
# Streams of frames

A stream whose words say whether they are the last of their frame.  What is
proved about the number of each word within its frame, while the stream is being
put out, is a fact about the frames of the stream.
-/

namespace Frames

open Clocked

variable {σ ι α : Type*} (last : α → Bool) (P : ℕ → α → Prop)

/-- The stream cut after each word that is the last of its frame.  The last piece
is the frame that is still open. -/
def frames : List α → List (List α)
  | [] => [[]]
  | x :: xs => if last x then [x] :: frames xs else (frames xs).modifyHead (x :: ·)

/-- The words in the open frame after the stream, when there were `c` before it. -/
def inFrame : ℕ → List α → ℕ
  | c, [] => c
  | c, x :: xs => inFrame (if last x then 0 else c + 1) xs

/-- `P` holds of the words and their numbers in their frames, the first word being
number `c + 1`. -/
def Framed : ℕ → List α → Prop
  | _, [] => True
  | c, x :: xs => P (c + 1) x ∧ Framed (if last x then 0 else c + 1) xs

def Numbered : ℕ → List α → Prop
  | _, [] => True
  | c, x :: xs => P (c + 1) x ∧ Numbered (c + 1) xs

variable {last P}

theorem framed_append {c : ℕ} {xs ys : List α} :
    Framed last P c (xs ++ ys) ↔
      Framed last P c xs ∧ Framed last P (inFrame last c xs) ys := by
  induction xs generalizing c with
  | nil => simp [Framed, inFrame]
  | cons x xs ih => simp only [List.cons_append, Framed, inFrame, ih, and_assoc]

theorem frames_ne_nil (xs : List α) : frames last xs ≠ [] := by
  induction xs with
  | nil => simp [frames]
  | cons x xs ih =>
      rw [frames]
      split
      · simp
      · cases h : frames last xs with
        | nil => exact absurd h ih
        | cons f fs => simp

theorem framed_iff_numbered {xs : List α} : ∀ {c : ℕ} {f : List α} {fs : List (List α)},
    frames last xs = f :: fs →
      (Framed last P c xs ↔ Numbered P c f ∧ ∀ g ∈ fs, Numbered P 0 g) := by
  induction xs with
  | nil =>
      intro c f fs h
      obtain ⟨rfl, rfl⟩ : [] = f ∧ [] = fs := by simpa [frames] using h
      simp [Framed, Numbered]
  | cons x xs ih =>
      intro c f fs h
      cases hx : last x with
      | true =>
          obtain ⟨rfl, rfl⟩ : [x] = f ∧ frames last xs = fs := by simpa [frames, hx] using h
          cases hfs : frames last xs with
          | nil => exact absurd hfs (frames_ne_nil xs)
          | cons g gs => simp [Framed, Numbered, hx, ih hfs]
      | false =>
          cases hfs : frames last xs with
          | nil => exact absurd hfs (frames_ne_nil xs)
          | cons g gs =>
              obtain ⟨rfl, rfl⟩ : x :: g = f ∧ gs = fs := by simpa [frames, hx, hfs] using h
              simp [Framed, Numbered, hx, ih hfs, and_assoc]

theorem numbered_getLast {c : ℕ} {f : List α} (h : Numbered P c f) :
    ∀ x ∈ f.getLast?, P (c + f.length) x := by
  induction f generalizing c with
  | nil => simp
  | cons y f ih =>
      intro x hx
      cases f with
      | nil =>
          obtain rfl : y = x := by simpa using hx
          exact h.1
      | cons z f =>
          have hrest := ih h.2 x (by simpa using hx)
          have hlen : c + 1 + (z :: f).length = c + (y :: z :: f).length := by
            simp only [List.length_cons]
            omega
          rwa [hlen] at hrest

/-- What holds of every word and its number holds of each frame's last word and the
length of the frame. -/
theorem Framed.getLast {xs f : List α} (h : Framed last P 0 xs) (hf : f ∈ frames last xs) :
    ∀ x ∈ f.getLast?, P f.length x := by
  cases hfs : frames last xs with
  | nil => exact absurd hfs (frames_ne_nil xs)
  | cons g gs =>
      obtain ⟨hg, hgs⟩ := (framed_iff_numbered hfs).mp h
      have hnum : Numbered P 0 f := by
        rw [hfs] at hf
        rcases List.mem_cons.mp hf with rfl | hmem
        · exact hg
        · exact hgs f hmem
      simpa using numbered_getLast hnum

theorem Framed.length_le {M : ℕ} {xs f : List α} (h : Framed last P 0 xs)
    (hM : ∀ n x, P n x → n ≤ M) (hf : f ∈ frames last xs) : f.length ≤ M := by
  cases hlast : f.getLast? with
  | none => simp [List.getLast?_eq_none_iff.mp hlast]
  | some x => exact hM _ x (h.getLast hf x hlast)

theorem exists_frames_eq_cons {xs : List α} (hxs : ∀ y ∈ xs, last y = false) (x : α)
    (zs : List α) : ∃ f fs, frames last (xs ++ x :: zs) = f :: fs ∧ xs.length < f.length := by
  induction xs with
  | nil =>
      cases hrest : frames last zs with
      | nil => exact absurd hrest (frames_ne_nil zs)
      | cons g gs =>
          by_cases hx : last x = true
          · exact ⟨[x], g :: gs, by simp [frames, hx, hrest], by simp⟩
          · exact ⟨x :: g, gs, by simp [frames, hx, hrest], by simp⟩
  | cons y xs ih =>
      obtain ⟨f, fs, hf, hlen⟩ := ih fun z hz ↦ hxs z (List.mem_cons_of_mem y hz)
      refine ⟨y :: f, fs, ?_, Nat.succ_lt_succ hlen⟩
      simp [frames, hxs y List.mem_cons_self, hf]

/-- What comes before a stream makes its frames no shorter. -/
theorem exists_frame_append (ws : List α) {xs f : List α} (hf : f ∈ frames last xs) :
    ∃ g ∈ frames last (ws ++ xs), f.length ≤ g.length := by
  induction ws with
  | nil => exact ⟨f, hf, le_rfl⟩
  | cons w ws ih =>
      obtain ⟨g, hg, hlen⟩ := ih
      rw [List.cons_append, frames]
      split
      · exact ⟨g, List.mem_cons_of_mem _ hg, hlen⟩
      · cases hrest : frames last (ws ++ xs) with
        | nil => exact absurd hrest (frames_ne_nil _)
        | cons g' gs =>
            rw [hrest] at hg
            rcases List.mem_cons.mp hg with rfl | hmem
            · exact ⟨w :: g, by simp, Nat.le_succ_of_le hlen⟩
            · exact ⟨g, by simp [hmem], hlen⟩

/-- Words that end no frame are in one frame, together with the word after them. -/
theorem exists_frame_length {xs : List α} (hxs : ∀ y ∈ xs, last y = false) (ws : List α) (x : α)
    (zs : List α) : ∃ f ∈ frames last (ws ++ (xs ++ x :: zs)), xs.length < f.length := by
  obtain ⟨f, fs, hf, hlen⟩ := exists_frames_eq_cons hxs x zs
  have hmem : f ∈ frames last (xs ++ x :: zs) := by simp [hf]
  obtain ⟨g, hg, hle⟩ := exists_frame_append ws hmem
  exact ⟨g, hg, hlen.trans_le hle⟩

/-- The run rule: an invariant that knows how many words of the open frame have been
put out. -/
theorem framed_emit {next : σ → ι → σ} {out : σ → ι → List α} {I : ℕ → σ → Prop}
    {C : σ → ι → Prop}
    (hstep : ∀ c s i, I c s → C s i →
      Framed last P c (out s i) ∧ I (inFrame last c (out s i)) (next s i)) :
    ∀ {c : ℕ} {s : σ} {ins : List ι}, I c s → Along next C s ins →
      Framed last P c (emit next out s ins) := by
  intro c s ins hs hC
  induction ins generalizing c s with
  | nil => trivial
  | cons i ins ih =>
      obtain ⟨hout, hnext⟩ := hstep c s i hs hC.1
      exact framed_append.mpr ⟨hout, ih hnext hC.2⟩

/-! ## Cutting a stream into frames -/

section Cut

variable (last)

/-- The frames that a stream closes, when `f` is open before it. -/
def closed : List α → List α → List (List α)
  | _, [] => []
  | f, x :: xs => if last x then (f ++ [x]) :: closed [] xs else closed (f ++ [x]) xs

/-- The frame that is open after a stream, when `f` is open before it. -/
def leftOpen : List α → List α → List α
  | f, [] => f
  | f, x :: xs => leftOpen (if last x then [] else f ++ [x]) xs

variable {last}

theorem leftOpen_append {f xs ys : List α} :
    leftOpen last f (xs ++ ys) = leftOpen last (leftOpen last f xs) ys := by
  induction xs generalizing f with
  | nil => rfl
  | cons x xs ih => exact ih

theorem closed_append {f xs ys : List α} :
    closed last f (xs ++ ys) = closed last f xs ++ closed last (leftOpen last f xs) ys := by
  induction xs generalizing f with
  | nil => rfl
  | cons x xs ih =>
      rw [List.cons_append, closed, closed, leftOpen]
      split <;> simp [ih]

theorem modifyHead_frames (f xs : List α) : (frames last xs).modifyHead (f ++ ·) =
    closed last f xs ++ [leftOpen last f xs] := by
  induction xs generalizing f with
  | nil => simp [frames, closed, leftOpen]
  | cons x xs ih =>
      rw [frames, closed, leftOpen]
      by_cases hx : last x = true
      · have hrest := ih []
        simp only [List.nil_append] at hrest
        rw [if_pos hx, if_pos hx, if_pos hx, List.modifyHead_cons, List.cons_append, ← hrest]
        congr 1
        cases frames last xs <;> rfl
      · rw [if_neg hx, if_neg hx, if_neg hx, ← ih, List.modifyHead_modifyHead]
        congr 1
        funext g
        simp

/-- All pieces of a stream but the last one are closed frames. -/
theorem frames_eq (xs : List α) :
    frames last xs = closed last [] xs ++ [leftOpen last [] xs] := by
  rw [← modifyHead_frames]
  cases frames last xs <;> rfl

theorem exists_last_of_mem_closed {f g xs : List α} (hg : g ∈ closed last f xs) :
    ∃ x ∈ g.getLast?, last x = true := by
  induction xs generalizing f with
  | nil => cases hg
  | cons x xs ih =>
      rw [closed] at hg
      split at hg
      · rename_i hx
        rcases List.mem_cons.mp hg with rfl | hmem
        · exact ⟨x, by simp, hx⟩
        · exact ih hmem
      · exact ih hg

theorem length_leftOpen (f xs : List α) :
    (leftOpen last f xs).length = inFrame last f.length xs := by
  induction xs generalizing f with
  | nil => rfl
  | cons x xs ih =>
      rw [leftOpen, inFrame, ih]
      split <;> simp

/-- There is room in a frame as long as words with the highest number close it. -/
theorem Framed.inFrame_lt {M c : ℕ} {xs : List α} (h : Framed last P c xs)
    (hM : ∀ n x, P n x → last x = false → n < M) (hc : c < M) : inFrame last c xs < M := by
  induction xs generalizing c with
  | nil => exact hc
  | cons x xs ih =>
      refine ih h.2 ?_
      cases hx : last x with
      | true => exact Nat.zero_lt_of_lt hc
      | false => exact hM _ x h.1 hx

/-- A machine which keeps the open frame closes the frames of the stream. -/
theorem emit_closed {next : σ → ι → σ} {words : σ → ι → List α} {I : σ → Prop}
    {C : σ → ι → Prop} (opened : σ → List α) (hinv : ∀ s i, I s → C s i → I (next s i))
    (hopened : ∀ s i, I s → C s i → opened (next s i) = leftOpen last (opened s) (words s i)) :
    ∀ {s : σ} {ins : List ι}, I s → Along next C s ins →
      emit next (fun s i ↦ closed last (opened s) (words s i)) s ins =
          closed last (opened s) (emit next words s ins) ∧
        opened (run next s ins) = leftOpen last (opened s) (emit next words s ins) := by
  intro s ins hs hC
  induction ins generalizing s with
  | nil => exact ⟨rfl, rfl⟩
  | cons i ins ih =>
      obtain ⟨hclosed, hrest⟩ := ih (hinv s i hs hC.1) hC.2
      rw [hopened s i hs hC.1] at hclosed hrest
      rw [run_cons, emit_cons, emit_cons, closed_append, leftOpen_append, hclosed]
      exact ⟨rfl, hrest⟩

end Cut

end Frames
