import Mathlib.Logic.Function.Basic
import Mathlib.Tactic.Common
import Spif.Lib.Transition

/-!
# Exclusive use of a pipe device

`dev_open` is set in `spif_open` and cleared in `spif_release`, both under the
semaphore `open_sem`.  Both take it with `down_interruptible`, and return when a
signal ends the wait.  The kernel ignores what `spif_release` returns.
-/

namespace Spif.OpenSem

open Transition

/-- Where a process is in a call.  `busy` and `free` are what it has read from
`dev_open`, `marked` and `cleared` what it has written. -/
inductive Phase where
  | idle
  | openWait
  | openEntered
  | openBusy
  | openFree
  | openMarked
  | releaseWait
  | releaseEntered
  | releaseCleared
deriving DecidableEq, Repr

namespace Phase

def waiting : Phase → Bool
  | openWait | releaseWait => true
  | _ => false

def inside : Phase → Bool
  | openEntered | openBusy | openFree | openMarked | releaseEntered | releaseCleared => true
  | _ => false

/-- The file of this call is not there yet, or not any more, and `dev_open` is set. -/
def owns : Phase → Bool
  | openMarked | releaseWait | releaseEntered => true
  | _ => false

def enter : Phase → Phase
  | openWait => openEntered
  | releaseWait => releaseEntered
  | p => p

end Phase

open Phase

/-- `sem` is the process that holds the semaphore, `files` the number of files
that are open. -/
structure Device where
  devOpen : Bool
  sem : Option ℕ
  files : ℕ
  phase : ℕ → Phase

inductive Event where
  | open (p : ℕ)
  /-- The last reference to an open file is dropped by process `p`. -/
  | release (p : ℕ)
  | down (p : ℕ)
  /-- A signal ends the wait of `p`: the call returns `-ERESTARTSYS`. -/
  | signal (p : ℕ)
  | test (p : ℕ)
  | mark (p : ℕ)
  | clear (p : ℕ)
  /-- `up`, and the return from the call -/
  | up (p : ℕ)
deriving DecidableEq, Repr

/-- A process waits for the semaphore only while another one holds it. -/
def Enabled (s : Device) : Event → Prop
  | .open p => s.phase p = idle
  | .release p => s.phase p = idle ∧ 0 < s.files
  | .down p => (s.phase p).waiting ∧ s.sem = none
  | .signal p => (s.phase p).waiting ∧ s.sem ≠ none
  | .test p => s.phase p = openEntered
  | .mark p => s.phase p = openFree
  | .clear p => s.phase p = releaseEntered
  | .up p => s.phase p = openBusy ∨ s.phase p = openMarked ∨ s.phase p = releaseCleared

def Device.goto (s : Device) (p : ℕ) (q : Phase) : Device :=
  { s with phase := Function.update s.phase p q }

def effect (s : Device) : Event → Device
  | .open p => s.goto p openWait
  | .release p => { s.goto p releaseWait with files := s.files - 1 }
  | .down p => { s.goto p (s.phase p).enter with sem := some p }
  | .signal p => s.goto p idle
  | .test p => s.goto p (if s.devOpen then openBusy else openFree)
  | .mark p => { s.goto p openMarked with devOpen := true }
  | .clear p => { s.goto p releaseCleared with devOpen := false }
  | .up p =>
      { s.goto p idle with
        sem := none, files := if s.phase p = openMarked then s.files + 1 else s.files }

instance : ∀ (s : Device) (e : Event), Decidable (Enabled s e) := fun s e ↦ by
  cases e <;> unfold Enabled <;> infer_instance

def step : Device → Event → Option Device := guarded Enabled effect

def start : Device := ⟨false, none, 0, fun _ ↦ idle⟩

def Quiet (s : Device) : Prop := ∀ p, s.phase p = idle

def ReleaseUndisturbed (s : Device) : Event → Prop
  | .signal p => s.phase p ≠ releaseWait
  | _ => True

/-! ## Whom the set flag belongs to -/

inductive Owner where
  | free
  | file
  | call (p : ℕ)
  | lost
deriving DecidableEq, Repr

structure Account (s : Device) (o : Owner) : Prop where
  devOpen : s.devOpen = true ↔ o ≠ .free
  files : s.files = if o = .file then 1 else 0
  owns : ∀ p, (s.phase p).owns = true ↔ o = .call p
  inside : ∀ p, (s.phase p).inside = true ↔ s.sem = some p
  unmarked : ∀ p, s.phase p = openFree → o = .free

def handOver (s : Device) (o : Owner) : Event → Owner
  | .release p => .call p
  | .signal p => if s.phase p = releaseWait then .lost else o
  | .mark p => .call p
  | .clear _ => .free
  | .up p => if s.phase p = openMarked then .file else o
  | _ => o

section

variable {s t : Device} {o o' : Owner}

theorem account_start : Account start .free :=
  ⟨by simp [start], by simp [start], by simp [start, Phase.owns], by simp [start, Phase.inside],
    by simp⟩

/-- Process `p` goes on; what the account says of the others is not touched. -/
theorem Account.move (h : Account s o) (p : ℕ) (q : Phase)
    (hphase : t.phase = Function.update s.phase p q)
    (hdev : t.devOpen = true ↔ o' ≠ .free) (hfiles : t.files = if o' = .file then 1 else 0)
    (howns : q.owns = true ↔ o' = .call p) (hinside : q.inside = true ↔ t.sem = some p)
    (hfree : q = openFree → o' = .free)
    (hothers : ∀ r ≠ p, (o = .call r ↔ o' = .call r) ∧ (s.sem = some r ↔ t.sem = some r) ∧
      (s.phase r = openFree → o' = .free)) : Account t o' := by
  have hp : t.phase p = q := by rw [hphase, Function.update_self]
  have hr : ∀ r, r ≠ p → t.phase r = s.phase r := fun r hne ↦ by
    rw [hphase, Function.update_of_ne hne]
  refine ⟨hdev, hfiles, fun r ↦ ?_, fun r ↦ ?_, fun r ↦ ?_⟩ <;> by_cases hne : r = p
  · rw [hne, hp, howns]
  · rw [hr r hne, h.owns r, (hothers r hne).1]
  · rw [hne, hp, hinside]
  · rw [hr r hne, h.inside r, (hothers r hne).2.1]
  · rw [hne, hp]
    exact hfree
  · rw [hr r hne]
    exact (hothers r hne).2.2

theorem Account.sem_eq (h : Account s o) {p : ℕ} (hp : (s.phase p).inside = true) :
    s.sem = some p :=
  (h.inside p).mp hp

theorem Account.sem_ne (h : Account s o) {p : ℕ} (hp : (s.phase p).inside = false) :
    s.sem ≠ some p := fun hs ↦ by
  rw [← h.inside p, hp] at hs
  cases hs

theorem Account.eq_call (h : Account s o) {p : ℕ} (hp : (s.phase p).owns = true) :
    o = .call p :=
  (h.owns p).mp hp

theorem Account.ne_call (h : Account s o) {p : ℕ} (hp : (s.phase p).owns = false) :
    o ≠ .call p := fun ho ↦ by
  rw [← h.owns p, hp] at ho
  cases ho

/-- Whoever has read `dev_open` as 0 is alone inside. -/
theorem Account.unmarked_unique (h : Account s o) {p r : ℕ}
    (hp : (s.phase p).inside = true) (hr : s.phase r = openFree) : r = p := by
  have hr' : s.sem = some r := h.sem_eq (by rw [hr]; rfl)
  exact Option.some.inj (hr'.symm.trans (h.sem_eq hp))

theorem Account.eq_file (h : Account s o) (hf : 0 < s.files) : o = .file := by
  by_contra hne
  rw [h.files, if_neg hne] at hf
  exact Nat.lt_irrefl 0 hf

theorem account_open (h : Account s o) {p : ℕ} (he : s.phase p = idle) :
    Account (effect s (.open p)) o := by
  have hown : o ≠ .call p := h.ne_call (by rw [he]; rfl)
  have hsem : s.sem ≠ some p := h.sem_ne (by rw [he]; rfl)
  exact h.move p openWait rfl h.devOpen h.files (iff_of_false Bool.false_ne_true hown)
    (iff_of_false Bool.false_ne_true hsem) (by simp) fun r _ ↦ ⟨Iff.rfl, Iff.rfl, h.unmarked r⟩

theorem account_release (h : Account s o) {p : ℕ} (he : s.phase p = idle)
    (hf : 0 < s.files) : Account (effect s (.release p)) (.call p) := by
  have ho := h.eq_file hf
  have hsem : s.sem ≠ some p := h.sem_ne (by rw [he]; rfl)
  have hfiles : s.files = 1 := by rw [h.files, if_pos ho]
  have hdev : s.devOpen = true := h.devOpen.mpr (by rw [ho]; simp)
  refine h.move p releaseWait rfl (iff_of_true hdev (by simp)) (by simp [effect, hfiles])
    (iff_of_true rfl rfl) (iff_of_false Bool.false_ne_true hsem) (by simp)
    fun r hne ↦ ⟨?_, Iff.rfl, fun hr ↦ ?_⟩
  · simp [ho, Ne.symm hne]
  · simpa [ho] using h.unmarked r hr

theorem account_down (h : Account s o) {p : ℕ} (he : (s.phase p).waiting = true)
    (hs : s.sem = none) : Account (effect s (.down p)) o := by
  have howns : (s.phase p).enter.owns = (s.phase p).owns := by
    cases hp : s.phase p <;> simp [hp, Phase.waiting] at he <;> rfl
  have hinside : (s.phase p).enter.inside = true := by
    cases hp : s.phase p <;> simp [hp, Phase.waiting] at he <;> rfl
  have hfree : (s.phase p).enter ≠ openFree := by
    cases hp : s.phase p <;> simp [Phase.enter]
    simp [hp, Phase.waiting] at he
  refine h.move p _ rfl h.devOpen h.files (howns ▸ h.owns p) (iff_of_true hinside rfl)
    (fun hp ↦ absurd hp hfree) fun r hne ↦ ⟨Iff.rfl, ?_, h.unmarked r⟩
  simp [effect, hs, Ne.symm hne]

theorem account_signal (h : Account s o) {p : ℕ} (he : (s.phase p).waiting = true) :
    Account (effect s (.signal p)) (if s.phase p = releaseWait then .lost else o) := by
  have hsem : s.sem ≠ some p := by
    apply h.sem_ne
    cases hp : s.phase p <;> simp [hp, Phase.waiting] at he <;> rfl
  by_cases hrel : s.phase p = releaseWait
  · have ho : o = .call p := h.eq_call (by rw [hrel]; rfl)
    have hdev : s.devOpen = true := h.devOpen.mpr (by rw [ho]; simp)
    have hfiles : s.files = 0 := by rw [h.files, ho]; rfl
    rw [if_pos hrel]
    refine h.move p idle rfl (iff_of_true hdev (by simp)) hfiles
      (iff_of_false Bool.false_ne_true (by simp)) (iff_of_false Bool.false_ne_true hsem) (by simp)
      fun r hne ↦ ⟨by simp [ho, Ne.symm hne], Iff.rfl, fun hr ↦ ?_⟩
    simpa [ho] using h.unmarked r hr
  · have hown : o ≠ .call p := by
      apply h.ne_call
      cases hp : s.phase p <;> simp [hp, Phase.waiting] at he hrel ⊢
      rfl
    rw [if_neg hrel]
    exact h.move p idle rfl h.devOpen h.files (iff_of_false Bool.false_ne_true hown)
      (iff_of_false Bool.false_ne_true hsem) (by simp) fun r _ ↦ ⟨Iff.rfl, Iff.rfl, h.unmarked r⟩

/-- A process inside goes on to `q` without touching `dev_open`. -/
theorem Account.stay (h : Account s o) {p : ℕ} (he : (s.phase p).inside = true) (q : Phase)
    (hq : q.inside = true) (howns : q.owns = (s.phase p).owns)
    (hfree : q = openFree → o = .free) : Account (s.goto p q) o :=
  h.move p q rfl h.devOpen h.files (howns ▸ h.owns p) (iff_of_true hq (h.sem_eq he)) hfree
    fun r _ ↦ ⟨Iff.rfl, Iff.rfl, h.unmarked r⟩

theorem account_test (h : Account s o) {p : ℕ} (he : s.phase p = openEntered) :
    Account (effect s (.test p)) o := by
  have hin : (s.phase p).inside = true := by rw [he]; rfl
  cases hdev : s.devOpen with
  | true =>
      have hgoto : effect s (.test p) = s.goto p openBusy := by simp [effect, hdev]
      rw [hgoto]
      exact h.stay hin openBusy rfl (by rw [he]; rfl) (by simp)
  | false =>
      have hgoto : effect s (.test p) = s.goto p openFree := by simp [effect, hdev]
      rw [hgoto]
      refine h.stay hin openFree rfl (by rw [he]; rfl) fun _ ↦ ?_
      by_contra ho
      simp [h.devOpen.mpr ho] at hdev

theorem account_mark (h : Account s o) {p : ℕ} (he : s.phase p = openFree) :
    Account (effect s (.mark p)) (.call p) := by
  have ho := h.unmarked p he
  have hin : (s.phase p).inside = true := by rw [he]; rfl
  have hfiles : s.files = 0 := by rw [h.files, ho]; rfl
  refine h.move p openMarked rfl (iff_of_true rfl (by simp)) hfiles (iff_of_true rfl rfl)
    (iff_of_true rfl (h.sem_eq hin)) (by simp) fun r hne ↦ ⟨?_, Iff.rfl, fun hr ↦ ?_⟩
  · simp [ho, Ne.symm hne]
  · exact absurd (h.unmarked_unique hin hr) hne

theorem account_clear (h : Account s o) {p : ℕ} (he : s.phase p = releaseEntered) :
    Account (effect s (.clear p)) .free := by
  have hin : (s.phase p).inside = true := by rw [he]; rfl
  have ho : o = .call p := h.eq_call (by rw [he]; rfl)
  have hfiles : s.files = 0 := by rw [h.files, ho]; rfl
  refine h.move p releaseCleared rfl (iff_of_false Bool.false_ne_true (by simp)) hfiles
    (iff_of_false Bool.false_ne_true (by simp)) (iff_of_true rfl (h.sem_eq hin)) (by simp)
    fun r hne ↦ ⟨?_, Iff.rfl, fun _ ↦ rfl⟩
  simp [ho, Ne.symm hne]

theorem account_up (h : Account s o) {p : ℕ}
    (he : s.phase p = openBusy ∨ s.phase p = openMarked ∨ s.phase p = releaseCleared) :
    Account (effect s (.up p)) (if s.phase p = openMarked then .file else o) := by
  have hin : (s.phase p).inside = true := by rcases he with he | he | he <;> rw [he] <;> rfl
  have hsem : ∀ r ≠ p, (s.sem = some r ↔ (none : Option ℕ) = some r) := fun r hne ↦ by
    simp [h.sem_eq hin, Ne.symm hne]
  by_cases hmark : s.phase p = openMarked
  · have ho : o = .call p := h.eq_call (by rw [hmark]; rfl)
    have hdev : s.devOpen = true := h.devOpen.mpr (by rw [ho]; simp)
    have hfiles : s.files = 0 := by rw [h.files, ho]; rfl
    rw [if_pos hmark]
    refine h.move p idle rfl (iff_of_true hdev (by simp)) (by simp [effect, hmark, hfiles])
      (iff_of_false Bool.false_ne_true (by simp)) (iff_of_false Bool.false_ne_true (by simp [effect]))
      (by simp) fun r hne ↦ ⟨by simp [ho, Ne.symm hne], hsem r hne, fun hr ↦ ?_⟩
    exact absurd (h.unmarked_unique hin hr) hne
  · have hown : o ≠ .call p := h.ne_call (by
      rcases he with he | he | he <;> first | exact absurd he hmark | rw [he]; rfl)
    rw [if_neg hmark]
    exact h.move p idle rfl h.devOpen (by simpa [effect, hmark] using h.files)
      (iff_of_false Bool.false_ne_true hown) (iff_of_false Bool.false_ne_true (by simp [effect]))
      (by simp) fun r hne ↦ ⟨Iff.rfl, hsem r hne, h.unmarked r⟩

theorem account_step {e : Event} (h : Account s o) (ht : step s e = some t) :
    Account t (handOver s o e) := by
  obtain ⟨he, rfl⟩ := guarded_eq_some.mp ht
  cases e with
  | «open» p => exact account_open h he
  | release p => exact account_release h he.1 he.2
  | down p => exact account_down h he.1 he.2
  | signal p => exact account_signal h he.1
  | test p => exact account_test h he
  | mark p => exact account_mark h he
  | clear p => exact account_clear h he
  | up p => exact account_up h he

/-- The flag is lost in the step in which a release is interrupted, and for good. -/
theorem handOver_eq_lost_iff {e : Event} (h : Account s o) (he : Enabled s e) :
    handOver s o e = .lost ↔ o = .lost ∨ ¬ ReleaseUndisturbed s e := by
  cases e with
  | «open» p | down p | test p => simp [handOver, ReleaseUndisturbed]
  | release p => simp [handOver, ReleaseUndisturbed, h.eq_file he.2]
  | signal p =>
      by_cases hrel : s.phase p = releaseWait <;> simp [handOver, ReleaseUndisturbed, hrel]
  | mark p => simp [handOver, ReleaseUndisturbed, h.unmarked p he]
  | clear p =>
      have ho : o = .call p := h.eq_call (by rw [show s.phase p = releaseEntered from he]; rfl)
      simp [handOver, ReleaseUndisturbed, ho]
  | up p =>
      by_cases hmark : s.phase p = openMarked
      · have ho : o = .call p := h.eq_call (by rw [hmark]; rfl)
        simp [handOver, ReleaseUndisturbed, hmark, ho]
      · simp [handOver, ReleaseUndisturbed, hmark]

theorem account_exec {es : List Event} (h : Account s o) (hrun : exec step s es = some t) :
    ∃ o', Account t o' ∧ (o' = .lost ↔ o = .lost ∨ ¬ Along step ReleaseUndisturbed s es) := by
  induction es generalizing s o with
  | nil =>
      cases hrun
      exact ⟨o, h, by simp⟩
  | cons e es ih =>
      obtain ⟨r, hr, hrest⟩ := exec_cons.mp hrun
      obtain ⟨o', ho', hlost⟩ := ih (account_step h hr) hrest
      refine ⟨o', ho', ?_⟩
      have halong : Along step ReleaseUndisturbed s (e :: es) ↔
          ReleaseUndisturbed s e ∧ Along step ReleaseUndisturbed r es := by
        simp [Along, hr]
      rw [hlost, handOver_eq_lost_iff h (guarded_eq_some.mp hr).1, halong]
      tauto

end

/-- At most one file is open at a time; and when no call is in progress, `dev_open`
tells whether one is, exactly if no release has been interrupted. -/
theorem exclusive_and_available {es : List Event} {s : Device}
    (hrun : exec step start es = some s) :
    s.files ≤ 1 ∧ (Quiet s → ((s.devOpen = true ↔ s.files ≠ 0) ↔
      Along step ReleaseUndisturbed start es)) := by
  obtain ⟨o, ho, hlost⟩ := account_exec account_start hrun
  have hfiles := ho.files
  refine ⟨by split at hfiles <;> omega, fun hquiet ↦ ?_⟩
  have hcall : ∀ p, o ≠ .call p := fun p ↦ ho.ne_call (by rw [hquiet p]; rfl)
  rw [ho.devOpen, hfiles]
  cases o with
  | free => simpa using hlost
  | file => simpa using hlost
  | call p => exact absurd rfl (hcall p)
  | lost => simpa using hlost

/-- While process 1 tries to open the device, process 0 closes its file and is
interrupted. -/
def interruptedClose : List Event :=
  [.open 0, .down 0, .test 0, .mark 0, .up 0, .open 1, .down 1, .release 0, .signal 0, .test 1,
    .up 1]

theorem exclusive_and_available_interruptedClose :
    ∃ s, exec step start interruptedClose = some s ∧ s.files ≤ 1 ∧
      (Quiet s → ((s.devOpen = true ↔ s.files ≠ 0) ↔
        Along step ReleaseUndisturbed start interruptedClose)) :=
  ⟨_, rfl, exclusive_and_available rfl⟩

theorem devOpen_interruptedClose :
    ∃ s, exec step start interruptedClose = some s ∧ Quiet s ∧
      ¬ (s.devOpen = true ↔ s.files ≠ 0) := by
  refine ⟨_, rfl, fun p ↦ ?_, by decide⟩
  match p with
  | 0 => rfl
  | 1 => rfl
  | _ + 2 => rfl

end Spif.OpenSem
