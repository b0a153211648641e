import Spif.Hw.OutputFrames

/-!
# Frames and the tick

Whatever the frame size, the tick closes the open frame.  When the frame size is zero,
nothing else does.
-/

namespace Spif.EvtDispatcher

open Clocked Frames

/-- The number of cycles before `tck_cnt` is found to be 0. -/
def untilTick (s : State) : ℕ :=
  if s.tckCnt = 0 then 0 else 75 * (s.tckCnt.toNat - 1) + s.usCnt.toNat + 1

theorem usCnt_next {s : State} (hus : s.usCnt.toNat ≤ 74) (i : Input) :
    (next s i).usCnt.toNat ≤ 74 := by
  by_cases hzero : s.usCnt = 0
  · simp [next, usCntNext, hzero, usClkCnt]
  · have hnext : (next s i).usCnt = s.usCnt - 1 := by
      simp [next, usCntNext, show ¬ s.usCnt = 0#32 from hzero]
    rw [hnext]
    bv_omega

theorem untilTick_next {s : State} (hus : s.usCnt.toNat ≤ 74) (htick : s.tckCnt ≠ 0)
    (i : Input) : untilTick (next s i) + 1 = untilTick s := by
  have hne : ¬ s.tckCnt = 0#32 := htick
  have hpos : 0 < s.tckCnt.toNat := by bv_omega
  by_cases hzero : s.usCnt = 0
  · have htck : (next s i).tckCnt = s.tckCnt - 1 := by simp [next, tckCntNext, hne, hzero]
    have hcnt : (next s i).usCnt = 74 := by simp [next, usCntNext, hzero, usClkCnt]
    have hsub : (s.tckCnt - 1).toNat = s.tckCnt.toNat - 1 := by bv_omega
    rw [untilTick, untilTick, htck, hcnt, if_neg htick, hzero]
    split
    · rename_i hone
      have : s.tckCnt.toNat = 1 := by bv_omega
      simp [this]
    · rename_i hone
      have : 1 < s.tckCnt.toNat := by bv_omega
      have hus74 : (74 : BitVec 32).toNat = 74 := by decide
      have hus0 : (0 : BitVec 32).toNat = 0 := by decide
      omega
  · have htck : (next s i).tckCnt = s.tckCnt := by
      simp [next, tckCntNext, hne, show ¬ s.usCnt = 0#32 from hzero]
    have hcnt : (next s i).usCnt = s.usCnt - 1 := by
      simp [next, usCntNext, show ¬ s.usCnt = 0#32 from hzero]
    have hsub : (s.usCnt - 1).toNat + 1 = s.usCnt.toNat := by bv_omega
    rw [untilTick, untilTick, htck, hcnt, if_neg htick, if_neg htick]
    omega

theorem untilTick_reload {s : State} (hus : s.usCnt.toNat ≤ 74) (htick : s.tckCnt = 0)
    (i : Input) : untilTick (next s i) ≤ 75 * i.outputTickIn.toNat := by
  have htck : (next s i).tckCnt = i.outputTickIn := by simp [next, tckCntNext, htick]
  have hcnt := usCnt_next hus i
  rw [untilTick, htck]
  split
  · exact Nat.zero_le _
  · rename_i hne
    have hpos : 0 < i.outputTickIn.toNat := by bv_omega
    omega

variable {c T : ℕ} {o : Observed} {i : Input}

/-! ## A short tick -/

/-- No more events are launched than there are cycles before the tick. -/
structure TickInv (T c : ℕ) (o : Observed) : Prop where
  us : o.state.usCnt.toNat ≤ 74
  rtg : RtgInv o
  unsent : o.sent = false → ahead c o.state = 0
  credit : ahead c o.state + untilTick o.state ≤ 75 * T
  closing : o.state.evtVldOut = true → o.state.evtLastOut = true → c ≤ 75 * T

theorem tickInv_start (T : ℕ) (s : State) : TickInv T 0 (.start s) where
  us := show usClkCnt.toNat ≤ 74 by decide
  rtg h := by cases h
  unsent _ := rfl
  credit := Nat.zero_le _
  closing h := by cases h

theorem TickInv.words_le (ho : TickInv T c o) (hvld : o.state.evtVldOut = true) :
    c ≤ 75 * T := by
  cases hlast : o.state.evtLastOut with
  | true => exact ho.closing hvld hlast
  | false =>
      have hle := ho.credit
      simp only [ahead, hvld, hlast, if_true, Bool.false_eq_true, if_false] at hle
      omega

theorem TickInv.inFrame_le (ho : TickInv T c o) (i : Input) :
    inFrame Sent.last c (stream o i) ≤ 75 * T := by
  cases hbusy : evtBusy o.state i with
  | false =>
      rw [inFrame_free hbusy]
      exact (Nat.le_add_right _ _).trans ho.credit
  | true =>
      have hvld : o.state.evtVldOut = true := by
        simp only [evtBusy, Bool.and_eq_true] at hbusy
        exact hbusy.1
      rw [inFrame_busy hbusy]
      exact ho.words_le hvld

theorem TickInv.framed_stream (ho : TickInv T c o) (i : Input) :
    Framed Sent.last (fun n _ ↦ n ≤ 75 * T + 1) c (stream o i) := by
  unfold stream
  cases hvld : o.state.evtVldOut with
  | false => trivial
  | true =>
      cases i.evtRdyIn with
      | false => trivial
      | true => exact ⟨Nat.succ_le_succ (ho.words_le hvld), trivial⟩

/-- What is launched at a tick closes a frame; otherwise there is one cycle less. -/
theorem TickInv.credit_watch (ho : TickInv T c o) (htick : i.outputTickIn.toNat ≤ T) :
    ahead (inFrame Sent.last c (stream o i)) (watch o i).state + untilTick (watch o i).state ≤
      75 * T := by
  have hcredit := ho.credit
  have hone : (sndEvent o.state i).toNat ≤ 1 := Bool.toNat_le _
  rw [ahead_watch]
  by_cases hzero : o.state.tckCnt = 0
  · have hreload : untilTick (watch o i).state ≤ 75 * i.outputTickIn.toNat :=
      untilTick_reload ho.us hzero i
    suffices hahead : (if sndFrame o.state i then 0
        else ahead c o.state + (sndEvent o.state i).toNat) = 0 by omega
    split
    · rfl
    · rename_i hfrm
      -- without an event to dispatch there is no open frame
      obtain ⟨hav, hrtg⟩ : pktAvailable o.state i = false ∧ o.state.rtgRdy = false := by
        have hnot : ¬ tickFrame o.state i = true := fun h ↦ hfrm (by simp [sndFrame_eq, h])
        simpa [tickFrame, hzero] using hnot
      have hsent : o.sent = false := by
        cases h : o.sent with
        | false => rfl
        | true => simp [ho.rtg h] at hrtg
      simp [ho.unsent hsent, sndEvent, hav]
  · have hleft : untilTick (watch o i).state + 1 = untilTick o.state :=
      untilTick_next ho.us hzero i
    split <;> omega

theorem TickInv.watch (ho : TickInv T c o) (htick : i.outputTickIn.toNat ≤ T) :
    TickInv T (inFrame Sent.last c (stream o i)) (watch o i) where
  us := usCnt_next ho.us i
  rtg := rtgInv_watch ho.rtg i
  unsent h := by
    rw [ahead_watch]
    cases hfrm : sndFrame o.state i with
    | true => rfl
    | false =>
        obtain ⟨hevt, hsent⟩ : sndEvent o.state i = false ∧ o.sent = false := by
          simpa [EvtDispatcher.watch, hfrm] using h
        simp [hevt, ho.unsent hsent]
  credit := ho.credit_watch htick
  closing _ _ := ho.inFrame_le i

/-- A tick of `T` microseconds bounds the frames, whatever their size. -/
theorem framed_of_tick_le (s : State) {ins : List Input}
    (htick : ∀ i ∈ ins, i.outputTickIn.toNat ≤ T) :
    Framed Sent.last (fun n _ ↦ n ≤ 75 * T + 1) 0 (emit watch stream (.start s) ins) :=
  framed_emit (I := TickInv T) (C := fun _ i ↦ i.outputTickIn.toNat ≤ T)
    (fun _ _ i ho hi ↦ ⟨ho.framed_stream i, ho.watch hi⟩) (tickInv_start T s)
    (along_of_forall_mem htick _)

/-! ## A burst of packets -/

def Bursting (i : Input) : Prop := i.pktVldIn = true ∧ i.evtRdyIn = true

/-- The event register is filled in every cycle of a burst. -/
structure Steady (s : State) : Prop where
  pktRdy : s.pktRdyOut = true
  rtgRdy : s.rtgRdy = true
  us : s.usCnt.toNat ≤ 74

/-- Until the tick, an event is launched in every cycle of a burst. -/
theorem Steady.next {s : State} (hs : Steady s) (hi : Bursting i) (htick : untilTick s ≠ 0) :
    Steady (next s i) ∧ untilTick (next s i) + 1 = untilTick s ∧
      (next s i).evtVldOut = true ∧ (next s i).evtLastOut = (s.frmCnt == 1) ∧
      (next s i).frmCnt =
        if s.frmCnt = 0 ∨ s.frmCnt = 1 then i.outputSizeIn else s.frmCnt - 1 := by
  have hne : s.tckCnt ≠ 0 := fun h ↦ htick (if_pos h)
  have hne' : ¬ s.tckCnt = 0#32 := hne
  have hav : pktAvailable s i = true := by simp [pktAvailable, hs.pktRdy, hi.1]
  have hbusy : evtBusy s i = false := by simp [evtBusy, hi.2]
  have hevt : sndEvent s i = true := by simp [sndEvent, hav, hs.rtgRdy, hbusy]
  have hfrm : sndFrame s i = (s.frmCnt == 1) := by simp [sndFrame, hne', hbusy]
  refine ⟨⟨rfl, ?_, usCnt_next hs.us i⟩, untilTick_next hs.us hne i, ?_, ?_, ?_⟩
  · simp only [EvtDispatcher.next, rtgRdyNext, hav, hs.rtgRdy]
    cases sndFrame s i <;> rfl
  · simp [EvtDispatcher.next, evtVldOutNext, hevt]
  · simp only [EvtDispatcher.next, evtLastOutNext, hfrm, hbusy]
    cases s.frmCnt == 1 <;> rfl
  · simp only [EvtDispatcher.next, frmCntNext, hfrm, hevt, if_true, Bool.or_eq_true,
      beq_iff_eq, or_comm]

/-- Each event but the last takes one from the credit. -/
theorem Steady.frmCnt_next {s : State} (hs : Steady s) (hi : Bursting i) (htick : untilTick s ≠ 0)
    (hcnt : 1 < s.frmCnt.toNat) : (EvtDispatcher.next s i).frmCnt.toNat + 1 = s.frmCnt.toNat := by
  obtain ⟨-, -, -, -, hfrm⟩ := hs.next hi htick
  have hmany : ¬ (s.frmCnt = 0 ∨ s.frmCnt = 1) := by
    rintro (h | h) <;> simp [h] at hcnt
  rw [hfrm, if_neg hmany]
  bv_omega

/-- The credit is used up in as many cycles, and the next frame gets a full one. -/
theorem Steady.reload {n : ℕ} : ∀ {o : Observed}, Steady o.state → Bursting i →
    o.state.frmCnt.toNat = n + 1 → n < untilTick o.state →
      Steady (run watch o (List.replicate (n + 1) i)).state ∧
        untilTick (run watch o (List.replicate (n + 1) i)).state + (n + 1) =
          untilTick o.state ∧
        (run watch o (List.replicate (n + 1) i)).state.frmCnt = i.outputSizeIn := by
  induction n with
  | zero =>
      intro o hs hi hcnt htick
      obtain ⟨hsteady, hleft, -, -, hfrm⟩ := hs.next hi (by omega)
      have hone : o.state.frmCnt = 1 := by bv_omega
      exact ⟨hsteady, hleft, hfrm.trans (if_pos (.inr hone))⟩
  | succ n ih =>
      intro o hs hi hcnt htick
      obtain ⟨hsteady, hleft, -⟩ := hs.next hi (by omega)
      have hless := hs.frmCnt_next hi (by omega) (by omega)
      obtain ⟨hlate, hticks, hsize⟩ := ih (o := watch o i) hsteady hi
        (show (EvtDispatcher.next o.state i).frmCnt.toNat = n + 1 by omega)
        (show n < untilTick (EvtDispatcher.next o.state i) by omega)
      rw [List.replicate_succ, run_cons]
      refine ⟨hlate, ?_, hsize⟩
      have hthis : untilTick (watch o i).state = untilTick (EvtDispatcher.next o.state i) := rfl
      omega

theorem stream_watch {o : Observed} (hi : Bursting i) (hvld : (watch o i).state.evtVldOut = true) :
    stream (watch o i) i = [⟨(watch o i).state.evtDataOut, (watch o i).state.evtLastOut,
      (watch o i).byTick⟩] := by
  simp [stream, hvld, hi.2]

/-- There is credit for more than `n` events, or none at all. -/
def OpenFor (n : ℕ) (s : State) (i : Input) : Prop :=
  s.frmCnt = 0 ∧ i.outputSizeIn = 0 ∨ n < s.frmCnt.toNat

theorem Steady.openFor_next {n : ℕ} {s : State} (hs : Steady s) (hi : Bursting i)
    (htick : untilTick s ≠ 0) (hopen : OpenFor (n + 1) s i) :
    OpenFor n (EvtDispatcher.next s i) i ∧ (EvtDispatcher.next s i).evtLastOut = false := by
  obtain ⟨-, -, -, hlast, hfrm⟩ := hs.next hi htick
  rw [hlast, beq_eq_false_iff_ne]
  rcases hopen with ⟨hzero, hsize⟩ | hlt
  · refine ⟨.inl ⟨?_, hsize⟩, ?_⟩
    · rw [hfrm, if_pos (.inl hzero), hsize]
    · rw [hzero]
      decide
  · have hless := hs.frmCnt_next hi htick (by omega)
    refine ⟨.inr (by omega), ?_⟩
    rintro hone
    simp [hone] at hlt

/-- No event of the burst closes the frame while it is open for one more. -/
theorem Steady.open_frame {n : ℕ} : ∀ {o : Observed}, Steady o.state → Bursting i →
    OpenFor n o.state i → n < untilTick o.state →
      ∃ xs x, emit watch stream o (List.replicate (n + 2) i) = stream o i ++ (xs ++ [x]) ∧
        xs.length = n ∧ ∀ y ∈ xs, y.last = false := by
  induction n with
  | zero =>
      intro o hs hi hopen htick
      obtain ⟨-, -, hvld, -⟩ := hs.next hi (by omega)
      exact ⟨[], _, by rw [← stream_watch hi hvld]; simp [List.replicate_succ], rfl, by simp⟩
  | succ n ih =>
      intro o hs hi hopen htick
      obtain ⟨hsteady, hleft, hvld, -⟩ := hs.next hi (by omega)
      obtain ⟨hopen', hlast⟩ := hs.openFor_next hi (by omega) hopen
      obtain ⟨xs, x, hemit, hlen, hxs⟩ := ih (o := watch o i) hsteady hi hopen'
        (show n < untilTick (EvtDispatcher.next o.state i) by omega)
      refine ⟨⟨(watch o i).state.evtDataOut, (watch o i).state.evtLastOut,
        (watch o i).byTick⟩ :: xs, x, ?_, by simp [hlen], ?_⟩
      · rw [List.replicate_succ, emit_cons, hemit, stream_watch hi hvld]
        rfl
      · intro y hy
        rcases List.mem_cons.mp hy with rfl | hmem
        · exact hlast
        · exact hxs y hmem

theorem watch_start (s : State) (i : Input) :
    (watch (.start s) i).state.pktRdyOut = true ∧ (watch (.start s) i).state.rtgRdy = false ∧
      (watch (.start s) i).state.usCnt = 73 ∧
      (watch (.start s) i).state.tckCnt = i.outputTickIn ∧
      (watch (.start s) i).state.frmCnt = i.outputSizeIn := by
  have hav : pktAvailable (reset s) i = false := by simp [pktAvailable, reset]
  have hfresh : Fresh (reset s) := ⟨rfl, rfl, rfl⟩
  have hfrm : sndFrame (reset s) i = false := (hfresh.quiet rfl i).1
  have hcnt : (reset s).frmCnt = 0 := rfl
  have hus : (reset s).usCnt = 74 := rfl
  refine ⟨rfl, ?_, ?_, rfl, ?_⟩
  · simp only [watch, Observed.start, next, rtgRdyNext, hav, hfrm]
    rfl
  · simp [watch, Observed.start, next, usCntNext, hus]
  · simp [watch, Observed.start, next, frmCntNext, hcnt]

theorem steady_start (s : State) {i j : Input} (hj : Bursting j) (hsize : i.outputSizeIn ≠ 1)
    (htick : i.outputTickIn ≠ 0) :
    Steady (watch (watch (.start s) i) j).state ∧
      untilTick (watch (watch (.start s) i) j).state + 2 = 75 * i.outputTickIn.toNat ∧
      (watch (watch (.start s) i) j).state.frmCnt =
        if i.outputSizeIn = 0 then j.outputSizeIn else i.outputSizeIn := by
  obtain ⟨hrdy, hrtg, hus, htck, hcnt⟩ := watch_start s i
  generalize watch (.start s) i = o at *
  have hav : pktAvailable o.state j = true := by simp [pktAvailable, hrdy, hj.1]
  have hevt : sndEvent o.state j = false := by simp [sndEvent, hrtg]
  have hfrm : sndFrame o.state j = false := by
    simp [sndFrame, htck, hcnt, show ¬ i.outputTickIn = 0#32 from htick,
      show ¬ i.outputSizeIn = 1#10 from hsize]
  have hle : o.state.usCnt.toNat ≤ 74 := by rw [hus]; decide
  have hne : o.state.tckCnt ≠ 0 := htck.symm ▸ htick
  have hleft : untilTick (watch o j).state + 1 = untilTick o.state := untilTick_next hle hne j
  have hfull : untilTick o.state + 1 = 75 * i.outputTickIn.toNat := by
    have hpos : 0 < i.outputTickIn.toNat := by bv_omega
    have hus73 : (73 : BitVec 32).toNat = 73 := rfl
    rw [untilTick, if_neg hne, htck, hus]
    omega
  refine ⟨⟨rfl, ?_, usCnt_next hle j⟩, by omega, ?_⟩
  · simp [watch, next, rtgRdyNext, hav, hfrm]
  · simp [watch, next, frmCntNext, hfrm, hevt, hcnt]

theorem Steady.exists_long_frame {M : ℕ} (hs : Steady o.state) (hi : Bursting i)
    (hopen : OpenFor M o.state i) (htick : M < untilTick o.state) (ws : List Sent) :
    ∃ f ∈ frames Sent.last (ws ++ emit watch stream o (List.replicate (M + 2) i)),
      M < f.length := by
  obtain ⟨xs, x, hemit, rfl, hxs⟩ := hs.open_frame hi hopen htick
  rw [hemit, ← List.append_assoc]
  exact exists_frame_length hxs _ x []

/-- A size of zero or above `M` from reset on. -/
theorem exists_long_frame {M : ℕ} (hM : 1 ≤ M) (s : State) (hi : Bursting i)
    (hsize : i.outputSizeIn = 0 ∨ M < i.outputSizeIn.toNat)
    (htick : M + 2 < 75 * i.outputTickIn.toNat) :
    ∃ f ∈ frames Sent.last (emit watch stream (.start s) (List.replicate (M + 4) i)),
      M < f.length := by
  have hone : i.outputSizeIn ≠ 1 := by
    rintro h
    simp [h] at hsize
    omega
  have htick0 : i.outputTickIn ≠ 0 := by
    rintro h
    simp [h] at htick
  obtain ⟨hsteady, hleft, hcnt⟩ := steady_start s hi hone htick0
  rw [ite_self] at hcnt
  have hlong := hsteady.exists_long_frame (M := M) hi
    (hsize.imp (fun h ↦ ⟨hcnt.trans h, h⟩) fun h ↦ by rwa [hcnt]) (by omega)
    (stream (.start s) i ++ stream (watch (.start s) i) i)
  simpa only [List.replicate_succ, emit_cons, List.append_assoc] using hlong

/-- A size of zero or above `M` after the first cycle, in which the size was `n + 1`. -/
theorem exists_long_frame_of_change {n M : ℕ} (hn : 1 ≤ n) (s : State) {j : Input}
    (hi : i.outputSizeIn.toNat = n + 1) (hj : Bursting j)
    (hsize : j.outputSizeIn = 0 ∨ M < j.outputSizeIn.toNat)
    (htick : n + M + 3 < 75 * i.outputTickIn.toNat) :
    ∃ f ∈ frames Sent.last (emit watch stream (.start s)
        (i :: (List.replicate (n + 2) j ++ List.replicate (M + 2) j))),
      M < f.length := by
  have hone : i.outputSizeIn ≠ 1 := by
    rintro h
    simp [h] at hi
    omega
  have hzero : i.outputSizeIn ≠ 0 := by
    rintro h
    simp [h] at hi
  have htick0 : i.outputTickIn ≠ 0 := by
    rintro h
    simp [h] at htick
  obtain ⟨hsteady, hleft, hcnt⟩ := steady_start s hj hone htick0
  rw [if_neg hzero] at hcnt
  obtain ⟨hlate, hticks, hfull⟩ := hsteady.reload (n := n) hj (by rw [hcnt, hi]) (by omega)
  have hlong := hlate.exists_long_frame (M := M) hj
    (hsize.imp (fun h ↦ ⟨hfull.trans h, h⟩) fun h ↦ by rwa [hfull]) (by omega)
    (emit watch stream (.start s) (i :: List.replicate (n + 2) j))
  have hrun : run watch (.start s) (i :: List.replicate (n + 2) j) =
      run watch (watch (watch (.start s) i) j) (List.replicate (n + 1) j) := by
    rw [List.replicate_succ, run_cons, run_cons]
  rwa [← hrun, ← emit_append, List.cons_append] at hlong

end Spif.EvtDispatcher
