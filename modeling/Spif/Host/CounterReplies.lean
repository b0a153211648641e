import Spif.Host.CountEvents

/-!
# Reading the diagnostic counters

At its end `count_events` reads two diagnostic counters of spif, to be compared with what
the cores have counted.  The requests are configuration packets without a payload, and the
replies come back among the events.
-/

namespace Spif.CountEvents

open Clocked RegBank SpifLocal Interleave Spif.Top

def rplyMsk : Word := 0xffffff00

def sentCtr : Word := 1

def dropCtr : Word := 2

/-- The global variables for the replies of spif. -/
structure Replies where
  spifCntPkts : Word
  spifCntDrop : Word
  spifCnt : Word
deriving DecidableEq, Repr

def Replies.start : Replies := ⟨0, 0, 0⟩

/-- `rcv_replies`, the callback for packets with and without a payload. -/
def rcvReplies (r : Replies) (key payload : Word) : Replies :=
  if key &&& rplyMsk = rplyKey then
    if key &&& ~~~rplyMsk = spifCountIn then
      { r with spifCntPkts := payload, spifCnt := r.spifCnt ||| sentCtr }
    else if key &&& ~~~rplyMsk = spifCountInDrop then
      { r with spifCntDrop := payload, spifCnt := r.spifCnt ||| dropCtr }
    else r
  else r

/-- What is printed at the end; `none` stands for a read that failed. -/
def sentReport (r : Replies) : Option Word :=
  if r.spifCnt &&& sentCtr ≠ 0 then some r.spifCntPkts else none

def dropReport (r : Replies) : Option Word :=
  if r.spifCnt &&& dropCtr ≠ 0 then some r.spifCntDrop else none

/-! ## Replies -/

/-- The value that a reply carries for a counter. -/
def answerTo (counter : Word) (x : Word × Word) : Option Word :=
  if x.1 &&& rplyMsk = rplyKey ∧ x.1 &&& ~~~rplyMsk = counter then some x.2 else none

theorem or_and_self (x y : Word) : (x ||| y) &&& y = y := by
  apply BitVec.eq_of_getLsbD_eq
  intro i _
  cases hy : y.getLsbD i <;> simp [hy]

theorem or_and_of_disjoint {x y z : Word} (h : y &&& z = 0) : (x ||| y) &&& z = x &&& z := by
  rw [BitVec.and_or_distrib_right, h]
  exact BitVec.or_zero

/-- A packet is the reply for one of the two counters, or it is ignored. -/
theorem rcvReplies_cases (r : Replies) (x : Word × Word) :
    (answerTo spifCountIn x = some x.2 ∧ answerTo spifCountInDrop x = none ∧
      rcvReplies r x.1 x.2 = { r with spifCntPkts := x.2, spifCnt := r.spifCnt ||| sentCtr }) ∨
    (answerTo spifCountIn x = none ∧ answerTo spifCountInDrop x = some x.2 ∧
      rcvReplies r x.1 x.2 = { r with spifCntDrop := x.2, spifCnt := r.spifCnt ||| dropCtr }) ∨
    (answerTo spifCountIn x = none ∧ answerTo spifCountInDrop x = none ∧
      rcvReplies r x.1 x.2 = r) := by
  have hne : spifCountIn ≠ spifCountInDrop := by decide
  by_cases hkey : x.1 &&& rplyMsk = rplyKey
  · by_cases hsent : x.1 &&& ~~~rplyMsk = spifCountIn
    · simp [rcvReplies, answerTo, hkey, hsent, hne]
    · by_cases hdrop : x.1 &&& ~~~rplyMsk = spifCountInDrop
      · simp [rcvReplies, answerTo, hkey, hdrop, hne.symm]
      · simp [rcvReplies, answerTo, hkey, hsent, hdrop]
  · simp [rcvReplies, answerTo, hkey]

theorem sentReport_rcvReplies (r : Replies) (x : Word × Word) :
    sentReport (rcvReplies r x.1 x.2) =
      ((answerTo spifCountIn x).map some).getD (sentReport r) := by
  rcases rcvReplies_cases r x with ⟨hsent, -, hr⟩ | ⟨hsent, -, hr⟩ | ⟨hsent, -, hr⟩ <;>
    rw [hsent, hr]
  · simp only [sentReport, or_and_self]
    rfl
  · have hdisj : dropCtr &&& sentCtr = 0 := rfl
    simp only [sentReport, or_and_of_disjoint hdisj]
    rfl
  · rfl

theorem dropReport_rcvReplies (r : Replies) (x : Word × Word) :
    dropReport (rcvReplies r x.1 x.2) =
      ((answerTo spifCountInDrop x).map some).getD (dropReport r) := by
  rcases rcvReplies_cases r x with ⟨-, hdrop, hr⟩ | ⟨-, hdrop, hr⟩ | ⟨-, hdrop, hr⟩ <;>
    rw [hdrop, hr]
  · have hdisj : sentCtr &&& dropCtr = 0 := rfl
    simp only [dropReport, or_and_of_disjoint hdisj]
    rfl
  · simp only [dropReport, or_and_self]
    rfl
  · rfl

/-- A report is the latest reply for its counter. -/
theorem reports_foldl (xs : List (Word × Word)) :
    sentReport (xs.foldl (fun r x ↦ rcvReplies r x.1 x.2) Replies.start) =
        latest (answerTo spifCountIn) xs ∧
      dropReport (xs.foldl (fun r x ↦ rcvReplies r x.1 x.2) Replies.start) =
        latest (answerTo spifCountInDrop) xs := by
  have hsent := run_latest sentReport _ sentReport_rcvReplies Replies.start xs
  have hdrop := run_latest dropReport _ dropReport_rcvReplies Replies.start xs
  rw [latest_map_value] at hsent hdrop
  refine ⟨hsent.trans ?_, hdrop.trans ?_⟩
  · cases latest (answerTo spifCountIn) xs <;> rfl
  · cases latest (answerTo spifCountInDrop) xs <;> rfl

/-- The value of counter `k`, for a read of it. -/
def reading (k : Fin numDcRegs) (x : Packet × (Fin numDcRegs → Word) × Word) : Option Word :=
  if x.1.key.extractLsb' 0 8 = BitVec.ofNat 8 (64 + k) then some (x.2.1 k) else none

def replyTo (x : Packet × (Fin numDcRegs → Word) × Word) : Word × Word :=
  (x.2.2 ||| (x.1.key.extractLsb' 0 8).setWidth 32,
    ((PktReceiver.counter (x.1.key.extractLsb' 0 8)).map x.2.1).getD badReg)

theorem answerOf_of_read {x : Packet × (Fin numDcRegs → Word) × Word} (hx : x.1.lng = false) :
    answerOf x = some (replyTo x) := by
  simp [answerOf, replyTo, hx]

theorem answerTo_replyTo (k : Fin numDcRegs) {x : Packet × (Fin numDcRegs → Word) × Word}
    (hx : x.2.2 = rplyKey) : answerTo (BitVec.ofNat 32 (64 + k)) (replyTo x) = reading k x := by
  have hkey : ∀ addr : BitVec 8, (rplyKey ||| addr.setWidth 32) &&& rplyMsk = rplyKey ∧
      (rplyKey ||| addr.setWidth 32) &&& ~~~rplyMsk = addr.setWidth 32 := by decide +kernel
  have haddr : ∀ (addr : BitVec 8) (k : Fin numDcRegs),
      addr.setWidth 32 = BitVec.ofNat 32 (64 + k) ↔ addr = BitVec.ofNat 8 (64 + k) := by
    decide +kernel
  have hcounter : ∀ k : Fin numDcRegs, PktReceiver.counter (BitVec.ofNat 8 (64 + k)) = some k := by
    decide
  obtain ⟨hmsk, hnot⟩ := hkey (x.1.key.extractLsb' 0 8)
  rw [answerTo, replyTo, hx]
  simp only [hmsk, hnot, true_and, haddr, reading]
  split
  · rename_i h
    rw [h, hcounter]
    rfl
  · rfl

section Reads

variable {α ρ σ : Type*} {A : ℕ} {p : Parts α ρ σ} {K : Contract p} {s : Top.State α ρ σ}
  {ins₁ ins₂ : List (Top.Input A)}

theorem rcvReplies_packetOf (r : Replies) (evt : Word) :
    rcvReplies r (packetOf evt).key (packetOf evt).pld = r := by
  refine if_neg fun h ↦ ?_
  have hbit := congrArg (BitVec.getLsbD · 28) h
  have hmpr : mprKey.getLsbD 28 = false := rfl
  have hmsk : (mpfMask 0).getLsbD 28 = false := rfl
  have hrply : rplyKey.getLsbD 28 = true := rfl
  simp only [packetOf, PktAssembler.key_assemble, eventKey, BitVec.getLsbD_and,
    BitVec.getLsbD_or, hmpr, hmsk, hrply, Bool.and_false, Bool.or_false, Bool.false_and] at hbit
  cases hbit

/-- No event is mistaken for a reply. -/
theorem Started.rcvReplies_routed (h : Started K s ins₁ ins₂) {c : OutputStage.Chan} {d : Packet}
    (hd : d ∈ (emit (Top.next p) (transmitted K c) (Top.reset p s) (ins₁ ++ ins₂)).filterMap
      (ofOrigin .routed)) (r : Replies) : rcvReplies r d.key d.pld = r := by
  have harrived : d ∈ arrived K (Top.reset p s) (ins₁ ++ ins₂) :=
    Multiset.mem_sum.mpr ⟨c, Finset.mem_univ c, hd⟩
  have hmem := Multiset.mem_of_le h.arrived_le (Multiset.mem_add.mpr (.inl harrived))
  obtain ⟨evt, -, rfl⟩ := Multiset.mem_map.mp hmem
  exact rcvReplies_packetOf r evt

theorem origin_of_ne_zero {c : OutputStage.Chan} (hc : c ≠ 0) {x : Origin × Packet}
    (hx : x ∈ emit (Top.next p) (transmitted K c) s ins₁) : x.1 = .routed := by
  obtain ⟨i, -, t, hx⟩ := exists_of_mem_emit hx
  rw [transmitted, if_neg hc] at hx
  obtain ⟨d, -, rfl⟩ := List.mem_map.mp hx
  rfl

/-- Whatever the order in which packets of different channels arrive, only the replies
on channel 0 matter. -/
theorem Started.foldl_arrivals (h : Started K s ins₁ ins₂)
    {arrivals : List (OutputStage.Chan × Packet)}
    (harr : Interleaves arrivals fun c ↦
      (emit (Top.next p) (transmitted K c) (Top.reset p s) (ins₁ ++ ins₂)).map Prod.snd)
    (r : Replies) :
    (arrivals.map Prod.snd).foldl (fun r d ↦ rcvReplies r d.key d.pld) r =
      ((emit (Top.next p) (transmitted K 0) (Top.reset p s) (ins₁ ++ ins₂)).filterMap
        (ofOrigin .reply)).foldl (fun r d ↦ rcvReplies r d.key d.pld) r := by
  have horigin : Interleaves
      (emit (Top.next p) (transmitted K 0) (Top.reset p s) (ins₁ ++ ins₂)) fun o ↦
        (emit (Top.next p) (transmitted K 0) (Top.reset p s) (ins₁ ++ ins₂)).filterMap
          (ofOrigin o) := fun _ ↦ rfl
  rw [harr.foldl_eq (k := 0), horigin.foldl_eq (k := .reply)]
  · intro o ho d hd r
    cases o with
    | routed => exact h.rcvReplies_routed hd r
    | reply => exact absurd rfl ho
  · intro c hc d hd r
    obtain ⟨x, hx, rfl⟩ := List.mem_map.mp hd
    have hrouted : ofOrigin .routed x = some x.2 := if_pos (origin_of_ne_zero hc hx)
    exact h.rcvReplies_routed (List.mem_filterMap.mpr ⟨x, hx, hrouted⟩) r

theorem lng_of_delivered {ms : List McPacket} {ds : List Packet}
    (h : List.Forall₂ Delivered ms ds) : ∀ d ∈ ds, d.lng = true := by
  induction h with
  | nil => exact fun d hd ↦ absurd hd List.not_mem_nil
  | cons hd _ ih => exact List.forall_mem_cons.mpr ⟨hd.lng, ih⟩

/-- The configuration is not answered. -/
theorem Started.no_answers (h : Started K s ins₁ ins₂) :
    (emit (Top.next p) (taken p) (Top.reset p s) ins₁).filterMap answerOf = [] := by
  obtain ⟨before, start, hstart, hbefore, hcfg⟩ := h.config
  rw [List.filterMap_eq_nil_iff]
  intro x hx
  have hmem : x.1 ∈ before ++ start := by
    rw [← hcfg, ← h.taken_config]
    exact List.mem_map_of_mem hx
  have hlng : x.1.lng = true := by
    rcases List.mem_append.mp hmem with hb | hs
    · exact hbefore _ hb
    · exact lng_of_delivered hstart _ hs
  simp [answerOf, hlng]

/-- The reads carried out after the configuration. -/
def readsTaken (p : Parts α ρ σ) (s : Top.State α ρ σ) (ins₁ ins₂ : List (Top.Input A)) :
    List (Packet × (Fin numDcRegs → Word) × Word) :=
  emit (Top.next p) (taken p) (run (Top.next p) (Top.reset p s) ins₁) ins₂

/-- Those whose replies have been sent. -/
def readsAnswered (K : Contract p) (s : Top.State α ρ σ) (ins₁ ins₂ : List (Top.Input A)) :
    List (Packet × (Fin numDcRegs → Word) × Word) :=
  (readsTaken p s ins₁ ins₂).take ((readsTaken p s ins₁ ins₂).length -
    (K.arbQueue (run (Top.next p) (Top.reset p s) (ins₁ ++ ins₂)).chanArb 1).length)

theorem Started.replies_eq_map (h : Started K s ins₁ ins₂) :
    ((emit (Top.next p) (transmitted K 0) (Top.reset p s) (ins₁ ++ ins₂)).filterMap
        (ofOrigin .reply)).map (fun d ↦ (d.key, d.pld)) =
      (readsAnswered K s ins₁ ins₂).map replyTo := by
  have hall := replies_append_queue K s (ins₁ ++ ins₂)
  have hreads : (readsTaken p s ins₁ ins₂).filterMap answerOf =
      (readsTaken p s ins₁ ins₂).map replyTo := by
    rw [← List.filterMap_eq_map]
    exact List.filterMap_congr fun x hx ↦ answerOf_of_read (h.taken_reads x hx)
  rw [emit_append (taken p), List.filterMap_append, h.no_answers, List.nil_append] at hall
  rw [← readsTaken, hreads, List.map_append] at hall
  have hlen := congrArg List.length hall
  simp only [List.length_append, List.length_map] at hlen
  rw [readsAnswered, List.map_take, ← hall, List.take_left']
  rw [List.length_map]
  omega

theorem Started.latest_replies (h : Started K s ins₁ ins₂) (k : Fin numDcRegs) :
    latest (answerTo (BitVec.ofNat 32 (64 + k))) ((readsAnswered K s ins₁ ins₂).map replyTo) =
      latest (reading k) (readsAnswered K s ins₁ ins₂) := by
  have hkey : ∀ x ∈ readsTaken p s ins₁ ins₂, x.2.2 = rplyKey := by
    refine h.forall_mem_emit fun s i hs x hx ↦ ?_
    have hx' : x ∈ PktReceiver.cfgTaken p.prxSwitch s.prx (prxIn s i (dcpRdy p s i)) := hx
    unfold PktReceiver.cfgTaken at hx'
    split at hx'
    · rw [List.mem_singleton.mp hx']
      exact hs.replyKey
    · cases hx'
  rw [latest_map, latest, latest]
  refine congrArg _ (List.filterMap_congr fun x hx ↦ ?_)
  exact answerTo_replyTo k (hkey x (List.mem_of_mem_take hx))

/-- The numbers printed at the end are those of the counters when the latest answered read
left the receiver, whatever else arrives meanwhile and in whatever order. -/
theorem reports_counters (h : Started K s ins₁ ins₂)
    {arrivals : List (OutputStage.Chan × Packet)}
    (harr : Interleaves arrivals fun c ↦
      (emit (Top.next p) (transmitted K c) (Top.reset p s) (ins₁ ++ ins₂)).map Prod.snd) :
    sentReport ((arrivals.map Prod.snd).foldl (fun r d ↦ rcvReplies r d.key d.pld)
        Replies.start) = latest (reading 3) (readsAnswered K s ins₁ ins₂) ∧
      dropReport ((arrivals.map Prod.snd).foldl (fun r d ↦ rcvReplies r d.key d.pld)
        Replies.start) = latest (reading 2) (readsAnswered K s ins₁ ins₂) := by
  rw [h.foldl_arrivals harr]
  have hfold := reports_foldl
    (((emit (Top.next p) (transmitted K 0) (Top.reset p s) (ins₁ ++ ins₂)).filterMap
      (ofOrigin .reply)).map fun d ↦ (d.key, d.pld))
  rw [List.foldl_map] at hfold
  refine ⟨hfold.1.trans ?_, hfold.2.trans ?_⟩
  · rw [h.replies_eq_map]
    exact h.latest_replies 3
  · rw [h.replies_eq_map]
    exact h.latest_replies 2

/-- The reply overtakes a packet on the way to the core. -/
def eventArrivals : List (OutputStage.Chan × Packet) :=
  [(1, packetOf 0x00053211), (0, PktReceiver.dcpDataOut readPacket (fun _ ↦ 2) rplyKey),
    (1, packetOf 0x00053211)]

theorem interleaves_eventArrivals : Interleaves eventArrivals fun c ↦
    (emit (Top.next registerParts) (transmitted registerContract c)
      (Top.reset registerParts cold) (startRun ++ eventRun)).map Prod.snd := by
  unfold Interleaves
  decide +kernel

theorem reports_counters_eventRun :
    sentReport ((eventArrivals.map Prod.snd).foldl (fun r d ↦ rcvReplies r d.key d.pld)
        Replies.start) = latest (reading 3) (readsAnswered registerContract cold startRun eventRun) ∧
      dropReport ((eventArrivals.map Prod.snd).foldl (fun r d ↦ rcvReplies r d.key d.pld)
        Replies.start) =
          latest (reading 2) (readsAnswered registerContract cold startRun eventRun) :=
  reports_counters started_eventRun interleaves_eventArrivals

end Reads

end Spif.CountEvents
