import Mathlib.Algebra.Order.BigOperators.Group.Finset
import Spif.Hw.ConfigPath
import Spif.Hw.EvtMapping
import Spif.Lib.Interleave

/-!
# Counting events on SpiNNaker

`count_events` runs on the cores of a SpiNNaker board.  One of them configures spif with
`start_spif`, and then every core counts the packets that its routing entry catches.

This module follows the configuration through `dvs_on_hssl_top`, and then the events.
-/

namespace Spif.SpifLocal

/-- Any write to `SPIF_SOFT_RESET` (soft) resets spif. -/
def spifSoftReset : McPacket := sendConfig 1 0

def spifCountInDrop : Word := 66

def spifCountIn : Word := 67

/-- `spin1_send_mc_packet (RCFG_KEY | counter, 0, NO_PAYLOAD)` -/
def spifReadCounter (counter : Word) : McPacket := ⟨rcfgKey ||| counter, none⟩

end Spif.SpifLocal

namespace Spif.CountEvents

open Clocked RegBank SpifLocal SpifLocal.Setter Interleave Spif.Top

/-! ## The application -/

def mprKey : Word := 0xee000000

instance neZero_fields : NeZero 4 := ⟨by decide⟩

def mpfMask (field : Fin 4) : Word := if field = 0 then 0x00ffffff else 0

def mpfShift : Word := 0

def pktDropWait : Word := 512

def spifSetMapper (pipe : Fin 2) : List McPacket :=
  spifSetMapperKey (uint pipe) mprKey ::
    ((List.finRange 4).map fun f ↦ spifSetMapperFieldMask (uint pipe) (uint f) (mpfMask f)) ++
    (List.finRange 4).map fun f ↦ spifSetMapperFieldShift (uint pipe) (uint f) mpfShift

def startSpif : List McPacket :=
  spifSoftReset :: spifResetCounters ++
    ((List.finRange 8).flatMap fun i ↦
      [spifSetRoutingKey (uint i) (uint i), spifSetRoutingMask (uint i) 7,
        spifSetRoutingRoute (uint i) (uint i)]) ++
    spifSetMapper 0 ++ spifSetMapper 1 ++ [spifSetInputDropWait pktDropWait]

def xcoordPos : ℕ := 16

/-- `PKT_KEY(p)` and `PKT_MSK`: the routing entry of core `p`. -/
def pktKey (p : Word) : Word := mprKey ||| (p - 1) <<< xcoordPos

def pktMsk : Word := 0xff000000 ||| 0x0f <<< xcoordPos

def caught (core : Fin 18) (d : Packet) : Bool := d.key &&& pktMsk == pktKey (uint core)

def rplyKey : Word := 0xfffffd00

/-! ## The configuration -/

/-- What follows the reset, as calls with indices in range. -/
def startCalls : List (Setter × Word) :=
  (List.finRange numDcRegs).map (fun k ↦ (.counter k, 0)) ++
    ((List.finRange 8).flatMap fun i ↦
      [(.routingKey (i.castLE (by decide)), uint i), (.routingMask (i.castLE (by decide)), 7),
        (.routingRoute (i.castLE (by decide)), uint i)]) ++
    ((List.finRange 2).flatMap fun pipe ↦ (.mapperKey pipe, mprKey) ::
      ((List.finRange 4).map fun f ↦ (.mapperFieldMask pipe f, mpfMask f)) ++
      (List.finRange 4).map fun f ↦ (.mapperFieldShift pipe f, mpfShift)) ++
    [(.inputDropWait, pktDropWait)]

theorem startSpif_eq : startSpif = spifSoftReset :: startCalls.map fun c ↦ c.1.packet c.2 := by
  decide

/-- Filters and limits keep their defaults, which let every event pass. -/
def mapper : PktAssembler.Config where
  flValIn _ := 0xffffffff
  flMskIn _ := 0
  mpKeyIn := mprKey
  mpFldMskIn := mpfMask
  mpFldSftIn _ := 0
  mpFldLmtIn _ := 0xffffffff

instance neZero_entries : NeZero 16 := ⟨by decide⟩

/-- The upper entries keep their defaults, which match no key. -/
def routing : PktRouter.Table where
  regKeyIn te := if te < 8 then uint te else 0xffffffff
  regMaskIn te := if te < 8 then 7 else 0
  regRouteIn te := if te < 8 then (uint te).setWidth 3 else 0

structure Configured (c : Regs 2) : Prop where
  evtPipe : ∀ k, SpifLocal.evtPipe c k = mapper
  rtKey : ∀ te, c (.rtKey te) = routing.regKeyIn te
  rtMask : ∀ te, c (.rtMask te) = routing.regMaskIn te
  rtRoute : ∀ te, c (.rtRoute te) = routing.regRouteIn te
  replyKey : c (.hssl 2) = rplyKey
  dropWait : c (.hssl 3) = pktDropWait

theorem foldl_startSpif {ds : List Packet} (h : List.Forall₂ Delivered startSpif ds)
    (c : Regs 2) (r : Reg 2) :
    (ds.filterMap writeOf).foldl applyWrite c r =
      (latest (setsTo r) startCalls).getD (defaults c r) := by
  rw [startSpif_eq] at h
  obtain ⟨d, ds, hd, hds, rfl⟩ := List.forall₂_cons_left_iff.mp h
  have hwrite : writeOf d = some ⟨d.key.extractLsb' 4 4, d.key.extractLsb' 0 4, d.pld⟩ :=
    if_pos hd.lng
  have hsoft (data : Word) :
      (⟨d.key.extractLsb' 4 4, d.key.extractLsb' 0 4, data⟩ : Write).isSoftReset = true := by
    rw [hd.key]
    rfl
  rw [List.filterMap_cons_some hwrite, List.foldl_cons, applyWrite_of_soft (hsoft _)]
  rw [List.forall₂_map_left_iff] at hds
  exact foldl_delivered hds _ r

theorem configured_startSpif {ds : List Packet} (h : List.Forall₂ Delivered startSpif ds)
    (c : Regs 2) : Configured ((ds.filterMap writeOf).foldl applyWrite c) := by
  have hset {r : Reg 2} {v : BitVec r.width} (hr : latest (setsTo r) startCalls = some v) :
      (ds.filterMap writeOf).foldl applyWrite c r = v := by
    rw [foldl_startSpif h, hr, Option.getD_some]
  have hkept {r : Reg 2} (hr : latest (setsTo r) startCalls = none) :
      (ds.filterMap writeOf).foldl applyWrite c r = defaults c r := by
    rw [foldl_startSpif h, hr, Option.getD_none]
  constructor
  · intro pipe
    have hkey : ∀ k, latest (setsTo (.mpKey k)) startCalls = some mprKey := by decide
    have hmsk : ∀ pipe f, latest (setsTo (.mpFmsk (mpIndex pipe f))) startCalls =
        some (mpfMask f) := by decide
    have hsft : ∀ k, latest (setsTo (.mpFsft k)) startCalls = some 0 := by decide
    have hlmt : ∀ k, latest (setsTo (.mpFlmt k)) startCalls = none := by decide
    have hval : ∀ k, latest (setsTo (.flVal k)) startCalls = none := by decide
    have hflt : ∀ k, latest (setsTo (.flMsk k)) startCalls = none := by decide
    simp only [SpifLocal.evtPipe, hset (hkey _), hset (hmsk _ _), hset (hsft _), hkept (hlmt _),
      hkept (hval _), hkept (hflt _)]
    rfl
  · have hkey : ∀ te, (latest (setsTo (.rtKey te)) startCalls).getD 0xffffffff =
        routing.regKeyIn te := by decide
    intro te
    rw [foldl_startSpif h, ← hkey]
    rfl
  · have hmask : ∀ te, (latest (setsTo (.rtMask te)) startCalls).getD 0 =
        routing.regMaskIn te := by decide
    intro te
    rw [foldl_startSpif h, ← hmask]
    rfl
  · have hroute : ∀ te, (latest (setsTo (.rtRoute te)) startCalls).getD 0 =
        routing.regRouteIn te := by decide
    intro te
    rw [foldl_startSpif h, ← hroute]
    rfl
  · have hreply : latest (setsTo (.hssl 2)) startCalls = none := by decide
    exact hkept hreply
  · have hwait : latest (setsTo (.hssl 3)) startCalls = some pktDropWait := by decide
    exact hset hwait

/-! ## Events -/

def eventKey (evt : Word) : Word := mprKey ||| (evt &&& mpfMask 0)

def packetOf (evt : Word) : Packet := PktAssembler.assemble (eventKey evt)

theorem evtFieldInt_mapper (evt : Word) (f : Fin 4) :
    PktAssembler.evtFieldInt mapper evt f = evt &&& mpfMask f := by
  simp [PktAssembler.evtFieldInt, mapper]

theorem rejected_mapper (evt : Word) : PktAssembler.rejected mapper evt = false := by
  rw [Bool.eq_false_iff, Ne, PktAssembler.rejected_iff]
  rintro (⟨k, hk⟩ | ⟨k, hk⟩)
  · simp [mapper] at hk
  · have hmax := (PktAssembler.evtFieldInt mapper evt k).isLt
    have hlimit : 0xffffffff < (PktAssembler.evtFieldInt mapper evt k).toNat := hk
    omega

theorem mappedDataInt_mapper (evt : Word) :
    PktAssembler.mappedDataInt mapper evt = eventKey evt := by
  have hchain : PktAssembler.mappedDataInt mapper evt =
      mprKey ||| PktAssembler.evtFieldInt mapper evt 0 |||
        PktAssembler.evtFieldInt mapper evt 1 ||| PktAssembler.evtFieldInt mapper evt 2 |||
        PktAssembler.evtFieldInt mapper evt 3 := rfl
  have hnone (f : Fin 4) (hf : f ≠ 0) : evt &&& mpfMask f = 0 := by
    simp [mpfMask, hf]
  rw [hchain]
  simp [evtFieldInt_mapper, hnone, eventKey]

theorem mapEvent_mapper (evt : Word) : EvtPipe.mapEvent (mapper, evt) = some (packetOf evt) := by
  rw [EvtPipe.mapEvent, rejected_mapper, mappedDataInt_mapper]
  rfl

theorem toNat_and_seven (key : Word) : (key &&& 7).toNat < 8 := by
  have hle : key.toNat &&& 7 ≤ 7 := Nat.and_le_right
  rw [BitVec.toNat_and]
  exact Nat.lt_succ_of_le hle

theorem hit_routing (key : Word) (te : Fin 16) :
    PktRouter.hit routing key te = true ↔ (key &&& 7).toNat = te := by
  have hlt := toNat_and_seven key
  rw [PktRouter.hit, beq_iff_eq]
  by_cases hte : te < 8
  · have hkey : (uint te).toNat = te := by
      have := te.isLt
      rw [uint, BitVec.toNat_ofNat]
      omega
    simp only [routing, if_pos hte]
    rw [← BitVec.toNat_inj, hkey]
  · simp only [routing, if_neg hte]
    refine iff_of_false (by simp) fun h ↦ hte ?_
    rw [Fin.lt_def, ← h]
    exact hlt

/-- Packets are routed by the three least significant bits. -/
theorem swiRoute_routing (key : Word) :
    PktRouter.swiRoute routing key = BitVec.twoPow 8 (key &&& 7).toNat := by
  have hlt := toNat_and_seven key
  have hfirst : PktRouter.FirstHit routing key ⟨(key &&& 7).toNat, hlt.trans (by decide)⟩ := by
    refine ⟨(hit_routing key _).mpr rfl, fun j hj ↦ ?_⟩
    rw [Bool.eq_false_iff, Ne, hit_routing]
    exact fun h ↦ hj.ne' (Fin.ext h)
  have hroute : ∀ n : Fin 8, (routing.regRouteIn (n.castLE (by decide))).toNat = n := by decide
  rw [PktRouter.swiRoute_of_firstHit hfirst]
  exact congrArg _ (hroute ⟨_, hlt⟩)

/-- Bits 19 to 16 of an event: the lower bits of the x coordinate and the pipe. -/
def xcoord (evt : Word) : BitVec 4 := evt.extractLsb' xcoordPos 4

theorem and_xcoord (evt : Word) :
    evt &&& 0x000f0000 = (xcoord evt).setWidth 32 <<< xcoordPos := by
  have hmask : ∀ i : Fin 32, (0x000f0000 : Word).getLsbD i = decide (16 ≤ i.val ∧ i.val < 20) := by
    decide
  apply BitVec.eq_of_getLsbD_eq
  intro i hi
  have hbit := hmask ⟨i, hi⟩
  simp only [xcoord, xcoordPos, BitVec.getLsbD_and, hbit, BitVec.getLsbD_shiftLeft,
    BitVec.getLsbD_setWidth, BitVec.getLsbD_extractLsb']
  by_cases hlow : 16 ≤ i
  · have hadd : 16 + (i - 16) = i := by omega
    rw [hadd]
    by_cases hhigh : i < 20
    · have hin : i - 16 < 4 := by omega
      have hword : i - 16 < 32 := by omega
      simp [hi, hlow, hhigh, hin, hword]
    · have hout : ¬ i - 16 < 4 := by omega
      simp [hhigh, hout]
  · simp [hlow]

theorem caught_packetOf (core : Fin 18) (evt : Word) :
    caught core (packetOf evt) = true ↔ (xcoord evt).toNat + 1 = core := by
  have hkey : eventKey evt &&& pktMsk =
      mprKey ||| (xcoord evt).setWidth 32 <<< xcoordPos := by
    rw [← and_xcoord, eventKey, BitVec.and_or_distrib_right, BitVec.and_assoc]
    rfl
  have hcore : ∀ (core : Fin 18) (x : BitVec 4),
      mprKey ||| x.setWidth 32 <<< xcoordPos = pktKey (uint core) ↔ x.toNat + 1 = core := by
    decide
  rw [caught, beq_iff_eq, packetOf, PktAssembler.key_assemble, hkey, hcore]

/-! ## A session -/

section Session

variable {α ρ σ : Type*} {A : ℕ} {p : Parts α ρ σ}

/-- The configuration packets accepted from the HSSL interface. -/
def cfgAccepted (p : Parts α ρ σ) (s : Top.State α ρ σ) (ins : List (Top.Input A)) :
    List Packet :=
  (emit (Top.next p) (rxAccepted p) s ins).filter Packet.cfg

/-- `ins₁` ends with the packets of `start_spif`, all of them carried out; later on the
application only reads counters.  Events come after the configuration. -/
structure Started (K : Contract p) (s : Top.State α ρ σ) (ins₁ ins₂ : List (Top.Input A)) :
    Prop where
  bus : ∀ i ∈ ins₁ ++ ins₂, (i.apbPsel && i.apbPwrite) = false
  config : ∃ before start, List.Forall₂ Delivered startSpif start ∧
    (∀ d ∈ before, d.lng = true) ∧ cfgAccepted p (Top.reset p s) ins₁ = before ++ start
  carriedOut : K.prxQueue (run (Top.next p) (Top.reset p s) ins₁).prx .cfg = []
  reads : ∀ d ∈ cfgAccepted p (run (Top.next p) (Top.reset p s) ins₁) ins₂, d.lng = false
  events : ∀ k, emit (Top.next p) (received (p := p) k) (Top.reset p s) ins₁ = []

/-- The configuration, and then an event for each pipe and a read of a counter. -/
def startRun : List (Top.Input 32) :=
  (startSpif.map fun m ↦ cycle (fun _ ↦ none) (some m.deliver)) ++ [cycle (fun _ ↦ none) none]

def readPacket : Packet := .mk 0 (spifReadCounter spifCountIn).key 0b00010000

def eventRun : List (Top.Input 32) :=
  [cycle (fun _ ↦ some 0x00053211) none, cycle (fun _ ↦ none) none, cycle (fun _ ↦ none) none,
    cycle (fun _ ↦ none) (some readPacket), cycle (fun _ ↦ none) none, cycle (fun _ ↦ none) none]

theorem started_eventRun : Started registerContract cold startRun eventRun where
  bus := by decide
  config := by
    refine ⟨[], startSpif.map McPacket.deliver, ?_, by simp, by decide +kernel⟩
    rw [List.forall₂_map_right_iff, List.forall₂_same]
    have hpayload : ∀ m ∈ startSpif, m.payload.isSome := by decide
    exact fun m hm ↦ delivered_deliver (hpayload m hm)
  carriedOut := by decide +kernel
  reads := by
    have hread : cfgAccepted registerParts (run (Top.next registerParts)
      (Top.reset registerParts cold) startRun) eventRun = [readPacket] := by decide +kernel
    rw [hread, List.forall_mem_singleton]
    rfl
  events := by decide +kernel

variable {K : Contract p} {s : Top.State α ρ σ} {ins₁ ins₂ : List (Top.Input A)}

theorem Started.taken_config (h : Started K s ins₁ ins₂) :
    (emit (Top.next p) (taken p) (Top.reset p s) ins₁).map Prod.fst =
      cfgAccepted p (Top.reset p s) ins₁ := by
  have hall := taken_append_queue K s ins₁
  rwa [h.carriedOut, List.append_nil] at hall

theorem Started.configured_run (h : Started K s ins₁ ins₂) :
    Configured (run (Top.next p) (Top.reset p s) ins₁).rb.regs := by
  obtain ⟨before, start, hstart, -, hcfg⟩ := h.config
  have hbus : ∀ i ∈ ins₁, (i.apbPsel && i.apbPwrite) = false :=
    fun i hi ↦ h.bus i (List.mem_append_left ins₂ hi)
  have hwrites : (emit (Top.next p) (taken p) (Top.reset p s) ins₁).filterMap
      (fun x ↦ writeOf x.1) = before.filterMap writeOf ++ start.filterMap writeOf := by
    rw [← List.filterMap_append, ← hcfg, ← h.taken_config, List.filterMap_map]
    rfl
  rw [regs_run s hbus, hwrites, List.foldl_append]
  exact configured_startSpif hstart _

/-- Later on, only reads are carried out. -/
theorem Started.taken_reads (h : Started K s ins₁ ins₂) :
    ∀ x ∈ emit (Top.next p) (taken p) (run (Top.next p) (Top.reset p s) ins₁) ins₂,
      x.1.lng = false := by
  have hall := taken_append_queue K s (ins₁ ++ ins₂)
  rw [emit_append, emit_append, List.map_append, List.filter_append, h.taken_config,
    List.append_assoc] at hall
  intro x hx
  apply h.reads
  rw [cfgAccepted, ← List.append_cancel_left hall]
  exact List.mem_append_left _ (List.mem_map_of_mem hx)

def Quiet (p : Parts α ρ σ) (s : Top.State α ρ σ) (i : Top.Input A) : Prop :=
  (i.apbPsel && i.apbPwrite) = false ∧ ∀ x ∈ taken p s i, x.1.lng = false

theorem Started.along_quiet (h : Started K s ins₁ ins₂) :
    Along (Top.next p) (Quiet p) (run (Top.next p) (Top.reset p s) ins₁) ins₂ :=
  along_and (along_of_forall_mem (fun i hi ↦ h.bus i (List.mem_append_right ins₁ hi)) _)
    (forall_mem_emit_iff.mp h.taken_reads)

theorem regs_next {s : Top.State α ρ σ} {i : Top.Input A} (h : Quiet p s i) :
    (Top.next p s i).rb.regs = s.rb.regs := by
  have hregs : (Top.next p s i).rb.regs = regsNext s.rb (rbIn p s i) := rfl
  have hnone : (taken p s i).filterMap (fun x ↦ writeOf x.1) = [] := by
    rw [List.filterMap_eq_nil_iff]
    intro x hx
    exact if_neg (by rw [h.2 x hx]; exact Bool.false_ne_true)
  rw [hregs, regsNext_eq_merge, busWrite_rbIn p s h.1, merge_none, pktWrite_rbIn, hnone]
  rfl

/-- The configuration holds whenever something is put out later on. -/
theorem Started.forall_mem_emit {ω : Type*} {f : Top.State α ρ σ → Top.Input A → List ω}
    {Q : ω → Prop} (h : Started K s ins₁ ins₂)
    (hword : ∀ s i, Configured s.rb.regs → ∀ w ∈ f s i, Q w) :
    ∀ w ∈ emit (Top.next p) f (run (Top.next p) (Top.reset p s) ins₁) ins₂, Q w :=
  forall_mem_emit_of_inv (I := fun s ↦ Configured s.rb.regs) (C := Quiet p)
    (fun _ _ hs hi ↦ (regs_next hi).symm ▸ hs) hword h.configured_run h.along_quiet

/-! ## Events to cores -/

theorem Started.received_eq_map (h : Started K s ins₁ ins₂) (k : Pipe) :
    (emit (Top.next p) (received (p := p) k) (Top.reset p s) (ins₁ ++ ins₂)).filterMap
        EvtPipe.mapEvent =
      (emit (Top.next p) (received (p := p) k) (Top.reset p s) (ins₁ ++ ins₂)).map
        fun x ↦ packetOf x.2 := by
  rw [emit_append, h.events, List.nil_append, ← List.filterMap_eq_map]
  apply List.filterMap_congr
  refine h.forall_mem_emit fun s i hs x hx ↦ ?_
  have hconfig : x.1 = mapper := by
    have hx' : x ∈ EvtPipe.received (s.pa k) (paIn p s i k) := hx
    unfold EvtPipe.received at hx'
    split at hx'
    · rw [List.mem_singleton.mp hx']
      exact hs.evtPipe k
    · cases hx'
  obtain ⟨c, evt⟩ := x
  obtain rfl : c = mapper := hconfig
  exact mapEvent_mapper evt

theorem table_of_configured {s : Top.State α ρ σ} (h : Configured s.rb.regs) :
    table s = routing := by
  have hkey := funext h.rtKey
  have hmask := funext h.rtMask
  have hroute := funext h.rtRoute
  simp only [table, hkey, hmask, hroute]

/-- Before the first event, nothing reaches the router. -/
theorem Started.merged_config (h : Started K s ins₁ ins₂) :
    emit (Top.next p) (merged K) (Top.reset p s) ins₁ = [] := by
  rw [List.eq_nil_iff_forall_not_mem]
  intro x hx
  have hpipe := merged_append_held K x.1 s ins₁
  rw [h.events, List.filterMap_nil, List.append_eq_nil_iff] at hpipe
  have hmem : x.2.1 ∈ (emit (Top.next p) (merged K) (Top.reset p s) ins₁).filterMap
      (fromPipe x.1) := List.mem_filterMap.mpr ⟨x, hx, if_pos rfl⟩
  rw [hpipe.1] at hmem
  cases hmem

theorem Started.merged_routing (h : Started K s ins₁ ins₂) :
    ∀ x ∈ emit (Top.next p) (merged K) (Top.reset p s) (ins₁ ++ ins₂), x.2.2 = routing := by
  rw [emit_append, h.merged_config, List.nil_append]
  refine h.forall_mem_emit fun s i hs x hx ↦ ?_
  obtain ⟨y, hy, rfl⟩ := List.mem_map.mp hx
  unfold OutputStage.accepted at hy
  split at hy
  · rw [List.mem_singleton.mp hy]
    exact table_of_configured hs
  · cases hy

def accepted (p : Parts α ρ σ) (s : Top.State α ρ σ) (ins : List (Top.Input A)) :
    Multiset Word :=
  ∑ k, Multiset.ofList ((emit (Top.next p) (received (p := p) k) s ins).map Prod.snd)

/-- The packets sent to SpiNNaker, counter replies aside, on all channels. -/
def arrived (K : Contract p) (s : Top.State α ρ σ) (ins : List (Top.Input A)) :
    Multiset Packet :=
  ∑ c, Multiset.ofList ((emit (Top.next p) (transmitted K c) s ins).filterMap (ofOrigin .routed))

def underway (K : Contract p) (s : Top.State α ρ σ) : Multiset Packet :=
  ∑ c, Multiset.ofList (pending K c s) +
    ∑ k, Multiset.ofList (K.arbQueue s.pipeArb k ++ PktAssembler.held (s.pa k))

def channel (x : Pipe × Packet × PktRouter.Table) : OutputStage.Chan :=
  ⟨(x.2.1.key &&& 7).toNat, toNat_and_seven _⟩

theorem routedTo_routing (c : OutputStage.Chan) {x : Pipe × Packet × PktRouter.Table}
    (hx : x.2.2 = routing) : OutputStage.routedTo c x.2 = side c (channel x, x.2.1) := by
  have hbit : (PktRouter.swiRoute routing x.2.1.key).getLsbD c = decide (channel x = c) := by
    rw [swiRoute_routing, BitVec.getLsbD_twoPow, decide_eq_true (toNat_and_seven _),
      Bool.true_and]
    exact decide_eq_decide.mpr (Fin.ext_iff (a := channel x)).symm
  rw [OutputStage.routedTo, hx, hbit]
  exact if_congr decide_eq_true_iff rfl rfl

theorem Started.interleaves_channels (h : Started K s ins₁ ins₂) :
    Interleaves
      ((emit (Top.next p) (merged K) (Top.reset p s) (ins₁ ++ ins₂)).map
        fun x ↦ (channel x, x.2.1))
      fun c ↦ (emit (Top.next p) (merged K) (Top.reset p s) (ins₁ ++ ins₂)).filterMap
        fun x ↦ OutputStage.routedTo c x.2 := by
  intro c
  rw [List.filterMap_map]
  apply List.filterMap_congr
  intro x hx
  exact (routedTo_routing c (h.merged_routing x hx)).symm

theorem interleaves_pipes (xs : List (Pipe × Packet × PktRouter.Table)) :
    Interleaves (xs.map fun x ↦ (x.1, x.2.1)) fun k ↦ xs.filterMap (fromPipe k) := by
  intro k
  rw [List.filterMap_map]
  rfl

/-- The channels get what the pipes have handed over. -/
theorem Started.sum_channels (h : Started K s ins₁ ins₂) :
    ∑ c, Multiset.ofList ((emit (Top.next p) (merged K) (Top.reset p s) (ins₁ ++ ins₂)).filterMap
        fun x ↦ OutputStage.routedTo c x.2) =
      ∑ k, Multiset.ofList ((emit (Top.next p) (merged K) (Top.reset p s)
        (ins₁ ++ ins₂)).filterMap (fromPipe k)) := by
  rw [h.interleaves_channels.sum_coe, (interleaves_pipes _).sum_coe, List.map_map, List.map_map]
  rfl

/-- What the pipes have handed over, and what they and their arbiter store, are the packets
of the events. -/
theorem Started.sum_pipes (h : Started K s ins₁ ins₂) :
    ∑ k, Multiset.ofList ((emit (Top.next p) (merged K) (Top.reset p s)
        (ins₁ ++ ins₂)).filterMap (fromPipe k)) +
      ∑ k, Multiset.ofList
        (K.arbQueue (run (Top.next p) (Top.reset p s) (ins₁ ++ ins₂)).pipeArb k ++
          PktAssembler.held ((run (Top.next p) (Top.reset p s) (ins₁ ++ ins₂)).pa k)) =
      (accepted p (Top.reset p s) (ins₁ ++ ins₂)).map packetOf := by
  rw [← Finset.sum_add_distrib, accepted, ← Multiset.coe_mapAddMonoidHom, map_sum]
  apply Finset.sum_congr rfl
  intro k _
  rw [Multiset.coe_add, merged_append_held K k s (ins₁ ++ ins₂), h.received_eq_map,
    Multiset.coe_mapAddMonoidHom, Multiset.map_coe, List.map_map]
  rfl

theorem Started.arrived_le (h : Started K s ins₁ ins₂) :
    arrived K (Top.reset p s) (ins₁ ++ ins₂) +
        underway K (run (Top.next p) (Top.reset p s) (ins₁ ++ ins₂)) ≤
      (accepted p (Top.reset p s) (ins₁ ++ ins₂)).map packetOf := by
  rw [arrived, underway, ← add_assoc, ← Finset.sum_add_distrib, ← h.sum_pipes,
    ← h.sum_channels]
  gcongr with c _
  rw [Multiset.coe_add]
  exact Multiset.coe_le.mpr (channel_sublist K c s (ins₁ ++ ins₂)).subperm

theorem Started.arrived_eq (h : Started K s ins₁ ins₂)
    (hdrop : Along (Top.next p) (NothingDropped p) (Top.reset p s) (ins₁ ++ ins₂)) :
    arrived K (Top.reset p s) (ins₁ ++ ins₂) +
        underway K (run (Top.next p) (Top.reset p s) (ins₁ ++ ins₂)) =
      (accepted p (Top.reset p s) (ins₁ ++ ins₂)).map packetOf := by
  rw [arrived, underway, ← add_assoc, ← Finset.sum_add_distrib, ← h.sum_pipes,
    ← h.sum_channels]
  refine congrArg (· + _) (Finset.sum_congr rfl fun c _ ↦ ?_)
  rw [Multiset.coe_add, channel_lossless K c s hdrop]

theorem Started.channel_eq (h : Started K s ins₁ ins₂) {c : OutputStage.Chan} {d : Packet}
    (hd : d ∈ (emit (Top.next p) (transmitted K c) (Top.reset p s) (ins₁ ++ ins₂)).filterMap
      (ofOrigin .routed)) : (d.key &&& 7).toNat = c := by
  have hsub := channel_sublist K c s (ins₁ ++ ins₂)
  obtain ⟨x, hx, hroute⟩ := List.mem_filterMap.mp (hsub.subset (List.mem_append_left _ hd))
  rw [routedTo_routing c (h.merged_routing x hx), side] at hroute
  obtain ⟨hc, hd⟩ := Option.ite_none_right_eq_some.mp hroute
  rw [← Option.some.inj hd, ← hc]
  rfl

/-- The packets that the routing entry of a core catches. -/
def toCore (core : Fin 18) (ds : Multiset Packet) : Multiset Packet :=
  ds.filter fun d ↦ caught core d = true

def forCore (core : Fin 18) (evts : Multiset Word) : Multiset Packet :=
  (evts.filter fun evt ↦ (xcoord evt).toNat + 1 = core.val).map packetOf

theorem toCore_map_packetOf (core : Fin 18) (evts : Multiset Word) :
    toCore core (evts.map packetOf) = forCore core evts := by
  rw [toCore, Multiset.filter_map]
  exact congrArg (Multiset.map packetOf)
    (Multiset.filter_congr fun evt _ ↦ caught_packetOf core evt)

/-- Every core gets the packets of the events with its number in bits 19 to 16, on the
channels of their lowest bits, and nothing else. -/
structure CountsEvents (K : Contract p) (s : Top.State α ρ σ) (ins : List (Top.Input A)) :
    Prop where
  channels : ∀ c, ∀ d ∈ (emit (Top.next p) (transmitted K c) (Top.reset p s) ins).filterMap
    (ofOrigin .routed), (d.key &&& 7).toNat = c
  atMost : ∀ core, toCore core (arrived K (Top.reset p s) ins +
      underway K (run (Top.next p) (Top.reset p s) ins)) ≤
    forCore core (accepted p (Top.reset p s) ins)
  exact : Along (Top.next p) (NothingDropped p) (Top.reset p s) ins → ∀ core,
    toCore core (arrived K (Top.reset p s) ins +
        underway K (run (Top.next p) (Top.reset p s) ins)) =
      forCore core (accepted p (Top.reset p s) ins)

theorem counts_events (h : Started K s ins₁ ins₂) : CountsEvents K s (ins₁ ++ ins₂) where
  channels _ _ hd := h.channel_eq hd
  atMost core := by
    rw [← toCore_map_packetOf]
    exact Multiset.filter_le_filter _ h.arrived_le
  exact hdrop core := by
    rw [← toCore_map_packetOf, h.arrived_eq hdrop]

theorem counts_events_eventRun : CountsEvents registerContract cold (startRun ++ eventRun) :=
  counts_events started_eventRun

end Session

end Spif.CountEvents
