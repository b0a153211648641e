import Spif.Host.CountEvents
import Spif.Host.OutputClient
import Spif.Hw.OutputEvents

/-!
# Events from SpiNNaker to a file

`fire_out` sends peripheral packets from the cores of a SpiNNaker board.  spif distils
events from them, spiffer passes the events on, and `spif_output_client` writes them to a
file.  Here the parts of this way are put together.

The application does not configure the distillers of spif, so that an event is the key of a
packet.  The DMA controller and the driver hand the events over in order.
-/

namespace Spif.FireOut

open Clocked RegBank SpifLocal OutCommands Interleave Spif.Top

def perKey : Word := 0xfffe0000

def perMsk : Word := 0xffff0000

/-- The keys of the packets that `send_pkts` sends, for a number of packets and a first
value. -/
def sendPkts (pc pv : Word) : List Word :=
  (List.range pc.toNat).map fun i ↦ perKey ||| ((pv + BitVec.ofNat 32 i) &&& ~~~perMsk)

/-- Of the configuration packets, only those of `start_spif` have a payload. -/
def Config (d : Packet) : Prop := d.lng = true → ∃ m ∈ spifResetCounters, Delivered m d

/-- A peripheral packet on arrival; it names a distiller that exists. -/
structure Fired (key : Word) (d : Packet) : Prop where
  key : d.key = key
  dis : d.dis.toNat < RegBank.numDsRegs

/-- The register write of an output command. -/
def commandWrite (dd : Word) : Option Write :=
  match setting spifOutSetTick dd with
  | some val => some (SpifRemote.toNumber 5 val)
  | none => (setting spifOutSetLen dd).map (SpifRemote.toNumber 6)

/-! ## Distillers with their defaults -/

structure Distilling (c : Regs 2) : Prop where
  key : ∀ k, c (.dsKey k) = 0
  msk : ∀ k, c (.dsMsk k) = 0xffffffff
  sft : ∀ k, c (.dsSft k) = 0
  size : 2 ≤ ((c (.hssl 6)).setWidth 10).toNat

theorem distilling_defaults (c : Regs 2) : Distilling (defaults c) where
  key _ := rfl
  msk _ := rfl
  sft _ := rfl
  size := by
    change 2 ≤ ((256 : Word).setWidth 10).toNat
    decide

theorem Distilling.distil_eq {c : Regs 2} (h : Distilling c) {d : Packet}
    (hd : d.dis.toNat < RegBank.numDsRegs) : distil c d = d.key := by
  rw [distil, dif_pos hd, h.key, h.msk, h.sft]
  change 0#32 ||| (d.key &&& BitVec.allOnes 32) >>> 0 = d.key
  rw [BitVec.and_allOnes, BitVec.ushiftRight_zero, BitVec.zero_or]

/-- Tick, frame size and counters do not matter to the distillers. -/
theorem Distilling.applyWrite {c : Regs 2} (h : Distilling c) {w : Write}
    (hw : w.target 2 = none ∨ w = SpifRemote.toNumber 5 500 ∨ w = SpifRemote.toNumber 6 128) :
    Distilling (applyWrite c w) := by
  rcases hw with hnone | rfl | rfl
  · have hsoft : w.isSoftReset = false := by
      rw [Bool.eq_false_iff]
      intro hsoft
      rw [target_of_isSoftReset hsoft] at hnone
      cases hnone
    rwa [applyWrite_of_not_soft hsoft, writeReg_of_none hnone]
  · have htarget : (SpifRemote.toNumber 5 500).target 2 = some (.hssl 5) := rfl
    rw [applyWrite_of_not_soft rfl, writeReg_of_some htarget]
    exact ⟨h.key, h.msk, h.sft, h.size⟩
  · have htarget : (SpifRemote.toNumber 6 128).target 2 = some (.hssl 6) := rfl
    rw [applyWrite_of_not_soft rfl, writeReg_of_some htarget]
    refine ⟨h.key, h.msk, h.sft, ?_⟩
    rw [Function.update_self]
    decide

theorem target_of_config {d : Packet} (hd : Config d) {w : Write} (hw : w ∈ writeOf d) :
    w.target 2 = none := by
  unfold writeOf at hw
  obtain ⟨hlng, hw⟩ := Option.ite_none_right_eq_some.mp hw
  obtain ⟨m, hm, hdelivered⟩ := hd hlng
  have hkeys : ∀ m ∈ spifResetCounters,
      target 2 (m.key.extractLsb' 4 4) (m.key.extractLsb' 0 4) = none := by decide
  obtain rfl := Option.some.inj hw
  rw [Write.target, hdelivered.key]
  exact hkeys m hm

theorem commandWrite_eq {dd : Word} {w : Write}
    (hdd : dd ∈ OutputClient.startCommands ++ OutputClient.stopCommands)
    (hw : commandWrite dd = some w) :
    w = SpifRemote.toNumber 5 500 ∨ w = SpifRemote.toNumber 6 128 := by
  have hwrites : (OutputClient.startCommands ++ OutputClient.stopCommands).filterMap
      commandWrite = [SpifRemote.toNumber 6 128, SpifRemote.toNumber 5 500] := by decide
  have hmem := List.mem_filterMap.mpr ⟨dd, hdd, hw⟩
  rw [hwrites] at hmem
  simpa [or_comm] using hmem

/-! ## The way of the events -/

section System

variable {α ρ σ : Type*} {A P w : ℕ} {p : Parts α ρ σ} {K : Contract p}

/-- `ins` is a run of spif, `es` one of spiffer and the output client, and `arrivals` are
the keys of the packets in the order in which they get to spif, each with its core.  Packets
of a core may be lost on the way to spif, but do not overtake each other. -/
structure Connected {Core : Type*} [DecidableEq Core] (p : Parts α ρ σ) (s : Top.State α ρ σ)
    (ins : List (Top.Input A)) (q : Params) (win : BitVec w) (x y : SpifRemote.Side)
    (numEvents : Word) (sys : System P) (es : List OutputClient.Event) (pc pv : Core → Word)
    (streams : Core → List Word) (arrivals : List (Core × Word)) : Prop where
  client : Along (OutputClient.next q win x y numEvents) OutputClient.Enabled
    (OutputClient.start sys) es
  bus : ∀ i ∈ ins, ∀ wr ∈ busReq i, ∃ dd ∈ emit (OutputClient.next q win x y numEvents)
    (OutputClient.seen OutSession.executed) (OutputClient.start sys) es,
      commandWrite dd = some wr
  config : ∀ d ∈ (emit (Top.next p) (rxAccepted p) (Top.reset p s) ins).filter Packet.cfg,
    Config d
  sends : ∀ core, List.Sublist (streams core) (sendPkts (pc core) (pv core))
  interleaves : Interleaves arrivals streams
  fired : List.Forall₂ Fired (arrivals.map Prod.snd)
    ((emit (Top.next p) (rxAccepted p) (Top.reset p s) ins).filter fun d ↦ !d.cfg)
  dma : List.Sublist
    (emit (OutputClient.next q win x y numEvents) (OutputClient.seen OutSession.obtained)
      (OutputClient.start sys) es).flatten
    (emit (Top.next p) (toDma p) (Top.reset p s) ins)

variable {Core : Type*} [DecidableEq Core] {s : Top.State α ρ σ} {ins : List (Top.Input A)}
  {q : Params} {win : BitVec w} {x y : SpifRemote.Side} {numEvents : Word} {sys : System P}
  {es : List OutputClient.Event} {pc pv : Core → Word} {streams : Core → List Word}
  {arrivals : List (Core × Word)}

theorem Connected.along_distilling (K : Contract p)
    (h : Connected p s ins q win x y numEvents sys es pc pv streams arrivals) :
    Along (Top.next p) (fun s _ ↦ Distilling s.rb.regs) (Top.reset p s) ins := by
  have hbus : ∀ i ∈ ins, ∀ wr ∈ busReq i,
      wr = SpifRemote.toNumber 5 500 ∨ wr = SpifRemote.toNumber 6 128 := by
    intro i hi wr hwr
    obtain ⟨dd, hdd, hwrite⟩ := h.bus i hi wr hwr
    exact commandWrite_eq (OutputClient.executed_subset h.client hdd) hwrite
  have hpkt : ∀ x ∈ emit (Top.next p) (taken p) (Top.reset p s) ins, Config x.1 := by
    intro x hx
    apply h.config
    rw [← taken_append_queue K]
    exact List.mem_append_left _ (List.mem_map_of_mem hx)
  refine along_of_inv (I := fun s ↦ Distilling s.rb.regs) (fun s i hs hi ↦ ?_)
    (fun _ _ hs _ ↦ hs) (distilling_defaults s.rb.regs)
    (along_and (along_of_forall_mem hbus (Top.reset p s)) (forall_mem_emit_iff.mp hpkt))
  exact regs_inv_next hs
    (fun x hx wr hwr c hc ↦ hc.applyWrite (.inl (target_of_config (hi.2 x hx) hwr)))
    (fun wr hwr c hc ↦ hc.applyWrite (.inr (hi.1 wr hwr)))

theorem keys_of_fired {keys : List Word} {ds : List Packet} (h : List.Forall₂ Fired keys ds) :
    ds.map Packet.key = keys ∧ ∀ d ∈ ds, d.dis.toNat < RegBank.numDsRegs := by
  induction h with
  | nil => exact ⟨rfl, fun d hd ↦ absurd hd List.not_mem_nil⟩
  | cons hd _ ih =>
      exact ⟨congrArg₂ List.cons hd.key ih.1, List.forall_mem_cons.mpr ⟨hd.dis, ih.2⟩⟩

/-- The DMA engine gets the keys in the order in which their packets arrived. -/
theorem Connected.toDma_sublist (K : Contract p)
    (h : Connected p s ins q win x y numEvents sys es pc pv streams arrivals) :
    List.Sublist (emit (Top.next p) (toDma p) (Top.reset p s) ins) (arrivals.map Prod.snd) := by
  have hdistilling := h.along_distilling K
  have hqueue := perTaken_append_queue K s ins
  obtain ⟨harrived, hdis⟩ := keys_of_fired h.fired
  have hfired : ∀ d ∈ emit (Top.next p) (perTaken p) (Top.reset p s) ins,
      d.dis.toNat < RegBank.numDsRegs := by
    intro d hd
    apply hdis
    rw [← hqueue]
    exact List.mem_append_left _ hd
  have hkeys : emit (Top.next p) (distilled p) (Top.reset p s) ins =
      (emit (Top.next p) (perTaken p) (Top.reset p s) ins).map Packet.key := by
    rw [emit_map]
    refine emit_congr (along_of_inv (I := fun _ ↦ True) (fun _ _ _ _ ↦ trivial)
      (fun s i _ hi ↦ ?_) trivial (along_and hdistilling (forall_mem_emit_iff.mp hfired)))
    exact List.map_congr_left fun d hd ↦ hi.1.distil_eq (hi.2 d hd)
  have hsize : Along (Top.next p) (fun s _ ↦ 2 ≤ (outputSize s).toNat) (Top.reset p s) ins :=
    along_of_inv (I := fun _ ↦ True) (fun _ _ _ _ ↦ trivial) (fun _ _ _ hi ↦ hi.size) trivial
      hdistilling
  refine ((List.sublist_append_left _ _).trans (toDma_append_held s hsize)).trans ?_
  rw [hkeys, ← harrived, ← hqueue, List.map_append]
  exact List.sublist_append_left _ _

/-- The file holds events that were fired, in the order in which they got to spif and none
more often than it was fired.  Those of a core are in the order in which the core sent them,
if they can be told from the others. -/
structure InOrder {Core : Type*} [DecidableEq Core] (file : List Word) (pc pv : Core → Word)
    (streams : Core → List Word) (arrivals : List (Core × Word)) : Prop where
  arrivals : List.Sublist file (arrivals.map Prod.snd)
  core : ∀ c, (∀ c', c' ≠ c → ∀ key ∈ streams c', key ∉ streams c) →
    List.Sublist (file.filter (· ∈ streams c)) (sendPkts (pc c) (pv c))

theorem file_in_order (K : Contract p)
    (h : Connected p s ins q win x y numEvents sys es pc pv streams arrivals) :
    InOrder (emit (OutputClient.next q win x y numEvents) OutputClient.written
      (OutputClient.start sys) es) pc pv streams arrivals := by
  have hfile : List.Sublist (emit (OutputClient.next q win x y numEvents) OutputClient.written
      (OutputClient.start sys) es) (arrivals.map Prod.snd) := by
    rw [OutputClient.written_eq_flatten h.client]
    have hreceived := (List.sublist_append_left _ _).trans
      (OutputClient.received_sublist_obtained h.client)
    exact (hreceived.flatten.trans h.dma).trans (h.toDma_sublist K)
  refine ⟨hfile, fun c hother ↦ ?_⟩
  have hstream := h.interleaves.filter_eq (g := (· ∈ streams c)) (k := c) (by simp)
    (fun c' hc key hkey ↦ decide_eq_false (hother c' hc key hkey))
  exact (hstream ▸ hfile.filter _).trans (h.sends c)

/-! ## A run with one core -/

def firedPacket (key : Word) : Packet := .mk 0 key 0

theorem fired_firedPacket (key : Word) : Fired key (firedPacket key) where
  key := Packet.key_mk 0 key 0
  dis := by
    have hdis : (firedPacket key).dis = 0 := by
      apply BitVec.eq_of_getLsbD_eq
      intro i hi
      have hlt : 5 + i < 8 := by omega
      simp [Packet.dis, firedPacket, Packet.getLsbD_mk, hlt]
    rw [hdis]
    decide

/-- A cycle of the APB transfer that sets the frame length to 128. -/
def setLen (penable : Bool) : Top.Input 32 :=
  { Top.cycle (fun _ ↦ none) none with
    apbPsel := true
    apbPenable := penable
    apbPwrite := true
    apbPaddr := 24
    apbPwdata := 128 }

/-- The packets of the configuration, then enough events to fill the first frame. -/
def fireRun : List (Top.Input 32) :=
  (spifResetCounters.map fun m ↦ Top.cycle (fun _ ↦ none) (some m.deliver)) ++
    (sendPkts 259 5).map (fun key ↦ Top.cycle (fun _ ↦ none) (some (firedPacket key))) ++
    [setLen false, setLen true]

def clientRun (sb : List Word) : List OutputClient.Event :=
  [.start, .spiffer (.recvfrom () OutputClient.startCommands), .spiffer .execute,
    .spiffer .execute, .spiffer .execute, .spiffer (.getOutput sb), .spiffer .test,
    .spiffer .sendto, .recv, .stop]

theorem along_clientRun {sb : List Word} (hsb : sb.length = 256) :
    Along (OutputClient.next ⟨0, 1, 1⟩ 0x10f080#22 SpifRemote.idsi SpifRemote.idsi 200)
      OutputClient.Enabled (OutputClient.start (withSettings 2 ⟨false, 1000, 256⟩))
      (clientRun sb) := by
  refine ⟨rfl, ⟨rfl, rfl⟩, ⟨List.cons_ne_nil _ _, trivial⟩, ⟨List.cons_ne_nil _ _, trivial⟩,
    ⟨List.cons_ne_nil _ _, trivial⟩, ⟨rfl, hsb.le⟩, ⟨⟨_, rfl⟩, trivial⟩, ⟨⟨_, rfl⟩, trivial⟩,
    ⟨rfl, List.cons_ne_nil _ _⟩, ?_, trivial⟩
  change OutputClient.loop 200 (0 + BitVec.ofNat 32 (sb.take 256).length) = .stop
  rw [List.length_take, hsb]
  rfl

theorem fireRun_ports :
    emit (Top.next registerParts) (rxAccepted registerParts) (Top.reset registerParts cold)
        fireRun = spifResetCounters.map McPacket.deliver ++ (sendPkts 259 5).map firedPacket ∧
      emit (Top.next registerParts) (toDma registerParts) (Top.reset registerParts cold) fireRun =
        sendPkts 258 5 := by
  decide +kernel

theorem length_sendPkts (pc pv : Word) : (sendPkts pc pv).length = pc.toNat := by
  simp [sendPkts]

theorem connected_fireRun : Connected registerParts cold fireRun ⟨0, 1, 1⟩ 0x10f080#22
    SpifRemote.idsi SpifRemote.idsi 200 (withSettings 2 ⟨false, 1000, 256⟩)
    (clientRun (sendPkts 256 5)) (fun _ : Unit ↦ 260) (fun _ ↦ 4) (fun _ ↦ sendPkts 259 5)
    ((sendPkts 259 5).map fun key ↦ ((), key)) where
  client := along_clientRun (length_sendPkts 256 5)
  bus := by
    intro i hi wr hwr
    have hwrites : fireRun.filterMap busReq =
        [SpifRemote.toNumber 6 128, SpifRemote.toNumber 6 128] := by decide +kernel
    have hmem := List.mem_filterMap.mpr ⟨i, hi, hwr⟩
    rw [hwrites] at hmem
    obtain rfl : wr = SpifRemote.toNumber 6 128 := by simpa using hmem
    exact ⟨spifOutSetLen + 128, List.mem_cons_self, rfl⟩
  config := by
    rw [fireRun_ports.1]
    intro d hd
    obtain ⟨hmem, hcfg⟩ := List.mem_filter.mp hd
    rcases List.mem_append.mp hmem with h | h
    · obtain ⟨m, hm, rfl⟩ := List.mem_map.mp h
      have hpayload : ∀ m ∈ spifResetCounters, m.payload.isSome := by decide
      exact fun _ ↦ ⟨m, hm, delivered_deliver (hpayload m hm)⟩
    · obtain ⟨key, -, rfl⟩ := List.mem_map.mp h
      rw [firedPacket, Packet.cfg_mk] at hcfg
      cases hcfg
  sends _ := by
    -- the first packet of the core does not get to spif
    have hlost : sendPkts 259 5 = (sendPkts 260 4).tail := by decide +kernel
    rw [hlost]
    exact List.tail_sublist _
  interleaves := by
    rintro ⟨⟩
    simp [side, Function.comp_def]
  fired := by
    have hconfig : (spifResetCounters.map McPacket.deliver).filter (fun d ↦ !d.cfg) = [] := by
      decide
    have hfired : ((sendPkts 259 5).map firedPacket).filter (fun d ↦ !d.cfg) =
        (sendPkts 259 5).map firedPacket := by
      rw [List.filter_eq_self]
      intro d hd
      obtain ⟨key, -, rfl⟩ := List.mem_map.mp hd
      rw [firedPacket, Packet.cfg_mk]
      rfl
    rw [fireRun_ports.1, List.filter_append, hconfig, hfired, List.nil_append, List.map_map,
      List.forall₂_map_left_iff, List.forall₂_map_right_iff, List.forall₂_same]
    exact fun key _ ↦ fired_firedPacket key
  dma := by
    have htake : sendPkts 256 5 = (sendPkts 258 5).take 256 := by decide +kernel
    rw [fireRun_ports.2]
    change List.Sublist (sendPkts 256 5 ++ []) (sendPkts 258 5)
    rw [List.append_nil, htake]
    exact List.take_sublist 256 _

theorem file_in_order_fireRun : InOrder (emit
      (OutputClient.next ⟨0, 1, 1⟩ 0x10f080#22 SpifRemote.idsi SpifRemote.idsi 200)
      OutputClient.written (OutputClient.start (withSettings 2 ⟨false, 1000, 256⟩))
      (clientRun (sendPkts 256 5)))
    (fun _ : Unit ↦ 260) (fun _ ↦ 4) (fun _ ↦ sendPkts 259 5)
    ((sendPkts 259 5).map fun key ↦ ((), key)) :=
  file_in_order registerContract connected_fireRun

end System

end Spif.FireOut
