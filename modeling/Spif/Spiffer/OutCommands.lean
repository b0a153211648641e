import Spif.Host.SpifRemote
import Spif.Hw.TickFrames

/-!
# Output commands

`out_udp_listener` carries out the commands of the output client.  The frame
length goes through the driver to a register, whose low ten bits are the frame
size of `evt_dispatcher`.  `spiNNaker_listener` asks for `SPIFFER_BATCH_SIZE`
events in every transfer, whatever the frame length.
-/

namespace Spif.OutCommands

open Clocked Frames EvtDispatcher RegBank SpifRemote

def spifferBatchSize : ℕ := 256

def spifOutStart : Word := 0x5ec00000
def spifOutStop : Word := 0x5ec10000
def spifOutSetTick : Word := 0x5ec20000
def spifOutSetLen : Word := 0x5ec40000

def spifOutCmdMask : Word := 0xffff0000
def spifOutValMask : Word := 0x0000ffff

variable {P w : ℕ}

structure System (P : ℕ) where
  outStart : Bool
  bank : RegBank.State P
  disp : Observed

inductive Event where
  | command (dd : Word)
  | cycle (i : EvtDispatcher.Input)

def outputTickOut (b : RegBank.State P) : BitVec 32 := b.regs (.hssl 5)

def outputSizeOut (b : RegBank.State P) : BitVec 10 := (b.regs (.hssl 6)).setWidth 10

/-- The dispatcher's inputs, tick and frame size coming from the register bank. -/
def driven (b : RegBank.State P) (i : EvtDispatcher.Input) : EvtDispatcher.Input :=
  { i with outputTickIn := outputTickOut b, outputSizeIn := outputSizeOut b }

section

variable (q : Params) (win : BitVec w) (x y : Side)

def spifSetOutTick (b : RegBank.State P) (val : Word) : RegBank.State P :=
  (spifWriteReg q b win x y 5 val).getD b

def spifSetOutLen (b : RegBank.State P) (val : Word) : RegBank.State P :=
  (spifWriteReg q b win x y 6 val).getD b

def execute (s : System P) (dd : Word) : System P :=
  let cmd := dd &&& spifOutCmdMask
  let val := dd &&& spifOutValMask
  if cmd = spifOutStart then { s with outStart := true }
  else if cmd = spifOutStop then { s with outStart := false }
  else if cmd = spifOutSetTick then { s with bank := spifSetOutTick q win x y s.bank val }
  else if cmd = spifOutSetLen then { s with bank := spifSetOutLen q win x y s.bank val }
  else s

def next (s : System P) : Event → System P
  | .command dd => execute q win x y s dd
  | .cycle i => { s with disp := watch s.disp (driven s.bank i) }

def toDma (s : System P) : Event → List Sent
  | .command _ => []
  | .cycle i => stream s.disp (driven s.bank i)

def start (b : RegBank.State P) (d : EvtDispatcher.State) : System P :=
  ⟨false, RegBank.reset b, .start d⟩

def Fits (s : System P) (es : List Event) : Prop :=
  ∀ f ∈ frames Sent.last (emit (next q win x y) toDma s es), f.length ≤ spifferBatchSize

end

/-! ## Settings -/

def setting (cmd dd : Word) : Option Word :=
  if dd &&& spifOutCmdMask = cmd then some (dd &&& spifOutValMask) else none

def lengths (ws : List Word) : List Word := ws.filterMap (setting spifOutSetLen)

def ticks (ws : List Word) : List Word := ws.filterMap (setting spifOutSetTick)

/-- The frame length after the commands; 256 is the default of the register. -/
def lenAfter (ws : List Word) : Word := (lengths ws).getLast?.getD 256

def tickAfter (ws : List Word) : Word := (ticks ws).getLast?.getD 1000

def commands (es : List Event) : List Word :=
  es.filterMap fun | .command dd => some dd | .cycle _ => none

/-- The register keeps the length, the dispatcher takes the low ten bits of it. -/
def InBatch (v : Word) : Prop := 1 ≤ v.toNat % 1024 ∧ v.toNat % 1024 ≤ spifferBatchSize

instance (v : Word) : Decidable (InBatch v) := inferInstanceAs (Decidable (_ ∧ _))

section

variable (q : Params) (win : BitVec w) (x y : Side)

theorem spifSetOutTick_regs (b : RegBank.State P) (val : Word) :
    (spifSetOutTick q win x y b val).regs (.hssl 5) = val ∧
      (spifSetOutTick q win x y b val).regs (.hssl 6) = b.regs (.hssl 6) := by
  have hwrite := spifWriteReg_eq q b win x y (a := 5) (by decide) val
  have htarget : (toNumber 5 val).target P = some (.hssl 5) := rfl
  rw [spifSetOutTick, show (5 : Word) = (5 : BitVec 8).setWidth 32 from rfl, hwrite]
  simp only [Option.getD_some, wrote, writeReg_of_some htarget]
  refine ⟨?_, Function.update_of_ne (by simp) _ _⟩
  rw [Function.update_self]
  simp [toNumber]

theorem spifSetOutLen_regs (b : RegBank.State P) (val : Word) :
    (spifSetOutLen q win x y b val).regs (.hssl 6) = val ∧
      (spifSetOutLen q win x y b val).regs (.hssl 5) = b.regs (.hssl 5) := by
  have hwrite := spifWriteReg_eq q b win x y (a := 6) (by decide) val
  have htarget : (toNumber 6 val).target P = some (.hssl 6) := rfl
  rw [spifSetOutLen, show (6 : Word) = (6 : BitVec 8).setWidth 32 from rfl, hwrite]
  simp only [Option.getD_some, wrote, writeReg_of_some htarget]
  refine ⟨?_, Function.update_of_ne (by simp) _ _⟩
  rw [Function.update_self]
  simp [toNumber]

theorem regs_execute (s : System P) (dd : Word) :
    (execute q win x y s dd).bank.regs (.hssl 6) =
        (setting spifOutSetLen dd).getD (s.bank.regs (.hssl 6)) ∧
      (execute q win x y s dd).bank.regs (.hssl 5) =
        (setting spifOutSetTick dd).getD (s.bank.regs (.hssl 5)) := by
  unfold execute setting
  generalize dd &&& spifOutCmdMask = cmd
  by_cases hstart : cmd = spifOutStart
  · subst hstart
    exact ⟨rfl, rfl⟩
  by_cases hstop : cmd = spifOutStop
  · subst hstop
    exact ⟨rfl, rfl⟩
  by_cases htick : cmd = spifOutSetTick
  · subst htick
    obtain ⟨htick, hlen⟩ := spifSetOutTick_regs q win x y s.bank
      (dd &&& spifOutValMask)
    exact ⟨hlen, htick⟩
  by_cases hlen : cmd = spifOutSetLen
  · subst hlen
    obtain ⟨hlen, htick⟩ := spifSetOutLen_regs q win x y s.bank
      (dd &&& spifOutValMask)
    exact ⟨hlen, htick⟩
  simp [hstart, hstop, htick, hlen]

theorem disp_execute (s : System P) (dd : Word) :
    (execute q win x y s dd).disp = s.disp := by
  simp only [execute]
  split_ifs <;> rfl

/-! ## Commands, then cycles -/

theorem run_map_command (s : System P) (ws : List Word) :
    run (next q win x y) s (ws.map .command) = run (execute q win x y) s ws :=
  List.foldl_map

theorem run_commands (s : System P) (ws : List Word) :
    (run (next q win x y) s (ws.map .command)).disp = s.disp ∧
      (run (next q win x y) s (ws.map .command)).bank.regs (.hssl 6) =
        (lengths ws).getLast?.getD (s.bank.regs (.hssl 6)) ∧
      (run (next q win x y) s (ws.map .command)).bank.regs (.hssl 5) =
        (ticks ws).getLast?.getD (s.bank.regs (.hssl 5)) := by
  rw [run_map_command]
  refine ⟨?_, ?_, ?_⟩
  · induction ws generalizing s with
    | nil => rfl
    | cons dd ws ih => exact (ih (execute q win x y s dd)).trans (disp_execute q win x y s dd)
  · exact run_latest (fun s : System P ↦ s.bank.regs (.hssl 6)) (setting spifOutSetLen)
      (fun s dd ↦ (regs_execute q win x y s dd).1) s ws
  · exact run_latest (fun s : System P ↦ s.bank.regs (.hssl 5)) (setting spifOutSetTick)
      (fun s dd ↦ (regs_execute q win x y s dd).2) s ws

theorem emit_commands (s : System P) (ws : List Word) :
    emit (next q win x y) toDma s (ws.map .command) = [] := by
  induction ws generalizing s with
  | nil => rfl
  | cons dd ws ih => exact ih (execute q win x y s dd)

theorem emit_cycles (s : System P) (ins : List EvtDispatcher.Input) :
    emit (next q win x y) toDma s (ins.map .cycle) =
      emit watch stream s.disp (ins.map (driven s.bank)) := by
  induction ins generalizing s with
  | nil => rfl
  | cons i ins ih => exact congrArg (stream s.disp (driven s.bank i) ++ ·) (ih _)

theorem emit_commands_cycles (b : RegBank.State P) (d : EvtDispatcher.State) (ws : List Word)
    (ins : List EvtDispatcher.Input) :
    emit (next q win x y) toDma (start b d) (ws.map .command ++ ins.map .cycle) =
      emit watch stream (.start d)
        (ins.map (driven (run (next q win x y) (start b d) (ws.map .command)).bank)) := by
  rw [emit_append, emit_commands, List.nil_append, emit_cycles, (run_commands q win x y _ ws).1]
  rfl

theorem outputs_after (b : RegBank.State P) (d : EvtDispatcher.State) (ws : List Word) :
    (outputSizeOut (run (next q win x y) (start b d) (ws.map .command)).bank).toNat =
        (lenAfter ws).toNat % 1024 ∧
      outputTickOut (run (next q win x y) (start b d) (ws.map .command)).bank =
        tickAfter ws := by
  obtain ⟨-, hlen, htick⟩ := run_commands q win x y (start b d) ws
  refine ⟨?_, htick⟩
  rw [outputSizeOut, hlen, BitVec.toNat_setWidth]
  rfl

variable {q win x y}

theorem bad_size {v : Word} (h : ¬ InBatch v) {u : BitVec 10} (hu : u.toNat = v.toNat % 1024) :
    u = 0 ∨ spifferBatchSize < u.toNat := by
  by_cases hzero : u = 0
  · exact .inl hzero
  · have hpos := toNat_pos hzero
    rw [InBatch, ← hu] at h
    exact .inr (by omega)

def burst : EvtDispatcher.Input where
  pktDataIn := .mk 0 7 0
  pktVldIn := true
  dsKeyIn := fun _ ↦ 0
  dsMskIn := fun _ ↦ 0xffffffff
  dsSftIn := fun _ ↦ 0
  outputTickIn := 0
  outputSizeIn := 0
  evtRdyIn := true

theorem not_fits_burst (b : RegBank.State P) (d : EvtDispatcher.State) {ws : List Word}
    (hlen : ¬ InBatch (lenAfter ws)) (htick : 3 < (tickAfter ws).toNat) :
    ¬ Fits q win x y (start b d)
      (ws.map .command ++ (List.replicate 260 burst).map .cycle) := by
  obtain ⟨hsize, htick'⟩ := outputs_after q win x y b d ws
  intro h
  rw [Fits, emit_commands_cycles, List.map_replicate] at h
  obtain ⟨f, hf, hlong⟩ := exists_long_frame (M := spifferBatchSize) (by decide) d
    (i := driven (run (next q win x y) (start b d) (ws.map .command)).bank burst)
    ⟨rfl, rfl⟩ (bad_size hlen hsize) (by
      change _ < 75 * (outputTickOut _).toNat
      rw [htick', spifferBatchSize]
      omega)
  exact absurd (h f hf) (Nat.not_le.mpr hlong)

theorem fits_after (b : RegBank.State P) (d : EvtDispatcher.State) {ws : List Word}
    (hws : InBatch (lenAfter ws) ∨ (tickAfter ws).toNat ≤ 3) (ins : List EvtDispatcher.Input) :
    Fits q win x y (start b d) (ws.map .command ++ ins.map .cycle) := by
  obtain ⟨hsize, htick⟩ := outputs_after q win x y b d ws
  intro f hf
  rw [emit_commands_cycles] at hf
  generalize (run (next q win x y) (start b d) (ws.map .command)).bank = t at hsize htick hf
  have hdriven : ∀ i ∈ ins.map (driven t),
      i.outputSizeIn = outputSizeOut t ∧ i.outputTickIn = outputTickOut t := by
    intro i hi
    obtain ⟨j, -, rfl⟩ := List.mem_map.mp hi
    exact ⟨rfl, rfl⟩
  rcases hws with hlen | hshort
  · have hframed : Framed Sent.last (InSize 1 spifferBatchSize) 0
        (emit watch stream (.start d) (ins.map (driven t))) :=
      framed_run d le_rfl fun i hi ↦ by
        rw [(hdriven i hi).1, hsize]
        exact hlen
    exact hframed.length_le (fun _ _ h ↦ h.1) hf
  · have hframed : Framed Sent.last (fun n _ ↦ n ≤ 75 * 3 + 1) 0
        (emit watch stream (.start d) (ins.map (driven t))) :=
      framed_of_tick_le d fun i hi ↦ by
        rw [(hdriven i hi).2, htick]
        exact hshort
    exact hframed.length_le (fun _ _ h ↦ h.trans (by decide)) hf

/-! ## Commands between the cycles -/

/-- The dispatcher keeps to the credit, and the register holds a good length. -/
def LenInv (c : ℕ) (s : System P) : Prop :=
  FrameInv 1 spifferBatchSize c s.disp ∧ InBatch (s.bank.regs (.hssl 6))

def SetsGoodLen : Event → Prop
  | .command dd => ∀ v ∈ setting spifOutSetLen dd, InBatch v
  | .cycle _ => True

theorem lenInv_next {c : ℕ} {s : System P} {e : Event} (hs : LenInv c s) (he : SetsGoodLen e) :
    Framed Sent.last (InSize 1 spifferBatchSize) c (toDma s e) ∧
      LenInv (inFrame Sent.last c (toDma s e)) (next q win x y s e) := by
  obtain ⟨hinv, hlen⟩ := hs
  cases e with
  | command dd =>
      refine ⟨trivial, ?_, ?_⟩
      · change FrameInv 1 spifferBatchSize c (execute q win x y s dd).disp
        rwa [disp_execute]
      · change InBatch ((execute q win x y s dd).bank.regs (.hssl 6))
        rw [(regs_execute q win x y s dd).1]
        cases hset : setting spifOutSetLen dd with
        | none => exact hlen
        | some v => exact he v hset
  | cycle i =>
      refine ⟨framed_stream hinv _, frameInv_watch hinv le_rfl ?_, hlen⟩
      change 1 ≤ (outputSizeOut s.bank).toNat ∧ (outputSizeOut s.bank).toNat ≤ _
      rw [outputSizeOut, BitVec.toNat_setWidth]
      exact hlen

theorem fits_of_lengths (b : RegBank.State P) (d : EvtDispatcher.State) {es : List Event}
    (hes : ∀ v ∈ lengths (commands es), InBatch v) : Fits q win x y (start b d) es := by
  have hgood : ∀ e ∈ es, SetsGoodLen e := by
    intro e he
    cases e with
    | command dd =>
        have hmem : dd ∈ commands es := List.mem_filterMap.mpr ⟨_, he, rfl⟩
        exact fun v hv ↦ hes v (List.mem_filterMap.mpr ⟨dd, hmem, hv⟩)
    | cycle i => trivial
  have hstart : LenInv 0 (start b d) := ⟨frameInv_start _ _ d, show InBatch 256 by decide⟩
  have hframed : Framed Sent.last (InSize 1 spifferBatchSize) 0
      (emit (next q win x y) toDma (start b d) es) :=
    framed_emit (fun _ _ _ ↦ lenInv_next) hstart (along_of_forall_mem hgood _)
  exact fun f hf ↦ hframed.length_le (fun _ _ h ↦ h.1) hf

theorem commands_append (es es' : List Event) :
    commands (es ++ es') = commands es ++ commands es' := List.filterMap_append

theorem commands_map_command (ws : List Word) : commands (ws.map .command) = ws := by
  simp [commands, List.filterMap_map]

theorem commands_map_cycle (ins : List EvtDispatcher.Input) : commands (ins.map .cycle) = [] := by
  simp [commands, List.filterMap_map]

/-- One cycle with the default frame length, then a burst after command `dd`. -/
def burstAfter (ws : List Word) (dd : Word) (ws' : List Word) : List Event :=
  .cycle burst :: ((ws ++ [dd]).map .command ++
    ((List.replicate 257 burst ++ List.replicate 258 burst).map .cycle ++ ws'.map .command))

theorem commands_burstAfter (ws : List Word) (dd : Word) (ws' : List Word) :
    commands (burstAfter ws dd ws') = ws ++ dd :: ws' := by
  change commands (_ ++ (_ ++ _)) = _
  rw [commands_append, commands_append, commands_map_command, commands_map_cycle,
    commands_map_command]
  simp

theorem not_fits_burstAfter (b : RegBank.State P) (d : EvtDispatcher.State) (ws : List Word)
    {dd v : Word} (ws' : List Word) (hv : setting spifOutSetLen dd = some v)
    (hbad : ¬ InBatch v) : ¬ Fits q win x y (start b d) (burstAfter ws dd ws') := by
  let s := next q win x y (start b d) (.cycle burst)
  obtain ⟨hdisp, hlen, -⟩ := run_commands q win x y s (ws ++ [dd])
  have hlen' : (run (next q win x y) s ((ws ++ [dd]).map .command)).bank.regs (.hssl 6) = v := by
    rw [hlen, lengths, List.filterMap_append]
    simp [hv]
  intro h
  rw [Fits, burstAfter, emit_cons, emit_append, emit_commands, List.nil_append, emit_append,
    emit_cycles, emit_commands, List.append_nil, hdisp, List.map_append, List.map_replicate,
    List.map_replicate] at h
  obtain ⟨f, hf, hlong⟩ := exists_long_frame_of_change (n := 255) (M := spifferBatchSize)
    (by decide) d (i := driven (RegBank.reset b) burst)
    (j := driven (run (next q win x y) s ((ws ++ [dd]).map .command)).bank burst)
    rfl ⟨rfl, rfl⟩ (bad_size hbad (by
      change (outputSizeOut _).toNat = _
      rw [outputSizeOut, hlen', BitVec.toNat_setWidth]))
    (show _ < 75 * (1000 : Word).toNat by decide)
  exact absurd (h f hf) (Nat.not_le.mpr hlong)

/-- Output frames fit a transfer after the commands if the last frame length does or
the tick is short, and also between the commands if every frame length does. -/
theorem fits_iff (b : RegBank.State P) (d : EvtDispatcher.State) (ws : List Word) :
    ((∀ ins : List EvtDispatcher.Input,
        Fits q win x y (start b d) (ws.map .command ++ ins.map .cycle)) ↔
      InBatch (lenAfter ws) ∨ (tickAfter ws).toNat ≤ 3) ∧
      ((∀ es, commands es = ws → Fits q win x y (start b d) es) ↔
        ∀ v ∈ lengths ws, InBatch v) := by
  constructor
  · refine ⟨fun h ↦ ?_, fun h ins ↦ fits_after b d h ins⟩
    by_contra hbad
    obtain ⟨hlen, htick⟩ := not_or.mp hbad
    exact not_fits_burst b d hlen (Nat.not_le.mp htick) (h _)
  · constructor
    · intro h v hv
      by_contra hbad
      obtain ⟨dd, hdd, hset⟩ := List.mem_filterMap.mp hv
      obtain ⟨ws₁, ws₂, rfl⟩ := List.append_of_mem hdd
      exact not_fits_burstAfter b d ws₁ ws₂ hset hbad
        (h (burstAfter ws₁ dd ws₂) (commands_burstAfter ws₁ dd ws₂))
    · rintro h es rfl
      exact fits_of_lengths b d h

end

theorem not_fits_len512 :
    ¬ ∀ ins : List EvtDispatcher.Input,
      Fits ⟨0, 1, 1⟩ 0x10f080#22 idsi idsi (start resetBank cold)
        ([0x5ec40200].map .command ++ ins.map .cycle) :=
  fun h ↦ not_fits_burst resetBank cold (by decide) (by decide) (h _)

end Spif.OutCommands
