import Spif.Spiffer.OutCommands

/-!
# The output command protocol

The output client controls the output with datagrams of command words.  The
manual gives the words; `out_udp_listener` splits a word into a command and a
value by two masks.  It computes the number of words from the result of
`recvfrom`, which is signed, with the unsigned `sizeof`.
-/

namespace Spif.OutCommands

open Clocked RegBank SpifRemote

variable {P w : ℕ}

inductive SizeT where
  | bits32
  | bits64
deriving DecidableEq, Repr

abbrev SizeT.width : SizeT → ℕ
  | .bits32 => 32
  | .bits64 => 64

/-- `uint num_cmds = rcv_bytes / sizeof (uint)` -/
def numCmds (z : SizeT) (rcvBytes : Word) : Word :=
  (rcvBytes.signExtend z.width / 4).setWidth 32

/-- The indices at which the loop reads `dd`. -/
def reads (z : SizeT) (rcvBytes : Word) : List ℕ := List.range (numCmds z rcvBytes).toNat

/-- What `recvfrom` may return for a buffer of `SPIFFER_BATCH_SIZE` words. -/
inductive Received where
  | error
  | bytes (n : ℕ) (h : n ≤ 4 * spifferBatchSize)

def Received.result : Received → Word
  | .error => -1
  | .bytes n _ => BitVec.ofNat 32 n

def Received.count : Received → ℕ
  | .error => 0
  | .bytes n _ => n

theorem toNat_numCmds (z : SizeT) {n : ℕ} (h : n ≤ 4 * spifferBatchSize) :
    (numCmds z (BitVec.ofNat 32 n)).toNat = n / 4 := by
  have hn : n ≤ 1024 := h
  have hmsb : (BitVec.ofNat 32 n).msb = false := by
    rw [BitVec.msb_eq_decide, BitVec.toNat_ofNat]
    simp only [decide_eq_false_iff_not]
    omega
  rw [numCmds, BitVec.signExtend_eq_setWidth_of_msb_false hmsb]
  simp only [BitVec.toNat_setWidth, BitVec.toNat_udiv, BitVec.toNat_ofNat]
  cases z with
  | bits32 =>
      change n % 2 ^ 32 % 2 ^ 32 / 4 % 2 ^ 32 = n / 4
      omega
  | bits64 =>
      change n % 2 ^ 32 % 2 ^ 64 / 4 % 2 ^ 32 = n / 4
      omega

theorem zero_mem_reads_error (z : SizeT) : 0 ∈ reads z Received.error.result := by
  rw [reads, List.mem_range]
  cases z <;> decide

/-- The loop keeps to the words received unless `recvfrom` fails. -/
theorem reads_received_iff (z : SizeT) (r : Received) :
    (∀ k ∈ reads z r.result, 4 * (k + 1) ≤ r.count) ↔ r ≠ .error := by
  cases r with
  | error =>
      refine iff_of_false (fun h ↦ ?_) (not_not.mpr rfl)
      exact absurd (h 0 (zero_mem_reads_error z)) (by decide)
  | bytes n hn =>
      refine iff_of_true (fun k hk ↦ ?_) (by rintro ⟨⟩)
      rw [Received.result, reads, List.mem_range, toNat_numCmds z hn] at hk
      change 4 * (k + 1) ≤ n
      omega

/-- An error makes the loop read beyond the end of `dd`. -/
theorem reads_error_overrun :
    ¬ ∀ (z : SizeT) (r : Received), ∀ k ∈ reads z r.result, 4 * (k + 1) ≤ r.count :=
  fun h ↦ absurd (h .bits64 .error 0 (zero_mem_reads_error .bits64)) (by decide)

/-! ## One datagram -/

section

variable (q : Params) (win : BitVec w) (x y : Side)

/-- The loop over the commands; `dd` is the buffer and what lies behind it. -/
def executeAll (z : SizeT) (dd : ℕ → Word) (rcvBytes : Word) (s : System P) : System P :=
  (reads z rcvBytes).foldl (fun s k ↦ execute q win x y s (dd k)) s

/-- The words of a datagram that fit the buffer; the rest of it is discarded. -/
def received (ws : List Word) : List Word := ws.take spifferBatchSize

/-- The buffer after `recvfrom`. -/
def fill (dd : ℕ → Word) (ws : List Word) (k : ℕ) : Word := (received ws)[k]?.getD (dd k)

def listen (z : SizeT) (dd : ℕ → Word) (ws : List Word) (s : System P) : System P :=
  executeAll q win x y z (fill dd ws) (BitVec.ofNat 32 (4 * (received ws).length)) s

theorem listen_eq_run (z : SizeT) (dd : ℕ → Word) (ws : List Word) (s : System P) :
    listen q win x y z dd ws s = run (execute q win x y) s (received ws) := by
  have hlen : 4 * (received ws).length ≤ 4 * spifferBatchSize :=
    Nat.mul_le_mul_left 4 (List.length_take_le _ _)
  have hwords : (List.range (received ws).length).map (fill dd ws) = received ws := by
    apply List.ext_getElem
    · simp
    · intro k _ hk
      simp [fill, hk]
  rw [listen, executeAll, reads, toNat_numCmds z hlen, Nat.mul_div_cancel_left _ (by decide)]
  calc (List.range (received ws).length).foldl (fun s k ↦ execute q win x y s (fill dd ws k)) s
      = ((List.range (received ws).length).map (fill dd ws)).foldl (execute q win x y) s := by
        rw [List.foldl_map]
    _ = run (execute q win x y) s (received ws) := by rw [hwords, run]

end

/-! ## The documented protocol -/

inductive Command where
  | start
  | stop
  | tick (t : BitVec 16)
  | len (l : BitVec 16)
deriving DecidableEq, Repr

/-- The values given in the manual. -/
def Command.word : Command → Word
  | .start => 0x5ec10001
  | .stop => 0x5ec10000
  | .tick t => 0x5ec20000 + t.setWidth 32
  | .len l => 0x5ec40000 + l.setWidth 32

structure Settings where
  outStart : Bool
  outTick : Word
  outLen : Word
deriving DecidableEq, Repr

/-- The meaning given in the manual. -/
def Settings.apply (u : Settings) : Command → Settings
  | .start => { u with outStart := true }
  | .stop => { u with outStart := false }
  | .tick t => { u with outTick := t.setWidth 32 }
  | .len l => { u with outLen := l.setWidth 32 }

def settings (s : System P) : Settings :=
  ⟨s.outStart, s.bank.regs (.hssl 5), s.bank.regs (.hssl 6)⟩

namespace Command

def onOff : Command → Option Bool
  | .start => some true
  | .stop => some false
  | _ => none

def newTick : Command → Option (BitVec 16)
  | .tick t => some t
  | _ => none

def newLen : Command → Option (BitVec 16)
  | .len l => some l
  | _ => none

end Command

theorem run_apply (u : Settings) (cs : List Command) :
    run Settings.apply u cs =
      ⟨(latest Command.onOff cs).getD u.outStart,
        ((latest Command.newTick cs).map (BitVec.setWidth 32)).getD u.outTick,
        ((latest Command.newLen cs).map (BitVec.setWidth 32)).getD u.outLen⟩ := by
  have honoff : (run Settings.apply u cs).outStart =
      (latest Command.onOff cs).getD u.outStart :=
    run_latest Settings.outStart Command.onOff (by rintro u (_ | _ | t | l) <;> rfl) u cs
  have htick : (run Settings.apply u cs).outTick =
      (latest (fun c ↦ c.newTick.map (BitVec.setWidth 32)) cs).getD u.outTick :=
    run_latest Settings.outTick _ (by rintro u (_ | _ | t | l) <;> rfl) u cs
  have hlen : (run Settings.apply u cs).outLen =
      (latest (fun c ↦ c.newLen.map (BitVec.setWidth 32)) cs).getD u.outLen :=
    run_latest Settings.outLen _ (by rintro u (_ | _ | t | l) <;> rfl) u cs
  rw [latest_map_value] at htick hlen
  rw [← honoff, ← htick, ← hlen]

/-! ## The words as `out_udp_listener` takes them -/

theorem toNat_append_eq (hi v : BitVec 16) : (hi ++ v).toNat = hi.toNat * 2 ^ 16 + v.toNat := by
  rw [BitVec.toNat_append, ← Nat.shiftLeft_add_eq_or_of_lt v.isLt, Nat.shiftLeft_eq]

theorem append_add_setWidth (hi v : BitVec 16) : hi ++ 0#16 + v.setWidth 32 = hi ++ v := by
  apply BitVec.eq_of_toNat_eq
  rw [BitVec.toNat_add, toNat_append_eq, toNat_append_eq, BitVec.toNat_setWidth]
  have hhi := hi.isLt
  have hv := v.isLt
  simp only [BitVec.toNat_ofNat]
  omega

theorem append_masks (hi v : BitVec 16) :
    (hi ++ v) &&& spifOutCmdMask = hi ++ 0#16 ∧
      (hi ++ v) &&& spifOutValMask = v.setWidth 32 := by
  have hcmd : spifOutCmdMask = BitVec.allOnes 16 ++ 0#16 := rfl
  have hval : spifOutValMask = 0#16 ++ BitVec.allOnes 16 := rfl
  rw [hcmd, hval, BitVec.and_append, BitVec.and_append, BitVec.and_allOnes, BitVec.and_allOnes,
    BitVec.and_zero, BitVec.and_zero]
  refine ⟨rfl, ?_⟩
  rw [← append_add_setWidth]
  exact BitVec.zero_add _

theorem setWidth_injective : Function.Injective (BitVec.setWidth 32 : BitVec 16 → Word) := by
  intro u v h
  apply BitVec.eq_of_toNat_eq
  have hnat := congrArg BitVec.toNat h
  have hu := u.isLt
  have hv := v.isLt
  simp only [BitVec.toNat_setWidth] at hnat
  omega

def switched (dd : Word) : Option Bool :=
  if dd &&& spifOutCmdMask = spifOutStart then some true
  else if dd &&& spifOutCmdMask = spifOutStop then some false
  else none

/-- `START` decodes as the code's `SPIF_OUT_STOP`. -/
theorem word_decoded (c : Command) :
    switched c.word = c.onOff.map (fun _ ↦ false) ∧
      setting spifOutSetTick c.word = c.newTick.map (BitVec.setWidth 32) ∧
      setting spifOutSetLen c.word = c.newLen.map (BitVec.setWidth 32) := by
  cases c with
  | start => decide
  | stop => decide
  | tick t =>
      obtain ⟨hcmd, hval⟩ := append_masks 0x5ec2#16 t
      have hword : (Command.tick t).word = 0x5ec2#16 ++ t := append_add_setWidth 0x5ec2 t
      rw [hword, switched, setting, setting, hcmd, hval]
      exact ⟨rfl, rfl, rfl⟩
  | len l =>
      obtain ⟨hcmd, hval⟩ := append_masks 0x5ec4#16 l
      have hword : (Command.len l).word = 0x5ec4#16 ++ l := append_add_setWidth 0x5ec4 l
      rw [hword, switched, setting, setting, hcmd, hval]
      exact ⟨rfl, rfl, rfl⟩

section

variable (q : Params) (win : BitVec w) (x y : Side)

theorem outStart_execute (s : System P) (dd : Word) :
    (execute q win x y s dd).outStart = (switched dd).getD s.outStart := by
  simp only [execute, switched]
  split_ifs <;> rfl

theorem settings_run (s : System P) (ws : List Word) :
    settings (run (execute q win x y) s ws) =
      ⟨(latest switched ws).getD s.outStart,
        (latest (setting spifOutSetTick) ws).getD (settings s).outTick,
        (latest (setting spifOutSetLen) ws).getD (settings s).outLen⟩ := by
  obtain ⟨-, hlen, htick⟩ := run_commands q win x y s ws
  rw [run_map_command] at hlen htick
  have honoff := run_latest System.outStart switched (outStart_execute q win x y) s ws
  rw [settings, honoff, hlen, htick]
  rfl

/-- The commands of a datagram that reach the listener. -/
def heard (cs : List Command) : List Command := cs.take spifferBatchSize

theorem settings_listen (z : SizeT) (dd : ℕ → Word) (cs : List Command) (s : System P) :
    settings (listen q win x y z dd (cs.map Command.word) s) =
      ⟨((latest Command.onOff (heard cs)).map fun _ ↦ false).getD s.outStart,
        ((latest Command.newTick (heard cs)).map (BitVec.setWidth 32)).getD (settings s).outTick,
        ((latest Command.newLen (heard cs)).map (BitVec.setWidth 32)).getD
          (settings s).outLen⟩ := by
  have hheard : received (cs.map Command.word) = (heard cs).map Command.word := List.map_take.symm
  rw [listen_eq_run, hheard, settings_run, latest_map, latest_map, latest_map,
    ← latest_map_value, ← latest_map_value, ← latest_map_value,
    funext fun c ↦ (word_decoded c).1, funext fun c ↦ (word_decoded c).2.1,
    funext fun c ↦ (word_decoded c).2.2]

/-- The last of the words to switch the output is `STOP`, if there is one, and
what does not fit the buffer makes no difference. -/
def Obeyed (cs : List Command) : Prop :=
  latest Command.onOff cs ≠ some true ∧
    (latest Command.onOff (heard cs)).isSome = (latest Command.onOff cs).isSome ∧
    latest Command.newTick (heard cs) = latest Command.newTick cs ∧
    latest Command.newLen (heard cs) = latest Command.newLen cs

theorem heard_eq {cs : List Command} (h : cs.length ≤ spifferBatchSize) : heard cs = cs :=
  List.take_of_length_le h

theorem obeyed_iff_of_length_le {cs : List Command} (h : cs.length ≤ spifferBatchSize) :
    Obeyed cs ↔ latest Command.onOff cs ≠ some true := by
  simp [Obeyed, heard_eq h]

/-- A system with given settings. -/
def withSettings (P : ℕ) (u : Settings) : System P where
  outStart := u.outStart
  bank :=
    { regs := Function.update (Function.update (fun _ ↦ 0) (.hssl 5) u.outTick) (.hssl 6) u.outLen
      regCtrOut := fun _ ↦ 0
      apbPreadyOut := false
      apbPrdataOut := 0 }
  disp := .start EvtDispatcher.cold

/-- `out_udp_listener` follows the manual exactly for the datagrams that do not
leave the output switched on. -/
theorem follows_protocol_iff (z : SizeT) (dd : ℕ → Word) (cs : List Command) :
    (∀ s : System P, settings (listen q win x y z dd (cs.map Command.word) s) =
      run Settings.apply (settings s) cs) ↔ Obeyed cs := by
  simp only [settings_listen, run_apply, Settings.mk.injEq]
  constructor
  · intro h
    have hword : Nontrivial Word := ⟨0, 1, by decide⟩
    have hset (u : Settings) := h (withSettings P u)
    have honoff : (latest Command.onOff (heard cs)).map (fun _ ↦ false) =
        latest Command.onOff cs :=
      eq_of_getD_eq fun b ↦ (hset ⟨b, 0, 0⟩).1
    have htick : (latest Command.newTick (heard cs)).map (BitVec.setWidth 32) =
        (latest Command.newTick cs).map (BitVec.setWidth 32) :=
      eq_of_getD_eq fun t ↦ (hset ⟨false, t, 0⟩).2.1
    have hlen : (latest Command.newLen (heard cs)).map (BitVec.setWidth 32) =
        (latest Command.newLen cs).map (BitVec.setWidth 32) :=
      eq_of_getD_eq fun l ↦ (hset ⟨false, 0, l⟩).2.2
    refine ⟨?_, ?_, Option.map_injective setWidth_injective htick,
      Option.map_injective setWidth_injective hlen⟩
    · rw [← honoff]
      cases latest Command.onOff (heard cs) <;> simp
    · rw [← honoff, Option.isSome_map]
  · rintro ⟨hlast, honoff, htick, hlen⟩ s
    rw [htick, hlen]
    refine ⟨?_, rfl, rfl⟩
    cases hcs : latest Command.onOff cs with
    | none =>
        rw [hcs, Option.isSome_none, Option.isSome_eq_false_iff] at honoff
        rw [Option.isNone_iff_eq_none.mp honoff]
        rfl
    | some b =>
        rw [hcs, Option.isSome_some, Option.isSome_iff_exists] at honoff
        obtain ⟨b', hb'⟩ := honoff
        have hb : b = false := by simpa [hcs] using hlast
        rw [hb', hb]
        rfl

end

/-- `START` switches the output off. -/
theorem start_not_followed :
    ¬ ∀ s : System 2, settings (listen ⟨0, 1, 1⟩ 0x10f080#22 idsi idsi .bits64 (fun _ ↦ 0)
      ([.start].map Command.word) s) = run Settings.apply (settings s) [.start] := by
  intro h
  have hout := congrArg Settings.outStart (h (withSettings 2 ⟨true, 0, 0⟩))
  rw [settings_listen] at hout
  exact absurd hout (by decide)

end Spif.OutCommands
