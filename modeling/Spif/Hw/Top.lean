import Spif.Host.SpifLocal
import Spif.Hw.EvtStream
import Spif.Hw.EvtPipe
import Spif.Hw.OutputStage
import Spif.Hw.PktEffects
import Spif.Hw.RrArbiter
import Spif.Lib.Components

/-!
# The top level

`dvs_on_hssl_top` connects two event pipes, the packet router, the packet receiver, the
event dispatcher and the register bank.  The processor subsystem and the HSSL interface
are the environment: their streams, the APB and the handshake are inputs.  The clocks and
the transceiver are left out.

Data flows forward through registers and switches, readiness backward.  The definitions
follow that order: first all data and valid signals, then the ready signals from the
outputs to the inputs.
-/

namespace Spif.Top

open Clocked RegBank PktReceiver
open OutputStage (Chan)

abbrev hwNumPipes : ℕ := 2

abbrev Pipe := Fin hwNumPipes

instance neZero_hwNumPipes : NeZero hwNumPipes := ⟨by decide⟩

/-- The modules that are not part of this repository, and the parameters of the build. -/
structure Parts (α ρ σ : Type*) where
  params : RegBank.Params
  arbiter : RrArbiter.Arbiter α
  arbReset : α → α
  rtrSwitch : OutputStage.Switch ρ
  rtrReset : ρ → ρ
  prxSwitch : PktReceiver.Switch σ
  prxReset : σ → σ

structure State (α ρ σ : Type*) where
  rb : RegBank.State hwNumPipes
  pa : Pipe → PktAssembler.State
  pipeArb : α
  pr : OutputStage.State ρ
  chanArb : α
  prx : σ
  ed : EvtDispatcher.State

structure Input (A : ℕ) where
  axiEvtData : Pipe → Word
  axiEvtVld : Pipe → Bool
  apbPsel : Bool
  apbPenable : Bool
  apbPwrite : Bool
  apbPaddr : BitVec A
  apbPwdata : Word
  handshakeComplete : Bool
  versionMismatch : Bool
  idsi : BitVec 16
  rxpData : Packet
  rxpVld : Bool
  txpRdy : Chan → Bool
  outEvtRdy : Bool

variable {α ρ σ : Type*} {A : ℕ}

section Wiring

variable (p : Parts α ρ σ) (s : State α ρ σ) (i : Input A)

/-! ## Data and valid signals -/

def replyKey : Word := s.rb.regs (.hssl 2)

def rtrDropWait : Word := s.rb.regs (.hssl 3)

def outputTick : BitVec 32 := s.rb.regs (.hssl 5)

def outputSize : BitVec 10 := (s.rb.regs (.hssl 6)).setWidth 10

def table : PktRouter.Table where
  regKeyIn te := s.rb.regs (.rtKey te)
  regMaskIn te := s.rb.regs (.rtMask te)
  regRouteIn te := s.rb.regs (.rtRoute te)

def pipeArbIn : RrArbiter.Input where
  dataIn k := (s.pa k).pktDataOut
  vldIn k := (s.pa k).pktVldOut

def pktData : Packet := p.arbiter.dataOut s.pipeArb (pipeArbIn s)

def pktVld : Bool := p.arbiter.vldOut s.pipeArb (pipeArbIn s)

def prIn (rtrRdy : Chan → Bool) : OutputStage.Input where
  dropWaitIn := rtrDropWait s
  table := table s
  pktInDataIn := pktData p s
  pktInVldIn := pktVld p s
  pktOutRdyIn := rtrRdy

def rtrData : Chan → Packet :=
  OutputStage.pktOutDataOut p.rtrSwitch s.pr (prIn p s fun _ ↦ false)

def rtrVld : Chan → Bool :=
  OutputStage.pktOutVldOut p.rtrSwitch s.pr (prIn p s fun _ ↦ false)

def prxIn (dcpRdy : Bool) : PktReceiver.Input where
  pktDataIn := i.rxpData
  pktVldIn := i.rxpVld
  regCtrIn := s.rb.regCtrOut
  replyKeyIn := replyKey s
  dcpRdyIn := dcpRdy
  perRdyIn := s.ed.pktRdyOut

def cfgData : Packet := PktReceiver.cfgData p.prxSwitch s.prx (prxIn s i false)

def cfgVld : Bool := PktReceiver.cfgVld p.prxSwitch s.prx (prxIn s i false)

def dcpData : Packet := dcpDataOut (cfgData p s i) s.rb.regCtrOut (replyKey s)

def dcpVld : Bool := dcpVldOut (cfgData p s i) (cfgVld p s i)

/-- Channel 0 carries routed packets and counter replies. -/
def chanArbIn : RrArbiter.Input where
  dataIn k := if k = 0 then rtrData p s 0 else dcpData p s i
  vldIn k := if k = 0 then rtrVld p s 0 else dcpVld p s i

def txpData (c : Chan) : Packet :=
  if c = 0 then p.arbiter.dataOut s.chanArb (chanArbIn p s i) else rtrData p s c

def txpVld (c : Chan) : Bool :=
  if c = 0 then p.arbiter.vldOut s.chanArb (chanArbIn p s i) else rtrVld p s c

/-! ## Ready signals -/

def chanArbRdy : Fin 2 → Bool := p.arbiter.rdyOut s.chanArb (chanArbIn p s i) (i.txpRdy 0)

def rtrRdy (c : Chan) : Bool := if c = 0 then chanArbRdy p s i 0 else i.txpRdy c

def dcpRdy : Bool := chanArbRdy p s i 1

def pktRdy : Bool := OutputStage.pktInRdyOut p.rtrSwitch s.pr (prIn p s (rtrRdy p s i))

def pipeRdy : Pipe → Bool := p.arbiter.rdyOut s.pipeArb (pipeArbIn s) (pktRdy p s i)

def rxpRdy : Bool := PktReceiver.pktRdyOut p.prxSwitch s.prx (prxIn s i (dcpRdy p s i))

/-! ## The modules -/

def paIn (k : Pipe) : EvtPipe.Input where
  config := SpifLocal.evtPipe s.rb.regs k
  axiEvtData := i.axiEvtData k
  axiEvtVld := i.axiEvtVld k
  handshakeComplete := i.handshakeComplete
  pktRdyIn := pipeRdy p s i k

def edIn : EvtDispatcher.Input where
  pktDataIn := perDataOut p.prxSwitch s.prx (prxIn s i (dcpRdy p s i))
  pktVldIn := perVldOut p.prxSwitch s.prx (prxIn s i (dcpRdy p s i))
  dsKeyIn k := s.rb.regs (.dsKey k)
  dsMskIn k := s.rb.regs (.dsMsk k)
  dsSftIn k := s.rb.regs (.dsSft k)
  outputTickIn := outputTick s
  outputSizeIn := outputSize s
  evtRdyIn := i.outEvtRdy

def prxCnt : Bool × Bool := PktReceiver.cntOut p.prxSwitch s.prx (prxIn s i (dcpRdy p s i))

def rtCnt : Bool × Bool := OutputStage.rtCntOut p.rtrSwitch s.pr (prIn p s (rtrRdy p s i))

def ctrCnt (k : Fin numDcRegs) : Bool :=
  match k.val with
  | 0 => s.ed.outDrpCntOut
  | 1 => (prxCnt p s i).1
  | 2 => (rtCnt p s i).1
  | 3 => (rtCnt p s i).2
  | _ => (prxCnt p s i).2

def rbIn : RegBank.Input A :=
  present (cfgData p s i) (cfgVld p s i)
    { apbPselIn := i.apbPsel
      apbPenableIn := i.apbPenable
      apbPwriteIn := i.apbPwrite
      apbPaddrIn := i.apbPaddr
      apbPwdataIn := i.apbPwdata
      prxAddrIn := 0
      prxWdataIn := 0
      prxEnIn := false
      ctrCntIn := ctrCnt p s i
      hsCompleteIn := i.handshakeComplete
      hsMismatchIn := i.versionMismatch
      idsiIn := i.idsi }

def next : State α ρ σ where
  rb := RegBank.next p.params s.rb (rbIn p s i)
  pa k := EvtPipe.next (s.pa k) (paIn p s i k)
  pipeArb := p.arbiter.next s.pipeArb (pipeArbIn s) (pktRdy p s i)
  pr := OutputStage.next p.rtrSwitch s.pr (prIn p s (rtrRdy p s i))
  chanArb := p.arbiter.next s.chanArb (chanArbIn p s i) (i.txpRdy 0)
  prx := PktReceiver.next p.prxSwitch s.prx (prxIn s i (dcpRdy p s i))
  ed := EvtDispatcher.next s.ed (edIn p s i)

end Wiring

def reset (p : Parts α ρ σ) (s : State α ρ σ) : State α ρ σ where
  rb := RegBank.reset s.rb
  pa k := PktAssembler.reset (s.pa k)
  pipeArb := p.arbReset s.pipeArb
  pr := ⟨0, p.rtrReset s.pr.swi⟩
  chanArb := p.arbReset s.chanArb
  prx := p.prxReset s.prx
  ed := EvtDispatcher.reset s.ed

/-- What the design relies on: arbiter and switches are queues, which a reset empties. -/
structure Contract (p : Parts α ρ σ) where
  arbQueue : α → Fin 2 → List Packet
  side : α → RrArbiter.Input → Fin 2
  rtrQueue : ρ → Chan → List Packet
  prxQueue : σ → Port → List Packet
  merges : p.arbiter.Merges arbQueue side
  orderly : p.rtrSwitch.Orderly rtrQueue
  lossless : p.prxSwitch.Lossless prxQueue
  arbQueue_reset : ∀ s k, arbQueue (p.arbReset s) k = []
  rtrQueue_reset : ∀ s c, rtrQueue (p.rtrReset s) c = []
  prxQueue_reset : ∀ s c, prxQueue (p.prxReset s) c = []

/-- Arbiters and switches made of output registers. -/
def registerParts : Parts (Fin 2 × Option Packet) (Chan → Option Packet)
    (Port → Option Packet) where
  params := ⟨0x000300, 1, 1⟩
  arbiter := RrArbiter.register
  arbReset _ := (0, none)
  rtrSwitch := OutputStage.registers
  rtrReset _ _ := none
  prxSwitch := PktReceiver.registers
  prxReset _ _ := none

def registerContract : Contract registerParts where
  arbQueue := RrArbiter.stored
  side s _ := s.1
  rtrQueue s c := (s c).toList
  prxQueue s o := (s o).toList
  merges := RrArbiter.merges_register
  orderly := OutputStage.orderly_registers
  lossless := lossless_registers
  arbQueue_reset _ k := by
    change (if (0 : Fin 2) = k then (none : Option Packet).toList else []) = []
    rw [Option.toList_none, ite_self]
  rtrQueue_reset _ _ := rfl
  prxQueue_reset _ _ := rfl

def cold : State (Fin 2 × Option Packet) (Chan → Option Packet) (Port → Option Packet) where
  rb := ⟨fun _ ↦ 0, fun _ ↦ 0, false, 0⟩
  pa _ := ⟨false, 0, false, 0, false⟩
  pipeArb := (0, none)
  pr := ⟨0, fun _ ↦ none⟩
  chanArb := (0, none)
  prx _ := none
  ed := EvtDispatcher.cold

/-- A cycle with an event for each pipe and a packet from SpiNNaker; all that leaves is
taken. -/
def cycle (evts : Pipe → Option Word) (rxp : Option Packet) : Input 32 where
  axiEvtData k := (evts k).getD 0
  axiEvtVld k := (evts k).isSome
  apbPsel := false
  apbPenable := false
  apbPwrite := false
  apbPaddr := 0
  apbPwdata := 0
  handshakeComplete := true
  versionMismatch := false
  idsi := 0
  rxpData := rxp.getD 0
  rxpVld := rxp.isSome
  txpRdy _ := true
  outEvtRdy := true

/-! ## The components -/

section Components

variable (A) (p : Parts α ρ σ)

def pipe (k : Pipe) : Component (next (A := A) p) EvtPipe.next where
  proj s := s.pa k
  feed s i := paIn p s i k
  proj_next _ _ := rfl

def router : Component (next (A := A) p) (OutputStage.next p.rtrSwitch) where
  proj s := s.pr
  feed s i := prIn p s (rtrRdy p s i)
  proj_next _ _ := rfl

def receiver : Component (next (A := A) p) (PktReceiver.next p.prxSwitch) where
  proj s := s.prx
  feed s i := prxIn s i (dcpRdy p s i)
  proj_next _ _ := rfl

def dispatcher : Component (next (A := A) p) EvtDispatcher.next where
  proj s := s.ed
  feed s i := edIn p s i
  proj_next _ _ := rfl

end Components

end Spif.Top
