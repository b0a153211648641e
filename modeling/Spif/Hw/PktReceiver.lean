import Spif.Hw.PktAssembler
import Spif.Hw.RegBank

/-!
# The packet receiver

`pkt_receiver` splits the packets that come from SpiNNaker: peripheral packets
go to the event dispatcher, configuration packets with a payload become
register writes, and configuration packets without one are answered with the
value of a diagnostic counter.  The switch between its input and its two ports
is not part of this repository; the definitions below are the logic around it.
-/

namespace Spif.PktReceiver

open RegBank

def route (pktDataIn : Packet) : Bool × Bool := (!pktDataIn.cfg, pktDataIn.cfg)

def prxCntOut (pktDataIn : Packet) (pktVldIn pktRdyOut : Bool) : Bool × Bool :=
  (!pktDataIn.cfg && pktVldIn && pktRdyOut, pktDataIn.cfg && pktVldIn && pktRdyOut)

section Config

variable (cfgData : Packet)

/-- payload presence indicates read or write -/
def pldPst : Bool := cfgData.lng

def cfgRdy (cfgVld dcpRdyIn : Bool) : Bool := cfgVld && (pldPst cfgData || dcpRdyIn)

def ctrOffset : BitVec 8 := cfgData.key.extractLsb' 0 8
def ctrReg : BitVec 4 := cfgData.key.extractLsb' 0 4
def ctrSec : BitVec 4 := cfgData.key.extractLsb' 4 4

def prxEnOut (cfgVld : Bool) : Bool := cfgVld && pldPst cfgData
def prxAddrOut : BitVec 8 := cfgData.key.extractLsb' 0 8
def prxWdataOut : Word := cfgData.pld

variable (regCtrIn : Fin numDcRegs → Word) (replyKeyIn : Word)

def dcpKey : Word := replyKeyIn ||| (ctrOffset cfgData).setWidth 32

/-- non-existing counters always read `BAD_REG` -/
def dcpPld : Word :=
  if ctrSec cfgData == 4 then
    match index numDcRegs (ctrReg cfgData) with
    | some k => regCtrIn k
    | none => badReg
  else badReg

def dcpPty : Bool := redXor (dcpKey cfgData replyKeyIn) ^^ redXor (dcpPld cfgData regCtrIn)

def dcpDataOut : Packet :=
  .mk (dcpPld cfgData regCtrIn) (dcpKey cfgData replyKeyIn)
    (0b0011001#7 ++ BitVec.ofBool (dcpPty cfgData regCtrIn replyKeyIn))

def dcpVldOut (cfgVld : Bool) : Bool := cfgVld && !pldPst cfgData

end Config

/-- The register bank's inputs in a cycle in which the switch presents
`cfgData` on the configuration port. -/
def present {A : ℕ} (cfgData : Packet) (cfgVld : Bool) (i : Input A) : Input A :=
  { i with
    prxAddrIn := prxAddrOut cfgData
    prxWdataIn := prxWdataOut cfgData
    prxEnIn := prxEnOut cfgData cfgVld }

end Spif.PktReceiver
