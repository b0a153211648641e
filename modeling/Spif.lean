import Spif.Hw.EvtStream
import Spif.Hw.EvtPipe
import Spif.Hw.OutputFrames
import Spif.Hw.TickFrames
import Spif.Hw.TickPeriod
import Spif.Hw.EvtMapping
import Spif.Hw.PktEffects
import Spif.Hw.HandshakeReset
import Spif.Hw.LossOfSync
import Spif.Hw.PktParity
import Spif.Hw.PktRouter
import Spif.Hw.RegBankPorts
import Spif.Hw.RegBankReads
import Spif.Hw.InputPath
import Spif.Hw.ConfigPath
import Spif.Hw.OutputPath
import Spif.Hw.EvtLatency
import Spif.Hw.EvtPipeFlow
import Spif.Hw.MapperFields
import Spif.Hw.LinkRecovery
import Spif.Host.SpifLocal
import Spif.Host.SpifRemote
import Spif.Host.CameraListeners
import Spif.Host.UdpListener
import Spif.Host.CounterReplies
import Spif.Host.OutputDatagrams
import Spif.Host.SeqEvents
import Spif.Driver.GetOutp
import Spif.Driver.Lifetime
import Spif.Driver.Resources
import Spif.Driver.Mmap
import Spif.Driver.InputDma
import Spif.Driver.OpenSem
import Spif.Spiffer.CaerDiscovery
import Spif.Spiffer.OneListener
import Spif.Spiffer.OutCommands
import Spif.Spiffer.OutProtocol
import Spif.Spiffer.Notices
import Spif.Spiffer.MetaHandles
import Spif.Spiffer.PipeOrder
import Spif.Spiffer.OutSession
import Spif.Spiffer.Progress
