import NervesSystem.Library.Crash
import NervesSystem.Library.Trace
import NervesSystem.Library.Trial
import NervesSystem.Library.Relabel
import NervesSystem.Library.SecondOrder
import NervesSystem.Media
import NervesSystem.UbootEnv
import NervesSystem.Fwup
import NervesSystem.FwupConf
import NervesSystem.FwupOps
import NervesSystem.Device
import NervesSystem.Tasks
import NervesSystem.Upgrade
import NervesSystem.Boot
import NervesSystem.Installed
import NervesSystem.NoBrick
import NervesSystem.Outcome
import NervesSystem.TrialBoot
import NervesSystem.SlotSwitch
import NervesSystem.PreventRevert
import NervesSystem.Recovery
import NervesSystem.Retry
import NervesSystem.Symmetry
import NervesSystem.Metadata
import NervesSystem.RecoveryPointer
import NervesSystem.Bootcount
import NervesSystem.Layout
import NervesSystem.BootSlots
import NervesSystem.Provision
import NervesSystem.HpfLimiter
import NervesSystem.HpfStream
import NervesSystem.HpfStable
import NervesSystem.HpfFlat
import NervesSystem.HpfGain
import NervesSystem.Camsnap
import NervesSystem.EtherMac
import NervesSystem.RxStream
import NervesSystem.CmdMgr
import NervesSystem.SdioTx
import NervesSystem.SdioRx
import NervesSystem.Library.SafeWalk
import NervesSystem.TxQueue
import NervesSystem.TxQueueOps
import NervesSystem.TxWalk
import NervesSystem.PowerSave
import NervesSystem.TxSched
