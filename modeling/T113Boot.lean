import T113Boot.Lib.LittleEndian
import T113Boot.Lib.ReflectedCrc
import T113Boot.Storage.Ranges
import T113Boot.Storage.Exactness
import T113Boot.Ymodem.CallbackProtocol
import T113Boot.Ymodem.LostAcks
import T113Boot.Ymodem.Recovery
import T113Boot.Ymodem.BurstErrors
import T113Boot.Ymodem.Header
import T113Boot.Nand.PageGuards
import T113Boot.Nand.LittleFs
import T113Boot.FirstStage.Handover
import T113Boot.Ota.Outcomes
import T113Boot.Ota.Checksums
import T113Boot.Ota.LoadImage
import T113Boot.Boot.RunningSlot
import T113Boot.Boot.Verdict
import T113Boot.Boot.Soundness
import T113Boot.Boot.Rollback
import T113Boot.Boot.OneRollback
import T113Boot.Boot.EndToEnd
import T113Boot.Boot.VerifiedImage
import T113Boot.Boot.PowerLoss
import T113Boot.Boot.Acceptance
import T113Boot.Boot.FailedUpdate
import T113Boot.Shell.LineEditor
import T113Boot.Shell.Representation
import T113Boot.Shell.Recall
import T113Boot.Shell.Polls
import T113Boot.Shell.Commands
import T113Boot.Shell.PrintedRows
import T113Boot.Drivers.Completion
import T113Boot.Drivers.Wakeups
import T113Boot.Drivers.Frames
import T113Boot.Drivers.Transfers
import T113Boot.Drivers.ReceiveQueue
import T113Boot.Drivers.TransmitTimeOut
import T113Boot.Drivers.FalseSuccess
import T113Boot.Drivers.ClockFields
import T113Boot.Drivers.PinFields
import T113Boot.Drivers.SpiClock
import T113Boot.Shell.Numbers
import T113Boot.Shell.Arguments
import T113Boot.Shell.TabCompletion
import T113Boot.Drivers.ChannelOwners
import T113Boot.Drivers.TransmitRing
import T113Boot.Drivers.SpiDelivery
import T113Boot.Drivers.UncacheAlloc
import T113Boot.Drivers.UsDelay
import T113Boot.Heap.Sessions
import T113Boot.Lib.Parallel
import T113Boot.Shell.Formats
import T113Boot.Shell.PrintedNumbers
