import RtkdataFw.Lib.CStr
import RtkdataFw.Lib.Clock
import RtkdataFw.Lib.Flash
import RtkdataFw.Lib.Journal
import RtkdataFw.Lib.Machine
import RtkdataFw.Lib.Resync
import RtkdataFw.Lib.ShiftRegister
import RtkdataFw.Lib.Since
import RtkdataFw.Lib.SlotWindow
import RtkdataFw.TxCore.FrameIntegrity
import RtkdataFw.NtripServer.DrainLoop
import RtkdataFw.NtripServer.Reconnect
import RtkdataFw.NtripServer.Registry
import RtkdataFw.Supervisor
import RtkdataFw.Update.AttemptBudget
import RtkdataFw.Update.Firmware
import RtkdataFw.Gnss.BaseLatch
import RtkdataFw.Lib.Substring
import RtkdataFw.Gnss.AckStream
import RtkdataFw.Gnss.ReceiverMode
import RtkdataFw.NtripServer.Freshness
import RtkdataFw.NtripServer.Handshake
import RtkdataFw.NtripServer.ServerTask
import RtkdataFw.NtripServer.ConnectionWire
import RtkdataFw.NtripServer.Dialing
import RtkdataFw.NtripServer.EpochRace
import RtkdataFw.SetupAp
import RtkdataFw.Update.BootLoopGuard
import RtkdataFw.Update.MarkValid
import RtkdataFw.Update.ManifestOrder
import RtkdataFw.Update.NightlyPoll
import RtkdataFw.Lib.Draining
import RtkdataFw.TxCore.RtcmStream
import RtkdataFw.TxCore.Corruption
import RtkdataFw.TxCore.Watchdog
import RtkdataFw.NtripServer.Telemetry
import RtkdataFw.Gnss.Capture
import RtkdataFw.Gnss.AckRecords
import RtkdataFw.Update.GiveUp
import RtkdataFw.Update.Attribution
import RtkdataFw.Gnss.FixedBase
import RtkdataFw.Supervisor.Rungs
import RtkdataFw.Lib.Numeral
import RtkdataFw.Lib.Packed
import RtkdataFw.Update.VersionOrder
import RtkdataFw.Lib.Json
import RtkdataFw.TelemetryJson
import RtkdataFw.Lib.DnsMessage
import RtkdataFw.DnsServer
import RtkdataFw.DnsServer.Lifecycle
import RtkdataFw.Lib.Base64
import RtkdataFw.WebServer.BasicAuth
import RtkdataFw.WebServer.FilePath
import RtkdataFw.Lib.FixedDigits
import RtkdataFw.WebServer.EtagCache
import RtkdataFw.Lib.Strtol
import RtkdataFw.Lib.Transaction
import RtkdataFw.Config
import RtkdataFw.Config.Items
import RtkdataFw.WebServer.ConfigApi
import RtkdataFw.WebServer.ConfigStored
import RtkdataFw.WebServer.ConfigPostBack
import RtkdataFw.TxCore.SeqWrap
import RtkdataFw.Lib.Buffer
import RtkdataFw.Lib.Circular
import RtkdataFw.TxCore.ParserMemory
import RtkdataFw.UartQueue
import RtkdataFw.Provisioning.HttpReply
import RtkdataFw.Retry
import RtkdataFw.Provisioning.CasterCreds
import RtkdataFw.Provisioning.Enrollment
import RtkdataFw.Lib.SList
import RtkdataFw.SocketServer
import RtkdataFw.Gnss.Transactions
import RtkdataFw.Update.AntiBrick
import RtkdataFw.Update.BadRelease
import RtkdataFw.Update.WebImage
