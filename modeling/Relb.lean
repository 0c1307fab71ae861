import Relb.Proofs.Fidelity
import Relb.Proofs.NullAccess
import Relb.Proofs.Lifecycle
import Relb.Proofs.Affinity
import Relb.Proofs.PhantomLoad
import Relb.Proofs.SessionReuse
import Relb.Proofs.ConnectionLimit
import Relb.Proofs.AdminAgreement
import Relb.Proofs.Selection
import Relb.Proofs.Failover
import Relb.Lib.Loops
import Relb.Model.AppConfig
import Relb.Model.Bind
import Relb.Model.Main
import Relb.Proofs.Bans
import Relb.Proofs.CleanBooks
import Relb.Proofs.ConfigLines
import Relb.Proofs.Copies
import Relb.Proofs.Frames
import Relb.Proofs.Kick
import Relb.Proofs.Purge
import Relb.Proofs.Retention
import Relb.Proofs.ReuseBooks
import Relb.Proofs.SetUp
import Relb.Proofs.AdminBooks
import Relb.Proofs.AdminEntries
import Relb.Proofs.SessionAtomicity
import Relb.Proofs.FailedConnect
import Relb.Proofs.Registration
import Relb.Model.ThreadedConnectionManagerList
import Relb.Proofs.Capacity
import Relb.Proofs.ManagerChoice
import Relb.Model.CloseRequests
import Relb.Proofs.CloseRequests
import Relb.Lib.Cursor
import Relb.Model.ConfigText
import Relb.Proofs.ConfigText
import Relb.Proofs.ConfigFields
import Relb.Proofs.Masks
import Relb.Proofs.FilterLines
import Relb.Proofs.ServerLines
import Relb.Proofs.Ports
import Relb.Proofs.Filters
import Relb.Model.Tasks
import Relb.Proofs.Tasks
import Relb.Proofs.NextRun
import Relb.Lib.Grid
import Relb.Lib.Insertion
import Relb.Model.AdminPages
import Relb.Proofs.Narrowing
import Relb.Proofs.Waits
import Relb.Proofs.Conversions
import Relb.Proofs.FixedTimes
import Relb.Proofs.Dates
import Relb.Proofs.LocalTimes
import Relb.Proofs.ConnectionTable
import Relb.Proofs.Requests
import Relb.Proofs.MalformedRequests
import Relb.Proofs.Links
import Relb.Proofs.SortLinks
import Relb.Proofs.ActionLinks
import Relb.Proofs.Descriptors
import Relb.Proofs.ManagerWatch
import Relb.Proofs.BothOrNone
import Relb.Proofs.CircularScan
import Relb.Lib.Wakeup
import Relb.Lib.Simulation
import Relb.Lib.Blocking
import Relb.Model.ControlSocket
import Relb.Model.ManagerThread
import Relb.Model.Locks
import Relb.Model.ServerListThread
import Relb.Proofs.ManagerSteps
import Relb.Proofs.ManagerPlaces
import Relb.Proofs.WakeUps
import Relb.Proofs.ManagerPeers
import Relb.Proofs.Shutdown
import Relb.Proofs.ManagerRefinement
import Relb.Proofs.Deadlock
import Relb.Proofs.ListMessages
import Relb.Proofs.Rounding
import Relb.Proofs.Bursts
import Relb.Lib.Handles
import Relb.Model.SocketCalls
import Relb.Proofs.DescriptorCalls
import Relb.Lib.Sections
import Relb.Proofs.SettingsText
import Relb.Proofs.ConfigFiles
import Relb.Proofs.WrittenFiles
import Relb.Proofs.ServersPage
import Relb.Proofs.Executions
