import Clarity.Base
import Clarity.Bincode
import Clarity.Suite
import Clarity.Wire
import Clarity.Identity
import Clarity.Ratchet
import Clarity.Session
import Clarity.Symbolic
import Clarity.Sample
import Clarity.RatchetSpec
import Clarity.SessionSpec
import Clarity.Atomicity
import Clarity.KeyUse
import Clarity.Authenticity
import Clarity.Replay
import Clarity.Impersonation
import Clarity.Turns
import Clarity.Conversation
import Clarity.Storage
import Clarity.Enclave
import Clarity.Directory
import Clarity.App
import Clarity.AppSpec
import Clarity.Messenger
import Clarity.Secrecy
import Clarity.Agreement
import Clarity.Prekeys
import Clarity.Substitution
import Clarity.Mailbox
import Clarity.Polling
import Clarity.Device
import Clarity.Filing
import Clarity.Restarts
import Clarity.Chains
import Clarity.Crashes
import Clarity.Backlog
import Clarity.MailHistory
import Clarity.CatchUp
import Clarity.Sending
import Clarity.Timers
import Clarity.Batches
import Clarity.Rollback
import Clarity.Snapshots
import Clarity.Mesh
import Clarity.Flood
import Clarity.Persistence
import Clarity.Host
import Clarity.Group
import Clarity.Membership
import Clarity.ByteLists
import Clarity.Buckets
import Clarity.Opening
import Clarity.Canonical
import Clarity.GroupState
import Clarity.Fifo
import Clarity.MeshTables
import Clarity.DedupWindow
import Clarity.Rounds
import Clarity.PollWindow
import Clarity.SnapshotFile
import Clarity.RateLimit
import Clarity.SkipBounds
import Clarity.SafetyNumber
import Clarity.Base64
import Clarity.QueryString
import Clarity.Healing
import Clarity.StaleSteps
import Clarity.Locks
import Clarity.CriticalSections
import Clarity.DirtyFlag
import Clarity.StoreThreads
import Clarity.Json
import Clarity.Http
import Clarity.RelayClient
import Clarity.ServeLoop
import Clarity.Heap
import Clarity.Ffi
import Clarity.Handles
import Clarity.Corruption
import Clarity.Radio
