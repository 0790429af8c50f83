import SecureFileSystem.Transition
import SecureFileSystem.Program
import SecureFileSystem.RelyGuarantee
import SecureFileSystem.Base
import SecureFileSystem.Database
import SecureFileSystem.Erasure
import SecureFileSystem.Fleet
import SecureFileSystem.Session
import SecureFileSystem.Uuid
import SecureFileSystem.Configuration
import SecureFileSystem.Signing
import SecureFileSystem.Files
import SecureFileSystem.Maintenance
import SecureFileSystem.Routers
import SecureFileSystem.Service
import SecureFileSystem.LifeCycle
import SecureFileSystem.Ledger
import SecureFileSystem.Interference
import SecureFileSystem.Stability
import SecureFileSystem.Conduct
import SecureFileSystem.Handlers
import SecureFileSystem.AuditTrail
import SecureFileSystem.Durability
import SecureFileSystem.Layering
import SecureFileSystem.Links
import SecureFileSystem.RepairBooks
import SecureFileSystem.Revocation
import SecureFileSystem.StaleUploads
import SecureFileSystem.Assoc
import SecureFileSystem.CrashSafety
import SecureFileSystem.Decommission
import SecureFileSystem.RateLimit
import SecureFileSystem.Rotation
import SecureFileSystem.WorkerLock
import SecureFileSystem.Rebuild
import SecureFileSystem.Fetching
import SecureFileSystem.Filenames
import SecureFileSystem.ShardId
import SecureFileSystem.Rewriting
import SecureFileSystem.Cleanup
import SecureFileSystem.RepairSafety
import SecureFileSystem.BitRot
import SecureFileSystem.BodyLimit
import SecureFileSystem.NodeHealth
import SecureFileSystem.Scrub
import SecureFileSystem.Availability
import SecureFileSystem.Eviction
import SecureFileSystem.AccessLog
import SecureFileSystem.WriteFailure
import SecureFileSystem.Storable
import SecureFileSystem.Isolation
import SecureFileSystem.Noninterference
import SecureFileSystem.RepairReaders
import SecureFileSystem.Retirement
import SecureFileSystem.Accounts
import SecureFileSystem.Attempts
import SecureFileSystem.RequestLog
import SecureFileSystem.Simulation
import SecureFileSystem.WorkerCycle
import SecureFileSystem.Directories
import SecureFileSystem.SideBySide
import SecureFileSystem.Admission
import SecureFileSystem.Delivery
import SecureFileSystem.Pages
import SecureFileSystem.Paging
import SecureFileSystem.Lifetime
import SecureFileSystem.Orphans
import SecureFileSystem.DeleteRepair
