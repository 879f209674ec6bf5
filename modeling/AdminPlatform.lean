import AdminPlatform.Audit.AuditedWrite
import AdminPlatform.Audit.Metadata
import AdminPlatform.Auth.CaptchaOnce
import AdminPlatform.Auth.LockBound
import AdminPlatform.Auth.PasswordChange
import AdminPlatform.Auth.SessionCap
import AdminPlatform.Auth.SessionLifetime
import AdminPlatform.Auth.SessionLimit
import AdminPlatform.Authz.Confinement
import AdminPlatform.Authz.NonTakeover
import AdminPlatform.Authz.Permission
import AdminPlatform.Core.DuplicateKeys
import AdminPlatform.Core.ProblemDetails
import AdminPlatform.Core.PublicPaths
import AdminPlatform.Dept.Accepted
import AdminPlatform.Dept.Breadcrumbs
import AdminPlatform.Dept.TreeSystem
import AdminPlatform.Dict.LastDefault
import AdminPlatform.File.ContentDisposition
import AdminPlatform.File.DeletedBytes
import AdminPlatform.File.StorageRefinement
import AdminPlatform.File.UploadAtomicity
import AdminPlatform.Foundation.RowRules
import AdminPlatform.Frontend.Channels
import AdminPlatform.Frontend.CrudTable
import AdminPlatform.Frontend.DeliveredMenus
import AdminPlatform.Frontend.NavigationGuard
import AdminPlatform.Frontend.Permissions
import AdminPlatform.Frontend.RoleDialogs
import AdminPlatform.Frontend.SessionResidue
import AdminPlatform.Idempotency.Isolation
import AdminPlatform.Idempotency.SingleExecution
import AdminPlatform.Idempotency.StoredBytes
import AdminPlatform.Listing.Pages
import AdminPlatform.Locks.NamedLocks
import AdminPlatform.Menu.ButtonLeaves
import AdminPlatform.Menu.MenuForest
import AdminPlatform.Menu.Routers
import AdminPlatform.Menu.TreeSystem
import AdminPlatform.Monitor.OnlineTruth
import AdminPlatform.Post.ImportExact
import AdminPlatform.Rbac.Reconcile
import AdminPlatform.RbacBinding.LastWriter
import AdminPlatform.ScheduledTask.CronMeaning
import AdminPlatform.ScheduledTask.Definitions
import AdminPlatform.ScheduledTask.LatestTick
import AdminPlatform.ScheduledTask.LeaderSafety
import AdminPlatform.ScheduledTask.LogLifecycle
import AdminPlatform.ScheduledTask.Reconcile
import AdminPlatform.ScheduledTask.RedactedCredentials
import AdminPlatform.ScheduledTask.SingleRun
import AdminPlatform.ScheduledTask.TickDedup
import AdminPlatform.User.Accepted
import AdminPlatform.User.SuperAdmin
import AdminPlatform.User.Visibility
