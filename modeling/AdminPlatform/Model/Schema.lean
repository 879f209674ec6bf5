import AdminPlatform.Foundation.RelyGuarantee
import Mathlib.Data.Int.Notation

namespace AdminPlatform.Model.Schema

open Foundation.Relational Foundation.Transaction

inductive Status
  | active
  | disabled
  deriving DecidableEq, Repr

structure PasswordHash where
  password : String
  salt : ℕ
  deriving DecidableEq, Repr

/-- `HMAC-SHA256(pepper, secret)`, by what it was computed from. -/
structure TokenHash where
  pepper : String
  secret : ℕ
  deriving DecidableEq, Repr

structure User where
  username : String
  passwordHash : PasswordHash
  nickname : String
  status : Status
  isSuperAdmin : Bool
  deptId : Option ℕ
  deriving DecidableEq, Repr

inductive RevokedReason
  | rotated
  | reuseDetected
  | logout
  | concurrencyLimit
  | passwordChanged
  | forcedLogout
  deriving DecidableEq, Repr

structure RefreshToken where
  jti : ℕ
  familyId : ℕ
  userId : ℕ
  tokenHash : TokenHash
  rotatedToJti : Option ℕ := none
  revokedAt : Option ℕ := none
  revokedReason : Option RevokedReason := none
  issuedAt : ℕ
  expiresAt : ℕ
  familyAbsoluteAt : ℕ
  lastUsedAt : Option ℕ := none
  deriving DecidableEq, Repr

structure Dept where
  parentId : Option ℕ
  name : String
  code : String
  sortOrder : ℤ
  status : Status
  leader : Option String
  phone : Option String
  email : Option String
  deriving DecidableEq, Repr

inductive ScopeType
  | all
  | customDept
  | selfDept
  | selfDeptAndBelow
  | self
  deriving DecidableEq, Repr

structure Role where
  name : String
  code : String
  dataScope : ScopeType
  sortOrder : ℤ
  status : Status
  deriving DecidableEq, Repr

structure UserRole where
  userId : ℕ
  roleId : ℕ
  deriving DecidableEq, Repr

structure RoleDept where
  roleId : ℕ
  deptId : ℕ
  deriving DecidableEq, Repr

inductive MenuType
  | directory
  | menu
  | button
  deriving DecidableEq, Repr

structure Menu where
  parentId : Option ℕ
  name : String
  menuType : MenuType
  path : String
  component : Option String
  perms : Option String
  icon : String
  sortOrder : ℤ
  visible : Bool
  status : Status
  seedKey : Option String
  deriving DecidableEq, Repr

structure RoleMenu where
  roleId : ℕ
  menuId : ℕ
  deriving DecidableEq, Repr

structure Post where
  name : String
  code : String
  sortOrder : ℤ
  status : Status
  deriving DecidableEq, Repr

structure UserPost where
  userId : ℕ
  postId : ℕ
  deriving DecidableEq, Repr

inductive FileStatus
  | active
  | deleted
  deriving DecidableEq, Repr

structure File where
  objectKey : ℕ
  storageBackend : String
  originalFilename : String
  contentType : String
  sizeBytes : ℕ
  sha256 : String
  uploaderId : ℕ
  status : FileStatus
  deletedAt : Option ℕ
  deriving DecidableEq, Repr

inductive TaskStatus
  | enabled
  | disabled
  deriving DecidableEq, Repr

inductive LogStatus
  | waiting
  | running
  | success
  | failure
  | misfire
  | skipped
  deriving DecidableEq, Repr

inductive TriggerType
  | schedule
  | manual
  deriving DecidableEq, Repr

structure ScheduledTask where
  name : String
  handlerKey : String
  paramsJson : String
  cronExpression : String
  cronTimezone : String
  status : TaskStatus
  allowConcurrent : Bool
  misfireGraceSeconds : ℕ
  timeoutSeconds : Option ℕ
  lastRunAt : Option ℕ
  lastStatus : Option LogStatus
  remark : Option String
  deriving DecidableEq, Repr

structure ScheduledTaskLog where
  taskId : Option ℕ
  executionId : ℕ
  triggerType : TriggerType
  scheduledAt : Option ℕ
  handlerKey : String
  paramsJson : String
  status : LogStatus
  startedAt : Option ℕ
  finishedAt : Option ℕ
  durationMs : Option ℤ
  errorCode : Option String
  errorMessage : Option String
  resultSummary : Option String
  workerId : Option String
  actorUserId : Option ℕ
  deriving DecidableEq, Repr

structure DictType where
  name : String
  type : String
  status : Status
  isBuiltin : Bool
  remark : Option String
  deriving DecidableEq, Repr

structure DictData where
  dictTypeId : ℕ
  label : String
  value : String
  sortOrder : ℤ
  status : Status
  isDefault : Bool
  cssClass : Option String
  remark : Option String
  deriving DecidableEq, Repr

inductive Table
  | users
  | refreshTokens
  | depts
  | roles
  | userRoles
  | roleDepts
  | menus
  | roleMenus
  | posts
  | userPosts
  | files
  | scheduledTasks
  | scheduledTaskLogs
  | dictTypes
  | dictData
  deriving DecidableEq, Repr

abbrev Row : Table → Type
  | .users => User
  | .refreshTokens => RefreshToken
  | .depts => Dept
  | .roles => Role
  | .userRoles => UserRole
  | .roleDepts => RoleDept
  | .menus => Menu
  | .roleMenus => RoleMenu
  | .posts => Post
  | .userPosts => UserPost
  | .files => File
  | .scheduledTasks => ScheduledTask
  | .scheduledTaskLogs => ScheduledTaskLog
  | .dictTypes => DictType
  | .dictData => DictData

/-- The keys of the unique indexes on `dict_data`: `uq_dict_data_type_value` and
`uq_dict_data_one_default_per_type`. -/
inductive DictKey
  | value (dictTypeId : ℕ) (value : String)
  | default (dictTypeId : ℕ)
  deriving DecidableEq, Repr

/-- Transaction-scoped application locks, and the unique keys an insert reserves. -/
inductive LockName
  | refreshUser (bucket : ℕ)
  | deptTree
  | menuTree
  | rbacSeed
  | userRoles
  | userPosts
  | roleMenus
  | roleDepts
  | scheduledTaskClaim (taskId : ℕ)
  | unique (table : Table) (key : String)
  | dictData (key : DictKey)
  deriving DecidableEq, Repr

/-- The object store: the keys that hold bytes, and those whose bytes were deleted. -/
structure Storage where
  present : List ℕ
  removed : List ℕ
  deriving DecidableEq, Repr

inductive PasswordWriter
  | changePassword
  | userUpdate
  deriving DecidableEq, Repr

/-- What a seeding run did about the parent of one menu. -/
inductive SeedStep
  | kept
  | placed
  | reparented
  deriving DecidableEq, Repr

/-- The columns of a task that are checked in pairs. -/
inductive TaskColumn
  | handlerKey
  | paramsJson
  | cronExpression
  | cronTimezone
  deriving DecidableEq, Repr

/-- What a committed transaction is known by afterwards. Notes record what a statement
did; no program reads them. -/
inductive Note
  | minted (jti userId : ℕ)
  | issued (familyId userId : ℕ)
  | granted (familyId userId : ℕ) (hash : PasswordHash)
  | revoked (familyId : ℕ) (reason : RevokedReason)
  | rotated (id familyId : ℕ)
  | loginVerified (userId : ℕ) (hash : PasswordHash)
  | passwordReplaced (userId : ℕ) (writer : PasswordWriter) (old new : PasswordHash)
  | deptMoved (id parentId : ℕ)
  | taskClaimed (logId taskId : ℕ) (fired : Option ℕ) (clock : ℕ)
  | claimRefused (taskId : ℕ) (fired : Option ℕ) (clock : ℕ) (key : Option ℕ)
  | executionStarted (logId taskId clock : ℕ)
  | executionFinished (logId : ℕ)
  | taskPatched (taskId : ℕ) (loaded : ScheduledTask) (written : List TaskColumn)
  | taskDeleted (taskId : ℕ)
  | linksReplaced (table : Table) (owner : ℕ) (targets : List ℕ)
  | menuCreated (id : ℕ)
  | menuChecked (id parentId : ℕ) (above : List (ℕ × Option ℕ))
  | menuMoved (id parentId : ℕ)
  | menuSeeded (id : ℕ) (parentId : Option ℕ) (step : SeedStep)
  | defaultAsked (dictTypeId id : ℕ) (loaded : Bool)
  | defaultUnset (id : ℕ)
  | dictDataDeleted (id : ℕ)
  | fileUnlinked (id : ℕ)
  deriving DecidableEq, Repr

abbrev Db := Store Table Row
abbrev Statement := Effect Table Row LockName Storage Note
abbrev Snapshot := View Table Row Storage
abbrev Shared := World Table Row Storage Note
abbrev Private := Local Table Row LockName Note

end AdminPlatform.Model.Schema
