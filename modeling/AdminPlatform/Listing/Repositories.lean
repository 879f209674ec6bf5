import AdminPlatform.Core.Pagination
import AdminPlatform.Authz.DataScope
import AdminPlatform.Monitor.OnlineSessions

namespace AdminPlatform.Listing.Repositories

open Model.Schema Model.Service Model.Scope Foundation.Relational Foundation.Ordering Foundation.Sql
open Authz.DataScope Core.Pagination

structure Config where
  name : String
  configKey : String
  configValue : String
  isBuiltin : Bool
  remark : Option String
  deriving DecidableEq, Repr

structure Notice where
  title : String
  noticeType : String
  content : String
  status : Status
  remark : Option String
  deriving DecidableEq, Repr

structure AuditEventLog where
  eventType : String
  actorUserId : Option ℕ
  resultStatus : String
  occurredAt : ℕ
  deriving DecidableEq, Repr

structure LoginLog where
  username : String
  status : String
  loginAtUtc : ℕ
  deriving DecidableEq, Repr

/-- The tables that are listed here and written by none of the modelled transactions. -/
inductive RecordTable
  | configs
  | notices
  | auditEventLogs
  | loginLogs
  deriving DecidableEq, Repr

abbrev RecordRow : RecordTable → Type
  | .configs => Config
  | .notices => Notice
  | .auditEventLogs => AuditEventLog
  | .loginLogs => LoginLog

abbrev Records := Store RecordTable RecordRow

def taskStatusText : TaskStatus → String
  | .enabled => "enabled"
  | .disabled => "disabled"

def logStatusText : LogStatus → String
  | .waiting => "waiting"
  | .running => "running"
  | .success => "success"
  | .failure => "failure"
  | .misfire => "misfire"
  | .skipped => "skipped"

/-- What the server adds to the rows: its pattern matching, the sort keys of its collation, the
creation times, and Python's quoting of a text. -/
structure Backend where
  ilike : String → String → Bool
  weight : String → List ℕ
  createdAt : Table → ℕ → ℕ
  repr : String → String

variable (c : Backend)

def Backend.equal (a b : String) : Bool := decide (c.weight a = c.weight b)

def ilikeContains (column keyword : String) : Bool := c.ilike column (likeContains keyword)

section Select

variable {T : Type} {R : T → Type}

/-- `SELECT … WHERE` with a list of conditions. -/
def selectWhere (db : Store T R) (t : T) (conds : List (ℕ × R t → Bool)) : List (ℕ × R t) :=
  (db.scan t).filter fun x ↦ conds.all fun cond ↦ cond x

def given {α ρ : Type} (value : Option α) (cond : α → ρ → Bool) : List (ρ → Bool) :=
  match value with
  | none => []
  | some a => [cond a]

def searched {ρ : Type} (keyword : Option String) (cond : String → ρ → Bool) : List (ρ → Bool) :=
  match keyword with
  | none => []
  | some k => if k = "" then [] else [cond k]

end Select

structure UserListQuery where
  username : Option String := none
  status : Option Status := none
  deptId : Option ℕ := none
  createdAtBegin : Option ℕ := none
  createdAtEnd : Option ℕ := none
  orderBy : Option String := none
  order : OrderValue := .desc

structure RoleListQuery where
  name : Option String := none
  code : Option String := none
  status : Option Status := none
  createdAtBegin : Option ℕ := none
  createdAtEnd : Option ℕ := none
  orderBy : Option String := none
  order : OrderValue := .desc

structure PostListQuery where
  code : Option String := none
  name : Option String := none
  status : Option Status := none
  orderBy : Option String := none
  order : OrderValue := .desc

namespace UserRepository

def sortAllowed : List (String × SortColumn (ℕ × User)) :=
  [("id", .of "id" Prod.fst),
   ("username", .of "username" fun x ↦ c.weight x.2.username),
   ("created_at", .of "created_at" fun x ↦ c.createdAt .users x.1)]

def sortDefault : List (SortExpr (ℕ × User)) := [asc Prod.fst]

def sortTieBreak : SortColumn (ℕ × User) := .of "id" Prod.fst

def _userFilters (query : UserListQuery) : List (ℕ × User → Bool) :=
  searched query.username (fun k x ↦ ilikeContains c x.2.username k) ++
  given query.status (fun s x ↦ decide (x.2.status = s)) ++
  given query.deptId (fun d x ↦ decide (x.2.deptId = some d)) ++
  given query.createdAtBegin (fun b x ↦ decide (b ≤ c.createdAt .users x.1)) ++
  given query.createdAtEnd (fun e x ↦ decide (c.createdAt .users x.1 ≤ e))

def _scopedFiltered (db : Db) (query : UserListQuery) (scope : Option DataScope) : List (ℕ × User) :=
  let stmt : Select (ℕ × User) := match scope with
    | none => {}
    | some s => applyDataScope {} s (fun x ↦ x.2.deptId) (some fun x ↦ some x.1)
  selectWhere db .users (stmt.accepts :: _userFilters c query)

/-- `list_paginated` and `count`. -/
def listing (db : Db) (query : UserListQuery) (orderBy : List (SortExpr (ℕ × User)))
    (scope : Option DataScope) : Listing (ℕ × User) where
  rows := _scopedFiltered c db query scope
  order := orderBy
  total := (_scopedFiltered c db query scope).length

end UserRepository

namespace RoleRepository

def sortAllowed : List (String × SortColumn (ℕ × Role)) :=
  [("id", .of "id" Prod.fst),
   ("sort_order", .of "sort_order" fun x ↦ x.2.sortOrder),
   ("created_at", .of "created_at" fun x ↦ c.createdAt .roles x.1)]

def sortDefault : List (SortExpr (ℕ × Role)) := [asc fun x ↦ x.2.sortOrder, asc Prod.fst]

def sortTieBreak : SortColumn (ℕ × Role) := .of "id" Prod.fst

def _roleFilters (query : RoleListQuery) : List (ℕ × Role → Bool) :=
  searched query.name (fun k x ↦ ilikeContains c x.2.name k) ++
  searched query.code (fun k x ↦ ilikeContains c x.2.code k) ++
  given query.status (fun s x ↦ decide (x.2.status = s)) ++
  given query.createdAtBegin (fun b x ↦ decide (b ≤ c.createdAt .roles x.1)) ++
  given query.createdAtEnd (fun e x ↦ decide (c.createdAt .roles x.1 ≤ e))

def _filtered (db : Db) (query : RoleListQuery) : List (ℕ × Role) :=
  selectWhere db .roles (_roleFilters c query)

def listing (db : Db) (query : RoleListQuery) (orderBy : List (SortExpr (ℕ × Role))) :
    Listing (ℕ × Role) where
  rows := _filtered c db query
  order := orderBy
  total := (_filtered c db query).length

end RoleRepository

namespace PostRepository

def sortAllowed : List (String × SortColumn (ℕ × Post)) :=
  [("id", .of "id" Prod.fst),
   ("sort_order", .of "sort_order" fun x ↦ x.2.sortOrder),
   ("created_at", .of "created_at" fun x ↦ c.createdAt .posts x.1)]

def sortDefault : List (SortExpr (ℕ × Post)) := [asc fun x ↦ x.2.sortOrder, asc Prod.fst]

def sortTieBreak : SortColumn (ℕ × Post) := .of "id" Prod.fst

def _postFilters (query : PostListQuery) : List (ℕ × Post → Bool) :=
  searched query.code (fun k x ↦ ilikeContains c x.2.code k) ++
  searched query.name (fun k x ↦ ilikeContains c x.2.name k) ++
  given query.status (fun s x ↦ decide (x.2.status = s))

def _filtered (db : Db) (query : PostListQuery) : List (ℕ × Post) :=
  selectWhere db .posts (_postFilters c query)

def listing (db : Db) (query : PostListQuery) (orderBy : List (SortExpr (ℕ × Post))) :
    Listing (ℕ × Post) where
  rows := _filtered c db query
  order := orderBy
  total := (_filtered c db query).length

end PostRepository

def MenuRepository.listing (db : Db) : Listing (ℕ × Menu) where
  rows := selectWhere db .menus []
  order := [asc fun x ↦ x.2.sortOrder, asc Prod.fst]
  total := (db.scan .menus).length

/-- A department belongs to nobody, so the `SELF` part of a scope selects none. -/
def DeptRepository._scoped (scope : Option DataScope) : Select (ℕ × Dept) :=
  match scope with
  | none => {}
  | some s => applyDataScope {} s (fun x ↦ some x.1) none

def DeptRepository.listing (db : Db) (scope : Option DataScope) : Listing (ℕ × Dept) where
  rows := selectWhere db .depts [(_scoped scope).accepts]
  order := [asc Prod.fst]
  total := (selectWhere db .depts [(_scoped scope).accepts]).length

def ConfigRepository._filters (keyword : Option String) : List (ℕ × Config → Bool) :=
  searched keyword fun k x ↦ ilikeContains c x.2.configKey k || ilikeContains c x.2.name k

def ConfigRepository.listing (records : Records) (keyword : Option String) : Listing (ℕ × Config) where
  rows := selectWhere records .configs (_filters c keyword)
  order := [asc Prod.fst]
  total := (selectWhere records .configs (_filters c keyword)).length

def NoticeRepository._filters (noticeType : Option String) (status : Option Status) :
    List (ℕ × Notice → Bool) :=
  given noticeType (fun t x ↦ c.equal x.2.noticeType t) ++
  given status (fun s x ↦ decide (x.2.status = s))

def NoticeRepository.listing (records : Records) (noticeType : Option String) (status : Option Status) :
    Listing (ℕ × Notice) where
  rows := selectWhere records .notices (_filters c noticeType status)
  order := [desc Prod.fst]
  total := (selectWhere records .notices (_filters c noticeType status)).length

namespace DictRepository

def _typeFilters (keyword : Option String) : List (ℕ × DictType → Bool) :=
  searched keyword fun k x ↦ ilikeContains c x.2.name k || ilikeContains c x.2.type k

def listingTypes (db : Db) (keyword : Option String) : Listing (ℕ × DictType) where
  rows := selectWhere db .dictTypes (_typeFilters c keyword)
  order := [asc Prod.fst]
  total := (selectWhere db .dictTypes (_typeFilters c keyword)).length

def dataConds (dictTypeId : Option ℕ) : List (ℕ × DictData → Bool) :=
  given dictTypeId fun d x ↦ decide (x.2.dictTypeId = d)

def listingData (db : Db) (dictTypeId : Option ℕ) : Listing (ℕ × DictData) where
  rows := selectWhere db .dictData (dataConds dictTypeId)
  order := [asc fun x ↦ x.2.dictTypeId, asc fun x ↦ x.2.sortOrder, asc Prod.fst]
  total := (selectWhere db .dictData (dataConds dictTypeId)).length

end DictRepository

def FileRepository.listing (db : Db) : Listing (ℕ × File) where
  rows := selectWhere db .files [fun x ↦ decide (x.2.status = .active)]
  order := [desc Prod.fst]
  total := (selectWhere db .files [fun x ↦ decide (x.2.status = .active)]).length

namespace ScheduledTaskRepository

def _taskFiltered (db : Db) (status handlerKey : Option String) : List (ℕ × ScheduledTask) :=
  selectWhere db .scheduledTasks
    (given status (fun s x ↦ c.equal (taskStatusText x.2.status) s) ++
     given handlerKey (fun k x ↦ c.equal x.2.handlerKey k))

def listing (db : Db) (status handlerKey : Option String) : Listing (ℕ × ScheduledTask) where
  rows := _taskFiltered c db status handlerKey
  order := [desc Prod.fst]
  total := (_taskFiltered c db status handlerKey).length

def _logFiltered (db : Db) (taskId : Option ℕ) (status : Option String) : List (ℕ × ScheduledTaskLog) :=
  selectWhere db .scheduledTaskLogs
    (given taskId (fun t x ↦ decide (x.2.taskId = some t)) ++
     given status (fun s x ↦ c.equal (logStatusText x.2.status) s))

def listingLogs (db : Db) (taskId : Option ℕ) (status : Option String) :
    Listing (ℕ × ScheduledTaskLog) where
  rows := _logFiltered c db taskId status
  order := [desc Prod.fst]
  total := (_logFiltered c db taskId status).length

end ScheduledTaskRepository

namespace MonitorRepository

def _auditFiltered (records : Records) (eventType : Option String) (actorUserId : Option ℕ)
    (resultStatus : Option String) : List (ℕ × AuditEventLog) :=
  selectWhere records .auditEventLogs
    (given eventType (fun t x ↦ c.equal x.2.eventType t) ++
     given actorUserId (fun a x ↦ decide (x.2.actorUserId = some a)) ++
     given resultStatus (fun s x ↦ c.equal x.2.resultStatus s))

def listingAudit (records : Records) (eventType : Option String) (actorUserId : Option ℕ)
    (resultStatus : Option String) : Listing (ℕ × AuditEventLog) where
  rows := _auditFiltered c records eventType actorUserId resultStatus
  order := [desc fun x ↦ x.2.occurredAt, desc Prod.fst]
  total := (_auditFiltered c records eventType actorUserId resultStatus).length

def _loginFiltered (records : Records) (username status : Option String) : List (ℕ × LoginLog) :=
  selectWhere records .loginLogs
    (given username (fun u x ↦ c.equal x.2.username u) ++
     given status (fun s x ↦ c.equal x.2.status s))

def listingLogins (records : Records) (username status : Option String) : Listing (ℕ × LoginLog) where
  rows := _loginFiltered c records username status
  order := [desc fun x ↦ x.2.loginAtUtc, desc Prod.fst]
  total := (_loginFiltered c records username status).length

def listingOnline (db : Db) (now : ℕ) : Listing Monitor.OnlineSessions.OnlineSession where
  rows := Monitor.OnlineSessions._activeSessions db now
  order := [desc fun e ↦ e.lastActiveTime, desc fun e ↦ e.sessionId]
  total := Monitor.OnlineSessions.countOnlineSessions db now

end MonitorRepository

end AdminPlatform.Listing.Repositories
