import AdminPlatform.Listing.Repositories
import AdminPlatform.Monitor.OnlineTruth

namespace AdminPlatform.Listing.Pages

open Model.Schema Model.Service Model.Scope Foundation.Relational Foundation.Ordering
open Authz.DataScope Core.Pagination Monitor.OnlineSessions Monitor.OnlineTruth Repositories

/-- A call of one of the list services, without its page and size. -/
inductive ListRequest
  | users (query : UserListQuery) (scope : Option DataScope)
  | roles (query : RoleListQuery)
  | posts (query : PostListQuery)
  | menus
  | depts (scope : Option DataScope)
  | configs (keyword : Option String)
  | notices (noticeType : Option String) (status : Option Status)
  | dictTypes (keyword : Option String)
  | dictData (dictTypeId : Option ℕ)
  | files
  | tasks (status handlerKey : Option String)
  | taskLogs (taskId : Option ℕ) (status : Option String)
  | auditEvents (eventType : Option String) (actorUserId : Option ℕ) (resultStatus : Option String)
  | loginLogs (username status : Option String)
  | onlineSessions (now : ℕ)

abbrev ListRequest.Item : ListRequest → Type
  | .users _ _ => ℕ × User
  | .roles _ => ℕ × Role
  | .posts _ => ℕ × Post
  | .menus => ℕ × Menu
  | .depts _ => ℕ × Dept
  | .configs _ => ℕ × Config
  | .notices _ _ => ℕ × Notice
  | .dictTypes _ => ℕ × DictType
  | .dictData _ => ℕ × DictData
  | .files => ℕ × File
  | .tasks _ _ => ℕ × ScheduledTask
  | .taskLogs _ _ => ℕ × ScheduledTaskLog
  | .auditEvents _ _ _ => ℕ × AuditEventLog
  | .loginLogs _ _ => ℕ × LoginLog
  | .onlineSessions _ => OnlineSession

variable (c : Backend) (db : Db) (records : Records)

/-- The services resolve the sort order; the repositories do the rest. -/
def list : (r : ListRequest) → Except AppError (Listing r.Item)
  | .users query scope =>
    (resolveSort c.repr query.orderBy query.order (UserRepository.sortAllowed c)
      UserRepository.sortDefault (some UserRepository.sortTieBreak)).map fun orderBy ↦
        UserRepository.listing c db query orderBy scope
  | .roles query =>
    (resolveSort c.repr query.orderBy query.order (RoleRepository.sortAllowed c)
      RoleRepository.sortDefault (some RoleRepository.sortTieBreak)).map fun orderBy ↦
        RoleRepository.listing c db query orderBy
  | .posts query =>
    (resolveSort c.repr query.orderBy query.order (PostRepository.sortAllowed c)
      PostRepository.sortDefault (some PostRepository.sortTieBreak)).map fun orderBy ↦
        PostRepository.listing c db query orderBy
  | .menus => .ok (MenuRepository.listing db)
  | .depts scope => .ok (DeptRepository.listing db scope)
  | .configs keyword => .ok (ConfigRepository.listing c records keyword)
  | .notices noticeType status => .ok (NoticeRepository.listing c records noticeType status)
  | .dictTypes keyword => .ok (DictRepository.listingTypes c db keyword)
  | .dictData dictTypeId => .ok (DictRepository.listingData db dictTypeId)
  | .files => .ok (FileRepository.listing db)
  | .tasks status handlerKey => .ok (ScheduledTaskRepository.listing c db status handlerKey)
  | .taskLogs taskId status => .ok (ScheduledTaskRepository.listingLogs c db taskId status)
  | .auditEvents eventType actorUserId resultStatus =>
    .ok (MonitorRepository.listingAudit c records eventType actorUserId resultStatus)
  | .loginLogs username status => .ok (MonitorRepository.listingLogins c records username status)
  | .onlineSessions now => .ok (MonitorRepository.listingOnline db now)

def Stored {T : Type} {R : T → Type} (db : Store T R) (t : T) (conds : List (ℕ × R t → Bool))
    (x : ℕ × R t) : Prop := db.rows t x.1 = some x.2 ∧ ∀ cond ∈ conds, cond x = true

/-- The rows that the filter of a request lets pass. -/
def Passes : (r : ListRequest) → r.Item → Prop
  | .users query scope, x => db.rows .users x.1 = some x.2 ∧
    (∀ k, query.username = some k → k ≠ "" → ilikeContains c x.2.username k = true) ∧
    (∀ s, query.status = some s → x.2.status = s) ∧ (∀ d, query.deptId = some d → x.2.deptId = some d) ∧
    (∀ b, query.createdAtBegin = some b → b ≤ c.createdAt .users x.1) ∧
    (∀ e, query.createdAtEnd = some e → c.createdAt .users x.1 ≤ e) ∧
    ∀ s, scope = some s → isDeptVisible s x.2.deptId = true ∨
      (s.includeSelf = true ∨ s.scopeType = .self) ∧ x.1 = s.userId
  | .roles query, x => db.rows .roles x.1 = some x.2 ∧
    (∀ k, query.name = some k → k ≠ "" → ilikeContains c x.2.name k = true) ∧
    (∀ k, query.code = some k → k ≠ "" → ilikeContains c x.2.code k = true) ∧
    (∀ s, query.status = some s → x.2.status = s) ∧
    (∀ b, query.createdAtBegin = some b → b ≤ c.createdAt .roles x.1) ∧
    ∀ e, query.createdAtEnd = some e → c.createdAt .roles x.1 ≤ e
  | .posts query, x => db.rows .posts x.1 = some x.2 ∧
    (∀ k, query.code = some k → k ≠ "" → ilikeContains c x.2.code k = true) ∧
    (∀ k, query.name = some k → k ≠ "" → ilikeContains c x.2.name k = true) ∧
    ∀ s, query.status = some s → x.2.status = s
  | .menus, x => db.rows .menus x.1 = some x.2
  | .depts scope, x => db.rows .depts x.1 = some x.2 ∧
    ∀ s, scope = some s → isDeptVisible s (some x.1) = true
  | .configs keyword, x => records.rows .configs x.1 = some x.2 ∧ ∀ k, keyword = some k → k ≠ "" →
    ilikeContains c x.2.configKey k = true ∨ ilikeContains c x.2.name k = true
  | .notices noticeType status, x => records.rows .notices x.1 = some x.2 ∧
    (∀ t, noticeType = some t → c.equal x.2.noticeType t = true) ∧ ∀ s, status = some s → x.2.status = s
  | .dictTypes keyword, x => db.rows .dictTypes x.1 = some x.2 ∧ ∀ k, keyword = some k → k ≠ "" →
    ilikeContains c x.2.name k = true ∨ ilikeContains c x.2.type k = true
  | .dictData dictTypeId, x => db.rows .dictData x.1 = some x.2 ∧
    ∀ d, dictTypeId = some d → x.2.dictTypeId = d
  | .files, x => db.rows .files x.1 = some x.2 ∧ x.2.status = .active
  | .tasks status handlerKey, x => db.rows .scheduledTasks x.1 = some x.2 ∧
    (∀ s, status = some s → c.equal (taskStatusText x.2.status) s = true) ∧
    ∀ k, handlerKey = some k → c.equal x.2.handlerKey k = true
  | .taskLogs taskId status, x => db.rows .scheduledTaskLogs x.1 = some x.2 ∧
    (∀ t, taskId = some t → x.2.taskId = some t) ∧
    ∀ s, status = some s → c.equal (logStatusText x.2.status) s = true
  | .auditEvents eventType actorUserId resultStatus, x => records.rows .auditEventLogs x.1 = some x.2 ∧
    (∀ t, eventType = some t → c.equal x.2.eventType t = true) ∧
    (∀ a, actorUserId = some a → x.2.actorUserId = some a) ∧
    ∀ s, resultStatus = some s → c.equal x.2.resultStatus s = true
  | .loginLogs username status, x => records.rows .loginLogs x.1 = some x.2 ∧
    (∀ u, username = some u → c.equal x.2.username u = true) ∧
    ∀ s, status = some s → c.equal x.2.status s = true
  | .onlineSessions now, e => e ∈ _activeSessions db now

def requested : (r : ListRequest) → Option (SortExpr r.Item)
  | .users query _ => direction query.orderBy query.order (UserRepository.sortAllowed c)
  | .roles query => direction query.orderBy query.order (RoleRepository.sortAllowed c)
  | .posts query => direction query.orderBy query.order (PostRepository.sortAllowed c)
  | _ => none

def Sound : ListRequest → Prop
  | .onlineSessions _ => SoundFamilies db
  | _ => True

variable {c db records} {α : Type} {l : Listing α} {size : ℕ}

section Select

variable {T : Type} {R : T → Type} {s : Store T R} {t : T} {conds : List (ℕ × R t → Bool)}
  {es : List (SortExpr (ℕ × R t))}

@[simp] theorem mem_selectWhere {x : ℕ × R t} : x ∈ selectWhere s t conds ↔ Stored s t conds x := by
  obtain ⟨i, r⟩ := x
  simp [selectWhere, Stored]

theorem nodup_selectWhere : (selectWhere s t conds).Nodup :=
  ((scan_keys_nodup s t).of_map _).filter _

@[simp] theorem accepts_empty {ρ : Type} {x : ρ} : ({} : Foundation.Sql.Select ρ).accepts x = true := rfl

/-- The primary key separates the rows of a table. -/
theorem separates_selectWhere (h : asc Prod.fst ∈ es ∨ desc Prod.fst ∈ es) :
    Separates (lexicographic es) (selectWhere s t conds) := by
  have hkey : ∀ a ∈ selectWhere s t conds, ∀ b ∈ selectWhere s t conds, a.1 = b.1 → a = b := by
    intro a ha b hb hab
    have ha' := (mem_selectWhere.1 ha).1
    have hb' := (mem_selectWhere.1 hb).1
    rw [hab, hb', Option.some.injEq] at ha'
    exact Prod.ext hab ha'.symm
  rcases h with h | h
  · exact separates_of_mem h fun a ha b hb hab ↦ hkey a ha b hb (cmp_asc.1 hab)
  · exact separates_of_mem h fun a ha b hb hab ↦ hkey a ha b hb (cmp_desc.1 hab)

theorem mem_given {ρ β : Type} {value : Option β} {cond : β → ρ → Bool} {x : ρ} :
    (∀ f ∈ given value cond, f x = true) ↔ ∀ a, value = some a → cond a x = true := by
  cases value <;> simp [given]

theorem mem_searched {ρ : Type} {keyword : Option String} {cond : String → ρ → Bool} {x : ρ} :
    (∀ f ∈ searched keyword cond, f x = true) ↔ ∀ k, keyword = some k → k ≠ "" → cond k x = true := by
  cases keyword with
  | none => simp [searched]
  | some k =>
    by_cases hk : k = ""
    · simp [searched, hk]
    · simp [searched, hk]

end Select

/-- The rows are those that pass, the order has no ties and goes by the requested column first, and
the count query counts the rows. -/
structure Faithful (passes : α → Prop) (first : Option (SortExpr α)) (l : Listing α) : Prop where
  mem_rows : ∀ x, x ∈ l.rows ↔ passes x
  nodup : l.rows.Nodup
  ties : Separates (lexicographic l.order) l.rows
  count : l.total = l.rows.length
  first : ∀ e, first = some e → ∃ es, l.order = e :: es

section Select

variable {T : Type} {R : T → Type} {s : Store T R} {t : T} {conds : List (ℕ × R t → Bool)}
  {passes : ℕ × R t → Prop} {order : List (SortExpr (ℕ × R t))} {first : Option (SortExpr (ℕ × R t))}

theorem faithful_select (hp : ∀ x, Stored s t conds x ↔ passes x)
    (ho : asc Prod.fst ∈ order ∨ desc Prod.fst ∈ order)
    (hf : ∀ e, first = some e → ∃ es, order = e :: es) {total : ℕ}
    (ht : total = (selectWhere s t conds).length) :
    Faithful passes first ⟨selectWhere s t conds, order, total⟩ where
  mem_rows x := mem_selectWhere.trans (hp x)
  nodup := nodup_selectWhere
  ties := separates_selectWhere ho
  count := ht
  first := hf

variable {repr : String → String} {orderBy : Option String} {value : OrderValue}
  {allowed : List (String × SortColumn (ℕ × R t))} {default : List (SortExpr (ℕ × R t))}

/-- A list whose order the service resolves, with the primary key as the tie break. -/
theorem faithful_sorted (hp : ∀ x, Stored s t conds x ↔ passes x)
    (hid : ∀ x ∈ allowed, x.2.name = "id" → x.2 = .of "id" Prod.fst) (hd : asc Prod.fst ∈ default)
    (h : resolveSort repr orderBy value allowed default (some (.of "id" Prod.fst)) = .ok order) :
    Faithful passes (direction orderBy value allowed)
      ⟨selectWhere s t conds, order, (selectWhere s t conds).length⟩ := by
  refine faithful_select hp ?_ (fun e he ↦ ?_) rfl
  · rcases mem_of_resolveSort hid h with rfl | h | h
    · exact .inl hd
    · exact .inl h
    · exact .inr h
  · exact head_of_resolveSort h he

theorem faithful_id (hp : ∀ x, Stored s t conds x ↔ passes x) :
    Faithful passes none ⟨selectWhere s t conds, [asc Prod.fst], (selectWhere s t conds).length⟩ :=
  faithful_select hp (.inl List.mem_cons_self) (by simp) rfl

theorem faithful_newest (hp : ∀ x, Stored s t conds x ↔ passes x) :
    Faithful passes none ⟨selectWhere s t conds, [desc Prod.fst], (selectWhere s t conds).length⟩ :=
  faithful_select hp (.inr List.mem_cons_self) (by simp) rfl

end Select

theorem ok_of_map {ε β : Type} {x : Except ε α} {f : α → β} {b : β} (h : x.map f = .ok b) :
    ∃ a, x = .ok a ∧ f a = b := by
  cases x with
  | error e => cases h
  | ok a =>
    cases h
    exact ⟨a, rfl, rfl⟩

theorem userFilters_iff {query : UserListQuery} {x : ℕ × User} :
    (∀ f ∈ UserRepository._userFilters c query, f x = true) ↔
      (∀ k, query.username = some k → k ≠ "" → ilikeContains c x.2.username k = true) ∧
      (∀ s, query.status = some s → x.2.status = s) ∧ (∀ d, query.deptId = some d → x.2.deptId = some d) ∧
      (∀ b, query.createdAtBegin = some b → b ≤ c.createdAt .users x.1) ∧
      ∀ e, query.createdAtEnd = some e → c.createdAt .users x.1 ≤ e := by
  simp only [UserRepository._userFilters, List.mem_append, or_imp, forall_and, mem_searched, mem_given,
    decide_eq_true_eq, and_assoc]

theorem faithful_users {query : UserListQuery} {scope : Option DataScope} {l : Listing (ℕ × User)}
    (h : list c db records (.users query scope) = .ok l) :
    Faithful (Passes c db records (.users query scope)) (requested c (.users query scope)) l := by
  obtain ⟨order, ho, rfl⟩ := ok_of_map h
  refine faithful_sorted (s := db) (t := .users) (fun x ↦ ?_) ?_ List.mem_cons_self ho
  · have hfilters := @userFilters_iff c query x
    cases scope with
    | none => simp [Stored, Passes, hfilters]
    | some s =>
      have hs : (applyDataScope {} s (fun x ↦ x.2.deptId) (some fun x ↦ some x.1)).accepts x = true ↔
          isDeptVisible s x.2.deptId = true ∨
            (s.includeSelf = true ∨ s.scopeType = .self) ∧ x.1 = s.userId := by
        rw [accepts_applyDataScope]
        simp
      simp only [Stored, Passes, List.mem_cons, forall_eq_or_imp, hs, hfilters, Option.some.injEq, forall_eq']
      constructor
      · rintro ⟨hr, hv, hname, hstatus, hdept, hbegin, hend⟩
        exact ⟨hr, hname, hstatus, hdept, hbegin, hend, hv⟩
      · rintro ⟨hr, hname, hstatus, hdept, hbegin, hend, hv⟩
        exact ⟨hr, hv, hname, hstatus, hdept, hbegin, hend⟩
  · simp [UserRepository.sortAllowed, SortColumn.of]

theorem faithful_online {now : ℕ} (h : SoundFamilies db) :
    Faithful (Passes c db records (.onlineSessions now)) none (MonitorRepository.listingOnline db now) := by
  have hperm := families_perm h now
  have hnodup : ((_activeSessions db now).map OnlineSession.sessionId).Nodup :=
    hperm.nodup_iff.2 (List.nodup_dedup _)
  refine ⟨fun x ↦ Iff.rfl, hnodup.of_map _, ?_, ?_, fun _ he ↦ nomatch he⟩
  · refine separates_of_mem (List.mem_cons_of_mem _ List.mem_cons_self) fun a ha b hb hab ↦ ?_
    exact List.inj_on_of_nodup_map hnodup ha hb (cmp_desc.1 hab)
  · have hlen := hperm.length_eq
    rw [List.length_map] at hlen
    exact hlen.symm

theorem faithful (r : ListRequest) (hr : Sound db r) {l : Listing r.Item}
    (h : list c db records r = .ok l) : Faithful (Passes c db records r) (requested c r) l := by
  cases r with
  | users query scope => exact faithful_users h
  | roles query =>
    obtain ⟨order, ho, rfl⟩ := ok_of_map h
    refine faithful_sorted (s := db) (t := .roles) (fun x ↦ ?_) ?_ (List.mem_cons_of_mem _ List.mem_cons_self) ho
    · simp only [Stored, Passes, RoleRepository._roleFilters, List.mem_append, or_imp, forall_and, mem_searched,
        mem_given, decide_eq_true_eq, and_assoc]
    · simp [RoleRepository.sortAllowed, SortColumn.of]
  | posts query =>
    obtain ⟨order, ho, rfl⟩ := ok_of_map h
    refine faithful_sorted (s := db) (t := .posts) (fun x ↦ ?_) ?_ (List.mem_cons_of_mem _ List.mem_cons_self) ho
    · simp only [Stored, Passes, PostRepository._postFilters, List.mem_append, or_imp, forall_and, mem_searched,
        mem_given, decide_eq_true_eq, and_assoc]
    · simp [PostRepository.sortAllowed, SortColumn.of]
  | menus =>
    cases h
    have hstored : ∀ x, Stored db .menus [] x ↔ Passes c db records .menus x := by simp [Stored, Passes]
    refine faithful_select hstored (.inl (by simp)) (by simp [requested]) ?_
    · simp [selectWhere]
  | depts scope =>
    cases h
    refine faithful_id (s := db) (t := .depts) fun x ↦ ?_
    cases scope with
    | none => simp [Stored, Passes, DeptRepository._scoped]
    | some s =>
      have hs : (DeptRepository._scoped (some s)).accepts x = true ↔ isDeptVisible s (some x.1) = true := by
        rw [DeptRepository._scoped, accepts_applyDataScope]
        simp
      simp [Stored, Passes, hs]
  | configs keyword =>
    cases h
    refine faithful_id (s := records) (t := .configs) fun x ↦ ?_
    simp only [Stored, Passes, ConfigRepository._filters, mem_searched, Bool.or_eq_true]
  | notices noticeType status =>
    cases h
    refine faithful_newest (s := records) (t := .notices) fun x ↦ ?_
    simp only [Stored, Passes, NoticeRepository._filters, List.mem_append, or_imp, forall_and, mem_given,
      decide_eq_true_eq]
  | dictTypes keyword =>
    cases h
    refine faithful_id (s := db) (t := .dictTypes) fun x ↦ ?_
    simp only [Stored, Passes, DictRepository._typeFilters, mem_searched, Bool.or_eq_true]
  | dictData dictTypeId =>
    cases h
    refine faithful_select (s := db) (t := .dictData) (fun x ↦ ?_) (.inl (by simp)) (by simp [requested]) rfl
    simp only [Stored, Passes, DictRepository.dataConds, mem_given, decide_eq_true_eq]
  | files =>
    cases h
    refine faithful_newest (s := db) (t := .files) fun x ↦ ?_
    simp [Stored, Passes]
  | tasks status handlerKey =>
    cases h
    refine faithful_newest (s := db) (t := .scheduledTasks) fun x ↦ ?_
    simp only [Stored, Passes, List.mem_append, or_imp, forall_and, mem_given]
  | taskLogs taskId status =>
    cases h
    refine faithful_newest (s := db) (t := .scheduledTaskLogs) fun x ↦ ?_
    simp only [Stored, Passes, List.mem_append, or_imp, forall_and, mem_given, decide_eq_true_eq]
  | auditEvents eventType actorUserId resultStatus =>
    cases h
    refine faithful_select (s := records) (t := .auditEventLogs) (fun x ↦ ?_) (.inr (by simp))
      (by simp [requested]) rfl
    simp only [Stored, Passes, List.mem_append, or_imp, forall_and, mem_given, decide_eq_true_eq, and_assoc]
  | loginLogs username status =>
    cases h
    refine faithful_select (s := records) (t := .loginLogs) (fun x ↦ ?_) (.inr (by simp)) (by simp [requested]) rfl
    simp only [Stored, Passes, List.mem_append, or_imp, forall_and, mem_given]
  | onlineSessions now =>
    cases h
    exact faithful_online hr

theorem sound_of_reach {s : Settings} {w : Shared} {S : Auth.SessionLifetime.SystemState}
    (hw : Auth.AccountSystem.Start w)
    (hS : Foundation.Interleaving.Reach (Auth.AccountSystem.AccountOp.call s) .crash .free w S)
    (r : ListRequest) : Sound S.world.db r := by
  cases r with
  | onlineSessions now => exact soundFamilies_of_tokenInv (Auth.AccountSystem.tokenInv_of_reach hw hS)
  | _ => trivial

def alice : User := ⟨"alice", ⟨"p", 0⟩, "", .active, false, none⟩

def token (i family : ℕ) : RefreshToken where
  jti := i
  familyId := family
  userId := 1
  tokenHash := ⟨"", i⟩
  issuedAt := 5
  expiresAt := 20
  familyAbsoluteAt := 30

def twoSessions : Db := Store.empty.apply
  [⟨.users, 1, some alice⟩, ⟨.refreshTokens, 1, some (token 1 7)⟩, ⟨.refreshTokens, 2, some (token 2 8)⟩]

theorem rows_twoSessions {i : ℕ} {r : RefreshToken} (h : twoSessions.rows .refreshTokens i = some r) :
    ∃ f, r = token i f ∧ f = i + 6 := by
  have hk : i ∈ [1, 2] := twoSessions.complete .refreshTokens i r h
  simp only [List.mem_cons, List.not_mem_nil, or_false] at hk
  rcases hk with rfl | rfl
  · exact ⟨7, (Option.some.inj h).symm, rfl⟩
  · exact ⟨8, (Option.some.inj h).symm, rfl⟩

theorem soundFamilies_twoSessions : SoundFamilies twoSessions where
  owner i r h := by
    obtain ⟨f, rfl, -⟩ := rows_twoSessions h
    exact ⟨alice, rfl⟩
  family i j r t h h' _ := by
    obtain ⟨f, rfl, -⟩ := rows_twoSessions h
    obtain ⟨g, rfl, -⟩ := rows_twoSessions h'
    rfl

def backend : Backend := ⟨fun _ _ ↦ true, fun _ ↦ [], fun _ _ ↦ 0, id⟩

end AdminPlatform.Listing.Pages
