import AdminPlatform.Authz.DataScope

namespace AdminPlatform.User.Service

open Model.Schema Model.Service Model.Scope Foundation.Relational Foundation.Transaction Foundation.Sql
open Authz.DataScope

structure UserCreate where
  username : String
  password : String
  nickname : String := ""
  deptId : Option ℕ := none

/-- `nickname` and `status` may be sent as `null`, which their columns do not accept. -/
structure UserUpdate where
  nickname : PatchField (Option String) := none
  status : PatchField (Option Status) := none
  password : Option String := none
  deptId : PatchField (Option ℕ) := none

structure UserRead where
  id : ℕ
  username : String
  nickname : String
  status : Status
  isSuperAdmin : Bool
  deptId : Option ℕ
  deriving DecidableEq, Repr

def UserRead.modelValidate (id : ℕ) (u : User) : UserRead :=
  ⟨id, u.username, u.nickname, u.status, u.isSuperAdmin, u.deptId⟩

def verifyPassword (password : String) (h : PasswordHash) : Bool := decide (h.password = password)

def hashPassword (password : String) : Call PasswordHash := do
  let salt ← uuid4
  pure ⟨password, salt⟩

namespace UserRepository

def get (userId : ℕ) : Call (Option User) := .read fun v ↦ v.db.rows .users userId

def findByUsername (username : String) : Call (Option (ℕ × User)) :=
  .read fun v ↦ (v.db.select .users fun _ (u : User) ↦ decide (u.username = username)).head?

/-- The `SELECT` behind the user list, with the filters of the query. -/
def scopedFiltered (filters : List (Cond (ℕ × User))) (scope : Option DataScope) :
    Select (ℕ × User) :=
  let stmt : Select (ℕ × User) := {}
  let stmt := match scope with
    | none => stmt
    | some s => applyDataScope stmt s (fun x ↦ x.2.deptId) (some fun x ↦ some x.1)
  stmt.where filters

def countSuperAdmins : Call ℕ :=
  .read fun v ↦ (v.db.select .users fun _ (u : User) ↦ u.isSuperAdmin).length

/-- The foreign key on `dept_id`: the referenced department, if any, exists and is locked. -/
def deptReference (db : Db) (deptId : Option ℕ) : Option (List (Resource Table LockName × Mode)) :=
  match deptId with
  | none => some []
  | some d => if (db.rows .depts d).isSome then some [(.row .depts d, .shared)] else none

def create (payload : UserCreate) (passwordHash : PasswordHash) : Call (ℕ × User) :=
  .query fun v ↦
    let row : User := {
      username := payload.username
      passwordHash := passwordHash
      nickname := payload.nickname
      status := .active
      isSuperAdmin := false
      deptId := payload.deptId }
    match deptReference v.db payload.deptId with
    | none => .error .integrity
    | some locks =>
      if (v.db.select .users fun _ (u : User) ↦ decide (u.username = payload.username)).isEmpty then
        .ok ({
          locks := (.named (.unique .users payload.username), .exclusive) :: locks
          fresh := 1
          writes := [⟨.users, v.next, some row⟩] }, (v.next, row))
      else .error .integrity

def patch (loaded : User) (payload : UserUpdate) (passwordHash : Option PasswordHash) (u : User) :
    User := { u with
  nickname := (flushed (some loaded.nickname) (some u.nickname) payload.nickname).getD u.nickname
  status := (flushed (some loaded.status) (some u.status) payload.status).getD u.status
  deptId := flushed loaded.deptId u.deptId payload.deptId
  passwordHash := passwordHash.getD u.passwordHash }

def isDirty (loaded : User) (payload : UserUpdate) (passwordHash : Option PasswordHash) : Bool :=
  dirty (some loaded.nickname) payload.nickname || dirty (some loaded.status) payload.status ||
    dirty loaded.deptId payload.deptId || passwordHash.isSome

/-- The flush of the changed columns. A `null` in a column that takes none is refused by the
database, as is a department that does not exist. -/
def update (userId : ℕ) (loaded : User) (payload : UserUpdate)
    (passwordHash : Option PasswordHash) : Call User :=
  .query fun v ↦
    if payload.nickname = some none || payload.status = some none then .error .integrity
    else if !isDirty loaded payload passwordHash then .ok ({}, loaded)
    else
      match v.db.rows .users userId with
      | none => .error .staleData
      | some u =>
        let new := patch loaded payload passwordHash u
        match if dirty loaded.deptId payload.deptId then deptReference v.db new.deptId else some [] with
        | none => .error .integrity
        | some locks => .ok ({
            locks := locks
            writes := [⟨.users, userId, some new⟩]
            notes := (passwordHash.map fun h ↦
              Note.passwordReplaced userId .userUpdate u.passwordHash h).toList },
            patch loaded payload passwordHash loaded)

/-- `DELETE`: tokens, roles and posts of the user go with it, files keep it. -/
def delete (userId : ℕ) : Call Unit :=
  .query fun v ↦
    if (v.db.select .files fun _ (f : File) ↦ decide (f.uploaderId = userId)).isEmpty then
      .ok ({ writes :=
        v.db.delete .refreshTokens (fun _ (r : RefreshToken) ↦ decide (r.userId = userId)) ++
        v.db.delete .userRoles (fun _ (r : UserRole) ↦ decide (r.userId = userId)) ++
        v.db.delete .userPosts (fun _ (r : UserPost) ↦ decide (r.userId = userId)) ++
        v.db.delete .users (fun i _ ↦ decide (i = userId)) }, ())
    else .error .integrity

end UserRepository

open UserRepository

def notFound (userId : ℕ) : AppError where
  code := "user.NOT_FOUND"
  title := "User not found"
  detail := some s!"id={userId}"
  statusCode := 404

def duplicate (username : String) : AppError where
  code := "user.USERNAME_DUPLICATE"
  title := "Username already exists"
  detail := some s!"username='{username}'"
  statusCode := 409

def lastSuperAdmin : AppError where
  code := "user.LAST_SUPER_ADMIN"
  title := "Cannot remove the last super admin"
  detail := some "系统必须保留至少一个超级管理员"
  statusCode := 409

def userVisible (userId : ℕ) (row : User) (scope : DataScope) : Bool :=
  isDeptVisible scope row.deptId || scope.includeSelf && decide (userId = scope.userId)

def create (payload : UserCreate) (scope : Option DataScope) : Call UserRead := do
  if scope.any fun s ↦ !isDeptVisible s payload.deptId then
    raise forbiddenScope
  else if (← findByUsername payload.username).isSome then
    raise (duplicate payload.username)
  else
    let (id, row) ← UserRepository.create payload (← hashPassword payload.password)
    pure (.modelValidate id row)

def update (userId : ℕ) (payload : UserUpdate) (scope : Option DataScope) : Call UserRead := do
  match ← get userId with
  | none => raise (notFound userId)
  | some row =>
    if scope.any fun s ↦ !userVisible userId row s then
      raise (notFound userId)
    else if scope.any fun s ↦ payload.deptId.any fun d ↦ !isDeptVisible s d then
      raise forbiddenScope
    else if payload.status = some (some .disabled) && row.isSuperAdmin &&
        decide ((← countSuperAdmins) ≤ 1) then
      raise lastSuperAdmin
    else
      let passwordHash ← match payload.password with
        | none => pure none
        | some p => some <$> hashPassword p
      let row ← UserRepository.update userId row payload passwordHash
      pure (.modelValidate userId row)

def delete (userId : ℕ) (scope : Option DataScope) : Call Unit := do
  match ← get userId with
  | none => raise (notFound userId)
  | some row =>
    if scope.any fun s ↦ !userVisible userId row s then
      raise (notFound userId)
    else if row.isSuperAdmin && decide ((← countSuperAdmins) ≤ 1) then
      raise lastSuperAdmin
    else
      UserRepository.delete userId

def get (userId : ℕ) (scope : Option DataScope) : Call UserRead := do
  match ← UserRepository.get userId with
  | none => raise (notFound userId)
  | some row =>
    if scope.any fun s ↦ !userVisible userId row s then
      raise (notFound userId)
    else
      pure (.modelValidate userId row)

end AdminPlatform.User.Service
