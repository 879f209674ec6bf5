import AdminPlatform.Menu.Repository
import AdminPlatform.Model.Scope
import AdminPlatform.Foundation.Forest

namespace AdminPlatform.Menu.Service

open Model.Schema Model.Service Model.Scope Foundation.Relational Foundation.Transaction
open Foundation.Forest

structure MenuCreate where
  name : String
  menuType : MenuType
  parentId : Option ℕ := none
  path : String := ""
  component : Option String := none
  perms : Option String := none
  icon : String := ""
  sortOrder : ℤ := 0
  visible : Bool := true
  status : Status := .active

/-- Every field may be sent as `null`; only `parentId`, `component` and `perms` accept it. -/
structure MenuUpdate where
  name : PatchField (Option String) := none
  menuType : PatchField (Option MenuType) := none
  parentId : PatchField (Option ℕ) := none
  path : PatchField (Option String) := none
  component : PatchField (Option String) := none
  perms : PatchField (Option String) := none
  icon : PatchField (Option String) := none
  sortOrder : PatchField (Option ℤ) := none
  visible : PatchField (Option Bool) := none
  status : PatchField (Option Status) := none

structure MenuRead where
  id : ℕ
  menu : Menu
  deriving DecidableEq, Repr

def parentOf (db : Db) (i : ℕ) : Option ℕ := (db.rows .menus i).bind Menu.parentId

namespace MenuRepository

def _MAX_MENU_DEPTH : ℕ := 64

def acquireTreeLock : Call Unit := acquireTransactionLock .menuTree

def get (itemId : ℕ) : Call (Option Menu) := .read fun v ↦ v.db.rows .menus itemId

def childIds (db : Db) (menuId : ℕ) : List ℕ :=
  (db.select .menus fun _ (m : Menu) ↦ decide (m.parentId = some menuId)).map Prod.fst

def countChildren (menuId : ℕ) : Call ℕ := .read fun v ↦ (childIds v.db menuId).length

def descendantMenuIds (db : Db) (menuId : ℕ) : List ℕ :=
  if (db.rows .menus menuId).isSome then levels (childIds db) _MAX_MENU_DEPTH [menuId] else []

/-- The query of a cycle check; the note keeps the chain above `newParentId` at that time. -/
def listDescendantMenuIds (menuId newParentId : ℕ) : Call (List ℕ) :=
  .query fun v ↦ .ok ({
    notes := [.menuChecked menuId newParentId
      (lineage (parentOf v.db) (_MAX_MENU_DEPTH + 1) newParentId)] },
    descendantMenuIds v.db menuId)

/-- The foreign key on `parent_id`: the parent, if any, exists and is locked. -/
def parentReference (db : Db) (parentId : Option ℕ) :
    Option (List (Resource Table LockName × Mode)) :=
  match parentId with
  | none => some []
  | some p => if (db.rows .menus p).isSome then some [(.row .menus p, .shared)] else none

/-- The unique index on `seed_key`, which is not checked for `NULL`. -/
def seedKeyTaken (db : Db) (seedKey : Option String) : Bool :=
  seedKey.isSome && !(db.select .menus fun _ (m : Menu) ↦ decide (m.seedKey = seedKey)).isEmpty

def insert (row : Menu) (note : ℕ → List Note) : Call (ℕ × Menu) :=
  .query fun v ↦
    match parentReference v.db row.parentId with
    | none => .error .integrity
    | some locks =>
      if seedKeyTaken v.db row.seedKey then .error .integrity
      else .ok ({
        locks := (row.seedKey.map fun k ↦ (.named (.unique .menus k), .exclusive)).toList ++ locks
        fresh := 1
        writes := [⟨.menus, v.next, some row⟩]
        notes := .menuCreated v.next :: note v.next }, (v.next, row))

def create (payload : MenuCreate) : Call (ℕ × Menu) :=
  insert {
    parentId := payload.parentId
    name := payload.name
    menuType := payload.menuType
    path := payload.path
    component := payload.component
    perms := payload.perms
    icon := payload.icon
    sortOrder := payload.sortOrder
    visible := payload.visible
    status := payload.status
    seedKey := none } fun _ ↦ []

def patch (loaded : Menu) (payload : MenuUpdate) (m : Menu) : Menu where
  parentId := flushed loaded.parentId m.parentId payload.parentId
  name := (flushed (some loaded.name) (some m.name) payload.name).getD m.name
  menuType := (flushed (some loaded.menuType) (some m.menuType) payload.menuType).getD m.menuType
  path := (flushed (some loaded.path) (some m.path) payload.path).getD m.path
  component := flushed loaded.component m.component payload.component
  perms := flushed loaded.perms m.perms payload.perms
  icon := (flushed (some loaded.icon) (some m.icon) payload.icon).getD m.icon
  sortOrder := (flushed (some loaded.sortOrder) (some m.sortOrder) payload.sortOrder).getD m.sortOrder
  visible := (flushed (some loaded.visible) (some m.visible) payload.visible).getD m.visible
  status := (flushed (some loaded.status) (some m.status) payload.status).getD m.status
  seedKey := m.seedKey

def isDirty (loaded : Menu) (payload : MenuUpdate) : Bool :=
  dirty (some loaded.name) payload.name || dirty (some loaded.menuType) payload.menuType ||
    dirty loaded.parentId payload.parentId || dirty (some loaded.path) payload.path ||
    dirty loaded.component payload.component || dirty loaded.perms payload.perms ||
    dirty (some loaded.icon) payload.icon || dirty (some loaded.sortOrder) payload.sortOrder ||
    dirty (some loaded.visible) payload.visible || dirty (some loaded.status) payload.status

def hasNull (payload : MenuUpdate) : Bool :=
  decide (payload.name = some none) || decide (payload.menuType = some none) ||
    decide (payload.path = some none) || decide (payload.icon = some none) ||
    decide (payload.sortOrder = some none) || decide (payload.visible = some none) ||
    decide (payload.status = some none)

/-- The flush of the changed columns of a loaded row. -/
def flush (itemId : ℕ) (loaded : Menu) (payload : MenuUpdate) (note : List Note) : Call Menu :=
  .query fun v ↦
    if hasNull payload then .error .integrity
    else if !isDirty loaded payload then .ok ({ notes := note }, loaded)
    else
      match v.db.rows .menus itemId with
      | none => .error .staleData
      | some m =>
        let new := patch loaded payload m
        let moved := dirty loaded.parentId payload.parentId
        match if moved then parentReference v.db new.parentId else some [] with
        | none => .error .integrity
        | some locks => .ok ({
            locks := locks
            writes := [⟨.menus, itemId, some new⟩]
            notes := note ++
              if moved then (new.parentId.map (Note.menuMoved itemId)).toList else [] }, new)

def update (itemId : ℕ) (loaded : Menu) (payload : MenuUpdate) : Call Menu := do
  let _ ← flush itemId loaded payload []
  match ← get itemId with
  | none => .fail .staleData
  | some m => pure m

/-- `DELETE`: refused while a child is left; roles lose the link. -/
def delete (itemId : ℕ) : Call Unit :=
  .query fun v ↦
    if childIds v.db itemId = [] then
      .ok ({ writes :=
        v.db.delete .roleMenus (fun _ (r : RoleMenu) ↦ decide (r.menuId = itemId)) ++
        v.db.delete .menus (fun i _ ↦ decide (i = itemId)) }, ())
    else .error .integrity

end MenuRepository

open MenuRepository

def notFound (itemId : ℕ) : AppError where
  code := "menu.NOT_FOUND"
  title := "Menu not found"
  detail := some s!"id={itemId}"
  statusCode := 404

def parentNotFound (parentId : ℕ) : AppError where
  code := "menu.PARENT_NOT_FOUND"
  title := "Parent menu not found"
  detail := some s!"parent_id={parentId}"
  statusCode := 404

def cycle (itemId newParentId : ℕ) : AppError where
  code := "menu.CYCLE"
  title := "Menu move would create a cycle"
  detail := some s!"不能把菜单 id={itemId} 移动到自身或其子孙 id={newParentId} 之下"
  statusCode := 409

def hasChildren (itemId : ℕ) : AppError where
  code := "menu.HAS_CHILDREN"
  title := "Menu has children"
  detail := some s!"菜单 id={itemId} 存在子菜单，禁止删除"
  statusCode := 409

def invalidParentType (parentId : ℕ) : AppError where
  code := "menu.INVALID_PARENT_TYPE"
  title := "Button menu cannot be a parent"
  detail := some s!"父菜单 id={parentId} 是按钮(F)，不能作为父节点"
  statusCode := 409

def typeHasChildren (itemId : ℕ) : AppError where
  code := "menu.TYPE_HAS_CHILDREN"
  title := "Cannot change to button: menu has children"
  detail := some s!"菜单 id={itemId} 有子菜单，不能改成按钮(F)"
  statusCode := 409

def forbiddenSecurityFields : AppError where
  code := "auth.FORBIDDEN_BY_ROLE"
  title := "Forbidden"
  detail := some "data_scope/status/perms 等授权根字段仅超级管理员可修改"
  statusCode := 403

def guardSecurityFieldsCreate (payload : MenuCreate) (isSuperAdmin : Bool) : Call Unit :=
  if isSuperAdmin then pure ()
  else if payload.perms.isSome || decide (payload.status ≠ .active) then raise forbiddenSecurityFields
  else pure ()

def guardSecurityFieldsUpdate (payload : MenuUpdate) (isSuperAdmin : Bool) : Call Unit :=
  if isSuperAdmin then pure ()
  else if payload.perms.isSome || payload.menuType.isSome || payload.status.isSome then
    raise forbiddenSecurityFields
  else pure ()

def requireParent (parentId : ℕ) : Option Menu → Call Unit
  | none => raise (parentNotFound parentId)
  | some parent => if parent.menuType = .button then raise (invalidParentType parentId) else pure ()

def create (payload : MenuCreate) (isSuperAdmin : Bool) : Call MenuRead := do
  guardSecurityFieldsCreate payload isSuperAdmin
  match payload.parentId with
  | none => pure ()
  | some p => do
    acquireTreeLock
    requireParent p (← get p)
  let (id, row) ← MenuRepository.create payload
  pure ⟨id, row⟩

def checkNoCycle (itemId newParentId : ℕ) : Call Unit := do
  if newParentId = itemId then raise (cycle itemId newParentId)
  if newParentId ∈ (← listDescendantMenuIds itemId newParentId) then raise (cycle itemId newParentId)

def getParent (itemId : ℕ) (existing : Menu) (parentId : ℕ) : Call (Option Menu) :=
  if parentId = itemId then pure (some existing) else get parentId

/-- The checks of an update that turns the menu into a button or moves it. -/
def checkTree (itemId : ℕ) (existing : Menu) (toButton : Bool) (newParentId : Option ℕ) :
    Call Unit := do
  if toButton || newParentId.isSome then acquireTreeLock
  if toButton then
    if 0 < (← countChildren itemId) then raise (typeHasChildren itemId)
  match newParentId with
  | none => pure ()
  | some p => do
    requireParent p (← getParent itemId existing p)
    checkNoCycle itemId p

def update (itemId : ℕ) (payload : MenuUpdate) (isSuperAdmin : Bool) : Call MenuRead := do
  guardSecurityFieldsUpdate payload isSuperAdmin
  match ← get itemId with
  | none => raise (notFound itemId)
  | some existing => do
    checkTree itemId existing (decide (payload.menuType = some (some .button))) payload.parentId.join
    let row ← MenuRepository.update itemId existing payload
    pure ⟨itemId, row⟩

def delete (itemId : ℕ) : Call Unit := do
  match ← get itemId with
  | none => raise (notFound itemId)
  | some _ => do
    acquireTreeLock
    if 0 < (← countChildren itemId) then raise (hasChildren itemId)
    MenuRepository.delete itemId

end AdminPlatform.Menu.Service
