import AdminPlatform.Menu.Service

namespace AdminPlatform.Rbac.Seed

open Model.Schema Model.Service Model.Scope Foundation.Relational Foundation.Transaction
open Menu.Service MenuRepository

structure SeedItem where
  seedKey : String
  name : String
  menuType : MenuType
  path : String := ""
  component : Option String := none
  perms : Option String := none
  icon : String := ""
  sortOrder : ℤ := 0
  visible : Bool := true

inductive SeedMenu
  | node (item : SeedItem) (children : List SeedMenu)

structure SeedRole where
  code : String
  name : String
  dataScope : ScopeType
  sortOrder : ℤ := 0

mutual

def keysOf : SeedMenu → List String
  | .node item children => item.seedKey :: keysOfAll children

def keysOfAll : List SeedMenu → List String
  | [] => []
  | n :: ns => keysOf n ++ keysOfAll ns

end

structure Manifest where
  roles : List SeedRole
  menuTree : List SeedMenu
  distinct : (keysOfAll menuTree).Nodup

structure SeedResult where
  rolesUpserted : ℕ
  menusUpserted : ℕ
  menusPruned : ℕ
  deriving DecidableEq, Repr

def roleByCode (db : Db) (code : String) : Option (ℕ × Role) :=
  (db.select .roles fun _ (r : Role) ↦ decide (r.code = code)).head?

def findRole (code : String) : Call (Option (ℕ × Role)) := .read fun v ↦ roleByCode v.db code

/-- The flush of one role. -/
def flushRole (sr : SeedRole) : Option (ℕ × Role) → Call Unit
  | none => .query fun v ↦
    if (roleByCode v.db sr.code).isSome then .error .integrity
    else .ok ({
      locks := [(.named (.unique .roles sr.code), .exclusive)]
      fresh := 1
      writes := [⟨.roles, v.next, some ⟨sr.name, sr.code, sr.dataScope, sr.sortOrder, .active⟩⟩] }, ())
  | some (id, loaded) => .query fun v ↦
    if loaded.name = sr.name ∧ loaded.dataScope = sr.dataScope ∧ loaded.sortOrder = sr.sortOrder then
      .ok ({}, ())
    else
      match v.db.rows .roles id with
      | none => .error .staleData
      | some r => .ok ({ writes := [⟨.roles, id, some { r with
          name := flushed loaded.name r.name (some sr.name)
          dataScope := flushed loaded.dataScope r.dataScope (some sr.dataScope)
          sortOrder := flushed loaded.sortOrder r.sortOrder (some sr.sortOrder) }⟩] }, ())

def findRoles : List SeedRole → Call (List (SeedRole × Option (ℕ × Role)))
  | [] => pure []
  | sr :: srs => do
    let found ← findRole sr.code
    let rest ← findRoles srs
    pure ((sr, found) :: rest)

def flushRoles : List (SeedRole × Option (ℕ × Role)) → Call Unit
  | [] => pure ()
  | (sr, found) :: rest => do
    flushRole sr found
    flushRoles rest

def seededMenus (db : Db) : List (ℕ × Menu) :=
  db.select .menus fun _ (m : Menu) ↦ m.seedKey.isSome

def loadExisting : Call (List (ℕ × Menu)) := .read fun v ↦ seededMenus v.db

def byKey (existing : List (ℕ × Menu)) (key : String) : Option (ℕ × Menu) :=
  existing.find? fun x ↦ decide (x.2.seedKey = some key)

def newMenu (item : SeedItem) (parentId : Option ℕ) : Menu where
  parentId := parentId
  name := item.name
  menuType := item.menuType
  path := item.path
  component := item.component
  perms := item.perms
  icon := item.icon
  sortOrder := item.sortOrder
  visible := item.visible
  status := .active
  seedKey := some item.seedKey

/-- Every column the seed sets. -/
def assigned (item : SeedItem) (parentId : Option ℕ) : MenuUpdate where
  name := some (some item.name)
  menuType := some (some item.menuType)
  parentId := some parentId
  path := some (some item.path)
  component := some item.component
  perms := some item.perms
  icon := some (some item.icon)
  sortOrder := some (some item.sortOrder)
  visible := some (some item.visible)
  status := some (some .active)

def parentStep (loaded : Menu) (parentId : Option ℕ) : SeedStep :=
  if loaded.parentId = parentId then .kept else .reparented

/-- One node: an existing menu keeps its id, a missing one is inserted. -/
def upsertItem (existing : List (ℕ × Menu)) (item : SeedItem) (parentId : Option ℕ) : Call ℕ :=
  match byKey existing item.seedKey with
  | none => do
    let (id, _) ← insert (newMenu item parentId) fun id ↦ [.menuSeeded id parentId .placed]
    pure id
  | some (id, loaded) => do
    let _ ← flush id loaded (assigned item parentId)
      [.menuSeeded id parentId (parentStep loaded parentId)]
    pure id

mutual

def upsert (existing : List (ℕ × Menu)) (parentId : Option ℕ) : SeedMenu → Call Unit
  | .node item children => do
    let id ← upsertItem existing item parentId
    upsertAll existing (some id) children

def upsertAll (existing : List (ℕ × Menu)) (parentId : Option ℕ) : List SeedMenu → Call Unit
  | [] => pure ()
  | n :: ns => do
    upsert existing parentId n
    upsertAll existing parentId ns

end

def stale (existing : List (ℕ × Menu)) (seen : List String) : List (ℕ × Menu) :=
  existing.filter fun x ↦ !x.2.seedKey.any fun key ↦ decide (key ∈ seen)

def isParent (stale : List (ℕ × Menu)) (id : ℕ) : Bool :=
  stale.any fun x ↦ decide (x.2.parentId = some id)

def deleteAll : List (ℕ × Menu) → Call Unit
  | [] => pure ()
  | x :: xs => do
    MenuRepository.delete x.1
    deleteAll xs

/-- Leaves first, one flush a round. A round without leaves ends the loop. -/
def prune : ℕ → List (ℕ × Menu) → Call ℕ
  | 0, _ => pure 0
  | rounds + 1, stale =>
    let leaves := stale.filter fun x ↦ !isParent stale x.1
    if leaves = [] then pure 0
    else do
      deleteAll leaves
      let rest ← prune rounds (stale.filter fun x ↦ isParent stale x.1)
      pure (leaves.length + rest)

def seedRbac (manifest : Manifest) : Call SeedResult := do
  acquireTransactionLock .rbacSeed
  let found ← findRoles manifest.roles
  flushRoles found
  let existing ← loadExisting
  upsertAll existing none manifest.menuTree
  let old := stale existing (keysOfAll manifest.menuTree)
  let pruned ← prune old.length old
  pure ⟨manifest.roles.length, (keysOfAll manifest.menuTree).length, pruned⟩

end AdminPlatform.Rbac.Seed
