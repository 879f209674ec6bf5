import AdminPlatform.Model.Scope

namespace AdminPlatform.Dict.Service

open Model.Schema Model.Service Model.Scope Foundation.Relational Foundation.Transaction

structure DictDataCreate where
  dictTypeId : ℕ
  label : String
  value : String
  sortOrder : ℤ := 0
  status : Status := .active
  isDefault : Bool := false
  cssClass : Option String := none
  remark : Option String := none

def DictDataCreate.row (payload : DictDataCreate) : DictData where
  dictTypeId := payload.dictTypeId
  label := payload.label
  value := payload.value
  sortOrder := payload.sortOrder
  status := payload.status
  isDefault := payload.isDefault
  cssClass := payload.cssClass
  remark := payload.remark

/-- A field may be left out, sent as `null`, or sent with a value. -/
structure DictDataUpdate where
  label : PatchField (Option String) := none
  value : PatchField (Option String) := none
  sortOrder : PatchField (Option ℤ) := none
  status : PatchField (Option Status) := none
  isDefault : PatchField (Option Bool) := none
  cssClass : PatchField (Option String) := none
  remark : PatchField (Option String) := none

namespace DictDataUpdate

variable (payload : DictDataUpdate) (loaded : DictData)

def nulls : Bool :=
  decide (payload.label = some none) || decide (payload.value = some none) ||
    decide (payload.sortOrder = some none) || decide (payload.status = some none) ||
    decide (payload.isDefault = some none)

/-- The flush emits an `UPDATE`. -/
def emits : Bool :=
  payload.nulls || dirty loaded.label payload.label.join || dirty loaded.value payload.value.join ||
    dirty loaded.sortOrder payload.sortOrder.join || dirty loaded.status payload.status.join ||
    dirty loaded.isDefault payload.isDefault.join || dirty loaded.cssClass payload.cssClass ||
    dirty loaded.remark payload.remark

def applied (current : DictData) : DictData where
  dictTypeId := current.dictTypeId
  label := flushed loaded.label current.label payload.label.join
  value := flushed loaded.value current.value payload.value.join
  sortOrder := flushed loaded.sortOrder current.sortOrder payload.sortOrder.join
  status := flushed loaded.status current.status payload.status.join
  isDefault := flushed loaded.isDefault current.isDefault payload.isDefault.join
  cssClass := flushed loaded.cssClass current.cssClass payload.cssClass
  remark := flushed loaded.remark current.remark payload.remark

def notes (id : ℕ) : List Note :=
  match payload.isDefault.join with
  | some true => [.defaultAsked loaded.dictTypeId id loaded.isDefault]
  | some false => if loaded.isDefault then [.defaultUnset id] else []
  | none => []

end DictDataUpdate

structure DictDataRead where
  id : ℕ
  data : DictData
  deriving DecidableEq, Repr

def typeNotFound (typeId : ℕ) : AppError where
  code := "dict.TYPE_NOT_FOUND"
  title := "Dict type not found"
  detail := some s!"id={typeId}"
  statusCode := 404

def dataNotFound (dataId : ℕ) : AppError where
  code := "dict.DATA_NOT_FOUND"
  title := "Dict data not found"
  detail := some s!"id={dataId}"
  statusCode := 404

/-- The keys of a row in the unique indexes; `default_unique_key` is null for all but a default. -/
def keys (r : DictData) : List DictKey :=
  .value r.dictTypeId r.value :: if r.isDefault then [.default r.dictTypeId] else []

/-- The keys that are new when `new` takes the place of `old`. -/
def inserted (old new : Option DictData) : List DictKey :=
  (new.elim [] keys).filter fun k ↦ decide (k ∉ old.elim [] keys)

def keyLocks (old new : Option DictData) : List (Resource Table LockName × Mode) :=
  (inserted old new ++ inserted new old).map fun k ↦ (.named (.dictData k), .exclusive)

def taken (db : Db) (id : ℕ) (old : Option DictData) (new : DictData) : Bool :=
  (db.scan .dictData).any fun x ↦
    decide (x.1 ≠ id) && (keys x.2).any fun k ↦ decide (k ∈ inserted old (some new))

namespace DictRepository

def getType (typeId : ℕ) : Call (Option DictType) := .read fun v ↦ v.db.rows .dictTypes typeId

def getData (dataId : ℕ) : Call (Option DictData) := .read fun v ↦ v.db.rows .dictData dataId

def isOtherDefault (dictTypeId : ℕ) (exceptId : Option ℕ) (id : ℕ) (r : DictData) : Bool :=
  decide (r.dictTypeId = dictTypeId) && r.isDefault && decide (exceptId ≠ some id)

def unset (r : DictData) : DictData := { r with isDefault := false }

def clearOtherDefaults (dictTypeId : ℕ) (exceptId : Option ℕ) : Call Unit :=
  .query fun v ↦ .ok ({
    locks := (v.db.select .dictData (isOtherDefault dictTypeId exceptId)).flatMap fun x ↦
      keyLocks (some x.2) (some (unset x.2))
    writes := v.db.update .dictData (isOtherDefault dictTypeId exceptId) unset }, ())

/-- The flush of a new row, with its foreign key and its unique keys. -/
def createData (payload : DictDataCreate) : Call DictDataRead :=
  .query fun v ↦
    if (v.db.rows .dictTypes payload.dictTypeId).isNone || taken v.db v.next none payload.row then
      .error .integrity
    else .ok ({
      locks := (.row .dictTypes payload.dictTypeId, .shared) :: keyLocks none (some payload.row)
      fresh := 1
      writes := [⟨.dictData, v.next, some payload.row⟩]
      notes := if payload.isDefault then [.defaultAsked payload.dictTypeId v.next false] else [] },
      ⟨v.next, payload.row⟩)

/-- The session still holds the row it loaded; only columns that differ from it are written. -/
def flushData (dataId : ℕ) (loaded : DictData) (payload : DictDataUpdate) : Call Unit :=
  .query fun v ↦
    if payload.emits loaded then
      match v.db.rows .dictData dataId with
      | none => .error .staleData
      | some r =>
        let r' := payload.applied loaded r
        if payload.nulls || taken v.db dataId (some r) r' then .error .integrity
        else .ok ({
          locks := keyLocks (some r) (some r')
          writes := [⟨.dictData, dataId, some r'⟩]
          notes := payload.notes loaded dataId }, ())
    else .ok ({ notes := payload.notes loaded dataId }, ())

def refresh (dataId : ℕ) : Call DictDataRead :=
  .query fun v ↦
    match v.db.rows .dictData dataId with
    | none => .error .staleData
    | some r => .ok ({}, ⟨dataId, r⟩)

def updateData (dataId : ℕ) (loaded : DictData) (payload : DictDataUpdate) : Call DictDataRead := do
  flushData dataId loaded payload
  refresh dataId

/-- The `DELETE` is flushed by the commit. A row that is gone by then is no error. -/
def deleteData (dataId : ℕ) : Call Unit :=
  .query fun v ↦
    match v.db.rows .dictData dataId with
    | none => .ok ({}, ())
    | some r => .ok ({
        locks := keyLocks (some r) none
        writes := [⟨.dictData, dataId, none⟩]
        notes := [.dictDataDeleted dataId] }, ())

end DictRepository

open DictRepository

def createData (payload : DictDataCreate) : Call DictDataRead := do
  match ← getType payload.dictTypeId with
  | none => raise (typeNotFound payload.dictTypeId)
  | some _ =>
    if payload.isDefault then clearOtherDefaults payload.dictTypeId none
    DictRepository.createData payload

def updateData (dataId : ℕ) (payload : DictDataUpdate) : Call DictDataRead := do
  match ← getData dataId with
  | none => raise (dataNotFound dataId)
  | some existing =>
    if payload.isDefault = some (some true) then
      clearOtherDefaults existing.dictTypeId (some dataId)
    DictRepository.updateData dataId existing payload

def deleteData (dataId : ℕ) : Call Unit := do
  match ← getData dataId with
  | none => raise (dataNotFound dataId)
  | some _ => DictRepository.deleteData dataId

/-- The requests that write the data of a dictionary. -/
inductive DataOp
  | create (payload : DictDataCreate)
  | update (dataId : ℕ) (payload : DictDataUpdate)
  | delete (dataId : ℕ)

def DataOp.call : DataOp → Call (Option DictDataRead)
  | .create payload => getSession do
    let row ← createData payload
    pure (some row)
  | .update dataId payload => getSession do
    let row ← updateData dataId payload
    pure (some row)
  | .delete dataId => getSession do
    deleteData dataId
    pure none

end AdminPlatform.Dict.Service
