import Biggy.Commits
import Biggy.Relations
import Biggy.Related

/-!
# A database written through its services

`data_service` writes the physical tables, each statement in a transaction of its own; `record_service` puts the
operations on records together from such statements, logs them, and recomputes the formulas of related records.
-/
namespace Biggy
namespace Database

open Relations Commits Commits.Prog RecordService
open Related (OnDelete rowOf createStamp deleteStamp maxRows)

/-- The rows of every physical table in stored order; a junction is one of the tables. -/
abbrev Tables := String → List Row

inductive Action
  | create | update | delete | restore
  deriving DecidableEq

/-- `row_pk` as the log stores it; no changes are stored as `None`. -/
structure AuditLog where
  tablePhys : String
  rowPk : Value
  action : Action
  userId : Option ℕ
  changes : List (String × Value × Value) := []

/-- What stops a service: an exception of its own, or a statement that the database refuses. -/
inductive Stop
  | python (e : PyError) | integrity | formula
  deriving DecidableEq

/-- What the database does to a row whose foreign key loses the row it points at. -/
def onDelete (rel : MetaRelation) : OnDelete :=
  match rel.onDelete with
  | none => .setNull
  | some "SET NULL" => .setNull
  | some "CASCADE" => .cascade
  | some _ => .restrict

/-- What holds after every accepted statement: the keys are unique and not null, a column holds values of its own type,
a junction holds no pair twice, and where foreign keys are enforced they point at rows. -/
structure Integrity (S : Schema) (cast : String → String → Value → Value) (enforced : Bool) (db : Tables) : Prop where
  keysNodup : ∀ t ∈ S.tables, ((db t.physName).map fun row => row t.pkCol).Nodup
  keysHeld : ∀ t ∈ S.tables, ∀ row ∈ db t.physName, row t.pkCol ≠ .null
  typed : ∀ name, ∀ row ∈ db name, ∀ c, cast name c (row c) = row c
  pairsOnce : ∀ t ∈ S.tables, ∀ rel j this that other, (rel,j,this,that,other) ∈ S.mnLinks t →
    (db j).Pairwise fun l l' => ¬(l this = l' this ∧ l that = l' that)
  references : enforced = true → ∀ t ∈ S.tables, ∀ child fk rel, (child,fk,rel) ∈ S.incomingM1 t →
    ∀ row ∈ db child.physName, row fk = .null ∨ ∃ p ∈ db t.physName, p t.pkCol = row fk

/-- The metadata with the database below it. `cast` is what a column makes of a value that it stores or is compared
with, `admits` every constraint that is checked at the end of a statement, `logKey` what the log's column makes of a
key, `evaluate` the formulas, and `fire` what triggers, feeds and SLA policies do after a write. -/
structure Site extends Schema where
  columns : String → List String
  nullable : String → String → Bool
  cast : String → String → Value → Value
  enforced : Bool
  admits : Tables → Bool
  logKey : Value → Option Value
  evaluate : MetaTable → Tables → Evaluator
  str : Value → String
  hasTriggers : MetaTable → Bool
  fire : MetaTable → Action → Value → Option Row → Option ℕ → Tables → Tables × List AuditLog
  idsNodup : (tables.map MetaTable.id).Nodup
  namesNodup : (tables.map MetaTable.physName).Nodup
  plainNames : ∀ t ∈ tables, t.physName.toList.take 2 ≠ ['j','_']
  pkFree : ∀ t ∈ tables, t.pkCol ∉ managed
  pkPlain : ∀ t ∈ tables, ∀ f ∈ t.fields, f.dataType = .formula → f.physName ≠ t.pkCol
  fkField : ∀ t ∈ tables, ∀ child fk rel, (child,fk,rel) ∈ toSchema.incomingM1 t →
    fk ∈ columns child.physName ∧ ∃ f ∈ child.fields, f.physName = fk ∧ f.dataType = .relation
  fkCast : ∀ t ∈ tables, ∀ child fk rel, (child,fk,rel) ∈ toSchema.incomingM1 t →
    cast child.physName fk = cast t.physName t.pkCol
  linkCast : ∀ t ∈ tables, ∀ rel j this that other, (rel,j,this,that,other) ∈ toSchema.mnLinks t →
    cast j this = cast t.physName t.pkCol
  linkHeld : ∀ t ∈ tables, ∀ rel j this that other, (rel,j,this,that,other) ∈ toSchema.mnLinks t → this ∈ columns j
  junctionsOwn : ∀ t ∈ tables, ∀ t' ∈ tables, ∀ rel rel' j this that this' that' other other',
    (rel,j,this,that,other) ∈ toSchema.mnLinks t → (rel',j,this',that',other') ∈ toSchema.mnLinks t' → rel = rel'
  sound : ∀ db, admits db = true → Integrity toSchema cast enforced db

namespace Site

variable (site : Site)

/-- The program of a service. -/
abbrev Service (α : Type) := Prog Tables AuditLog Stop α

/-- The key of a record as its column stores it. -/
def key (t : MetaTable) (pk : Value) : Value := site.cast t.physName t.pkCol pk

/-! ### data_service -/

def getRow (t : MetaTable) (pk : Value) (db : Tables) : Option Row :=
  Keyed.find (fun row => row t.pkCol) (site.key t pk) (db t.physName)

/-- A statement in a transaction of its own. -/
def statement (change : Tables → Tables) : Service Unit := commit site.admits .integrity change

/-- `UPDATE name SET vs WHERE p`. -/
def rewritten (name : String) (p : Row → Bool) (vs : Values) (db : Tables) : Tables :=
  Function.update db name ((db name).map fun row => if p row then row.write vs else row)

/-- `col == value`. -/
def equals (name col : String) (v : Value) (row : Row) : Bool := decide (row col = site.cast name col v)

/-- The bindings that an update writes, as the columns store them. -/
def stored (t : MetaTable) (vs : Values) : Values :=
  (vs.filter fun p => (site.columns t.physName).contains p.1 && p.1 != t.pkCol).map fun p =>
    (p.1,site.cast t.physName p.1 p.2)

def updateRow (t : MetaTable) (pk : Value) (vs : Values) : Service Unit :=
  site.statement (rewritten t.physName (site.equals t.physName t.pkCol pk) (site.stored t vs))

/-- The row that an insertion stores. -/
def newRow (t : MetaTable) (vs : Values) (generated : Value) : Row := fun c =>
  if c ∈ site.columns t.physName then
    site.cast t.physName c ((vs.lookup c).getD (if c = t.pkCol then generated else .null))
  else .null

/-- The supplied key, else the generated one. -/
def insertRow (t : MetaTable) (vs : Values) (generated : Value) : Service Value := do
  site.statement fun db => Function.update db t.physName (db t.physName++[site.newRow t vs generated])
  pure (if t.pkCol ∈ site.columns t.physName then (vs.lookup t.pkCol).getD generated else generated)

def clearFk (name col : String) (v : Value) : Service Unit :=
  if col ∈ site.columns name then site.statement (rewritten name (site.equals name col v) [(col,.null)]) else pure ()

/-- `repoint_fk`; the number of rows changed. -/
def repointFk (name col : String) (old new : Value) : Service ℕ :=
  if col ∈ site.columns name then withState fun db => do
    site.statement (rewritten name (site.equals name col old) [(col,site.cast name col new)])
    pure ((db name).countP (site.equals name col old))
  else pure 0

/-- A foreign key of the database: that of a many-to-one relation, or a side of a junction. -/
structure ForeignKey where
  table : String
  column : String
  parent : String
  onDelete : OnDelete

def foreignKeys : List ForeignKey := site.tables.flatMap fun t =>
  (site.incomingM1 t).map (fun (child,fk,rel) => ⟨child.physName,fk,t.physName,onDelete rel⟩) ++
    (site.mnLinks t).map fun (_,j,this,_,_) => ⟨j,this,t.physName,.cascade⟩

/-- The keys of the rows of a table that pass a test. -/
def keysOf (name : String) (p : Row → Bool) (db : Tables) : List (String × Value) :=
  (site.tables.filter fun t => t.physName = name).flatMap fun t => ((db name).filter p).map fun row => (name,row t.pkCol)

/-- A foreign key with the action points at one of the rows. -/
def loses (action : OnDelete) (gone : List (String × Value)) (name : String) (row : Row) : Bool :=
  site.foreignKeys.any fun k => decide (k.table = name ∧ k.onDelete = action ∧ (k.parent,row k.column) ∈ gone)

/-- The rows that a deletion takes along, in so many rounds at most. -/
def cascaded : ℕ → Tables → List (String × Value) → List (String × Value)
  | 0, _, gone => gone
  | n+1, db, gone => cascaded n db (gone ++ site.tables.flatMap fun t =>
      site.keysOf t.physName (site.loses .cascade gone t.physName) db)

/-- More rounds than there are rows take nothing along. -/
def rounds (db : Tables) : ℕ := (site.tables.map fun t => (db t.physName).length).sum

/-- A row without the foreign keys that the database sets to null. -/
def orphaned (gone : List (String × Value)) (name : String) (row : Row) : Row := row.write <|
  (site.foreignKeys.filter fun k => decide (k.table = name ∧ k.onDelete = .setNull ∧ (k.parent,row k.column) ∈ gone)).map
    fun k => (k.column,.null)

/-- `DELETE FROM name WHERE p`, with what the foreign keys do. -/
def erased (name : String) (p : Row → Bool) (db : Tables) : Tables := fun other =>
  let gone := if site.enforced then site.cascaded (site.rounds db) db (site.keysOf name p db) else []
  ((db other).filter fun row => !(decide (other = name) && p row) && !site.loses .cascade gone other row).map
    (site.orphaned gone other)

def deleteRow (t : MetaTable) (pk : Value) : Service Unit :=
  site.statement (site.erased t.physName (site.equals t.physName t.pkCol pk))

def deleteWhere (name col : String) (v : Value) : Service Unit :=
  if col ∈ site.columns name then site.statement (site.erased name (site.equals name col v)) else pure ()

def getLinks (j thisCol : String) (thisId : Value) (otherCol : String) (db : Tables) : List Value :=
  ((db j).filter (site.equals j thisCol thisId)).map fun row => row otherCol

/-- `INSERT INTO j`, of one link. -/
def linked (j thisCol : String) (thisId : Value) (otherCol : String) (v : Value) (db : Tables) : Tables :=
  Function.update db j (db j ++ [rowOf [(thisCol,site.cast j thisCol thisId),(otherCol,v)]])

def unlinked (j thisCol : String) (thisId : Value) (otherCol : String) (vs : List Value) (db : Tables) : Tables :=
  Function.update db j ((db j).filter fun row => !(site.equals j thisCol thisId row && vs.contains (row otherCol)))

/-- The links that are missing are inserted, those that are not wanted deleted, in one transaction. -/
def setLinks (j thisCol : String) (thisId : Value) (otherCol : String) (otherIds : List Value) : Service Unit :=
  withState fun db =>
    let wanted := (otherIds.map (site.cast j otherCol)).dedup
    let existing := site.getLinks j thisCol thisId otherCol db
    let missing := wanted.filter fun v => !existing.contains v
    let toRemove := existing.filter fun v => !wanted.contains v
    transact site.admits .integrity <| missing.map (site.linked j thisCol thisId otherCol) ++
      if toRemove = [] then [] else [site.unlinked j thisCol thisId otherCol toRemove]

/-! ### The log, and what follows a write -/

/-- `_log`. -/
def log (t : MetaTable) (pk : Value) (action : Action) (userId : Option ℕ) (changes : List (String × Value × Value)) :
    Service Unit :=
  if t.trackAudit then
    match site.logKey pk with
    | some k => emit ⟨t.physName,k,action,userId,changes⟩
    | none => raise .integrity
  else pure ()

/-- `_fire`, which lets no error out. -/
def fired (t : MetaTable) (action : Action) (pk : Value) (old : Option Row) (userId : Option ℕ) : Service Unit := fun db =>
  ⟨(site.fire t action pk old userId db).1,(site.fire t action pk old userId db).2,.ok ()⟩

/-- `_recompute_row`. -/
def recomputeRow (t : MetaTable) (row : Row) : Service Unit :=
  if row t.pkCol = .null ∨ hasFormulas t = false then pure ()
  else withState fun db =>
    match computeValues (site.evaluate t db) (formulaFields t) row with
    | some vs => site.updateRow t (row t.pkCol) vs
    | none => raise .formula

/-- The children whose key points at a record, as `list_rows` filters them: not by an empty text. -/
def readers (child : MetaTable) (fk : String) (rid : Value) (db : Tables) : List Row :=
  ((db child.physName).filter fun row => decide (rid = .text "") || site.equals child.physName fk rid row).take maxRows

/-- The junctions of a table as the ripple reads them, a self-relation in one direction. -/
def rippleLinks (t : MetaTable) : List (String × String × String × MetaTable) :=
  site.relations.filterMap fun rel =>
    if rel.kind = .mn ∧ (rel.fromTableId = t.id ∨ rel.toTableId = t.id) then
      match site.table rel.fromTableId, site.table rel.toTableId,
        site.table (if rel.fromTableId = t.id then rel.toTableId else rel.fromTableId) with
      | some a, some b, some other =>
        let this := t.physName ++ "_id"
        some (junctionName a.physName b.physName,this,
          if this = other.physName ++ "_id" then other.physName ++ "_id_2" else other.physName ++ "_id",other)
      | _, _, _ => none
    else none

/-- `recompute_related`: the parents that a record points at, its children and its peers. -/
def recomputeRelated (t : MetaTable) (row : Row) : Service Unit := do
  forM t.fields fun f =>
    if f.dataType = .relation ∧ (row f.physName).truthy = true then
      match f.relatedTableId.bind site.table with
      | some parent => if hasFormulas parent then withState fun db =>
          match site.getRow parent (row f.physName) db with
          | some prow => site.recomputeRow parent prow
          | none => pure ()
        else pure ()
      | none => pure ()
    else pure ()
  if row t.pkCol = .null then pure () else do
    forM (site.incomingM1 t) fun (child,fk,_) =>
      if hasFormulas child then withState fun db =>
        forM (site.readers child fk (row t.pkCol) db) (site.recomputeRow child)
      else pure ()
    forM (site.rippleLinks t) fun (j,this,that,other) =>
      if hasFormulas other then withState fun db =>
        forM (site.getLinks j this (row t.pkCol) that db) fun oid => withState fun db' =>
          match site.getRow other oid db' with
          | some orow => site.recomputeRow other orow
          | none => pure ()
      else pure ()

/-- `_ripple`. -/
def ripple (t : MetaTable) (row : Row) : Service Unit := attempt (site.recomputeRelated t row)

/-! ### record_service -/

/-- `{**old, **values}`, with the key by default. -/
def context (t : MetaTable) (old : Option Row) (pk : Value) (values : Values) : Row :=
  match old with
  | some row => row.write values
  | none => rowOf (Values.update [(t.pkCol,pk)] values)

/-- The submitted values with the computed ones. -/
def withFormulas (t : MetaTable) (values : Values) (row : Row) (db : Tables) : Values :=
  if hasFormulas t then values.update (computeSelf (site.evaluate t db) t row) else values

/-- `now` and `user_id` in the managed columns. -/
def stamped (t : MetaTable) (values stamp : Values) : Values := if hasAuditCols t then values.update stamp else values

/-- `{k: [None, v] for k, v in values.items() if k not in _MANAGED}`. -/
def createChanges (values : Values) : List (String × Value × Value) :=
  ((Keyed.distinct Prod.fst values).filter fun p => decide (p.1 ∉ managed)).map fun p => (p.1,.null,p.2)

/-- `{k: [old.get(k), v] for k, v in values.items() if old.get(k) != v}`. -/
def updateChanges (old : Option Row) (values : Values) : List (String × Value × Value) :=
  let before := old.getD fun _ => .null
  ((Keyed.distinct Prod.fst values).filter fun p => decide (before p.1 ≠ p.2)).map fun p => (p.1,before p.1,p.2)

/-- `create`, of values with their defaults. -/
def create (t : MetaTable) (values : Values) (generated : Value) (userId : Option ℕ) (now : ℤ) : Service Value :=
  withState fun db => do
    let vs := stamped t (site.withFormulas t values (rowOf values) db) (createStamp userId now)
    let pk ← site.insertRow t vs generated
    site.log t pk .create userId (createChanges vs)
    site.fired t .create pk none userId
    site.ripple t ((rowOf vs).write [(t.pkCol,pk)])
    pure pk

/-- `old` is read, and is not `None`. -/
def readsOld (t : MetaTable) (values : Values) : Bool :=
  t.trackAudit || site.hasTriggers t || hasFormulas t ||
    t.fields.any fun f => decide (f.dataType = .user) && (values.lookup f.physName).isSome

/-- What an update hands to `update_row`. -/
def written (t : MetaTable) (pk : Value) (values : Values) (userId : Option ℕ) (now : ℤ) (db : Tables) : Values :=
  stamped t (site.withFormulas t values (context t (site.getRow t pk db) pk values) db) (auditStamp userId now)

/-- `update`; without a row and `old` its last statement raises. -/
def update (t : MetaTable) (pk : Value) (values : Values) (userId : Option ℕ) (now : ℤ) : Service Unit :=
  withState fun db => do
    let old := site.getRow t pk db
    let computed := site.withFormulas t values (context t old pk values) db
    let vs := site.written t pk values userId now db
    site.updateRow t pk vs
    site.log t pk .update userId (updateChanges old computed)
    site.fired t .update pk (if site.readsOld t values then old else none) userId
    withState fun db' =>
      match site.getRow t pk db' with
      | some row => site.ripple t row
      | none => if site.readsOld t values then site.ripple t (((old.getD fun _ => .null).write vs).write [(t.pkCol,pk)])
        else raise (.python .typeError)

/-- A record on its way to the trash loses its links, and the records that refer to it lose the reference or go. -/
def unlink (pk : Value) : MetaRelation × String × String × String × MetaTable → Service Unit
  | (_,j,this,_,_) => site.deleteWhere j this pk

def dissociate (pk : Value) : MetaTable × String × MetaRelation → Service Unit
  | (child,fk,_) => if site.nullable child.physName fk then site.clearFk child.physName fk pk
    else site.deleteWhere child.physName fk pk

/-- `remove`: to the trash, or else deleted. -/
def remove (t : MetaTable) (pk : Value) (userId : Option ℕ) (now : ℤ) : Service Unit :=
  withState fun db => do
    let old := site.getRow t pk db
    (if t.softDelete then do
      forM (site.mnLinks t) (site.unlink pk)
      forM (site.incomingM1 t) (site.dissociate pk)
      site.updateRow t pk (deleteStamp userId now)
    else site.deleteRow t pk)
    site.log t pk .delete userId []
    site.fired t .delete pk old userId
    match old with
    | some row => site.ripple t row
    | none => pure ()

def restore (t : MetaTable) (pk : Value) (userId : Option ℕ) : Service Unit := do
  site.updateRow t pk [("deleted_at",.null),("deleted_by",.null)]
  site.log t pk .restore userId []

end Site

end Database
end Biggy
