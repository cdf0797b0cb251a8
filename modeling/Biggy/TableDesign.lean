import Biggy.Ddl
import Biggy.Relations
import Biggy.SchemaInference

/-!
# Designing tables

The designer keeps a description of every table in the metadata and changes the table itself by statements on the database it
lies in. The two are not written together: a statement may be refused, and so may the commit of the metadata behind it.
-/
namespace Biggy
namespace TableDesign

open Ddl SchemaInference Relations

/-! ### Rows -/

inductive ColumnType
  | string (length : ℤ) | text | integer | bigInteger | numeric (precision scale : ℤ) | float | boolean | date | dateTime | time
  | enum (options : List String)
  deriving DecidableEq

structure TableRow where
  id : ℕ
  physName : String
  label : String
  managed : Bool := true
  sourceId : Option ℕ := none
  pkCol : String := "id"
  trackAudit : Bool := false
  softDelete : Bool := false
  rowOwned : Bool := false

structure FieldRow extends MetaField where
  tableId : ℕ
  length : Option ℤ := none
  precision : Option ℤ := none
  scale : Option ℤ := none
  isUnique : Bool := false
  formula : Option String := none
  resultType : Option String := none

structure RelationRow where
  id : ℕ
  name : String
  kind : RelationKind
  fromTableId : ℕ
  toTableId : ℕ
  fromFieldId : Option ℕ := none
  junctionPhysName : Option String := none

/-- The metadata with their primary keys and unique columns. -/
structure Design where
  tables : List TableRow
  fields : List FieldRow
  relations : List RelationRow
  tableIds : (tables.map TableRow.id).Nodup
  tableNames : (tables.map TableRow.physName).Nodup
  fieldIds : (fields.map fun f => f.id).Nodup
  fieldNames : (fields.map fun f => (f.tableId,f.physName)).Nodup
  relationIds : (relations.map RelationRow.id).Nodup

/-- The metadata and the databases of the tables. -/
structure State where
  design : Design
  dbs : ℕ → Database ColumnType

/-- `engine` gives the database of a data source, and the home database where there is none; `transactional` says that a
database takes back the statements of a transaction that fails; `formulaError` is `formula.validate`, and `title` is
`str.title`. -/
structure Env where
  lib : SchemaInference.Lib
  engine : Option ℕ → ℕ
  transactional : ℕ → Bool
  formulaError : List String → List String → List String → String → Bool
  title : String → String

/-- What the databases answer to a request: to its statements one after the other, to the commit, and the ids they give. -/
structure Answers where
  ddl : ℕ → Bool
  commit : Bool
  tableId : ℕ → ℕ
  fieldId : ℕ → ℕ
  relationId : ℕ → ℕ

/-! ### The metadata -/

namespace Design

variable (d : Design)

/-- `session.get(MetaTable, id)`. -/
def table (id : ℕ) : Option TableRow := Keyed.find TableRow.id id d.tables

/-- `session.get(MetaField, id)`. -/
def field (id : ℕ) : Option FieldRow := Keyed.find (fun f : FieldRow => f.id) id d.fields

/-- `session.get(MetaRelation, id)`. -/
def relation (id : ℕ) : Option RelationRow := Keyed.find RelationRow.id id d.relations

/-- `mt.fields`. -/
def fieldsOf (tableId : ℕ) : List FieldRow := d.fields.filter fun f => f.tableId = tableId

def names (tableId : ℕ) : List String := (d.fieldsOf tableId).map fun f => f.physName

theorem nodup_append {α β : Type} {key : α → β} [DecidableEq β] {xs : List α} {x : α} (h : (xs.map key).Nodup)
    (hx : ∀ y ∈ xs, key y ≠ key x) : ((xs++[x]).map key).Nodup := by
  rw [List.map_append,List.nodup_append]
  refine ⟨h,List.nodup_singleton _,fun a ha b hb => ?_⟩
  obtain ⟨y,hy,rfl⟩ := List.mem_map.mp ha
  rw [List.mem_singleton.mp hb]
  exact hx y hy

/-- `session.add` of a table. -/
def insertTable (mt : TableRow) : Option Design :=
  if h : ∀ t ∈ d.tables, t.id ≠ mt.id ∧ t.physName ≠ mt.physName then
    some { d with
      tables := d.tables++[mt]
      tableIds := nodup_append d.tableIds fun t ht => (h t ht).1
      tableNames := nodup_append d.tableNames fun t ht => (h t ht).2 }
  else none

/-- `session.add` of a field. -/
def insertField (field : FieldRow) : Option Design :=
  if h : ∀ f ∈ d.fields, f.id ≠ field.id ∧ (f.tableId,f.physName) ≠ (field.tableId,field.physName) then
    some { d with
      fields := d.fields++[field]
      fieldIds := nodup_append d.fieldIds fun f hf => (h f hf).1
      fieldNames := nodup_append d.fieldNames fun f hf => (h f hf).2 }
  else none

def insertFields : List FieldRow → Design → Option Design
  | [], d => some d
  | f::fs, d => (d.insertField f).bind (insertFields fs)

/-- `session.add` of a relation. -/
def insertRelation (rel : RelationRow) : Option Design :=
  if h : ∀ r ∈ d.relations, r.id ≠ rel.id then
    some { d with relations := d.relations++[rel], relationIds := nodup_append d.relationIds h }
  else none

/-- `session.delete` of a table, which takes its fields with it. -/
def deleteTable (id : ℕ) : Design :=
  { d with
    tables := d.tables.filter fun t => t.id ≠ id
    fields := d.fields.filter fun f => f.tableId ≠ id
    tableIds := Keyed.nodup_filter _ d.tableIds
    tableNames := Keyed.nodup_filter _ d.tableNames
    fieldIds := Keyed.nodup_filter _ d.fieldIds
    fieldNames := Keyed.nodup_filter _ d.fieldNames }

/-- `session.delete` of a field. -/
def deleteField (id : ℕ) : Design :=
  { d with
    fields := d.fields.filter fun f => f.id ≠ id
    fieldIds := Keyed.nodup_filter _ d.fieldIds
    fieldNames := Keyed.nodup_filter _ d.fieldNames }

/-- `session.delete` of a relation. -/
def deleteRelation (id : ℕ) : Design :=
  { d with relations := d.relations.filter fun r => r.id ≠ id, relationIds := Keyed.nodup_filter _ d.relationIds }

/-- The flags of a table. -/
def flag (id : ℕ) (trackAudit softDelete rowOwned : Bool) (t : TableRow) : TableRow :=
  if t.id = id then { t with trackAudit := trackAudit, softDelete := softDelete, rowOwned := rowOwned } else t

theorem flag_id (id : ℕ) (a b c : Bool) (t : TableRow) : (flag id a b c t).id = t.id := by
  unfold flag
  split <;> rfl

theorem flag_physName (id : ℕ) (a b c : Bool) (t : TableRow) : (flag id a b c t).physName = t.physName := by
  unfold flag
  split <;> rfl

/-- The flags of a table are set. -/
def setFlags (id : ℕ) (trackAudit softDelete rowOwned : Bool) : Design :=
  { d with
    tables := d.tables.map (flag id trackAudit softDelete rowOwned)
    tableIds := by
      rw [Keyed.map_key_map (flag_id id trackAudit softDelete rowOwned)]
      exact d.tableIds
    tableNames := by
      rw [Keyed.map_key_map (flag_physName id trackAudit softDelete rowOwned)]
      exact d.tableNames }

/-- The row of a field is written anew. -/
def rewrite (field f : FieldRow) : FieldRow := if f.id = field.id then field else f

theorem rewrite_id (field f : FieldRow) : (rewrite field f).id = f.id := by
  unfold rewrite
  split
  · rename_i h
    exact h.symm
  · rfl

theorem rewrite_names {field : FieldRow}
    (h : ∀ f ∈ d.fields, f.id ≠ field.id → (f.tableId,f.physName) ≠ (field.tableId,field.physName)) :
    ((d.fields.map (rewrite field)).map fun f => (f.tableId,f.physName)).Nodup := by
  rw [List.map_map]
  refine List.Nodup.map_on (fun f hf g hg hsame => ?_) (List.Nodup.of_map _ d.fieldIds)
  simp only [Function.comp_apply,rewrite] at hsame
  split_ifs at hsame with hfid hgid hgid
  · exact List.inj_on_of_nodup_map d.fieldIds hf hg (hfid.trans hgid.symm)
  · exact absurd hsame.symm (h g hg hgid)
  · exact absurd hsame (h f hf hfid)
  · exact List.inj_on_of_nodup_map d.fieldNames hf hg hsame

/-- A changed field is flushed. -/
def updateField (field : FieldRow) : Option Design :=
  if h : ∀ f ∈ d.fields, f.id ≠ field.id → (f.tableId,f.physName) ≠ (field.tableId,field.physName) then
    some { d with
      fields := d.fields.map (rewrite field)
      fieldIds := by
        rw [Keyed.map_key_map (rewrite_id field)]
        exact d.fieldIds
      fieldNames := rewrite_names d h }
  else none

end Design

/-! ### The statements -/

/-- The types whose fields have no column of their own; relations get theirs apart from the others. -/
def isFile (t : DataType) : Bool := t ∈ [DataType.image,.file]

def isVirtual (t : DataType) : Bool := t ∈ [DataType.relation,.image,.file]

section Statements

variable (env : Env) (ddl : ℕ → Bool) (transactional : Bool) (db : Database ColumnType)

/-- The options of a list, where they are texts. -/
def texts : Json → Option (List String)
  | .arr items => items.mapM fun | .str s => some s | _ => none
  | _ => none

def options (f : FieldRow) : Option (List String) :=
  match env.lib.loads ((f.enumOptions.filter (· ≠ "")).getD "[]") with
  | .ok j => texts j
  | .error _ => none

/-- `length or default`. -/
def orElse (n : Option ℤ) (default : ℤ) : ℤ := (n.filter (· ≠ 0)).getD default

/-- `sa_type_for_field`. -/
def saType (f : FieldRow) : Option ColumnType :=
  match f.dataType with
  | .string | .email | .url => some (.string (orElse f.length 255))
  | .text | .markdown | .json | .tags => some .text
  | .integer | .user | .company => some .integer
  | .bigint => some .bigInteger
  | .decimal | .currency | .percent => some (.numeric (orElse f.precision 12) (f.scale.getD 2))
  | .float => some .float
  | .boolean => some .boolean
  | .date => some .date
  | .datetime => some .dateTime
  | .time => some .time
  | .enum => (options env f).map fun opts => if opts = [] then .string 255 else .enum opts
  | .phone => some (.string (orElse f.length 40))
  | .autonumber => some (.string (orElse f.length 32))
  | .formula =>
    match f.resultType with
    | some "text" => some .text
    | some "boolean" => some .boolean
    | some "date" => some .date
    | some "datetime" => some .dateTime
    | _ => some (.numeric (orElse f.precision 18) (f.scale.getD 4))
  | .image | .file | .relation => none

/-- `_scalar_column`. -/
def scalarColumn (f : FieldRow) : Option (String × ColumnType) := (saType env f).map fun type => (f.physName,type)

/-- The key column of a new table. -/
def keyColumn : Option FieldRow → Option (String × ColumnType)
  | none => some ("id",.integer)
  | some pk => scalarColumn env pk

/-- `build_data_table`. -/
def buildDataTable (physName : String) (fields : List FieldRow) (pk : Option FieldRow) : Option (Ddl.Table ColumnType) := do
  let key ← keyColumn env pk
  let columns ← (fields.filter fun f => !isVirtual f.dataType && f.physName != key.1).mapM (scalarColumn env)
  return { name := physName, key := some key.1, auto := pk.isNone, columns := key::columns, foreignKeys := []
           keyColumns := fun _ h => absurd h List.not_mem_nil }

/-- `create_physical_table`. -/
def createPhysicalTable (physName : String) (fields : List FieldRow) (pk : Option FieldRow) : Option (Database ColumnType) :=
  (buildDataTable env physName fields pk).bind (create (ddl 0) db)

/-- `add_scalar_column`: the database behind it, and whether it has come to its end. -/
def addScalarColumn (tablePhys : String) (field : FieldRow) : Database ColumnType × Bool :=
  match (saType env field).bind fun type => alter (ddl 0) db tablePhys fun t => t.add field.physName type with
  | none => (db,false)
  | some db' => (db',!field.isUnique || ddl 1)

/-- `_reflect_pk`. -/
def reflectPk (t : Ddl.Table ColumnType) : Option (String × ColumnType) :=
  (t.type (t.key.getD "id")).map fun type => (t.key.getD "id",type)

/-- `add_relation_column`. -/
def addRelationColumn (fromTable : String) (field : FieldRow) (toTable : String) : Database ColumnType × Bool :=
  match (find db toTable).bind reflectPk with
  | none => (db,false)
  | some pk =>
    match alter (ddl 0) db fromTable fun t => t.add field.physName pk.2 with
    | none => (db,false)
    | some db' =>
      match alter (ddl 1) db' fromTable fun t => t.refer field.physName toTable with
      | none => (if transactional then db else db',false)
      | some db'' => (db'',true)

/-- `drop_column`. -/
def dropColumn (tablePhys column : String) : Option (Database ColumnType) := alter (ddl 0) db tablePhys fun t => t.dropColumn column

/-- The column of a field is renamed and gets the type of the field. -/
def changeColumn (tablePhys oldName : String) (field : FieldRow) : Option (Database ColumnType) :=
  (saType env field).bind fun type => alter (ddl 0) db tablePhys fun t => t.change oldName field.physName type

/-- `modify_column`. -/
def modifyColumn (tablePhys oldName : String) (field : FieldRow) : Database ColumnType × Bool :=
  match changeColumn env ddl db tablePhys oldName field with
  | none => (db,false)
  | some db' => if !field.isUnique || ddl 1 then (db',true) else (if transactional then db else db',false)

/-- The columns that the flags of a table ask for. -/
def recordColumns (mt : TableRow) : List (String × ColumnType) :=
  (if mt.trackAudit || mt.rowOwned then
    [("created_by",.integer),("created_at",.dateTime),("updated_by",.integer),("updated_at",.dateTime)] else []) ++
  (if mt.softDelete then [("deleted_at",.dateTime),("deleted_by",.integer)] else [])

/-- `add_column_if_missing` of several columns, the next statement being the one with number `n`. -/
def addMissing (physName : String) : ℕ → List (String × ColumnType) → Database ColumnType → Database ColumnType × Bool
  | _, [], db => (db,true)
  | n, c::cs, db =>
    match find db physName with
    | none => (db,false)
    | some t =>
      if t.has c.1 then addMissing physName n cs db
      else
        match alter (ddl n) db physName fun t => t.add c.1 c.2 with
        | none => (db,false)
        | some db' => addMissing physName (n+1) cs db'

/-- `ensure_record_columns`. -/
def ensureRecordColumns (mt : TableRow) : Database ColumnType × Bool := addMissing ddl mt.physName 0 (recordColumns mt) db

/-- `create_junction_table`. -/
def createJunctionTable (jname leftTable leftCol rightTable rightCol : String) : Option (Database ColumnType) := do
  let lt ← find db leftTable
  let rt ← find db rightTable
  let left ← lt.key.bind lt.type
  let right ← rt.key.bind rt.type
  create (ddl 0) db { name := jname, key := some "id", auto := true,
                      columns := [("id",.integer),(leftCol,left),(rightCol,right)],
                      foreignKeys := [⟨[leftCol],leftTable⟩,⟨[rightCol],rightTable⟩], keyColumns := by simp }

end Statements

/-! ### Requests -/

/-- A custom key in the form of a new table; `dataType` is none of a type that has no column. -/
structure KeyInput where
  name : String
  dataType : Option DataType
  length : Option ℤ

/-- The form of a field; the type is one of those that may be chosen. -/
structure FieldInput where
  physName : String
  label : String
  dataType : DataType
  length : Option ℤ
  precision : Option ℤ
  scale : Option ℤ
  enumOptions : String
  defaultValue : String
  formula : String
  resultType : String
  nullable : Bool
  isUnique : Bool
  minLength : Option ℤ
  maxLength : Option ℤ
  minValue : String
  maxValue : String
  pattern : String

/-- A column of a file as it has been reviewed. -/
structure CsvColumn where
  name : String
  label : String
  dataType : DataType
  length : Option ℤ

section Requests

variable (env : Env) (a : Answers) (s : State)

/-- The commit of the metadata behind the statements on one database. -/
def State.commit (d : Design) (n : ℕ) (db : Database ColumnType) : State :=
  ⟨if a.commit then d else s.design,Function.update s.dbs n db⟩

/-- A roll back of the metadata, which leaves the statements. -/
def State.rollback (n : ℕ) (db : Database ColumnType) : State := ⟨s.design,Function.update s.dbs n db⟩

/-- What is left of a request whose statements have come to their end or not. -/
def State.finish (d : Design) (n : ℕ) (r : Database ColumnType × Bool) : State :=
  if r.2 then s.commit a d n r.1 else s.rollback n r.1

/-- `validate_identifier`, of a name of the form. -/
def validName (name : String) : Option String := (validateIdentifier env.lib name).toOption

/-- The database that a table lies in. -/
def engineOf (mt : TableRow) : ℕ := env.engine mt.sourceId

/-- A name is in the metadata or in the database. -/
def taken (n : ℕ) (physName : String) : Bool :=
  decide (physName ∈ s.design.tables.map TableRow.physName) || hasTable (s.dbs n) physName

/-- The field of a custom key. -/
def keyField (tableId : ℕ) (key : KeyInput) : Option FieldRow :=
  (validName env key.name).map fun name =>
    { id := a.fieldId 0, tableId := tableId, physName := name, label := env.title (if key.name = "" then name else key.name)
      dataType := key.dataType.getD .string, length := if key.dataType = some .string then key.length else none
      nullable := false, isUnique := true }

def newKey (tableId : ℕ) : Option KeyInput → Option (Option FieldRow)
  | none => some none
  | some key => (keyField env a tableId key).map some

/-- `table_new`. -/
def tableNew (source : Option ℕ) (name label : String) (key : Option KeyInput) : Option State := do
  let phys ← validName env name
  if taken s (env.engine source) phys then none
  else
    let pk ← newKey env a (a.tableId 0) key
    let mt : TableRow :=
      { id := a.tableId 0, physName := phys, label := label, sourceId := source, pkCol := (pk.map fun f => f.physName).getD "id" }
    let d ← s.design.insertTable mt
    let d ← Design.insertFields pk.toList d
    let db ← createPhysicalTable env a.ddl (s.dbs (env.engine source)) phys [] pk
    return s.commit a d (env.engine source) db

/-- `table_flags`. -/
def tableFlags (tableId : ℕ) (trackAudit softDelete rowOwned : Bool) : Option State := do
  let mt ← s.design.table tableId
  let flagged := Design.flag tableId trackAudit softDelete rowOwned mt
  return s.finish a (s.design.setFlags tableId trackAudit softDelete rowOwned) (engineOf env mt)
    (ensureRecordColumns a.ddl (s.dbs (engineOf env mt)) flagged)

/-- `table_delete`. -/
def tableDelete (tableId : ℕ) : Option State := do
  let mt ← s.design.table tableId
  if s.design.relations.any fun r => r.fromTableId = tableId || r.toTableId = tableId then none
  else if !a.commit then none
  else
    let d := s.design.deleteTable tableId
    return if mt.managed then ⟨d,Function.update s.dbs (engineOf env mt)
        ((drop (a.ddl 0) (s.dbs (engineOf env mt)) mt.physName).getD (s.dbs (engineOf env mt)))⟩
      else ⟨d,s.dbs⟩

/-- The options of the form, as they are stored. -/
def optionsJson (t : DataType) (text : String) : Option (Option String) :=
  if t ∈ [DataType.enum,.tags] then
    let opts := ((splitlines text).map strip).filter fun line => line ≠ ""
    if opts = [] then none else some (some (env.lib.dumps (.arr (opts.map .str))))
  else some none

/-- `_formula_error`. -/
def formulaError (mt : TableRow) (expr : String) (exclude : Option ℕ) : Bool :=
  let fields := s.design.fieldsOf mt.id
  env.formulaError ("id"::(fields.filter fun f => !isFile f.dataType && decide (some f.id ≠ exclude)).map fun f => f.physName)
    ((fields.filter fun f => f.dataType = .relation).map fun f => f.physName)
    ((s.design.relations.filter fun r => r.fromTableId = mt.id || r.toTableId = mt.id).map RelationRow.name) expr

def orNone (text : String) : Option String := if text = "" then none else some text

/-- What a form writes into the row of a field. -/
def fill (form : FieldInput) (physName : String) (enumOptions : Option String) (f : FieldRow) : FieldRow :=
  { f with
    physName := physName, label := form.label, length := form.length, precision := form.precision, scale := form.scale
    nullable := form.nullable, isUnique := form.isUnique, defaultValue := orNone form.defaultValue, enumOptions := enumOptions
    formula := if f.dataType = .formula then some (strip form.formula) else f.formula
    resultType := if f.dataType = .formula then some (if form.resultType = "" then "number" else form.resultType) else f.resultType
    minLength := form.minLength, maxLength := form.maxLength, minValue := orNone form.minValue
    maxValue := orNone form.maxValue, pattern := orNone form.pattern }

/-- A name that no field of a table may have, or that a field other than `except` has. -/
def nameTaken (tableId : ℕ) (physName : String) (except : Option ℕ) : Bool :=
  decide (physName ∈ reservedColumns) ||
    (s.design.fieldsOf tableId).any fun f => decide (f.physName = physName ∧ some f.id ≠ except)

/-- `field_add`. -/
def fieldAdd (tableId : ℕ) (form : FieldInput) : Option State := do
  let mt ← s.design.table tableId
  let phys ← validName env form.physName
  let enumJson ← optionsJson env form.dataType form.enumOptions
  if !mt.managed || decide (form.dataType = .relation) || nameTaken s tableId phys none ||
      decide (form.dataType = .formula) && formulaError env s mt (strip form.formula) none then none
  else
    let field := fill form phys enumJson
      { id := a.fieldId 0, tableId := tableId, physName := phys, label := form.label, dataType := form.dataType }
    let d ← s.design.insertField field
    if isFile form.dataType then return s.commit a d (engineOf env mt) (s.dbs (engineOf env mt))
    else return s.finish a d (engineOf env mt) (addScalarColumn env a.ddl (s.dbs (engineOf env mt)) mt.physName field)

/-- `field_edit`, up to the statement: the table, the field before and after, and the metadata with the new row. -/
def editOf (tableId fieldId : ℕ) (form : FieldInput) : Option (TableRow × FieldRow × FieldRow × Design) := do
  let mt ← s.design.table tableId
  let field ← s.design.field fieldId
  if decide (field.tableId ≠ tableId) || !mt.managed || decide (field.dataType = .relation) then none
  else
    let phys ← validName env form.physName
    let enumJson ← optionsJson env field.dataType form.enumOptions
    if nameTaken s tableId phys (some fieldId) ||
        decide (field.dataType = .formula) && formulaError env s mt (strip form.formula) (some fieldId) then none
    else
      let edited := fill form phys (if field.dataType ∈ [DataType.enum,.tags] then enumJson else field.enumOptions) field
      let d ← s.design.updateField edited
      return (mt,field,edited,d)

/-- `field_edit`. -/
def fieldEdit (tableId fieldId : ℕ) (form : FieldInput) : Option State := do
  let (mt,field,edited,d) ← editOf env s tableId fieldId form
  if isFile field.dataType then return s.commit a d (engineOf env mt) (s.dbs (engineOf env mt))
  else return s.finish a d (engineOf env mt) (modifyColumn env a.ddl (env.transactional (engineOf env mt))
    (s.dbs (engineOf env mt)) mt.physName field.physName edited)

/-- `session.delete` of a field and of the relation that starts at it. -/
def withoutField (fieldId : ℕ) : Design :=
  ((s.design.relations.find? fun r => r.fromFieldId = some fieldId).elim s.design fun r => s.design.deleteRelation r.id).deleteField fieldId

/-- `field_delete`. -/
def fieldDelete (tableId fieldId : ℕ) : Option State := do
  let field ← s.design.field fieldId
  let mt ← s.design.table tableId
  if !mt.managed then none
  else if isFile field.dataType then return s.commit a (withoutField s fieldId) (engineOf env mt) (s.dbs (engineOf env mt))
  else
    let db ← dropColumn a.ddl (s.dbs (engineOf env mt)) mt.physName field.physName
    return s.commit a (withoutField s fieldId) (engineOf env mt) db

/-- The copies of the fields of a table, from the one with number `n` on. -/
def copies (a : Answers) (tableId : ℕ) : ℕ → List FieldRow → List FieldRow
  | _, [] => []
  | n, f::fs => { f with id := a.fieldId n, tableId := tableId, relatedTableId := none }::copies a tableId (n+1) fs

/-- `table_duplicate`, up to the statement: the table, its copy with its fields, and the metadata with both. -/
def duplicateOf (tableId : ℕ) (name label : String) : Option (TableRow × TableRow × List FieldRow × Design) := do
  let src ← s.design.table tableId
  let phys ← validName env name
  if !src.managed || taken s (engineOf env src) phys then none
  else
    let mt : TableRow := { src with
      id := a.tableId 0, physName := phys, managed := true
      label := if strip label = "" then src.label++" (copy)" else strip label }
    let d ← s.design.insertTable mt
    let fields := copies a (a.tableId 0) 0 ((s.design.fieldsOf tableId).filter fun f => f.dataType ≠ .relation)
    let d ← Design.insertFields fields d
    return (src,mt,fields,d)

/-- The field that becomes the key of a copy. -/
def isKey (src : TableRow) (f : FieldRow) : Bool := src.pkCol != "id" && f.physName == src.pkCol

/-- The table of a copy. -/
def createCopy (src mt : TableRow) (fields : List FieldRow) : Option (Database ColumnType) :=
  createPhysicalTable env a.ddl (s.dbs (engineOf env src)) mt.physName (fields.filter fun f => !isKey src f)
    (fields.find? (isKey src))

/-- `table_duplicate`. -/
def tableDuplicate (tableId : ℕ) (name label : String) : Option State := do
  let (src,mt,fields,d) ← duplicateOf env a s tableId name label
  let db ← createCopy env a s src mt fields
  return s.commit a d (engineOf env src) db

/-- `CSV_TYPE_CHOICES`. -/
def csvTypes : List DataType :=
  [.string,.text,.integer,.bigint,.decimal,.float,.boolean,.date,.datetime,.email,.url,.phone]

def csvType (t : DataType) : DataType := if t ∈ csvTypes then t else .string

/-- The fields of a file, from the one with number `n` on. -/
def csvFields (tableId : ℕ) : ℕ → List String → List CsvColumn → Option (List FieldRow)
  | _, _, [] => some []
  | n, seen, c::cs => do
    let name ← validName env c.name
    if name ∈ reservedColumns ∨ name ∈ seen then none
    else
      let dtype := csvType c.dataType
      let field : FieldRow :=
        { id := a.fieldId n, tableId := tableId, physName := name, label := if strip c.label = "" then name else strip c.label
          dataType := dtype, length := if dtype = .string then c.length else none
          precision := if dtype = .decimal then some 12 else none, scale := if dtype = .decimal then some 2 else none }
      let fields ← csvFields tableId (n+1) (name::seen) cs
      return field::fields

/-- `table_from_csv`, up to the import of the rows. -/
def tableFromCsv (name label : String) (columns : List CsvColumn) : Option State := do
  let phys ← validName env name
  if taken s (env.engine none) phys then none
  else
    let fields ← csvFields env a (a.tableId 0) 0 [] columns
    if fields = [] then none
    else
      let mt : TableRow := { id := a.tableId 0, physName := phys, label := if label = "" then "Imported data" else label }
      let d ← s.design.insertTable mt
      let d ← Design.insertFields fields d
      let db ← createPhysicalTable env a.ddl (s.dbs (env.engine none)) phys fields none
      return s.commit a d (env.engine none) db

/-- `relation_new_m1`. -/
def relationNewM1 (fromId toId : ℕ) (name column : String) (nullable : Bool) : Option State := do
  let fromT ← s.design.table fromId
  let toT ← s.design.table toId
  let col ← validName env column
  if decide (fromT.sourceId ≠ toT.sourceId) || !fromT.managed || nameTaken s fromId col none then none
  else
    let field : FieldRow :=
      { id := a.fieldId 0, tableId := fromId, physName := col, label := name, dataType := .relation, relatedTableId := some toId
        nullable := nullable }
    let d ← s.design.insertField field
    let r := addRelationColumn a.ddl (env.transactional (engineOf env fromT)) (s.dbs (engineOf env fromT)) fromT.physName
      field toT.physName
    if r.2 then
      let d ← d.insertRelation
        { id := a.relationId 0, name := name, kind := .m1, fromTableId := fromId, toTableId := toId, fromFieldId := some field.id }
      return s.commit a d (engineOf env fromT) r.1
    else return s.rollback (engineOf env fromT) r.1

/-- `relation_new_mn`. -/
def relationNewMn (fromId toId : ℕ) (name : String) : Option State := do
  let left ← s.design.table fromId
  let right ← s.design.table toId
  let jname := junctionName left.physName right.physName
  if decide (left.sourceId ≠ right.sourceId) || hasTable (s.dbs (engineOf env left)) jname then none
  else
    let leftCol := left.physName++"_id"
    let rightCol := if right.physName++"_id" = leftCol then right.physName++"_id_2" else right.physName++"_id"
    let db ← createJunctionTable a.ddl (s.dbs (engineOf env left)) jname left.physName leftCol right.physName rightCol
    let d ← s.design.insertRelation
      { id := a.relationId 0, name := name, kind := .mn, fromTableId := fromId, toTableId := toId, junctionPhysName := some jname }
    return s.commit a d (engineOf env left) db

/-- `relation_delete`. -/
def relationDelete (relationId : ℕ) : Option State := do
  let rel ← s.design.relation relationId
  let d := s.design.deleteRelation relationId
  match rel.kind, rel.fromFieldId.bind s.design.field, rel.junctionPhysName with
  | .m1, some field, _ =>
    match (s.design.table field.tableId).filter fun t => t.managed with
    | none => return ⟨if a.commit then d.deleteField field.id else s.design,s.dbs⟩
    | some fromT =>
      let db ← dropColumn a.ddl (s.dbs (engineOf env fromT)) fromT.physName field.physName
      return s.commit a (d.deleteField field.id) (engineOf env fromT) db
  | .mn, _, some jname =>
    let n := env.engine ((s.design.table rel.fromTableId).bind fun t => t.sourceId)
    let db ← drop (a.ddl 0) (s.dbs n) jname
    return s.commit a d n db
  | _, _, _ => return ⟨if a.commit then d else s.design,s.dbs⟩

/-! ### Adopting tables -/

/-- The metadata while tables are adopted, with the numbers of the rows that are new. -/
structure Progress where
  design : Design
  tables : ℕ := 0
  fields : ℕ := 0
  relations : ℕ := 0

/-- `name.replace("_", " ").title()`. -/
def titled (name : String) : String := env.title (String.ofList (name.toList.map fun c => if c = '_' then ' ' else c))

/-- `field_attrs_for`. -/
def attrsFor (type : ColumnType) (f : FieldRow) : FieldRow :=
  match type with
  | .boolean => { f with dataType := .boolean }
  | .enum opts => { f with dataType := .enum, enumOptions := if opts = [] then none else some (env.lib.dumps (.arr (opts.map .str))) }
  | .dateTime => { f with dataType := .datetime }
  | .date => { f with dataType := .date }
  | .time => { f with dataType := .time }
  | .bigInteger => { f with dataType := .bigint }
  | .integer => { f with dataType := .integer }
  | .float => { f with dataType := .float }
  | .numeric precision scale => { f with dataType := .decimal, precision := some precision, scale := some scale }
  | .text => { f with dataType := .text }
  | .string length => { f with dataType := .string, length := some length }

/-- The key of a table that the database numbers; `_pk_info`. -/
def autoKey (t : Ddl.Table ColumnType) (key : String) : Bool :=
  (t.type key == some .integer || t.type key == some .bigInteger) && (t.auto || key == "id")

/-- The columns of a table that become fields. -/
def adoptable (t : Ddl.Table ColumnType) (key : String) : List (String × ColumnType) :=
  t.columns.filter fun c => !(t.foreignKeys.any fun fk => c.1 ∈ fk.columns) && !(c.1 == key && autoKey t key) &&
    (validName env c.1).isSome

def adoptedFields (tableId : ℕ) (key : String) : ℕ → List (String × ColumnType) → List FieldRow
  | _, [] => []
  | n, c::cs =>
    attrsFor env c.2 { id := a.fieldId n, tableId := tableId, physName := c.1, label := titled env c.1, dataType := .string
                       isUnique := c.1 == key, nullable := c.1 != key }::adoptedFields tableId key (n+1) cs

/-- `adopt_table`. -/
def adoptTable (source : Option ℕ) (p : Progress) (phys : String) : Option Progress := do
  let t ← find (s.dbs (env.engine source)) phys
  match t.key with
  | none => return p
  | some key =>
    if phys ∈ p.design.tables.map TableRow.physName then return p
    else
      let mt : TableRow :=
        { id := a.tableId p.tables, physName := phys, label := titled env phys, managed := false, sourceId := source, pkCol := key }
      let d ← p.design.insertTable mt
      let fields := adoptedFields env a mt.id key p.fields (adoptable env t key)
      let d ← Design.insertFields fields d
      return ⟨d,p.tables+1,p.fields+fields.length,p.relations⟩

/-- One turn of the loop in `adopt_relations`. -/
def adoptRelation (external : List TableRow) (p : Progress) (mt : TableRow) (fk : ForeignKey) : Option Progress :=
  match fk.columns, external.find? fun t => t.physName = fk.target with
  | [column], some target =>
    if column ∈ p.design.names mt.id ∨ validName env column = none then some p
    else do
      let field : FieldRow :=
        { id := a.fieldId p.fields, tableId := mt.id, physName := column, label := titled env column, dataType := .relation
          relatedTableId := some target.id }
      let d ← p.design.insertField field
      let d ← d.insertRelation
        { id := a.relationId p.relations, name := mt.physName++"."++column, kind := .m1, fromTableId := mt.id
          toTableId := target.id, fromFieldId := some field.id }
      return ⟨d,p.tables,p.fields+1,p.relations+1⟩
  | _, _ => some p

/-- The inner loop of `adopt_relations`. -/
def adoptKeys (external : List TableRow) (source : Option ℕ) (p : Progress) (mt : TableRow) : Option Progress := do
  let t ← find (s.dbs (env.engine source)) mt.physName
  t.foreignKeys.foldlM (fun p fk => adoptRelation env a external p mt fk) p

/-- `adopt_relations`. -/
def adoptRelations (source : Option ℕ) (p : Progress) : Option Progress :=
  let external := p.design.tables.filter fun t => !t.managed && t.sourceId == source
  external.foldlM (adoptKeys env a s external source) p

/-- `adopt_run`. -/
def adoptRun (source : Option ℕ) (names : List String) (withRelations : Bool) : Option State := do
  let p ← names.foldlM (adoptTable env a s source) ⟨s.design,0,0,0⟩
  let p ← (if withRelations then adoptRelations env a s source p else some p)
  return ⟨if a.commit then p.design else s.design,s.dbs⟩

end Requests

/-! ### Runs -/

inductive Action
  | tableNew (source : Option ℕ) (name label : String) (key : Option KeyInput)
  | tableFlags (tableId : ℕ) (trackAudit softDelete rowOwned : Bool)
  | tableDelete (tableId : ℕ)
  | tableDuplicate (tableId : ℕ) (name label : String)
  | tableFromCsv (name label : String) (columns : List CsvColumn)
  | fieldAdd (tableId : ℕ) (form : FieldInput)
  | fieldEdit (tableId fieldId : ℕ) (form : FieldInput)
  | fieldDelete (tableId fieldId : ℕ)
  | relationNewM1 (fromId toId : ℕ) (name column : String) (nullable : Bool)
  | relationNewMn (fromId toId : ℕ) (name : String)
  | relationDelete (relationId : ℕ)
  | adoptRun (source : Option ℕ) (names : List String) (withRelations : Bool)

structure Input where
  action : Action
  answers : Answers

/-- What a request makes of the state, unless it is refused. -/
def perform (env : Env) (s : State) (i : Input) : Option State :=
  match i.action with
  | .tableNew source name label key => tableNew env i.answers s source name label key
  | .tableFlags tableId trackAudit softDelete rowOwned => tableFlags env i.answers s tableId trackAudit softDelete rowOwned
  | .tableDelete tableId => tableDelete env i.answers s tableId
  | .tableDuplicate tableId name label => tableDuplicate env i.answers s tableId name label
  | .tableFromCsv name label columns => tableFromCsv env i.answers s name label columns
  | .fieldAdd tableId form => fieldAdd env i.answers s tableId form
  | .fieldEdit tableId fieldId form => fieldEdit env i.answers s tableId fieldId form
  | .fieldDelete tableId fieldId => fieldDelete env i.answers s tableId fieldId
  | .relationNewM1 fromId toId name column nullable => relationNewM1 env i.answers s fromId toId name column nullable
  | .relationNewMn fromId toId name => relationNewMn env i.answers s fromId toId name
  | .relationDelete relationId => relationDelete env i.answers s relationId
  | .adoptRun source names withRelations => adoptRun env i.answers s source names withRelations

def step (env : Env) (s : State) (i : Input) : State := (perform env s i).getD s

end TableDesign
end Biggy
