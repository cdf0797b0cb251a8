import Biggy.FormulaReads
import Biggy.Related
import Biggy.Relations
import Biggy.RenamedRules

/-!
# Renaming a field

`field_edit` gives a field and its column a new name. The rules of forms and the formulas keep theirs: a rule that names
the field, a formula that names its column, and a lookup or rollup that asks for it find nothing afterwards.
-/
namespace Biggy
namespace FieldRename

open Formula FormRules Relations
open Related (columnName opName)

/-! ### Formulas over the tables -/

/-- The metadata and the rows, with the formula columns of a table in the order of their positions. `equals` compares a
cell with a value and `le` two keys, `links` is what the junction of a relation between two tables holds for a record, and
`aggregate` and `aggValues` are what SQL and Python make of cells. -/
structure Catalog extends Schema where
  formulas : ℕ → List FormulaField
  columns : String → List String
  rows : String → List Row
  equals : String → String → Value → Value → Bool
  le : String → Value → Value → Bool
  links : MetaRelation → String → String → Value → List Value
  aggregate : String → String → String → List Value → Val
  aggValues : List Value → String → Val
  tableIds : (tables.map MetaTable.id).Nodup
  tableNames : (tables.map MetaTable.physName).Nodup
  fieldIds : ((tables.flatMap MetaTable.fields).map MetaField.id).Nodup
  fkField : ∀ rel ∈ relations, rel.kind = .m1 → ∀ child fkf, toSchema.table rel.fromTableId = some child →
    rel.fromFieldId.bind toSchema.field = some fkf → fkf ∈ child.fields ∧ fkf.dataType = .relation

namespace Catalog

variable (C : Catalog)

/-- `row.get(col)`, of a row as a dict. -/
def cell (t : MetaTable) (row : Row) (col : String) : Value := if col ∈ C.columns t.physName then row col else .null

def getRow (t : MetaTable) (pk : Value) : Option Row :=
  (C.rows t.physName).find? fun row => C.equals t.physName t.pkCol (C.cell t row t.pkCol) pk

/-- `aggregate_value`. -/
def aggregateValue (t : MetaTable) (op col whereCol : String) (whereVal : Value) : Val :=
  let rows := (C.rows t.physName).filter fun row => decide (whereCol = "" ∨ whereCol ∉ C.columns t.physName) ||
    C.equals t.physName whereCol (C.cell t row whereCol) whereVal
  let cells := rows.map fun row => C.cell t row col
  if op = "count" then
    if col ∈ C.columns t.physName then .int (cells.filter fun v => decide (v ≠ .null)).length else .int cells.length
  else if op ∈ ["sum","avg","min","max"] ∧ col ∈ C.columns t.physName then C.aggregate t.physName col op cells
  else .null

/-- `rows_by_ids`. -/
def rowsByIds (t : MetaTable) (ids : List Value) : List Row :=
  ((C.rows t.physName).filter fun row => ids.any fun id => C.equals t.physName t.pkCol (C.cell t row t.pkCol) id).mergeSort
    fun a b => C.le t.physName (C.cell t a t.pkCol) (C.cell t b t.pkCol)

/-- The table that a lookup goes to. -/
def lookupTable (t : MetaTable) : Val → Option MetaTable
  | .val (.text name) => ((t.fields.find? fun f => decide (f.physName = name ∧ f.dataType = .relation)).bind
      MetaField.relatedTableId).bind C.table
  | _ => none

/-- `Resolver.lookup`. -/
def lookup (t : MetaTable) (row : String → Val) (relField field : Val) : Val :=
  match C.lookupTable t relField, row (columnName relField) with
  | some parent, .val fk =>
    if fk = .null ∨ fk = .text "" ∨ columnName field = "" then .null
    else match C.getRow parent fk with
      | some prow => .val (C.cell parent prow (columnName field))
      | none => .null
  | _, _ => .null

/-- The relation of a rollup and the table that it goes to. -/
def rollupTable (t : MetaTable) : Val → Option (MetaRelation × MetaTable)
  | .val (.text name) =>
    match if name = "" then none else C.relations.find? fun rel => decide (rel.name = name) with
    | none => none
    | some rel =>
      if rel.kind = .m1 ∧ rel.toTableId = t.id then (C.table rel.fromTableId).map fun child => (rel,child)
      else if rel.kind = .mn then
        (C.table (if rel.fromTableId = t.id then rel.toTableId else rel.fromTableId)).map fun other => (rel,other)
      else none
  | _ => none

/-- What a rollup over a relation is. -/
def rolled (t : MetaTable) (rel : MetaRelation) (other : MetaTable) (pk : Value) (field op : String) : Val :=
  match rel.kind with
  | .m1 => match rel.fromFieldId.bind C.field with
    | some fkf => C.aggregateValue other op field fkf.physName pk
    | none => Related.Design.zero op
  | .mn =>
    let ids := C.links rel t.physName other.physName pk
    if op = "count" then .int ids.length else C.aggValues ((C.rowsByIds other ids).map fun row => C.cell other row field) op

section Formulas

variable {ω : Type*} (lib : FormulaLib ω)

/-- `Resolver.rollup`. -/
def rollup (t : MetaTable) (row : String → Val) (rel field op : Val) : Val :=
  match C.rollupTable t rel, row t.pkCol with
  | some (rel,other), .val pk =>
    if pk = .null ∨ pk = .text "" then Related.Design.zero (opName lib op)
    else C.rolled t rel other pk (columnName field) (opName lib op)
  | _, _ => Related.Design.zero (opName lib op)

def resolver (t : MetaTable) (row : String → Val) : Resolver := ⟨C.lookup t row,C.rollup lib t row⟩

/-- `compute_values`, of a stored row. -/
def computed (t : MetaTable) (row : Row) : Traced Formula.Operation PyError (List (String × Val)) :=
  computeValues lib (C.resolver lib t) (fun c => .val (C.cell t row c)) (C.formulas t.id)

end Formulas

/-- The table and the column that a lookup or rollup asks for. -/
def asks (t : MetaTable) (op : Formula.Operation) : Option (MetaTable × String) :=
  match op.called with
  | some ("lookup",[relField,field]) => (C.lookupTable t relField).map fun parent => (parent,columnName field)
  | some ("rollup",rel::field::_) => (C.rollupTable t rel).map fun p => (p.2,columnName field)
  | _ => none

end Catalog

/-! ### A rename -/

/-- What `field_edit` accepts: a field that is no relation, and a new name that no field and no column of the table has. -/
structure Rename (C : Catalog) where
  t : MetaTable
  f : MetaField
  name : String
  found : C.table t.id = some t
  mem : f ∈ t.fields
  plain : f.dataType ≠ .relation
  renames : f.physName ≠ name
  fresh : name ∉ t.fields.map MetaField.physName
  unmanaged : name ∉ managed
  notKey : name ≠ t.pkCol
  free : f.dataType ∉ [DataType.file,.image] → name ∉ C.columns t.physName

namespace Rename

variable {C : Catalog} (R : Rename C)

abbrev old : String := R.f.physName

/-- A field after the rename. -/
def field (g : MetaField) : MetaField := if g.id = R.f.id then { g with physName := R.name } else g

theorem field_id (g : MetaField) : (R.field g).id = g.id := by
  rw [field]
  split <;> rfl

theorem field_type (g : MetaField) : (R.field g).dataType = g.dataType := by
  rw [field]
  split <;> rfl

theorem field_of_mem {g : MetaField} (hg : g ∈ R.t.fields) : (R.field g).physName = renameName R.old R.name g.physName := by
  rw [field,renameName]
  by_cases h : g.id = R.f.id
  · rw [if_pos h,if_pos (congrArg _ (List.inj_on_of_nodup_map R.t.idsNodup hg R.mem h))]
  · rw [if_neg h,if_neg fun hname => h (congrArg _ (R.t.field_unique hg R.mem hname))]

theorem names_renamed : (R.t.fields.map R.field).map MetaField.physName =
    (R.t.fields.map MetaField.physName).map (renameName R.old R.name) := by
  rw [List.map_map,List.map_map]
  exact List.map_congr_left fun g hg => R.field_of_mem hg

theorem ids_renamed (fields : List MetaField) : (fields.map R.field).map MetaField.id = fields.map MetaField.id := by
  rw [List.map_map]
  exact List.map_congr_left fun g _ => R.field_id g

/-- The table of the field after the rename. -/
def renamedTable : MetaTable := { R.t with
  fields := R.t.fields.map R.field
  idsNodup := by
    rw [R.ids_renamed]
    exact R.t.idsNodup
  namesNodup := by
    rw [R.names_renamed]
    exact nodup_rename R.t.namesNodup R.fresh
  namesFree := by
    intro g' hg'
    obtain ⟨g,hg,rfl⟩ := List.mem_map.mp hg'
    rw [R.field_of_mem hg,renameName]
    split
    · exact R.unmanaged
    · exact R.t.namesFree g hg }

/-- A table after the rename. -/
def table (u : MetaTable) : MetaTable := if u.id = R.t.id then R.renamedTable else u

/-- The field has a column. -/
abbrev Held : Prop := R.f.dataType ∉ [DataType.file,.image]

/-- A row of the table after the rename. -/
def moved (row : Row) : Row :=
  if R.Held then fun c => if c = R.name then row R.old else if c = R.old then .null else row c else row

/-- A row of any table after the rename. -/
def row (u : MetaTable) (r : Row) : Row := if u.id = R.t.id then R.moved r else r

theorem table_id (u : MetaTable) : (R.table u).id = u.id := by
  rw [table]
  split
  · rename_i h
    exact h.symm
  · rfl

theorem t_mem : R.t ∈ C.tables := (Schema.table_mem R.found).1

theorem table_cases {u : MetaTable} {id : ℕ} (hu : C.table id = some u) :
    u = R.t ∧ R.table u = R.renamedTable ∨ u.id ≠ R.t.id ∧ R.table u = u := by
  by_cases h : u.id = R.t.id
  · have hid := (Schema.table_mem hu).2
    rw [← hid,h,R.found] at hu
    exact Or.inl ⟨(Option.some.inj hu).symm,if_pos h⟩
  · exact Or.inr ⟨h,if_neg h⟩

/-- A table of another id. -/
theorem other_name {u : MetaTable} (hu : u ∈ C.tables) (h : u.id ≠ R.t.id) : u.physName ≠ R.t.physName :=
  fun hname => h (congrArg _ (List.inj_on_of_nodup_map C.tableNames hu R.t_mem hname))

/-- No field of another table has the id. -/
theorem other_id {u : MetaTable} (hu : u ∈ C.tables) (h : u.id ≠ R.t.id) {g : MetaField} (hg : g ∈ u.fields) :
    g.id ≠ R.f.id := by
  intro hid
  have hnodup := C.fieldIds
  rw [List.map_flatMap,List.nodup_flatMap] at hnodup
  have hne : u ≠ R.t := fun hsame => h (congrArg _ hsame)
  have hsymm : Std.Symm (Function.onFun List.Disjoint fun v : MetaTable => v.fields.map MetaField.id) :=
    ⟨fun _ _ hd => hd.symm⟩
  have hdisjoint := hnodup.2.forall hu R.t_mem hne
  exact hdisjoint (List.mem_map_of_mem hg) (hid ▸ List.mem_map_of_mem R.mem)

theorem fields_map {u : MetaTable} (hu : u ∈ C.tables) : (R.table u).fields = u.fields.map R.field := by
  by_cases h : u.id = R.t.id
  · obtain rfl := List.inj_on_of_nodup_map C.tableIds hu R.t_mem h
    rw [table,if_pos rfl]
    rfl
  · rw [table,if_neg h]
    exact (List.map_id'' (fun g => rfl) u.fields).symm.trans (List.map_congr_left fun g hg => (if_neg (R.other_id hu h hg)).symm)

theorem flatMap_fields : (C.tables.map R.table).flatMap MetaTable.fields = (C.tables.flatMap MetaTable.fields).map R.field := by
  rw [List.flatMap_map,List.map_flatMap]
  exact List.flatMap_congr fun u hu => R.fields_map hu

theorem table_names : (C.tables.map R.table).map MetaTable.physName = C.tables.map MetaTable.physName := by
  rw [List.map_map]
  refine List.map_congr_left fun u hu => ?_
  show (R.table u).physName = u.physName
  rw [table]
  split
  · rename_i h
    obtain rfl := List.inj_on_of_nodup_map C.tableIds hu R.t_mem h
    rfl
  · rfl

theorem table_ids : (C.tables.map R.table).map MetaTable.id = C.tables.map MetaTable.id := by
  rw [List.map_map]
  exact List.map_congr_left fun u _ => R.table_id u

theorem find_table (id : ℕ) : Schema.table { C.toSchema with tables := C.tables.map R.table } id = (C.table id).map R.table :=
  Keyed.find_map R.table_id id C.tables

theorem find_field (id : ℕ) : Schema.field { C.toSchema with tables := C.tables.map R.table } id = (C.field id).map R.field := by
  rw [Schema.field,Schema.field,R.flatMap_fields,List.find?_map]
  exact congrArg _ (congrArg (fun p => List.find? p _) (funext fun g => by simp only [Function.comp,R.field_id]))

/-- The catalog after the rename. -/
def after : Catalog := { C with
  tables := C.tables.map R.table
  formulas := fun id => if id = R.t.id then (C.formulas id).map (FormulaField.renamed (renameName R.old R.name)) else C.formulas id
  columns := fun n => if n = R.t.physName ∧ R.Held then (C.columns n).map (renameName R.old R.name) else C.columns n
  rows := fun n => if n = R.t.physName then (C.rows n).map R.moved else C.rows n
  tableIds := by
    rw [R.table_ids]
    exact C.tableIds
  tableNames := by
    rw [R.table_names]
    exact C.tableNames
  fieldIds := by
    rw [R.flatMap_fields,R.ids_renamed]
    exact C.fieldIds
  fkField := by
    intro rel hrel hkind child fkf hchild hfkf
    rw [R.find_table] at hchild
    obtain ⟨u,hu,rfl⟩ := Option.map_eq_some_iff.mp hchild
    obtain ⟨id,hid,hfield⟩ := Option.bind_eq_some_iff.mp hfkf
    rw [R.find_field] at hfield
    obtain ⟨g,hg,rfl⟩ := Option.map_eq_some_iff.mp hfield
    obtain ⟨hmem,htype⟩ := C.fkField rel hrel hkind u g hu (Option.bind_eq_some_iff.mpr ⟨id,hid,hg⟩)
    rw [R.fields_map (Schema.table_mem hu).1,R.field_type]
    exact ⟨List.mem_map_of_mem hmem,htype⟩ }

/-! ### What a rename spares -/

/-- A column that is not renamed. -/
def Spared (u : MetaTable) (col : String) : Prop := u.id = R.t.id → col ≠ R.old ∧ col ≠ R.name

section Spared

variable {R} {u : MetaTable} {id : ℕ}

theorem table_physName (hu : C.table id = some u) : (R.table u).physName = u.physName := by
  rcases R.table_cases hu with ⟨rfl,h⟩ | ⟨-,h⟩ <;> rw [h]
  rfl

theorem table_pkCol (hu : C.table id = some u) : (R.table u).pkCol = u.pkCol := by
  rcases R.table_cases hu with ⟨rfl,h⟩ | ⟨-,h⟩ <;> rw [h]
  rfl

theorem table_after (id : ℕ) : R.after.table id = (C.table id).map R.table := R.find_table id

theorem rows_after (hu : C.table id = some u) : R.after.rows u.physName = (C.rows u.physName).map (R.row u) := by
  rcases R.table_cases hu with ⟨rfl,-⟩ | ⟨h,-⟩
  · have hmoved : R.row R.t = R.moved := funext fun r => if_pos rfl
    rw [hmoved]
    exact if_pos rfl
  · have hsame : R.row u = fun r => r := funext fun r => if_neg h
    rw [hsame,List.map_id']
    exact if_neg (R.other_name (Schema.table_mem hu).1 h)

theorem columns_after (hu : C.table id = some u) {col : String} (h : R.Spared u col) :
    col ∈ R.after.columns u.physName ↔ col ∈ C.columns u.physName := by
  have hcolumns : R.after.columns u.physName = if u.physName = R.t.physName ∧ R.Held then
    (C.columns u.physName).map (renameName R.old R.name) else C.columns u.physName := rfl
  rw [hcolumns]
  split
  · rename_i hheld
    rcases R.table_cases hu with ⟨rfl,-⟩ | ⟨hne,-⟩
    · obtain ⟨hold,hname⟩ := h rfl
      rw [List.mem_map]
      constructor
      · rintro ⟨c,hc,rfl⟩
        by_cases hc' : c = R.old
        · exact absurd (by simp [renameName,hc']) hname
        · rwa [renameName_other hc']
      · exact fun hc => ⟨col,hc,renameName_other hold⟩
    · exact absurd hheld.1 (R.other_name (Schema.table_mem hu).1 hne)
  · rfl

theorem cell_after (hu : C.table id = some u) (r : Row) {col : String} (h : R.Spared u col) :
    R.after.cell (R.table u) (R.row u r) col = C.cell u r col := by
  have hrow : R.row u r col = r col := by
    rw [row]
    split
    · rename_i hid
      rw [moved]
      split
      · simp only [(h hid).1,(h hid).2,if_false]
      · rfl
    · rfl
  simp only [Catalog.cell,table_physName hu,columns_after hu h,hrow]

theorem key_spared (hkey : R.old ≠ R.t.pkCol) (hu : C.table id = some u) : R.Spared u u.pkCol := by
  intro hid
  rcases R.table_cases hu with ⟨rfl,-⟩ | ⟨hne,-⟩
  · exact ⟨hkey.symm,R.notKey.symm⟩
  · exact absurd hid hne

theorem getRow_after (hkey : R.old ≠ R.t.pkCol) (hu : C.table id = some u) (pk : Value) :
    R.after.getRow (R.table u) pk = (C.getRow u pk).map (R.row u) := by
  rw [Catalog.getRow,Catalog.getRow,table_physName hu,table_pkCol hu,rows_after hu,List.find?_map]
  refine congrArg _ (congrArg (fun p => List.find? p _) (funext fun r => ?_))
  simp only [Function.comp,cell_after hu r (key_spared hkey hu)]
  rfl

theorem aggregateValue_after (hu : C.table id = some u) {col whereCol : String} (hcol : R.Spared u col)
    (hwhere : R.Spared u whereCol) (op : String) (v : Value) :
    R.after.aggregateValue (R.table u) op col whereCol v = C.aggregateValue u op col whereCol v := by
  have hfilter : (R.after.rows u.physName).filter (fun r =>
      decide (whereCol = "" ∨ whereCol ∉ R.after.columns u.physName) ||
        R.after.equals u.physName whereCol (R.after.cell (R.table u) r whereCol) v) =
      ((C.rows u.physName).filter fun r => decide (whereCol = "" ∨ whereCol ∉ C.columns u.physName) ||
        C.equals u.physName whereCol (C.cell u r whereCol) v).map (R.row u) := by
    rw [rows_after hu,List.filter_map]
    refine congrArg _ (List.filter_congr fun r _ => ?_)
    simp only [Function.comp,cell_after hu r hwhere,columns_after hu hwhere]
    rfl
  have hcells : ∀ rows : List Row, (rows.map (R.row u)).map (fun r => R.after.cell (R.table u) r col) =
      rows.map fun r => C.cell u r col := by
    intro rows
    rw [List.map_map]
    exact List.map_congr_left fun r _ => cell_after hu r hcol
  simp only [Catalog.aggregateValue,table_physName hu,hfilter,hcells,columns_after hu hcol]
  rfl

theorem rowsByIds_after (hkey : R.old ≠ R.t.pkCol) (hu : C.table id = some u) (ids : List Value) :
    R.after.rowsByIds (R.table u) ids = (C.rowsByIds u ids).map (R.row u) := by
  have hspared := key_spared hkey hu
  rw [Catalog.rowsByIds,Catalog.rowsByIds,table_physName hu,table_pkCol hu,rows_after hu,List.filter_map]
  have hfilter : (C.rows u.physName).filter ((fun r => ids.any fun id => R.after.equals u.physName u.pkCol
      (R.after.cell (R.table u) r u.pkCol) id) ∘ R.row u) =
      (C.rows u.physName).filter fun r => ids.any fun id => C.equals u.physName u.pkCol (C.cell u r u.pkCol) id := by
    refine List.filter_congr fun r _ => ?_
    simp only [Function.comp,cell_after hu r hspared]
    rfl
  rw [hfilter]
  refine (List.map_mergeSort fun a _ b _ => ?_).symm
  rw [cell_after hu a hspared,cell_after hu b hspared]
  rfl

/-- A relation field keeps its name. -/
theorem relation_spared (hu : C.table id = some u) {g : MetaField} (hg : g ∈ u.fields) (htype : g.dataType = .relation) :
    R.Spared u g.physName := by
  intro hid
  rcases R.table_cases hu with ⟨rfl,-⟩ | ⟨hne,-⟩
  · refine ⟨fun hname => R.plain ?_,fun hname => R.fresh (hname ▸ List.mem_map_of_mem hg)⟩
    rw [← R.t.field_unique hg R.mem hname]
    exact htype
  · exact absurd hid hne

theorem relation_field (hu : C.table id = some u) {g : MetaField} (hg : g ∈ u.fields) (htype : g.dataType = .relation) :
    R.field g = g := by
  refine if_neg fun hid => ?_
  rcases R.table_cases hu with ⟨rfl,-⟩ | ⟨hne,-⟩
  · exact R.plain (List.inj_on_of_nodup_map R.t.idsNodup hg R.mem hid ▸ htype)
  · exact R.other_id (Schema.table_mem hu).1 hne hg hid

/-! ### Lookups and rollups -/

theorem lookupTable_after (hu : C.table id = some u) (relField : Val) :
    R.after.lookupTable (R.table u) relField = (C.lookupTable u relField).map R.table := by
  cases relField with
  | val v =>
    cases v with
    | text name =>
      have hfind : (R.table u).fields.find? (fun f => decide (f.physName = name ∧ f.dataType = .relation)) =
          u.fields.find? fun f => decide (f.physName = name ∧ f.dataType = .relation) := by
        rw [R.fields_map (Schema.table_mem hu).1]
        have hsame : ∀ g ∈ u.fields, decide ((R.field g).physName = name ∧ (R.field g).dataType = .relation) =
            decide (g.physName = name ∧ g.dataType = .relation) := by
          intro g hg
          by_cases htype : g.dataType = .relation
          · rw [relation_field hu hg htype]
          · simp [R.field_type,htype]
        have hfilter := List.filter_congr hsame
        have hfirst : u.fields.find? ((fun f => decide (f.physName = name ∧ f.dataType = .relation)) ∘ R.field) =
            u.fields.find? fun f => decide (f.physName = name ∧ f.dataType = .relation) := by
          rw [← List.head?_filter,← List.head?_filter]
          exact congrArg List.head? hfilter
        rw [List.find?_map,hfirst]
        cases hfound : u.fields.find? fun f => decide (f.physName = name ∧ f.dataType = .relation) with
        | none => rfl
        | some g =>
          have htest := List.find?_some hfound
          exact congrArg some (relation_field hu (List.mem_of_find?_eq_some hfound) (of_decide_eq_true htest).2)
      simp only [Catalog.lookupTable,hfind]
      cases (u.fields.find? fun f => decide (f.physName = name ∧ f.dataType = .relation)).bind MetaField.relatedTableId with
      | none => rfl
      | some id => exact table_after id
    | _ => rfl
  | _ => rfl

theorem lookupTable_found {relField : Val} {parent : MetaTable} (h : C.lookupTable u relField = some parent) :
    (∃ g ∈ u.fields, g.dataType = .relation ∧ g.physName = columnName relField) ∧ C.table parent.id = some parent := by
  cases relField with
  | val v =>
    cases v with
    | text name =>
      obtain ⟨id,hid,hparent⟩ := Option.bind_eq_some_iff.mp h
      obtain ⟨g,hg,-⟩ := Option.bind_eq_some_iff.mp hid
      have htest := List.find?_some hg
      obtain ⟨hname,htype⟩ := of_decide_eq_true htest
      refine ⟨⟨g,List.mem_of_find?_eq_some hg,htype,hname⟩,?_⟩
      rw [(Schema.table_mem hparent).2]
      exact hparent
    | _ => cases h
  | _ => cases h

theorem rollupTable_after (u : MetaTable) (rel : Val) :
    R.after.rollupTable (R.table u) rel = (C.rollupTable u rel).map fun p => (p.1,R.table p.2) := by
  cases rel with
  | val v =>
    cases v with
    | text name =>
      simp only [Catalog.rollupTable,R.table_id]
      have hrelations : R.after.relations = C.relations := rfl
      rw [hrelations]
      cases (if name = "" then none else C.relations.find? fun rel => decide (rel.name = name)) with
      | none => rfl
      | some relation =>
        dsimp only
        split
        · rw [table_after]
          cases C.table relation.fromTableId <;> rfl
        · split
          · rw [table_after]
            cases C.table (if relation.fromTableId = u.id then relation.toTableId else relation.fromTableId) <;> rfl
          · rfl
    | _ => rfl
  | _ => rfl

theorem rollupTable_found {rel : Val} {relation : MetaRelation} {other : MetaTable} (h : C.rollupTable u rel = some (relation,other)) :
    relation ∈ C.relations ∧ C.table other.id = some other ∧ (relation.kind = .m1 → C.table relation.fromTableId = some other) := by
  cases rel with
  | val v =>
    cases v with
    | text name =>
      simp only [Catalog.rollupTable] at h
      split at h
      · cases h
      · rename_i found hfound
        have hmem : found ∈ C.relations := by
          split at hfound
          · cases hfound
          · exact List.mem_of_find?_eq_some hfound
        split at h
        · obtain ⟨child,hchild,hpair⟩ := Option.map_eq_some_iff.mp h
          cases hpair
          refine ⟨hmem,?_,fun _ => hchild⟩
          rw [(Schema.table_mem hchild).2]
          exact hchild
        · split at h
          · rename_i hkind
            obtain ⟨that,hthat,hpair⟩ := Option.map_eq_some_iff.mp h
            cases hpair
            refine ⟨hmem,?_,fun hm1 => absurd (hm1.symm.trans hkind) (by decide)⟩
            rw [(Schema.table_mem hthat).2]
            exact hthat
          · cases h
    | _ => cases h
  | _ => cases h

theorem rolled_after (hkey : R.old ≠ R.t.pkCol) (hu : C.table id = some u) {relation : MetaRelation} (hrel : relation ∈ C.relations)
    {other : MetaTable} (hother : C.table other.id = some other)
    (hfrom : relation.kind = .m1 → C.table relation.fromTableId = some other) {col : String} (hcol : R.Spared other col)
    (pk : Value) (op : String) :
    R.after.rolled (R.table u) relation (R.table other) pk col op = C.rolled u relation other pk col op := by
  cases hkind : relation.kind with
  | m1 =>
    simp only [Catalog.rolled,hkind]
    cases hid : relation.fromFieldId with
    | none => rfl
    | some fid =>
      have hfield : R.after.field fid = (C.field fid).map R.field := R.find_field fid
      simp only [Option.bind_some,hfield]
      cases hfkf : C.field fid with
      | none => rfl
      | some fkf =>
        obtain ⟨hmem,htype⟩ := C.fkField relation hrel hkind other fkf (hfrom hkind) (by rw [hid]; exact hfkf)
        simp only [Option.map_some,relation_field hother hmem htype]
        exact aggregateValue_after hother hcol (relation_spared hother hmem htype) op pk
  | mn =>
    have hcells : ∀ rows : List Row, (rows.map (R.row other)).map (fun r => R.after.cell (R.table other) r col) =
        rows.map fun r => C.cell other r col := by
      intro rows
      rw [List.map_map]
      exact List.map_congr_left fun r _ => cell_after hother r hcol
    simp only [Catalog.rolled,hkind,table_physName hu,table_physName hother,rowsByIds_after hkey hother,hcells]
    rfl

section Answers

variable {ω : Type*} {lib : FormulaLib ω}

theorem lookup_after (hkey : R.old ≠ R.t.pkCol) (hu : C.table id = some u) {known known' : String → Val}
    (hknown : ∀ n, R.Spared u n → known' n = known n) {relField field : Val}
    (hasks : ∀ parent, C.lookupTable u relField = some parent → R.Spared parent (columnName field)) :
    R.after.lookup (R.table u) known' relField field = C.lookup u known relField field := by
  simp only [Catalog.lookup,lookupTable_after hu]
  cases hparent : C.lookupTable u relField with
  | none => rfl
  | some parent =>
    obtain ⟨⟨g,hg,htype,hname⟩,hfound⟩ := lookupTable_found hparent
    rw [hknown _ (hname ▸ relation_spared hu hg htype)]
    cases known (columnName relField) with
    | val fk =>
      simp only [Option.map_some,getRow_after hkey hfound]
      cases C.getRow parent fk with
      | none => rfl
      | some prow => simp only [Option.map_some,cell_after hfound prow (hasks parent hparent)]
    | _ => rfl

theorem rollup_after (hkey : R.old ≠ R.t.pkCol) (hu : C.table id = some u) {known known' : String → Val}
    (hknown : ∀ n, R.Spared u n → known' n = known n) {rel field op : Val}
    (hasks : ∀ p, C.rollupTable u rel = some p → R.Spared p.2 (columnName field)) :
    R.after.rollup lib (R.table u) known' rel field op = C.rollup lib u known rel field op := by
  simp only [Catalog.rollup,rollupTable_after,table_pkCol hu,hknown _ (key_spared hkey hu)]
  cases hrolled : C.rollupTable u rel with
  | none => rfl
  | some p =>
    obtain ⟨relation,other⟩ := p
    obtain ⟨hrel,hother,hfrom⟩ := rollupTable_found hrolled
    cases known u.pkCol with
    | val pk => simp only [Option.map_some,rolled_after hkey hu hrel hother hfrom (hasks _ hrolled)]
    | _ => rfl

/-- A lookup or rollup that does not ask for the field gives the same. -/
theorem answers_after (hkey : R.old ≠ R.t.pkCol) (hu : C.table id = some u) {known known' : String → Val}
    (hknown : ∀ n, R.Spared u n → known' n = known n) {op : Formula.Operation}
    (hasks : ∀ v col, C.asks u op = some (v,col) → R.Spared v col) :
    Answers lib (some (C.resolver lib u known)) (some (R.after.resolver lib (R.table u) known')) op := by
  refine answers_of_called fun name args hcalled hname => ?_
  have hrollup : ∀ rel field op', name = "rollup" → (∃ rest, args = rel::field::rest) →
      R.after.rollup lib (R.table u) known' rel field op' = C.rollup lib u known rel field op' := by
    rintro rel field op' rfl ⟨rest,rfl⟩
    refine rollup_after hkey hu hknown fun p hp => hasks p.2 _ ?_
    simp only [Catalog.asks,hcalled,hp,Option.map_some]
  have hlookup : ∀ relField field, name = "lookup" → args = [relField,field] →
      R.after.lookup (R.table u) known' relField field = C.lookup u known relField field := by
    rintro relField field rfl rfl
    refine lookup_after hkey hu hknown fun parent hparent => hasks parent _ ?_
    simp only [Catalog.asks,hcalled,hparent,Option.map_some]
  simp only [callNamed,hname,if_true]
  refine congrArg ofPython ?_
  have hne : ("rollup" = "lookup") = False := by decide
  rcases List.mem_pair.mp hname with rfl | rfl
  · rcases args with _ | ⟨a,_ | ⟨b,_ | ⟨c,_ | ⟨e,rest⟩⟩⟩⟩
    · rfl
    · rfl
    · simp only [callRelation,if_true,Catalog.resolver,hlookup a b rfl rfl]
    · rfl
    · rfl
  · rcases args with _ | ⟨a,_ | ⟨b,_ | ⟨c,_ | ⟨e,rest⟩⟩⟩⟩
    · rfl
    · rfl
    · simp only [callRelation,hne,if_false,Catalog.resolver,hrollup a b (.text "count") rfl ⟨[],rfl⟩]
    · simp only [callRelation,hne,if_false,Catalog.resolver,hrollup a b c rfl ⟨[c],rfl⟩]
    · rfl

end Answers

end Spared

/-! ### What is preserved -/

section Preserved

variable {ω : Type*} (lib : FormulaLib ω)

/-- The formula columns of a table under their new names. -/
def names (u : MetaTable) : String → String := if u.id = R.t.id then renameName R.old R.name else id

theorem formulas_after (u : MetaTable) :
    R.after.formulas (R.table u).id = (C.formulas u.id).map (FormulaField.renamed (R.names u)) := by
  rw [R.table_id,names]
  have hformulas : R.after.formulas u.id = if u.id = R.t.id then
    (C.formulas u.id).map (FormulaField.renamed (renameName R.old R.name)) else C.formulas u.id := rfl
  rw [hformulas]
  split
  · rfl
  · exact (FormulaField.renamed_id _).symm

/-- A column that is not renamed is updated before and after the rename alike. -/
theorem update_spared {u : MetaTable} {known known' : String → Val} (hknown : ∀ n, R.Spared u n → known' n = known n)
    (name : String) (v : Val) {n : String} (hn : R.Spared u n) :
    Function.update known' (R.names u name) v n = Function.update known name v n := by
  have hname : n = R.names u name ↔ n = name := by
    rw [names]
    split
    · rename_i hid
      obtain ⟨hold,hnew⟩ := hn hid
      rw [renameName]
      split
      · rename_i h
        exact ⟨fun h' => absurd h' hnew,fun h' => absurd (h'.trans h) hold⟩
      · rfl
    · rfl
  by_cases h : n = name
  · rw [hname.mpr h,Function.update_self,← hname.mpr h,h,Function.update_self]
  · rw [Function.update_of_ne h,Function.update_of_ne fun h' => h (hname.mp h'),hknown n hn]

/-- What is computed of a record is what was computed before the rename. -/
theorem computed_after {u : MetaTable} {id : ℕ} (hkey : R.old ≠ R.t.pkCol) (hu : C.table id = some u) (r : Row)
    (hreads : ∀ f ∈ C.formulas u.id, ∀ n ∈ f.reads lib, R.Spared u n)
    (hasks : ∀ op ∈ (C.computed lib u r).trace, ∀ v col, C.asks u op = some (v,col) → R.Spared v col) :
    (R.after.computed lib (R.table u) (R.row u r)).result =
      (C.computed lib u r).result.map fun out => out.map fun p => (R.names u p.1,p.2) := by
  rw [Catalog.computed,R.formulas_after u]
  refine @sameOn_computeValues _ lib (C.resolver lib u) (R.after.resolver lib (R.table u))
    (fun op => ∀ v col, C.asks u op = some (v,col) → R.Spared v col) (R.names u)
    (fun fields known known' => (∀ n, R.Spared u n → known' n = known n) ∧ ∀ f ∈ fields, ∀ n ∈ f.reads lib, R.Spared u n)
    (fun fields known known' h op hop => answers_after hkey hu h.1 hop) (fun f fields known known' h n hn => ?_)
    (fun f fields known known' v h => ⟨fun n hn => R.update_spared h.1 f.physName v hn,?_⟩) (C.formulas u.id)
    (fun c => .val (C.cell u r c)) (fun c => .val (R.after.cell (R.table u) (R.row u r) c)) ?_ hasks
  · exact (h.1 n (h.2 f List.mem_cons_self n hn)).symm
  · exact fun g hg => h.2 g (List.mem_cons_of_mem f hg)
  · exact ⟨fun n hn => congrArg Val.val (cell_after hu r hn),hreads⟩

variable (config : FormConfig)

/-- Neither a rule of the form nor a formula names the field by its old or its new name, and no lookup or rollup asks for
it; nor is it the key of the table. -/
structure Unnamed : Prop where
  key : R.old ≠ R.t.pkCol
  rules : config.Unnamed R.old R.name
  formulas : ∀ f ∈ C.formulas R.t.id, ∀ n ∈ f.reads lib, n ≠ R.old ∧ n ≠ R.name
  asked : ∀ u r, C.table u.id = some u → r ∈ C.rows u.physName → ∀ op ∈ (C.computed lib u r).trace,
    ∀ v col, C.asks u op = some (v,col) → R.Spared v col

/-- The other fields of a form have the states, and all records the formula values, of before the rename. -/
structure Preserved (hnew : R.name ∉ config.names) : Prop where
  states : ∀ arrangement arrangement' values trusted result, states arrangement lib.toFormLib config values trusted = .ok result →
    ∃ result', FormRules.states arrangement' lib.toFormLib (config.renamed R.old R.name hnew) (renameValues R.old R.name values)
      (renameValues R.old R.name trusted) = .ok result' ∧
        ∀ name, name ≠ R.old → name ≠ R.name → result'.lookup name = result.lookup name
  computed : ∀ u r, C.table u.id = some u → r ∈ C.rows u.physName → (R.after.computed lib (R.table u) (R.row u r)).result =
    (C.computed lib u r).result.map fun out => out.map fun p => (R.names u p.1,p.2)

end Preserved

end Rename

/-- A rename preserves what neither names the field nor asks for it. -/
theorem rename_preserves {ω : Type*} (lib : FormulaLib ω) {C : Catalog} (R : Rename C) (config : FormConfig)
    (hnew : R.name ∉ config.names) (h : R.Unnamed lib config) : R.Preserved lib config hnew := by
  refine ⟨fun arrangement arrangement' values trusted result hresult => states_renamed R.renames h.rules hresult,
    fun u r hu hr => R.computed_after lib h.key hu r (fun f hf n hn hid => ?_) (h.asked u r hu hr)⟩
  rw [hid] at hf
  exact h.formulas f hf n hn

/-- A rename hides a field that was shown on one condition on the renamed one. -/
theorem rename_hides {ω : Type*} (lib : FormulaLib ω) {C : Catalog} (R : Rename C) {config : FormConfig}
    (hnew : R.name ∉ config.names) (hacyclic : config.Acyclic)
    (hold : R.old ∈ config.names) {name : String} {item : Item} (hitem : (name,item) ∈ config.items) (hname : name ≠ R.old)
    {op : FormRules.Op} {value : Literal} (hshown : item.rules.shown = some (.leaf ⟨R.old,op,value⟩)) {text : String}
    (htext : testLeaf lib.toFormLib (config.numericNames R.old) op text (literalText lib.toFormLib value) = true) :
    ¬R.Preserved lib config hnew := by
  intro h
  obtain ⟨values,-,hlost⟩ := @shown_lost _ lib.toFormLib config R.old R.name hnew R.renames hold name item hitem hname op value
    hshown text htext
  obtain ⟨result,-,hresult,-,-⟩ := states_solved ⟨id,fun _ _ => Iff.rfl⟩ lib.toFormLib hacyclic values values
  obtain ⟨result',hresult',hsame⟩ := h.states ⟨id,fun _ _ => Iff.rfl⟩ ⟨id,fun _ _ => Iff.rfl⟩ values values result hresult
  obtain ⟨hbefore,hafter⟩ := hlost _ _ _ _ hresult hresult'
  have hnew' : name ≠ R.name := fun hsame' => hnew (hsame' ▸ List.mem_map_of_mem hitem)
  rw [hsame name hname hnew',hbefore] at hafter
  cases hafter

/-! ### A renamed status -/

def statusLib : FormulaLib String := { formulaLib with
  parse := fun s => if s = "status" then .ok (.name "status") else .error "invalid syntax" }

def orders : MetaTable where
  id := 1
  physName := "ordr"
  label := "Order"
  fields := [⟨1,"status","Status",.string,true,none,none,none,none,none,none,none,none⟩,
    ⟨2,"reason","Reason",.string,true,none,none,none,none,none,none,none,none⟩,
    ⟨3,"settled","Settled",.formula,true,none,none,none,none,none,none,none,none⟩]
  idsNodup := by decide
  namesNodup := by decide
  namesFree := by decide

/-- One order, whose column `settled` is computed of its status. -/
def orderCatalog : Catalog where
  tables := [orders]
  relations := []
  formulas id := if id = 1 then [⟨"settled",some "status",.boolean⟩] else []
  columns _ := ["id","status","reason","settled"]
  rows _ := [Related.rowOf [("id",.int 1),("status",.text "closed")]]
  equals _ _ v w := decide (v = w)
  le _ _ _ := true
  links _ _ _ _ := []
  aggregate _ _ _ _ := .null
  aggValues _ _ := .null
  tableIds := by decide
  tableNames := by decide
  fieldIds := by decide
  fkField := fun _ hrel => (List.not_mem_nil hrel).elim

/-- `status` becomes `state`. -/
def toState : Rename orderCatalog where
  t := orders
  f := ⟨1,"status","Status",.string,true,none,none,none,none,none,none,none,none⟩
  name := "state"
  found := rfl
  mem := List.mem_cons_self
  plain := by decide
  renames := by decide
  fresh := by decide
  unmanaged := by decide
  notKey := by decide
  free := by decide

/-- The reason is shown for a closed order. -/
def orderForm : FormConfig where
  items := [("status",{}),("reason",{ rules := { shown := some (.leaf ⟨"status",.eq,.text "closed"⟩) } })]
  nodup := by decide

theorem orderForm_free : toState.name ∉ orderForm.names := by decide

def closed : String → Option (FieldData String) := fun n => if n = "status" ∨ n = "reason" then some (.text "closed") else none

/-- The reason of a closed order is no longer shown, and the order no longer settled. -/
theorem status_lost : ¬toState.Preserved statusLib orderForm orderForm_free ∧
    (∃ r ∈ orderCatalog.rows "ordr", (orderCatalog.computed statusLib orders r).result = .ok [("settled",.bool true)] ∧
      (toState.after.computed statusLib (toState.table orders) (toState.row orders r)).result = .ok [("settled",.null)]) ∧
    ∃ result result', states ⟨id,fun _ _ => Iff.rfl⟩ statusLib.toFormLib orderForm closed closed = .ok result ∧
      states ⟨id,fun _ _ => Iff.rfl⟩ statusLib.toFormLib (orderForm.renamed "status" "state" orderForm_free)
        (renameValues "status" "state" closed) (renameValues "status" "state" closed) = .ok result' ∧
      (result.lookup "reason").map FieldState.visible = some true ∧ (result'.lookup "reason").map FieldState.visible = some false := by
  have hbefore : (orderCatalog.computed statusLib orders (Related.rowOf [("id",.int 1),("status",.text "closed")])).result =
      .ok [("settled",.bool true)] := rfl
  have hafter : (toState.after.computed statusLib (toState.table orders) (toState.row orders
      (Related.rowOf [("id",.int 1),("status",.text "closed")]))).result = .ok [("settled",.null)] := rfl
  refine ⟨fun h => ?_,⟨_,List.mem_singleton_self _,hbefore,hafter⟩,_,_,rfl,rfl,rfl,rfl⟩
  have hsame := h.computed orders _ rfl (List.mem_singleton_self _)
  rw [hbefore,hafter] at hsame
  cases hsame

/-- The other field is renamed. -/
def toWhy : Rename orderCatalog where
  t := orders
  f := ⟨2,"reason","Reason",.string,true,none,none,none,none,none,none,none,none⟩
  name := "why"
  found := rfl
  mem := by decide
  plain := by decide
  renames := by decide
  fresh := by decide
  unmanaged := by decide
  notKey := by decide
  free := by decide

theorem orderForm_free_why : toWhy.name ∉ orderForm.names := by decide

theorem rename_preserves_why : toWhy.Preserved statusLib orderForm orderForm_free_why := by
  refine rename_preserves statusLib toWhy orderForm orderForm_free_why ⟨by decide,?_,by decide,fun u r hu hr op hop => ?_⟩
  · intro p hp tree htree d hd
    rcases List.mem_pair.mp hp with rfl | rfl
    · cases htree
    · obtain rfl := List.mem_singleton.mp htree
      obtain rfl := List.mem_singleton.mp hd
      decide
  · obtain rfl := List.mem_singleton.mp (Schema.table_mem hu).1
    obtain rfl := List.mem_singleton.mp hr
    have htrace : (orderCatalog.computed statusLib orders (Related.rowOf [("id",.int 1),("status",.text "closed")])).trace = [] := rfl
    rw [htrace] at hop
    cases hop

end FieldRename
end Biggy
