import Biggy.FormulaCrash
import Biggy.RecordService
import Biggy.Run

/-!
# Formulas over related records

Two tables are joined by a many-to-one relation: a formula of the parent may roll its children up, one of the
child look its parent up. `record_service` computes the formulas of the record that it writes, and afterwards
those of the records that the written one points at, or that point at it.
-/
namespace Biggy
namespace Related

open Formula

/-! ### The tables -/

inductive Side
  | parent | child
  deriving DecidableEq

/-- The rows of the two tables, in the order of their keys. -/
abbrev Tables := Side → List Row

/-- What the database does to the rows that point at a deleted one. -/
inductive OnDelete
  | setNull | cascade | restrict
  deriving DecidableEq

/-- A table with its physical columns and its formula fields, in the order of their positions. -/
structure FormulaTable where
  mt : MetaTable
  columns : List String
  key : Value → Value
  formulas : List FormulaField
  formulasNodup : (formulas.map FormulaField.physName).Nodup
  formulasOf : ∀ f ∈ formulas, ∃ field ∈ mt.fields, field.dataType = .formula ∧ field.physName = f.physName
  formulasHeld : ∀ f ∈ formulas, f.physName ∈ columns ∧ f.physName ≠ mt.pkCol
  pkFree : mt.pkCol ∉ managed

def FormulaTable.names (t : FormulaTable) : List String := t.formulas.map FormulaField.physName

/-- What the keys of the database enforce. -/
structure Integrity (table : Side → FormulaTable) (fk : String) (ts : Tables) : Prop where
  nodup : ∀ s, ((ts s).map fun row => row (table s).mt.pkCol).Nodup
  keys : ∀ s, ∀ row ∈ ts s, row (table s).mt.pkCol ≠ .null ∧ (table s).key (row (table s).mt.pkCol) = row (table s).mt.pkCol
  references : ∀ row ∈ ts .child, row fk = .null ∨ ∃ p ∈ ts .parent, p (table .parent).mt.pkCol = row fk

/-- The two tables and their relation. `keep` is what the column of a formula stores of a result, `elsewhere` what
other relations give, and `admits` every constraint that the database checks at the end of a statement. -/
structure Design where
  table : Side → FormulaTable
  relName : String
  fk : String
  fkField : ∃ field ∈ (table .child).mt.fields, field.dataType = .relation ∧ field.physName = fk
  fkHeld : fk ∈ (table .child).columns ∧ fk ≠ (table .child).mt.pkCol
  nullable : Bool
  onDelete : OnDelete
  elsewhere : Side → (String → Val) → Resolver
  keep : Side → String → Val → Value
  aggregate : String → List Value → Val
  admits : Tables → Bool
  sound : ∀ ts, admits ts = true → Integrity table fk ts
  admitsNone : admits (fun _ => []) = true

namespace Design

variable (d : Design)

def pkCol (s : Side) : String := (d.table s).mt.pkCol

/-- One of the tables as `data_service` sees it. -/
def physical (ts : Tables) (s : Side) : Physical where
  columns := (d.table s).columns
  pk := d.pkCol s
  rows := ts s
  key := (d.table s).key
  admits := fun rows => d.admits (Function.update ts s rows)

/-- The rows of the child whose key points at `k`. -/
def pointing (ts : Tables) (k : Value) : List Row := (ts .child).filter fun row => decide (row d.fk = k)

/-- What a column holds in the rows that point at `k`. -/
def cells (ts : Tables) (k : Value) (col : String) : List Value := (d.pointing ts k).map fun row => row col

/-! ### Lookups and rollups -/

/-- `aggregate_value`, of what a column holds. -/
def aggregateValue (op col : String) (vals : List Value) : Val :=
  if op = "count" then
    if col ∈ (d.table .child).columns then .int (vals.filter fun v => decide (v ≠ .null)).length else .int vals.length
  else if op ∈ ["sum","avg","min","max"] ∧ col ∈ (d.table .child).columns then
    match vals.filter fun v => decide (v ≠ .null) with
    | [] => .null
    | v::rest => d.aggregate op (v::rest)
  else .null

/-- `zero`. -/
def zero (op : String) : Val := if op = "count" then .int 0 else .null

/-- A rollup of the children of the record with a key. -/
def rollup (ts : Tables) (pk : Val) (op col : String) : Val :=
  match pk with
  | .val k => if k = .null ∨ k = .text "" then zero op else d.aggregateValue op col (d.cells ts k col)
  | _ => zero op

/-- A lookup in the parent that a key points at. -/
def lookup (ts : Tables) (fk : Val) (col : String) : Val :=
  match fk with
  | .val k =>
    if k = .null ∨ k = .text "" ∨ col = "" then .null
    else match (d.physical ts .parent).getRow k with
      | some row => .val (row col)
      | none => .null
  | _ => .null

end Design

/-- The name of a column given to `lookup` or `rollup`. -/
def columnName : Val → String
  | .val (.text s) => s
  | _ => ""

section Ripple

variable {ω : Type*} (lib : FormulaLib ω) (d : Design)

/-- `(op or "count").lower()`. -/
def opName : Val → String
  | .val (.text s) => if s = "" then lib.lowerText "count" else lib.lowerText s
  | v => if v.truthy then "" else lib.lowerText "count"

/-- `Resolver`, for one record of either table. -/
def resolver (ts : Tables) : Side → (String → Val) → Resolver
  | .parent, row =>
    { d.elsewhere .parent row with
      rollup := fun rel field op =>
        if rel = .text d.relName then d.rollup ts (row (d.pkCol .parent)) (opName lib op) (columnName field)
        else (d.elsewhere .parent row).rollup rel field op }
  | .child, row =>
    { d.elsewhere .child row with
      lookup := fun rel field =>
        if rel = .text d.fk then d.lookup ts (row d.fk) (columnName field) else (d.elsewhere .child row).lookup rel field }

/-- `compute_values`, as the columns store them. -/
def compute (s : Side) (ts : Tables) (row : Row) : Except PyError Values :=
  (computeValues lib (resolver lib d ts s) (fun c => .val (row c)) (d.table s).formulas).result.map fun vs =>
    vs.map fun p => (p.1,d.keep s p.1 p.2)

/-- `_compute_self`. -/
def computeSelf (s : Side) (ts : Tables) (row : Row) : Values :=
  match compute lib d s ts row with
  | .ok vs => vs
  | .error _ => []

/-! ### The ripple -/

/-- The tables after `update_row`. -/
def rewritten (s : Side) (pk : Value) (vs : Values) (ts : Tables) : Tables :=
  Function.update ts s ((d.physical ts s).writeRow pk vs)

/-- `update_row`; `none` is a statement that the database refuses. -/
def updateRow (s : Side) (pk : Value) (vs : Values) (ts : Tables) : Option Tables :=
  if d.admits (rewritten d s pk vs ts) then some (rewritten d s pk vs ts) else none

/-- `_recompute_row`; `none` is an exception. -/
def recomputeRow (s : Side) (row : Row) (ts : Tables) : Option Tables :=
  if row (d.pkCol s) = .null ∨ (d.table s).formulas = [] then some ts
  else match compute lib d s ts row with
    | .error _ => none
    | .ok vs => if vs = [] then some ts else updateRow d s (row (d.pkCol s)) vs ts

/-- The loop over the rows that were read; an exception leaves it. -/
def recomputeRows (s : Side) : List Row → Tables → Tables := Run.mendAll (recomputeRow lib d s)

/-- `per_page` of the ripple. -/
def maxRows : ℕ := 10^6

/-- `list_rows` with the filter of the ripple, which an empty text is not a value for. -/
def readers (ts : Tables) (rid : Value) : List Row :=
  (if rid = .text "" then ts .child else d.pointing ts rid).take maxRows

/-- `_ripple`: `recompute_related`, up to its first exception. -/
def ripple : Side → Row → Tables → Tables
  | .child, row, ts =>
    if (row d.fk).truthy = true ∧ (d.table .parent).formulas ≠ [] then
      match (d.physical ts .parent).getRow (row d.fk) with
      | some prow => recomputeRows lib d .parent [prow] ts
      | none => ts
    else ts
  | .parent, row, ts =>
    if row (d.pkCol .parent) = .null ∨ (d.table .child).formulas = [] then ts
    else recomputeRows lib d .child (readers d ts (row (d.pkCol .parent))) ts

/-! ### The operations -/

/-- A dictionary as a row. -/
def rowOf (values : Values) : Row := Row.write (fun _ => .null) values

/-- `values.update(created_by=user_id, created_at=now, updated_by=user_id, updated_at=now)`. -/
def createStamp (userId : Option ℕ) (now : ℤ) : Values :=
  ("created_by",RecordService.userValue userId)::("created_at",.datetime now)::RecordService.auditStamp userId now

/-- What is written of submitted and computed values. -/
def stamped (s : Side) (values computed stamp : Values) : Values :=
  let vs := values.update computed
  if RecordService.hasAuditCols (d.table s).mt then vs.update stamp else vs

/-- `clean[pkname]`, else the generated key. -/
def newKey (s : Side) (values : Values) (generated : Value) : Value := (values.lookup (d.pkCol s)).getD generated

/-- The row that an insertion stores. -/
def newRow (s : Side) (values : Values) (generated : Value) : Row := fun c =>
  if c ∈ (d.table s).columns then
    if c = d.pkCol s then newKey d s values generated else (values.lookup c).getD .null
  else .null

def added (s : Side) (row : Row) (ts : Tables) : Tables := Function.update ts s (ts s++[row])

/-- `create`, of values with their defaults. -/
def create (s : Side) (values : Values) (generated : Value) (userId : Option ℕ) (now : ℤ) (ts : Tables) : Tables :=
  let vs := stamped d s values (computeSelf lib d s ts (rowOf values)) (createStamp userId now)
  let ts' := added s (newRow d s vs generated) ts
  if d.admits ts' then ripple lib d s ((rowOf vs).write [(d.pkCol s,newKey d s vs generated)]) ts' else ts

/-- `{**old, **values}`, with the key by default. -/
def context (s : Side) (old : Option Row) (pk : Value) (values : Values) : Row :=
  match old with
  | some row => row.write values
  | none => rowOf (Values.update [(d.pkCol s,pk)] values)

/-- `old` is read, and is not `None`. -/
def readsOld (s : Side) (values : Values) : Bool :=
  (d.table s).mt.trackAudit || !(d.table s).formulas.isEmpty ||
    (d.table s).mt.fields.any fun f => decide (f.dataType = .user) && (values.lookup f.physName).isSome

/-- `update`; without a row and `old` its last statement raises. -/
def update (s : Side) (pk : Value) (values : Values) (userId : Option ℕ) (now : ℤ) (ts : Tables) : Tables :=
  let old := (d.physical ts s).getRow pk
  let vs := stamped d s values (computeSelf lib d s ts (context d s old pk values)) (RecordService.auditStamp userId now)
  match updateRow d s pk vs ts with
  | none => ts
  | some ts' => match (d.physical ts' s).getRow pk with
    | some row => ripple lib d s row ts'
    | none => if readsOld d s values then ripple lib d s ((rowOf vs).write [(d.pkCol s,pk)]) ts' else ts'

/-- The children of a record that goes to the trash: their keys are cleared, or else they are deleted. -/
def dissociated (s : Side) (pk : Value) (ts : Tables) : Tables :=
  match s with
  | .child => ts
  | .parent => Function.update ts .child <|
    if d.nullable then
      (ts .child).map fun row => if row d.fk = (d.table .parent).key pk then row.write [(d.fk,.null)] else row
    else (ts .child).filter fun row => decide (row d.fk ≠ (d.table .parent).key pk)

def deleteStamp (userId : Option ℕ) (now : ℤ) : Values :=
  [("deleted_at",.datetime now),("deleted_by",RecordService.userValue userId)]

/-- The children after the deletion of the row that they point at. -/
def orphaned (k : Value) (rows : List Row) : List Row :=
  match d.onDelete with
  | .setNull => rows.map fun row => if row d.fk = k then row.write [(d.fk,.null)] else row
  | .cascade => rows.filter fun row => decide (row d.fk ≠ k)
  | .restrict => rows

/-- The tables after `delete_row`. -/
def deleted (s : Side) (pk : Value) (ts : Tables) : Tables := fun s' =>
  let k := (d.table s).key pk
  if s' = s then (ts s).filter fun row => decide (row (d.pkCol s) ≠ k)
  else if s = .parent ∧ k ≠ .null then orphaned d k (ts s') else ts s'

/-- `remove`: to the trash, or else deleted. -/
def remove (s : Side) (pk : Value) (userId : Option ℕ) (now : ℤ) (ts : Tables) : Tables :=
  let after := fun ts' => match (d.physical ts s).getRow pk with
    | some old => ripple lib d s old ts'
    | none => ts'
  if (d.table s).mt.softDelete then
    let ts₁ := dissociated d s pk ts
    if d.admits ts₁ then
      match updateRow d s pk (deleteStamp userId now) ts₁ with
      | some ts₂ => after ts₂
      | none => ts₁
    else ts
  else if d.admits (deleted d s pk ts) then after (deleted d s pk ts) else ts

/-- An operation of `record_service` on one of the tables. -/
inductive Op
  | create (s : Side) (values : Values) (generated : Value) (userId : Option ℕ) (now : ℤ)
  | update (s : Side) (pk : Value) (values : Values) (userId : Option ℕ) (now : ℤ)
  | remove (s : Side) (pk : Value) (userId : Option ℕ) (now : ℤ)

def step (ts : Tables) : Op → Tables
  | .create s values generated userId now => create lib d s values generated userId now ts
  | .update s pk values userId now => update lib d s pk values userId now ts
  | .remove s pk userId now => remove lib d s pk userId now ts

end Ripple

/-! ### Stamps bind managed columns only -/

section Stamps

variable {userId : Option ℕ} {now : ℤ} {c : String}

theorem auditStamp_unmanaged (hc : c ∉ managed) : (RecordService.auditStamp userId now).lookup c = none := by
  simp only [managed,List.mem_cons,not_or] at hc
  simp [RecordService.auditStamp,List.lookup_cons,beq_false_of_ne hc.2.2.1,beq_false_of_ne hc.2.2.2.1]

theorem createStamp_unmanaged (hc : c ∉ managed) : (createStamp userId now).lookup c = none := by
  have hrest := @auditStamp_unmanaged userId now c hc
  simp only [managed,List.mem_cons,not_or] at hc
  simp [createStamp,List.lookup_cons,beq_false_of_ne hc.1,beq_false_of_ne hc.2.1,hrest]

theorem deleteStamp_unmanaged (hc : c ∉ managed) : (deleteStamp userId now).lookup c = none := by
  simp only [managed,List.mem_cons,not_or] at hc
  simp [deleteStamp,List.lookup_cons,beq_false_of_ne hc.2.2.2.2.1,beq_false_of_ne hc.2.2.2.2.2.1]

end Stamps

end Related
end Biggy
