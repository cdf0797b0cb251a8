import Biggy.Run
import Biggy.SlaClock
import Biggy.FormSave
import Biggy.Relations

/-!
# Deleting in the designer

The designer deletes fields, relations and tables. Form items, rules, composite unique keys and labels refer to them by
id, the conditions of form items by name; what a deletion leaves behind is a matter of which of these it looks at.
-/
namespace Biggy
namespace Designer

open FormRules (Rules references)
open Relations (RelationKind)

/-! ### Rows -/

structure TableRow where
  id : ℕ
  managed : Bool := true
  displayFieldId : Option ℕ := none

structure FieldRow extends MetaField where
  tableId : ℕ

structure RelationRow where
  id : ℕ
  kind : RelationKind
  fromTableId : ℕ
  toTableId : ℕ
  fromFieldId : Option ℕ := none
  junctionPhysName : Option String := none
  toDisplayFieldIds : List ℕ := []
  fromDisplayFieldIds : List ℕ := []

structure FormItem where
  id : ℕ
  fieldId : Option ℕ := none
  relationId : Option ℕ := none
  parentFieldId : Option ℕ := none
  filterFieldId : Option ℕ := none
  rules : Rules := {}

structure Form where
  id : ℕ
  tableId : ℕ
  items : List FormItem

structure TriggerRule where
  id : ℕ
  tableId : ℕ
  fieldId : Option ℕ := none
  condFieldId : Option ℕ := none
  condOp : Option String := none
  condValue : Option String := none
  setFieldId : Option ℕ := none
  createTableId : Option ℕ := none

structure Feed where
  id : ℕ
  sourceTableId : ℕ
  fieldId : Option ℕ := none
  condFieldId : Option ℕ := none
  condOp : Option String := none
  condValue : Option String := none

structure CompositeUnique where
  id : ℕ
  tableId : ℕ
  fieldIds : List ℕ

/-- The metadata of one database, with its primary keys and the unique constraint on the fields of a table. -/
structure Design where
  tables : List TableRow
  fields : List FieldRow
  relations : List RelationRow
  forms : List Form
  triggers : List TriggerRule
  feeds : List Feed
  policies : List SlaPolicy
  uniques : List CompositeUnique
  tableIds : (tables.map TableRow.id).Nodup
  fieldIds : (fields.map fun f => f.id).Nodup
  relationIds : (relations.map RelationRow.id).Nodup
  fieldNames : (fields.map fun f => (f.tableId,f.physName)).Nodup

/-! ### References -/

/-- What a row can refer to; the conditions of form items name a field of the table of the form. -/
inductive Ref
  | table (id : ℕ)
  | field (id : ℕ)
  | relation (id : ℕ)
  | named (tableId : ℕ) (physName : String)
  deriving DecidableEq

def FormItem.refs (tableId : ℕ) (item : FormItem) : List Ref :=
  (item.fieldId.toList++item.parentFieldId.toList++item.filterFieldId.toList).map .field++
    item.relationId.toList.map .relation++(item.rules.trees.flatMap references).map (.named tableId)

def TriggerRule.refs (rule : TriggerRule) : List Ref :=
  .table rule.tableId::((rule.fieldId.toList++rule.condFieldId.toList++rule.setFieldId.toList).map .field++
    rule.createTableId.toList.map .table)

def Feed.refs (feed : Feed) : List Ref :=
  .table feed.sourceTableId::(feed.fieldId.toList++feed.condFieldId.toList).map .field

def policyRefs (policy : SlaPolicy) : List Ref :=
  .table policy.tableId::(policy.statusFieldId.toList++policy.condFieldId.toList++policy.stateFieldId.toList++
    policy.dueFieldId.toList++policy.breachSetFieldId.toList).map .field

def CompositeUnique.refs (u : CompositeUnique) : List Ref := .table u.tableId::u.fieldIds.map .field

def RelationRow.refs (rel : RelationRow) : List Ref := (rel.toDisplayFieldIds++rel.fromDisplayFieldIds).map .field

def TableRow.refs (mt : TableRow) : List Ref := mt.displayFieldId.toList.map .field

/-! ### Conditions of rules -/

/-- The columns of a trigger rule, a feed or a policy that say for which records of its table it applies. -/
structure Condition where
  tableId : ℕ
  condFieldId : Option ℕ
  condOp : Option String
  condValue : Option String

def TriggerRule.condition (rule : TriggerRule) : Condition :=
  ⟨rule.tableId,rule.condFieldId,rule.condOp,rule.condValue⟩

def Feed.condition (feed : Feed) : Condition :=
  ⟨feed.sourceTableId,feed.condFieldId,feed.condOp,feed.condValue⟩

def policyCondition (policy : SlaPolicy) : Condition :=
  ⟨policy.tableId,policy.condFieldId,policy.condOp,policy.condValue⟩

/-- The field and the operator by which the condition is evaluated; without them it holds for every record. -/
def Condition.test (fields : ℕ → Option MetaField) (rule : Condition) : Option (MetaField × String) :=
  match rule.condFieldId, rule.condOp with
  | some id, some op => if id = 0 ∨ op = "" then none else (fields id).map fun f => (f,op)
  | _, _ => none

/-- `_condition_ok`, and `_applies` of the policies. -/
def conditionOk (py : PyLib) (fields : ℕ → Option MetaField) (rule : Condition) (row : Row) : Bool :=
  match rule.test fields with
  | none => true
  | some (f,op) => Triggers.eval py op (row f.physName) rule.condValue

/-- The policies read a condition as the trigger rules do. -/
theorem applies_eq (py : PyLib) (policy : SlaPolicy) (mt : MetaTable) (row : Row) :
    Sla.applies py policy mt row = conditionOk py mt.field (policyCondition policy) row := by
  rcases hfield : policy.condFieldId with _ | id
  · simp [Sla.applies,Sla.fieldOf,conditionOk,Condition.test,policyCondition,hfield]
  rcases hop : policy.condOp with _ | op
  · simp only [Sla.applies,Sla.fieldOf,conditionOk,Condition.test,policyCondition,hfield,hop]
    rcases if id = 0 then none else mt.field id with _ | f <;> rfl
  by_cases hid : id = 0
  · simp [Sla.applies,Sla.fieldOf,conditionOk,Condition.test,policyCondition,hfield,hop,hid]
  rcases hf : mt.field id with _ | f
  · simp [Sla.applies,Sla.fieldOf,conditionOk,Condition.test,policyCondition,hfield,hop,hid,hf]
  · by_cases hempty : op = ""
    · simp [Sla.applies,Sla.fieldOf,conditionOk,Condition.test,policyCondition,hfield,hop,hid,hf,hempty]
    · simp [Sla.applies,Sla.fieldOf,conditionOk,Condition.test,policyCondition,hfield,hop,hid,hf,hempty]

namespace Design

variable (d : Design)

def table (id : ℕ) : Option TableRow := Keyed.find TableRow.id id d.tables

def field (id : ℕ) : Option FieldRow := Keyed.find (fun f => f.id) id d.fields

def relation (id : ℕ) : Option RelationRow := Keyed.find RelationRow.id id d.relations

/-- `{f.id: f for f in mt.fields}.get`. -/
def fieldOf (tableId id : ℕ) : Option MetaField :=
  (Keyed.find (fun f => f.id) id (d.fields.filter fun f => f.tableId = tableId)).map FieldRow.toMetaField

/-- What a reference is to is there. -/
def Has : Ref → Prop
  | .table id => ∃ mt ∈ d.tables, mt.id = id
  | .field id => ∃ f ∈ d.fields, f.id = id
  | .relation id => ∃ rel ∈ d.relations, rel.id = id
  | .named tableId name => ∃ f ∈ d.fields, f.tableId = tableId ∧ f.physName = name

/-- The references of the form items, rules and keys, and labels of some of the rows. -/
def formRefs (keep : Form → FormItem → Bool) : List Ref :=
  d.forms.flatMap fun form => (form.items.filter (keep form)).flatMap (FormItem.refs form.tableId)

def ruleRefs (keep : ℕ → Bool) : List Ref :=
  (d.triggers.filter fun rule => keep rule.tableId).flatMap TriggerRule.refs++
    (d.feeds.filter fun feed => keep feed.sourceTableId).flatMap Feed.refs++
    (d.policies.filter fun policy => keep policy.tableId).flatMap policyRefs++
    (d.uniques.filter fun u => keep u.tableId).flatMap CompositeUnique.refs

def labelRefs (keepRelation : RelationRow → Bool) (keepTable : TableRow → Bool) : List Ref :=
  (d.relations.filter keepRelation).flatMap RelationRow.refs++(d.tables.filter keepTable).flatMap TableRow.refs

def refs : List Ref :=
  d.formRefs (fun _ _ => true)++d.ruleRefs (fun _ => true)++d.labelRefs (fun _ => true) (fun _ => true)

/-- The conditions of the trigger rules, feeds and policies. -/
def conditions : List Condition :=
  d.triggers.map TriggerRule.condition++d.feeds.map Feed.condition++d.policies.map policyCondition

/-! ### Deletions -/

/-- What one request deletes, by `session.delete` or a cascade, and the tables whose label it clears. -/
structure Cut where
  table : TableRow → Bool := fun _ => false
  field : FieldRow → Bool := fun _ => false
  relation : RelationRow → Bool := fun _ => false
  item : Form → FormItem → Bool := fun _ _ => false
  form : Form → Bool := fun _ => false
  rulesOf : ℕ → Bool := fun _ => false
  label : TableRow → Bool := fun _ => false

def Cut.unlabel (c : Cut) (mt : TableRow) : TableRow :=
  if c.label mt then { mt with displayFieldId := none } else mt

/-- `commit` of the deletions. -/
def cut (c : Cut) : Design :=
  { tables := (d.tables.filter fun mt => !c.table mt).map c.unlabel
    fields := d.fields.filter fun f => !c.field f
    relations := d.relations.filter fun rel => !c.relation rel
    forms := (d.forms.filter fun form => !c.form form).map fun form =>
      { form with items := form.items.filter fun item => !c.item form item }
    triggers := d.triggers.filter fun rule => !c.rulesOf rule.tableId
    feeds := d.feeds.filter fun feed => !c.rulesOf feed.sourceTableId
    policies := d.policies.filter fun policy => !c.rulesOf policy.tableId
    uniques := d.uniques.filter fun u => !c.rulesOf u.tableId
    tableIds := by
      have hid : TableRow.id ∘ c.unlabel = TableRow.id := by
        funext mt
        by_cases h : c.label mt <;> simp [Cut.unlabel,h]
      rw [List.map_map,hid]
      exact d.tableIds.sublist (List.filter_sublist.map _)
    fieldIds := d.fieldIds.sublist (List.filter_sublist.map _)
    relationIds := d.relationIds.sublist (List.filter_sublist.map _)
    fieldNames := d.fieldNames.sublist (List.filter_sublist.map _) }

/-- The relation of a field. -/
def relationFrom (fieldId : ℕ) : Option RelationRow := d.relations.find? fun rel => rel.fromFieldId = some fieldId

/-- `field_delete`; `dropped` says whether the column could be dropped. -/
def fieldDelete (tableId fieldId : ℕ) (dropped : Bool) : Design :=
  match d.field fieldId, d.table tableId with
  | some field, some mt =>
    if !mt.managed then d
    else if FormSave.isFile field.dataType || dropped then
      let rel := d.relationFrom fieldId
      d.cut
        { label := fun t => t.id = mt.id && t.displayFieldId = some field.id
          relation := fun r => rel.any fun rel => r.id = rel.id
          field := fun f => f.id = field.id }
    else d
  | _, _ => d

/-- `table_delete`. Fields and forms go with the table, and where the database enforces foreign keys the rules and
keys of the table too. -/
def tableDelete (tableId : ℕ) (enforced : Bool) : Design :=
  match d.table tableId with
  | none => d
  | some mt =>
    if d.relations.any fun rel => rel.fromTableId = tableId || rel.toTableId = tableId then d
    else d.cut
      { table := fun t => t.id = mt.id
        field := fun f => f.tableId = mt.id
        form := fun form => form.tableId = mt.id
        rulesOf := fun id => enforced && id = mt.id }

/-- The field that goes with a relation. -/
def relationField (rel : RelationRow) : Option FieldRow :=
  match rel.kind with
  | .m1 => rel.fromFieldId.bind fun id => if id = 0 then none else d.field id
  | .mn => none

/-- The deletion of a relation drops a column or a junction table. -/
def dropsOf (rel : RelationRow) : Bool :=
  match rel.kind with
  | .m1 => (d.relationField rel).any fun field => (d.table field.tableId).any TableRow.managed
  | .mn => rel.junctionPhysName.any fun name => name ≠ ""

/-- `relation_delete`; `dropped` says whether the column or the junction table could be dropped. -/
def relationDelete (relationId : ℕ) (dropped : Bool) : Design :=
  match d.relation relationId with
  | none => d
  | some rel =>
    if d.dropsOf rel && !dropped then d
    else d.cut
      { field := fun f => (d.relationField rel).any fun field => f.id = field.id
        item := fun _ item => item.relationId = some relationId
        relation := fun r => r.id = rel.id }

end Design

/-- A request to the designer, with the answer of the database where one is needed. -/
inductive Action
  | fieldDelete (tableId fieldId : ℕ) (dropped : Bool)
  | tableDelete (tableId : ℕ) (enforced : Bool)
  | relationDelete (relationId : ℕ) (dropped : Bool)

def step (d : Design) : Action → Design
  | .fieldDelete tableId fieldId dropped => d.fieldDelete tableId fieldId dropped
  | .tableDelete tableId enforced => d.tableDelete tableId enforced
  | .relationDelete relationId dropped => d.relationDelete relationId dropped

end Designer
end Biggy
