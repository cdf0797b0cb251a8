import Biggy.Python
import Biggy.Keyed

/-!
# Metadata rows and physical tables

The columns of the `app_meta_*` and `app_user` rows that the modelled functions
read, and `data_service`'s view of a physical user table.
-/
namespace Biggy

inductive DataType
  | string | text | markdown | integer | bigint | decimal | float | boolean | date | datetime
  | time | enum | tags | user | company | email | url | phone | currency | percent | json
  | autonumber | formula | image | file | relation
  deriving DecidableEq

structure MetaField where
  id : ℕ
  physName : String
  label : String
  dataType : DataType
  nullable : Bool := true
  defaultValue : Option String := none
  enumOptions : Option String := none
  relatedTableId : Option ℕ := none
  minLength : Option ℤ := none
  maxLength : Option ℤ := none
  minValue : Option String := none
  maxValue : Option String := none
  pattern : Option String := none
  deriving DecidableEq

/-- The columns the program manages itself, which no field may be named after. -/
def managed : List String :=
  ["created_by","created_at","updated_by","updated_at","deleted_at","deleted_by"]

theorem unmanaged_fields : ∀ f ∈ ([] : List MetaField), f.physName ∉ managed := List.forall_mem_nil _

/-- A table with its fields. The two uniqueness constraints are those of
`app_meta_field`; the designer refuses a field named like a managed column. -/
structure MetaTable where
  id : ℕ
  physName : String
  label : String
  fields : List MetaField
  pkCol : String := "id"
  trackAudit : Bool := false
  rowOwned : Bool := false
  softDelete : Bool := false
  idsNodup : (fields.map MetaField.id).Nodup
  namesNodup : (fields.map MetaField.physName).Nodup
  namesFree : ∀ f ∈ fields, f.physName ∉ managed

/-- `{f.id: f for f in meta_table.fields}.get(id)`. -/
def MetaTable.field (mt : MetaTable) (id : ℕ) : Option MetaField := Keyed.find MetaField.id id mt.fields

/-- Two fields of one table with the same column are the same field. -/
theorem MetaTable.field_unique (mt : MetaTable) {f g : MetaField} (hf : f ∈ mt.fields)
    (hg : g ∈ mt.fields) (h : f.physName = g.physName) : f = g :=
  List.inj_on_of_nodup_map mt.namesNodup hf hg h

structure AppUser where
  id : ℕ
  role : String
  deriving DecidableEq

def AppUser.isDesigner (user : AppUser) : Bool := user.role == "designer"

/-- A reflected physical table. `key` is the coercion of a submitted key to the
key column's Python type; `admits` stands for every constraint the database
checks at the end of a statement. -/
structure Physical where
  columns : List String
  pk : String
  rows : List Row
  key : Value → Value
  admits : List Row → Bool

namespace Physical

/-- The primary key of a row. -/
def keyOf (t : Physical) (row : Row) : Value := row t.pk

/-- The row stored under a key of the key column's own type. -/
def rowAt (t : Physical) (key : Value) : Option Row := Keyed.find t.keyOf key t.rows

/-- `get_row`. -/
def getRow (t : Physical) (pk : Value) : Option Row := t.rowAt (t.key pk)

/-- The columns of `values` that an update of `t` writes. -/
def clean (t : Physical) (vs : Values) : Values := vs.filter fun p => t.columns.contains p.1 && p.1 != t.pk

/-- The rows after an accepted `update_row`. -/
def writeRow (t : Physical) (pk : Value) (vs : Values) : List Row :=
  t.rows.map fun row => if t.keyOf row = t.key pk then row.write (t.clean vs) else row

/-- `update_row`; the database may refuse the statement, which then changes nothing. -/
def updateRow (t : Physical) (pk : Value) (vs : Values) : Except String Physical :=
  if t.admits (t.writeRow pk vs) then .ok { t with rows := t.writeRow pk vs }
  else .error "IntegrityError"

theorem lookup_clean (t : Physical) (vs : Values) (column : String) :
    (t.clean vs).lookup column =
      if t.columns.contains column && column != t.pk then vs.lookup column else none :=
  Values.lookup_filter (fun name => t.columns.contains name && name != t.pk) vs column

@[simp] theorem keyOf_write (t : Physical) (row : Row) (vs : Values) :
    t.keyOf (row.write (t.clean vs)) = t.keyOf row :=
  Row.write_of_not_mem (by simp [lookup_clean])

theorem updateRow_ok {t t' : Physical} {pk : Value} {vs : Values} (h : t.updateRow pk vs = .ok t') :
    t' = { t with rows := t.writeRow pk vs } := by
  simp only [updateRow] at h
  split at h
  · exact (Except.ok.inj h).symm
  · cases h

/-- An accepted update rewrites the row it names and no other. -/
theorem rowAt_updateRow {t t' : Physical} {pk : Value} {vs : Values} (h : t.updateRow pk vs = .ok t')
    (k : Value) :
    t'.rowAt k = if k = t.key pk then (t.rowAt k).map fun row => row.write (t.clean vs)
      else t.rowAt k := by
  rw [updateRow_ok h]
  have hkey : ∀ row : Row,
      t.keyOf (if t.keyOf row = t.key pk then row.write (t.clean vs) else row) = t.keyOf row := by
    intro row
    split <;> simp
  change Keyed.find t.keyOf k (t.writeRow pk vs) = _
  rw [writeRow,Keyed.find_map hkey]
  change (t.rowAt k).map _ = _
  cases hf : t.rowAt k with
  | none => simp
  | some row =>
    have hrow : t.keyOf row = k := Keyed.key_of_find hf
    by_cases hk : k = t.key pk <;> simp [hrow,hk]

end Physical
end Biggy
