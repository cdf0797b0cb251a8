import Biggy.DatabaseFrame
import Mathlib.Algebra.BigOperators.Group.List.Basic
import Mathlib.Algebra.Order.Ring.Rat

/-!
# Rollups over both kinds of relation

A rollup of the rows that point at a record is one SQL aggregate; a rollup of the rows that a junction links
to it is computed in Python from the rows that are fetched. Numbers are exact.
-/
namespace Biggy
namespace Rollups

open Relations Database

/-- The number that `_is_number` sees in a value. -/
def number : Value → Option ℚ
  | .int n => some n
  | .float (.finite q) => some q
  | .decimal d => d.toRat
  | _ => none

section Aggregates

inductive Aggregate
  | count | sum | avg | min | max
  deriving DecidableEq

/-- `_AGG.get(op)`. -/
def aggregateOf (op : String) : Option Aggregate :=
  if op = "count" then some .count
  else if op = "sum" then some .sum
  else if op = "avg" then some .avg
  else if op = "min" then some .min
  else if op = "max" then some .max
  else none

/-- What a numeric column holds. -/
def IsNumeric (vals : List Value) : Prop := ∀ v ∈ vals, v = .null ∨ (number v).isSome

instance (vals : List Value) : Decidable (IsNumeric vals) := inferInstanceAs (Decidable (∀ v ∈ vals, _ ∨ _))

/-- An SQL aggregate of a column: nulls are skipped, and only a count has a value without any number. What a
database makes of other columns is its own. -/
def sqlAggregate (other : Aggregate → List Value → Option ℚ) (fn : Aggregate) (vals : List Value) : Option ℚ :=
  let nums := vals.filterMap number
  if fn = .count then some (vals.filter fun v => decide (v ≠ .null)).length
  else if IsNumeric vals then
    match fn with
    | .count => none
    | .sum => if nums = [] then none else some nums.sum
    | .avg => if nums = [] then none else some (nums.sum / nums.length)
    | .min => nums.min?
    | .max => nums.max?
  else other fn vals

/-- `min(nums)`: the first of the least. -/
def pyMin : List ℚ → Option ℚ
  | [] => none
  | x::xs => some (xs.foldl (fun best y => if y < best then y else best) x)

/-- `max(nums)`: the first of the greatest. -/
def pyMax : List ℚ → Option ℚ
  | [] => none
  | x::xs => some (xs.foldl (fun best y => if best < y then y else best) x)

/-- `_agg_values`. -/
def aggValues (vals : List Value) (op : String) : Option ℚ :=
  let nums := vals.filterMap number
  if nums = [] then none
  else if op = "sum" then some (nums.foldl (fun total x => total+x) 0)
  else if op = "avg" then some (nums.foldl (fun total x => total+x) 0 / nums.length)
  else if op = "min" then pyMin nums
  else if op = "max" then pyMax nums
  else none

theorem pyMin_eq (nums : List ℚ) : pyMin nums = nums.min? := by
  cases nums with
  | nil => rfl
  | cons x xs =>
    rw [pyMin,List.min?_cons']
    refine congrArg some (congrArg (fun f => xs.foldl f x) (funext fun best => funext fun y => ?_))
    rcases lt_or_ge y best with hlt | hle
    · rw [if_pos hlt,min_eq_right (le_of_lt hlt)]
    · rw [if_neg (not_lt.mpr hle),min_eq_left hle]

theorem pyMax_eq (nums : List ℚ) : pyMax nums = nums.max? := by
  cases nums with
  | nil => rfl
  | cons x xs =>
    rw [pyMax,List.max?_cons']
    refine congrArg some (congrArg (fun f => xs.foldl f x) (funext fun best => funext fun y => ?_))
    rcases lt_or_ge best y with hlt | hle
    · rw [if_pos hlt,max_eq_right (le_of_lt hlt)]
    · rw [if_neg (not_lt.mpr hle),max_eq_left hle]

theorem foldl_add (nums : List ℚ) (total : ℚ) : nums.foldl (fun total x => total+x) total = total + nums.sum := by
  induction nums generalizing total with
  | nil => simp
  | cons x xs ih => rw [List.foldl_cons,ih,List.sum_cons,add_assoc]

theorem aggregateOf_count {op : String} : aggregateOf op = some .count ↔ op = "count" := by
  simp only [aggregateOf]
  split
  · simpa
  · rename_i hne
    simp only [hne,iff_false]
    split_ifs <;> simp

/-- What Python makes of the values of a numeric column is what SQL makes of them, a count apart. -/
theorem aggValues_eq (other : Aggregate → List Value → Option ℚ) {fn : Aggregate} {op : String} (hop : aggregateOf op = some fn)
    (hcount : op ≠ "count") {vals : List Value} (hnumeric : IsNumeric vals) : aggValues vals op = sqlAggregate other fn vals := by
  simp only [aggregateOf,if_neg hcount] at hop
  simp only [aggValues,foldl_add,zero_add,pyMin_eq,pyMax_eq]
  split at hop
  · obtain rfl := Option.some.inj hop
    simp_all [sqlAggregate]
  · split at hop
    · obtain rfl := Option.some.inj hop
      simp_all [sqlAggregate]
    · split at hop
      · obtain rfl := Option.some.inj hop
        rcases eq_or_ne (vals.filterMap number) [] with hnil | hne
        · simp [sqlAggregate,hnumeric,hnil]
        · simp_all [sqlAggregate]
      · split at hop
        · obtain rfl := Option.some.inj hop
          rcases eq_or_ne (vals.filterMap number) [] with hnil | hne
          · simp [sqlAggregate,hnumeric,hnil]
          · simp_all [sqlAggregate]
        · cases hop

theorem aggValues_unknown {op : String} (hop : aggregateOf op = none) (vals : List Value) : aggValues vals op = none := by
  simp only [aggregateOf] at hop
  split_ifs at hop with hcount hsum havg hmin hmax
  simp [aggValues,hsum,havg,hmin,hmax]

/-- The order of the rows does not matter. -/
theorem sqlAggregate_perm (other : Aggregate → List Value → Option ℚ) {vals vals' : List Value} (h : vals.Perm vals')
    (hnumeric : IsNumeric vals) (fn : Aggregate) : sqlAggregate other fn vals = sqlAggregate other fn vals' := by
  have hnums : (vals.filterMap number).Perm (vals'.filterMap number) := h.filterMap number
  have hnumeric' : IsNumeric vals' := fun v hv => hnumeric v (h.mem_iff.mpr hv)
  have hempty : vals.filterMap number = [] ↔ vals'.filterMap number = [] := by
    rw [← List.length_eq_zero_iff,← List.length_eq_zero_iff,hnums.length_eq]
  simp only [sqlAggregate,if_pos hnumeric,if_pos hnumeric',hempty,hnums.sum_eq,hnums.length_eq]
  split
  · rw [(h.filter _).length_eq]
  · cases fn with
    | count | sum | avg => rfl
    | min =>
      refine Option.ext fun least => ?_
      rw [List.min?_eq_some_iff,List.min?_eq_some_iff]
      simp only [hnums.mem_iff]
    | max =>
      refine Option.ext fun greatest => ?_
      rw [List.max?_eq_some_iff,List.max?_eq_some_iff]
      simp only [hnums.mem_iff]

end Aggregates

/-- The database of a site, with the order that `ORDER BY id` brings rows into, the names of the junction tables, and
what it makes of columns that are not numeric. -/
structure Engine where
  site : Site
  byKey : List Row → List Row
  byKeyPerm : ∀ rows, (byKey rows).Perm rows
  junctionPhysName : MetaRelation → String
  otherColumns : Aggregate → List Value → Option ℚ

namespace Engine

variable (E : Engine)

/-- `row.get(col)`, of a row as a dict. -/
def cell (t : MetaTable) (col : String) (row : Row) : Value := if col ∈ E.site.columns t.physName then row col else .null

/-- `aggregate_value`. -/
def aggregateValue (t : MetaTable) (op col whereCol : String) (whereVal : Value) (db : Tables) : Option ℚ :=
  match aggregateOf op with
  | none => none
  | some fn =>
    let rows := (db t.physName).filter fun row =>
      decide (whereCol = "" ∨ whereCol ∉ E.site.columns t.physName) || E.site.equals t.physName whereCol whereVal row
    if fn = .count ∧ (col = "" ∨ col ∉ E.site.columns t.physName) then some rows.length
    else if col ∈ E.site.columns t.physName then sqlAggregate E.otherColumns fn (rows.map (E.cell t col))
    else none

/-- `rows_by_ids`. -/
def rowsByIds (t : MetaTable) (ids : List Value) (db : Tables) : List Row :=
  E.byKey ((db t.physName).filter fun row => decide (row t.pkCol ∈ ids.map (E.site.key t)))

def relationNamed (name : String) : Option MetaRelation := E.site.relations.find? fun rel => decide (rel.name = name)

/-- The id of the table on the other side. -/
def otherId (t : MetaTable) (relation : MetaRelation) : ℕ :=
  if relation.fromTableId = t.id then relation.toTableId else relation.fromTableId

def thisCol (t : MetaTable) : String := t.physName ++ "_id"

def otherCol (t other : MetaTable) : String :=
  if thisCol t = other.physName ++ "_id" then other.physName ++ "_id_2" else other.physName ++ "_id"

/-- `(op or "count").lower()`. -/
def opName (op : String) : String := lower (if op = "" then "count" else op)

/-- `Resolver.rollup`, for one record of a table. -/
def rollup (t : MetaTable) (row : Row) (rel field op : String) (db : Tables) : Except PyError (Option ℚ) :=
  let zero := if opName op = "count" then some 0 else none
  if (row t.pkCol).blank ∨ rel = "" then .ok zero
  else match E.relationNamed rel with
    | none => .ok zero
    | some relation =>
      if relation.kind = .m1 ∧ relation.toTableId = t.id then
        match E.site.table relation.fromTableId, relation.fromFieldId.bind E.site.field with
        | some child, some fkf => .ok (E.aggregateValue child (opName op) field fkf.physName (row t.pkCol) db)
        | _, _ => .ok zero
      else if relation.kind = .mn then
        match E.site.table (otherId t relation) with
        | none => .ok zero
        | some other =>
          if thisCol t ∈ E.site.columns (E.junctionPhysName relation) ∧ otherCol t other ∈ E.site.columns (E.junctionPhysName relation) then
            let ids := E.site.getLinks (E.junctionPhysName relation) (thisCol t) (row t.pkCol) (otherCol t other) db
            if opName op = "count" then .ok (some ids.length)
            else .ok (aggValues ((E.rowsByIds other ids db).map (E.cell other field)) (opName op))
          else .error .keyError
      else .ok zero

/-- The rows whose foreign key points at a record. -/
def pointing (child : MetaTable) (fk : String) (pk : Value) (db : Tables) : List Row :=
  (db child.physName).filter (E.site.equals child.physName fk pk)

/-- A many-to-one relation of that name, from a foreign key of the child. -/
def IsManyToOne (t child : MetaTable) (fk name : String) : Prop :=
  name ≠ "" ∧ ∃ relation, E.relationNamed name = some relation ∧ relation.kind = .m1 ∧ relation.toTableId = t.id ∧
    E.site.table relation.fromTableId = some child ∧
    (∃ fkf, relation.fromFieldId.bind E.site.field = some fkf ∧ fkf.physName = fk) ∧ fk ≠ "" ∧ fk ∈ E.site.columns child.physName

/-- A many-to-many relation of that name to the child, through a junction. -/
def IsManyToMany (t child : MetaTable) (j name : String) : Prop :=
  name ≠ "" ∧ ∃ relation, E.relationNamed name = some relation ∧ relation.kind = .mn ∧ E.site.table (otherId t relation) = some child ∧
    E.junctionPhysName relation = j ∧ thisCol t ∈ E.site.columns j ∧ otherCol t child ∈ E.site.columns j

/-- Both link the same rows to a record. -/
def LinkSame (t child : MetaTable) (fk j : String) (pk : Value) (db : Tables) : Prop :=
  (E.site.getLinks j (thisCol t) pk (otherCol t child) db).Perm ((E.pointing child fk pk db).map fun row => row child.pkCol)

/-- The rollup counts a column that is null in a linked row. -/
def CountsNull (t child : MetaTable) (row : Row) (fk field op : String) (db : Tables) : Prop :=
  opName op = "count" ∧ (row t.pkCol).blank = false ∧ field ≠ "" ∧ field ∈ E.site.columns child.physName ∧
    ∃ linked ∈ E.pointing child fk (row t.pkCol) db, linked field = .null

variable {E}

/-- The rows with the linked keys are the rows that point at the record. -/
theorem rowsByIds_perm {db : Tables} (hdb : E.site.admits db = true) {child : MetaTable} (hchild : child ∈ E.site.tables)
    {p : Row → Bool} {ids : List Value} (hids : ids.Perm (((db child.physName).filter p).map fun row => row child.pkCol)) :
    (E.rowsByIds child ids db).Perm ((db child.physName).filter p) := by
  have hsound := E.site.sound db hdb
  refine (E.byKeyPerm _).trans (List.Perm.of_eq (List.filter_congr fun row hrow => ?_))
  have htyped : ∀ other ∈ db child.physName, E.site.key child (other child.pkCol) = other child.pkCol := fun other hother =>
    hsound.typed _ other hother _
  have hmem : row child.pkCol ∈ ids.map (E.site.key child) ↔ p row = true := by
    constructor
    · intro h
      obtain ⟨id,hid,hkey⟩ := List.mem_map.mp h
      obtain ⟨other,hother,rfl⟩ := List.mem_map.mp (hids.mem_iff.mp hid)
      obtain ⟨hother,hp⟩ := List.mem_filter.mp hother
      rw [htyped other hother] at hkey
      rw [← List.inj_on_of_nodup_map (hsound.keysNodup child hchild) hother hrow hkey]
      exact hp
    · intro hp
      refine List.mem_map.mpr ⟨row child.pkCol,hids.mem_iff.mpr (List.mem_map.mpr ⟨row,List.mem_filter.mpr ⟨hrow,hp⟩,rfl⟩),?_⟩
      exact htyped row hrow
  rw [Bool.eq_iff_iff,decide_eq_true_iff,hmem]

section Kinds

variable {t child : MetaTable} {row : Row} {rel fk j field op : String} {db : Tables}

theorem rollup_blank (hblank : (row t.pkCol).blank = true) :
    E.rollup t row rel field op db = .ok (if opName op = "count" then some 0 else none) := by
  simp [rollup,hblank]

theorem rollup_manyToOne (hrel : E.IsManyToOne t child fk rel) (hkey : (row t.pkCol).blank = false) :
    E.rollup t row rel field op db = .ok (E.aggregateValue child (opName op) field fk (row t.pkCol) db) := by
  obtain ⟨hname,relation,hnamed,hkind,hto,hfrom,⟨fkf,hfk,rfl⟩,-,-⟩ := hrel
  simp [rollup,hkey,hname,hnamed,hkind,hto,hfrom,hfk]

theorem rollup_manyToMany (hrel : E.IsManyToMany t child j rel) (hkey : (row t.pkCol).blank = false) :
    E.rollup t row rel field op db = .ok
      (if opName op = "count" then some (E.site.getLinks j (thisCol t) (row t.pkCol) (otherCol t child) db).length
      else aggValues ((E.rowsByIds child (E.site.getLinks j (thisCol t) (row t.pkCol) (otherCol t child) db) db).map (E.cell child field))
        (opName op)) := by
  obtain ⟨hname,relation,hnamed,hkind,hother,rfl,hthis,hthat⟩ := hrel
  simp only [rollup,hkey,hname,hnamed,hkind,hother,hthis,hthat,or_self,Bool.false_eq_true,if_false,reduceCtorEq,false_and,and_self,
    if_true]
  split <;> rfl

/-- The aggregate of the children, in terms of the rows that point at the record. -/
theorem aggregateValue_pointing (hfk : fk ≠ "") (hheld : fk ∈ E.site.columns child.physName) (pk : Value) :
    E.aggregateValue child op field fk pk db = match aggregateOf op with
      | none => none
      | some fn =>
        if fn = .count ∧ (field = "" ∨ field ∉ E.site.columns child.physName) then some (E.pointing child fk pk db).length
        else if field ∈ E.site.columns child.physName then
          sqlAggregate E.otherColumns fn ((E.pointing child fk pk db).map (E.cell child field))
        else none := by
  simp only [aggregateValue,hfk,hheld,not_true_eq_false,or_self,decide_false,Bool.false_or]
  rfl

theorem count_pointing_iff (hfield : field ∈ E.site.columns child.physName) (rows : List Row) :
    sqlAggregate E.otherColumns .count (rows.map (E.cell child field)) = some (rows.length : ℚ) ↔ ∀ linked ∈ rows, linked field ≠ .null := by
  have hcells : rows.map (E.cell child field) = rows.map fun linked => linked field :=
    List.map_congr_left fun linked _ => if_pos hfield
  have hlength : ((rows.map fun linked => linked field).filter fun v => decide (v ≠ .null)).length = rows.length ↔
      ∀ linked ∈ rows, linked field ≠ .null := by
    have hmap : (rows.map fun linked => linked field).length = rows.length := List.length_map _
    rw [← hmap,List.length_filter_eq_length_iff]
    simp
  simp only [sqlAggregate,if_true,hcells,Option.some.injEq,Nat.cast_inj]
  exact hlength

end Kinds

end Engine

/-! ### A shop with both kinds of relation -/

def totalField : MetaField where
  id := 1
  physName := "total"
  label := "Total"
  dataType := .integer

def customerField : MetaField where
  id := 2
  physName := "customer"
  label := "Customer"
  dataType := .relation
  relatedTableId := some 1

def customers : MetaTable where
  id := 1
  physName := "customers"
  label := "Customers"
  fields := []
  idsNodup := by decide
  namesNodup := by decide
  namesFree := by decide

def orders : MetaTable where
  id := 2
  physName := "orders"
  label := "Orders"
  fields := [totalField,customerField]
  idsNodup := by decide
  namesNodup := by decide
  namesFree := by decide

def shopSchema : Schema where
  tables := [customers,orders]
  relations := [⟨"Orders",.m1,2,1,some 2,none⟩,⟨"Linked",.mn,1,2,none,none⟩]

def shopEngine : Engine where
  site := Site.plain shopSchema
    (fun name => if name = "customers" then ["id"] else if name = "orders" then ["id","total","customer"] else ["customers_id","orders_id"])
    (fun _ _ => true) (fun _ => "") (fun _ => true) (by decide) (by decide) (by decide) (by decide) (by decide) (by decide) (by decide)
    (by decide)
  byKey := id
  byKeyPerm := fun _ => .refl _
  junctionPhysName := fun _ => "j_customers_orders"
  otherColumns := fun _ _ => none

/-- A customer with one order, that has no total yet. -/
def shopTables : Tables := fun name =>
  if name = "customers" then [fun c => if c = "id" then .int 1 else .null]
  else if name = "orders" then [fun c => if c = "id" then .int 7 else if c = "customer" then .int 1 else .null]
  else if name = "j_customers_orders" then [fun c => if c = "customers_id" then .int 1 else if c = "orders_id" then .int 7 else .null]
  else []

theorem shop_manyToOne : shopEngine.IsManyToOne customers orders "customer" "Orders" :=
  ⟨by decide,⟨"Orders",.m1,2,1,some 2,none⟩,by decide,rfl,rfl,rfl,⟨customerField,rfl,rfl⟩,by decide,by decide⟩

theorem shop_manyToMany : shopEngine.IsManyToMany customers orders "j_customers_orders" "Linked" :=
  ⟨by decide,⟨"Linked",.mn,1,2,none,none⟩,by decide,rfl,rfl,rfl,by decide,by decide⟩

theorem shop_linkSame : shopEngine.LinkSame customers orders "customer" "j_customers_orders" (.int 1) shopTables := by
  have hlinks : shopEngine.site.getLinks "j_customers_orders" (Engine.thisCol customers) (.int 1) (Engine.otherCol customers orders) shopTables =
      (shopEngine.pointing orders "customer" (.int 1) shopTables).map fun row => row orders.pkCol := by decide
  exact List.Perm.of_eq hlinks

/-- The record of the customer. -/
def customerRow : Row := fun c => if c = "id" then .int 1 else .null

end Rollups
end Biggy
