import Biggy.RulesReadBack

/-!
# Form templates

`capture` takes a layout off a form: its fields by name, its relations by a key of the template. `mapConfig` sets it up on a
form again, for fields, relations and match fields that are chosen.
-/
namespace Biggy
namespace FormTemplates

open FormRules FormDesign

/-- The form's table beside the other tables, and the names of the relations. Ids count from one. -/
structure Schema extends Site where
  tableAt : ℕ → Option MetaTable
  relationName : ℤ → String
  idsPositive : ∀ id t, tableAt id = some t → ∀ f ∈ t.fields, 1 ≤ f.id

structure FieldSpec where
  label : String
  type : DataType
  choices : Json

/-- An item of a template. -/
structure TemplateItem where
  columns : Members
  field : Option String := none
  parent : Option String := none
  filter : Option String := none
  relation : Option String := none

structure Template where
  version : ℤ := 1
  description : Json
  purpose : Json
  fields : List (String × FieldSpec)
  relations : List (String × String)
  items : List TemplateItem

/-! ### Sets of JSON values -/

def hashable : Json → Bool
  | .arr _ | .obj _ => false
  | _ => true

def number : Json → Option PyFloat
  | .bool b => some (.finite (if b then 1 else 0))
  | .int n => some (.finite n)
  | .float x => some x
  | _ => none

/-- `==` of two hashable values. -/
def equal : Json → Json → Bool
  | .null, .null => true
  | .str s, .str t => s = t
  | a, b =>
    match number a, number b with
    | some x, some y => x = y && x ≠ .nan
    | _, _ => false

/-- `set(value)`, with its elements as they come. -/
def setOf : Json → Except PyError (List Json)
  | .arr items => if items.all hashable then .ok items else .error .typeError
  | .obj members => .ok (members.map fun p => .str p.1)
  | .str s => .ok (s.toList.map fun c => .str c.toString)
  | _ => .error .typeError

/-- `set(a).issubset(b)`. -/
def issubset (a b : Json) : Except PyError Bool :=
  match setOf a, setOf b with
  | .error e, _ => .error e
  | _, .error e => .error e
  | .ok xs, .ok ys => .ok (xs.all fun x => ys.any (equal x))

/-! ### Capture -/

section Capture

variable {ω : Type*} (lib : DesignLib ω) (S : Schema)

/-- `next(f for f in table.fields if f.id == id)`. -/
def fieldIn (table : MetaTable) : Json → Option MetaField
  | .int n => table.fields.find? fun f => decide ((f.id : ℤ) = n)
  | _ => none

/-- `session.get(MetaTable, field.related_table_id)`. -/
def Schema.related (field : MetaField) : Option MetaTable := field.relatedTableId.bind S.tableAt

def isRelation (item : Members) : Bool :=
  match Json.get item "kind" with
  | .str kind => kind = "relation"
  | _ => false

/-- The keys of an item that a template has as they are. -/
def copied : List String := ["kind","label_override","help_text","required","readonly","rules_json","widget"]

def relationKey (n : ℕ) : String := "relation_"++toString n

/-- What the loop of `capture` has gathered. -/
structure Captured where
  fields : List (String × FieldSpec) := []
  relations : List (String × String) := []
  items : List TemplateItem := []

/-- `json.loads(field.enum_options or '[]')`. -/
def enumOptions (field : MetaField) : Except PyError Json := lib.loads ((field.enumOptions.filter (· ≠ "")).getD "[]")

/-- The choices of a field, which only an enumeration has. -/
def specChoices (field : MetaField) : Except PyError Json :=
  if field.dataType = .enum then enumOptions lib field else .ok (.arr [])

/-- The item of a field, with the names of its parent and of its match field. -/
def captureField (c : Captured) (item : Members) (row : TemplateItem) : Except PyError Captured :=
  match S.field (Json.get item "field_id") with
  | none => .error .keyError
  | some field =>
    match specChoices lib field with
    | .error e => .error e
    | .ok choices =>
      let fields := Keyed.put Prod.fst (field.physName,⟨field.label,field.dataType,choices⟩) c.fields
      if (Json.get item "parent_field_id").truthy then
        match S.field (Json.get item "parent_field_id") with
        | none => .error (.valueError "Fix the dependent dropdown before saving a template.")
        | some parent =>
          let found := (S.related field).bind fun target => fieldIn target (Json.get item "filter_field_id")
          .ok { c with
            fields := fields
            items := c.items++[{ row with
              field := some field.physName
              parent := some parent.physName
              filter := found.map MetaField.physName }] }
      else .ok { c with fields := fields, items := c.items++[{ row with field := some field.physName }] }

/-- The item of a relation, under the next key of the template. -/
def captureRelation (c : Captured) (item : Members) (row : TemplateItem) : Except PyError Captured :=
  match Json.get item "relation_id", S.relationAt (Json.get item "relation_id") with
  | .int n, some _ =>
    let key := relationKey c.relations.length
    .ok { c with
      relations := Keyed.put Prod.fst (key,S.relationName n) c.relations
      items := c.items++[{ row with relation := some key }] }
  | _, _ => .error .attributeError

/-- The loop of `capture`. -/
def captureItem (c : Captured) : Json → Except PyError Captured
  | .obj item =>
    let row : TemplateItem := { columns := copied.map fun key => (key,Json.get item key) }
    if isField item then captureField lib S c item row
    else if isRelation item then captureRelation S c item row
    else .ok { c with items := c.items++[row] }
  | _ => .error .typeError

/-- `capture`. -/
def capture (config : Json) : Except PyError Template :=
  match validateConfig lib S.toSite config with
  | .error e => .error e
  | .ok (config,_) =>
    match (itemsOf config).foldlM (captureItem lib S) {} with
    | .error e => .error e
    | .ok c => .ok {
        description := entry config "description"
        purpose := entry config "purpose"
        fields := c.fields
        relations := c.relations
        items := c.items }

end Capture

/-! ### The names in conditions -/

section Remap

variable (mapped : List (String × MetaField))

/-- `'field' in node` and what comes of it where `node` is no dict. -/
def notDict : Json → PyError
  | .arr items => if items.any (equal (.str "field")) then .typeError else .attributeError
  | .str s => if isIn "field" s then .typeError else .attributeError
  | _ => .typeError

mutual

/-- `remap`: the condition with the names of the mapped fields. -/
def remap : Json → Except PyError Json
  | .obj members =>
    if (members.lookup "field").isSome then
      match readName (Json.get members "field") with
      | .error e => .error e
      | .ok name =>
        match name.bind fun n => mapped.lookup n with
        | none => .error (.valueError "A condition refers to a field missing from the template.")
        | some field => .ok (.obj (set members "field" (.str field.physName)))
    else if (members.lookup "all").isSome then (remapMember "all" members).map .obj
    else (remapMember "any" members).map .obj
  | node => .error (notDict node)

/-- The children of a group are under its key. -/
def remapMember (key : String) : List (String × Json) → Except PyError (List (String × Json))
  | [] => .ok []
  | (name,value)::members =>
    if name = key then (remapChildren value).map fun value => (name,value)::members
    else (remapMember key members).map fun members => (name,value)::members

/-- `for child in children: remap(child)`. -/
def remapChildren : Json → Except PyError Json
  | .arr items => (remapItems items).map .arr
  | .obj [] => .ok (.obj [])
  | .obj ((name,_)::_) => .error (notDict (.str name))
  | .str s => if s = "" then .ok (.str "") else .error .attributeError
  | _ => .error .typeError

def remapItems : List Json → Except PyError (List Json)
  | [] => .ok []
  | item::items =>
    match remap item, remapItems items with
    | .error e, _ => .error e
    | _, .error e => .error e
    | .ok item, .ok items => .ok (item::items)

end

/-- `for tree in rules.values(): remap(tree)`; the first member of a name counts. -/
def remapRules : List String → Members → Except PyError Members
  | _, [] => .ok []
  | seen, (key,tree)::rules =>
    if key ∈ seen then (remapRules seen rules).map ((key,tree)::·)
    else
      match remap mapped tree, remapRules (key::seen) rules with
      | .error e, _ => .error e
      | _, .error e => .error e
      | .ok tree, .ok rules => .ok ((key,tree)::rules)

end Remap

/-! ### Setting a template up -/

section Setup

variable {ω : Type*} (lib : DesignLib ω) (S : Schema)

/-- `compatible`. -/
def compatible (spec : FieldSpec) (field : MetaField) : Except PyError Bool :=
  if spec.type ≠ field.dataType then .ok false
  else if field.dataType = .enum then
    match setOf spec.choices, enumOptions lib field with
    | .error e, _ => .error e
    | _, .error e => .error e
    | .ok _, .ok options => issubset spec.choices options
  else .ok true

/-- The field that is chosen for a field of the template. -/
def mapField (fieldMapping : Members) (p : String × FieldSpec) : Except PyError (String × MetaField) :=
  let choose : PyError := .valueError (p.2.label++": choose a compatible field on the target table.")
  match S.field (Json.get fieldMapping p.1) with
  | none => .error choose
  | some field =>
    match compatible lib p.2 field with
    | .error e => .error e
    | .ok fits => if fits then .ok (p.1,field) else .error choose

/-- A relation that is chosen for a relation of the template. -/
def checkRelation (id : Json) : Except PyError Unit :=
  match id with
  | .int n =>
    match S.relation n with
    | none => .error (.valueError "Choose a many-to-many relationship involving the target table.")
    | some rel =>
      if rel.kind ≠ "mn" ∨ ¬(S.table.id = rel.fromTableId ∨ S.table.id = rel.toTableId) then
        .error (.valueError "Choose a many-to-many relationship involving the target table.")
      else .ok ()
  | _ => .error (.valueError "Choose a valid relationship.")

/-- The fields of the related table that point where the parent points. -/
def candidates (field parent : MetaField) : List MetaField :=
  match S.related field with
  | none => []
  | some target => target.fields.filter fun f => decide (f.dataType = .relation ∧ f.relatedTableId = parent.relatedTableId)

/-- The match field: the one that is chosen, the one of the captured name or the only one. -/
def matchField (field parent : MetaField) (captured : Option String) (choice : Json) : Except PyError ℤ :=
  match choice with
  | .null =>
    match (candidates S field parent).filter fun f => decide (some f.physName = captured) with
    | [f] => .ok f.id
    | _ =>
      match candidates S field parent with
      | [f] => .ok f.id
      | _ => .error (.valueError (field.label++": choose its dependent-dropdown match field."))
  | .int n =>
    if n ∈ (candidates S field parent).map fun f => (f.id : ℤ) then .ok n
    else .error (.valueError (field.label++": choose a valid dependent-dropdown match field."))
  | _ => .error (.valueError (field.label++": choose a valid dependent-dropdown match field."))

/-- The columns of an item that do not depend on the mapping. -/
def plainItem (source : TemplateItem) : Members :=
  itemKeys.map fun key => (key,if key ∈ copied ∧ key ≠ "rules_json" then Json.get source.columns key else .null)

/-- The parent and the match field of a dependent dropdown. -/
def mapDropdown (mapped : List (String × MetaField)) (filters : Members) (source : TemplateItem) (name : String)
    (field : MetaField) (item : Members) : Except PyError Members :=
  match source.parent.filter (· ≠ "") with
  | none => .ok item
  | some parentName =>
    match mapped.lookup parentName with
    | none => .error .keyError
    | some parent =>
      (matchField S field parent source.filter (Json.get filters name)).map fun id =>
        set (set item "parent_field_id" (.int parent.id)) "filter_field_id" (.int id)

/-- The item of a field. -/
def mapFieldItem (mapped : List (String × MetaField)) (filters : Members) (source : TemplateItem) : Except PyError Members :=
  match source.field.bind fun name => (mapped.lookup name).map fun field => (name,field) with
  | none => .error .keyError
  | some (name,field) =>
    match parseRules lib.toFormLib (Json.get source.columns "rules_json") with
    | .error e => .error e
    | .ok rules =>
      match remapRules mapped [] rules with
      | .error e => .error e
      | .ok rules =>
        mapDropdown S mapped filters source name field
          (set (set (plainItem source) "field_id" (.int field.id)) "rules_json"
            (if rules.isEmpty then .null else .str (lib.dump (.obj rules))))

/-- The loop over the items of the template. -/
def mapItem (mapped : List (String × MetaField)) (relationMapping filters : Members) (source : TemplateItem) :
    Except PyError Json :=
  if isField source.columns then (mapFieldItem lib S mapped filters source).map .obj
  else if isRelation source.columns then
    match source.relation.bind fun key => relationMapping.lookup key with
    | none => .error .keyError
    | some id => .ok (.obj (set (plainItem source) "relation_id" id))
  else .ok (.obj (plainItem source))

/-- The target's own settings with the description, the purpose and the items of the template. -/
def settled (form : MetaForm) (template : Template) (items : List Json) : Members :=
  set (set (set (membersOf (snapshot form)) "description" template.description) "purpose" template.purpose) "items" (.arr items)

def sameNames (names names' : List String) : Bool := names.all (· ∈ names') && names'.all (· ∈ names)

/-- `map_config` for mappings that are dicts. -/
def mapMembers (form : MetaForm) (template : Template) (fieldMapping relationMapping filters : Members) :
    Except PyError (Json × List Issue) :=
  if ¬(sameNames (fieldMapping.map Prod.fst) (template.fields.map Prod.fst) ∧
      sameNames (relationMapping.map Prod.fst) (template.relations.map Prod.fst)) then
    .error (.valueError "Map every template field and relationship.")
  else
    match template.fields.mapM (mapField lib S fieldMapping) with
    | .error e => .error e
    | .ok mapped =>
      if ¬(mapped.map fun p => p.2.id).Nodup then .error (.valueError "Map each template field to a different target field.")
      else if ¬(relationMapping.all fun p => hashable p.2) then .error .typeError
      else if ¬(relationMapping.map Prod.snd).Pairwise (fun a b => equal a b = false) then
        .error (.valueError "Map each relationship to a different target relationship.")
      else
        match (relationMapping.map Prod.snd).mapM (checkRelation S) with
        | .error e => .error e
        | .ok _ =>
          match template.items.mapM (mapItem lib S mapped relationMapping filters) with
          | .error e => .error e
          | .ok items => validateConfig lib S.toSite (.obj (settled form template items))

/-- `map_config`. -/
def mapConfig (form : MetaForm) (template : Template) (fieldMapping relationMapping filters : Json) :
    Except PyError (Json × List Issue) :=
  if template.version ≠ 1 then .error (.valueError "This template version is not supported.")
  else
    match fieldMapping, relationMapping, filters with
    | .obj fieldMapping, .obj relationMapping, .obj filters =>
      mapMembers lib S form template fieldMapping relationMapping filters
    | _, _, _ => .error (.valueError "Choose field and relationship mappings.")

end Setup

end FormTemplates
end Biggy
