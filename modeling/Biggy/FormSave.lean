import Biggy.ApprovalWrites
import Biggy.FormTrust

/-!
# Saving a form

`build_form` leaves out what the user may not see and locks what the user may not write, `bind` computes the states of
the rules from the stored record and the submission, `validate` takes the kept fields out and puts them back, and
`_collect` reads the others. What is left after the held transitions goes to `record_service`.
-/
namespace Biggy
namespace FormSave

open FormRules ApprovalWrites

/-! ### The layout -/

inductive Access
  | none | read | write
  deriving DecidableEq

inductive DefinitionKind
  | section_ | field | relation
  deriving DecidableEq

/-- A row of `app_meta_form_field`, with what `parse` makes of its rules. -/
structure Definition where
  id : ℕ
  kind : DefinitionKind
  fieldId : Option ℕ := .none
  relationId : Option ℕ := .none
  required : Bool := false
  readonly : Bool := false
  rules : Except PyError Rules := .ok {}

inductive ItemKind
  | section_ | field | relationM1 | relationMn | file
  deriving DecidableEq

structure FormItem where
  name : String
  kind : ItemKind
  readonly : Bool := false
  hidden : Bool := false
  column : Option String := .none
  field : Option MetaField := .none

/-- A form of a table. `links` says which relations are many-to-many, `default` what the default of a field gives to a
user, if it converts; `checks` and `parents` are the validators of the fields and the check of the dependent pickers,
and `value` is what is written of the data of a field. -/
structure Form (ω : Type*) where
  catalog : Catalog
  definitions : List Definition
  links : ℕ → Bool
  perms : String → ℕ → Option Access
  default : AppUser → MetaField → Option Value
  checks : List String → Bool
  parents : List String → List String → Bool
  value : MetaField → FieldData ω → Value

/-- What WTForms makes of a request: the data of a field by name, and the fields that every form has. -/
structure Submission (ω : Type*) where
  data : String → FieldData ω
  own : String → Option (FieldData ω)

section Build

variable {ω : Type*} (form : Form ω) (user : AppUser)

/-- `fperm.get(mf.id, "write")`, where a designer has no permissions to look up. -/
def access (field : MetaField) : Access :=
  if user.isDesigner then .write else (form.perms user.role field.id).getD .write

/-- `FILE_TYPES`. -/
def isFile (t : DataType) : Bool := t ∈ [DataType.file,.image]

def isComputed (t : DataType) : Bool := t ∈ [DataType.autonumber,.formula]

def fieldKind (t : DataType) : ItemKind :=
  if isFile t then .file else if t = .relation then .relationM1 else .field

/-- The body of the loop of `build_form`. -/
def buildItem (d : Definition) : Option FormItem :=
  match d.kind with
  | .section_ => some { name := "section_"++toString d.id, kind := .section_ }
  | .field =>
    match d.fieldId.bind form.catalog.table.field with
    | none => none
    | some field =>
      if access form user field = .none then none
      else some {
        name := field.physName
        kind := fieldKind field.dataType
        readonly := d.readonly || decide (access form user field = .read) || isComputed field.dataType
        column := some field.physName
        field := some field }
  | .relation =>
    match d.relationId with
    | none => none
    | some id =>
      if form.links id then some { name := "rel_"++toString id, kind := .relationMn, readonly := d.readonly } else none

def buildItems : List FormItem := form.definitions.filterMap (buildItem form user)

/-! ### The states -/

/-- `by_field.get(item.meta.id)`: the last definition of a field counts. -/
def definitionOf (id : ℕ) : Option Definition :=
  form.definitions.reverse.find? fun d => decide (d.kind = .field ∧ d.fieldId = some id)

/-- The entry of an item in the config of `bind`. -/
def entryOf (item : FormItem) : Except PyError (Option (String × Item)) :=
  if item.kind ∈ [ItemKind.field,.relationM1,.file] then
    match item.field.bind fun field => (definitionOf form field.id).map fun d => (field,d) with
    | none => .ok none
    | some (field,d) => d.rules.map fun rules => some (item.name,⟨rules,field.dataType,item.readonly,d.required || !field.nullable⟩)
  else .ok none

/-- The config of `bind`. -/
def configOf (items : List FormItem) : Except PyError FormConfig :=
  (items.mapM (entryOf form)).map fun entries =>
    ⟨Keyed.puts Prod.fst (entries.filterMap id),Keyed.nodup_puts _⟩

def hasRules (config : FormConfig) : Bool := config.items.any fun p => !p.2.rules.trees.isEmpty

/-- The names of the generated fields. -/
def fieldNames (items : List FormItem) : List String :=
  (items.filter fun item => decide (item.kind ∈ [ItemKind.field,.relationM1,.relationMn])).map FormItem.name

def values (items : List FormItem) (submission : Submission ω) (name : String) : Option (FieldData ω) :=
  if name ∈ fieldNames items then some (submission.data name) else submission.own name

/-- `initial`: the stored record, and the defaults of what it does not have. -/
def initial (config : FormConfig) (items : List FormItem) (columns : List String) (row : Option Row) (name : String) :
    Option Value :=
  match row.bind fun row => if name ∈ columns then some (row name) else none with
  | some v => some v
  | none =>
    match items.find? fun item => decide (item.name = name ∧ name ∈ config.names) with
    | none => none
    | some item => item.field.bind fun field => if isComputed field.dataType then none else form.default user field

/-- A value as the rules see it. -/
def toData (lib : FormLib ω) : Value → FieldData ω
  | .null => .none
  | .bool b => .bool b
  | v => .text (lib.toPyLib.str v)

/-- `rule_trusted`. -/
def trusted (lib : FormLib ω) (config : FormConfig) (items : List FormItem) (columns : List String) (row : Option Row)
    (name : String) : Option (FieldData ω) :=
  if name ∈ config.names then (initial form user config items columns row name).map (toData lib) else none

/-- The states of the form for a stored record and a submission. -/
def formStates (arrangement : Arrangement) (lib : FormLib ω) (columns : List String) (row : Option Row)
    (submission : Submission ω) : Except PyError (List (String × FieldState)) :=
  (configOf form (buildItems form user)).bind fun config =>
    states arrangement lib config (values (buildItems form user) submission)
      (trusted form user lib config (buildItems form user) columns row)

/-- `item.hidden` and `item.readonly` by the state of the item. -/
def settle (states : List (String × FieldState)) (item : FormItem) : FormItem :=
  match states.lookup item.name with
  | none => item
  | some state => { item with hidden := !state.visible, readonly := state.readonly || !state.visible }

/-! ### Validation and collection -/

/-- The field is taken out for the validation. -/
def takenOut (states : List (String × FieldState)) (name : String) : Bool := (states.lookup name).any FieldState.kept

/-- `_fields` during and after `validate`. -/
def validated (rules : Bool) (states : List (String × FieldState)) (names : List String) : List String × List String :=
  let removed := if rules then names.filter (takenOut states) else []
  let left := if rules then names.filter fun name => !takenOut states name else names
  (left,left++removed)

/-- `validate`. -/
def validate (rules : Bool) (states : List (String × FieldState)) (names : List String) : Bool :=
  let fields := validated rules states names
  form.checks fields.1 && form.parents (fields.2.filter fun name => name ∉ fields.1) fields.2

/-- The column that `_collect` writes of an item. -/
def collectItem (submission : Submission ω) (item : FormItem) : Option (String × Value) :=
  if item.kind ∈ [ItemKind.field,.relationM1] ∧ item.readonly = false then
    match item.column, item.field with
    | some column, some field => some (column,form.value field (submission.data item.name))
    | _, _ => none
  else none

/-- The links that `_collect` sets. -/
def collectLinks (submission : Submission ω) (items : List FormItem) : List (String × FieldData ω) :=
  (items.filter fun item => decide (item.kind = .relationMn ∧ item.readonly = false)).map fun item =>
    (item.name,submission.data item.name)

/-- `_collect`. -/
def collect (submission : Submission ω) (items : List FormItem) : Values :=
  Keyed.puts Prod.fst (items.filterMap (collectItem form submission))

/-! ### The save -/

inductive SaveError
  | notFound
  | python (e : PyError)
  | invalid
  | refused (message : String)

variable (arrangement : Arrangement) (lib : FormLib ω)

/-- The values of a submission for a stored record, or for a new one. -/
def submitted (columns : List String) (row : Option Row) (submission : Submission ω) : Except SaveError Values :=
  match configOf form (buildItems form user), formStates form user arrangement lib columns row submission with
  | .error e, _ => .error (.python e)
  | _, .error e => .error (.python e)
  | .ok config, .ok states =>
    if validate form (hasRules config) states (fieldNames (buildItems form user)) then
      .ok (collect form submission ((buildItems form user).map (settle states)))
    else .error .invalid

/-- `_save_record` of a record: the values that are no held transitions go to `record_service.update`. -/
def saveRecord (db : Db) (pk : Value) (submission : Submission ω) (now : ℤ) : Except SaveError Db :=
  match form.catalog.getRecord db.data pk user with
  | none => .error .notFound
  | some row =>
    match submitted form user arrangement lib db.data.columns (some row) submission with
    | .error e => .error e
    | .ok values => (form.catalog.update db pk values user now).mapError SaveError.refused

/-- What `_save_record` passes to `record_service`: all values of a new record, and of a stored one those that are no
held transitions. -/
def passed (row : Option Row) (values : Values) : Values :=
  match row with
  | none => values
  | some old =>
    (Approvals.planDiversions form.catalog.steps form.catalog.table old form.catalog.tableWorkflows values).2

/-! ### What a save may write -/

/-- An item of the layout opens a column: it is not locked, the user may write its field, and the states show it as
visible and not read-only. -/
def Opens (states : List (String × FieldState)) (column : String) : Prop :=
  ∃ d ∈ form.definitions, ∃ field ∈ form.catalog.table.fields, d.kind = .field ∧ d.fieldId = some field.id ∧
    field.physName = column ∧ d.readonly = false ∧ isComputed field.dataType = false ∧ access form user field = .write ∧
    ∃ state, states.lookup column = some state ∧ state.visible = true ∧ state.readonly = false

end Build

section Proofs

variable {ω : Type*} {form : Form ω} {user : AppUser}

theorem buildItem_field {d : Definition} {item : FormItem} {field : MetaField} (h : buildItem form user d = some item)
    (hfield : item.field = some field) : d.kind = .field ∧ d.fieldId = some field.id ∧ field ∈ form.catalog.table.fields ∧
      access form user field ≠ .none ∧ item.name = field.physName ∧ item.column = some field.physName ∧
      item.kind = fieldKind field.dataType ∧
      item.readonly = (d.readonly || decide (access form user field = .read) || isComputed field.dataType) := by
  simp only [buildItem] at h
  split at h
  · obtain rfl := Option.some.inj h
    cases hfield
  · rename_i hkind
    split at h
    · cases h
    · rename_i f hf
      split at h
      · cases h
      · rename_i haccess
        obtain rfl := Option.some.inj h
        obtain rfl := Option.some.inj hfield
        obtain ⟨id,hid,hfind⟩ := Option.bind_eq_some_iff.mp hf
        obtain rfl : f.id = id := Keyed.key_of_find hfind
        exact ⟨hkind,hid,Keyed.mem_of_find hfind,haccess,rfl,rfl,rfl,rfl⟩
  · split at h
    · cases h
    · split at h
      · obtain rfl := Option.some.inj h
        cases hfield
      · cases h

theorem mem_buildItems {item : FormItem} (h : item ∈ buildItems form user) :
    ∃ d ∈ form.definitions, buildItem form user d = some item := List.mem_filterMap.mp h

/-- A field of the form has a definition. -/
theorem definitionOf_isSome {d : Definition} (hd : d ∈ form.definitions) {id : ℕ} (hkind : d.kind = .field)
    (hid : d.fieldId = some id) : ∃ d', definitionOf form id = some d' := by
  rw [← Option.isSome_iff_exists,definitionOf,List.find?_isSome]
  exact ⟨d,List.mem_reverse.mpr hd,decide_eq_true ⟨hkind,hid⟩⟩

theorem fieldKind_bound (t : DataType) : fieldKind t ∈ [ItemKind.field,.relationM1,.file] := by
  simp only [fieldKind]
  split_ifs <;> decide

/-- Every item of a field has an entry in the config. -/
theorem mem_config {config : FormConfig} (hconfig : configOf form (buildItems form user) = .ok config) {item : FormItem}
    (hitem : item ∈ buildItems form user) {field : MetaField} (hfield : item.field = some field) :
    ∃ p ∈ config.items, p.1 = item.name := by
  obtain ⟨entries,hentries,rfl⟩ := Outcome.map_ok hconfig
  obtain ⟨d,hd,hbuild⟩ := mem_buildItems hitem
  obtain ⟨hkind,hid,-,-,-,-,hitemkind,-⟩ := buildItem_field hbuild hfield
  obtain ⟨d',hd'⟩ := definitionOf_isSome hd hkind hid
  obtain ⟨entry,hentry,hof⟩ := Outcome.mapM_into hentries hitem
  have hkinds : item.kind ∈ [ItemKind.field,.relationM1,.file] := hitemkind ▸ fieldKind_bound field.dataType
  simp only [entryOf,hkinds,if_true,hfield,Option.bind_some,hd',Option.map_some] at hof
  obtain ⟨rules,-,rfl⟩ := Outcome.map_ok hof
  have hmem : (item.name,_) ∈ entries.filterMap id := List.mem_filterMap.mpr ⟨_,hentry,rfl⟩
  exact @Keyed.exists_mem_puts _ _ _ Prod.fst _ _ hmem

/-- An entry of the config is that of an item, with its lock. -/
theorem of_mem_config {config : FormConfig} (hconfig : configOf form (buildItems form user) = .ok config)
    {p : String × Item} (hp : p ∈ config.items) :
    ∃ item ∈ buildItems form user, ∃ field, item.field = some field ∧ p.1 = item.name ∧ p.2.locked = item.readonly := by
  obtain ⟨entries,hentries,rfl⟩ := Outcome.map_ok hconfig
  obtain ⟨entry,hentry,hid⟩ := List.mem_filterMap.mp (Keyed.mem_puts hp)
  obtain ⟨item,hitem,hof⟩ := Outcome.mapM_from hentries hentry
  obtain rfl : entry = some p := hid
  rw [entryOf] at hof
  split at hof
  · split at hof
    · cases hof
    · rename_i field d hfield
      obtain ⟨rules,-,hp⟩ := Outcome.map_ok hof
      obtain ⟨field',hfield',hpair⟩ := Option.bind_eq_some_iff.mp hfield
      obtain ⟨d',-,hpair⟩ := Option.map_eq_some_iff.mp hpair
      obtain rfl := Option.some.inj hp
      exact ⟨item,hitem,field',hfield',rfl,rfl⟩
  · cases hof

/-- Every field of the config has a state, that of its rules for some values. -/
theorem states_lookup {arrangement : Arrangement} {lib : FormLib ω} {config : FormConfig}
    {values trusted : String → Option (FieldData ω)} {result : List (String × FieldState)}
    (h : states arrangement lib config values trusted = .ok result) {name : String} (hname : name ∈ config.names) :
    ∃ env, result.lookup name = some (fieldState lib config name env) := by
  obtain ⟨names,hnames,rfl⟩ := Outcome.map_ok h
  have hin : name ∈ names := by
    rw [order] at hnames
    split at hnames
    · rename_i visited hvisits
      obtain rfl := Except.ok.inj hnames
      exact (Dependency.visits_ok .nil hvisits).2.2 name hname
    · cases hnames
    · cases hnames
  have hkeys := @Dependency.System.run_names _ _ _ _ (rules lib config trusted)
    (withLocked config (stored trusted) values) names
  rw [← hkeys] at hin
  obtain ⟨p,hp,hpname⟩ := List.mem_map.mp hin
  cases hlookup : ((rules lib config trusted).run names (withLocked config (stored trusted) values)).2.lookup name with
  | none =>
    refine absurd (List.lookup_eq_none_iff.mp hlookup p hp) ?_
    simp [hpname]
  | some state =>
    obtain ⟨before,after,hsplit,-⟩ := List.lookup_eq_some_iff.mp hlookup
    have hmem : (name,state) ∈ ((rules lib config trusted).run names (withLocked config (stored trusted) values)).2 := by
      simp [hsplit]
    obtain ⟨env,henv⟩ := Dependency.System.run_evaluated hmem
    exact ⟨env,congrArg some henv⟩

/-- What is collected is a column that the layout opens. -/
theorem collect_opens {arrangement : Arrangement} {lib : FormLib ω} {columns : List String} {row : Option Row}
    {submission : Submission ω} {states : List (String × FieldState)}
    (hstates : formStates form user arrangement lib columns row submission = .ok states) {p : String × Value}
    (hp : p ∈ collect form submission ((buildItems form user).map (settle states))) : Opens form user states p.1 := by
  obtain ⟨config,hconfig,hresult⟩ := Outcome.bind_ok hstates
  obtain ⟨settled,hsettled,hwrite⟩ := List.mem_filterMap.mp (Keyed.mem_puts hp)
  obtain ⟨item,hitem,rfl⟩ := List.mem_map.mp hsettled
  rw [collectItem] at hwrite
  split at hwrite
  case isFalse => cases hwrite
  case isTrue hopen =>
  have hkept : (settle states item).name = item.name ∧ (settle states item).column = item.column ∧
      (settle states item).field = item.field := by
    rw [settle]
    split <;> exact ⟨rfl,rfl,rfl⟩
  split at hwrite
  case h_2 => cases hwrite
  case h_1 column field hcolumn hfield =>
  obtain rfl := Option.some.inj hwrite
  rw [hkept.2.1] at hcolumn
  rw [hkept.2.2] at hfield
  obtain ⟨d,hd,hbuild⟩ := mem_buildItems hitem
  obtain ⟨-,-,hmem,-,hname,hcolumn',-,-⟩ := buildItem_field hbuild hfield
  obtain rfl : field.physName = column := Option.some.inj (hcolumn'.symm.trans hcolumn)
  obtain ⟨entry,hentry,hentryname⟩ := mem_config hconfig hitem hfield
  rw [hname] at hentryname
  have hin : field.physName ∈ config.names := hentryname ▸ List.mem_map_of_mem hentry
  obtain ⟨env,hstate⟩ := states_lookup hresult hin
  have hsettle : (fieldState lib config field.physName env).readonly = false ∧
      (fieldState lib config field.physName env).visible = true := by
    have hreadonly := hopen.2
    simp only [settle,hname,hstate,Bool.or_eq_false_iff,Bool.not_eq_false'] at hreadonly
    exact hreadonly
  -- the entry of the column comes from the last item of the field, whose lock the state has kept
  have hlocked : entry.2.locked = false := by
    have hof : config.item field.physName = entry.2 := item_of_mem (hentryname ▸ hentry)
    have hopen := hsettle.1
    simp only [fieldState,Item.state,hof,Bool.or_eq_false_iff] at hopen
    exact hopen.1
  obtain ⟨last,hlast,field',hfield',hlastname,hlastlocked⟩ := of_mem_config hconfig hentry
  obtain ⟨d',hd',hbuild'⟩ := mem_buildItems hlast
  obtain ⟨hkind',hid',hmem',haccess',hname',-,-,hreadonly'⟩ := buildItem_field hbuild' hfield'
  obtain rfl : field' = field :=
    form.catalog.table.field_unique hmem' hmem (by rw [← hname',← hlastname,hentryname])
  rw [← hlastlocked,hlocked] at hreadonly'
  have hfree := Bool.or_eq_false_iff.mp hreadonly'.symm
  have hfree' := Bool.or_eq_false_iff.mp hfree.1
  refine ⟨d',hd',field',hmem,hkind',hid',rfl,hfree'.1,hfree.2,?_,_,hstate,hsettle.2,hsettle.1⟩
  have hread : access form user field' ≠ .read := of_decide_eq_false hfree'.2
  cases haccess : access form user field' with
  | none => exact absurd haccess haccess'
  | read => exact absurd haccess hread
  | write => rfl

theorem mem_planDiversions {steps : List ApprovalStep} {mt : MetaTable} {old : Row} {wfs : List Workflow} {values : Values}
    {p : String × Value} (h : p ∈ (Approvals.planDiversions steps mt old wfs values).2) : p ∈ values := by
  induction wfs generalizing values with
  | nil => exact h
  | cons wf wfs ih =>
    simp only [Approvals.planDiversions] at h
    split at h
    · exact ih h
    · split at h
      · exact ih h
      · split at h
        · exact ih h
        · split at h
          · exact (List.mem_filter.mp (ih h)).1
          · exact ih h

theorem submitted_ok {arrangement : Arrangement} {lib : FormLib ω} {columns : List String} {row : Option Row}
    {submission : Submission ω} {values : Values} (h : submitted form user arrangement lib columns row submission = .ok values) :
    ∃ states, formStates form user arrangement lib columns row submission = .ok states ∧
      values = collect form submission ((buildItems form user).map (settle states)) := by
  simp only [submitted] at h
  split at h
  · cases h
  · cases h
  · rename_i config states hconfig hstates
    split at h
    · exact ⟨states,hstates,(Except.ok.inj h).symm⟩
    · cases h

end Proofs

def quantity : MetaField where
  id := 1
  physName := "qty"
  label := "Quantity"
  dataType := .integer

def total : MetaField where
  id := 2
  physName := "total"
  label := "Total"
  dataType := .formula

/-- Order lines whose total is computed of the quantity. -/
def orderLines : Catalog where
  table :=
    { id := 1
      physName := "lines"
      label := "Lines"
      fields := [quantity,total]
      idsNodup := by decide
      namesNodup := by decide
      namesFree := by decide }
  workflows := []
  steps := []
  visible := fun _ _ => true
  evaluate := fun _ row => some (row "qty")
  str := fun _ => ""
  idsNodup := by decide
  fieldsNodup := by decide
  onEnum := by simp [Workflow.forTable]

/-- The form of an order line shows both fields. -/
def lineForm : Form String where
  catalog := orderLines
  definitions := [{ id := 1, kind := .field, fieldId := some 1 },{ id := 2, kind := .field, fieldId := some 2 }]
  links := fun _ => false
  perms := fun _ _ => none
  default := fun _ _ => none
  checks := fun _ => true
  parents := fun _ _ => true
  value := fun _ data =>
    match data with
    | .text "7" => .int 7
    | _ => .null

def storedLine : Row := fun column => if column = "id" then .int 1 else .int 5

/-- One order line, of five pieces. -/
def linesData : Physical where
  columns := ["id","qty","total"]
  pk := "id"
  rows := [storedLine]
  key := id
  admits := fun _ => true

def sevenPieces : Submission String where
  data := fun name => if name = "qty" then .text "7" else .none
  own := fun _ => none

end FormSave
end Biggy
