import Biggy.PyDict
import Biggy.Courses
import Biggy.Relations
import Biggy.SchemaInference
import Biggy.WorkflowChoices
import Mathlib.Data.List.ReduceOption
import Mathlib.Logic.Function.Basic

/-!
# The import of a model

`import_schema` makes the rows of a model from a file and creates its tables as it goes. The ids of the file are mapped to those
of the rows that it makes; where it stops, the session is rolled back and the tables on its list are dropped.
-/
namespace Biggy
namespace SchemaImport

open PyDict Commits Prog Courses

/-! ### Rows and tables -/

inductive Entity
  | dataSource | table | field | relation | form | formField | dashboard | dashboardWidget | menu | permission | workflow
  | triggerRule | slaPolicy | approvalStep | role | fieldPermission | compositeUnique | connection | feed | webhook
  | pullSource | sequence | slaClock | approvalRequest | approvalAction | rateHit
  deriving DecidableEq

/-- A row of the metadata, with the columns that have been set. -/
structure Row where
  id : ℕ
  columns : List (String × Json)

def Row.get (row : Row) (column : String) : Json := Json.get row.columns column

def Row.set (row : Row) (column : String) (value : Json) : Row := ⟨row.id,Keyed.put Prod.fst (column,value) row.columns⟩

abbrev Db := Entity → List Row

/-- The tables of the databases with their data. -/
abbrev Tables (δ κ : Type*) := δ → String → Option κ

/-- For each kind of row the ids of the file with the ids of the rows made for them. -/
abbrev Maps := Entity → List (Key × ℕ)

/-- The rows as the session has them, the tables, and what the import keeps: its maps and `created_phys`. -/
structure State (δ κ : Type*) where
  db : Db
  tables : Tables δ κ
  maps : Maps
  created : List (δ × String)

/-- What stops an import. -/
inductive Failure
  | python (e : PyError)
  | schema (message : String)
  | database

/-- What a new table is made of. -/
inductive Layout
  | data (pk : Option (List (String × Json)))
  | junction (leftTable leftColumn rightTable rightColumn : String)

/-- What is added to a table. -/
inductive Change
  | recordColumn (name : String)
  | scalarColumn (field : List (String × Json))
  | relationColumn (field : List (String × Json)) (target : String)

/-- The databases and the session: `engine_for`, the ids of new rows, what the database refuses, the DDL, and a new token with
its start; and of the language `str.lower`, `str` and `json.loads`. -/
structure Env (δ κ : Type*) where
  home : δ
  engineFor : Option Row → Except Failure δ
  nextId : Db → Entity → ℕ
  nextId_fresh : ∀ db e, ∀ row ∈ db e, row.id ≠ nextId db e
  refuses : Db → Entity → Row → Option Failure
  clears : Db → Option Failure
  commits : Db → Option Failure
  build : Tables δ κ → δ → String → Layout → Except Failure κ
  alter : Tables δ κ → δ → String → Change → κ → κ × Option Failure
  index : Tables δ κ → δ → String → Json → List Json → Option Failure
  drops : δ → List String → String → Bool
  token : Db → String × String
  lower : String → String
  str : Json → String
  loads : String → Except PyError Json

abbrev Import (δ κ : Type*) := Prog (State δ κ) Empty Failure

section Steps

variable {δ κ : Type*} [DecidableEq δ] (env : Env δ κ)

def lift {α : Type} (x : Except Failure α) : Import δ κ α := fun s => ⟨s,[],x⟩

/-- A value that depends on the state. -/
def reads {α : Type} (f : State δ κ → Except PyError α) : Import δ κ α := fun s => ⟨s,[],(f s).mapError .python⟩

def python {α : Type} (x : Except PyError α) : Import δ κ α := reads fun _ => x

/-- `session.add` of a row and the flush that gives it its id. -/
def insert (e : Entity) (columns : List (String × Json)) : Import δ κ Row := fun s =>
  let row : Row := ⟨env.nextId s.db e,columns⟩
  match env.refuses s.db e row with
  | some failure => ⟨s,[],.error failure⟩
  | none => ⟨{ s with db := Function.update s.db e (s.db e++[row]) },[],.ok row⟩

/-- `session.get(...).column = value`. -/
def setColumn (e : Entity) (id : ℕ) (column : String) (value : Json) : Import δ κ Unit := fun s =>
  ⟨{ s with db := Function.update s.db e ((s.db e).map fun row => if row.id = id then row.set column value else row) },[],.ok ()⟩

/-- `map[entry["id"]] = id`. -/
def remember (e : Entity) (entry : Json) (id : ℕ) : Import δ κ Unit := fun s =>
  match (member entry "id").bind fun old => assign (s.maps e) old id with
  | .ok map => ⟨{ s with maps := Function.update s.maps e map },[],.ok ()⟩
  | .error x => ⟨s,[],.error (.python x)⟩

def State.setTable (s : State δ κ) (eng : δ) (name : String) (table : Option κ) : State δ κ :=
  { s with tables := fun d n => if d = eng ∧ n = name then table else s.tables d n }

def createTable (eng : δ) (name : String) (layout : Layout) : Import δ κ Unit := fun s =>
  match s.tables eng name, env.build s.tables eng name layout with
  | some _, _ => ⟨s,[],.error .database⟩
  | none, .error failure => ⟨s,[],.error failure⟩
  | none, .ok table => ⟨s.setTable eng name (some table),[],.ok ()⟩

/-- What a statement that fails has done to the table stays. -/
def alterTable (eng : δ) (name : String) (change : Change) : Import δ κ Unit := fun s =>
  match s.tables eng name with
  | none => ⟨s,[],.error .database⟩
  | some table => ⟨s.setTable eng name (some (env.alter s.tables eng name change table).1),[],
      (env.alter s.tables eng name change table).2.elim (.ok ()) .error⟩

/-- `created_phys.append`. -/
def keepCreated (eng : δ) (name : String) : Import δ κ Unit := fun s => ⟨{ s with created := s.created++[(eng,name)] },[],.ok ()⟩

/-- `_drop_physical`: what cannot be dropped stays. -/
def State.drop (s : State δ κ) (eng : δ) (names : List String) : State δ κ :=
  { s with tables := fun d n => if d = eng ∧ n ∈ names ∧ env.drops eng names n then none else s.tables d n }

/-- `_teng`. -/
def engineAt (s : State δ κ) (sourceId : Json) : Except Failure δ :=
  if sourceId.truthy then
    ((find (s.maps .dataSource) sourceId).mapError .python).bind fun id =>
      env.engineFor (id.bind fun n => (s.db .dataSource).find? fun row => row.id = n)
  else env.engineFor none

def engineOf (sourceId : Json) : Import δ κ δ := fun s => ⟨s,[],engineAt env s sourceId⟩

end Steps

/-! ### The columns of the rows -/

/-- `bool(entry.get(key, default))`. -/
def flag (entry : Json) (key : String) (default : Json) : Except PyError Bool := (getOr entry key default).map Json.truthy

/-- `json.dumps` of a list of ids. -/
def dumps (ids : List ℕ) : String := "["++String.intercalate ", " (ids.map toString)++"]"

def idJson : Option ℕ → Json
  | some id => .int id
  | none => .null

/-- `value + offset`. -/
def shift (offset : ℤ) : Json → Except PyError Json
  | .int n => .ok (.int (n+offset))
  | .bool b => .ok (.int ((if b then 1 else 0)+offset))
  | .float (.finite q) => .ok (.float (.finite (q+offset)))
  | .float x => .ok (.float x)
  | _ => .error .typeError

/-- Where a column of a new row comes from. -/
inductive Source
  | const (value : Json)
  /-- `entry[key]` -/
  | item (key : String)
  /-- `entry.get(key, default)` -/
  | get (key : String) (default : Json)
  /-- `entry.get(key, default) + offset` -/
  | shifted (key : String) (default : Json) (offset : ℤ)
  /-- `bool(entry.get(key, default))` -/
  | flag (key : String) (default : Json)
  /-- `entry.get(key) or default` -/
  | orElse (key : String) (default : Json)
  /-- `map.get(entry.get(key))` -/
  | link (map : Entity) (key : String)
  /-- `map.get(entry[key]) if entry.get(key) else None` -/
  | linkIf (map : Entity) (key : String)
  /-- `map[entry[key]]` -/
  | linkItem (map : Entity) (key : String)
  /-- A row that has just been made. -/
  | row (map : Entity) (id : ℕ)
  /-- Ids from the map of the fields. -/
  | list (ids : List ℕ)

def Source.value (maps : Maps) (entry : Json) : Source → Except PyError Json
  | .const value => .ok value
  | .item key => member entry key
  | .get key default => getOr entry key default
  | .shifted key default offset => (getOr entry key default).bind (shift offset)
  | .flag key default => (SchemaImport.flag entry key default).map Json.bool
  | .orElse key default => (getOr entry key .null).map fun value => if value.truthy then value else default
  | .link map key => (getOr entry key .null).bind fun old => (find (maps map) old).map idJson
  | .linkIf map key =>
    (getOr entry key .null).bind fun old => if old.truthy then (find (maps map) old).map idJson else .ok .null
  | .linkItem map key => (member entry key).bind fun old => (need (maps map) old).map fun id => idJson (some id)
  | .row _ id => .ok (.int id)
  | .list ids => .ok (.str (dumps ids))

abbrev Columns := List (String × Source)

def columnValues (maps : Maps) (entry : Json) (columns : Columns) : Except PyError (List (String × Json)) :=
  columns.mapM fun c => (c.2.value maps entry).map fun value => (c.1,value)

/-- Columns that are taken over under their names. -/
def copied (names : List String) : Columns := names.map fun name => (name,.get name .null)

def no : Json := .bool false

def yes : Json := .bool true

def sourceColumns : Columns :=
  List.flatten [
    [("name",.item "name"),("driver",.get "driver" (.str "mysql+pymysql"))],
    copied ["host","port","username","password","database"],
    [("active",.get "active" yes)]]

def tableColumns : Columns :=
  [("managed",.flag "managed" yes),("source_id",.link .dataSource "source_id"),("phys_name",.item "phys_name"),
    ("label",.item "label"),("description",.get "description" .null),("track_audit",.flag "track_audit" .null),
    ("soft_delete",.flag "soft_delete" .null),("row_owned",.flag "row_owned" .null),("pk_col",.orElse "pk_col" (.str "id"))]

/-- `_make_field`. -/
def fieldColumns : Columns :=
  List.flatten [
    [("table_id",.linkItem .table "table_id"),("phys_name",.item "phys_name"),("label",.item "label"),
      ("data_type",.item "data_type")],
    copied ["length","precision","scale"],
    [("nullable",.get "nullable" yes),("default_value",.get "default_value" .null),("is_unique",.get "is_unique" no),
      ("position",.get "position" (.int 0)),("enum_options",.get "enum_options" .null),
      ("related_table_id",.linkIf .table "related_table_id")],
    copied ["on_delete","min_length","max_length","min_value","max_value","pattern","formula","result_type","enum_colors"]]

/-- A relation of kind m1 with its field. -/
def linkColumns (field : ℕ) : Columns :=
  [("name",.item "name"),("kind",.const (.str "m1")),("from_table_id",.linkItem .table "from_table_id"),
    ("to_table_id",.linkItem .table "to_table_id"),("from_field_id",.row .field field),("on_delete",.get "on_delete" .null)]

def junctionColumns (name : String) : Columns :=
  [("name",.item "name"),("kind",.const (.str "mn")),("from_table_id",.linkItem .table "from_table_id"),
    ("to_table_id",.linkItem .table "to_table_id"),("junction_phys_name",.const (.str name))]

def formColumns : Columns :=
  List.flatten [
    [("table_id",.linkItem .table "table_id"),("name",.item "name"),("title",.item "title"),
      ("description",.get "description" .null),("purpose",.get "purpose" (.str "data")),("in_catalog",.get "in_catalog" no)],
    copied ["catalog_group","portal_close_state","default_sort","default_order","default_per_page"]]

def formFieldColumns : Columns :=
  [("form_id",.linkItem .form "form_id"),("kind",.item "kind"),("field_id",.linkIf .field "field_id"),
    ("relation_id",.linkIf .relation "relation_id"),("label_override",.get "label_override" .null),
    ("widget",.get "widget" .null),("required",.get "required" no),("readonly",.get "readonly" no),
    ("rules_json",.get "rules_json" .null),("help_text",.get "help_text" .null),("position",.get "position" (.int 0)),
    ("parent_field_id",.linkIf .field "parent_field_id"),("filter_field_id",.linkIf .field "filter_field_id")]

def dashboardColumns : Columns :=
  [("name",.item "name"),("description",.get "description" .null),("owner_user_id",.const .null),
    ("columns",.get "columns" (.int 2)),("position",.get "position" (.int 0))]

def widgetColumns : Columns :=
  [("dashboard_id",.link .dashboard "dashboard_id"),("title",.get "title" .null),("kind",.get "kind" (.str "chart")),
    ("table_id",.linkIf .table "table_id"),("query",.get "query" .null),("chart_type",.get "chart_type" (.str "bar")),
    ("content",.get "content" .null),("width",.get "width" (.int 1)),("limit",.get "limit" (.int 5)),
    ("position",.get "position" (.int 0))]

def menuColumns (offset : ℤ) : Columns :=
  [("label",.item "label"),("kind",.item "kind"),("target_form_id",.linkIf .form "target_form_id"),
    ("target_table_id",.linkIf .table "target_table_id"),("target_dashboard_id",.linkIf .dashboard "target_dashboard_id"),
    ("position",.shifted "position" (.int 0) offset),("icon",.get "icon" .null)]

def permissionColumns : Columns :=
  [("role",.item "role"),("form_id",.link .form "form_id"),("access",.get "access" (.str "write"))]

def workflowColumns : Columns :=
  List.flatten [
    [("table_id",.link .table "table_id"),("field_id",.link .field "field_id")],
    copied ["initial_state","transitions","layout"]]

def triggerColumns : Columns :=
  List.flatten [
    [("table_id",.link .table "table_id"),("name",.get "name" (.str "rule")),("active",.get "active" yes),
      ("event",.get "event" (.str "update")),("field_id",.link .field "field_id"),("from_state",.get "from_state" .null),
      ("to_state",.get "to_state" .null),("cond_field_id",.link .field "cond_field_id"),("cond_op",.get "cond_op" .null),
      ("cond_value",.get "cond_value" .null),("in_app",.get "in_app" no)],
    copied ["notify_target","notify_user_id","message","email_to","email_subject","email_body","webhook_url"],
    [("set_field_id",.link .field "set_field_id"),("set_value",.get "set_value" .null),
      ("schedule_minutes",.get "schedule_minutes" .null),("create_table_id",.link .table "create_table_id"),
      ("create_field_map",.get "create_field_map" .null),("webhook_format",.get "webhook_format" .null)]]

/-- `_SLA_POLICY_COLS` without the id and the table. -/
def slaPolicyCols : List String :=
  ["name","active","target_minutes","warn_minutes","status_field_id","start_on_create","start_states","pause_states",
    "stop_states","cond_field_id","cond_op","cond_value","state_field_id","due_field_id","breach_in_app","breach_notify_target",
    "breach_notify_user_id","breach_message","breach_email_to","breach_email_subject","breach_email_body",
    "breach_set_field_id","breach_set_value","escalations"]

/-- `_SLA_FIELD_REFS`. -/
def slaFieldRefs : List String := ["status_field_id","cond_field_id","state_field_id","due_field_id","breach_set_field_id"]

def slaPolicyColumns : Columns :=
  ("table_id",.link .table "table_id")::
    slaPolicyCols.map fun name => (name,if name ∈ slaFieldRefs then .link .field name else .get name .null)

def approvalStepColumns : Columns :=
  [("workflow_id",.link .workflow "workflow_id"),("from_state",.item "from_state"),("to_state",.item "to_state"),
    ("position",.get "position" (.int 1)),("name",.get "name" .null),("approver_role",.get "approver_role" .null),
    ("approver_user_id",.get "approver_user_id" .null)]

def roleColumns (name : Json) : Columns :=
  [("name",.item "name"),("label",.get "label" name),("builtin",.get "builtin" no)]

def fieldPermissionColumns : Columns :=
  [("role",.item "role"),("field_id",.link .field "field_id"),("access",.get "access" (.str "write"))]

def compositeUniqueColumns (ids : List ℕ) : Columns :=
  [("table_id",.link .table "table_id"),("name",.item "name"),("field_ids",.list ids)]

def connectionColumns : Columns :=
  [("name",.item "name"),("base_url",.item "base_url"),("active",.get "active" yes),("token",.const .null)]

def feedColumns : Columns :=
  [("name",.item "name"),("active",.get "active" yes),("source_table_id",.link .table "source_table_id"),
    ("connection_id",.link .connection "connection_id"),("target_table",.item "target_table"),
    ("mode",.get "mode" (.str "create")),("match_target_field",.get "match_target_field" .null),
    ("field_map",.get "field_map" .null),("event",.get "event" .null),("field_id",.link .field "field_id"),
    ("from_state",.get "from_state" .null),("to_state",.get "to_state" .null),("cond_field_id",.link .field "cond_field_id"),
    ("cond_op",.get "cond_op" .null),("cond_value",.get "cond_value" .null),("schedule_minutes",.get "schedule_minutes" .null),
    ("allow_manual",.get "allow_manual" yes),("skip_api_writes",.get "skip_api_writes" yes)]

/-- A webhook with the hash of a new token and its start. -/
def webhookColumns (token : String × String) : Columns :=
  List.flatten [
    [("name",.item "name"),("active",.get "active" yes),("target_table_id",.link .table "target_table_id"),
      ("token_hash",.const (.str token.1)),("prefix",.const (.str token.2)),("mode",.get "mode" (.str "create"))],
    copied ["match_field","field_map","user_id","max_body_bytes","rate_limit","rate_window"]]

def pullSourceColumns : Columns :=
  List.flatten [
    [("name",.item "name"),("active",.get "active" yes),("target_table_id",.link .table "target_table_id"),
      ("kind",.get "kind" (.str "peer")),("connection_id",.link .connection "connection_id")],
    copied ["remote_table","url","records_path","config","field_map"],
    [("mode",.get "mode" (.str "upsert")),("match_field",.get "match_field" .null),("cursor_field",.get "cursor_field" .null),
      ("page_size",.get "page_size" .null),("schedule_minutes",.get "schedule_minutes" .null),("user_id",.get "user_id" .null)]]

def sequenceColumns : Columns := [("field_id",.link .field "field_id"),("next",.get "next" (.int 1))]

/-! ### The file -/

section File

variable {δ κ : Type*} [DecidableEq δ] (env : Env δ κ)

/-- The elements of `data.get(name, [])`. -/
def entries (data : Json) (name : String) : Except PyError (List Json) :=
  (getOr data name (.arr [])).bind Workflow.elements

def textOf : Json → String
  | .str s => s
  | _ => ""

/-- `ALL_TYPES`. -/
def allTypes : List String :=
  ["string","text","markdown","integer","bigint","decimal","float","boolean","date","datetime","time","enum","tags","user",
    "company","email","url","phone","currency","percent","json","autonumber","formula","image","file","relation"]

/-- `validate_identifier` of a name that may be any value. -/
def validateIdentifier (kind : String) (name : Json) : Except PyError Unit :=
  let check (norm : String) : Except PyError Unit :=
    if norm = "" then .error (.valueError (kind++" name is required."))
    else if SchemaInference.maxLen < norm.length then .error (.valueError (kind++" name must be at most 60 characters."))
    else if !SchemaInference.isIdentifier norm then
      .error (.valueError (kind++" name must start with a letter and contain only "++
        "lower-case letters, digits and underscores."))
    else if SchemaInference.reservedPrefixes.any (startsWith norm) then
      .error (.valueError (kind++" name may not start with a reserved prefix (app_, j_)."))
    else .ok ()
  match name with
  | .str s => check (env.lower (strip s))
  | value => if value.truthy then .error .attributeError else check ""

def ofPython {α : Type} (x : Except PyError α) : Except Failure α := x.mapError .python

def checkType (f : Json) : Except Failure Unit := do
  let type ← ofPython (member f "data_type")
  let key ← ofPython (hash type)
  if key ∈ allTypes.map Key.text then .ok () else .error (.schema ("Unknown field type: "++env.str type))

/-- The checks of the file that do not look at the database. -/
def checkFile (data : Json) : Except Failure Unit := do
  match data with
  | .obj members =>
    if (members.lookup "version").bind FormTemplates.number = some (.finite 1) then
      let tables ← ofPython (entries data "tables")
      tables.forM fun t => ofPython ((member t "phys_name").bind (validateIdentifier env "Table"))
      let fields ← ofPython (entries data "fields")
      fields.forM fun f => do
        ofPython ((member f "phys_name").bind (validateIdentifier env "Column"))
        checkType env f
    else .error (.schema "Unsupported or missing schema version.")
  | _ => .error (.schema "Unsupported or missing schema version.")

/-- `_check_additive_collisions`. -/
def checkAdditive (s : State δ κ) (data : Json) : Except Failure Unit := do
  let tables ← ofPython (entries data "tables")
  tables.forM fun t => do
    let name ← ofPython (member t "phys_name")
    if ((s.db .table).any fun row => textOf (row.get "phys_name") = textOf name) || (s.tables env.home (textOf name)).isSome then
      .error (.schema ("Table '"++textOf name++"' already exists — cannot add this module."))
    else .ok ()
  let forms ← ofPython (entries data "forms")
  forms.forM fun f => do
    let name ← ofPython (member f "name")
    let key ← ofPython (hash name)
    if (s.db .form).any fun row => (hash (row.get "name")).toOption = some key then
      .error (.schema ("Form '"++env.str name++"' already exists."))
    else .ok ()

/-! #### The dicts by the ids of the file -/

/-- A dict comprehension. -/
def dictOf {α : Type} (key : Json → Except PyError Json) (value : Json → Except PyError α) (items : List Json) :
    Except PyError (List (Key × α)) :=
  items.foldlM (fun dict item => do
    let k ← key item
    let v ← value item
    assign dict k v) []

/-- `f["phys_name"] == pk_by_old.get(f["table_id"]) != "id"`. -/
def isKeyField (pkByOld : List (Key × Json)) (f : Json) : Except PyError Bool := do
  let name ← member f "phys_name"
  let table ← member f "table_id"
  let pk ← find pkByOld table
  match name, pk with
  | .str name, some (.str pk) => .ok (decide (name = pk ∧ pk ≠ "id"))
  | _, _ => .ok false

structure ByOld where
  phys : List (Key × Json)
  field : List (Key × Json)
  managed : List (Key × Bool)
  source : List (Key × Json)
  pk : List (Key × Json)
  pkField : List (Key × Json)

def byOld (data : Json) : Except PyError ByOld := do
  let tables ← entries data "tables"
  let fields ← entries data "fields"
  let phys ← dictOf (member · "id") (member · "phys_name") tables
  let field ← dictOf (member · "id") .ok fields
  let managed ← dictOf (member · "id") (flag · "managed" yes) tables
  let source ← dictOf (member · "id") (getOr · "source_id" .null) tables
  let pk ← dictOf (member · "id") ((Source.orElse "pk_col" (.str "id")).value fun _ => []) tables
  let keyFields ← fields.filterM (isKeyField pk)
  let pkField ← dictOf (member · "table_id") .ok keyFields
  .ok ⟨phys,field,managed,source,pk,pkField⟩

/-! #### What is replaced -/

/-- The value is the id of the row. -/
def refersTo (value : Json) (row : Row) : Bool :=
  match value with
  | .int n => decide (n = row.id)
  | _ => false

/-- `engine_for_table`. -/
def engineForTable (s : State δ κ) (table : Row) : Except Failure δ :=
  if (table.get "source_id").truthy then env.engineFor ((s.db .dataSource).find? (refersTo (table.get "source_id")))
  else env.engineFor none

/-- The tables that `wipe_model` drops. -/
def wipedTables (s : State δ κ) : Except Failure (List (δ × String)) := do
  let tables ← ((s.db .table).filter fun t => (t.get "managed").truthy).mapM fun t =>
    (engineForTable env s t).map fun eng => (eng,textOf (t.get "phys_name"))
  let relations := (s.db .relation).filter fun r => decide (textOf (r.get "kind") = "mn") && (r.get "junction_phys_name").truthy
  let junctions ← relations.mapM fun r =>
    match (s.db .table).find? (refersTo (r.get "from_table_id")) with
    | some t => (engineForTable env s t).map fun eng => (eng,textOf (r.get "junction_phys_name"))
    | none => .ok (env.home,textOf (r.get "junction_phys_name"))
  .ok (tables++junctions)

/-- Each database drops its tables together. -/
def State.dropAll (s : State δ κ) (dropped : List (δ × String)) : State δ κ :=
  (Keyed.distinct Prod.fst dropped).foldl
    (fun s p => s.drop env p.1 ((dropped.filter fun q => q.1 = p.1).map Prod.snd)) s

/-- The rows that `wipe_model` leaves. -/
def wipedDb (db : Db) : Db := fun e => if e = .role then db e else []

/-- `wipe_model`: where the database refuses to delete the rows, their tables are gone already. -/
def wipeModel : Import δ κ Unit := fun s =>
  match wipedTables env s, env.clears s.db with
  | .error failure, _ => ⟨s,[],.error failure⟩
  | .ok dropped, some failure => ⟨s.dropAll env dropped,[],.error failure⟩
  | .ok dropped, none => ⟨{ s.dropAll env dropped with db := wipedDb s.db },[],.ok ()⟩

end File

/-! ### The passes -/

section Passes

variable {δ κ : Type} [DecidableEq δ] (env : Env δ κ)

/-- A new row of the entry. -/
def addRow (e : Entity) (columns : Columns) (entry : Json) : Import δ κ Row := do
  let values ← reads fun s => columnValues s.maps entry columns
  insert env e values

/-- A new row whose id the map gets. -/
def addKept (e : Entity) (columns : Columns) (entry : Json) : Import δ κ Row := do
  let row ← addRow env e columns entry
  remember e entry row.id
  pure row

/-- The entry is passed over where one of these is not given. -/
def given (guards : List Source) (entry : Json) : Import δ κ Bool :=
  reads fun s => (guards.mapM fun g : Source => g.value s.maps entry).map fun values => values.all Json.truthy

def addGiven (guards : List Source) (e : Entity) (columns : Columns) (entry : Json) : Import δ κ Unit := do
  if ← given guards entry then
    let _ ← addRow env e columns entry
    pure ()
  else pure ()

/-- `for entry in data.get(name, [])`. -/
def each (data : Json) (name : String) (step : Json → Import δ κ Unit) : Import δ κ Unit := do
  let items ← python (entries data name)
  forM items step

/-- Step 0. -/
def importSource (d : Json) : Import δ κ Unit := do
  let _ ← addKept env .dataSource sourceColumns d
  pure ()

/-- The columns that `ensure_record_columns` adds. -/
def recordColumns (t : Json) : Except PyError (List String) := do
  let audit ← flag t "track_audit" .null
  let owned ← flag t "row_owned" .null
  let deleted ← flag t "soft_delete" .null
  .ok ((if audit || owned then ["created_by","created_at","updated_by","updated_at"] else [])++
    if deleted then ["deleted_at","deleted_by"] else [])

/-- A new table has its own key column where the file has a field for it. -/
def tableLayout (old : ByOld) (t : Json) : Import δ κ Layout := do
  let spec ← python ((member t "id").bind (find old.pkField))
  match spec with
  | some f => reads fun s => (columnValues s.maps f fieldColumns).map fun pk => .data (some pk)
  | none => pure (.data none)

/-- Step 1 up to the DDL: the row of the table, and what is created for it. -/
def prepareTable (old : ByOld) (t : Json) : Import δ κ (Option (δ × String × Layout)) := do
  let managed ← python (flag t "managed" yes)
  let _ ← addKept env .table tableColumns t
  if managed then
    let source ← python (getOr t "source_id" .null)
    let eng ← engineOf env source
    let layout ← tableLayout old t
    let name ← python (member t "phys_name")
    pure (some (eng,textOf name,layout))
  else pure none

/-- `ensure_record_columns`. -/
def ensureRecordColumns (eng : δ) (name : String) (t : Json) : Import δ κ Unit := do
  let columns ← python (recordColumns t)
  forM columns fun column => alterTable env eng name (.recordColumn column)

/-- Step 1. -/
def importTable (old : ByOld) (t : Json) : Import δ κ Unit := do
  match ← prepareTable env old t with
  | some (eng,name,layout) =>
    createTable env eng name layout
    ensureRecordColumns env eng name t
    keepCreated eng name
  | none => pure ()

def isText (value : Json) (s : String) : Bool :=
  match value with
  | .str t => decide (t = s)
  | _ => false

/-- The database and the name of the table that a field of the file belongs to, where its columns are made here. -/
def ownAt (old : ByOld) (table : Json) (s : State δ κ) : Except Failure (Option (δ × String)) := do
  let managed ← ofPython (find old.managed table)
  if managed.getD true then
    let source ← ofPython (find old.source table)
    let eng ← engineAt env s (source.getD .null)
    let name ← ofPython (need old.phys table)
    .ok (some (eng,textOf name))
  else .ok none

def ownTable (old : ByOld) (table : Json) : Import δ κ (Option (δ × String)) := fun s => ⟨s,[],ownAt env old table s⟩

/-- Step 2. -/
def importField (old : ByOld) (f : Json) : Import δ κ Unit := do
  let type ← python (member f "data_type")
  if isText type "relation" then pure ()
  else
    let row ← addKept env .field fieldColumns f
    let key ← python (isKeyField old.pk f)
    if isText type "image" || isText type "file" || key then pure ()
    else
      let table ← python (member f "table_id")
      match ← ownTable env old table with
      | some (eng,name) => alterTable env eng name (.scalarColumn row.columns)
      | none => pure ()

/-- What `json.loads` reads where it raises no error of its own. -/
def readIds (value : Json) : Except PyError (Option Json) :=
  match value with
  | .str s =>
    match env.loads s with
    | .ok ids => .ok (some ids)
    | .error (.valueError _) => .ok none
    | .error .typeError => .ok none
    | .error e => .error e
  | _ => .ok none

/-- `_remap_ids_json`: the new ids, of which there is no empty list. -/
def remapIds (fields : List (Key × ℕ)) (value : Json) : Except PyError (Option (List ℕ)) :=
  if value.truthy then
    (readIds env value).bind fun ids =>
      match ids with
      | none => .ok none
      | some ids => (Workflow.elements ids).bind fun ids => (ids.mapM (find fields)).map fun found =>
          if found.reduceOption.isEmpty then none else some found.reduceOption
  else .ok none

def remapColumn (r : Json) (id : ℕ) (column : String) : Import δ κ Unit := do
  let value ← python (getOr r column .null)
  let ids ← reads fun s => remapIds env (s.maps .field) value
  setColumn .relation id column (ids.elim .null fun ids => .str (dumps ids))

/-- What every relation gets after its row. -/
def finishRelation (r : Json) (id : ℕ) : Import δ κ Unit := do
  remember .relation r id
  remapColumn env r id "to_display_field_ids"
  remapColumn env r id "from_display_field_ids"

/-- The column of a relation of kind m1. -/
def addLinkColumn (old : ByOld) (f : Json) (field : Row) : Import δ κ Unit := do
  let table ← python (member f "table_id")
  match ← ownTable env old table with
  | some (eng,name) =>
    let target ← python ((member f "related_table_id").bind (need old.phys))
    alterTable env eng name (.relationColumn field.columns (textOf target))
  | none => pure ()

/-- Step 3, of kind m1. -/
def importLink (old : ByOld) (r : Json) : Import δ κ Unit := do
  let fieldId ← python (member r "from_field_id")
  let spec ← python (find old.field fieldId)
  match spec.filter Json.truthy with
  | none => pure ()
  | some f =>
    let field ← addKept env .field fieldColumns f
    addLinkColumn env old f field
    let row ← addRow env .relation (linkColumns field.id) r
    finishRelation env r row.id

/-- The junction is created where there is none. -/
def createJunction (eng : δ) (name : String) (layout : Layout) : Import δ κ Unit := withState fun s =>
  if (s.tables eng name).isSome then pure ()
  else do
    createTable env eng name layout
    keepCreated eng name

/-- Step 3, of kind mn. -/
def importJunction (old : ByOld) (r : Json) : Import δ κ Unit := do
  let left ← python ((member r "from_table_id").bind (need old.phys))
  let right ← python ((member r "to_table_id").bind (need old.phys))
  let name := Relations.junctionName (textOf left) (textOf right)
  let leftColumn := textOf left++"_id"
  let rightColumn := if textOf right = textOf left then textOf right++"_id_2" else textOf right++"_id"
  let source ← python ((member r "from_table_id").bind (find old.source))
  let eng ← engineOf env (source.getD .null)
  createJunction env eng name (.junction (textOf left) leftColumn (textOf right) rightColumn)
  let row ← addRow env .relation (junctionColumns name) r
  finishRelation env r row.id

/-- Step 3. -/
def importRelation (old : ByOld) (r : Json) : Import δ κ Unit := do
  let kind ← python (member r "kind")
  if isText kind "m1" then importLink env old r else importJunction env old r

/-- A column that refers to rows which are made after its own. -/
def setLater (e target : Entity) (column : String) (entry : Json) : Import δ κ Unit := do
  let old ← python (getOr entry column .null)
  if old.truthy then
    match ← reads fun s => find (s.maps target) old with
    | some found =>
      let id ← reads fun s => (member entry "id").bind (need (s.maps e))
      setColumn e id column (.int found)
    | none => pure ()
  else pure ()

/-- Step 4. -/
def importDisplay (t : Json) : Import δ κ Unit := setLater .table .field "display_field_id" t

/-- Step 5. -/
def importForm (f : Json) : Import δ κ Unit := do
  let _ ← addKept env .form formColumns f
  pure ()

def importFormField (item : Json) : Import δ κ Unit := do
  let form ← reads fun s => (member item "form_id").bind (find (s.maps .form))
  if form.isNone then pure ()
  else
    let field ← reads fun s => Source.value s.maps item (.linkIf .field "field_id")
    let relation ← reads fun s => Source.value s.maps item (.linkIf .relation "relation_id")
    let kind ← python (member item "kind")
    if isText kind "field" && !field.truthy then pure ()
    else if isText kind "relation" && !relation.truthy then pure ()
    else
      let _ ← addRow env .formField formFieldColumns item
      pure ()

def importDashboard (d : Json) : Import δ κ Unit := do
  let _ ← addKept env .dashboard dashboardColumns d
  pure ()

/-- The greatest position of a menu. -/
def maxPosition (menus : List Row) : Option ℤ :=
  menus.foldl (fun best m =>
    match m.get "position", best with
    | .int n, some p => some (max n p)
    | .int n, none => some n
    | _, best => best) none

/-- `pos_offset`. -/
def menuOffset (additive : Bool) (data : Json) : Import δ κ ℤ := do
  let menus ← python (getOr data "menus" (.arr []))
  withState fun s => pure (if additive && menus.truthy then (maxPosition (s.db .menu)).getD 0+1 else 0)

def importMenu (offset : ℤ) (m : Json) : Import δ κ Unit := do
  let _ ← addKept env .menu (menuColumns offset) m
  pure ()

/-- The second loop of step 6. -/
def importParent (m : Json) : Import δ κ Unit := setLater .menu .menu "parent_id" m

/-- Step 8. -/
def importWorkflow (w : Json) : Import δ κ Unit := do
  if ← given [.link .table "table_id",.link .field "field_id"] w then
    let row ← addRow env .workflow workflowColumns w
    let id ← python (getOr w "id" .null)
    match id with
    | .null => pure ()
    | _ => remember .workflow w row.id
  else pure ()

/-- Step 10. -/
def importRole (r : Json) : Import δ κ Unit := do
  let name ← python (getOr r "name" .null)
  if name.truthy then
    let key ← python (hash name)
    withState fun s =>
      if (s.db .role).any fun row => (hash (row.get "name")).toOption = some key then pure ()
      else do
        let _ ← addRow env .role (roleColumns name) r
        pure ()
  else pure ()

/-- `add_composite_unique` of step 11; an index leaves the data as they are. -/
def addIndex (old : ByOld) (cu : Json) (columns : List Json) : Import δ κ Unit := do
  let table ← python (member cu "table_id")
  let source ← python (find old.source table)
  let eng ← engineOf env (source.getD .null)
  let phys ← python (need old.phys table)
  let name ← python (member cu "name")
  withState fun s =>
    match env.index s.tables eng (textOf phys) name columns with
    | some failure => raise failure
    | none => pure ()

/-- The `try` of step 11. -/
def tryIndex (old : ByOld) (cu : Json) (columns : List Json) : Import δ κ Bool := fun s =>
  match (addIndex env old cu columns s).result with
  | .ok _ => ⟨s,[],.ok true⟩
  | .error _ => ⟨s,[],.ok false⟩

/-- `[field_by_old[i]["phys_name"] for i in old_fids if i in field_by_old]`. -/
def columnNames (old : ByOld) (ids : List Json) : Except PyError (List Json) :=
  (ids.mapM (find old.field)).bind fun found => found.reduceOption.mapM (member · "phys_name")

/-- `json.loads(cu.get("field_ids") or "[]")`. -/
def listedIds (cu : Json) : Except PyError (List Json) :=
  (getOr cu "field_ids" .null).bind fun text =>
    if text.truthy then
      match text with
      | .str s => (env.loads s).bind Workflow.elements
      | _ => .error .typeError
    else .ok []

/-- Step 11. -/
def importUnique (old : ByOld) (cu : Json) : Import δ κ Unit := do
  let table ← reads fun s => (getOr cu "table_id" .null).bind (find (s.maps .table))
  let ids ← python (listedIds env cu)
  let columns ← python (columnNames old ids)
  let fields ← reads fun s => (ids.mapM (find (s.maps .field))).map List.reduceOption
  if table.isNone || decide (columns.length < 2) then pure ()
  else if ← tryIndex env old cu columns then
    let _ ← addRow env .compositeUnique (compositeUniqueColumns fields) cu
    pure ()
  else pure ()

/-- Step 12. -/
def importConnection (c : Json) : Import δ κ Unit := do
  let _ ← addKept env .connection connectionColumns c
  pure ()

def importWebhook (w : Json) : Import δ κ Unit := withState fun s =>
  addGiven env [.link .table "target_table_id"] .webhook (webhookColumns (env.token s.db)) w

/-- The steps after the relations. -/
def importRest (additive : Bool) (data : Json) (old : ByOld) : Import δ κ Unit := do
  each data "tables" importDisplay
  each data "forms" (importForm env)
  each data "form_fields" (importFormField env)
  each data "dashboards" (importDashboard env)
  each data "dashboard_widgets" (addGiven env [.link .dashboard "dashboard_id"] .dashboardWidget widgetColumns)
  let offset ← menuOffset additive data
  each data "menus" (importMenu env offset)
  each data "menus" importParent
  each data "permissions" (addGiven env [.link .form "form_id"] .permission permissionColumns)
  each data "workflows" (importWorkflow env)
  each data "trigger_rules" (addGiven env [.link .table "table_id"] .triggerRule triggerColumns)
  each data "sla_policies" (addGiven env [.link .table "table_id"] .slaPolicy slaPolicyColumns)
  each data "approval_steps"
    (addGiven env [.link .workflow "workflow_id",.get "from_state" .null,.get "to_state" .null] .approvalStep approvalStepColumns)
  each data "roles" (importRole env)
  each data "field_permissions" (addGiven env [.link .field "field_id",.get "role" .null] .fieldPermission fieldPermissionColumns)
  each data "composite_uniques" (importUnique env old)
  each data "connections" (importConnection env)
  each data "feeds"
    (addGiven env [.link .table "source_table_id",.link .connection "connection_id"] .feed feedColumns)
  each data "webhooks" (importWebhook env)
  each data "pull_sources" (addGiven env [.link .table "target_table_id"] .pullSource pullSourceColumns)
  each data "sequences" (addGiven env [.link .field "field_id"] .sequence sequenceColumns)
  withState fun s =>
    match env.commits s.db with
    | some failure => raise failure
    | none => pure ()

/-- The body of the `try`. -/
def importBody (additive : Bool) (data : Json) (old : ByOld) : Import δ κ Unit := do
  each data "data_sources" (importSource env)
  each data "tables" (importTable env old)
  each data "fields" (importField env old)
  each data "relations" (importRelation env old)
  importRest env additive data old

/-! ### The import -/

/-- `session.rollback()`, and the tables on the list are dropped. -/
def State.cleanUp (s base : State δ κ) : State δ κ :=
  s.created.foldl (fun s p => s.drop env p.1 [p.2]) { s with db := base.db }

/-- The `try`. -/
def orCleanUp (p : Import δ κ Unit) : Import δ κ Unit := fun s =>
  match (p s).result with
  | .ok _ => p s
  | .error failure => ⟨State.cleanUp env (p s).state s,[],.error failure⟩

/-- What is done with a model that is there: an additive import stands next to it, another one replaces it. -/
def makeRoom (replace additive : Bool) (data : Json) : Import δ κ Unit := withState fun s =>
  if (s.db .table).isEmpty then pure ()
  else if additive then lift (checkAdditive env s data)
  else if replace then wipeModel env
  else raise (.schema
    "The target database already contains a model. Tick 'Replace existing' to wipe it and import.")

/-- The maps and the list of tables that the import starts with. -/
def State.fresh (s : State δ κ) : State δ κ := { s with maps := fun _ => [], created := [] }

/-- What comes before the `try`. -/
def prepareImport (replace additive : Bool) (data : Json) : Import δ κ ByOld := do
  lift (checkFile env data)
  makeRoom env replace additive data
  python (byOld data)

/-- `import_schema`: the numbers of tables, fields, relations, forms and menus that it has made. -/
def importSchema (replace additive : Bool) (data : Json) : Import δ κ (List ℕ) := do
  let old ← prepareImport env replace additive data
  orCleanUp env fun s => importBody env additive data old s.fresh
  withState fun s => pure ([Entity.table,.field,.relation,.form,.menu].map fun e => (s.maps e).length)

end Passes

/-! ### The rules of the steps -/

section Rules

variable {δ κ α : Type} {env : Env δ κ} {C : Course (State δ κ)} {P : State δ κ → Prop} {Q : α → State δ κ → Prop}

theorem leads_reads {f : State δ κ → Except PyError α} (h : ∀ s, C.inv s → P s → ∀ a, f s = .ok a → Q a s) :
    Leads C P (reads f) Q :=
  leads_same (fun _ => rfl) fun s hs hP a ha => h s hs hP a (Outcome.mapError_ok ha)

theorem stays_reads (f : State δ κ → Except PyError α) : Stays C (reads f) := stays_same fun _ => rfl

theorem python_ok {x : Except PyError α} {s : State δ κ} {a : α} (h : ((python x : Import δ κ α) s).result = .ok a) :
    x = .ok a := Outcome.mapError_ok h

theorem stays_python (x : Except PyError α) : Stays C (python x : Import δ κ α) := stays_reads _

theorem leads_python (x : Except PyError α) : Leads C P (python x : Import δ κ α) fun _ => P :=
  leads_reads fun _ _ h _ _ => h

/-- A pass keeps to the course where its turns do, and keeps what they need. -/
theorem leads_each {data : Json} {name : String} {step : Json → Import δ κ Unit}
    (h : ∀ entry, Leads C P (step entry) fun _ => P) : Leads C P (each data name step) fun _ => P :=
  leads_bind (leads_python _) fun items => leads_forM h items

theorem stays_each {data : Json} {name : String} {step : Json → Import δ κ Unit} (h : ∀ entry, Stays C (step entry)) :
    Stays C (each data name step) := stays_bind (stays_python _) fun items => stays_forM h items

theorem stays_tryIndex (old : ByOld) (cu : Json) (columns : List Json) :
    Stays C (tryIndex env old cu columns) := by
  refine stays_same fun s => ?_
  rw [tryIndex]
  split <;> rfl

theorem stays_menuOffset (additive : Bool) (data : Json) :
    Stays C (menuOffset additive data : Import δ κ ℤ) :=
  stays_bind (stays_python _) fun _ => stays_withState fun _ => stays_pure _

theorem stays_tableLayout (old : ByOld) (t : Json) : Stays C (tableLayout old t : Import δ κ Layout) := by
  refine stays_bind (stays_python _) fun spec => ?_
  split
  · exact stays_reads _
  · exact stays_pure _

theorem stays_engineOf (sourceId : Json) : Stays C (engineOf env sourceId) := stays_same fun _ => rfl

theorem stays_ownTable (old : ByOld) (table : Json) : Stays C (ownTable env old table) := stays_same fun _ => rfl

end Rules

end SchemaImport
end Biggy
