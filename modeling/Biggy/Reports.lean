import Biggy.FieldLeaks
import Biggy.CsvWrite
import Biggy.Grouping
import Biggy.Rollups
import Biggy.WorkflowChoices

/-!
# Reports

A report groups the rows of a table by one column and computes metrics of each group and of all rows; what it groups,
computes and filters is read from the parameters of a request, as far as they name columns that the account may read.
-/
namespace Biggy
namespace Reports

open Companies RowScope Access FieldLeaks
open Rollups (Aggregate)

/-- What reports need besides a site. `groupKey` is what GROUP BY compares, `aggregate` the aggregates of the database,
`displayIds` the fields that a relation is labelled by, and `parseQsl` is `urllib.parse.parse_qsl`. -/
structure Desk extends Site where
  groupKey : Value → Value
  aggregate : Aggregate → List Value → Value
  resultType : MetaField → Option String
  displayIds : MetaField → List ℕ
  usernames : List (ℕ × String)
  companyNames : List (ℕ × String)
  parseQsl : String → List (String × String)

/-! ### Filters of a column -/

inductive FilterKind
  | text | number | date | enum | boolean | relation | user | company
  deriving DecidableEq

/-- The keys of the operators. -/
def opName : Op → String
  | .contains => "contains" | .notContains => "not_contains" | .startsWith => "starts_with" | .endsWith => "ends_with"
  | .eq => "eq" | .ne => "ne" | .gt => "gt" | .gte => "gte" | .lt => "lt" | .lte => "lte" | .isTrue => "is_true"
  | .isFalse => "is_false" | .empty => "empty" | .notEmpty => "not_empty"

/-- `OPS_BY_KIND`. -/
def opsByKind : FilterKind → List Op
  | .text => [.contains,.notContains,.startsWith,.endsWith,.eq,.ne,.empty,.notEmpty]
  | .number => [.eq,.ne,.gt,.gte,.lt,.lte,.empty,.notEmpty]
  | .date => [.eq,.gt,.lt,.gte,.lte,.empty,.notEmpty]
  | .enum | .relation | .user | .company => [.eq,.ne,.empty,.notEmpty]
  | .boolean => [.isTrue,.isFalse,.empty]

/-- `valid_op`: the operator that the key stands for. -/
def validOp (kind : FilterKind) (key : String) : Option Op := (opsByKind kind).find? fun op => opName op == key

section Meta

variable (S : Desk)

/-- `filter_kind`. -/
def filterKind (f : MetaField) : FilterKind :=
  match f.dataType with
  | .relation => .relation
  | .formula =>
    match S.resultType f with
    | some "number" => .number
    | some "date" | some "datetime" => .date
    | some "boolean" => .boolean
    | _ => .text
  | .integer | .bigint | .decimal | .float | .currency | .percent => .number
  | .date | .datetime | .time => .date
  | .enum => .enum
  | .boolean => .boolean
  | .user => .user
  | .company => .company
  | _ => .text

/-- `Col`. -/
structure Col where
  isRelation : Bool
  column : String
  label : String
  field : MetaField

/-- `table_columns`. -/
def tableColumns (mt : MetaTable) (allowed : Option (List String)) : List Col :=
  (mt.fields.filter fun f => decide (f.dataType ≠ .image ∧ f.dataType ≠ .file) &&
    (allowed.all fun names => decide (f.physName ∈ names))).map fun f => ⟨f.dataType = .relation,f.physName,f.label,f⟩

/-- `by_col.get(name)`. -/
def byCol (columns : List Col) (name : String) : Option Col := columns.find? fun c => c.column == name

/-! ### The choices of a relation -/

/-- `_company_where`; `user` is none where the program asks for itself. -/
def companyWhere (user : Option User) (target : MetaTable) : Option (String × Finset ℕ) :=
  match user with
  | none => none
  | some user =>
    if user.isDesigner then none
    else
      match target.fields.find? fun f => decide (f.dataType = .company) with
      | none => none
      | some cf => (allowedForUser S.session.accounts S.session.companies (some user.id)).map fun allowed => (cf.physName,allowed)

/-- `display_columns`. -/
def displayColumns (f : MetaField) (target : MetaTable) : List String :=
  let cols := (S.displayIds f).filterMap fun id => (target.field id).map MetaField.physName
  if cols = [] then [displayFieldName S.toSite target] else cols

/-- `_as_columns`. -/
def asColumns (target : MetaTable) (cols : List String) : List String :=
  let found := cols.filter fun c => decide (c ∈ (S.shape target).columns)
  if found = [] then [(S.shape target).pk] else found

/-- `_compose_label`. -/
def composeLabel (pk : Value) (values : List Value) : String :=
  let parts := (values.filter fun v => !v.blank).map S.lib.str
  if parts = [] then "#"++S.lib.str pk else String.intercalate " — " parts

/-- What a picker reads of a row, if it offers the row. -/
def offer (user : Option User) (f : MetaField) (target : MetaTable) (row : Row) : Option (Value × List Value) :=
  if (companyWhere S user target).all fun scope =>
      passes S.engine.toSql (S.shape target).columns (companyCondition scope) row then
    some (row (S.shape target).pk,(asColumns S target (displayColumns S f target)).map row)
  else none

def offered (user : Option User) (f : MetaField) (target : MetaTable) (D : Database S.toSite) : List (Value × List Value) :=
  (D target).rows.filterMap (offer S user f target)

/-- `load_options`. -/
def loadOptions (user : Option User) (f : MetaField) (target : MetaTable) (D : Database S.toSite) : List (Value × String) :=
  let rows := (offered S user f target D).insertionSort fun a b =>
    S.engine.le (a.2.headD .null) (b.2.headD .null) = true
  rows.map fun r => (r.1,composeLabel S r.1 r.2)

structure FilterMeta where
  label : String
  kind : FilterKind
  dataType : DataType
  ops : List Op
  choices : Option (List (Json × Json))

/-- What `build_meta` returns, without the targets of the relations. -/
structure Meta where
  filterMeta : List (String × FilterMeta)
  filterOrder : List String
  labelMaps : List (String × List (Value × String))

def listed (names : List (ℕ × String)) : List (Json × Json) := names.map fun p => (.int p.1,.str p.2)

/-- One turn of the loop in `build_meta`: the choices of a column and its labels. -/
def choicesOf (user : Option User) (D : Database S.toSite) (c : Col) :
    Except PyError (Option (List (Json × Json)) × List (String × List (Value × String))) :=
  if c.isRelation then
    match S.tables.find? fun t => decide (some t.id = c.field.relatedTableId) with
    | none => .error .attributeError
    | some target =>
      let opts := loadOptions S user c.field target D
      .ok (some (opts.map fun o => (S.json o.1,.str o.2)),[(c.column,opts)])
  else
    match c.field.dataType with
    | .enum => do
      let options ← (S.lib.loads ((c.field.enumOptions.filter (· ≠ "")).getD "[]")).bind Workflow.elements
      return (some (options.map fun o => (o,o)),[])
    | .user => .ok (some ((.str "me",.str "Me")::listed S.usernames),[])
    | .company => .ok (some (listed S.companyNames),[])
    | _ => .ok (none,[])

/-- `build_meta`. -/
def buildMeta (user : Option User) (D : Database S.toSite) : List Col → Except PyError Meta
  | [] => .ok ⟨[],[],[]⟩
  | c::cs => do
    let (choices,labels) ← choicesOf S user D c
    let m ← buildMeta user D cs
    let kind := filterKind S c.field
    return ⟨(c.column,⟨c.label,kind,c.field.dataType,opsByKind kind,choices⟩)::m.filterMeta,c.column::m.filterOrder,
      labels++m.labelMaps⟩

end Meta

/-! ### The parameters of a request -/

/-- The parameters of an address, in their order. -/
abbrev Args := List (String × String)

/-- `args.get(name)`. -/
def Args.get (args : Args) (name : String) : Option String := args.lookup name

/-- `args.getlist(name)`. -/
def Args.getlist (args : Args) (name : String) : List String := (args.filter fun p => p.1 == name).map Prod.snd

structure Metric where
  func : Aggregate
  col : Option String
  label : String
  title : String
  deriving DecidableEq

def numeric : List DataType := [.integer,.bigint,.decimal,.float]

def datelike : List DataType := [.date,.datetime]

/-- The key and the title of a function. -/
def funcName : Aggregate → String × String
  | .count => ("count","Count")
  | .sum => ("sum","Sum")
  | .avg => ("avg","Avg")
  | .min => ("min","Min")
  | .max => ("max","Max")

def scalarFuncs : List Aggregate := [.sum,.avg,.min,.max]

/-- The metrics that may be chosen. -/
def metricChoices (columns : List Col) : List (String × String) :=
  ("count","Count")::columns.flatMap fun c =>
    let funcs : List Aggregate :=
      if c.field.dataType ∈ numeric then scalarFuncs
      else if c.field.dataType ∈ datelike then [.min,.max]
      else []
    funcs.map fun fn => ((funcName fn).1++":"++c.column,(funcName fn).2++" of "++c.label)

def groupChoices (columns : List Col) : List (String × String) := columns.map fun c => (c.column,c.label)

/-- `key.partition(":")`. -/
def partition (key : String) : String × String :=
  (String.ofList (key.toList.takeWhile (· ≠ ':')),String.ofList ((key.toList.dropWhile (· ≠ ':')).drop 1))

def countMetric : Metric := ⟨.count,none,"count","Count"⟩

/-- `_parse_metric`. -/
def parseMetric (columns : List Col) (key : String) : Option Metric :=
  if key = "count" then some countMetric
  else
    match scalarFuncs.find? fun fn => (funcName fn).1 == (partition key).1, byCol columns (partition key).2 with
    | some fn, some c =>
      if (fn = .sum ∨ fn = .avg) ∧ c.field.dataType ∉ numeric then none
      else if c.field.dataType ∉ numeric ∧ c.field.dataType ∉ datelike then none
      else some ⟨fn,some c.column,(funcName fn).1++"_"++c.column,(funcName fn).2++" of "++c.label⟩
    | _, _ => none

/-- `key_of`. -/
def keyOf (m : Metric) : String :=
  match m.col with
  | none => "count"
  | some col => (funcName m.func).1++":"++col

/-- A condition as it has been asked for. -/
structure Asked where
  col : String
  op : Op
  val : String
  deriving DecidableEq

structure Query where
  groupCol : Option String
  metrics : List Metric
  filters : List Filter
  conditions : List Asked

def addMetric (columns : List Col) (ms : List Metric) (key : String) : List Metric :=
  match parseMetric columns key with
  | some m => if m ∈ ms then ms else ms++[m]
  | none => ms

/-- The metrics that are asked for, each once. -/
def parseMetrics (columns : List Col) (args : Args) : List Metric :=
  let metrics := (args.getlist "metric").foldl (addMetric columns) []
  if metrics = [] then [countMetric] else metrics

/-- The columns, operators and values of the conditions, as far as there are three of them. -/
def triples : List String → List String → List String → List (String × String × String)
  | col::cols, op::ops, val::vals => (col,op,val)::triples cols ops vals
  | _, _, _ => []

/-- The conditions that are asked for. -/
def parseConditions (filterMeta : List (String × FilterMeta)) (args : Args) : List (FilterKind × Asked) :=
  (triples (args.getlist "fcol") (args.getlist "fop") (args.getlist "fval")).filterMap fun t =>
    (filterMeta.lookup t.1).bind fun m => (validOp m.kind t.2.1).map fun op => (m.kind,⟨t.1,op,t.2.2⟩)

/-- The filter of a condition that has a value or needs none. -/
def filterOf (c : FilterKind × Asked) : Option Filter :=
  if c.2.op.valueless ∨ c.2.val ≠ "" then some (.one ⟨c.2.col,.compare c.2.op (.text c.2.val),c.1 = .text⟩) else none

/-- `parse`. -/
def parse (columns : List Col) (filterMeta : List (String × FilterMeta)) (args : Args) : Query :=
  let conditions := parseConditions filterMeta args
  { groupCol := (byCol columns ((args.get "group").getD "")).map Col.column
    metrics := parseMetrics columns args
    filters := conditions.filterMap filterOf
    conditions := conditions.map Prod.snd }

/-! ### The result -/

section Result

variable (S : Desk) (mt : MetaTable)

/-- `_metric_expr`: what the metric is of a list of rows. -/
def metricExpr (m : Metric) : Option (List Row → Value) :=
  match m.func, m.col with
  | .count, none => some fun rows => .int rows.length
  | fn, some col =>
    if col ∈ (S.shape mt).columns then some fun rows => S.aggregate fn (rows.map fun row => row col) else none
  | _, none => none

/-- The rows of one group column, or the single row without one. -/
def groupRows (grp : Option String) (exprs : List (List Row → Value)) (limit : ℕ) (matching : List Row) : List (List Value) :=
  match grp with
  | none => [exprs.map fun e => e matching]
  | some g =>
    let rows := (Grouping.groups (fun row : Row => S.groupKey (row g)) matching).map fun members =>
      ((members.map fun row => row g).headD .null)::exprs.map fun e => e members
    let sorted := match exprs with
      | [] => rows.insertionSort fun a b : List Value => S.engine.le (a.headD .null) (b.headD .null) = true
      | _::_ => rows.insertionSort fun a b : List Value => S.engine.le (b.tail.headD .null) (a.tail.headD .null) = true
    sorted.take limit

/-- `aggregate_rows`: the rows and the totals. -/
def aggregateRows (groupCol : Option String) (metrics : List Metric) (filters : List Filter) (limit : ℕ)
    (D : Database S.toSite) : List (List Value) × Option (List Value) :=
  let matching := (D mt).rows.filter (applyFilters S.engine.toSql (S.shape mt).columns filters)
  let exprs := metrics.filterMap (metricExpr S mt)
  (groupRows S (groupCol.filter fun g => decide (g ∈ (S.shape mt).columns)) exprs limit matching,
    if exprs = [] then none else some (exprs.map fun e => e matching))

structure Result where
  grouped : Bool
  groupLabel : Option String
  titles : List String
  rows : List (List Value)
  totals : Option (List Value)

/-- How the cell of a group is shown. -/
def shownCell (labels : Option (List (Value × String))) (cell : Value) : Value :=
  let cell := ((labels.bind fun opts => opts.lookup cell).map Value.text).getD cell
  if cell.blank then .text "—" else cell

/-- `run`. -/
def run (columns : List Col) (groupCol : Option String) (metrics : List Metric) (filters : List Filter)
    (labelMaps : List (String × List (Value × String))) (D : Database S.toSite) : Result :=
  let r := aggregateRows S mt groupCol metrics filters 1000 D
  let titles := metrics.map Metric.title
  match groupCol with
  | some g =>
    { grouped := true, groupLabel := some (((byCol columns g).map Col.label).getD g), titles := titles
      rows := r.1.map fun row => shownCell (labelMaps.lookup g) (row.headD .null)::row.tail
      totals := r.2 }
  | none =>
    { grouped := false, groupLabel := none, titles := titles
      rows := [r.2.getD (metrics.map fun _ => .null)], totals := none }

/-- `_num`. -/
def num (v : Value) : PyFloat := if v.blank then .finite 0 else (S.lib.float v).getD (.finite 0)

structure ChartData where
  grouped : Bool
  labels : List String
  series : List (String × List PyFloat)

/-- The values in one place of the rows. -/
def nth (j : ℕ) (row : List Value) : Value := row.getD j .null

/-- `chart_data`. -/
def chartData (r : Result) : ChartData :=
  if r.grouped then
    { grouped := true
      labels := r.rows.map fun row => if nth 0 row = .null then "" else S.lib.str (nth 0 row)
      series := r.titles.mapIdx fun j title => (title,r.rows.map fun row => num S (nth (j+1) row)) }
  else { grouped := false, labels := r.titles, series := [("Total",(r.rows.headD []).map (num S))] }

/-- A cell of the file. -/
def csvCell (v : Value) : String := if v = .null then "" else S.lib.str v

/-- `to_csv`. -/
def toCsv (r : Result) : String :=
  let total := match r.grouped, r.totals with
    | true, some totals => if totals = [] then [] else ["Total"::totals.map (csvCell S)]
    | _, _ => []
  Csv.write ((r.groupLabel.toList++r.titles)::r.rows.map (fun row => row.map (csvCell S))++total)

/-- What a page shows of a report. -/
structure Report where
  table : ℕ
  groupOptions : List (String × String)
  metricOptions : List (String × String)
  groupCol : String
  selectedMetrics : List String
  filterMeta : List (String × FilterMeta)
  filterOrder : List String
  conditions : List Asked
  result : Result
  chart : String
  chartData : ChartData
  queryBase : Args

/-- `build`. -/
def build (user : Option User) (args : Args) (baseFilters : List Filter) (D : Database S.toSite) : Except PyError Report := do
  let allowed := (user.filter fun u => !u.isDesigner).map fun u => (readableFields S.session u mt).map MetaField.physName
  let columns := tableColumns mt allowed
  let m ← buildMeta S user D columns
  let q := parse columns m.filterMeta args
  let result := run S mt columns q.groupCol q.metrics (baseFilters++q.filters) m.labelMaps D
  let chart := (args.get "chart").getD ""
  return { table := mt.id, groupOptions := groupChoices columns, metricOptions := metricChoices columns
           groupCol := q.groupCol.getD "", selectedMetrics := q.metrics.map keyOf, filterMeta := m.filterMeta
           filterOrder := m.filterOrder, conditions := q.conditions, result := result
           chart := if chart = "" then "bar" else chart, chartData := chartData S result
           queryBase := args.filter fun p => p.1 ≠ "export" && p.1 ≠ "chart" }

end Result

section Queries

variable {columns : List Col}

theorem byCol_mem {name : String} {c : Col} (h : byCol columns name = some c) : c ∈ columns ∧ c.column = name :=
  ⟨List.mem_of_find?_eq_some h,by simpa using List.find?_some h⟩

theorem parseMetric_some {key : String} {m : Metric} (h : parseMetric columns key = some m) :
    m = countMetric ∨ ∃ c ∈ columns, m.col = some c.column ∧ m.func ≠ .count := by
  unfold parseMetric at h
  split at h
  · exact Or.inl (Option.some.inj h).symm
  · split at h
    · rename_i fn c hfn hc
      split_ifs at h
      cases h
      refine Or.inr ⟨c,(byCol_mem hc).1,rfl,?_⟩
      rintro rfl
      have hmem : Aggregate.count ∈ scalarFuncs := List.mem_of_find?_eq_some hfn
      simp [scalarFuncs] at hmem
    · cases h

/-- A metric of a query counts the rows, or is on a column of the report. -/
theorem parseMetrics_some {args : Args} {m : Metric} (h : m ∈ parseMetrics columns args) :
    m = countMetric ∨ ∃ c ∈ columns, m.col = some c.column ∧ m.func ≠ .count := by
  have hfold : ∀ (keys : List String) (ms : List Metric),
      (∀ m ∈ ms, m = countMetric ∨ ∃ c ∈ columns, m.col = some c.column ∧ m.func ≠ .count) →
      ∀ m ∈ keys.foldl (addMetric columns) ms, m = countMetric ∨ ∃ c ∈ columns, m.col = some c.column ∧ m.func ≠ .count := by
    intro keys
    induction keys with
    | nil => exact fun ms h => h
    | cons key keys ih =>
      intro ms hms
      rw [List.foldl_cons]
      refine ih _ ?_
      unfold addMetric
      cases hkey : parseMetric columns key with
      | none => exact hms
      | some m' =>
        dsimp only
        split
        · exact hms
        · intro m hm
          rcases List.mem_append.mp hm with hm | hm
          · exact hms m hm
          · obtain rfl := List.mem_singleton.mp hm
            exact parseMetric_some hkey
  unfold parseMetrics at h
  dsimp only at h
  split at h
  · exact Or.inl (List.mem_singleton.mp h)
  · exact hfold _ [] (List.forall_mem_nil _) m h

end Queries

end Reports
end Biggy
