import Biggy.Python
import Biggy.Keyed
import Biggy.Outcome

/-!
# Restoring the rows of the managed tables

`import_data` clears the managed tables and junctions of every data source in one transaction
each and inserts the rows of the payload. A multi-row insert takes its columns from the first
row: what later rows give for other columns is dropped.
-/
namespace Biggy
namespace Restore

/-! ### The model and the data sources -/

/-- A table of the model; an adopted table is not managed. -/
structure ModelTable where
  id : ℕ
  physName : String
  managed : Bool := true
  sourceId : Option ℕ := none
  deriving DecidableEq

inductive RelationKind
  | m1 | mn
  deriving DecidableEq

structure ModelRelation where
  kind : RelationKind
  fromTableId : ℕ
  junctionPhysName : Option String := none

structure Model where
  tables : List ModelTable
  relations : List ModelRelation

/-- A physical table. -/
structure DataTable where
  columns : List String
  rows : List Row

/-- The tables of one data source by name. -/
abbrev Tables := String → Option DataTable

/-- The engines of the data sources; `none` is the home database. -/
structure Sources (ε : Type*) where
  engine : Option ℕ → ε

/-- A row of a payload. -/
abbrev Record := List (String × Json)

inductive RestoreError
  | data (message : String)
  | noSuchTable
  | missingValue
  | refused
  | attributeError
  | typeError
  deriving DecidableEq

/-- An exception, and the source whose transaction it ended. -/
structure Failure (ε : Type*) where
  error : RestoreError
  source : Option ε

/-- The database driver: what a column holds of a given value, if it takes it, what the `n`-th
inserted row gets in a column that the insert leaves out, and the constraints of a table. -/
structure Driver where
  adapt : String → String → Json → Option Value
  blank : String → String → ℕ → Value
  admits : String → List Row → Bool

structure Summary where
  tables : ℕ
  rows : ℕ
  skipped : List String

section Engines

variable {ε : Type*} (sources : Sources ε) (model : Model)

/-- The junctions of the many-to-many relations, each in the source of its first table. -/
def junctions : List (String × ε) :=
  (model.relations.filter fun r => r.kind = .mn ∧ (r.junctionPhysName.getD "") ≠ "").map fun r =>
    (r.junctionPhysName.getD "",
      match Keyed.find ModelTable.id r.fromTableId model.tables with
      | some ft => sources.engine ft.sourceId
      | none => sources.engine none)

/-- The tables of the model with their engines, and the junctions. -/
def entries (managedOnly : Bool) : List (String × ε) :=
  ((model.tables.filter fun t => t.managed || !managedOnly).map fun t => (t.physName,sources.engine t.sourceId)) ++
    junctions sources model

/-- `_table_engines`: a later entry of a name replaces an earlier one. -/
def tableEngines (managedOnly : Bool) : List (String × ε) :=
  Keyed.puts Prod.fst (entries sources model managedOnly)

end Engines

/-! ### Inserting -/

section Insert

variable (d : Driver) (name : String)

/-- The columns of the table that a row gives. -/
def given (columns : List String) (row : Record) : List String :=
  ((Keyed.distinct Prod.fst row).map Prod.fst).filter (· ∈ columns)

/-- The parameters of one row of an insert. -/
def bindRow (keys : List String) (row : Record) : Except RestoreError Values :=
  keys.mapM fun k =>
    match row.lookup k with
    | none => .error .missingValue
    | some v =>
      match d.adapt name k v with
      | none => .error .refused
      | some x => .ok (k,x)

/-- The `n`-th inserted row. -/
def newRow (columns : List String) (n : ℕ) (values : Values) : Row := fun column =>
  (values.lookup column).getD (if column ∈ columns then d.blank name column n else .null)

/-- `conn.execute(insert(table), rows)`. -/
def insertMany (t : DataTable) (rows : List Record) : Except RestoreError DataTable :=
  match rows with
  | [] => .ok t
  | first::_ =>
    (rows.mapM (bindRow d name (given t.columns first))).bind fun bound =>
      let stored := t.rows ++ bound.mapIdx fun n values => newRow d name t.columns n values
      if d.admits name stored then .ok { t with rows := stored } else .error .refused

end Insert

/-- The rows of a payload's entry. -/
def rowsOf : Json → Except RestoreError (List Record)
  | .arr items => items.mapM fun
    | .obj members => .ok members
    | _ => .error .attributeError
  | .str _ | .obj _ => .error .attributeError
  | _ => .error .typeError

/-! ### The transactions -/

/-- `DELETE FROM name`. -/
def clearTable (tables : Tables) (name : String) : Except RestoreError Tables :=
  match tables name with
  | none => .error .noSuchTable
  | some t => .ok (Function.update tables name (some { t with rows := [] }))

/-- The rows of one entry; the number of rows goes along. -/
def fill (d : Driver) (state : Tables × ℕ) (entry : String × Json) : Except RestoreError (Tables × ℕ) :=
  if !entry.2.truthy then .ok state
  else
    match state.1 entry.1 with
    | none => .error .noSuchTable
    | some t => (rowsOf entry.2).bind fun rows =>
        (insertMany d entry.1 t rows).map fun t' => (Function.update state.1 entry.1 (some t'),state.2+rows.length)

/-- The transaction of one source. -/
def restoreSource (d : Driver) (clear : List String) (inserts : List (String × Json)) (tables : Tables) (total : ℕ) :
    Except RestoreError (Tables × ℕ) :=
  (clear.foldlM clearTable tables).bind fun cleared => inserts.foldlM (fill d) (cleared,total)

section Import

variable {ε : Type*} [DecidableEq ε] (d : Driver) (sources : Sources ε) (model : Model)

/-- `name_engines`. -/
def nameEngines : List (String × ε) := tableEngines sources model true

/-- The engine that a name is restored in. -/
def engineOf (name : String) : Option ε := (Keyed.find Prod.fst name (nameEngines sources model)).map Prod.snd

def clearBy (e : ε) : List String := ((nameEngines sources model).filter fun p => p.2 = e).map Prod.fst

/-- `targets`: the entries of the payload for managed tables. -/
def targets (payload : List (String × Json)) : List (String × Json) :=
  (Keyed.distinct Prod.fst payload).filter fun p => (engineOf sources model p.1).isSome

def insertBy (payload : List (String × Json)) (e : ε) : List (String × Json) :=
  (targets sources model payload).filter fun p => engineOf sources model p.1 = some e

/-- `engines`, in the order of the tables. -/
def engines : List ε := (Keyed.distinct id ((nameEngines sources model).map Prod.snd))

/-- The loop over the sources. -/
def loadAll (replace : Bool) (payload : List (String × Json)) :
    List ε → (ε → Tables) → ℕ → (ε → Tables) × Except (Failure ε) ℕ
  | [], world, total => (world,.ok total)
  | e::es, world, total =>
    match restoreSource d (if replace then clearBy sources model e else []) (insertBy sources model payload e) (world e) total with
    | .error error => (world,.error ⟨error,some e⟩)
    | .ok (tables,total) => loadAll replace payload es (Function.update world e tables) total

/-- `data.get("version") == DATA_VERSION`. -/
def versionOk : Json → Bool
  | .int n => n = 1
  | .bool b => b
  | .float x => x.isOne
  | _ => false

/-- `import_data`. -/
def importData (data : Json) (replace : Bool) (world : ε → Tables) : (ε → Tables) × Except (Failure ε) Summary :=
  match data with
  | .obj members =>
    if !versionOk (Json.get members "version") then
      (world,.error ⟨.data "Unsupported or missing data version.",none⟩)
    else
      match (if (Json.get members "tables").truthy then Json.get members "tables" else .obj []) with
      | .obj payload =>
        let (world,result) := loadAll d sources model replace payload (engines sources model) world 0
        (world,result.map fun rows => ⟨(targets sources model payload).length,rows,
          ((Keyed.distinct Prod.fst payload).map Prod.fst).filter fun name => (engineOf sources model name).isNone⟩)
      | _ => (world,.error ⟨.data "Malformed data payload.",none⟩)
  | _ => (world,.error ⟨.data "Unsupported or missing data version.",none⟩)

end Import

/-! ### What a restore is for -/

section Exactness

variable (d : Driver) (name : String)

/-- A stored row has every given value of a column, and elsewhere the column's own. -/
def RowExact (columns : List String) (n : ℕ) (record : Record) (row : Row) : Prop := ∀ column,
  if column ∈ columns then
    match record.lookup column with
    | some v => d.adapt name column v = some (row column)
    | none => row column = d.blank name column n
  else row column = .null

/-- The stored rows are those of the payload, in its order. -/
def RowsExact (columns : List String) (records : List Record) (stored : List Row) : Prop :=
  stored.length = records.length ∧
    ∀ n record row, records[n]? = some record → stored[n]? = some row → RowExact d name columns n record row

/-- What a restore asks of the rows of a table. -/
def Asked (payload : List (String × Json)) (columns : List String) (stored : List Row) : Prop :=
  match Keyed.find Prod.fst name payload with
  | none => stored = []
  | some entry =>
    if entry.2.truthy then ∃ records, rowsOf entry.2 = .ok records ∧ RowsExact d name columns records stored
    else stored = []

/-- A row gives a column that the first row leaves out only what the column holds anyway. -/
def Uniform (columns : List String) (records : List Record) : Prop :=
  ∀ first ∈ records.head?, ∀ n record, records[n]? = some record →
    ∀ column ∈ columns, column ∉ given columns first → ∀ v, record.lookup column = some v →
      d.adapt name column v = some (d.blank name column n)

variable {d name}

theorem mem_given {columns : List String} {row : Record} {column : String} (h : column ∈ given columns row) :
    column ∈ columns := by simpa using (List.mem_filter.mp h).2

/-- A bound row has the parameters of its keys. -/
theorem bindRow_lookup {keys : List String} {record : Record} {values : Values}
    (h : bindRow d name keys record = .ok values) (column : String) :
    if column ∈ keys then ∃ v x, record.lookup column = some v ∧ d.adapt name column v = some x ∧ values.lookup column = some x
    else values.lookup column = none := by
  have hpairs := Outcome.mapM_ok h
  clear h
  induction hpairs with
  | nil => simp
  | @cons key p keys values hkey hrest ih =>
    split at hkey
    · cases hkey
    · rename_i v hv
      split at hkey
      · cases hkey
      · rename_i x hx
        obtain rfl := Except.ok.inj hkey
        by_cases hcolumn : column = key
        · subst hcolumn
          simp [hv,hx]
        · have hne : (column == key) = false := by simpa using hcolumn
          simpa [List.lookup_cons,hne,hcolumn] using ih

theorem rowExact_newRow {columns keys : List String} (hkeys : ∀ column ∈ keys, column ∈ columns) {record : Record}
    {values : Values} (h : bindRow d name keys record = .ok values) (n : ℕ) :
    RowExact d name columns n record (newRow d name columns n values) ↔
      ∀ column ∈ columns, column ∉ keys → ∀ v, record.lookup column = some v →
        d.adapt name column v = some (d.blank name column n) := by
  refine forall_congr' fun column => ?_
  have hlookup := bindRow_lookup h column
  by_cases hkey : column ∈ keys
  · rw [if_pos hkey] at hlookup
    obtain ⟨v,x,hv,hx,hvalue⟩ := hlookup
    simp [hkeys column hkey,hkey,hv,hx,newRow,hvalue]
  · rw [if_neg hkey] at hlookup
    by_cases hcolumn : column ∈ columns
    · cases hv : record.lookup column with
      | none => simp [hcolumn,newRow,hlookup]
      | some v => simp [hcolumn,hkey,newRow,hlookup]
    · simp [hcolumn,newRow,hlookup]

/-- An insert into an empty table is exact exactly when its rows are uniform. -/
theorem insertMany_exact {columns : List String} {records : List Record} {t : DataTable}
    (h : insertMany d name ⟨columns,[]⟩ records = .ok t) :
    t.columns = columns ∧ (RowsExact d name columns records t.rows ↔ Uniform d name columns records) := by
  cases records with
  | nil =>
    obtain rfl := Except.ok.inj h
    simp [RowsExact,Uniform]
  | cons first rest =>
    obtain ⟨bound,hbound,hstored⟩ := Outcome.bind_ok h
    simp only [List.nil_append] at hstored
    split at hstored
    · obtain rfl := Except.ok.inj hstored
      refine ⟨rfl,?_⟩
      have hpairs := Outcome.mapM_ok hbound
      have hlength : (first::rest).length = bound.length := hpairs.length_eq
      have hrow : ∀ n record, (first::rest)[n]? = some record → ∃ values,
          (bound.mapIdx fun n values => newRow d name columns n values)[n]? = some (newRow d name columns n values) ∧
            bindRow d name (given columns first) record = .ok values := by
        intro n record hrecord
        obtain ⟨hn,rfl⟩ := List.getElem?_eq_some_iff.mp hrecord
        have hn' : n < bound.length := hlength ▸ hn
        refine ⟨bound[n],?_,hpairs.get hn hn'⟩
        simp [hn']
      simp only [RowsExact,Uniform,List.length_mapIdx,List.head?_cons,Option.mem_def,Option.some.injEq,forall_eq']
      constructor
      · rintro ⟨-,hexact⟩ n record hrecord
        obtain ⟨values,hvalues,hbind⟩ := hrow n record hrecord
        exact (rowExact_newRow (fun _ => mem_given) hbind n).mp (hexact n record _ hrecord hvalues)
      · refine fun huniform => ⟨hlength.symm,?_⟩
        intro n record row hrecord hget
        obtain ⟨values,hvalues,hbind⟩ := hrow n record hrecord
        obtain rfl := Option.some.inj (hget.symm.trans hvalues)
        exact (rowExact_newRow (fun _ => mem_given) hbind n).mpr (huniform n record hrecord)
    · cases hstored

end Exactness

/-! ### One source -/

section Source

variable {d : Driver}

theorem clearTable_ok {tables tables' : Tables} {name : String} (h : clearTable tables name = .ok tables') :
    ∃ t, tables name = some t ∧ tables' = Function.update tables name (some { t with rows := [] }) := by
  simp only [clearTable] at h
  split at h
  · cases h
  · rename_i t ht
    exact ⟨t,ht,(Except.ok.inj h).symm⟩

/-- A cleared table was there, and keeps its columns; the others are as they were. -/
theorem clear_ok {names : List String} {tables tables' : Tables} (h : names.foldlM clearTable tables = .ok tables')
    (n : String) :
    if n ∈ names then ∃ t, tables n = some t ∧ tables' n = some ⟨t.columns,[]⟩ else tables' n = tables n := by
  induction names generalizing tables with
  | nil =>
    obtain rfl := Except.ok.inj h
    simp
  | cons name names ih =>
    rw [Outcome.foldlM_cons] at h
    obtain ⟨middle,hstep,hrest⟩ := Outcome.bind_ok h
    obtain ⟨t,ht,rfl⟩ := clearTable_ok hstep
    have hafter := ih hrest
    by_cases hn : n = name
    · subst hn
      by_cases hmem : n ∈ names
      · simp only [hmem,if_true,Function.update_self,Option.some.injEq,exists_eq_left'] at hafter
        simp [ht,hafter]
      · simp only [hmem,if_false,Function.update_self] at hafter
        simp [ht,hafter]
    · simpa [hn] using hafter

/-- What an entry makes of its table. -/
def Filled (d : Driver) (name : String) (rows : Json) (before after : Option DataTable) : Prop :=
  if rows.truthy then
    ∃ t records t', before = some t ∧ rowsOf rows = .ok records ∧ insertMany d name t records = .ok t' ∧ after = some t'
  else after = before

theorem fill_ok {state state' : Tables × ℕ} {entry : String × Json} (h : fill d state entry = .ok state') :
    Filled d entry.1 entry.2 (state.1 entry.1) (state'.1 entry.1) ∧ ∀ n, n ≠ entry.1 → state'.1 n = state.1 n := by
  simp only [fill] at h
  split at h
  · rename_i hfalsy
    obtain rfl := Except.ok.inj h
    simp only [Bool.not_eq_eq_eq_not,Bool.not_true] at hfalsy
    exact ⟨by simp [Filled,hfalsy],fun _ _ => rfl⟩
  · rename_i htruthy
    split at h
    · cases h
    · rename_i t ht
      obtain ⟨records,hrecords,hinsert⟩ := Outcome.bind_ok h
      obtain ⟨t',ht',rfl⟩ := Outcome.map_ok hinsert
      simp only [Bool.not_eq_eq_eq_not,Bool.not_true,Bool.not_eq_false] at htruthy
      refine ⟨?_,fun n hn => Function.update_of_ne hn _ _⟩
      simp only [Filled,htruthy,if_true,Function.update_self]
      exact ⟨t,records,t',ht,hrecords,ht',rfl⟩

theorem fillAll_ok {inserts : List (String × Json)} (hnodup : (inserts.map Prod.fst).Nodup) {state state' : Tables × ℕ}
    (h : inserts.foldlM (fill d) state = .ok state') (n : String) :
    match Keyed.find Prod.fst n inserts with
    | none => state'.1 n = state.1 n
    | some entry => Filled d n entry.2 (state.1 n) (state'.1 n) := by
  induction inserts generalizing state with
  | nil =>
    obtain rfl := Except.ok.inj h
    rfl
  | cons entry inserts ih =>
    rw [Outcome.foldlM_cons] at h
    obtain ⟨middle,hstep,hrest⟩ := Outcome.bind_ok h
    obtain ⟨hfilled,hother⟩ := fill_ok hstep
    rw [List.map_cons,List.nodup_cons] at hnodup
    have hafter := ih hnodup.2 hrest
    rw [Keyed.find_cons]
    by_cases hn : entry.1 = n
    · subst hn
      have hnone : Keyed.find Prod.fst entry.1 inserts = none :=
        Keyed.find_eq_none.mpr fun p hp hkey => hnodup.1 (List.mem_map.mpr ⟨p,hp,hkey⟩)
      rw [hnone] at hafter
      simpa [hafter] using hfilled
    · rw [if_neg hn]
      rw [hother n (Ne.symm hn)] at hafter
      exact hafter

/-- The rows of the entry of a table are uniform. -/
def UniformEntry (d : Driver) (name : String) (payload : List (String × Json)) (columns : List String) : Prop :=
  ∀ entry ∈ Keyed.find Prod.fst name payload, entry.2.truthy = true → ∀ records, rowsOf entry.2 = .ok records →
    Uniform d name columns records

/-- A table that was cleared and filled is as asked exactly when its rows are uniform. -/
theorem filled_asked {name : String} {payload : List (String × Json)} {columns : List String} {after : Option DataTable}
    (h : match Keyed.find Prod.fst name payload with
      | none => after = some ⟨columns,[]⟩
      | some entry => Filled d name entry.2 (some ⟨columns,[]⟩) after) :
    ∃ t, after = some t ∧ t.columns = columns ∧
      (Asked d name payload columns t.rows ↔ UniformEntry d name payload columns) := by
  cases hfind : Keyed.find Prod.fst name payload with
  | none =>
    rw [hfind] at h
    exact ⟨_,h,rfl,by simp [Asked,UniformEntry,hfind]⟩
  | some entry =>
    rw [hfind] at h
    by_cases htruthy : entry.2.truthy = true
    · simp only [Filled,htruthy,if_true] at h
      obtain ⟨t,records,t',ht,hrecords,hinsert,rfl⟩ := h
      obtain rfl := Option.some.inj ht
      obtain ⟨hcolumns,hexact⟩ := insertMany_exact hinsert
      refine ⟨t',rfl,hcolumns,?_⟩
      simp only [Asked,UniformEntry,hfind,htruthy,if_true,Option.mem_def,Option.some.injEq,forall_eq',hrecords,
        Except.ok.injEq,exists_eq_left']
      simpa using hexact
    · simp only [Filled,htruthy] at h
      exact ⟨_,h,rfl,by simp [Asked,UniformEntry,hfind,htruthy]⟩

/-- The transaction of a source that clears its tables first. -/
theorem restoreSource_ok {clear : List String} {inserts : List (String × Json)} (hnodup : (inserts.map Prod.fst).Nodup)
    (hsub : ∀ p ∈ inserts, p.1 ∈ clear) {tables : Tables} {total : ℕ} {result : Tables × ℕ}
    (h : restoreSource d clear inserts tables total = .ok result) (n : String) :
    if n ∈ clear then ∃ t t', tables n = some t ∧ result.1 n = some t' ∧ t'.columns = t.columns ∧
      (Asked d n inserts t.columns t'.rows ↔ UniformEntry d n inserts t.columns)
    else result.1 n = tables n := by
  obtain ⟨cleared,hclear,hfill⟩ := Outcome.bind_ok h
  have hcleared := clear_ok hclear n
  have hfilled := fillAll_ok hnodup hfill n
  split
  · rename_i hn
    rw [if_pos hn] at hcleared
    obtain ⟨t,ht,hempty⟩ := hcleared
    simp only [hempty] at hfilled
    obtain ⟨t',ht',hcolumns,hasked⟩ := filled_asked hfilled
    exact ⟨t,t',ht,ht',hcolumns,hasked⟩
  · rename_i hn
    rw [if_neg hn] at hcleared
    have hnone : Keyed.find Prod.fst n inserts = none :=
      Keyed.find_eq_none.mpr fun p hp hkey => hn (hkey ▸ hsub p hp)
    rw [hnone] at hfilled
    exact hfilled.trans hcleared

end Source

/-! ### All sources -/

section Sources

variable {ε : Type*} [DecidableEq ε] (d : Driver) (sources : Sources ε) (model : Model)

/-- What a restore is for: the managed tables hold the payload, and nothing else is touched. -/
structure Exact (payload : List (String × Json)) (world world' : ε → Tables) : Prop where
  managed : ∀ p ∈ entries sources model true, ∃ t t', world p.2 p.1 = some t ∧ world' p.2 p.1 = some t' ∧
    t'.columns = t.columns ∧ Asked d p.1 payload t.columns t'.rows
  others : ∀ (e : ε) (name : String), (name,e) ∉ entries sources model true → world' e name = world e name

/-- The payload's rows are uniform, and a managed table whose name leads to another source is
as asked already. -/
structure Faithful (payload : List (String × Json)) (world : ε → Tables) : Prop where
  uniform : ∀ name e, engineOf sources model name = some e → ∀ t, world e name = some t → UniformEntry d name payload t.columns
  shadowed : ∀ p ∈ entries sources model true, engineOf sources model p.1 ≠ some p.2 →
    ∃ t, world p.2 p.1 = some t ∧ Asked d p.1 payload t.columns t.rows

/-- The entries of a file. -/
def payloadOf : Json → List (String × Json)
  | .obj members =>
    match Json.get members "tables" with
    | .obj payload => payload
    | _ => []
  | _ => []

/-- A restore is exact, and a failed one leaves the source it was loading as it was. -/
def Restores (data : Json) (world : ε → Tables) : Prop :=
  match importData d sources model data true world with
  | (world',.ok _) => Exact d sources model (payloadOf data) world world'
  | (world',.error failure) => ∀ e, failure.source = some e → world' e = world e

variable {d sources model}

omit [DecidableEq ε] in
theorem mem_nameEngines {p : String × ε} : p ∈ nameEngines sources model ↔ engineOf sources model p.1 = some p.2 := by
  simp only [engineOf,Option.map_eq_some_iff]
  constructor
  · intro h
    exact ⟨p,Keyed.find_of_mem (Keyed.nodup_puts _) h,rfl⟩
  · rintro ⟨q,hq,hsnd⟩
    have hfst : q.1 = p.1 := Keyed.key_of_find hq
    have heq : q = p := Prod.ext hfst hsnd
    exact heq ▸ Keyed.mem_of_find hq

omit [DecidableEq ε] in
theorem mem_entries {name : String} {e : ε} (h : engineOf sources model name = some e) :
    (name,e) ∈ entries sources model true := Keyed.mem_puts (mem_nameEngines.mpr h)

theorem mem_clearBy {name : String} {e : ε} : name ∈ clearBy sources model e ↔ engineOf sources model name = some e := by
  simp only [clearBy,List.mem_map,List.mem_filter,decide_eq_true_eq]
  constructor
  · rintro ⟨p,⟨hp,rfl⟩,rfl⟩
    exact mem_nameEngines.mp hp
  · intro h
    exact ⟨(name,e),⟨mem_nameEngines.mpr h,rfl⟩,rfl⟩

theorem mem_engines {e : ε} : e ∈ engines sources model ↔ ∃ name, engineOf sources model name = some e := by
  have hdistinct := @Keyed.exists_mem_distinct ε ε _ id e ((nameEngines sources model).map Prod.snd)
  simp only [id_eq,exists_eq_right] at hdistinct
  rw [engines,hdistinct,List.mem_map]
  constructor
  · rintro ⟨p,hp,rfl⟩
    exact ⟨p.1,mem_nameEngines.mp hp⟩
  · rintro ⟨name,hname⟩
    exact ⟨(name,e),mem_nameEngines.mpr hname,rfl⟩

theorem engines_nodup : (engines sources model).Nodup := by
  have hnodup := @Keyed.nodup_distinct ε ε _ id ((nameEngines sources model).map Prod.snd)
  rwa [List.map_id] at hnodup

theorem insertBy_nodup (payload : List (String × Json)) (e : ε) :
    ((insertBy sources model payload e).map Prod.fst).Nodup :=
  Keyed.nodup_filter _ (Keyed.nodup_filter _ (Keyed.nodup_distinct payload))

theorem find_insertBy {payload : List (String × Json)} {name : String} {e : ε}
    (h : engineOf sources model name = some e) :
    Keyed.find Prod.fst name (insertBy sources model payload e) = Keyed.find Prod.fst name payload := by
  rw [insertBy,Keyed.find_filter fun n => decide (engineOf sources model n = some e),if_pos (by simp [h]),targets,
    Keyed.find_filter fun n => (engineOf sources model n).isSome,if_pos (by simp [h]),Keyed.find_distinct]

/-- What became of the tables of the sources that were loaded. -/
theorem loadAll_ok {payload : List (String × Json)} {es : List ε} (hnodup : es.Nodup) {world world' : ε → Tables}
    {total rows : ℕ} (h : loadAll d sources model true payload es world total = (world',.ok rows)) :
    (∀ e ∉ es, world' e = world e) ∧ ∀ e ∈ es, ∃ before after,
      restoreSource d (clearBy sources model e) (insertBy sources model payload e) (world e) before = .ok (world' e,after) := by
  induction es generalizing world total with
  | nil =>
    obtain ⟨rfl,-⟩ := Prod.mk.inj h
    exact ⟨fun _ _ => rfl,fun e he => by cases he⟩
  | cons e es ih =>
    rw [List.nodup_cons] at hnodup
    simp only [loadAll,if_true] at h
    split at h
    · cases (Prod.mk.inj h).2
    · rename_i tables after hsource
      obtain ⟨hkept,hloaded⟩ := ih hnodup.2 h
      constructor
      · intro e' he'
        rw [List.mem_cons,not_or] at he'
        rw [hkept e' he'.2,Function.update_of_ne he'.1]
      · intro e' he'
        rcases List.mem_cons.mp he' with rfl | hmem
        · refine ⟨total,after,?_⟩
          rw [hkept e' hnodup.1,Function.update_self]
          exact hsource
        · obtain ⟨before,after',hstep⟩ := hloaded e' hmem
          have hne : e' ≠ e := fun heq => hnodup.1 (heq ▸ hmem)
          rw [Function.update_of_ne hne] at hstep
          exact ⟨before,after',hstep⟩

/-- A transaction that fails leaves its source as it was. -/
theorem loadAll_error {replace : Bool} {payload : List (String × Json)} {es : List ε} (hnodup : es.Nodup)
    {world world' : ε → Tables} {total : ℕ} {failure : Failure ε}
    (h : loadAll d sources model replace payload es world total = (world',.error failure)) :
    ∃ e ∈ es, failure.source = some e ∧ world' e = world e := by
  induction es generalizing world total with
  | nil => cases (Prod.mk.inj h).2
  | cons e es ih =>
    rw [List.nodup_cons] at hnodup
    simp only [loadAll] at h
    split at h
    · obtain ⟨rfl,hfailure⟩ := Prod.mk.inj h
      obtain rfl := Except.error.inj hfailure
      exact ⟨e,List.mem_cons_self,rfl,rfl⟩
    · obtain ⟨e',he',hsource,hkept⟩ := ih hnodup.2 h
      have hne : e' ≠ e := fun heq => hnodup.1 (heq ▸ he')
      rw [Function.update_of_ne hne] at hkept
      exact ⟨e',List.mem_cons_of_mem e he',hsource,hkept⟩

/-- What an accepted payload makes of every table. -/
theorem loaded {payload : List (String × Json)} {world world' : ε → Tables} {rows : ℕ}
    (h : loadAll d sources model true payload (engines sources model) world 0 = (world',.ok rows)) (e : ε) (name : String) :
    if engineOf sources model name = some e then ∃ t t', world e name = some t ∧ world' e name = some t' ∧
      t'.columns = t.columns ∧ (Asked d name payload t.columns t'.rows ↔ UniformEntry d name payload t.columns)
    else world' e name = world e name := by
  obtain ⟨hkept,hloaded⟩ := loadAll_ok engines_nodup h
  by_cases he : e ∈ engines sources model
  · obtain ⟨before,after,hsource⟩ := hloaded e he
    have hsub : ∀ p ∈ insertBy sources model payload e, p.1 ∈ clearBy sources model e := fun p hp =>
      mem_clearBy.mpr (by simpa using (List.mem_filter.mp hp).2)
    have hresult := restoreSource_ok (insertBy_nodup payload e) hsub hsource name
    simp only [mem_clearBy] at hresult
    split
    · rename_i hname
      simpa only [hname,if_true,Asked,UniformEntry,find_insertBy hname] using hresult
    · rename_i hname
      rwa [if_neg hname] at hresult
  · rw [if_neg fun hname => he (mem_engines.mpr ⟨name,hname⟩)]
    rw [hkept e he]

theorem exact_iff {payload : List (String × Json)} {world world' : ε → Tables} {rows : ℕ}
    (h : loadAll d sources model true payload (engines sources model) world 0 = (world',.ok rows)) :
    Exact d sources model payload world world' ↔ Faithful d sources model payload world := by
  constructor
  · intro hexact
    constructor
    · intro name e hname t ht
      have hloaded := loaded h e name
      rw [if_pos hname] at hloaded
      obtain ⟨t₁,t₂,h₁,h₂,-,hasked⟩ := hloaded
      obtain ⟨u,u',hu,hu',-,hrows⟩ := hexact.managed (name,e) (mem_entries hname)
      obtain rfl := Option.some.inj (h₁.symm.trans ht)
      obtain rfl := Option.some.inj (h₁.symm.trans hu)
      obtain rfl := Option.some.inj (h₂.symm.trans hu')
      exact hasked.mp hrows
    · intro p hp hother
      have hloaded := loaded h p.2 p.1
      rw [if_neg hother] at hloaded
      obtain ⟨t,t',ht,ht',-,hrows⟩ := hexact.managed p hp
      rw [hloaded,ht] at ht'
      obtain rfl := Option.some.inj ht'
      exact ⟨t,ht,hrows⟩
  · intro hfaithful
    constructor
    · intro p hp
      have hloaded := loaded h p.2 p.1
      split at hloaded
      · rename_i hname
        obtain ⟨t,t',ht,ht',hcolumns,hasked⟩ := hloaded
        exact ⟨t,t',ht,ht',hcolumns,hasked.mpr (hfaithful.uniform p.1 p.2 hname t ht)⟩
      · rename_i hother
        obtain ⟨t,ht,hrows⟩ := hfaithful.shadowed p hp hother
        exact ⟨t,t,ht,hloaded.trans ht,rfl,hrows⟩
    · intro e name hname
      have hloaded := loaded h e name
      rwa [if_neg fun hengine => hname (mem_entries hengine)] at hloaded

theorem importData_ok {data : Json} {world world' : ε → Tables} {summary : Summary}
    (h : importData d sources model data true world = (world',.ok summary)) :
    ∃ rows, loadAll d sources model true (payloadOf data) (engines sources model) world 0 = (world',.ok rows) := by
  have hpayload : ∀ tables payload, (if tables.truthy then tables else Json.obj []) = .obj payload →
      (match tables with
        | .obj payload => payload
        | _ => []) = payload := by
    intro tables payload htables
    split at htables
    · rw [htables]
    · rename_i hfalsy
      obtain rfl := Json.obj.inj htables
      cases tables with
      | obj members => simpa [Json.truthy] using hfalsy
      | _ => rfl
  simp only [importData] at h
  split at h
  · rename_i members
    split at h
    · cases (Prod.mk.inj h).2
    · split at h
      · rename_i payload htables
        rw [payloadOf,hpayload _ _ htables]
        obtain ⟨hworld,hresult⟩ := Prod.mk.inj h
        obtain ⟨rows,hrows,-⟩ := Outcome.map_ok hresult
        exact ⟨rows,Prod.ext hworld hrows⟩
      · cases (Prod.mk.inj h).2
  · cases (Prod.mk.inj h).2

theorem importData_error {data : Json} {world world' : ε → Tables} {failure : Failure ε}
    (h : importData d sources model data true world = (world',.error failure)) (e : ε) (he : failure.source = some e) :
    world' e = world e := by
  simp only [importData] at h
  split at h
  · split at h
    · obtain rfl := Except.error.inj (Prod.mk.inj h).2
      cases he
    · split at h
      · rename_i payload htables
        obtain ⟨hworld,hresult⟩ := Prod.mk.inj h
        cases hload : (loadAll d sources model true payload (engines sources model) world 0).2 with
        | ok rows =>
          rw [hload] at hresult
          cases hresult
        | error other =>
          rw [hload] at hresult
          obtain rfl := Except.error.inj hresult
          obtain ⟨e',-,hsource,hkept⟩ := loadAll_error engines_nodup (Prod.ext hworld hload)
          obtain rfl := Option.some.inj (hsource.symm.trans he)
          exact hkept
      · obtain rfl := Except.error.inj (Prod.mk.inj h).2
        cases he
  · obtain rfl := Except.error.inj (Prod.mk.inj h).2
    cases he

theorem restores_of_ok {data : Json} {world world' : ε → Tables} {summary : Summary}
    (h : importData d sources model data true world = (world',.ok summary)) :
    Restores d sources model data world ↔ Faithful d sources model (payloadOf data) world := by
  obtain ⟨rows,hload⟩ := importData_ok h
  simp only [Restores,h]
  exact exact_iff hload

/-- A restore is exact exactly when the rows of an accepted payload are uniform and no managed
table is hidden behind another source. -/
theorem restores_iff (d : Driver) (sources : Sources ε) (model : Model) (data : Json) (world : ε → Tables) :
    Restores d sources model data world ↔
      ((∃ world' summary, importData d sources model data true world = (world',.ok summary)) →
        Faithful d sources model (payloadOf data) world) := by
  cases himport : importData d sources model data true world with
  | mk world' result =>
    cases result with
    | ok summary =>
      rw [restores_of_ok himport]
      exact ⟨fun h _ => h,fun h => h ⟨world',summary,rfl⟩⟩
    | error failure =>
      refine iff_of_true ?_ ?_
      · simp only [Restores,himport]
        exact importData_error himport
      · rintro ⟨world'',summary,heq⟩
        cases (Prod.mk.inj heq).2

end Sources

/-! ### A second row with one more column -/

def plainDriver : Driver where
  adapt _ _ v :=
    match v with
    | .int n => some (.int n)
    | .str s => some (.text s)
    | .null => some .null
    | _ => none
  blank _ _ _ := .null
  admits _ _ := true

def customerModel : Model := ⟨[⟨1,"customers",true,none⟩],[]⟩

def customerTables : Unit → Tables := fun _ => Function.update (fun _ => none) "customers" (some ⟨["id","name"],[]⟩)

/-- Two customers, the first of which has no name. -/
def customerFile : Json := .obj [("version",.int 1),("tables",.obj [("customers",
  .arr [.obj [("id",.int 1)],.obj [("id",.int 2),("name",.str "Bob")]])])]

/-- The restore accepts the file and loses the name. -/
theorem restore_drops : ¬Restores plainDriver ⟨fun _ => ()⟩ customerModel customerFile customerTables := by
  have himport : ∃ world summary, importData plainDriver ⟨fun _ => ()⟩ customerModel customerFile true customerTables =
      (world,.ok summary) := ⟨_,_,rfl⟩
  obtain ⟨world,summary,himport⟩ := himport
  rw [restores_of_ok himport]
  intro h
  have huniform := h.uniform "customers" () (by decide) ⟨["id","name"],[]⟩ rfl _ rfl rfl _ rfl
  have hname := huniform _ rfl 1 _ rfl "name" (by decide) (by decide) (.str "Bob") rfl
  cases hname

end Restore
end Biggy
