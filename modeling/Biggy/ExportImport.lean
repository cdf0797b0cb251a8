import Biggy.ImportStrict
import Biggy.ListExport

/-!
# Export and import again

A list is exported and its file imported in upsert mode by one of its columns. Every stored
row should come out of it as it was, unless its line is among the errors. `unchanged_of_readable`
and `readable_of_unchanged` say when it does.
-/
namespace Biggy
namespace Importer

section Update

variable {E : Engine} {t : Physical} {us : List (Value × Values)} {row : Row}

theorem replay_cons (u : Value × Values) (us : List (Value × Values)) (row : Row) :
    replay E t (u::us) row =
      replay E t us (if t.keyOf row = t.key u.1 then row.write (t.clean (adapted E u.2)) else row) := rfl

/-- Updates that write what is there leave a record as it is. -/
theorem replay_fixed (h : ∀ u ∈ us, t.keyOf row = t.key u.1 → row.write (t.clean (adapted E u.2)) = row) :
    replay E t us row = row := by
  induction us with
  | nil => rfl
  | cons u us ih =>
    have hlater := ih fun w hw => h w (List.mem_cons_of_mem u hw)
    rw [replay_cons]
    by_cases hkey : t.keyOf row = t.key u.1
    · rw [if_pos hkey,h u List.mem_cons_self hkey]
      exact hlater
    · rw [if_neg hkey]
      exact hlater

theorem write_write (row : Row) (vs : Values) : (row.write vs).write vs = row.write vs := by
  funext column
  simp only [Row.write]
  cases vs.lookup column <;> rfl

/-- Updates that all write the same values to a record write them once. -/
theorem replay_same {values : Values} (hsame : ∀ u ∈ us, t.keyOf row = t.key u.1 → u.2 = values)
    (hone : ∃ u ∈ us, t.keyOf row = t.key u.1) : replay E t us row = row.write (t.clean (adapted E values)) := by
  induction us with
  | nil =>
    obtain ⟨u,hu,-⟩ := hone
    cases hu
  | cons u us ih =>
    have hrest : ∀ w ∈ us, t.keyOf row = t.key w.1 → w.2 = values := fun w hw => hsame w (List.mem_cons_of_mem u hw)
    rw [replay_cons]
    by_cases hkey : t.keyOf row = t.key u.1
    · rw [if_pos hkey,hsame u List.mem_cons_self hkey]
      apply replay_fixed
      intro w hw hwkey
      rw [Physical.keyOf_write] at hwkey
      rw [hrest w hw hwkey]
      exact write_write row _
    · rw [if_neg hkey]
      apply ih hrest
      obtain ⟨w,hw,hwkey⟩ := hone
      rcases List.mem_cons.mp hw with rfl | hw
      · exact absurd hwkey hkey
      · exact ⟨w,hw,hwkey⟩

theorem keyOf_replay (us : List (Value × Values)) (row : Row) : t.keyOf (replay E t us row) = t.keyOf row := by
  induction us generalizing row with
  | nil => rfl
  | cons u us ih =>
    rw [replay_cons,ih]
    split
    · exact Physical.keyOf_write t row _
    · rfl

/-- A stored record behind the import: what the written updates make of it. -/
theorem load_replay (skipInvalid : Bool) {outcomes : List Outcome} (ignored : List String) {k : Value}
    (hrow : t.rowAt k = some row) : (load E t skipInvalid outcomes ignored).1.rowAt k =
      some (replay E t (written E t skipInvalid outcomes) row) := by
  by_cases hgiven : errors outcomes ≠ [] ∧ skipInvalid = false
  · simpa only [load,written,if_pos hgiven,replay_none,id_eq] using hrow
  · cases hinsert : insertMany E t (inserts outcomes) with
    | error e => simpa only [load,written,if_neg hgiven,hinsert,replay_none,id_eq] using hrow
    | ok t₁ =>
      have hrow₁ := insertMany_rowAt hinsert hrow
      obtain ⟨hrows,-⟩ := updateMany_eq (E := E) (t := t₁) (updates outcomes)
      obtain ⟨more,rfl⟩ := insertMany_ok hinsert
      simp only [load,written,if_neg hgiven,hinsert]
      rw [hrows]
      have hkey : ∀ r, t.keyOf (replay E t (accepted E { t with rows := t.rows ++ more } (updates outcomes)) r) =
          t.keyOf r := keyOf_replay _
      have hstored : Keyed.find t.keyOf k (t.rows ++ more) = some row := hrow₁
      refine (Keyed.find_map hkey k (t.rows ++ more)).trans ?_
      rw [hstored]
      rfl

/-- The database takes every update that sets a column, if it takes every table. -/
theorem accepted_all (hadmits : ∀ rows, t.admits rows = true) (hsets : ∀ u ∈ us, t.clean u.2 ≠ []) : accepted E t us = us := by
  induction us generalizing t with
  | nil => rfl
  | cons u us ih =>
    have hone : updateOne E t u.1 u.2 = .ok { t with rows := t.writeRow u.1 (adapted E u.2) } := by
      simp [updateOne,Physical.updateRow,hsets u List.mem_cons_self,hadmits]
    have hrest := ih (t := { t with rows := t.writeRow u.1 (adapted E u.2) }) hadmits
      fun w hw => hsets w (List.mem_cons_of_mem u hw)
    simp only [accepted,hone,hrest]

end Update

/-! ### The lines of the file -/

section Lines

variable {lib : CoerceLib} {E : Engine} {D : Directory} {mt : MetaTable} {t : Physical} {call : Call}

/-- Each row of the file has its outcome. -/
theorem readAll_getElem {fields : List MetaField} {keyField : Option String} {header : List String}
    {rows : List (List String)} {outcomes : List Outcome}
    (h : readAll lib E D t fields keyField header rows = .ok outcomes) : outcomes.length = rows.length ∧
      ∀ (i : ℕ) (row : List String), rows[i]? = some row →
        ∃ o, outcomes[i]? = some o ∧ readOutcome lib E D t fields keyField (Csv.cell header row) = .ok o := by
  induction rows generalizing outcomes with
  | nil =>
    cases h
    simp
  | cons row rows ih =>
    simp only [readAll] at h
    split at h
    · cases h
    · rename_i o ho
      cases hrest : readAll lib E D t fields keyField header rows with
      | error e => simp [hrest,Except.map] at h
      | ok rest =>
        simp only [hrest,Except.map,Except.ok.injEq] at h
        subst h
        obtain ⟨hlength,hall⟩ := ih hrest
        refine ⟨by simp [hlength],?_⟩
        intro i row' hi
        cases i with
        | zero =>
          obtain rfl := Option.some.inj hi
          exact ⟨o,rfl,ho⟩
        | succ i => exact hall i row' hi

/-- A written file is planned row by row. -/
theorem plan_written {columns : List String} {rows : List (List String)} (hrows : ∀ row ∈ rows, row ≠ [])
    (htext : call.fileText = Csv.write (columns::rows)) {header : List String} {outcomes : List Outcome}
    (h : plan lib E D mt t call = .ok (header,outcomes)) : header = columns ∧
      readAll lib E D t (importableFields mt call.allowed) call.upsertKey columns rows = .ok outcomes := by
  have hread : (Csv.read call.fileText).2 = none → (Csv.read call.fileText).1 = columns::rows := by
    rw [htext]
    exact Csv.read_write
  have hfilter : rows.filter (fun row => decide (row ≠ [])) = rows :=
    List.filter_eq_self.mpr fun row hrow => by simpa using hrows row hrow
  simp only [plan] at h
  split at h
  · cases h
  · rename_i hempty
    rw [hempty] at hread
    cases hread rfl
  · rename_i header' rows' fault hfile
    split at h
    · cases h
    · split at h
      · cases h
      · cases h
      · rename_i outcomes' hall
        rw [hfile] at hread
        obtain ⟨rfl,rfl⟩ := List.cons.inj (hread rfl)
        cases h
        rw [hfilter] at hall
        exact ⟨rfl,hall⟩

/-- The values of a row without errors, field by field. -/
theorem readRow_lookup {cell : String → Option String} {fields : List MetaField}
    (hnames : (fields.map MetaField.physName).Nodup) {values : Values}
    (h : readRow lib D cell fields = .ok (values,[])) : (∀ f ∈ fields, ∃ v,
      fieldValue lib D f (cell f.physName) = .ok (.ok v) ∧ values.lookup f.physName = some v) ∧
        ∀ column, column ∉ fields.map MetaField.physName → values.lookup column = none := by
  induction fields generalizing values with
  | nil =>
    cases h
    exact ⟨fun f hf => (by cases hf),fun column _ => rfl⟩
  | cons f fields ih =>
    obtain ⟨v,rest,hv,hrest,rfl⟩ := readRow_cons h
    rw [List.map_cons,List.nodup_cons] at hnames
    obtain ⟨hbound,hfree⟩ := ih hnames.2 hrest
    constructor
    · intro g hg
      rcases List.mem_cons.mp hg with rfl | hg
      · exact ⟨v,hv,by simp⟩
      · obtain ⟨u,hu,hlookup⟩ := hbound g hg
        have hne : g.physName ≠ f.physName := fun heq => hnames.1 (heq ▸ List.mem_map_of_mem hg)
        have hb : (g.physName == f.physName) = false := by simpa using hne
        exact ⟨u,hu,by rw [List.lookup_cons,hb]; exact hlookup⟩
    · intro column hcolumn
      rw [List.map_cons,List.mem_cons,not_or] at hcolumn
      have hb : (column == f.physName) = false := by simpa using hcolumn.1
      rw [List.lookup_cons,hb]
      exact hfree column hcolumn.2

/-- A row of the file that a field refuses is an error. -/
theorem readRow_refused {cell : String → Option String} {fields : List MetaField} {values : Values}
    (h : readRow lib D cell fields = .ok (values,[])) {f : MetaField} (hf : f ∈ fields) (message : String) :
    fieldValue lib D f (cell f.physName) ≠ .ok (.error message) := by
  induction fields generalizing values with
  | nil => cases hf
  | cons g fields ih =>
    obtain ⟨v,rest,hv,hrest,rfl⟩ := readRow_cons h
    rcases List.mem_cons.mp hf with rfl | hf
    · rw [hv]
      intro heq
      cases heq
    · exact ih hrest hf

/-- What `find_id_by_key` finds by one column is a record that matches. -/
theorem findIdByKey_ok {key : String} (hkey : ((splitOn ',' key).map strip).filter (· ≠ "") = [key]) {values : Values}
    {pk : Value} (h : findIdByKey lib E t key values = .ok (some pk)) :
    ∃ row ∈ t.rows, matchClause lib E true row (key,(values.lookup key).getD .null) = true ∧ t.keyOf row = pk := by
  simp only [findIdByKey,hkey] at h
  split at h
  · cases h
  · simp only [findIdBy,List.map_cons,List.map_nil] at h
    split at h
    · cases h
    · split at h
      · cases h
      · rename_i pk' hone
        obtain rfl := Option.some.inj (Except.ok.inj h)
        have hmem : pk' ∈ (t.rows.filter fun row =>
            [(key,(values.lookup key).getD Value.null)].all (matchClause lib E true row)).map t.keyOf := by
          rw [hone]
          exact List.mem_singleton_self _
        obtain ⟨row,hrow,hpk⟩ := List.mem_map.mp hmem
        obtain ⟨hin,hmatch⟩ := List.mem_filter.mp hrow
        exact ⟨row,hin,by simpa using hmatch,hpk⟩
      · cases h

/-- With one record that matches, `find_id_by_key` finds it. -/
theorem findIdByKey_one {key : String} (hkey : ((splitOn ',' key).map strip).filter (· ≠ "") = [key]) {values : Values}
    (hblank : ((values.lookup key).getD .null).blank = false) (hcolumn : key ∈ t.columns)
    (hnodup : (t.rows.map t.keyOf).Nodup) {row : Row} (hrow : row ∈ t.rows)
    (hmatch : ∀ row' ∈ t.rows, matchClause lib E true row' (key,(values.lookup key).getD .null) = true ↔ row' = row) :
    findIdByKey lib E t key values = .ok (some (t.keyOf row)) := by
  have hone : (t.rows.filter fun row' =>
      [(key,(values.lookup key).getD Value.null)].all (matchClause lib E true row')) = [row] :=
    Keyed.filter_unique hnodup.of_map hrow fun row' hrow' => by simpa using hmatch row' hrow'
  have hmissing : [(key,(values.lookup key).getD Value.null)].find? (fun part => !t.columns.contains part.1) = none := by
    simp [hcolumn]
  simp only [findIdByKey,hkey,List.any_cons,List.any_nil,hblank,Bool.or_false,List.map_cons,List.map_nil]
  rw [if_neg (by simp)]
  simp only [findIdBy,hmissing,hone,List.map_cons,List.map_nil]

/-- A row with an error has a field that refuses its cell. -/
theorem readRow_message {cell : String → Option String} {fields : List MetaField} {values : Values} {message : String}
    {messages : List String} (h : readRow lib D cell fields = .ok (values,message::messages)) :
    ∃ f ∈ fields, ∃ message, fieldValue lib D f (cell f.physName) = .ok (.error message) := by
  induction fields generalizing values message messages with
  | nil => cases h
  | cons f fields ih =>
    simp only [readRow] at h
    split at h
    · cases h
    · cases h
    · rename_i hrest
      cases h
      obtain ⟨g,hg,hrefused⟩ := ih hrest
      exact ⟨g,List.mem_cons_of_mem f hg,hrefused⟩
    · rename_i hrefused _
      exact ⟨f,List.mem_cons_self,_,hrefused⟩

/-- The line of an error is that of its row. -/
theorem load_errors {skipInvalid : Bool} {outcomes : List Outcome} {ignored : List String} {i : ℕ} {message : String}
    (h : (i+2,message) ∈ (load E t skipInvalid outcomes ignored).2.errors) : outcomes[i]? = some (.invalid message) := by
  have hrow : (i+2,message) ∈ errors outcomes := by
    have hfault : ∀ text : String, (i+2,message) ∈ errors outcomes ++ [(0,text)] → (i+2,message) ∈ errors outcomes := by
      intro text hmem
      simpa using hmem
    simp only [load] at h
    split at h
    · exact h
    · split at h
      · exact hfault _ h
      · simp only at h
        split at h
        · exact h
        · exact hfault _ h
  simp only [errors,List.mem_filterMap] at hrow
  obtain ⟨⟨o,n⟩,hmem,ho⟩ := hrow
  cases o with
  | invalid m =>
    obtain ⟨rfl,rfl⟩ := Prod.mk.inj (Option.some.inj ho)
    rw [Nat.add_comm] at hmem
    exact List.mk_add_mem_zipIdx_iff_getElem?.mp hmem
  | insert values => cases ho
  | update pk values => cases ho

end Lines

/-! ### There and back -/

section RoundTrip

variable (lib : CoerceLib) (E : Engine) (D : Directory) (mt : MetaTable) (t : Physical) (labels : LabelMaps) (call : Call)
  (rows : List Row) (key : MetaField)

/-- Rows of a table that are exported and imported again by a key column: the stored values are
those of their columns, and the column gives back what the importer writes for a value it
reads well; the keys are not blank, and no two rows match on one. -/
structure RoundTrip : Prop where
  text : call.fileText = listCsv lib labels (importableItems mt call.allowed) rows
  mode : call.upsertKey = some key.physName
  column : key ∈ importableFields mt call.allowed
  name : key.physName ≠ "id" ∧ ((splitOn ',' key.physName).map strip).filter (· ≠ "") = [key.physName]
  listed : ∀ row ∈ rows, row ∈ t.rows
  nodup : (t.rows.map t.keyOf).Nodup
  coerced : ∀ row ∈ t.rows, t.key (t.keyOf row) = t.keyOf row
  stored : ∀ row ∈ t.rows, ∀ f ∈ importableFields mt call.allowed, Stored lib labels f (row f.physName)
  adapted : ∀ row ∈ t.rows, ∀ f ∈ importableFields mt call.allowed,
    E.adapt f.physName (readBack f (row f.physName)) = row f.physName
  nonblank : ∀ row ∈ t.rows, (row key.physName).blank = false
  unique : ∀ row ∈ t.rows, ∀ row' ∈ t.rows,
    matchClause lib E true row' (key.physName,readBack key (row key.physName)) = true → row' = row

/-- Every stored row is as it was or its line is reported. -/
def Unchanged : Prop :=
  ∀ t' result, importRows lib E D mt t call = .ok (t',result) → ∀ row ∈ t.rows,
    t'.rowAt (t.keyOf row) = some row ∨ ∃ i message, rows[i]? = some row ∧ (i+2,message) ∈ result.errors

/-- The importer refuses one of the cells of a row. -/
def Refused (row : Row) : Prop :=
  ∃ f ∈ importableFields mt call.allowed, ∃ message,
    fieldValue lib D f (some (exported lib labels f (row f.physName))) = .ok (.error message)

/-- Every exported row has a cell that is refused, or its cells tell its values. -/
def Readable : Prop :=
  ∀ row ∈ rows, Refused lib D mt labels call row ∨
    ∀ f ∈ importableFields mt call.allowed, Kept lib D labels f (row f.physName)

variable {lib E D mt t labels call rows key}

/-- The cells of an exported row. -/
def cellsOf (lib : CoerceLib) (mt : MetaTable) (labels : LabelMaps) (call : Call) (row : Row) : List String :=
  (importableFields mt call.allowed).map fun f => exported lib labels f (row f.physName)

theorem cell_cellsOf (row : Row) {f : MetaField} (hf : f ∈ importableFields mt call.allowed) :
    Csv.cell ((importableFields mt call.allowed).map MetaField.physName) (cellsOf lib mt labels call row) f.physName =
      some (exported lib labels f (row f.physName)) :=
  Csv.cell_map (g := fun f => exported lib labels f (row f.physName)) (Keyed.nodup_filter _ mt.namesNodup) hf

/-- What becomes of the line of an exported row. -/
def outcomeOf (lib : CoerceLib) (E : Engine) (D : Directory) (mt : MetaTable) (t : Physical) (labels : LabelMaps)
    (call : Call) (key : MetaField) (row : Row) : Except PyError Outcome :=
  readOutcome lib E D t (importableFields mt call.allowed) (some key.physName)
    (Csv.cell ((importableFields mt call.allowed).map MetaField.physName) (cellsOf lib mt labels call row))

/-- Every exported row has its outcome. -/
theorem RoundTrip.outcomes (h : RoundTrip lib E mt t labels call rows key) {header : List String} {outcomes : List Outcome}
    (hplan : plan lib E D mt t call = .ok (header,outcomes)) : outcomes.length = rows.length ∧
      ∀ (i : ℕ) (row : Row), rows[i]? = some row → ∃ o, outcomes[i]? = some o ∧ outcomeOf lib E D mt t labels call key row = .ok o := by
  have hcolumns : (importableItems mt call.allowed).map ListItem.column =
      (importableFields mt call.allowed).map MetaField.physName := by
    simp [importableItems,Function.comp_def]
  have hcells : ∀ row : Row, ((importableItems mt call.allowed).map fun item => listCell lib labels item (row item.column)) =
      cellsOf lib mt labels call row := by
    intro row
    simp only [importableItems,List.map_map]
    rfl
  have hfull : ∀ row ∈ rows.map (cellsOf lib mt labels call), row ≠ [] := by
    intro cells hcells
    obtain ⟨row,-,rfl⟩ := List.mem_map.mp hcells
    intro hnil
    have hfields := List.map_eq_nil_iff.mp hnil
    have hcolumn := h.column
    rw [hfields] at hcolumn
    cases hcolumn
  have htext : call.fileText = Csv.write ((importableFields mt call.allowed).map MetaField.physName::
      rows.map (cellsOf lib mt labels call)) := by
    rw [h.text,listCsv,hcolumns]
    simp only [hcells]
  obtain ⟨-,hread⟩ := plan_written hfull htext hplan
  rw [h.mode] at hread
  obtain ⟨hlength,hall⟩ := readAll_getElem hread
  refine ⟨by rw [hlength,List.length_map],?_⟩
  intro i row hi
  exact hall i (cellsOf lib mt labels call row) (by rw [List.getElem?_map,hi]; rfl)

/-- A line that becomes an update: its values, and the record that its key found. -/
structure Updated (lib : CoerceLib) (E : Engine) (D : Directory) (mt : MetaTable) (t : Physical) (labels : LabelMaps)
    (call : Call) (key : MetaField) (row : Row) (pk : Value) (values : Values) : Prop where
  accepted : ¬Refused lib D mt labels call row
  read : ∀ f ∈ importableFields mt call.allowed, ∃ v,
    fieldValue lib D f (some (exported lib labels f (row f.physName))) = .ok (.ok v) ∧ values.lookup f.physName = some v
  free : ∀ column, column ∉ (importableFields mt call.allowed).map MetaField.physName → values.lookup column = none
  found : ∃ row' ∈ t.rows,
    matchClause lib E true row' (key.physName,(values.lookup key.physName).getD .null) = true ∧ t.keyOf row' = pk

theorem RoundTrip.updated (h : RoundTrip lib E mt t labels call rows key) {row : Row} {pk : Value} {values : Values}
    (ho : outcomeOf lib E D mt t labels call key row = .ok (.update pk values)) :
    Updated lib E D mt t labels call key row pk values := by
  have hrow := readOutcome_update ho
  obtain ⟨hread,hfree⟩ := readRow_lookup (Keyed.nodup_filter _ mt.namesNodup) hrow
  constructor
  · rintro ⟨f,hf,message,hmessage⟩
    apply readRow_refused hrow hf message
    rw [cell_cellsOf row hf]
    exact hmessage
  · intro f hf
    obtain ⟨v,hv,hlookup⟩ := hread f hf
    rw [cell_cellsOf row hf] at hv
    exact ⟨v,hv,hlookup⟩
  · exact hfree
  · simp only [outcomeOf,readOutcome,hrow] at ho
    split at ho
    · cases ho
    · cases ho
    · rename_i pk' hfind
      cases ho
      simp only [resolveKey,if_neg h.name.1] at hfind
      exact findIdByKey_ok h.name.2 hfind

/-- An update that reads a row well writes what is there. -/
theorem Updated.write_kept {row : Row} {pk : Value} {values : Values}
    (hu : Updated lib E D mt t labels call key row pk values) (h : RoundTrip lib E mt t labels call rows key)
    (hrow : row ∈ t.rows) (hkept : ∀ f ∈ importableFields mt call.allowed, Kept lib D labels f (row f.physName)) :
    row.write (t.clean (Importer.adapted E values)) = row := by
  funext column
  rw [Row.write,Physical.lookup_clean,lookup_adapted]
  split
  · by_cases hcolumn : column ∈ (importableFields mt call.allowed).map MetaField.physName
    · obtain ⟨f,hf,rfl⟩ := List.mem_map.mp hcolumn
      obtain ⟨v,hv,hlookup⟩ := hu.read f hf
      have hread : v = readBack f (row f.physName) := fieldValue_kept (h.stored row hrow f hf) (hkept f hf) hv
      rw [hlookup,Option.map_some,Option.getD_some,hread]
      exact h.adapted row hrow f hf
    · rw [hu.free column hcolumn]
      rfl
  · rfl

theorem Updated.found_kept {row : Row} {pk : Value} {values : Values}
    (hu : Updated lib E D mt t labels call key row pk values) (h : RoundTrip lib E mt t labels call rows key)
    (hrow : row ∈ t.rows) (hkept : ∀ f ∈ importableFields mt call.allowed, Kept lib D labels f (row f.physName)) :
    pk = t.keyOf row := by
  obtain ⟨v,hv,hlookup⟩ := hu.read key h.column
  have hread : v = readBack key (row key.physName) := fieldValue_kept (h.stored row hrow key h.column) (hkept key h.column) hv
  obtain ⟨row',hrow',hmatch,rfl⟩ := hu.found
  rw [hlookup,Option.getD_some,hread] at hmatch
  rw [h.unique row hrow row' hrow' hmatch]

theorem importRows_plan {t' : Physical} {result : Result} (h : importRows lib E D mt t call = .ok (t',result)) :
    ∃ header outcomes ignored, plan lib E D mt t call = .ok (header,outcomes) ∧
      (t',result) = load E t call.skipInvalid outcomes ignored := by
  cases hplan : plan lib E D mt t call with
  | error e =>
    simp only [importRows,hplan] at h
    cases h
  | ok p =>
    obtain ⟨header,outcomes⟩ := p
    obtain ⟨ignored,himport⟩ := importRows_ok hplan
    exact ⟨header,outcomes,ignored,rfl,Except.ok.inj (h.symm.trans himport)⟩

/-- Each update of the plan comes from an exported row. -/
theorem RoundTrip.update_source (h : RoundTrip lib E mt t labels call rows key) {header : List String}
    {outcomes : List Outcome} (hplan : plan lib E D mt t call = .ok (header,outcomes)) {u : Value × Values}
    (hu : u ∈ updates outcomes) : ∃ row ∈ rows, outcomeOf lib E D mt t labels call key row = .ok (.update u.1 u.2) := by
  obtain ⟨hlength,hall⟩ := h.outcomes hplan
  obtain ⟨i,hi⟩ := List.getElem?_of_mem (mem_updates.mp hu)
  have hlt : i < rows.length := by
    rw [← hlength]
    exact (List.getElem?_eq_some_iff.mp hi).1
  obtain ⟨o,ho,hread⟩ := hall i rows[i] (List.getElem?_eq_getElem hlt)
  obtain rfl := Option.some.inj (hi.symm.trans ho)
  exact ⟨rows[i],List.getElem_mem hlt,hread⟩

theorem RoundTrip.eq_of_key (h : RoundTrip lib E mt t labels call rows key) {row row' : Row} (hrow : row ∈ t.rows)
    (hrow' : row' ∈ t.rows) (heq : t.keyOf row = t.keyOf row') : row = row' :=
  List.inj_on_of_nodup_map h.nodup hrow hrow' heq

theorem RoundTrip.rowAt (h : RoundTrip lib E mt t labels call rows key) {row : Row} (hrow : row ∈ t.rows) :
    t.rowAt (t.keyOf row) = some row := Keyed.find_of_mem h.nodup hrow

/-- Where every line is refused or tells its values, no stored row changes. -/
theorem unchanged_of_readable (h : RoundTrip lib E mt t labels call rows key)
    (hreadable : Readable lib D mt labels call rows) : Unchanged lib E D mt t call rows := by
  intro t' result himport row hrow
  left
  obtain ⟨header,outcomes,ignored,hplan,hload⟩ := importRows_plan himport
  have ht' : t' = (load E t call.skipInvalid outcomes ignored).1 := congrArg Prod.fst hload
  rw [ht',load_replay call.skipInvalid ignored (h.rowAt hrow)]
  apply congrArg some
  apply replay_fixed
  intro u hu hkey
  obtain ⟨source,hsource,houtcome⟩ := h.update_source hplan (written_subset hu)
  have hupdated := h.updated houtcome
  have hstored := h.listed source hsource
  have hkept := (hreadable source hsource).resolve_left hupdated.accepted
  rw [hupdated.found_kept h hstored hkept,h.coerced source hstored] at hkey
  obtain rfl := h.eq_of_key hrow hstored hkey
  exact hupdated.write_kept h hrow hkept

variable (lib E D mt t labels call rows key) in
/-- An import that goes through: it ends, keeps the lines that are in order, the database takes
every row, the fields have columns of their own that give back what is written, and each
line that is accepted finds its own record. -/
structure Applied : Prop where
  ends : ∃ p, importRows lib E D mt t call = .ok p
  lenient : call.skipInvalid = true
  admits : ∀ rows, t.admits rows = true
  columns : ∀ f ∈ importableFields mt call.allowed, f.physName ∈ t.columns ∧ f.physName ≠ t.pk
  exact : ∀ f ∈ importableFields mt call.allowed, Exact lib E D f
  found : ∀ row ∈ rows, ∀ w,
    fieldValue lib D key (some (exported lib labels key (row key.physName))) = .ok (.ok w) →
      w.blank = false ∧ ∀ row' ∈ t.rows, matchClause lib E true row' (key.physName,w) = true ↔ row' = row

/-- A line that is accepted becomes an update of its own record. -/
theorem Applied.update (ha : Applied lib E D mt t labels call rows key) (h : RoundTrip lib E mt t labels call rows key)
    {row : Row} (hrow : row ∈ rows) (haccepted : ¬Refused lib D mt labels call row) {o : Outcome}
    (ho : outcomeOf lib E D mt t labels call key row = .ok o) : ∃ values, o = .update (t.keyOf row) values := by
  simp only [outcomeOf,readOutcome] at ho
  cases hread : readRow lib D (Csv.cell ((importableFields mt call.allowed).map MetaField.physName)
      (cellsOf lib mt labels call row)) (importableFields mt call.allowed) with
  | error e =>
    rw [hread] at ho
    cases ho
  | ok p =>
    obtain ⟨values,messages⟩ := p
    cases messages with
    | cons message messages =>
      obtain ⟨f,hf,m,hm⟩ := readRow_message hread
      rw [cell_cellsOf row hf] at hm
      exact absurd ⟨f,hf,m,hm⟩ haccepted
    | nil =>
      obtain ⟨hbound,-⟩ := readRow_lookup (Keyed.nodup_filter _ mt.namesNodup) hread
      obtain ⟨w,hw,hlookup⟩ := hbound key h.column
      rw [cell_cellsOf row h.column] at hw
      obtain ⟨hblank,hmatch⟩ := ha.found row hrow w hw
      have hvalue : (values.lookup key.physName).getD .null = w := by rw [hlookup,Option.getD_some]
      have hfind : findIdByKey lib E t key.physName values = .ok (some (t.keyOf row)) :=
        findIdByKey_one h.name.2 (by rw [hvalue]; exact hblank) (ha.columns key h.column).1 h.nodup (h.listed row hrow)
          (by rw [hvalue]; exact hmatch)
      rw [hread] at ho
      simp only [resolveKey,if_neg h.name.1,hfind] at ho
      exact ⟨values,(Except.ok.inj ho).symm⟩

theorem Applied.written_eq (ha : Applied lib E D mt t labels call rows key) (h : RoundTrip lib E mt t labels call rows key)
    {header : List String} {outcomes : List Outcome} (hplan : plan lib E D mt t call = .ok (header,outcomes)) :
    written E t call.skipInvalid outcomes = updates outcomes := by
  have hsets : ∀ u ∈ updates outcomes, t.clean u.2 ≠ [] := by
    intro u hu hnil
    obtain ⟨source,-,houtcome⟩ := h.update_source hplan hu
    obtain ⟨v,-,hlookup⟩ := (h.updated houtcome).read key h.column
    obtain ⟨hin,hpk⟩ := ha.columns key h.column
    have hclean := Physical.lookup_clean t u.2 key.physName
    rw [hnil,hlookup,if_pos (by simp [hin,hpk])] at hclean
    cases hclean
  have hgiven : ¬(errors outcomes ≠ [] ∧ call.skipInvalid = false) := by simp [ha.lenient]
  obtain ⟨t₁,hinsert⟩ : ∃ t₁, insertMany E t (inserts outcomes) = .ok t₁ := by
    simp only [insertMany,ha.admits,if_true]
    split <;> exact ⟨_,rfl⟩
  obtain ⟨more,rfl⟩ := insertMany_ok hinsert
  simp only [written,if_neg hgiven,hinsert]
  exact accepted_all ha.admits hsets

/-- Where an import that goes through changes no stored row, every line is refused or tells its values. -/
theorem readable_of_unchanged (h : RoundTrip lib E mt t labels call rows key) (ha : Applied lib E D mt t labels call rows key)
    (hunchanged : Unchanged lib E D mt t call rows) : Readable lib D mt labels call rows := by
  intro row hrow
  by_cases hrefused : Refused lib D mt labels call row
  · exact Or.inl hrefused
  right
  intro f hf
  have hstored := h.listed row hrow
  obtain ⟨⟨t',result⟩,himport⟩ := ha.ends
  obtain ⟨header,outcomes,ignored,hplan,hload⟩ := importRows_plan himport
  obtain ⟨-,hall⟩ := h.outcomes hplan
  obtain ⟨i,hi⟩ := List.getElem?_of_mem hrow
  obtain ⟨o,ho,houtcome⟩ := hall i row hi
  obtain ⟨values,rfl⟩ := ha.update h hrow hrefused houtcome
  have hkept : row.write (t.clean (Importer.adapted E values)) = row := by
    rcases hunchanged t' result himport row hstored with hsame | ⟨j,message,hj,hmessage⟩
    · have ht' : t' = (load E t call.skipInvalid outcomes ignored).1 := congrArg Prod.fst hload
      rw [ht',load_replay call.skipInvalid ignored (h.rowAt hstored),ha.written_eq h hplan] at hsame
      refine Eq.trans (replay_same ?_ ?_).symm (Option.some.inj hsame)
      · intro u hu hkey
        obtain ⟨source,hsource,hsourced⟩ := h.update_source hplan hu
        obtain ⟨values',hvalues'⟩ := ha.update h hsource (h.updated hsourced).accepted hsourced
        obtain ⟨hpk,rfl⟩ := Outcome.update.inj hvalues'
        rw [hpk,h.coerced source (h.listed source hsource)] at hkey
        obtain rfl := h.eq_of_key hstored (h.listed source hsource) hkey
        exact (Outcome.update.inj (Except.ok.inj (hsourced.symm.trans houtcome))).2
      · exact ⟨(t.keyOf row,values),mem_updates.mpr (List.mem_of_getElem? ho),(h.coerced row hstored).symm⟩
    · have hresult : result = (load E t call.skipInvalid outcomes ignored).2 := congrArg Prod.snd hload
      rw [hresult] at hmessage
      obtain ⟨o',ho',houtcome'⟩ := hall j row hj
      obtain rfl := Option.some.inj (ho'.symm.trans (load_errors hmessage))
      cases Except.ok.inj (houtcome.symm.trans houtcome')
  obtain ⟨v,hv,hlookup⟩ := (h.updated houtcome).read f hf
  obtain ⟨hin,hpk⟩ := ha.columns f hf
  have hvalue : E.adapt f.physName v = row f.physName := by
    have hcolumn := congrFun hkept f.physName
    rw [Row.write,Physical.lookup_clean,lookup_adapted,if_pos (by simp [hin,hpk]),hlookup] at hcolumn
    exact hcolumn
  exact kept_of_adapt (h.stored row hstored f hf) (ha.exact f hf) hv hvalue

end RoundTrip

/-- An export that is imported again changes no stored row silently where every line is refused
or tells its values, and, when the import goes through, only there. -/
theorem export_import {lib : CoerceLib} {E : Engine} {D : Directory} {mt : MetaTable} {t : Physical} {labels : LabelMaps}
    {call : Call} {rows : List Row} {key : MetaField} (h : RoundTrip lib E mt t labels call rows key) :
    (Readable lib D mt labels call rows → Unchanged lib E D mt t call rows) ∧
      (Applied lib E D mt t labels call rows key →
        (Unchanged lib E D mt t call rows ↔ Readable lib D mt labels call rows)) :=
  ⟨unchanged_of_readable h,fun ha => ⟨readable_of_unchanged h ha,unchanged_of_readable h⟩⟩

/-- A resolver whose names stand for records finds a record. -/
theorem resolve_ne_null {lib : CoerceLib} {r : Resolver} (h : ∀ p ∈ r.byName, p.2 ≠ .null) (raw : String) :
    r.resolve lib raw ≠ .ok .null := by
  have hnamed : r.named raw ≠ .ok .null := by
    simp only [Resolver.named]
    split
    · exact fun heq => by cases heq
    · split
      · rename_i id hid
        obtain ⟨before,after,hsplit,-⟩ := List.lookup_eq_some_iff.mp hid
        have hmem : (raw,id) ∈ r.byName := by simp [hsplit]
        exact fun heq => h _ hmem (Except.ok.inj heq)
      · exact fun heq => by cases heq
  simp only [Resolver.resolve]
  split
  · split
    · exact fun heq => by cases heq
    · split
      · exact fun heq => by cases heq
      · exact hnamed
  · exact hnamed

/-! ### A customer named like another one's id -/

/-- Texts are compared as the database does it for ASCII. -/
def textEngine : Engine where
  eq := fun a b => a = b
  lowerTrim := fun v => match v with | .text s => .text (lower (strip s)) | v => v
  adapt := fun _ v => v
  blankRow := fun _ => .null
  nextKey := fun rows => .int (rows.length+1)

def customerField : MetaField where
  id := 2
  physName := "customer"
  label := "Customer"
  dataType := .relation
  relatedTableId := some 1

def orders : MetaTable where
  id := 2
  physName := "orders"
  label := "Orders"
  fields := [textField 1 "name" "Name",customerField]
  idsNodup := by decide
  namesNodup := by decide
  namesFree := by decide

/-- An order of the first customer. -/
def order : Row := fun column =>
  match column with
  | "id" => .int 1
  | "name" => .text "A-1"
  | "customer" => .int 1
  | _ => .null

def orderRows : Physical where
  columns := ["id","name","customer"]
  pk := "id"
  rows := [order]
  key := id
  admits := fun _ => true

/-- Two customers by their labels. -/
def people (label : String) : List (Value × String) := [(.int 1,label),(.int 2,"Bob")]

def peopleDirectory (label : String) : Directory where
  users := []
  companies := []
  related := fun _ => some ("Customers",people label)

def orderLabels (label : String) : LabelMaps := [("customer",people label)]

/-- The export of the orders, imported by their name. -/
def again (label : String) : Call where
  fileText := listCsv idLib (orderLabels label) (importableItems orders none) orderRows.rows
  skipInvalid := true
  mode := .upsert
  keyField := some "name"

section Orders

variable {label : String}

theorem eq_of_mem_orders {f : MetaField} (h : f ∈ importableFields orders none) :
    f = textField 1 "name" "Name" ∨ f = customerField := by
  simpa [orders] using (List.mem_filter.mp h).1

theorem roundTrip_orders (label : String) : RoundTrip idLib textEngine orders orderRows (orderLabels label) (again label)
    orderRows.rows (textField 1 "name" "Name") := by
  have hrow : ∀ row ∈ orderRows.rows, row = order := fun row h => List.mem_singleton.mp h
  constructor
  · rfl
  · rfl
  · show textField 1 "name" "Name" ∈ importableFields orders none
    decide
  · decide
  · exact fun row h => h
  · simp [orderRows]
  · exact fun row _ => rfl
  · intro row h f hf
    obtain rfl := hrow row h
    rcases eq_of_mem_orders hf with rfl | rfl
    · exact ⟨rfl,fun h => absurd rfl (h "A-1"),fun _ => rfl,rfl,rfl⟩
    · exact ⟨rfl,fun _ => ⟨by decide,by decide,rfl⟩,fun h => absurd rfl h,rfl,rfl⟩
  · intro row h f hf
    obtain rfl := hrow row h
    rcases eq_of_mem_orders hf with rfl | rfl <;> rfl
  · intro row h
    obtain rfl := hrow row h
    rfl
  · intro row h row' h' _
    rw [hrow row h,hrow row' h']

/-- The label of a customer leads back to its record. -/
theorem readable_orders : Readable idLib (peopleDirectory "Ann") orders (orderLabels "Ann") (again "Ann") orderRows.rows := by
  intro row h
  right
  intro f hf
  obtain rfl := List.mem_singleton.mp h
  rcases eq_of_mem_orders hf with rfl | rfl
  · exact kept_text rfl rfl (by decide : strip "A-1" = "A-1") (by decide)
  · have hlabel : exported idLib (orderLabels "Ann") customerField (.int 1) = "Ann" := rfl
    have hblank : strip (exported idLib (orderLabels "Ann") customerField (.int 1)) ≠ "" := by
      rw [hlabel]
      decide
    refine ⟨fun hempty => absurd hempty hblank,fun hempty => absurd hempty hblank,fun _ => ?_⟩
    intro w hw
    exact (Except.ok.inj hw).symm

theorem applied_orders : Applied idLib textEngine (peopleDirectory "Ann") orders orderRows (orderLabels "Ann")
    (again "Ann") orderRows.rows (textField 1 "name" "Name") := by
  constructor
  · exact ⟨_,rfl⟩
  · rfl
  · exact fun _ => rfl
  · show ∀ f ∈ importableFields orders none, f.physName ∈ ["id","name","customer"] ∧ f.physName ≠ "id"
    decide
  · intro f hf
    refine ⟨fun _ _ => rfl,fun _ => Iff.rfl,?_⟩
    intro raw
    rcases eq_of_mem_orders hf with rfl | rfl
    · intro hnull
      obtain ⟨n,-,hn⟩ := Biggy.Outcome.map_ok hnull
      cases hn
    · exact resolve_ne_null (r := relationResolver "Customers" (people "Ann")) (by decide) raw
  · intro row h w hw
    obtain rfl := List.mem_singleton.mp h
    obtain rfl : .text "A-1" = w := Except.ok.inj (Except.ok.inj hw)
    refine ⟨rfl,fun row' h' => ?_⟩
    obtain rfl := List.mem_singleton.mp h'
    exact iff_of_true rfl rfl

end Orders

/-- The order of a customer with a name of its own stays. -/
theorem export_import_orders : Unchanged idLib textEngine (peopleDirectory "Ann") orders orderRows (again "Ann")
    orderRows.rows ∧ Readable idLib (peopleDirectory "Ann") orders (orderLabels "Ann") (again "Ann") orderRows.rows := by
  obtain ⟨hunchanged,hiff⟩ := export_import (D := peopleDirectory "Ann") (roundTrip_orders "Ann")
  exact ⟨hunchanged readable_orders,(hiff applied_orders).mp (hunchanged readable_orders)⟩

/-- The order of a customer that is named 2 goes to the second customer. -/
theorem export_import_moved : ¬∀ (lib : CoerceLib) (E : Engine) (D : Directory) (mt : MetaTable) (t : Physical)
    (labels : LabelMaps) (call : Call) (rows : List Row) (key : MetaField),
    RoundTrip lib E mt t labels call rows key → Unchanged lib E D mt t call rows := by
  intro h
  have hplan : plan idLib textEngine (peopleDirectory "2") orders orderRows (again "2") =
      .ok (["name","customer"],[.update (.int 1) [("name",.text "A-1"),("customer",.int 2)]]) := rfl
  obtain ⟨ignored,himport⟩ := importRows_ok hplan
  have hsame := h idLib textEngine (peopleDirectory "2") orders orderRows (orderLabels "2") (again "2") _
    (textField 1 "name" "Name") (roundTrip_orders "2") _ _ himport _ List.mem_cons_self
  rcases hsame with hrow | ⟨i,message,-,hmessage⟩
  · have hcustomer := congrFun (Option.some.inj hrow) "customer"
    have hvalue : (.int 2 : Value) = .int 1 := hcustomer
    exact absurd hvalue (by decide)
  · cases hmessage

end Importer
end Biggy
