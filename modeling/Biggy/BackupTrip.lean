import Biggy.Restore

/-!
# A backup brings the data back

`export_data` writes every row of every table, adopted ones included, and `import_data` with `replace` puts the rows of the
managed tables back, whatever has become of them in the meantime.
-/
namespace Biggy
namespace Restore

/-! ### The export -/

section Export

variable {ε : Type*} (enc : Value → Json)

/-- `dict(r)` of a row, with its values as the file has them. -/
def exportRecord (columns : List String) (row : Row) : Record := columns.map fun column => (column,enc (row column))

/-- The rows of a table. -/
def exportTable (t : DataTable) : Json := .arr (t.rows.map fun row => .obj (exportRecord enc t.columns row))

/-- The entry of a table. -/
def exportEntry (world : ε → Tables) (p : String × ε) : Except RestoreError (String × Json) :=
  match world p.2 p.1 with
  | none => .error .noSuchTable
  | some t => .ok (p.1,exportTable enc t)

/-- `export_data`, as the file has it. -/
def exportData (sources : Sources ε) (model : Model) (world : ε → Tables) : Except RestoreError Json :=
  ((tableEngines sources model false).mapM (exportEntry enc world)).map fun tables =>
    .obj [("version",.int 1),("tables",.obj tables)]

end Export

/-! ### One table -/

section Table

variable (d : Driver) (enc : Value → Json) (name : String)

/-- The database takes the rows of the table back: it reads each value as it was written, a row has values in the columns of
the table only, and the constraints hold of the rows. -/
structure Backed (t : DataTable) : Prop where
  columns : t.columns.Nodup
  read : ∀ row ∈ t.rows, ∀ column ∈ t.columns, d.adapt name column (enc (row column)) = some (row column)
  plain : ∀ row ∈ t.rows, ∀ column, column ∉ t.columns → row column = .null
  admits : d.admits name t.rows = true

variable {d enc name} {t : DataTable}

theorem lookup_exportRecord {columns : List String} (row : Row) (column : String) :
    (exportRecord enc columns row).lookup column = if column ∈ columns then some (enc (row column)) else none := by
  induction columns with
  | nil => rfl
  | cons c columns ih =>
    rw [exportRecord,List.map_cons,List.lookup_cons]
    by_cases hc : column = c
    · subst hc
      simp
    · rw [beq_eq_false_iff_ne.mpr hc]
      rw [exportRecord] at ih
      simp [ih,hc]

theorem mem_given_exportRecord {columns : List String} (row : Row) {column : String} (h : column ∈ columns) :
    column ∈ given columns (exportRecord enc columns row) := by
  refine List.mem_filter.mpr ⟨?_,by simpa using h⟩
  have hmem : ∃ p ∈ exportRecord enc columns row, p.1 = column := ⟨_,List.mem_map.mpr ⟨column,h,rfl⟩,rfl⟩
  obtain ⟨p,hp,hkey⟩ := Keyed.exists_mem_distinct.mpr hmem
  exact List.mem_map.mpr ⟨p,hp,hkey⟩

/-- The parameters of a row that is inserted again, and the row that comes of them. -/
theorem bindRow_back (h : Backed d enc name t) {first row : Row} (hrow : row ∈ t.rows) (n : ℕ) :
    ∃ values, bindRow d name (given t.columns (exportRecord enc t.columns first)) (exportRecord enc t.columns row) = .ok values ∧
      newRow d name t.columns n values = row := by
  obtain ⟨values,hvalues⟩ : ∃ values,
      bindRow d name (given t.columns (exportRecord enc t.columns first)) (exportRecord enc t.columns row) = .ok values := by
    refine Outcome.mapM_total fun column hcolumn => ?_
    have hmem := mem_given hcolumn
    refine ⟨(column,row column),?_⟩
    simp only [lookup_exportRecord,hmem,if_true,h.read row hrow column hmem]
  refine ⟨values,hvalues,funext fun column => ?_⟩
  have hlookup := bindRow_lookup hvalues column
  by_cases hcolumn : column ∈ t.columns
  · rw [if_pos (mem_given_exportRecord first hcolumn)] at hlookup
    obtain ⟨v,x,hv,hx,hvalue⟩ := hlookup
    rw [lookup_exportRecord,if_pos hcolumn] at hv
    obtain rfl := Option.some.inj hv
    rw [h.read row hrow column hcolumn] at hx
    obtain rfl := Option.some.inj hx
    rw [newRow,hvalue,Option.getD_some]
  · rw [if_neg fun hgiven => hcolumn (mem_given hgiven)] at hlookup
    rw [newRow,hlookup,Option.getD_none,if_neg hcolumn,h.plain row hrow column hcolumn]

theorem bindRows_back (h : Backed d enc name t) {first : Row} {rows : List Row} (hrows : ∀ row ∈ rows, row ∈ t.rows) (k : ℕ) :
    ∃ bound, (rows.map (exportRecord enc t.columns)).mapM (bindRow d name (given t.columns (exportRecord enc t.columns first))) =
        .ok bound ∧ bound.mapIdx (fun n values => newRow d name t.columns (n+k) values) = rows := by
  induction rows generalizing k with
  | nil => exact ⟨[],rfl,rfl⟩
  | cons row rows ih =>
    obtain ⟨values,hvalues,hnew⟩ := @bindRow_back d enc name t h first row (hrows row List.mem_cons_self) k
    obtain ⟨bound,hbound,hrest⟩ := ih (fun row hrow => hrows row (List.mem_cons_of_mem _ hrow)) (k+1)
    refine ⟨values::bound,?_,?_⟩
    · rw [List.map_cons,List.mapM_cons,hvalues]
      simp only [hbound]
      rfl
    · rw [List.mapIdx_cons,Nat.zero_add,hnew]
      refine congrArg (row::·) ?_
      rw [← hrest]
      refine congrArg (fun f => List.mapIdx f bound) ?_
      funext n values
      rw [Nat.add_right_comm,Nat.add_assoc]

/-- The rows of a backed table come back into the empty table. -/
theorem insertMany_back (h : Backed d enc name t) :
    insertMany d name ⟨t.columns,[]⟩ (t.rows.map (exportRecord enc t.columns)) = .ok t := by
  obtain ⟨columns,rows⟩ := t
  cases rows with
  | nil => rfl
  | cons first rows =>
    obtain ⟨bound,hbound,hrows⟩ := @bindRows_back d enc name _ h first (first::rows) (fun _ hrow => hrow) 0
    rw [List.map_cons] at hbound ⊢
    simp only [insertMany,hbound,Except.bind,List.nil_append]
    simp only [Nat.add_zero] at hrows
    rw [hrows,if_pos h.admits]

theorem rowsOf_exportTable (t : DataTable) : rowsOf (exportTable enc t) = .ok (t.rows.map (exportRecord enc t.columns)) := by
  rw [exportTable,rowsOf]
  induction t.rows with
  | nil => rfl
  | cons row rows ih =>
    rw [List.map_cons,List.mapM_cons,ih]
    rfl

/-- An exported table fills the empty table again. -/
theorem fill_back (h : Backed d enc name t) {tables : Tables} {total : ℕ} (hempty : tables name = some ⟨t.columns,[]⟩) :
    fill d (tables,total) (name,exportTable enc t) = .ok (Function.update tables name (some t),total+t.rows.length) := by
  rw [fill]
  cases hrows : t.rows with
  | nil =>
    have ht : t = ⟨t.columns,[]⟩ := by rw [← hrows]
    rw [if_pos (by rw [exportTable,hrows]; rfl),ht,← hempty,Function.update_eq_self]
    rfl
  | cons row rows =>
    rw [if_neg (by rw [exportTable,hrows]; simp [Json.truthy])]
    simp only [hempty,rowsOf_exportTable,Except.bind,insertMany_back h]
    rw [Except.map,List.length_map,hrows]

end Table

/-! ### One source -/

section Source

variable {d : Driver} {enc : Value → Json} (want : String → DataTable)

/-- The rows of the entries. -/
def rowCount : List (String × Json) → ℕ
  | [] => 0
  | p::inserts => (want p.1).rows.length+rowCount inserts

variable {want}

theorem fillAll_back {inserts : List (String × Json)} (hnodup : (inserts.map Prod.fst).Nodup) {tables : Tables} {total : ℕ}
    (h : ∀ p ∈ inserts, p.2 = exportTable enc (want p.1) ∧ Backed d enc p.1 (want p.1) ∧
      tables p.1 = some ⟨(want p.1).columns,[]⟩) :
    inserts.foldlM (fill d) (tables,total) =
      .ok (fun n => if n ∈ inserts.map Prod.fst then some (want n) else tables n,total+rowCount want inserts) := by
  induction inserts generalizing tables total with
  | nil => simp [rowCount,pure,Except.pure]
  | cons p inserts ih =>
    obtain ⟨name,rows⟩ := p
    rw [List.map_cons,List.nodup_cons] at hnodup
    obtain ⟨hrows,hbacked,hempty⟩ := h (name,rows) List.mem_cons_self
    simp only at hrows hbacked hempty
    subst hrows
    rw [Outcome.foldlM_cons,fill_back hbacked hempty]
    simp only [Except.bind]
    rw [ih hnodup.2 fun p hp => ?_]
    · refine congrArg Except.ok (Prod.ext (funext fun n => ?_) ?_)
      · by_cases hn : n = name
        · subst hn
          simp [hnodup.1]
        · simp only [List.map_cons,List.mem_cons,hn,false_or,Function.update_of_ne hn]
      · simp [rowCount,Nat.add_assoc]
    · obtain ⟨hrows,hbacked,hempty⟩ := h p (List.mem_cons_of_mem _ hp)
      refine ⟨hrows,hbacked,?_⟩
      rw [Function.update_of_ne (fun heq => hnodup.1 (List.mem_map.mpr ⟨p,hp,heq⟩))]
      exact hempty

theorem clear_back {clear : List String} {tables : Tables} (h : ∀ n ∈ clear, ∃ t, tables n = some t) :
    ∃ cleared, clear.foldlM clearTable tables = .ok cleared := by
  induction clear generalizing tables with
  | nil => exact ⟨tables,rfl⟩
  | cons name clear ih =>
    obtain ⟨t,ht⟩ := h name List.mem_cons_self
    rw [Outcome.foldlM_cons,clearTable,ht]
    simp only [Except.bind]
    refine ih fun n hn => ?_
    by_cases hname : n = name
    · exact ⟨_,by rw [hname,Function.update_self]⟩
    · rw [Function.update_of_ne hname]
      exact h n (List.mem_cons_of_mem _ hn)

/-- The transaction of a source in which every cleared table is filled again. -/
theorem restoreSource_back {clear : List String} {inserts : List (String × Json)} (hnodup : (inserts.map Prod.fst).Nodup)
    (hnames : ∀ n, n ∈ clear ↔ n ∈ inserts.map Prod.fst) {tables : Tables} {total : ℕ}
    (h : ∀ p ∈ inserts, p.2 = exportTable enc (want p.1) ∧ Backed d enc p.1 (want p.1) ∧
      ∃ t, tables p.1 = some t ∧ t.columns = (want p.1).columns) :
    restoreSource d clear inserts tables total =
      .ok (fun n => if n ∈ clear then some (want n) else tables n,total+rowCount want inserts) := by
  obtain ⟨cleared,hcleared⟩ := @clear_back clear tables fun n hn => by
    obtain ⟨p,hp,rfl⟩ := List.mem_map.mp ((hnames n).mp hn)
    obtain ⟨-,-,t,ht,-⟩ := h p hp
    exact ⟨t,ht⟩
  rw [restoreSource,hcleared]
  simp only [Except.bind]
  rw [@fillAll_back d enc want inserts hnodup cleared total fun p hp => ?_]
  · refine congrArg Except.ok (Prod.ext (funext fun n => ?_) rfl)
    have hafter := clear_ok hcleared n
    by_cases hn : n ∈ clear
    · simp [hn,← hnames n]
    · rw [if_neg hn] at hafter
      simp [hn,← hnames n,hafter]
  · obtain ⟨hrows,hbacked,t,ht,hcolumns⟩ := h p hp
    have hafter := clear_ok hcleared p.1
    rw [if_pos ((hnames p.1).mpr (List.mem_map_of_mem hp))] at hafter
    obtain ⟨t',ht',hempty⟩ := hafter
    obtain rfl := Option.some.inj (ht'.symm.trans ht)
    exact ⟨hrows,hbacked,by rw [hempty,hcolumns]⟩

end Source

/-! ### All sources -/

section Sources

variable {ε : Type*} [DecidableEq ε] {d : Driver} {enc : Value → Json} {sources : Sources ε} {model : Model}
variable {world later : ε → Tables} {payload : List (String × Json)}

/-- The sources of the list are restored. -/
def restoredIn (sources : Sources ε) (model : Model) (world later : ε → Tables) (es : List ε) : ε → Tables := fun e n =>
  if e ∈ es ∧ engineOf sources model n = some e then world e n else later e n

/-- The managed tables as they were, everything else as it is. -/
def restored (sources : Sources ε) (model : Model) (world later : ε → Tables) : ε → Tables := fun e n =>
  if engineOf sources model n = some e then world e n else later e n

/-- The tables of the backup are still there with the columns they had, and can be taken back. -/
structure Recoverable (d : Driver) (enc : Value → Json) (sources : Sources ε) (model : Model) (world later : ε → Tables) :
    Prop where
  backed : ∀ name e t, engineOf sources model name = some e → world e name = some t → Backed d enc name t
  kept : ∀ name e t, engineOf sources model name = some e → world e name = some t →
    ∃ t', later e name = some t' ∧ t'.columns = t.columns

/-- The payload has each managed table as it was. -/
def Holds (enc : Value → Json) (sources : Sources ε) (model : Model) (world : ε → Tables) (payload : List (String × Json)) : Prop :=
  ∀ name e, engineOf sources model name = some e → ∃ t, world e name = some t ∧
    Keyed.find Prod.fst name payload = some (name,exportTable enc t)

theorem mem_insertBy {e : ε} {p : String × Json} (h : p ∈ insertBy sources model payload e) :
    engineOf sources model p.1 = some e ∧ Keyed.find Prod.fst p.1 payload = some p := by
  have hname : engineOf sources model p.1 = some e := by simpa using (List.mem_filter.mp h).2
  refine ⟨hname,?_⟩
  rw [← find_insertBy hname]
  exact Keyed.find_of_mem (insertBy_nodup payload e) h

theorem source_back (hrecover : Recoverable d enc sources model world later) (hholds : Holds enc sources model world payload)
    (e : ε) (total : ℕ) : ∃ rows, restoreSource d (clearBy sources model e) (insertBy sources model payload e) (later e) total =
      .ok (restored sources model world later e,rows) := by
  have hnames : ∀ n, n ∈ clearBy sources model e ↔ n ∈ (insertBy sources model payload e).map Prod.fst := by
    intro n
    rw [mem_clearBy]
    constructor
    · intro hname
      obtain ⟨t,-,hfind⟩ := hholds n e hname
      rw [← find_insertBy hname] at hfind
      exact List.mem_map.mpr ⟨_,Keyed.mem_of_find hfind,rfl⟩
    · intro hname
      obtain ⟨p,hp,rfl⟩ := List.mem_map.mp hname
      exact (mem_insertBy hp).1
  have hentries : ∀ p ∈ insertBy sources model payload e, p.2 = exportTable enc ((world e p.1).getD ⟨[],[]⟩) ∧
      Backed d enc p.1 ((world e p.1).getD ⟨[],[]⟩) ∧
      ∃ t, later e p.1 = some t ∧ t.columns = ((world e p.1).getD ⟨[],[]⟩).columns := by
    intro p hp
    obtain ⟨hname,hfind⟩ := mem_insertBy hp
    obtain ⟨t,ht,hstored⟩ := hholds p.1 e hname
    rw [hfind] at hstored
    have hrows : p.2 = exportTable enc t := congrArg Prod.snd (Option.some.inj hstored)
    rw [ht,Option.getD_some]
    exact ⟨hrows,hrecover.backed p.1 e t hname ht,hrecover.kept p.1 e t hname ht⟩
  have hsource := @restoreSource_back d enc (fun n => (world e n).getD ⟨[],[]⟩) (clearBy sources model e)
    (insertBy sources model payload e) (insertBy_nodup payload e) hnames (later e) total hentries
  have hworld : (fun n => if n ∈ clearBy sources model e then some ((world e n).getD ⟨[],[]⟩) else later e n) =
      restored sources model world later e := by
    funext n
    simp only [mem_clearBy,restored]
    split
    · rename_i hname
      obtain ⟨t,ht,-⟩ := hholds n e hname
      rw [ht,Option.getD_some]
    · rfl
  rw [hsource,hworld]
  exact ⟨_,rfl⟩

theorem loadAll_back (hrecover : Recoverable d enc sources model world later) (hholds : Holds enc sources model world payload)
    {es done : List ε} (hnodup : (done++es).Nodup) (total : ℕ) :
    ∃ rows, loadAll d sources model true payload es (restoredIn sources model world later done) total =
      (restoredIn sources model world later (done++es),.ok rows) := by
  induction es generalizing done total with
  | nil => exact ⟨total,by rw [List.append_nil]; rfl⟩
  | cons e es ih =>
    have hfresh : e ∉ done := fun hmem => (List.nodup_append.mp hnodup).2.2 e hmem e List.mem_cons_self rfl
    have hlater : restoredIn sources model world later done e = later e := funext fun n => if_neg fun h => hfresh h.1
    have hnext : Function.update (restoredIn sources model world later done) e (restored sources model world later e) =
        restoredIn sources model world later (done++[e]) := by
      funext e' n
      by_cases he : e' = e
      · subst he
        simp [restoredIn,restored]
      · rw [Function.update_of_ne he]
        simp [restoredIn,he]
    obtain ⟨rows,hsource⟩ := source_back hrecover hholds e total
    obtain ⟨rows',hrest⟩ := @ih (done++[e]) (by simpa using hnodup) rows
    refine ⟨rows',?_⟩
    simp only [loadAll,if_true,hlater,hsource,hnext]
    rw [hrest]
    simp

theorem lookup_of_unique {κ β : Type*} [BEq κ] [LawfulBEq κ] {xs : List (κ × β)} (hnodup : (xs.map Prod.fst).Nodup) {k : κ} {v : β}
    (h : (k,v) ∈ xs) : xs.lookup k = some v := by
  obtain ⟨before,after,rfl⟩ := List.append_of_mem h
  rw [List.lookup_eq_some_iff]
  refine ⟨before,after,rfl,fun p hp => ?_⟩
  rw [List.map_append,List.nodup_append] at hnodup
  simpa using fun hkey : k = p.1 => hnodup.2.2 p.1 (List.mem_map_of_mem hp) k (by simp) hkey.symm

omit [DecidableEq ε] in
/-- A managed table is exported from the source that it is restored in. -/
theorem mem_tableEngines (hunique : (model.tables.map ModelTable.physName).Nodup) {name : String} {e : ε}
    (h : engineOf sources model name = some e) : (name,e) ∈ tableEngines sources model false := by
  have hmanaged := lookup_of_unique (Keyed.nodup_puts _) (mem_nameEngines.mpr h)
  have hall : (tableEngines sources model false).lookup name = some e := by
    rw [Keyed.lookup_puts,entries,List.reverse_append,List.lookup_append] at hmanaged
    rw [tableEngines,Keyed.lookup_puts,entries,List.reverse_append,List.lookup_append]
    cases hjunction : (junctions sources model).reverse.lookup name with
    | some e' =>
      rw [hjunction] at hmanaged
      exact hmanaged
    | none =>
      rw [hjunction,Option.none_or] at hmanaged
      rw [Option.none_or]
      obtain ⟨before,after,hsplit,-⟩ := List.lookup_eq_some_iff.mp hmanaged
      have hmem := List.mem_reverse.mp (hsplit ▸ List.mem_append_right before List.mem_cons_self)
      obtain ⟨mt,hmt,hentry⟩ := List.mem_map.mp hmem
      refine lookup_of_unique ?_ (List.mem_reverse.mpr (List.mem_map.mpr ⟨mt,?_,hentry⟩))
      · rw [List.map_reverse,List.nodup_reverse,List.map_map]
        exact (List.filter_sublist.map _).nodup hunique
      · exact List.mem_filter.mpr ⟨(List.mem_filter.mp hmt).1,by simp⟩
  obtain ⟨before,after,hsplit,-⟩ := List.lookup_eq_some_iff.mp hall
  rw [hsplit]
  exact List.mem_append_right before List.mem_cons_self

omit [DecidableEq ε] in
theorem exportEntry_ok {p : String × ε} {entry : String × Json} (h : exportEntry enc world p = .ok entry) :
    ∃ t, world p.2 p.1 = some t ∧ entry = (p.1,exportTable enc t) := by
  rw [exportEntry] at h
  split at h
  · cases h
  · rename_i t ht
    exact ⟨t,ht,(Except.ok.inj h).symm⟩

omit [DecidableEq ε] in
/-- The export has every managed table under its name. -/
theorem exportEntries_hold {tables : List (String × Json)} (hunique : (model.tables.map ModelTable.physName).Nodup)
    (h : (tableEngines sources model false).mapM (exportEntry enc world) = .ok tables) :
    Holds enc sources model world tables := by
  have hpairs := Outcome.mapM_ok h
  have hnames : tables.map Prod.fst = (tableEngines sources model false).map Prod.fst := by
    clear h
    generalize tableEngines sources model false = named at hpairs
    induction hpairs with
    | nil => rfl
    | cons hentry _ ih =>
      obtain ⟨t,-,rfl⟩ := exportEntry_ok hentry
      rw [List.map_cons,List.map_cons,ih]
  intro name e hname
  obtain ⟨entry,hmem,hentry⟩ := Outcome.mapM_into h (mem_tableEngines hunique hname)
  obtain ⟨t,ht,rfl⟩ := exportEntry_ok hentry
  refine ⟨t,ht,Keyed.find_of_mem ?_ hmem⟩
  rw [hnames]
  exact Keyed.nodup_puts _

end Sources

/-- Whatever has become of the rows since, a restore of the export puts every managed table back as it was and leaves everything
else as it is: when the physical names are unique and the database takes the exported rows back into tables that still have
their columns. -/
theorem export_restores {ε : Type*} [DecidableEq ε] {d : Driver} {enc : Value → Json} {sources : Sources ε} {model : Model}
    {world later : ε → Tables} {file : Json} (hunique : (model.tables.map ModelTable.physName).Nodup)
    (hexport : exportData enc sources model world = .ok file) (hrecover : Recoverable d enc sources model world later) :
    ∃ summary, importData d sources model file true later = (restored sources model world later,.ok summary) := by
  obtain ⟨tables,htables,rfl⟩ := Outcome.map_ok hexport
  have hholds := exportEntries_hold hunique htables
  obtain ⟨rows,hload⟩ := @loadAll_back ε _ d enc sources model world later tables hrecover hholds (engines sources model) []
    (by rw [List.nil_append]; exact engines_nodup) 0
  have hstart : restoredIn sources model world later [] = later := funext fun e => funext fun n => if_neg (by simp)
  have hend : restoredIn sources model world later ([]++engines sources model) = restored sources model world later := by
    funext e n
    simp only [restoredIn,restored,List.nil_append]
    refine if_congr ⟨And.right,fun h => ⟨mem_engines.mpr ⟨n,h⟩,h⟩⟩ rfl rfl
  rw [hstart,hend] at hload
  have hpayload : (if (Json.obj tables).truthy then Json.obj tables else .obj []) = .obj tables := by
    cases tables with
    | nil => rfl
    | cons p tables => rfl
  refine ⟨⟨(targets sources model tables).length,rows,
    ((Keyed.distinct Prod.fst tables).map Prod.fst).filter fun name => (engineOf sources model name).isNone⟩,?_⟩
  simp only [importData,Json.get,List.lookup_cons,beq_self_eq_true,Option.getD_some,
    show ("tables" == "version") = false from by decide,versionOk,hpayload]
  simp only [decide_true,Bool.not_true,Bool.false_eq_true,if_false,hload]
  rfl

/-- A value as the file of `plainDriver` has it. -/
def plainJson : Value → Json
  | .int n => .int n
  | .text s => .str s
  | _ => .null

def customer (id : ℤ) (name : String) : Row := fun column =>
  if column = "id" then .int id else if column = "name" then .text name else .null

/-- A data source with some customers. -/
def customersOf (rows : List Row) : Unit → Tables := fun _ =>
  Function.update (fun _ => none) "customers" (some ⟨["id","name"],rows⟩)

theorem backed_customers (rows : List (ℤ × String)) :
    Backed plainDriver plainJson "customers" ⟨["id","name"],rows.map fun p => customer p.1 p.2⟩ := by
  have hnodup : (["id","name"] : List String).Nodup := by decide
  refine ⟨hnodup,fun row hrow column hcolumn => ?_,fun row hrow column hcolumn => ?_,rfl⟩
  · obtain ⟨p,-,rfl⟩ := List.mem_map.mp hrow
    simp only [List.mem_cons,List.not_mem_nil,or_false] at hcolumn
    rcases hcolumn with rfl | rfl <;> rfl
  · obtain ⟨p,-,rfl⟩ := List.mem_map.mp hrow
    simp only [List.mem_cons,List.not_mem_nil,or_false,not_or] at hcolumn
    simp [customer,hcolumn]

/-- One of two customers is deleted and the other renamed; the restore brings both back. -/
theorem export_restores_customers : ∃ file summary,
    exportData plainJson ⟨fun _ => ()⟩ customerModel (customersOf [customer 1 "Ann",customer 2 "Bob"]) = .ok file ∧
      importData plainDriver ⟨fun _ => ()⟩ customerModel file true (customersOf [customer 1 "Bea"]) =
        (restored ⟨fun _ => ()⟩ customerModel (customersOf [customer 1 "Ann",customer 2 "Bob"]) (customersOf [customer 1 "Bea"]),
          .ok summary) := by
  have hname : ∀ name e, engineOf ⟨fun _ => ()⟩ customerModel name = some e → name = "customers" := by
    intro name e h
    have hmem := mem_entries h
    simp only [entries,customerModel,junctions,List.filter_nil,List.map_nil,List.append_nil,List.mem_map,List.mem_filter,
      List.mem_singleton] at hmem
    obtain ⟨mt,⟨rfl,-⟩,hpair⟩ := hmem
    exact (Prod.mk.inj hpair).1.symm
  obtain ⟨summary,h⟩ := @export_restores Unit _ plainDriver plainJson ⟨fun _ => ()⟩ customerModel
    (customersOf [customer 1 "Ann",customer 2 "Bob"]) (customersOf [customer 1 "Bea"]) _ (by decide) rfl
    ⟨fun name e t hengine ht => by
      obtain rfl := hname name e hengine
      obtain rfl := Option.some.inj ht
      exact backed_customers [(1,"Ann"),(2,"Bob")],fun name e t hengine ht => by
      obtain rfl := hname name e hengine
      obtain rfl := Option.some.inj ht
      exact ⟨_,rfl,rfl⟩⟩
  exact ⟨_,summary,rfl,h⟩

end Restore
end Biggy
