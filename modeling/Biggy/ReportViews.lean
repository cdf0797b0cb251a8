import Biggy.Reports

/-!
# What reports and dashboards show

Reports and dashboards are rendered for an account. A report depends on nothing but the rows in the scope of the account, the
fields that it may read, and what the pickers offer to it.
-/
namespace Biggy
namespace Reports

open Companies RowScope Access FieldLeaks

/-! ### Dashboards -/

inductive WidgetKind
  | chart | number | list | text | other
  deriving DecidableEq

structure Widget where
  title : Option String
  kind : WidgetKind
  tableId : Option ℕ
  query : Option String
  chartType : String
  content : Option String
  width : ℤ
  limit : ℤ

/-- A dashboard; one without an owner is shared. -/
structure Dashboard where
  ownerUserId : Option ℕ
  widgets : List Widget

inductive TileBody
  | text (content : Option String)
  | chart (chartType : String) (data : ChartData)
  | number (metric : String) (value : PyFloat) (target : Option String)
  | list (columns : List (String × String)) (rows : List (List Value)) (formId : Option ℕ)

structure Tile where
  title : Option String
  width : ℤ
  body : TileBody

section Pages

variable (S : Desk) (user : User)

def table (id : ℕ) : Option MetaTable := S.tables.find? fun t => decide (t.id = id)

/-- `visible`. -/
def visible (dash : Dashboard) : Bool :=
  match dash.ownerUserId with
  | some owner => user.active && decide (owner = user.id)
  | none =>
    let ids := dash.widgets.filterMap fun w => w.tableId.filter (· ≠ 0)
    ids.isEmpty || ids.any fun id => (table S id).any (tableReadable S.session user)

/-- `_list_columns`. -/
def listColumns (mt : MetaTable) : List MetaField :=
  (mt.fields.filter fun f => decide (f.dataType ∉ [DataType.relation,.file,.image])).take 4

/-- What a list tile shows of a row. -/
def shown (mt : MetaTable) (row : Row) : List Value := (listColumns mt).map fun f => row f.physName

/-- The filters of what the account may see. -/
def scope (mt : MetaTable) : List Filter := scopeFilters S.session.accounts S.session.companies mt (ctx user) false

/-- The report that a query asks for. -/
def reportOf (mt : MetaTable) (args : Args) (D : Database S.toSite) : Except PyError Report :=
  build S mt (some user) args (scope S user mt) D

/-- The rows of a list tile. -/
def listTile (mt : MetaTable) (limit : ℤ) (D : Database S.toSite) : List (List Value) :=
  (listRecords S.toSite user mt D [] ((S.shape mt).pk,false) 1 (max 1 (if limit = 0 then 5 else limit)).toNat).1.map (shown mt)

/-- The title of the number, and its value. -/
def numberOf (r : Result) : String × PyFloat :=
  (r.titles.headD "Value",num S (((r.rows.head?.bind List.head?)).getD (.int 0)))

/-- One tile of `render`; a widget on a table that the account may not read is left out. -/
def renderWidget (D : Database S.toSite) (w : Widget) : Except PyError (Option Tile) :=
  let tile := fun body => some (Tile.mk w.title (min 2 (max 1 (if w.width = 0 then 1 else w.width))) body)
  match (w.tableId.filter (· ≠ 0)).bind (table S) with
  | none => .ok (if w.kind = .text then tile (.text w.content) else none)
  | some mt =>
    if !tableReadable S.session user mt then .ok none
    else
      match w.kind with
      | .text => .ok (tile (.text w.content))
      | .chart => (reportOf S user mt (S.parseQsl (w.query.getD "")) D).map fun r =>
          tile (.chart (if w.chartType = "" then "bar" else w.chartType) r.chartData)
      | .number => (reportOf S user mt ((S.parseQsl (w.query.getD "")).filter fun p => p.1 ≠ "group") D).map fun r =>
          tile (.number (numberOf S r.result).1 (numberOf S r.result).2
            ((w.content.map strip).filter (· ≠ "")))
      | .list => .ok (tile (.list ((listColumns mt).map fun f => (f.physName,f.label)) (listTile S user mt w.limit D)
          ((formsOf S.session mt).head?.map MetaForm.id)))
      | .other => .ok none

/-- `render`. -/
def render (D : Database S.toSite) (dash : Dashboard) : Except PyError (List Tile) :=
  (dash.widgets.mapM (renderWidget S user D)).map List.reduceOption

/-! ### Pages -/

inductive Visit
  | report (tableId : ℕ) (args : Args)
  | dashboard (dash : Dashboard)
  | home (pinned : List (ℕ × String))

inductive Page
  | notFound
  | forbidden
  | csv (text : String)
  | report (r : Report)
  | tiles (tiles : List Tile)
  | home (tiles : List (ℕ × String × ChartData))

/-- `report`. -/
def reportPage (tableId : ℕ) (args : Args) (D : Database S.toSite) : Except PyError Page :=
  match table S tableId with
  | none => .ok .notFound
  | some mt =>
    if !tableReadable S.session user mt then .ok .forbidden
    else (reportOf S user mt args D).map fun r =>
      if args.get "export" = some "csv" then .csv (toCsv S r.result) else .report r

/-- One pinned report of the start page. -/
def pinnedTile (D : Database S.toSite) (p : ℕ × String) : Except PyError (Option (ℕ × String × ChartData)) :=
  match table S p.1 with
  | none => .ok none
  | some mt =>
    if !tableReadable S.session user mt then .ok none
    else (reportOf S user mt (S.parseQsl p.2) D).map fun r => some (mt.id,r.chart,r.chartData)

/-- What the account gets to see. -/
def view (D : Database S.toSite) : Visit → Except PyError Page
  | .report tableId args => reportPage S user tableId args D
  | .dashboard dash => if visible S user dash then (render S user D dash).map .tiles else .ok .notFound
  | .home pinned => (pinned.mapM (pinnedTile S user D)).map fun tiles => .home tiles.reduceOption

/-! ### What the account may see -/

/-- Two rows agree in the key and in the fields that the account may read. -/
def Agree (mt : MetaTable) (a b : Row) : Prop :=
  a (S.shape mt).pk = b (S.shape mt).pk ∧ ∀ f ∈ readableFields S.session user mt, a f.physName = b f.physName

/-- The rows of a table in the scope of the account. -/
def inScope (mt : MetaTable) (D : Database S.toSite) : List Row := (D mt).rows.filter (selected S.toSite user mt [])

/-- A relation field of a table, with the table it leads to, that the account may choose from. -/
structure Picker (mt : MetaTable) (f : MetaField) (target : MetaTable) : Prop where
  table : mt ∈ S.tables
  readable : tableReadable S.session user mt = true
  field : f ∈ readableFields S.session user mt
  target : S.tables.find? (fun t => decide (some t.id = f.relatedTableId)) = some target

/-- Two databases that look the same to the account. -/
structure Alike (D D' : Database S.toSite) : Prop where
  rows : ∀ mt ∈ S.tables, tableReadable S.session user mt = true →
    List.Forall₂ (Agree S user mt) (inScope S user mt D) (inScope S user mt D')
  offers : ∀ mt f target, Picker S user mt f target → offered S (some user) f target D = offered S (some user) f target D'

end Pages

/-! ### What a query names -/

section Queries

variable {S : Desk} {user : User} {mt : MetaTable} {columns : List Col}

theorem tableColumns_readable (hreadable : tableReadable S.session user mt = true) {c : Col}
    (hc : c ∈ tableColumns mt (((some user).filter fun u => !u.isDesigner).map fun u =>
      (readableFields S.session u mt).map MetaField.physName)) :
    c.field ∈ readableFields S.session user mt ∧ c.column = c.field.physName := by
  obtain ⟨f,hf,rfl⟩ := List.mem_map.mp hc
  obtain ⟨hmem,hallowed⟩ := List.mem_filter.mp hf
  refine ⟨?_,rfl⟩
  have hinside : outside user = false := by
    by_contra houtside
    rw [Bool.not_eq_false] at houtside
    simp [tableReadable,houtside] at hreadable
  cases hdesigner : user.isDesigner with
  | true => simpa [readableFields,hinside,hdesigner] using hmem
  | false =>
    simp only [Option.filter_some,hdesigner,Bool.not_false,↓reduceIte,Option.map_some,Option.all_some,Bool.and_eq_true,
      decide_eq_true_eq] at hallowed
    obtain ⟨g,hg,hname⟩ := List.mem_map.mp hallowed.2
    have hgmem : g ∈ mt.fields := by
      unfold readableFields at hg
      rw [hinside,hdesigner] at hg
      exact List.mem_of_mem_filter hg
    have hsame : g = f := List.inj_on_of_nodup_map mt.namesNodup hgmem hmem hname
    rwa [← hsame]

theorem parseMetrics_col {args : Args} {m : Metric} (h : m ∈ parseMetrics columns args) {col : String} (hcol : m.col = some col) :
    ∃ c ∈ columns, c.column = col := by
  rcases parseMetrics_some h with rfl | ⟨c,hc,hname,-⟩
  · cases hcol
  · rw [hname] at hcol
    exact ⟨c,hc,Option.some.inj hcol⟩

theorem buildMeta_names {D : Database S.toSite} {u : Option User} {m : Meta} (h : buildMeta S u D columns = .ok m) :
    m.filterMeta.map Prod.fst = columns.map Col.column := by
  induction columns generalizing m with
  | nil =>
    cases h
    rfl
  | cons c cs ih =>
    obtain ⟨⟨choices,labels⟩,-,h⟩ := Outcome.bind_ok h
    obtain ⟨m',hm',h⟩ := Outcome.bind_ok h
    cases h
    exact congrArg (c.column::·) (ih hm')

theorem lookup_mem {α : Type} {name : String} {ps : List (String × α)} {a : α} (h : ps.lookup name = some a) :
    name ∈ ps.map Prod.fst := by
  induction ps with
  | nil => cases h
  | cons p ps ih =>
    rw [List.lookup_cons] at h
    split at h
    · rename_i hname
      exact List.mem_cons.mpr (Or.inl (by simpa using hname))
    · exact List.mem_cons_of_mem _ (ih h)

/-- The filters of a query are on columns of the report. -/
theorem filters_col {filterMeta : List (String × FilterMeta)} {args : Args} {flt : Filter}
    (h : flt ∈ (parse columns filterMeta args).filters) : ∃ cond, flt = .one cond ∧ cond.col ∈ filterMeta.map Prod.fst := by
  obtain ⟨c,hc,hflt⟩ := List.mem_filterMap.mp h
  unfold filterOf at hflt
  split at hflt
  · cases hflt
    refine ⟨_,rfl,?_⟩
    obtain ⟨t,-,ht⟩ := List.mem_filterMap.mp hc
    obtain ⟨m,hm,ht⟩ := Option.bind_eq_some_iff.mp ht
    obtain ⟨op,-,rfl⟩ := Option.map_eq_some_iff.mp ht
    exact lookup_mem hm
  · cases hflt

end Queries

/-! ### Reports -/

section Confined

variable {S : Desk} {user : User} {mt : MetaTable} {D D' : Database S.toSite}

theorem passes_congr {cond : Condition} {cs : List String} {a b : Row} (h : a cond.col = b cond.col) :
    passes S.engine.toSql cs cond a = passes S.engine.toSql cs cond b := by
  unfold passes clauseFor
  split
  · rfl
  · cases cond.test with
    | isIn values => simp only [Option.elim_some,h]
    | compare op value =>
      dsimp only
      split
      · rfl
      · simp only [Option.elim_some,h]

/-- A column that the account may read. -/
def Readable (S : Desk) (user : User) (mt : MetaTable) (column : String) : Prop :=
  ∃ f ∈ readableFields S.session user mt, f.physName = column

theorem Agree.column {a b : Row} (h : Agree S user mt a b) {column : String} (hcolumn : Readable S user mt column) :
    a column = b column := by
  obtain ⟨f,hf,rfl⟩ := hcolumn
  exact h.2 f hf

/-- The rows that a report is about are alike. -/
theorem matching_alike {filters : List Filter} (h : List.Forall₂ (Agree S user mt) (inScope S user mt D) (inScope S user mt D'))
    (hfilters : ∀ flt ∈ filters, ∃ cond, flt = .one cond ∧ Readable S user mt cond.col) :
    List.Forall₂ (Agree S user mt)
      ((D mt).rows.filter (applyFilters S.engine.toSql (S.shape mt).columns (scope S user mt++filters)))
      ((D' mt).rows.filter (applyFilters S.engine.toSql (S.shape mt).columns (scope S user mt++filters))) := by
  have hsplit : ∀ rows : List Row, rows.filter (applyFilters S.engine.toSql (S.shape mt).columns (scope S user mt++filters)) =
      (rows.filter (selected S.toSite user mt [])).filter (applyFilters S.engine.toSql (S.shape mt).columns filters) := by
    intro rows
    rw [List.filter_filter]
    refine List.filter_congr fun row _ => ?_
    rw [applyFilters,List.all_append,Bool.and_comm]
    rfl
  rw [hsplit,hsplit]
  refine Paired.filter (fun a b hab => ?_) h
  unfold applyFilters
  refine Bool.eq_iff_iff.mpr ?_
  rw [List.all_eq_true,List.all_eq_true]
  refine forall₂_congr fun flt hflt => ?_
  obtain ⟨cond,rfl,hcond⟩ := hfilters flt hflt
  rw [passesFilter,passesFilter,passes_congr (hab.column hcond)]

theorem map_column {xs ys : List Row} (h : List.Forall₂ (Agree S user mt) xs ys) {column : String}
    (hcolumn : Readable S user mt column) :
    (xs.map fun row => row column) = ys.map fun row => row column := by
  induction h with
  | nil => rfl
  | cons hab _ ih => rw [List.map_cons,List.map_cons,ih,hab.column hcolumn]

theorem metricExpr_congr {m : Metric} {e : List Row → Value} (he : metricExpr S mt m = some e)
    (hm : ∀ col, m.col = some col → Readable S user mt col) {xs ys : List Row} (h : List.Forall₂ (Agree S user mt) xs ys) :
    e xs = e ys := by
  unfold metricExpr at he
  split at he
  · cases he
    exact congrArg (fun n : ℕ => Value.int n) h.length_eq
  · rename_i col hcol
    split_ifs at he
    cases he
    exact congrArg (S.aggregate m.func) (map_column h (hm col hcol))
  · cases he

theorem groupRows_congr {grp : Option String} {exprs : List (List Row → Value)} {limit : ℕ}
    (hgrp : ∀ g, grp = some g → Readable S user mt g)
    (hexprs : ∀ e ∈ exprs, ∀ xs ys, List.Forall₂ (Agree S user mt) xs ys → e xs = e ys) {xs ys : List Row}
    (h : List.Forall₂ (Agree S user mt) xs ys) : groupRows S grp exprs limit xs = groupRows S grp exprs limit ys := by
  have hmap : ∀ xs ys, List.Forall₂ (Agree S user mt) xs ys → (exprs.map fun e => e xs) = exprs.map fun e => e ys :=
    fun xs ys hxy => List.map_congr_left fun e he => hexprs e he xs ys hxy
  unfold groupRows
  cases grp with
  | none => exact congrArg (fun row => [row]) (hmap xs ys h)
  | some g =>
    have hg := hgrp g rfl
    have hgroups := @Grouping.groups_related _ _ _ (fun row : Row => S.groupKey (row g)) _ _ _
      (fun a b hab => congrArg S.groupKey (Agree.column hab hg)) h
    have hrows : ((Grouping.groups (fun row : Row => S.groupKey (row g)) xs).map fun members =>
        ((members.map fun row => row g).headD .null)::exprs.map fun e => e members) =
        (Grouping.groups (fun row : Row => S.groupKey (row g)) ys).map fun members =>
          ((members.map fun row => row g).headD .null)::exprs.map fun e => e members := by
      refine Listing.map_eq_of_forall₂ hgroups fun a _ b hab => ?_
      rw [map_column hab hg,hmap a b hab]
    simp only [hrows]

theorem aggregateRows_congr {groupCol : Option String} {metrics : List Metric} {filters : List Filter} {limit : ℕ}
    (h : List.Forall₂ (Agree S user mt) (inScope S user mt D) (inScope S user mt D'))
    (hgroup : ∀ g, groupCol = some g → Readable S user mt g)
    (hmetrics : ∀ m ∈ metrics, ∀ col, m.col = some col → Readable S user mt col)
    (hfilters : ∀ flt ∈ filters, ∃ cond, flt = .one cond ∧ Readable S user mt cond.col) :
    aggregateRows S mt groupCol metrics (scope S user mt++filters) limit D =
      aggregateRows S mt groupCol metrics (scope S user mt++filters) limit D' := by
  have hrows := matching_alike h hfilters
  have hexprs : ∀ e ∈ metrics.filterMap (metricExpr S mt), ∀ xs ys, List.Forall₂ (Agree S user mt) xs ys → e xs = e ys := by
    intro e he xs ys hxy
    obtain ⟨m,hm,hexpr⟩ := List.mem_filterMap.mp he
    exact metricExpr_congr hexpr (hmetrics m hm) hxy
  unfold aggregateRows
  dsimp only
  refine Prod.ext (groupRows_congr (fun g hg => hgroup g ?_) hexprs hrows) ?_
  · exact (Option.filter_eq_some_iff.mp hg).1
  · dsimp only
    split
    · rfl
    · exact congrArg some (List.map_congr_left fun e he => hexprs e he _ _ hrows)

theorem choicesOf_congr {u : Option User} {c : Col} (h : ∀ target, c.isRelation = true →
    S.tables.find? (fun t => decide (some t.id = c.field.relatedTableId)) = some target →
      offered S u c.field target D = offered S u c.field target D') : choicesOf S u D c = choicesOf S u D' c := by
  unfold choicesOf
  split
  · rename_i hrelation
    split
    · rfl
    · rename_i target htarget
      rw [loadOptions,loadOptions,h target hrelation htarget]
  · rfl

theorem buildMeta_congr {u : Option User} {columns : List Col} (h : ∀ c ∈ columns, choicesOf S u D c = choicesOf S u D' c) :
    buildMeta S u D columns = buildMeta S u D' columns := by
  induction columns with
  | nil => rfl
  | cons c cs ih => rw [buildMeta,buildMeta,h c List.mem_cons_self,ih fun c hc => h c (List.mem_cons_of_mem _ hc)]

/-- A report on a table that the account may read is the same on databases that look the same to it. -/
theorem reportOf_confined (halike : Alike S user D D') (hmt : mt ∈ S.tables) (hreadable : tableReadable S.session user mt = true)
    (args : Args) : reportOf S user mt args D = reportOf S user mt args D' := by
  unfold reportOf build
  dsimp only
  have hcolumns := fun c => @tableColumns_readable S user mt hreadable c
  generalize hcols : tableColumns mt (((some user).filter fun u => !u.isDesigner).map fun u =>
    (readableFields S.session u mt).map MetaField.physName) = columns at hcolumns ⊢
  have hmeta : buildMeta S (some user) D columns = buildMeta S (some user) D' columns := by
    refine buildMeta_congr fun c hc => choicesOf_congr fun target _ htarget => ?_
    exact halike.offers mt c.field target ⟨hmt,hreadable,(hcolumns c hc).1,htarget⟩
  have hcolumn : ∀ name, (∃ c ∈ columns, c.column = name) → Readable S user mt name := by
    rintro name ⟨c,hc,rfl⟩
    exact ⟨c.field,(hcolumns c hc).1,(hcolumns c hc).2.symm⟩
  rw [hmeta]
  cases hm : buildMeta S (some user) D' columns with
  | error e => rfl
  | ok m =>
    have hnames := buildMeta_names hm
    have hrun : run S mt columns (parse columns m.filterMeta args).groupCol (parse columns m.filterMeta args).metrics
        (scope S user mt++(parse columns m.filterMeta args).filters) m.labelMaps D =
        run S mt columns (parse columns m.filterMeta args).groupCol (parse columns m.filterMeta args).metrics
          (scope S user mt++(parse columns m.filterMeta args).filters) m.labelMaps D' := by
      unfold run
      rw [aggregateRows_congr (halike.rows mt hmt hreadable)]
      · intro g hg
        obtain ⟨c,hc,rfl⟩ := Option.map_eq_some_iff.mp hg
        exact hcolumn _ ⟨c,(byCol_mem hc).1,rfl⟩
      · exact fun x hx col hcol => hcolumn col (parseMetrics_col hx hcol)
      · intro flt hflt
        obtain ⟨cond,rfl,hcond⟩ := filters_col hflt
        rw [hnames] at hcond
        obtain ⟨c,hc,hname⟩ := List.mem_map.mp hcond
        exact ⟨cond,rfl,hcolumn _ ⟨c,hc,hname⟩⟩
    simp only [bind,Except.bind,hrun]

end Confined

end Reports
end Biggy
