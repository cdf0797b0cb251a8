import Biggy.Reports
import Mathlib.Algebra.Order.BigOperators.Group.List

/-!
# The totals of a report

A grouped report shows a row for each group and the totals of all rows, which the database computes apart from each other. As
long as no group is cut off, counts and sums add up to the totals, and the totals of minima and maxima are theirs.
-/
namespace Biggy
namespace Reports

open RowScope FieldLeaks
open Rollups (Aggregate sqlAggregate number IsNumeric)

/-! ### Aggregates of numbers -/

def total (nums : List ℚ) : Option ℚ := if nums = [] then none else some nums.sum

theorem folds_total : Grouping.Folds total (· + ·) where
  nil := rfl
  single b := by simp [total]
  append xs ys := by
    cases xs with
    | nil => simp [total]
    | cons x xs =>
      cases ys with
      | nil => simp [total]
      | cons y ys => simp [total,add_assoc]

theorem folds_min : Grouping.Folds (List.min? (α := ℚ)) min where
  nil := rfl
  single b := rfl
  append xs ys := by
    induction xs with
    | nil => simp
    | cons x xs ih =>
      rw [List.cons_append,List.min?_cons,ih,List.min?_cons]
      cases xs.min? <;> cases ys.min? <;> simp [min_assoc]

theorem folds_max : Grouping.Folds (List.max? (α := ℚ)) max where
  nil := rfl
  single b := rfl
  append xs ys := by
    induction xs with
    | nil => simp
    | cons x xs ih =>
      rw [List.cons_append,List.max?_cons,ih,List.max?_cons]
      cases xs.max? <;> cases ys.max? <;> simp [max_assoc]

/-- The aggregates of the database on columns of numbers are those of SQL. -/
structure Standard (S : Desk) : Prop where
  value : ∀ fn vals, IsNumeric vals → number (S.aggregate fn vals) = sqlAggregate (fun _ _ => none) fn vals
  numeric : ∀ fn vals, IsNumeric vals → S.aggregate fn vals = .null ∨ (number (S.aggregate fn vals)).isSome = true

/-- The number under a column of group cells is what the cells make up. -/
def MakesUp (fn : Aggregate) (cells : List Value) (all : Value) : Prop :=
  match fn with
  | .count => number all = some (cells.filterMap number).sum
  | .avg => True
  | fn => number all = sqlAggregate (fun _ _ => none) fn cells

/-- How the numbers of a column make up its sum, its least or its greatest. -/
def foldOf : Aggregate → List ℚ → Option ℚ
  | .sum => total
  | .min => List.min?
  | .max => List.max?
  | _ => fun _ => none

theorem sqlAggregate_foldOf {fn : Aggregate} (hfn : fn ∈ [Aggregate.sum,.min,.max]) {vals : List Value} (h : IsNumeric vals) :
    sqlAggregate (fun _ _ => none) fn vals = foldOf fn (vals.filterMap number) := by
  unfold sqlAggregate
  cases fn <;> simp [foldOf,total,h] at hfn ⊢

theorem folds_foldOf {fn : Aggregate} (hfn : fn ∈ [Aggregate.sum,.min,.max]) : ∃ op, Grouping.Folds (foldOf fn) op := by
  cases fn with
  | count => simp at hfn
  | avg => simp at hfn
  | sum => exact ⟨_,folds_total⟩
  | min => exact ⟨_,folds_min⟩
  | max => exact ⟨_,folds_max⟩

section Groups

variable {S : Desk} {gs : List (List Row)} {rows : List Row} {col : String}

/-- The aggregates of the groups make up the aggregate of all rows. -/
theorem aggregate_groups (hstandard : Standard S) (hgs : gs.flatten.Perm rows) {fn : Aggregate}
    (hfn : fn ∈ [Aggregate.sum,.min,.max])
    (hnumeric : IsNumeric (rows.map fun row => row col)) :
    number (S.aggregate fn (rows.map fun row => row col)) =
      sqlAggregate (fun _ _ => none) fn (gs.map fun g => S.aggregate fn (g.map fun row => row col)) := by
  have hpart : ∀ g ∈ gs, IsNumeric (g.map fun row => row col) := by
    intro g hg v hv
    obtain ⟨row,hrow,rfl⟩ := List.mem_map.mp hv
    exact hnumeric _ (List.mem_map_of_mem (hgs.subset (List.mem_flatten.mpr ⟨g,hg,hrow⟩)))
  have hcells : IsNumeric (gs.map fun g => S.aggregate fn (g.map fun row => row col)) := by
    intro v hv
    obtain ⟨g,hg,rfl⟩ := List.mem_map.mp hv
    exact hstandard.numeric fn _ (hpart g hg)
  have hflat : IsNumeric (gs.flatten.map fun row => row col) := fun v hv => hnumeric v ((hgs.map _).subset hv)
  have hnumbers : (gs.map fun g => S.aggregate fn (g.map fun row => row col)).filterMap number =
      (gs.map fun g => (g.map fun row => row col).filterMap number).filterMap (foldOf fn) := by
    rw [List.filterMap_map,List.filterMap_map]
    refine List.filterMap_congr fun g hg => ?_
    rw [Function.comp_apply,Function.comp_apply,hstandard.value fn _ (hpart g hg),sqlAggregate_foldOf hfn (hpart g hg)]
  have hflatten : (gs.map fun g => (g.map fun row => row col).filterMap number).flatten =
      (gs.flatten.map fun row => row col).filterMap number := by
    rw [List.map_flatten,List.filterMap_flatten,List.map_map]
    rfl
  obtain ⟨op,hop⟩ := folds_foldOf hfn
  calc number (S.aggregate fn (rows.map fun row => row col))
      = sqlAggregate (fun _ _ => none) fn (rows.map fun row => row col) := hstandard.value fn _ hnumeric
    _ = sqlAggregate (fun _ _ => none) fn (gs.flatten.map fun row => row col) :=
        (Rollups.sqlAggregate_perm _ (hgs.map _) hflat fn).symm
    _ = foldOf fn ((gs.map fun g => (g.map fun row => row col).filterMap number).flatten) := by
        rw [sqlAggregate_foldOf hfn hflat,hflatten]
    _ = foldOf fn ((gs.map fun g => (g.map fun row => row col).filterMap number).filterMap (foldOf fn)) := hop.flatten _
    _ = sqlAggregate (fun _ _ => none) fn (gs.map fun g => S.aggregate fn (g.map fun row => row col)) := by
        rw [sqlAggregate_foldOf hfn hcells,hnumbers]

theorem number_count (n : ℕ) : number (.int n) = some (n : ℚ) := by simp [number]

/-- The numbers of cells with counts. -/
theorem counts (gs : List (List Row)) :
    ((gs.map fun g => Value.int g.length).filterMap number).sum = (gs.flatten.length : ℚ) := by
  induction gs with
  | nil => rfl
  | cons g gs ih =>
    rw [List.map_cons,List.filterMap_cons_some (number_count g.length),List.sum_cons,ih,List.flatten_cons,List.length_append,Nat.cast_add]

end Groups

/-! ### The rows of a report -/

section Rows

variable {S : Desk} {mt : MetaTable} {metrics : List Metric}

/-- A metric whose column is there. -/
def Present (S : Desk) (mt : MetaTable) (m : Metric) : Prop := ∃ e, metricExpr S mt m = some e

/-- What a metric is of a list of rows. -/
def valueOf (S : Desk) (mt : MetaTable) (m : Metric) (rows : List Row) : Value :=
  ((metricExpr S mt m).map fun e => e rows).getD .null

theorem exprs_eq (h : ∀ m ∈ metrics, Present S mt m) : metrics.filterMap (metricExpr S mt) = metrics.map (valueOf S mt) := by
  induction metrics with
  | nil => rfl
  | cons m metrics ih =>
    obtain ⟨e,he⟩ := h m List.mem_cons_self
    rw [List.filterMap_cons_some he,List.map_cons,ih fun m hm => h m (List.mem_cons_of_mem _ hm)]
    refine congrArg (· :: _) (funext fun rows => ?_)
    rw [valueOf,he]
    rfl

theorem nth_map {j : ℕ} {m : Metric} (hj : metrics[j]? = some m) (rows : List Row) :
    nth j ((metrics.map (valueOf S mt)).map fun e => e rows) = valueOf S mt m rows := by
  rw [nth,List.getD_eq_getElem?_getD,List.getElem?_map,List.getElem?_map,hj]
  rfl

theorem nth_succ (j : ℕ) (row : List Value) : nth (j+1) row = nth j row.tail := by
  cases row with
  | nil => rfl
  | cons v row => rfl

/-- The row of a group. -/
def groupRow (g : String) (exprs : List (List Row → Value)) (members : List Row) : List Value :=
  ((members.map fun row => row g).headD .null)::exprs.map fun e => e members

theorem groupRows_some (g : String) (exprs : List (List Row → Value)) (limit : ℕ) (matching : List Row) :
    ∃ sorted : List (List Value), groupRows S (some g) exprs limit matching = sorted.take limit ∧
      sorted.Perm ((Grouping.groups (fun row : Row => S.groupKey (row g)) matching).map (groupRow g exprs)) := by
  unfold groupRows
  cases exprs with
  | nil => exact ⟨_,rfl,List.perm_insertionSort _ _⟩
  | cons e exprs => exact ⟨_,rfl,List.perm_insertionSort _ _⟩

end Rows

/-! ### Totals -/

section Totals

variable {S : Desk} {mt : MetaTable} {columns : List Col} {metrics : List Metric} {filters : List Filter} {g : String}
  {labelMaps : List (String × List (Value × String))} {D : Database S.toSite}

/-- The rows that a report is about. -/
def matching (S : Desk) (mt : MetaTable) (filters : List Filter) (D : Database S.toSite) : List Row :=
  (D mt).rows.filter (applyFilters S.engine.toSql (S.shape mt).columns filters)

/-- Their groups. -/
def groupsBy (S : Desk) (mt : MetaTable) (g : String) (filters : List Filter) (D : Database S.toSite) : List (List Row) :=
  Grouping.groups (fun row : Row => S.groupKey (row g)) (matching S mt filters D)

/-- The cells of a metric before the rows are cut off, and those that are shown. -/
theorem run_cells (hg : g ∈ (S.shape mt).columns) (hpresent : ∀ m ∈ metrics, Present S mt m) {j : ℕ} {m : Metric}
    (hj : metrics[j]? = some m) : ∃ cells : List Value,
      (run S mt columns (some g) metrics filters labelMaps D).rows.map (nth (j+1)) = cells.take 1000 ∧
      cells.Perm ((groupsBy S mt g filters D).map (valueOf S mt m)) := by
  obtain ⟨sorted,hrows,hperm⟩ := @groupRows_some S g (metrics.filterMap (metricExpr S mt)) 1000 (matching S mt filters D)
  refine ⟨sorted.map (nth (j+1)),?_,?_⟩
  · have hshown : (run S mt columns (some g) metrics filters labelMaps D).rows.map (nth (j+1)) =
        (groupRows S (some g) (metrics.filterMap (metricExpr S mt)) 1000 (matching S mt filters D)).map (nth (j+1)) := by
      unfold run aggregateRows
      simp only [Option.filter_some,hg,decide_true,↓reduceIte,List.map_map]
      refine List.map_congr_left fun row _ => ?_
      rw [Function.comp_apply,nth_succ,nth_succ,List.tail_cons]
    rw [hshown,hrows,List.map_take]
  · refine (hperm.map _).trans (.of_eq ?_)
    rw [List.map_map]
    refine List.map_congr_left fun members _ => ?_
    rw [Function.comp_apply,groupRow,nth_succ,List.tail_cons,exprs_eq hpresent,nth_map hj]

theorem run_totals (hpresent : ∀ m ∈ metrics, Present S mt m) {j : ℕ} {m : Metric} (hj : metrics[j]? = some m) :
    nth j ((run S mt columns (some g) metrics filters labelMaps D).totals.getD []) =
      valueOf S mt m (matching S mt filters D) := by
  have hsome : metrics.filterMap (metricExpr S mt) ≠ [] := by
    rw [exprs_eq hpresent,Ne,List.map_eq_nil_iff]
    rintro rfl
    cases hj
  unfold run aggregateRows
  simp only [hsome,↓reduceIte,Option.getD_some]
  rw [exprs_eq hpresent]
  exact nth_map hj _

theorem valueOf_count (rows : List Row) : valueOf S mt countMetric rows = .int rows.length := rfl

theorem valueOf_aggregate {m : Metric} {col : String} (hm : m.col = some col) (hcol : col ∈ (S.shape mt).columns)
    (rows : List Row) :
    valueOf S mt m rows = S.aggregate m.func (rows.map fun row => row col) := by
  unfold valueOf metricExpr
  rw [hm]
  cases m.func <;> simp [hcol]

theorem MakesUp.perm {fn : Aggregate} {cells cells' : List Value} {all : Value} (hperm : cells.Perm cells')
    (hnumeric : IsNumeric cells)
    (h : MakesUp fn cells' all) : MakesUp fn cells all := by
  have haggregate := fun fn => Rollups.sqlAggregate_perm (fun _ _ => none) hperm hnumeric fn
  cases fn with
  | count => exact h.trans (congrArg some ((hperm.filterMap number).sum_eq).symm)
  | avg => trivial
  | sum => exact h.trans (haggregate .sum).symm
  | min => exact h.trans (haggregate .min).symm
  | max => exact h.trans (haggregate .max).symm

/-- A metric on a column of numbers, or the count. -/
def OnNumbers (mt : MetaTable) (m : Metric) : Prop :=
  ∀ col, m.col = some col → ∃ f ∈ mt.fields, f.physName = col ∧ f.dataType ∈ numeric

/-- What `build` makes of the parameters, once the columns and their filters are known. -/
def resultOf (S : Desk) (mt : MetaTable) (columns : List Col) (q : Query) (base : List Filter)
    (labelMaps : List (String × List (Value × String))) (D : Database S.toSite) : Result :=
  run S mt columns q.groupCol q.metrics (base++q.filters) labelMaps D

theorem parsed_present {allowed : Option (List String)} {filterMeta : List (String × FilterMeta)} {args : Args}
    (hcolumns : ∀ f ∈ mt.fields, f.dataType ∉ [DataType.image,.file] → f.physName ∈ (S.shape mt).columns) :
    (∀ m ∈ (parse (tableColumns mt allowed) filterMeta args).metrics, Present S mt m) ∧
      ∀ m ∈ (parse (tableColumns mt allowed) filterMeta args).metrics, ∀ col, m.col = some col → col ∈ (S.shape mt).columns := by
  have hcol : ∀ c ∈ tableColumns mt allowed, c.column ∈ (S.shape mt).columns := by
    intro c hc
    obtain ⟨f,hf,rfl⟩ := List.mem_map.mp hc
    obtain ⟨hmem,hkind⟩ := List.mem_filter.mp hf
    exact hcolumns f hmem (by simpa using (Bool.and_eq_true_iff.mp hkind).1)
  have hall : ∀ m ∈ (parse (tableColumns mt allowed) filterMeta args).metrics, ∀ col, m.col = some col →
      col ∈ (S.shape mt).columns := by
    intro m hm col hmcol
    rcases parseMetrics_some hm with rfl | ⟨c,hc,hname,-⟩
    · cases hmcol
    · rw [hname,Option.some.injEq] at hmcol
      rw [← hmcol]
      exact hcol c hc
  refine ⟨fun m hm => ?_,hall⟩
  rcases parseMetrics_some hm with rfl | ⟨c,hc,hname,-⟩
  · exact ⟨_,rfl⟩
  · unfold Present metricExpr
    rw [hname]
    cases m.func <;> simp [hcol c hc]

theorem cells_numeric (hstandard : Standard S) {m : Metric}
    (hm : m = countMetric ∨ ∃ col, m.col = some col ∧ col ∈ (S.shape mt).columns ∧
      IsNumeric ((D mt).rows.map fun row => row col)) {cells : List Value}
    (hcells : cells.Perm ((groupsBy S mt g filters D).map (valueOf S mt m))) : IsNumeric cells := by
  intro v hv
  obtain ⟨members,hmembers,rfl⟩ := List.mem_map.mp (hcells.subset hv)
  rcases hm with rfl | ⟨col,hmcol,hcol,hnumeric⟩
  · right
    rw [valueOf_count]
    rfl
  · rw [valueOf_aggregate hmcol hcol]
    refine hstandard.numeric _ _ fun v hv => ?_
    obtain ⟨row,hrow,rfl⟩ := List.mem_map.mp hv
    exact hnumeric _ (List.mem_map_of_mem (List.mem_of_mem_filter (Grouping.subset_of_mem hmembers hrow)))

/-- What all groups make up. -/
theorem groups_makeUp (hstandard : Standard S) {m : Metric}
    (hm : m = countMetric ∨ ∃ col, m.col = some col ∧ col ∈ (S.shape mt).columns ∧
      m.func ≠ .count ∧ IsNumeric ((D mt).rows.map fun row => row col)) :
    MakesUp m.func ((groupsBy S mt g filters D).map (valueOf S mt m)) (valueOf S mt m (matching S mt filters D)) := by
  have hperm := @Grouping.groups_perm _ _ _ (fun row : Row => S.groupKey (row g)) (matching S mt filters D)
  rcases hm with rfl | ⟨col,hmcol,hcol,hfunc,hnumeric⟩
  · have hcells : (groupsBy S mt g filters D).map (valueOf S mt countMetric) =
        (groupsBy S mt g filters D).map fun members => .int members.length :=
      List.map_congr_left fun members _ => valueOf_count members
    rw [hcells,valueOf_count]
    change number _ = some _
    rw [counts,number_count]
    exact congrArg (fun n : ℕ => some (n : ℚ)) hperm.length_eq.symm
  · have hcells : (groupsBy S mt g filters D).map (valueOf S mt m) =
        (groupsBy S mt g filters D).map fun members => S.aggregate m.func (members.map fun row => row col) :=
      List.map_congr_left fun members _ => valueOf_aggregate hmcol hcol members
    have hmatching : IsNumeric ((matching S mt filters D).map fun row => row col) := by
      intro v hv
      obtain ⟨row,hrow,rfl⟩ := List.mem_map.mp hv
      exact hnumeric _ (List.mem_map_of_mem (List.mem_of_mem_filter hrow))
    rw [hcells,valueOf_aggregate hmcol hcol]
    cases hf : m.func with
    | count => exact absurd hf hfunc
    | avg => trivial
    | sum => exact aggregate_groups hstandard hperm (by simp) hmatching
    | min => exact aggregate_groups hstandard hperm (by simp) hmatching
    | max => exact aggregate_groups hstandard hperm (by simp) hmatching

/-- The counts of the groups that are left do not make up the count of all rows when a group is cut off. -/
theorem count_cut (hstandard : Standard S) {cells : List Value}
    (hcells : cells.Perm ((groupsBy S mt g filters D).map (valueOf S mt countMetric)))
    (hcut : 1000 < (groupsBy S mt g filters D).length) :
    ¬MakesUp .count (cells.take 1000) (valueOf S mt countMetric (matching S mt filters D)) := by
  have hcount : ∀ v ∈ cells, ∃ q : ℚ, number v = some q ∧ 0 < q := by
    intro v hv
    obtain ⟨members,hmembers,rfl⟩ := List.mem_map.mp (hcells.subset hv)
    have hpos : 0 < members.length := List.length_pos_of_ne_nil (Grouping.ne_nil_of_mem hmembers)
    exact ⟨members.length,number_count _,by exact_mod_cast hpos⟩
  have hall : number (valueOf S mt countMetric (matching S mt filters D)) = some (cells.filterMap number).sum := by
    rw [(hcells.filterMap number).sum_eq]
    exact groups_makeUp hstandard (Or.inl rfl)
  have hdrop : 0 < ((cells.drop 1000).filterMap number).sum := by
    refine List.sum_pos _ (fun q hq => ?_) ?_
    · obtain ⟨v,hv,hq⟩ := List.mem_filterMap.mp hq
      obtain ⟨q',hq',hpos⟩ := hcount v (List.mem_of_mem_drop hv)
      rw [hq',Option.some.injEq] at hq
      rwa [← hq]
    · have hlength : 1000 < cells.length := by rw [hcells.length_eq,List.length_map]; exact hcut
      obtain ⟨v,rest,hrest⟩ := List.exists_cons_of_ne_nil (by simpa using hlength : cells.drop 1000 ≠ [])
      obtain ⟨q,hq,-⟩ := hcount v (List.mem_of_mem_drop (hrest ▸ List.mem_cons_self))
      rw [hrest,List.filterMap_cons_some hq]
      exact List.cons_ne_nil _ _
  have hsplit : (cells.filterMap number).sum =
      ((cells.take 1000).filterMap number).sum+((cells.drop 1000).filterMap number).sum := by
    rw [← List.sum_append,← List.filterMap_append,List.take_append_drop]
  intro hmakes
  have hsame : (cells.filterMap number).sum = ((cells.take 1000).filterMap number).sum := Option.some.inj (hall.symm.trans hmakes)
  rw [hsplit] at hsame
  exact hdrop.ne' (add_eq_left.mp hsame)

/-- The cells of the j-th metric that a result shows, and its total. -/
def shownCells (r : Result) (j : ℕ) : List Value := r.rows.map (nth (j+1))

def totalCell (r : Result) (j : ℕ) : Value := nth j (r.totals.getD [])

end Totals

/-! ### The salaries of the staff by amount -/

/-- The staff, with the aggregates of SQL. -/
def payDesk : Desk :=
  { staffSite with
    groupKey := id
    aggregate := fun fn vals => ((sqlAggregate (fun _ _ => none) fn vals).map fun q => .float (.finite q)).getD .null
    resultType := fun _ => none
    displayIds := fun _ => []
    usernames := []
    companyNames := []
    parseQsl := fun _ => [] }

theorem payDesk_standard : Standard payDesk where
  value fn vals _ := by
    change number (Option.getD (Option.map _ (sqlAggregate (fun _ _ => none) fn vals)) _) = _
    cases sqlAggregate (fun _ _ => none) fn vals <;> rfl
  numeric fn vals _ := by
    change Option.getD (Option.map _ (sqlAggregate (fun _ _ => none) fn vals)) _ = _ ∨ _
    cases hq : sqlAggregate (fun _ _ => none) fn vals with
    | none => exact Or.inl rfl
    | some q =>
      right
      change (number (Option.getD (Option.map _ (sqlAggregate (fun _ _ => none) fn vals)) _)).isSome = true
      rw [hq]
      rfl

def employee (id : ℤ) (pay : ℤ) : Row := Row.write (fun _ => .null) [("id",.int id),("salary",.int pay)]

theorem employee_storable (id pay : ℤ) : Storable (staffSite.shape staff) (employee id pay) := by
  refine ⟨fun _ _ => trivial,fun column hcolumn => ?_⟩
  have hnot : column ∉ ["id","salary"] := hcolumn
  simp only [List.mem_cons,List.not_mem_nil,or_false,not_or] at hnot
  have hid : (column == "id") = false := by simpa using hnot.1
  have hsalary : (column == "salary") = false := by simpa using hnot.2
  simp only [employee,Row.write,List.lookup_cons,hid,hsalary,List.lookup_nil,Option.getD_none]

def payroll : Database payDesk.toSite := fun _ =>
  { rows := [employee 1 3,employee 2 3,employee 3 5]
    storable := by simpa using ⟨employee_storable 1 3,employee_storable 2 3,employee_storable 3 5⟩
    keys := by
      change [Value.int 1,.int 2,.int 3].Nodup
      decide }

/-- The report on the sum of the salaries, by salary. -/
def payReport : Result :=
  resultOf payDesk staff (tableColumns staff none)
    (parse (tableColumns staff none) [] [("group","salary"),("metric","sum:salary")]) [] [] payroll

end Reports
end Biggy
