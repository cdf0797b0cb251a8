import Biggy.ReportTotals
import Biggy.ReportViews
import Biggy.QueryString

/-!
# Saved reports

A saved report is the query of its page. The start page, the dashboards and the digests that are mailed read the query
again, without its blank values.
-/
namespace Biggy
namespace Reports

open RowScope Access FieldLeaks

/-- `_report_query`. -/
def reportQuery (args : Args) : String := QueryString.urlencode (args.filter fun p => p.1 ≠ "export")

/-- The text of the digest in `_run_report`. -/
def digest (S : Desk) (mt : MetaTable) (query : String) (D : Database S.toSite) : Except PyError String :=
  (build S mt none (S.parseQsl query) [] D).map fun r => toCsv S r.result

/-- The text that an account downloads on the page of a report. -/
def download (S : Desk) (user : User) (mt : MetaTable) (args : Args) (D : Database S.toSite) : Except PyError String :=
  (reportOf S user mt args D).map fun r => toCsv S r.result

/-! ### What is read of a saved report -/

section Replay

variable {columns : List Col} {filterMeta : List (String × FilterMeta)} {args : Args} {name : String}

/-- The values that are not blank. -/
def given (values : List String) : List String := values.filter fun v => v ≠ ""

theorem getlist_replayed (hname : name ≠ "export") :
    Args.getlist ((args.filter fun p => p.1 ≠ "export").filter fun p => p.2 ≠ "") name = given (args.getlist name) := by
  unfold Args.getlist given
  rw [List.filter_filter,List.filter_filter,List.filter_map,List.filter_filter]
  congr 1
  refine List.filter_congr fun p _ => ?_
  by_cases hp : p.1 = name
  · simp [hp,hname]
  · have hp' : (p.1 == name) = false := by simpa using hp
    simp [hp']

theorem get_eq (args : Args) (name : String) : args.get name = (args.getlist name).head? := by
  unfold Args.get Args.getlist
  induction args with
  | nil => rfl
  | cons p args ih =>
    obtain ⟨key,v⟩ := p
    by_cases hkey : key = name
    · subst hkey
      rw [List.lookup_cons_self,List.filter_cons_of_pos (by simp)]
      rfl
    · have hkey' : (name == key) = false := by simpa using Ne.symm hkey
      rw [List.lookup_cons,hkey',List.filter_cons_of_neg (by simpa using hkey)]
      exact ih

theorem head_given {values : List String} (h : values.length ≤ 1) : ((given values).head?).getD "" = (values.head?).getD "" := by
  match values with
  | [] => rfl
  | [v] =>
    by_cases hv : v = ""
    · simp [given,hv]
    · simp [given,hv]
  | _::_::_ => simp at h

theorem parseMetric_blank : parseMetric columns "" = none := by
  have hfunc : (scalarFuncs.find? fun fn => (funcName fn).1 == (partition "").1) = none := by decide
  unfold parseMetric
  rw [if_neg (by decide),hfunc]

theorem parseMetrics_given {args args' : Args} (h : args'.getlist "metric" = given (args.getlist "metric")) :
    parseMetrics columns args' = parseMetrics columns args := by
  unfold parseMetrics
  rw [h]
  have hfold : ∀ (keys : List String) (ms : List Metric),
      (given keys).foldl (addMetric columns) ms = keys.foldl (addMetric columns) ms := by
    intro keys
    induction keys with
    | nil => exact fun ms => rfl
    | cons key keys ih =>
      intro ms
      by_cases hkey : key = ""
      · subst hkey
        have hskip : addMetric columns ms "" = ms := by rw [addMetric,parseMetric_blank]
        rw [given,List.filter_cons_of_neg (by simp),List.foldl_cons,hskip]
        exact ih ms
      · rw [given,List.filter_cons_of_pos (by simpa using hkey),List.foldl_cons,List.foldl_cons]
        exact ih _
  exact congrArg (fun metrics : List Metric => if metrics = [] then [countMetric] else metrics) (hfold _ [])

/-- A column of the report with one of its operators. -/
def Offered (filterMeta : List (String × FilterMeta)) (col key : String) : Prop :=
  col ≠ "" ∧ ∃ m op, filterMeta.lookup col = some m ∧ validOp m.kind key = some op

/-- The parameters as the form of a report sends them: a column, one of its operators and a value for each condition. -/
structure Formed (filterMeta : List (String × FilterMeta)) (args : Args) : Prop where
  group : (args.getlist "group").length ≤ 1
  offered : List.Forall₂ (Offered filterMeta) (args.getlist "fcol") (args.getlist "fop")
  values : (args.getlist "fval").length = (args.getlist "fcol").length

theorem opName_ne (op : Op) : opName op ≠ "" := by cases op <;> decide

theorem validOp_name {kind : FilterKind} {key : String} {op : Op} (h : validOp kind key = some op) : opName op = key := by
  simpa using List.find?_some h

theorem given_offered {cols keys : List String} (h : List.Forall₂ (Offered filterMeta) cols keys) :
    given cols = cols ∧ given keys = keys := by
  unfold given
  constructor
  · refine List.filter_eq_self.mpr fun col hcol => ?_
    obtain ⟨key,-,hoffered⟩ := Paired.mem_right h hcol
    simpa using hoffered.1
  · refine List.filter_eq_self.mpr fun key hkey => ?_
    obtain ⟨col,-,-,m,op,-,hop⟩ := Paired.mem_left h hkey
    rw [← validOp_name hop]
    simpa using opName_ne op

/-- A condition with another value. -/
def Asked.withValue (c : Asked) (v : String) : Asked := { c with val := v }

/-- The condition of a column, an operator and a value. -/
def condition (p : FilterKind × Asked) (v : String) : FilterKind × Asked := (p.1,p.2.withValue v)

theorem triples_offered {cols keys : List String} (h : List.Forall₂ (Offered filterMeta) cols keys) :
    ∃ ps : List (FilterKind × Asked), ps.length = cols.length ∧ ∀ vals,
      (triples cols keys vals).filterMap (fun t => (filterMeta.lookup t.1).bind fun m =>
        (validOp m.kind t.2.1).map fun op => (m.kind,⟨t.1,op,t.2.2⟩)) = List.zipWith condition ps vals := by
  induction h with
  | nil => exact ⟨[],rfl,fun vals => rfl⟩
  | @cons col key cols keys hoffered _ ih =>
    obtain ⟨-,m,op,hm,hop⟩ := hoffered
    obtain ⟨ps,hlength,hps⟩ := ih
    refine ⟨(m.kind,⟨col,op,""⟩)::ps,congrArg (· + 1) hlength,fun vals => ?_⟩
    cases vals with
    | nil => rfl
    | cons v vals =>
      rw [triples,List.zipWith_cons_cons,← hps vals]
      refine List.filterMap_cons_some ?_
      rw [hm,Option.bind_some,hop]
      rfl

theorem zipWith_condition {ps : List (FilterKind × Asked)} {vals vals' : List String} (h : vals'.length ≤ vals.length)
    (hps : ps.length = vals.length) :
    (List.zipWith condition ps vals').map Prod.snd =
      List.zipWith Asked.withValue ((List.zipWith condition ps vals).map Prod.snd) vals' := by
  induction ps generalizing vals vals' with
  | nil => rfl
  | cons p ps ih =>
    cases vals with
    | nil => cases hps
    | cons v vals =>
      cases vals' with
      | nil => rfl
      | cons v' vals' =>
        simp only [List.zipWith_cons_cons,List.map_cons]
        exact congrArg _ (ih (Nat.le_of_succ_le_succ h) (Nat.succ.inj hps))

/-- The parameters that are read of a saved report. -/
def replayed (args : Args) : Args := (args.filter fun p => p.1 ≠ "export").filter fun p => p.2 ≠ ""

theorem parse_replayed (h : Formed filterMeta args) :
    (parse columns filterMeta (replayed args)).groupCol = (parse columns filterMeta args).groupCol ∧
    (parse columns filterMeta (replayed args)).metrics = (parse columns filterMeta args).metrics ∧
    ∃ ps : List (FilterKind × Asked), ps.length = (args.getlist "fval").length ∧
      parseConditions filterMeta args = List.zipWith condition ps (args.getlist "fval") ∧
      parseConditions filterMeta (replayed args) = List.zipWith condition ps (given (args.getlist "fval")) := by
  refine ⟨?_,parseMetrics_given (getlist_replayed (by decide)),?_⟩
  · have hget : ((replayed args).get "group").getD "" = (args.get "group").getD "" := by
      rw [get_eq,get_eq,replayed,getlist_replayed (by decide)]
      exact head_given h.group
    unfold parse
    rw [hget]
  · obtain ⟨ps,hlength,hps⟩ := triples_offered h.offered
    obtain ⟨hcols,hkeys⟩ := given_offered h.offered
    refine ⟨ps,hlength.trans h.values.symm,hps _,?_⟩
    rw [parseConditions,replayed,getlist_replayed (by decide),getlist_replayed (by decide),getlist_replayed (by decide),
      hcols,hkeys]
    exact hps _

/-- A saved report is read again as it was, exactly when no value is blank: the conditions take the values that are left, in
turn. -/
theorem saved_replay (S : Desk) (lossy : List ℕ → String) (hqsl : S.parseQsl = QueryString.parseQsl lossy)
    (columns : List Col) (filterMeta : List (String × FilterMeta)) (args : Args) (h : Formed filterMeta args) :
    (parse columns filterMeta (S.parseQsl (reportQuery args))).conditions =
      List.zipWith Asked.withValue (parse columns filterMeta args).conditions (given (args.getlist "fval")) ∧
    (parse columns filterMeta (S.parseQsl (reportQuery args)) = parse columns filterMeta args ↔
      ∀ v ∈ args.getlist "fval", v ≠ "") := by
  have hargs : S.parseQsl (reportQuery args) = replayed args := by
    rw [hqsl]
    exact QueryString.parseQsl_urlencode lossy _
  obtain ⟨hgroup,hmetrics,ps,hlength,hasked,hreplayed⟩ := @parse_replayed columns filterMeta args h
  have hconditions : (parse columns filterMeta (replayed args)).conditions =
      List.zipWith Asked.withValue (parse columns filterMeta args).conditions (given (args.getlist "fval")) := by
    simp only [parse,hasked,hreplayed]
    exact zipWith_condition (List.length_filter_le _ _) hlength
  rw [hargs]
  refine ⟨hconditions,fun hsame => ?_,fun hgiven => ?_⟩
  · have hsame' := congrArg (fun q => q.conditions.length) hsame
    simp only [parse,hasked,hreplayed,List.length_map,List.length_zipWith,hlength,Nat.min_self] at hsame'
    have hle : (given (args.getlist "fval")).length = (args.getlist "fval").length := by
      have := List.length_filter_le (fun v => decide (v ≠ "")) (args.getlist "fval")
      unfold given at hsame' ⊢
      omega
    intro v hv
    simpa using List.length_filter_eq_length_iff.mp hle v hv
  · have hall : given (args.getlist "fval") = args.getlist "fval" :=
      List.filter_eq_self.mpr fun v hv => by simpa using hgiven v hv
    rw [hall,← hasked] at hreplayed
    unfold parse at hgroup hmetrics ⊢
    simp only at hgroup hmetrics
    rw [hgroup,hmetrics,hreplayed]

end Replay

/-! ### What is mailed -/

section Digests

variable {S : Desk} {user : User} {mt : MetaTable} {D : Database S.toSite}

theorem buildMeta_designer (hdesigner : user.isDesigner = true) (D : Database S.toSite) (columns : List Col) :
    buildMeta S (some user) D columns = buildMeta S none D columns := by
  have hwhere : ∀ target, companyWhere S (some user) target = companyWhere S none target := fun target => if_pos hdesigner
  have hoptions : ∀ f target, loadOptions S (some user) f target D = loadOptions S none f target D := by
    intro f target
    have hoffer : offer S (some user) f target = offer S none f target := funext fun row => by rw [offer,offer,hwhere]
    rw [loadOptions,loadOptions,offered,offered,hoffer]
  induction columns with
  | nil => rfl
  | cons c columns ih =>
    have hchoices : choicesOf S (some user) D c = choicesOf S none D c := by
      unfold choicesOf
      simp only [hoptions]
    rw [buildMeta,buildMeta,hchoices,ih]

/-- A designer sees the report that the program makes for itself. -/
theorem build_designer (hdesigner : user.isDesigner = true) (args : Args) (base : List Filter) (D : Database S.toSite) :
    build S mt (some user) args base D = build S mt none args base D := by
  unfold build
  simp only [Option.filter_some,hdesigner,Bool.not_true,Bool.false_eq_true,↓reduceIte,Option.map_none,Option.filter_none,
    buildMeta_designer hdesigner]

theorem scope_designer (hdesigner : user.isDesigner = true) :
    scope S user mt = if mt.softDelete then [.one (trashCondition false)] else [] := by
  simp [scope,scopeFilters,companyScope,ctx,hdesigner]

/-- Deleted rows are left out for a designer. -/
theorem applyFilters_designer (hdesigner : user.isDesigner = true) {row : Row} (hrow : row ∈ (D mt).rows)
    (filters : List Filter) :
    applyFilters S.engine.toSql (S.shape mt).columns (scope S user mt++filters) row =
      ((!mt.softDelete || decide (row "deleted_at" = .null)) &&
        applyFilters S.engine.toSql (S.shape mt).columns filters row) := by
  have htrash : passes S.engine.toSql (S.shape mt).columns (trashCondition false) row = decide (row "deleted_at" = .null) := by
    by_cases hcolumn : "deleted_at" ∈ (S.shape mt).columns
    · simp [passes,clauseFor,trashCondition,hcolumn,Op.valueless,buildClause]
    · simp [passes,clauseFor,trashCondition,hcolumn,((D mt).storable row hrow).absent _ hcolumn]
  rw [scope_designer hdesigner]
  cases hsoft : mt.softDelete <;> simp [applyFilters,passesFilter,htrash]

theorem aggregateRows_live (hdesigner : user.isDesigner = true)
    (hlive : mt.softDelete = true → ∀ row ∈ (D mt).rows, row "deleted_at" = .null) (groupCol : Option String)
    (metrics : List Metric) (filters : List Filter) (limit : ℕ) :
    aggregateRows S mt groupCol metrics (scope S user mt++filters) limit D =
      aggregateRows S mt groupCol metrics filters limit D := by
  have hmatching : (D mt).rows.filter (applyFilters S.engine.toSql (S.shape mt).columns (scope S user mt++filters)) =
      (D mt).rows.filter (applyFilters S.engine.toSql (S.shape mt).columns filters) := by
    refine List.filter_congr fun row hrow => ?_
    rw [applyFilters_designer hdesigner hrow]
    cases hsoft : mt.softDelete with
    | false => rfl
    | true => simp [hlive hsoft row hrow]
  rw [aggregateRows,aggregateRows,hmatching]

theorem special_digit {n : ℕ} {c : Char} (h : c ∈ Nat.toDigits 10 n) : Csv.special c = false := by
  have hdigit := Nat.isDigit_of_mem_toDigits (by decide) (by decide) h
  by_contra hspecial
  simp only [Csv.special,Bool.not_eq_false,Bool.or_eq_true,decide_eq_true_eq] at hspecial
  rcases hspecial with ((rfl | rfl) | rfl) | rfl <;> exact absurd hdigit (by decide)

/-- A report that only counts. -/
def countReport (n : ℕ) : Result := ⟨false,none,["Count"],[[.int n]],none⟩

theorem toCsv_countReport (S : Desk) (n : ℕ) :
    toCsv S (countReport n) = String.ofList ("Count\r\n".toList++(Nat.toDigits 10 n++['\r','\n'])) := by
  have htext : csvCell S (.int n) = String.ofList (Nat.toDigits 10 n) := rfl
  have hfield : Csv.writeField true (String.ofList (Nat.toDigits 10 n)) = Nat.toDigits 10 n := by
    have hplain : (Nat.toDigits 10 n).any Csv.special = false := by
      rw [List.any_eq_false]
      exact fun c hc => by simp [special_digit hc]
    have hne : String.ofList (Nat.toDigits 10 n) ≠ "" := fun h => by simpa using congrArg String.toList h
    simp [Csv.writeField,hplain,hne]
  unfold toCsv countReport
  simp only [Option.toList_none,List.nil_append,List.map_cons,List.map_nil,htext,List.append_nil]
  rw [Csv.write,List.flatMap_cons,List.flatMap_cons,List.flatMap_nil,List.append_nil]
  have hrow : Csv.writeRow [String.ofList (Nat.toDigits 10 n)] = Nat.toDigits 10 n++['\r','\n'] := by
    change Csv.writeField true _++_ = _
    rw [hfield]
  rw [hrow]
  rfl

theorem toCsv_countReport_inj {m n : ℕ} (h : toCsv S (countReport m) = toCsv S (countReport n)) : m = n := by
  rw [toCsv_countReport,toCsv_countReport,String.ofList_inj,List.append_cancel_left_eq,List.append_cancel_right_eq] at h
  rw [← @Nat.ofDigitChars_ten_toDigits m,h,Nat.ofDigitChars_ten_toDigits]

/-- The report without parameters counts the rows. -/
theorem build_blank (hnames : ∀ f ∈ mt.fields, f.physName ≠ "") (hup : ∃ m, buildMeta S none D (tableColumns mt none) = .ok m)
    (base : List Filter) : (build S mt none [] base D).map (fun r => toCsv S r.result) =
      .ok (toCsv S (countReport ((D mt).rows.filter (applyFilters S.engine.toSql (S.shape mt).columns base)).length)) := by
  obtain ⟨m,hm⟩ := hup
  have hgroup : byCol (tableColumns mt none) "" = none := by
    refine List.find?_eq_none.mpr fun c hc => ?_
    obtain ⟨f,hf,rfl⟩ := List.mem_map.mp hc
    simpa using hnames f (List.mem_of_mem_filter hf)
  have hq : parse (tableColumns mt none) m.filterMeta [] = ⟨none,[countMetric],[],[]⟩ := by
    unfold parse
    rw [Args.get,List.lookup_nil,Option.getD_none,hgroup]
    rfl
  unfold build
  simp only [Option.filter_none,Option.map_none,hm]
  change Except.ok (toCsv S (run S mt _ (parse (tableColumns mt none) m.filterMeta []).groupCol _ _ _ D)) = _
  simp only [hq,List.append_nil]
  rfl

end Digests

/-! ### A salary in the trash -/

def archive : MetaTable := { staff with softDelete := true }

def archiveSite : Site :=
  { staffSite with
    shape := fun _ =>
      { columns := ["id","salary","deleted_at"]
        pk := "id"
        key := id
        holds := fun _ _ => True
        pk_mem := by decide
        spread := fun _ _ => ⟨.int 0,.int 1,trivial,trivial,by decide,by decide⟩ } }

def archiveDesk : Desk :=
  { archiveSite with
    groupKey := id
    aggregate := payDesk.aggregate
    resultType := fun _ => none
    displayIds := fun _ => []
    usernames := []
    companyNames := []
    parseQsl := QueryString.parseQsl fun _ => "" }

def deleted : Row := Row.write (fun _ => .null) [("id",.int 1),("salary",.int 3),("deleted_at",.text "2026-01-01")]

def trash : Database archiveDesk.toSite := fun _ =>
  { rows := [deleted]
    storable := by
      refine List.forall_mem_singleton.mpr ⟨fun _ _ => trivial,fun column hcolumn => ?_⟩
      have hnot : column ∉ ["id","salary","deleted_at"] := hcolumn
      simp only [List.mem_cons,List.not_mem_nil,or_false,not_or,← beq_eq_false_iff_ne] at hnot
      simp only [deleted,Row.write,List.lookup_cons,hnot,List.lookup_nil,Option.getD_none]
    keys := List.nodup_singleton _ }

/-- The parameters that ask for the rows without a salary. -/
def unpaid : Args := [("metric","count"),("fcol","salary"),("fop","empty"),("fval","")]

def salaryMeta : List (String × FilterMeta) := [("salary",⟨"Salary",.number,.integer,opsByKind .number,none⟩)]

theorem saved_replay_unpaid : parse (tableColumns archive none) salaryMeta (archiveDesk.parseQsl (reportQuery unpaid)) ≠
    parse (tableColumns archive none) salaryMeta unpaid := by
  have hform : Formed salaryMeta unpaid :=
    { group := by decide
      offered := .cons ⟨by decide,_,.empty,rfl,by decide⟩ .nil
      values := rfl }
  intro hsame
  have hgiven := (saved_replay archiveDesk (fun _ => "") rfl (tableColumns archive none) salaryMeta unpaid hform).2.mp hsame
  exact hgiven "" (by decide) rfl

end Reports
end Biggy
