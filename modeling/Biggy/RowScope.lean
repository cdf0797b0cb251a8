import Biggy.RecordService
import Biggy.Companies
import Biggy.Paging

/-!
# The rows a user may see

The same policy is written twice: as filters of the list query and as a predicate on one row.
`scopesAgree_iff` says when the two let the same rows through.
-/
namespace Biggy
namespace RowScope

open Companies RecordService

/-! ### Filters -/

/-- The operators of `build_clause`. -/
inductive Op
  | contains | notContains | startsWith | endsWith | eq | ne | gt | gte | lt | lte | isTrue | isFalse
  | empty | notEmpty
  deriving DecidableEq

/-- `NO_VALUE_OPS`. -/
def Op.valueless : Op → Bool
  | .empty | .notEmpty | .isTrue | .isFalse => true
  | _ => false

/-- What a condition asks of a column; `in` comes from the program only. -/
inductive Test
  | compare (op : Op) (value : Value)
  | isIn (values : List Value)

structure Condition where
  col : String
  test : Test
  isText : Bool := false

/-- One filter of a list: a condition or a group of alternatives. -/
inductive Filter
  | one (c : Condition)
  | any (cs : List Condition)

/-- How the database compares two values that are not NULL. -/
structure Sql where
  test : Op → Value → Value → Bool
  eq_int : ∀ a b : ℤ, test .eq (.int a) (.int b) = decide (a = b)

section Filters

variable (sql : Sql) (columns : List String)

/-- `build_clause`; a comparison with NULL selects nothing. -/
def buildClause (isText : Bool) : Test → Value → Bool
  | .isIn values, v => v ≠ .null && values.any (sql.test .eq v)
  | .compare .empty _, v => v = .null || isText && v = .text ""
  | .compare .notEmpty _, v => v ≠ .null && !(isText && v = .text "")
  | .compare .isTrue _, v => v ≠ .null && sql.test .eq v (.bool true)
  | .compare .isFalse _, v => v ≠ .null && sql.test .eq v (.bool false)
  | .compare op value, v => v ≠ .null && sql.test op v value

/-- `_clause_for`: a condition on an unknown column or on a blank value is left out. -/
def clauseFor (c : Condition) : Option (Row → Bool) :=
  if c.col ∉ columns then none
  else
    match c.test with
    | .compare op value =>
      if ¬op.valueless ∧ value.blank then none
      else some fun row => buildClause sql c.isText (.compare op value) (row c.col)
    | .isIn values => some fun row => buildClause sql c.isText (.isIn values) (row c.col)

/-- A condition that is left out lets every row through. -/
def passes (c : Condition) (row : Row) : Bool := (clauseFor sql columns c).elim true (· row)

/-- What one filter lets through; a group without a clause is left out. -/
def passesFilter (row : Row) : Filter → Bool
  | .one c => passes sql columns c row
  | .any cs =>
    let clauses := cs.filterMap (clauseFor sql columns)
    clauses.isEmpty || clauses.any (· row)

/-- `_apply_filters`. -/
def applyFilters (filters : List Filter) (row : Row) : Bool := filters.all (passesFilter sql columns row)

end Filters

/-- The order of a list and the page that is asked for; `perPage := none` asks for all rows. -/
structure ListArgs where
  arrange : List Row → List Row
  perm : ∀ rows, (arrange rows).Perm rows
  page : ℤ := 1
  perPage : Option ℕ := none

/-- `data_service.list_rows`. -/
def listRows (sql : Sql) (t : Physical) (filters : List Filter) (args : ListArgs) : List Row × ℕ :=
  let matching := t.rows.filter (applyFilters sql t.columns filters)
  let base := args.arrange matching
  (match args.perPage with
    | none => base
    | some n => Paging.page n (max 1 args.page).toNat base,
   matching.length)

/-! ### The two policies -/

/-- Who asks: the user id that came with the request and whether it is a designer's. -/
structure Caller where
  userId : Option ℕ
  isDesigner : Bool

section Policy

variable (accounts : List Account) (companies : List Company) (mt : MetaTable) (caller : Caller)

/-- `_company_scope`: the company column and the companies that the caller may see. -/
def companyScope : Option (String × Finset ℕ) :=
  if caller.isDesigner || noId caller.userId then none
  else
    match mt.fields.find? fun f => decide (f.dataType = .company) with
    | none => none
    | some cf => (allowedForUser accounts companies caller.userId).map fun allowed => (cf.physName,allowed)

/-- The condition on the trash. -/
def trashCondition (includeDeleted : Bool) : Condition :=
  ⟨"deleted_at",.compare (if includeDeleted then .notEmpty else .empty) .null,false⟩

def ownerCondition : Condition := ⟨"created_by",.compare .eq (userValue caller.userId),false⟩

def companyCondition (scope : String × Finset ℕ) : Condition :=
  ⟨scope.1,.isIn ((scope.2.sort (· ≤ ·)).map fun id : ℕ => .int id),false⟩

/-- `_scope_filters`. -/
def scopeFilters (includeDeleted : Bool) : List Filter :=
  (if mt.softDelete then [.one (trashCondition includeDeleted)] else []) ++
    (if mt.rowOwned && !caller.isDesigner then [.one (ownerCondition caller)] else []) ++
    (companyScope accounts companies mt caller).toList.map fun scope => .one (companyCondition scope)

/-- `list_records`. -/
def listRecords (sql : Sql) (data : Physical) (includeDeleted : Bool) (filters : List Filter) (args : ListArgs) :
    List Row × ℕ :=
  listRows sql data (filters ++ scopeFilters accounts companies mt caller includeDeleted) args

/-- `row.get(column) in allowed`. -/
def inCompanies (allowed : Finset ℕ) : Value → Bool
  | .int id => decide (0 ≤ id ∧ id.toNat ∈ allowed)
  | _ => false

/-- `row_readable` of a row that exists. -/
def rowReadable (allowDeleted : Bool) (scope : Option (String × Finset ℕ)) (row : Row) : Bool :=
  if mt.softDelete && !allowDeleted && row "deleted_at" ≠ .null then false
  else if mt.rowOwned && !caller.isDesigner && row "created_by" ≠ userValue caller.userId then false
  else
    match scope with
    | none => true
    | some (column,allowed) => inCompanies allowed (row column)

/-- `get_record`. -/
def getRecord (data : Physical) (pk : Value) (allowDeleted : Bool) : Option Row :=
  match data.getRow pk with
  | none => none
  | some row =>
    if rowReadable mt caller allowDeleted (companyScope accounts companies mt caller) row then some row else none

end Policy

/-- A table with its stored rows: the columns of ids hold ids, what is no column is absent, and
the key column holds keys of its own type, each once. -/
structure Stored (mt : MetaTable) where
  data : Physical
  owners : mt.rowOwned = true → ∀ row ∈ data.rows, row "created_by" = .null ∨ ∃ id : ℤ, row "created_by" = .int id
  companies : ∀ f ∈ mt.fields, f.dataType = .company →
    ∀ row ∈ data.rows, row f.physName = .null ∨ ∃ id : ℤ, row f.physName = .int id
  absent : ∀ row ∈ data.rows, ∀ column, column ∉ data.columns → row column = .null
  keys : (data.rows.map data.keyOf).Nodup
  own : ∀ row ∈ data.rows, data.key (data.keyOf row) = data.keyOf row

/-! ### Agreement -/

section Agreement

variable (sql : Sql) (accounts : List Account) (companies : List Company) {mt : MetaTable} (caller : Caller)
  (t : Stored mt)

/-- The list shows exactly the rows that `get_record` returns, on the pages of any size together. -/
def ScopesAgree : Prop := ∀ (args : ListArgs) (row : Row), args.perPage ≠ some 0 →
  ((∃ page : ℤ, row ∈ (listRecords accounts companies mt caller sql t.data false [] { args with page := page }).1) ↔
    ∃ pk, getRecord accounts companies mt caller t.data pk false = some row)

/-- A row that is not in the trash. -/
def live (mt : MetaTable) (row : Row) : Bool := !mt.softDelete || row "deleted_at" = .null

/-- Only the caller's own rows are asked for. -/
def owned (mt : MetaTable) (caller : Caller) : Bool := mt.rowOwned && !caller.isDesigner

/-- The filter on the owner is left out. -/
def ownerDropped : Bool := owned mt caller && (caller.userId.isNone || !t.data.columns.contains "created_by")

def companyDropped : Bool :=
  (companyScope accounts companies mt caller).any fun scope => !t.data.columns.contains scope.1

def ownerOk (mt : MetaTable) (caller : Caller) (row : Row) : Bool :=
  !owned mt caller || row "created_by" = userValue caller.userId

def companyOk (mt : MetaTable) (row : Row) : Bool :=
  (companyScope accounts companies mt caller).all fun scope => inCompanies scope.2 (row scope.1)

/-- No row comes in through a filter that is left out. -/
structure Closed : Prop where
  owner : ownerDropped caller t = true → ∀ row ∈ t.data.rows, live mt row = true →
    (companyDropped accounts companies caller t = true ∨ companyOk accounts companies caller mt row = true) →
    row "created_by" = userValue caller.userId
  company : companyDropped accounts companies caller t = true → ∀ row ∈ t.data.rows, live mt row = true →
    ownerDropped caller t = false ∧ ownerOk mt caller row = false

variable {sql accounts companies caller t}

theorem rowReadable_eq (row : Row) : rowReadable mt caller false (companyScope accounts companies mt caller) row =
    (live mt row && ownerOk mt caller row && companyOk accounts companies caller mt row) := by
  simp only [rowReadable,live,ownerOk,owned,companyOk]
  cases mt.softDelete <;> cases mt.rowOwned <;> cases caller.isDesigner <;>
    cases companyScope accounts companies mt caller <;> by_cases hd : row "deleted_at" = .null <;>
    by_cases ho : row "created_by" = userValue caller.userId <;> simp [hd,ho]

theorem passes_trash {row : Row} (hrow : row ∈ t.data.rows) :
    passes sql t.data.columns (trashCondition false) row = decide (row "deleted_at" = .null) := by
  by_cases hcolumn : "deleted_at" ∈ t.data.columns
  · simp [passes,clauseFor,trashCondition,hcolumn,Op.valueless,buildClause]
  · simp [passes,clauseFor,trashCondition,hcolumn,t.absent row hrow _ hcolumn]

theorem passes_owner {row : Row} (hrow : row ∈ t.data.rows) (howned : owned mt caller = true) :
    passes sql t.data.columns (ownerCondition caller) row =
      (ownerDropped caller t || decide (row "created_by" = userValue caller.userId)) := by
  have hstored := t.owners (by simp [owned] at howned; exact howned.1) row hrow
  cases huser : caller.userId with
  | none => simp [passes,clauseFor,ownerCondition,huser,userValue,Op.valueless,ownerDropped,howned]
  | some id =>
    by_cases hcolumn : "created_by" ∈ t.data.columns
    · rcases hstored with hnull | ⟨n,hn⟩
      · simp [passes,clauseFor,ownerCondition,huser,userValue,Op.valueless,ownerDropped,hcolumn,Value.blank,buildClause,hnull]
      · simp [passes,clauseFor,ownerCondition,huser,userValue,Op.valueless,ownerDropped,hcolumn,Value.blank,buildClause,hn,
          sql.eq_int]
    · simp [passes,clauseFor,ownerCondition,huser,ownerDropped,howned,hcolumn]

theorem any_sort (allowed : Finset ℕ) (id : ℤ) :
    ((allowed.sort (· ≤ ·)).map fun n : ℕ => Value.int n).any (sql.test .eq (.int id)) = inCompanies allowed (.int id) := by
  rw [Bool.eq_iff_iff]
  simp only [List.any_map,List.any_eq_true,Finset.mem_sort,Function.comp_apply,sql.eq_int,decide_eq_true_eq,inCompanies]
  constructor
  · rintro ⟨n,hn,rfl⟩
    exact ⟨by omega,by simpa using hn⟩
  · rintro ⟨hpos,hn⟩
    exact ⟨id.toNat,hn,by omega⟩

theorem companyScope_column {scope : String × Finset ℕ} (h : companyScope accounts companies mt caller = some scope) :
    ∃ f ∈ mt.fields, f.dataType = .company ∧ f.physName = scope.1 := by
  simp only [companyScope] at h
  split at h
  · cases h
  · split at h
    · cases h
    · rename_i f hf
      obtain ⟨allowed,-,rfl⟩ := Option.map_eq_some_iff.mp h
      exact ⟨f,List.mem_of_find?_eq_some hf,by simpa using List.find?_some hf,rfl⟩

theorem passes_company {row : Row} (hrow : row ∈ t.data.rows) {scope : String × Finset ℕ}
    (hscope : companyScope accounts companies mt caller = some scope) :
    passes sql t.data.columns (companyCondition scope) row =
      (companyDropped accounts companies caller t || companyOk accounts companies caller mt row) := by
  obtain ⟨f,hf,htype,hname⟩ := companyScope_column hscope
  by_cases hcolumn : scope.1 ∈ t.data.columns
  · rcases t.companies f hf htype row hrow with hnull | ⟨id,hid⟩
    · rw [hname] at hnull
      simp [passes,clauseFor,companyCondition,hcolumn,buildClause,companyDropped,companyOk,hscope,hnull,inCompanies]
    · rw [hname] at hid
      simp only [passes,clauseFor,companyCondition,hcolumn,not_true_eq_false,if_false,Option.elim_some,buildClause,hid,
        companyDropped,companyOk,hscope,Option.any_some,Option.all_some,any_sort]
      simp [hcolumn]
  · simp [passes,clauseFor,companyCondition,hcolumn,companyDropped,hscope]

/-- What the filters of the list let through. -/
theorem applyFilters_eq {row : Row} (hrow : row ∈ t.data.rows) :
    applyFilters sql t.data.columns (scopeFilters accounts companies mt caller false) row =
      (live mt row && (ownerDropped caller t || ownerOk mt caller row) &&
        (companyDropped accounts companies caller t || companyOk accounts companies caller mt row)) := by
  have htrash : applyFilters sql t.data.columns (if mt.softDelete then [.one (trashCondition false)] else []) row =
      live mt row := by
    cases hsoft : mt.softDelete with
    | false => simp [applyFilters,live,hsoft]
    | true => simp [applyFilters,passesFilter,live,hsoft,passes_trash hrow]
  have howner : applyFilters sql t.data.columns
      (if mt.rowOwned && !caller.isDesigner then [.one (ownerCondition caller)] else []) row =
        (ownerDropped caller t || ownerOk mt caller row) := by
    cases howned : owned mt caller with
    | false =>
      rw [owned] at howned
      simp [applyFilters,howned,ownerOk,owned]
    | true =>
      have hfilter := howned
      rw [owned] at hfilter
      simp [applyFilters,passesFilter,hfilter,passes_owner hrow howned,ownerOk,howned]
  have hcompany : applyFilters sql t.data.columns ((companyScope accounts companies mt caller).toList.map
      fun scope => .one (companyCondition scope)) row =
        (companyDropped accounts companies caller t || companyOk accounts companies caller mt row) := by
    cases hscope : companyScope accounts companies mt caller with
    | none => simp [applyFilters,companyOk,hscope]
    | some scope => simp [applyFilters,passesFilter,passes_company hrow hscope]
  rw [← htrash,← howner,← hcompany]
  simp only [applyFilters,scopeFilters,List.all_append]

theorem mem_listRecords (args : ListArgs) (hsize : args.perPage ≠ some 0) (row : Row) :
    (∃ page : ℤ, row ∈ (listRecords accounts companies mt caller sql t.data false [] { args with page := page }).1) ↔
      row ∈ t.data.rows ∧ applyFilters sql t.data.columns (scopeFilters accounts companies mt caller false) row = true := by
  rw [← List.mem_filter,← (args.perm _).mem_iff]
  simp only [listRecords,listRows,List.nil_append]
  cases hper : args.perPage with
  | none => simp
  | some n =>
    have hn : 1 ≤ n := by
      rw [hper] at hsize
      simp only [ne_eq,Option.some.injEq] at hsize
      omega
    constructor
    · rintro ⟨page,hrow⟩
      exact Paging.mem_of_mem_page hrow
    · intro hrow
      obtain ⟨p,hp,hpage⟩ := Paging.exists_mem_page hn hrow
      refine ⟨p,?_⟩
      have hnat : (max 1 (p:ℤ)).toNat = p := by omega
      rwa [hnat]

theorem getRecord_eq_some (row : Row) : (∃ pk, getRecord accounts companies mt caller t.data pk false = some row) ↔
    row ∈ t.data.rows ∧ rowReadable mt caller false (companyScope accounts companies mt caller) row = true := by
  constructor
  · rintro ⟨pk,hpk⟩
    simp only [getRecord] at hpk
    split at hpk
    · cases hpk
    · rename_i stored hstored
      split at hpk
      · rename_i hreadable
        obtain rfl := Option.some.inj hpk
        exact ⟨Keyed.mem_of_find hstored,hreadable⟩
      · cases hpk
  · rintro ⟨hrow,hreadable⟩
    have hfind : t.data.getRow (t.data.keyOf row) = some row := by
      rw [Physical.getRow,t.own row hrow]
      exact Keyed.find_of_mem t.keys hrow
    exact ⟨t.data.keyOf row,by simp [getRecord,hfind,hreadable]⟩

theorem owned_of_dropped (h : ownerDropped caller t = true) : owned mt caller = true := by
  simp only [ownerDropped,Bool.and_eq_true] at h
  exact h.1

/-- A missing company column lets no row be one of an allowed company. -/
theorem companyOk_of_dropped (h : companyDropped accounts companies caller t = true) {row : Row}
    (hrow : row ∈ t.data.rows) : companyOk accounts companies caller mt row = false := by
  simp only [companyDropped] at h
  cases hscope : companyScope accounts companies mt caller with
  | none => simp [hscope] at h
  | some scope =>
    have hcolumn : scope.1 ∉ t.data.columns := by simpa [hscope] using h
    simp [companyOk,hscope,t.absent row hrow _ hcolumn,inCompanies]

/-- The list and the single record agree exactly when no row comes in through a dropped filter. -/
theorem scopesAgree_iff (sql : Sql) (accounts : List Account) (companies : List Company) {mt : MetaTable}
    (caller : Caller) (t : Stored mt) :
    ScopesAgree sql accounts companies caller t ↔ Closed accounts companies caller t := by
  have hrows : ScopesAgree sql accounts companies caller t ↔ ∀ row ∈ t.data.rows,
      ((live mt row && (ownerDropped caller t || ownerOk mt caller row) &&
        (companyDropped accounts companies caller t || companyOk accounts companies caller mt row)) = true ↔
      (live mt row && ownerOk mt caller row && companyOk accounts companies caller mt row) = true) := by
    constructor
    · intro h row hrow
      have hagree := h ⟨id,fun rows => List.Perm.refl rows,1,none⟩ row (by simp)
      rw [mem_listRecords _ (by simp),getRecord_eq_some,applyFilters_eq hrow,rowReadable_eq] at hagree
      simpa [hrow] using hagree
    · intro h args row hsize
      rw [mem_listRecords args hsize,getRecord_eq_some]
      refine and_congr_right fun hrow => ?_
      rw [applyFilters_eq hrow,rowReadable_eq]
      exact h row hrow
  rw [hrows]
  constructor
  · intro h
    constructor
    · intro howner row hrow hlive hcompany
      have hreadable := (h row hrow).mp (by simp [hlive,howner,hcompany])
      simp only [hlive,ownerOk,owned_of_dropped howner,Bool.and_eq_true] at hreadable
      simpa using hreadable.1
    · intro hdropped row hrow hlive
      have hlisted := (not_congr (h row hrow)).mpr (by simp [companyOk_of_dropped hdropped hrow])
      simpa [hlive,hdropped] using hlisted
  · intro h row hrow
    constructor
    · intro hlisted
      simp only [Bool.and_eq_true,Bool.or_eq_true] at hlisted ⊢
      obtain ⟨⟨hlive,howner⟩,hcompany⟩ := hlisted
      have hown : ownerOk mt caller row = true := by
        rcases howner with hdropped | hown
        · simp [ownerOk,h.owner hdropped row hrow hlive hcompany]
        · exact hown
      refine ⟨⟨hlive,hown⟩,hcompany.resolve_left fun hdropped => ?_⟩
      rw [(h.company hdropped row hrow hlive).2] at hown
      cases hown
    · intro hreadable
      simp only [Bool.and_eq_true,Bool.or_eq_true] at hreadable ⊢
      exact ⟨⟨hreadable.1.1,Or.inr hreadable.1.2⟩,Or.inr hreadable.2⟩

end Agreement

/-! ### A list without a user -/

def plainSql : Sql where
  test op a b := decide (op = .eq ∧ a = b)
  eq_int a b := by simp

/-- Notes that belong to their writers. -/
def notes : MetaTable where
  id := 1
  physName := "notes"
  label := "Notes"
  fields := []
  rowOwned := true
  idsNodup := List.nodup_nil
  namesNodup := List.nodup_nil
  namesFree := unmanaged_fields

/-- A note of the user 1. -/
def note : Row := Row.write (fun _ => .null) [("id",.int 1),("created_by",.int 1)]

def storedNotes : Stored notes where
  data := ⟨["id","created_by"],"id",[note],id,fun _ => true⟩
  owners _ row hrow := by
    obtain rfl := List.mem_singleton.mp hrow
    exact Or.inr ⟨1,rfl⟩
  companies f hf := by cases hf
  absent row hrow column hcolumn := by
    obtain rfl := List.mem_singleton.mp hrow
    simp only [List.mem_cons,List.not_mem_nil,or_false,not_or] at hcolumn
    have hid : (column == "id") = false := by simpa using hcolumn.1
    have howner : (column == "created_by") = false := by simpa using hcolumn.2
    simp [note,Row.write,List.lookup_cons,hid,howner]
  keys := by simp
  own _ _ := rfl

/-- Without a user id the list shows a note that nobody without one may open. -/
theorem list_opened : ¬ScopesAgree plainSql [] [] ⟨none,false⟩ storedNotes := by
  intro h
  have hagree := h ⟨id,fun rows => List.Perm.refl rows,1,none⟩ note (by simp)
  rw [mem_listRecords _ (by simp),getRecord_eq_some] at hagree
  have hlisted : note ∈ storedNotes.data.rows ∧ applyFilters plainSql storedNotes.data.columns
      (scopeFilters [] [] notes ⟨none,false⟩ false) note = true := ⟨List.mem_singleton_self note,by decide⟩
  have hreadable := (hagree.mp hlisted).2
  revert hreadable
  decide

end RowScope
end Biggy
