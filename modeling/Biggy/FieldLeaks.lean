import Biggy.Access
import Biggy.Coerce
import Biggy.Listing

/-!
# What lists and searches tell about a column

The API hides the columns that a user may not read, after any column has filtered and sorted the list; the global search
looks into every text column and shows where it found the text. `same_iff` says which requests answer the same on any two
databases that differ in one column only.
-/
namespace Biggy
namespace FieldLeaks

open Companies RowScope Access

/-- The comparisons of the database, in filters and in an ORDER BY. -/
structure Engine extends Sql where
  le : Value → Value → Bool

/-- A physical table without its rows: `holds` says what a column's type can hold, which is never one value only. -/
structure Shape (E : Engine) where
  columns : List String
  pk : String
  key : Value → Value
  holds : String → Value → Prop
  pk_mem : pk ∈ columns
  spread : ∀ column ∈ columns, ∃ lo hi, holds column lo ∧ holds column hi ∧ E.le lo hi = true ∧ E.le hi lo = false

structure Site where
  session : Session
  engine : Engine
  lib : CoerceLib
  tables : List MetaTable
  shape : MetaTable → Shape engine
  displayField : MetaTable → Option MetaField
  json : Value → Json

section Tables

variable {E : Engine} (sh : Shape E)

/-- A row that the table can store. -/
structure Storable (row : Row) : Prop where
  typed : ∀ column ∈ sh.columns, sh.holds column (row column)
  absent : ∀ column, column ∉ sh.columns → row column = .null

/-- The rows of a table, under different keys. -/
structure Content where
  rows : List Row
  storable : ∀ row ∈ rows, Storable sh row
  keys : (rows.map fun row => row sh.pk).Nodup

def Content.physical {sh : Shape E} (content : Content sh) : Physical := ⟨sh.columns,sh.pk,content.rows,sh.key,fun _ => true⟩

/-- The order that `list_rows` asks for: by a column of the table, or else by the key. -/
def sortColumn (sort : Option String) (order : String) : String × Bool :=
  match sort with
  | none => (sh.pk,false)
  | some column => if column ≠ "" ∧ column ∈ sh.columns then (column,order == "desc") else (sh.pk,false)

/-- Whether a row may come before another in that order. -/
def before (how : String × Bool) (a b : Row) : Bool := if how.2 then E.le (b how.1) (a how.1) else E.le (a how.1) (b how.1)

def listArgs (how : String × Bool) (page : ℤ) (perPage : ℕ) : ListArgs where
  arrange rows := rows.insertionSort fun a b => before (E := E) how a b = true
  perm rows := List.perm_insertionSort _ rows
  page := page
  perPage := some perPage

end Tables

section Requests

variable (S : Site) (user : User)

/-- A database: the rows of every table. -/
abbrev Database := ∀ t : MetaTable, Content (S.shape t)

/-- `record_service.list_records` for the user. -/
def listRecords (mt : MetaTable) (D : Database S) (filters : List Filter) (how : String × Bool) (page : ℤ) (perPage : ℕ) :
    List Row × ℕ :=
  RowScope.listRecords S.session.accounts S.session.companies mt (ctx user) S.engine.toSql (D mt).physical false filters
    (listArgs (E := S.engine) how page perPage)

/-- Whether the filters and the scope select a row. -/
def selected (mt : MetaTable) (filters : List Filter) (row : Row) : Bool :=
  applyFilters S.engine.toSql (S.shape mt).columns
    (filters ++ scopeFilters S.session.accounts S.session.companies mt (ctx user) false) row

/-! ### The list of the API -/

/-- The filters of a request, its order and its page; what is asked for by another name is left aside. -/
structure ListRequest where
  filters : List (String × String)
  sort : Option String
  order : String

inductive ApiResponse
  | error (status : ℕ) (message : String)
  | rows (data : List (List (String × Json))) (page : ℤ) (perPage : ℕ) (total : ℕ)

/-- `serialize_row` without the hidden columns. -/
def serializeRow (columns hide : List String) (row : Row) : List (String × Json) :=
  (columns.filter fun column => decide (column ∉ hide)).map fun column => (column,S.json (row column))

/-- `_hidden`. -/
def hidden (mt : MetaTable) : List String :=
  (mt.fields.map MetaField.physName).filter fun name =>
    decide (name ∉ (readableFields S.session user mt).map MetaField.physName)

def requestFilters (request : ListRequest) : List Filter :=
  request.filters.map fun p => .one ⟨p.1,.compare .eq (.text p.2),false⟩

/-- One page of the list. -/
def listPage (mt : MetaTable) (request : ListRequest) (page : ℤ) (perPage : ℕ) (D : Database S) : ApiResponse :=
  if !tableReadable S.session user mt then .error 403 "No read access to this table."
  else
    let found := listRecords S user mt D (requestFilters request)
      (sortColumn (S.shape mt) request.sort request.order) page perPage
    .rows (found.1.map (serializeRow S (S.shape mt).columns (hidden S user mt))) page perPage found.2

/-- The request that the parameters of the address make. -/
def parseArgs (mt : MetaTable) (args : List (String × String)) : ListRequest where
  filters := args.filter fun p => decide (p.1 ∈ mt.fields.map MetaField.physName)
  sort := args.lookup "sort"
  order := (args.lookup "order").getD "asc"

/-- `list_rows` of the API. -/
def listRows (mt : MetaTable) (args : List (String × String)) (D : Database S) : ApiResponse :=
  if !tableReadable S.session user mt then .error 403 "No read access to this table."
  else
    match S.lib.int ((args.lookup "page").getD "1"), S.lib.int ((args.lookup "per_page").getD "50") with
    | some page, some perPage =>
      listPage S user mt (parseArgs mt args) (max 1 page) (min 200 (max 1 perPage)).toNat D
    | _, _ => .error 400 "page and per_page must be integers."

/-! ### The global search -/

def isTextSearch (t : DataType) : Bool :=
  t ∈ [DataType.string,.text,.markdown,.enum,.email,.url,.phone,.json,.tags,.autonumber,.formula]

def textFields (mt : MetaTable) : List MetaField := mt.fields.filter fun f => isTextSearch f.dataType

/-- `display_field_name`. -/
def displayFieldName (mt : MetaTable) : String :=
  match S.displayField mt with
  | some f => f.physName
  | none => ((mt.fields.find? fun f => decide (f.dataType ∈ [DataType.string,.text,.markdown])).map
    MetaField.physName).getD "id"

/-- `_q_filter`. -/
def qFilter (mt : MetaTable) (q : String) : Filter :=
  .any ((if textFields mt = [] then [displayFieldName S mt] else (textFields mt).map MetaField.physName).map
    fun column => ⟨column,.compare .contains (.text q),true⟩)

/-- `str.find`, of a text that occurs. -/
def findIn (sub : List Char) : List Char → Option ℕ
  | [] => if sub = [] then some 0 else none
  | c::cs => if sub.isPrefixOf (c::cs) then some 0 else (findIn sub cs).map (· + 1)

structure Snippet where
  label : String
  start : String
  found : String
  rest : String
  deriving DecidableEq

/-- `_match_snippet`: the display field is looked at first. -/
def matchSnippet (mt : MetaTable) (row : Row) (q : String) : Option Snippet :=
  let shown := (textFields mt).partition fun f => decide (f.physName = displayFieldName S mt)
  (shown.1 ++ shown.2).findSome? fun f =>
    let s := (if row f.physName = .null then "" else S.lib.str (row f.physName)).toList
    (findIn (S.lib.lowercase q).toList (S.lib.lowercase (String.ofList s)).toList).map fun i =>
      let start := i - 40
      let stop := min s.length (i + q.length + 40)
      { label := f.label
        start := (if start ≠ 0 then "…" else "") ++ String.ofList ((s.drop start).take (i - start))
        found := String.ofList ((s.drop i).take q.length)
        rest := String.ofList ((s.drop (i + q.length)).take (stop - (i + q.length))) ++
          if stop < s.length then "…" else "" }

structure Hit where
  pk : Value
  label : String
  snippet : Option Snippet

structure Group where
  tableId : ℕ
  label : String
  hits : List Hit
  total : ℕ
  listForm : Option ℕ

def hit (mt : MetaTable) (q : String) (row : Row) : Hit where
  pk := row mt.pkCol
  label := if (row (displayFieldName S mt)).blank then "#" ++ S.lib.str (row mt.pkCol)
    else S.lib.str (row (displayFieldName S mt))
  snippet := matchSnippet S mt row q

/-- `_first_readable_form`. -/
def firstReadableForm (mt : MetaTable) : Option ℕ :=
  ((formsOf S.session mt).find? fun f => f.purpose ≠ .view && canRead (formAccess S.session user f.id)).map MetaForm.id

/-- What the search finds in one table. -/
def searchTable (q : String) (D : Database S) (mt : MetaTable) : Option Group :=
  if !canView S.session user mt then none
  else
    let found := listRecords S user mt D [qFilter S mt q] ((S.shape mt).pk,false) 1 10
    if found.1.isEmpty then none
    else some ⟨mt.id,mt.label,found.1.map (hit S mt q),found.2,firstReadableForm S user mt⟩

/-- `search`. -/
def search (q : String) (D : Database S) : List Group :=
  if strip q = "" then [] else S.tables.filterMap (searchTable S user (strip q) D)

/-! ### Two databases -/

/-- Two rows that differ in one column at most. -/
def AgreeBut (c : String) (a b : Row) : Prop := ∀ column, column ≠ c → a column = b column

/-- Two databases that differ in the values of one column at most. -/
def DifferIn (mt : MetaTable) (c : String) (D D' : Database S) : Prop :=
  (∀ t, t ≠ mt → D t = D' t) ∧ List.Forall₂ (AgreeBut c) (D mt).rows (D' mt).rows

inductive Request
  | list (request : ListRequest)
  | search (q : String)

/-- The request has the same answer on all such databases, on every page. -/
def Same (mt : MetaTable) (c : String) : Request → Prop
  | .list request => ∀ D D', DifferIn S mt c D D' → ∀ (page : ℤ) (perPage : ℕ), 1 ≤ perPage →
      listPage S user mt request page perPage D = listPage S user mt request page perPage D'
  | .search q => ∀ D D', DifferIn S mt c D D' → search S user q D = search S user q D'

/-- A listing of a table does not show the column: neither what it selects nor how a selected row looks depends on it, and
when it is ordered by the column, all the rows it may select look the same. -/
structure Blind {ω : Type*} (sh : Shape S.engine) (c : String) (select : Row → Bool) (look : Row → ω) (sorted : String) :
    Prop where
  selects : ∀ a b, Storable sh a → Storable sh b → AgreeBut c a b → select a = select b
  looks : ∀ a b, Storable sh a → Storable sh b → AgreeBut c a b → select a = true → look a = look b
  orders : sorted = c → ∀ a b, Storable sh a → Storable sh b → select a = true → select b = true →
    (c = sh.pk ∨ a sh.pk ≠ b sh.pk) → look a = look b

/-- The listing that answers a request is closed to the user, or does not show the column. -/
def Unaffected (mt : MetaTable) (c : String) : Request → Prop
  | .list request => tableReadable S.session user mt = true →
      Blind S (S.shape mt) c (selected S user mt (requestFilters request))
        (serializeRow S (S.shape mt).columns (hidden S user mt)) (sortColumn (S.shape mt) request.sort request.order).1
  | .search q => strip q ≠ "" → mt ∈ S.tables → canView S.session user mt = true →
      Blind S (S.shape mt) c (selected S user mt [qFilter S mt (strip q)]) (hit S mt (strip q)) (S.shape mt).pk

end Requests

/-! ### One table -/

section Table

variable {S : Site} {sh : Shape S.engine} {c : String} {ω : Type*} {select : Row → Bool} {look : Row → ω}
  {how : String × Bool}

theorem sortColumn_mem (sh : Shape S.engine) (sort : Option String) (order : String) :
    (sortColumn sh sort order).1 ∈ sh.columns := by
  simp only [sortColumn]
  split
  · exact sh.pk_mem
  · split
    · rename_i h
      exact h.2
    · exact sh.pk_mem

/-- Related rows of two contents can be stored. -/
theorem storable_pairs {C C' : Content sh} (h : List.Forall₂ (AgreeBut c) C.rows C'.rows) :
    List.Forall₂ (fun a b => AgreeBut c a b ∧ Storable sh a ∧ Storable sh b) C.rows C'.rows := by
  have hpairs : ∀ {xs ys : List Row}, List.Forall₂ (AgreeBut c) xs ys → (∀ a ∈ xs, Storable sh a) →
      (∀ b ∈ ys, Storable sh b) → List.Forall₂ (fun a b => AgreeBut c a b ∧ Storable sh a ∧ Storable sh b) xs ys := by
    intro xs ys hxy
    induction hxy with
    | nil => exact fun _ _ => .nil
    | cons hab _ ih =>
      intro hx hy
      exact .cons ⟨hab,hx _ List.mem_cons_self,hy _ List.mem_cons_self⟩
        (ih (fun a ha => hx a (List.mem_cons_of_mem _ ha)) fun b hb => hy b (List.mem_cons_of_mem _ hb))
  exact hpairs h C.storable C'.storable

/-- A listing that does not show the column is the same for contents that differ in it. -/
theorem Blind.same (hblind : Blind S sh c select look how.1) {C C' : Content sh}
    (h : List.Forall₂ (AgreeBut c) C.rows C'.rows) (n p : ℕ) :
    Listing.listing select (before (E := S.engine) how) look n p C.rows =
      Listing.listing select (before (E := S.engine) how) look n p C'.rows := by
  have hpairs := storable_pairs h
  have hselect : ∀ a b, AgreeBut c a b ∧ Storable sh a ∧ Storable sh b → select a = select b :=
    fun a b hab => hblind.selects a b hab.2.1 hab.2.2 hab.1
  have hlook : ∀ a b, AgreeBut c a b ∧ Storable sh a ∧ Storable sh b → select a = true → look a = look b :=
    fun a b hab => hblind.looks a b hab.2.1 hab.2.2 hab.1
  by_cases hsorted : how.1 = c
  · have hflat : ∀ C : Content sh, ∀ a ∈ C.rows, ∀ b ∈ C.rows, select a = true → select b = true → look a = look b := by
      intro C a ha b hb hsa hsb
      by_cases hkey : a sh.pk = b sh.pk
      · rw [List.inj_on_of_nodup_map C.keys ha hb hkey]
      · exact hblind.orders hsorted a b (C.storable a ha) (C.storable b hb) hsa hsb (Or.inr hkey)
    exact Listing.listing_flat n p hselect hlook hpairs (hflat C) (hflat C')
  · refine Listing.listing_congr n p hselect (fun a b c' d hab hcd => ?_) hlook hpairs
    simp only [before,hab.1 how.1 hsorted,hcd.1 how.1 hsorted]

def single {row : Row} (h : Storable sh row) : Content sh where
  rows := [row]
  storable r hr := by
    obtain rfl := List.mem_singleton.mp hr
    exact h
  keys := List.nodup_singleton _

def pair {a b : Row} (ha : Storable sh a) (hb : Storable sh b) (hkeys : a sh.pk ≠ b sh.pk) : Content sh where
  rows := [a,b]
  storable r hr := by
    rcases List.mem_pair.mp hr with rfl | rfl
    · exact ha
    · exact hb
  keys := by simpa using hkeys

theorem storable_update {row : Row} (h : Storable sh row) (hc : c ∈ sh.columns) {v : Value} (hv : sh.holds c v) :
    Storable sh (Function.update row c v) := by
  constructor
  · intro column hcolumn
    by_cases heq : column = c
    · subst heq
      rwa [Function.update_self]
    · rw [Function.update_of_ne heq]
      exact h.typed column hcolumn
  · intro column hcolumn
    rw [Function.update_of_ne fun heq : column = c => hcolumn (heq ▸ hc)]
    exact h.absent column hcolumn

theorem agree_update (row : Row) (v w : Value) : AgreeBut c (Function.update row c v) (Function.update row c w) := by
  intro column hne
  rw [Function.update_of_ne hne,Function.update_of_ne hne]

theorem agree_update_left (row : Row) (v : Value) : AgreeBut c (Function.update row c v) row :=
  fun _ hne => Function.update_of_ne hne _ _

/-- A listing that is the same for all contents that differ in the column only does not show it. -/
theorem blind_of_same {n : ℕ} (hn : 1 ≤ n) (hcolumn : how.1 ∈ sh.columns)
    (h : ∀ C C' : Content sh, List.Forall₂ (AgreeBut c) C.rows C'.rows →
      Listing.listing select (before (E := S.engine) how) look n 1 C.rows =
        Listing.listing select (before (E := S.engine) how) look n 1 C'.rows) : Blind S sh c select look how.1 := by
  have hselects : ∀ a b, Storable sh a → Storable sh b → AgreeBut c a b → select a = select b := by
    intro a b ha hb hab
    have hone := h (single ha) (single hb) (.cons hab .nil)
    simp only [single,Listing.listing_single hn] at hone
    cases hsa : select a <;> cases hsb : select b <;> simp [hsa,hsb] at hone ⊢
  have hlooks : ∀ a b, Storable sh a → Storable sh b → AgreeBut c a b → select a = true → look a = look b := by
    intro a b ha hb hab hsa
    have hone := h (single ha) (single hb) (.cons hab .nil)
    simp only [single,Listing.listing_single hn] at hone
    simpa [hsa,← hselects a b ha hb hab] using hone
  refine ⟨hselects,hlooks,?_⟩
  intro hsorted a b ha hb hsa hsb hkeys
  have hc : c ∈ sh.columns := hsorted ▸ hcolumn
  obtain ⟨lo,hi,hlo,hhi,hle,hnot⟩ := sh.spread c hc
  have hvalues : lo ≠ hi := fun heq => by
    rw [heq] at hle hnot
    rw [hle] at hnot
    cases hnot
  -- the two rows with the values of the column one way round and the other
  have hstored : ∀ {row : Row} {v : Value}, Storable sh row → sh.holds c v → Storable sh (Function.update row c v) :=
    fun hrow hv => storable_update hrow hc hv
  have hsel : ∀ {row : Row} {v : Value}, Storable sh row → sh.holds c v → select row = true →
      select (Function.update row c v) = true := fun hrow hv hs =>
    (hselects _ _ (hstored hrow hv) hrow (agree_update_left _ _)).trans hs
  have hsame : ∀ {row : Row} {v : Value}, Storable sh row → sh.holds c v → select row = true →
      look (Function.update row c v) = look row := fun hrow hv hs =>
    hlooks _ _ (hstored hrow hv) hrow (agree_update_left _ _) (hsel hrow hv hs)
  have hkey : ∀ {v w : Value}, v ≠ w → (Function.update a c v) sh.pk ≠ (Function.update b c w) sh.pk := by
    intro v w hvw
    by_cases hpk : c = sh.pk
    · rw [← hpk,Function.update_self,Function.update_self]
      exact hvw
    · rw [Function.update_of_ne (Ne.symm hpk),Function.update_of_ne (Ne.symm hpk)]
      exact hkeys.resolve_left hpk
  have hheads := congrArg (fun r => r.1.head?) (h (pair (hstored ha hlo) (hstored hb hhi) (hkey hvalues))
    (pair (hstored ha hhi) (hstored hb hlo) (hkey hvalues.symm))
    (.cons (agree_update a lo hi) (.cons (agree_update b hi lo) .nil)))
  simp only [pair,Listing.listing_pair hn (hsel ha hlo hsa) (hsel hb hhi hsb),
    Listing.listing_pair hn (hsel ha hhi hsa) (hsel hb hlo hsb),before,hsorted,Function.update_self,hle,hnot,
    hsame ha hlo hsa,hsame ha hhi hsa,hsame hb hlo hsb,hsame hb hhi hsb] at hheads
  cases hdesc : how.2 <;> simp [hdesc] at hheads
  · exact hheads
  · exact hheads.symm

end Table

/-! ### Whole answers -/

section Answers

variable {S : Site} {user : User} {mt : MetaTable} {c : String}

/-- What a list returns is a listing of the rows of its table. -/
theorem listing_records {ω : Type*} (look : Row → ω) (D : Database S) (filters : List Filter) (how : String × Bool) (page : ℤ)
    (perPage : ℕ) : ((listRecords S user mt D filters how page perPage).1.map look,
      (listRecords S user mt D filters how page perPage).2) =
        Listing.listing (selected S user mt filters) (before (E := S.engine) how) look perPage (max 1 page).toNat (D mt).rows :=
  rfl

open Classical in
/-- Databases that differ in the rows of one table. -/
theorem exists_databases (C C' : Content (S.shape mt)) (h : List.Forall₂ (AgreeBut c) C.rows C'.rows) :
    ∃ D D', DifferIn S mt c D D' ∧ D mt = C ∧ D' mt = C' := by
  let none : Database S := fun _ => ⟨[],by simp,List.nodup_nil⟩
  refine ⟨Function.update none mt C,Function.update none mt C',⟨fun t ht => ?_,?_⟩,Function.update_self _ _ _,
    Function.update_self _ _ _⟩
  · rw [Function.update_of_ne ht,Function.update_of_ne ht]
  · rw [Function.update_self,Function.update_self]
    exact h

theorem list_same_iff (request : ListRequest) :
    Same S user mt c (.list request) ↔ Unaffected S user mt c (.list request) := by
  simp only [Same,Unaffected]
  constructor
  · intro h hreadable
    refine blind_of_same (n := 1) Nat.le.refl (sortColumn_mem _ _ _) fun C C' hC => ?_
    obtain ⟨D,D',hD,rfl,rfl⟩ := exists_databases C C' hC
    have hpage := h D D' hD 1 1 Nat.le.refl
    simp only [listPage,hreadable,Bool.not_true,Bool.false_eq_true,if_false,ApiResponse.rows.injEq,true_and] at hpage
    exact Prod.ext hpage.1 hpage.2
  · intro h D D' hD page perPage _
    cases hreadable : tableReadable S.session user mt with
    | false => simp only [listPage,hreadable,Bool.not_false,if_true]
    | true =>
      have hpair := (h hreadable).same hD.2 perPage (max 1 page).toNat
      rw [← listing_records,← listing_records] at hpair
      have hdata := congrArg Prod.fst hpair
      have htotal := congrArg Prod.snd hpair
      simp only at hdata htotal
      simp only [listPage,hreadable,Bool.not_true,Bool.false_eq_true,if_false,hdata,htotal]

/-- Rows that differ in one column pass a condition on another one, or on no value, alike. -/
theorem passes_agree {a b : Row} (h : AgreeBut c a b) {columns : List String} {cond : Condition}
    (hcond : cond.col ≠ c ∨ clauseFor S.engine.toSql columns cond = none) :
    passes S.engine.toSql columns cond a = passes S.engine.toSql columns cond b := by
  rcases hcond with hne | hnone
  · simp only [passes,clauseFor]
    split
    · rfl
    · cases cond.test with
      | isIn values => simp only [Option.elim_some,h cond.col hne]
      | compare op value =>
        dsimp only
        split
        · rfl
        · simp only [Option.elim_some,h cond.col hne]
  · simp only [passes,hnone,Option.elim_none]

/-- A list that neither filters, sorts nor scopes by a hidden column does not show it. -/
theorem list_unaffected {f : MetaField} (hf : f ∈ mt.fields) (hhidden : f.physName ∈ hidden S user mt)
    {request : ListRequest} (hfilters : ∀ p ∈ request.filters, p.1 = f.physName → p.2 = "")
    (hsort : (sortColumn (S.shape mt) request.sort request.order).1 ≠ f.physName)
    (hscope : ∀ sc, companyScope S.session.accounts S.session.companies mt (ctx user) = some sc → sc.1 ≠ f.physName) :
    Unaffected S user mt f.physName (.list request) := by
  have hfree := mt.namesFree f hf
  simp only [managed,List.mem_cons,not_or] at hfree
  have hpass : ∀ a b, AgreeBut f.physName a b → ∀ flt ∈ requestFilters request ++
      scopeFilters S.session.accounts S.session.companies mt (ctx user) false,
        passesFilter S.engine.toSql (S.shape mt).columns a flt = passesFilter S.engine.toSql (S.shape mt).columns b flt := by
    intro a b hab flt hflt
    rcases List.mem_append.mp hflt with hflt | hflt
    · obtain ⟨p,hp,rfl⟩ := List.mem_map.mp hflt
      refine passes_agree hab ?_
      by_cases hname : p.1 = f.physName
      · right
        simp [clauseFor,hfilters p hp hname,Op.valueless]
      · exact Or.inl hname
    · simp only [scopeFilters,List.mem_append] at hflt
      rcases hflt with (hflt | hflt) | hflt
      · split at hflt
        · obtain rfl := List.mem_singleton.mp hflt
          exact passes_agree hab (Or.inl (Ne.symm hfree.2.2.2.2.1))
        · cases hflt
      · split at hflt
        · obtain rfl := List.mem_singleton.mp hflt
          exact passes_agree hab (Or.inl (Ne.symm hfree.1))
        · cases hflt
      · obtain ⟨sc,hsc,rfl⟩ := List.mem_map.mp hflt
        exact passes_agree hab (Or.inl (hscope sc (Option.mem_toList.mp hsc)))
  intro _
  refine ⟨fun a b _ _ hab => ?_,fun a b _ _ hab _ => ?_,fun hsorted => absurd hsorted hsort⟩
  · exact Bool.eq_iff_iff.mpr (by
      simp only [selected,applyFilters,List.all_eq_true]
      exact forall_congr' fun flt => forall_congr' fun hflt => by rw [hpass a b hab flt hflt])
  · refine List.map_congr_left fun column hcolumn => ?_
    have hne : column ≠ f.physName := fun heq => by
      have hshown := (List.mem_filter.mp hcolumn).2
      rw [heq] at hshown
      exact of_decide_eq_true hshown hhidden
    rw [hab column hne]

/-- A search finds nothing in a table that the user may not view, and else what the listing of the table shows. -/
theorem searchTable_eq (q : String) (D : Database S) : searchTable S user q D mt =
    if canView S.session user mt then
      let r := Listing.listing (selected S user mt [qFilter S mt q]) (before (E := S.engine) ((S.shape mt).pk,false))
        (hit S mt q) 10 1 (D mt).rows
      if r.1.isEmpty then none else some ⟨mt.id,mt.label,r.1,r.2,firstReadableForm S user mt⟩
    else none := by
  have hlist := @listing_records S user mt Hit (hit S mt q) D [qFilter S mt q] ((S.shape mt).pk,false) 1 10
  simp only [searchTable]
  cases canView S.session user mt with
  | false => rfl
  | true =>
    rw [show (max 1 (1:ℤ)).toNat = 1 from rfl] at hlist
    simp only [Bool.not_true,Bool.false_eq_true,if_false,if_true,← hlist,List.isEmpty_map]

/-- The first page is empty only when nothing is selected. -/
theorem total_of_empty {ω : Type*} {select : Row → Bool} {how : String × Bool} {look : Row → ω} {rows : List Row}
    (h : (Listing.listing select (before (E := S.engine) how) look 10 1 rows).1 = []) :
    (Listing.listing select (before (E := S.engine) how) look 10 1 rows).2 = 0 := by
  simp only [Listing.listing,Paging.page,List.map_eq_nil_iff,List.take_eq_nil_iff,List.drop_eq_nil_iff] at h ⊢
  have hlength := @Listing.length_arranged Row select (before (E := S.engine) how) rows
  omega

theorem group_eq_iff (q : String) (D D' : Database S) (hview : canView S.session user mt = true) :
    searchTable S user q D mt = searchTable S user q D' mt ↔
      Listing.listing (selected S user mt [qFilter S mt q]) (before (E := S.engine) ((S.shape mt).pk,false))
        (hit S mt q) 10 1 (D mt).rows =
      Listing.listing (selected S user mt [qFilter S mt q]) (before (E := S.engine) ((S.shape mt).pk,false))
        (hit S mt q) 10 1 (D' mt).rows := by
  simp only [searchTable_eq,hview,if_true]
  constructor
  · intro h
    split at h
    · rename_i hempty
      split at h
      · rename_i hempty'
        have hnone := List.isEmpty_iff.mp hempty
        have hnone' := List.isEmpty_iff.mp hempty'
        exact Prod.ext (hnone.trans hnone'.symm) ((total_of_empty hnone).trans (total_of_empty hnone').symm)
      · cases h
    · split at h
      · cases h
      · simp only [Option.some.injEq,Group.mk.injEq,true_and,and_true] at h
        exact Prod.ext h.1 h.2
  · intro h
    rw [h]

/-- Lists of findings that differ at one place at most are the same only when they are the same there. -/
theorem filterMap_at {α γ : Type*} {f g : α → Option γ} {x : α} (hoff : ∀ y, y ≠ x → f y = g y) {l : List α} (hx : x ∈ l)
    (h : l.filterMap f = l.filterMap g) : f x = g x := by
  classical
  have hcount : ∀ (a : γ) (f g : α → Option γ), (∀ y, y ≠ x → f y = g y) → f x = some a → g x = none → ∀ l : List α,
      (l.filterMap f).length = (l.filterMap g).length + l.count x := by
    intro a f g hoff hf hg l
    induction l with
    | nil => rfl
    | cons y l ih =>
      by_cases hy : y = x
      · subst hy
        rw [List.filterMap_cons_some hf,List.filterMap_cons_none hg,List.length_cons,List.count_cons_self,ih]
        omega
      · rw [List.count_cons_of_ne hy]
        cases hgy : g y with
        | none =>
          rw [List.filterMap_cons_none ((hoff y hy).trans hgy),List.filterMap_cons_none hgy,ih]
        | some b =>
          rw [List.filterMap_cons_some ((hoff y hy).trans hgy),List.filterMap_cons_some hgy,List.length_cons,
            List.length_cons,ih]
          omega
  have hpos : 0 < l.count x := List.count_pos_iff.mpr hx
  cases hf : f x with
  | none =>
    cases hg : g x with
    | none => rfl
    | some b =>
      have hlength := hcount b g f (fun y hy => (hoff y hy).symm) hg hf l
      rw [h] at hlength
      omega
  | some a =>
    cases hg : g x with
    | none =>
      have hlength := hcount a f g hoff hf hg l
      rw [h] at hlength
      omega
    | some b =>
      clear hpos
      induction l with
      | nil => cases hx
      | cons y l ih =>
        by_cases hy : y = x
        · subst hy
          rw [List.filterMap_cons_some hf,List.filterMap_cons_some hg] at h
          rw [(List.cons.inj h).1]
        · have hx' : x ∈ l := (List.mem_cons.mp hx).resolve_left (Ne.symm hy)
          cases hgy : g y with
          | none =>
            rw [List.filterMap_cons_none ((hoff y hy).trans hgy),List.filterMap_cons_none hgy] at h
            exact ih hx' h
          | some b' =>
            rw [List.filterMap_cons_some ((hoff y hy).trans hgy),List.filterMap_cons_some hgy] at h
            exact ih hx' (List.cons.inj h).2

theorem searchTable_off {q : String} {D D' : Database S} (hD : DifferIn S mt c D D') (t : MetaTable) (ht : t ≠ mt) :
    searchTable S user q D t = searchTable S user q D' t := by
  simp only [searchTable_eq,hD.1 t ht]

theorem search_same_iff (q : String) : Same S user mt c (.search q) ↔ Unaffected S user mt c (.search q) := by
  simp only [Same,Unaffected]
  constructor
  · intro h hq hmem hview
    refine @blind_of_same S (S.shape mt) c Hit _ _ ((S.shape mt).pk,false) 10 (by omega) (S.shape mt).pk_mem fun C C' hC => ?_
    obtain ⟨D,D',hD,rfl,rfl⟩ := exists_databases C C' hC
    have hsearch := h D D' hD
    simp only [search,hq,if_false] at hsearch
    exact (group_eq_iff (strip q) D D' hview).mp (filterMap_at (fun t ht => searchTable_off hD t ht) hmem hsearch)
  · intro h D D' hD
    by_cases hq : strip q = ""
    · simp only [search,hq,if_true]
    · simp only [search,hq,if_false]
      refine List.filterMap_congr fun t ht => ?_
      by_cases heq : t = mt
      · subst heq
        cases hview : canView S.session user t with
        | false => simp only [searchTable_eq,hview,Bool.false_eq_true,if_false]
        | true => exact (group_eq_iff (strip q) D D' hview).mpr ((h hq ht hview).same hD.2 10 1)
      · exact searchTable_off hD t heq

/-- A request has one answer on all databases that differ in a column only, exactly when the listing that answers it is
closed to the user or does not show the column. -/
theorem same_iff (S : Site) (user : User) (mt : MetaTable) (c : String) (request : Request) :
    Same S user mt c request ↔ Unaffected S user mt c request := by
  cases request with
  | list request => exact list_same_iff request
  | search q => exact search_same_iff q

end Answers

/-! ### A salary that one may ask for -/

def salary : MetaField where
  id := 1
  physName := "salary"
  label := "Salary"
  dataType := .integer

def staff : MetaTable where
  id := 1
  physName := "staff"
  label := "Staff"
  fields := [salary]
  idsNodup := by decide
  namesNodup := by decide
  namesFree := by decide

def plainEngine : Engine where
  toSql := plainSql
  le a b :=
    match a, b with
    | .int m, .int n => decide (m ≤ n)
    | _, _ => true

def plainLib : CoerceLib where
  strOther := fun _ => ""
  float := fun _ => none
  int := fun _ => none
  isAlnum := Char.isAlphanum
  loads := fun _ => .error (.valueError "Expecting value")
  isDigit := fun _ => false
  lowercase := lower
  decimal := fun _ => none
  isoDate := fun _ => none
  isoTime := fun _ => none
  isoDatetime := fun _ => none
  strptime := fun _ _ => none
  search := fun _ _ => .ok false
  dumps := fun _ => ""
  repr := fun _ => ""
  complaint := fun _ _ => ""

/-- The role user may read the staff, but not the salaries. -/
def staffSite : Site where
  session := ⟨[⟨1,1,.data,false⟩],[],[⟨"user",1,.none⟩],[],[]⟩
  engine := plainEngine
  lib := plainLib
  tables := [staff]
  shape := fun _ =>
    { columns := ["id","salary"]
      pk := "id"
      key := id
      holds := fun _ _ => True
      pk_mem := by decide
      spread := fun _ _ => ⟨.int 0,.int 1,trivial,trivial,by decide,by decide⟩ }
  displayField := fun _ => none
  json := fun _ => .null

def paid (v : Value) : Row := Row.write (fun _ => .null) [("id",.int 1),("salary",v)]

theorem paid_storable (v : Value) : Storable (staffSite.shape staff) (paid v) := by
  constructor
  · exact fun _ _ => trivial
  · intro column hcolumn
    have hnot : column ∉ ["id","salary"] := hcolumn
    simp only [List.mem_cons,List.not_mem_nil,or_false,not_or] at hnot
    have hid : (column == "id") = false := by simpa using hnot.1
    have hsalary : (column == "salary") = false := by simpa using hnot.2
    simp only [paid,Row.write,List.lookup_cons,hid,hsalary,List.lookup_nil,Option.getD_none]

/-- The total of a list tells whether the hidden salary is the one that is asked for. -/
theorem salary_told : ¬∀ (S : Site) (user : User) (mt : MetaTable) (f : MetaField), f ∈ mt.fields →
    f.physName ∉ (readableFields S.session user mt).map MetaField.physName →
      ∀ request, Same S user mt f.physName request := by
  intro h
  have hsame := h staffSite { id := 7, role := "user" } staff salary List.mem_cons_self (by decide)
    (.list ⟨[("salary","9")],none,"asc"⟩)
  have hblind := list_same_iff _ |>.mp hsame (by decide)
  have hagree : AgreeBut "salary" (paid (.text "9")) (paid .null) := by
    intro column hne
    have hsalary : (column == "salary") = false := by simpa using hne
    simp [paid,Row.write,List.lookup_cons,hsalary]
  have hselect := hblind.selects _ _ (paid_storable (.text "9")) (paid_storable .null) hagree
  revert hselect
  decide

end FieldLeaks
end Biggy
