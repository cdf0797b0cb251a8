import Biggy.FieldLeaks
import Biggy.Ties

/-!
# The pages of a list

Each page of a list is a query of its own, and rows with equal sort keys may come in another order every time.
`partition_iff` says when the pages hold every row once in spite of that.
-/
namespace Biggy
namespace Pagination

open RowScope FieldLeaks Ties

/-- The comparisons of the database; an ORDER BY has a place for every value. -/
structure Ordering extends Engine where
  total : ∀ a b, le a b = true ∨ le b a = true
  trans : ∀ a b c, le a b = true → le b c = true → le a c = true

variable {E : Ordering} {sh : Shape E.toEngine}

section Order

variable {how : String × Bool} {a b c : Row}

theorem before_total (how : String × Bool) (a b : Row) :
    before (E := E.toEngine) how a b = true ∨ before (E := E.toEngine) how b a = true := by
  simp only [before]
  split <;> exact E.total _ _

theorem before_trans (how : String × Bool) (a b c : Row) (hab : before (E := E.toEngine) how a b = true)
    (hbc : before (E := E.toEngine) how b c = true) : before (E := E.toEngine) how a c = true := by
  simp only [before] at hab hbc ⊢
  split at hab
  · rename_i hdesc
    rw [if_pos hdesc] at hbc ⊢
    exact E.trans _ _ _ hbc hab
  · rename_i hdesc
    rw [if_neg hdesc] at hbc ⊢
    exact E.trans _ _ _ hab hbc

end Order

section Pages

/-- The comparison of the ORDER BY. -/
def sortedBefore (sh : Shape E.toEngine) (sort : Option String) (order : String) : Row → Row → Bool :=
  before (E := E.toEngine) (sortColumn sh sort order)

variable (content : Content sh) (filters : List Filter) (sort : Option String) (order : String)

/-- The rows that the filters select. -/
def matching : List Row := content.rows.filter (applyFilters E.toSql sh.columns filters)

/-- What `list_rows` may return: a page of the matching rows in an order that the ORDER BY permits, and their number. -/
def MayList (page : ℤ) (perPage : ℕ) (result : List Row × ℕ) : Prop :=
  ∃ ordered, Permitted (sortedBefore sh sort order) (matching content filters) ordered ∧
    result = (Paging.page perPage (max 1 page).toNat ordered,(matching content filters).length)

/-- The number of pages. -/
def pageCount (total perPage : ℕ) : ℕ := (total+perPage-1)/perPage

/-- Pages 1 to the last together hold every matching row once, whatever order each query takes. -/
def Partition (perPage : ℕ) : Prop :=
  ∀ results : ℕ → List Row × ℕ, (∀ p : ℕ, MayList content filters sort order p perPage (results p)) →
    ((List.range (pageCount (results 1).2 perPage)).flatMap fun i => (results (i+1)).1).Perm (matching content filters)

variable {content filters sort order}

/-- The stable order that the other models take is a permitted one. -/
theorem mayList_listRows (page : ℤ) (perPage : ℕ) : MayList content filters sort order page perPage
    (RowScope.listRows E.toSql content.physical filters (listArgs (E := E.toEngine) (sortColumn sh sort order) page perPage)) := by
  have : Std.Total fun a b => sortedBefore sh sort order a b = true := ⟨before_total _⟩
  have : IsTrans Row fun a b => sortedBefore sh sort order a b = true := ⟨before_trans _⟩
  exact ⟨_,⟨List.perm_insertionSort _ _,List.pairwise_insertionSort _ _⟩,rfl⟩

theorem matching_nodup : (matching content filters).Nodup := content.keys.of_map.filter _

theorem length_le_pages {total perPage : ℕ} (hpage : 0 < perPage) : total ≤ pageCount total perPage*perPage := by
  have hdiv := Nat.div_add_mod (total+perPage-1) perPage
  have hmod := Nat.mod_lt (total+perPage-1) hpage
  rw [pageCount,Nat.mul_comm]
  omega

/-- The queries of all the pages, as orders of the matching rows. -/
theorem orders_of_results {perPage : ℕ} {results : ℕ → List Row × ℕ}
    (h : ∀ p : ℕ, MayList content filters sort order p perPage (results p)) :
    ∃ orders : ℕ → List Row, (∀ p, Permitted (sortedBefore sh sort order) (matching content filters) (orders p)) ∧
      ∀ p, results p = (Paging.page perPage (max 1 (p:ℤ)).toNat (orders p),(matching content filters).length) := by
  choose orders horders hresults using h
  exact ⟨orders,horders,hresults⟩

theorem page_number (i : ℕ) : (max 1 ((i+1 : ℕ):ℤ)).toNat = i+1 := by omega

/-- Where equal sort keys do not stand on both sides of a page's end every order of the queries shows each row once. -/
theorem partition_of_separated {perPage : ℕ} (hpage : 0 < perPage)
    (hseparated : ∀ i, Separated (sortedBefore sh sort order) (matching content filters) (i*perPage)) :
    Partition content filters sort order perPage := by
  intro results hresults
  obtain ⟨orders,horders,heq⟩ := orders_of_results hresults
  have h := pages_all (before_total _) horders hseparated (length_le_pages hpage)
  simpa only [heq,page_number,pages] using h

/-- The pages hold every row once exactly when no two rows with equal sort keys stand on both sides of a page's end. -/
theorem partition_iff {E : Ordering} {sh : Shape E.toEngine} (content : Content sh) (filters : List Filter)
    (sort : Option String) (order : String) {perPage : ℕ} (hpage : 0 < perPage) :
    Partition content filters sort order perPage ↔
      ∀ i, Separated (sortedBefore sh sort order) (matching content filters) (i*perPage) := by
  refine ⟨fun hpartition => ?_,partition_of_separated hpage⟩
  refine separated_of_pages (before_total _) (before_trans _) hpage matching_nodup (length_le_pages hpage) fun orders horders => ?_
  have h := hpartition (fun p => (Paging.page perPage (max 1 (p:ℤ)).toNat (orders p),(matching content filters).length))
    fun p => ⟨orders p,horders p,rfl⟩
  simpa only [page_number,pages] using h

/-- By the key, which no two rows have, the pages hold every row once. -/
theorem partition_default {perPage : ℕ} (hpage : 0 < perPage)
    (hkeys : ∀ a ∈ content.rows, ∀ b ∈ content.rows, E.le (a sh.pk) (b sh.pk) = true → E.le (b sh.pk) (a sh.pk) = true →
      a sh.pk = b sh.pk) : Partition content filters none order perPage := by
  refine partition_of_separated hpage fun i => ?_
  refine separated_of_antisymm (before_total _) (before_trans _) matching_nodup (fun a ha b hb hab hba => ?_) _
  have hmem := fun {r : Row} (hr : r ∈ matching content filters) => List.mem_of_mem_filter hr
  exact List.inj_on_of_nodup_map content.keys (hmem ha) (hmem hb) (hkeys a (hmem ha) b (hmem hb) hab hba)

end Pages

/-! ### Two rows with one name -/

/-- Numbers come in their order, and before them everything else. -/
def rank : Value → ℤ
  | .int n => n
  | _ => -1

def numberOrdering : Ordering where
  toSql := plainSql
  le a b := decide (rank a ≤ rank b)
  total a b := by
    simp only [decide_eq_true_eq]
    exact Int.le_total _ _
  trans a b c := by
    simp only [decide_eq_true_eq]
    exact Int.le_trans

def people : Shape numberOrdering.toEngine where
  columns := ["id","name"]
  pk := "id"
  key := id
  holds := fun _ _ => True
  pk_mem := by decide
  spread := fun _ _ => ⟨.int 0,.int 1,trivial,trivial,by decide,by decide⟩

/-- A person whose name, like that of any other, is Ann. -/
def person (n : ℤ) : Row := fun column => if column = "id" then .int n else if column = "name" then .text "Ann" else .null

def twoPeople : Content people where
  rows := [person 1,person 2]
  storable := by
    intro row hrow
    refine ⟨fun _ _ => trivial,fun column hcolumn => ?_⟩
    have hnot : column ∉ ["id","name"] := hcolumn
    simp only [List.mem_cons,List.not_mem_nil,or_false,not_or] at hnot
    simp only [List.mem_cons,List.not_mem_nil,or_false] at hrow
    rcases hrow with rfl | rfl <;> simp only [person,hnot.1,hnot.2,if_false]
  keys := by simp [people,person]

theorem matching_twoPeople : matching twoPeople [] = [person 1,person 2] := rfl

/-- The two pages of a list by key. -/
theorem partition_iff_two : Partition twoPeople [] none "asc" 1 ↔
    ∀ i, Separated (sortedBefore people none "asc") (matching twoPeople []) (i*1) :=
  partition_iff twoPeople [] none "asc" (by decide)

/-- The rows of one name come in either order. -/
theorem permitted_twoPeople (order : String) : Permitted (sortedBefore people (some "name") order) (matching twoPeople [])
    [person 1,person 2] ∧ Permitted (sortedBefore people (some "name") order) (matching twoPeople []) [person 2,person 1] := by
  have hbefore : ∀ a b, sortedBefore people (some "name") order (person a) (person b) = true := by
    intro a b
    have hcolumn : (sortColumn people (some "name") order).1 = "name" := by
      rw [sortColumn,if_pos (by decide)]
    have hle : numberOrdering.le (person a "name") (person b "name") = true := rfl
    have hle' : numberOrdering.le (person b "name") (person a "name") = true := rfl
    rw [sortedBefore,before,hcolumn]
    split
    · exact hle'
    · exact hle
  have hpair : ∀ a b, [person a,person b].Pairwise fun x y => sortedBefore people (some "name") order x y = true :=
    fun a b => List.pairwise_cons.mpr ⟨by simp [hbefore],List.pairwise_singleton _ _⟩
  exact ⟨⟨List.Perm.refl _,hpair 1 2⟩,List.Perm.swap _ _ _,hpair 2 1⟩

/-- The two pages of one row each show the same person when the second query takes the other order. -/
theorem person_left_out : ¬∀ (E : Ordering) (sh : Shape E.toEngine) (content : Content sh) (filters : List Filter)
    (sort : Option String) (order : String) (perPage : ℕ), 0 < perPage → Partition content filters sort order perPage := by
  intro h
  obtain ⟨hfirst,hsecond⟩ := permitted_twoPeople "asc"
  have hpages := h numberOrdering people twoPeople [] (some "name") "asc" 1 (by decide)
    (fun p => if p = 2 then ([person 1],2) else (Paging.page 1 (max 1 (p:ℤ)).toNat [person 1,person 2],2)) (fun p => by
      split
      · rename_i hp
        subst hp
        exact ⟨_,hsecond,rfl⟩
      · exact ⟨_,hfirst,rfl⟩)
  have hmem : person 2 ∈ [person 1,person 1] := hpages.mem_iff.mpr (by rw [matching_twoPeople]; simp)
  have hid : (Value.int 2) = .int 1 := by
    rcases List.mem_cons.mp hmem with heq | heq
    · exact congrFun heq "id"
    · exact congrFun (List.mem_singleton.mp heq) "id"
  revert hid
  decide

end Pagination
end Biggy
