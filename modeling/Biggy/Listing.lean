import Biggy.Paging
import Biggy.Paired
import Mathlib.Data.List.Sort

/-!
# Listings

A listing selects elements, puts them in an order, cuts out a page and shows each element in some form, together with
the number of the selected. When two lists have the same listings although their elements differ.
-/
namespace Biggy
namespace Listing

variable {α ω : Type*}

/-- The selected elements in order; elements that come before each other keep their order. -/
def arranged (select : α → Bool) (before : α → α → Bool) (xs : List α) : List α :=
  (xs.filter select).insertionSort fun a b => before a b = true

/-- Page `p` of size `n` as it is shown, and the number of the selected. -/
def listing (select : α → Bool) (before : α → α → Bool) (look : α → ω) (n p : ℕ) (xs : List α) : List ω × ℕ :=
  ((Paging.page n p (arranged select before xs)).map look,(xs.filter select).length)

section Related

variable {select : α → Bool} {before : α → α → Bool} {look : α → ω} {R : α → α → Prop}

theorem forall₂_orderedInsert (hbefore : ∀ a b c d, R a b → R c d → before a c = before b d) {a b : α} (hab : R a b)
    {xs ys : List α} (h : List.Forall₂ R xs ys) :
    List.Forall₂ R (xs.orderedInsert (fun a b => before a b = true) a) (ys.orderedInsert (fun a b => before a b = true) b) := by
  induction h with
  | nil => exact .cons hab .nil
  | @cons c d xs ys hcd hrest ih =>
    simp only [List.orderedInsert_cons]
    rw [hbefore a b c d hab hcd]
    split
    · exact .cons hab (.cons hcd hrest)
    · exact .cons hcd ih

theorem forall₂_insertionSort (hbefore : ∀ a b c d, R a b → R c d → before a c = before b d) {xs ys : List α}
    (h : List.Forall₂ R xs ys) : List.Forall₂ R (xs.insertionSort fun a b => before a b = true)
      (ys.insertionSort fun a b => before a b = true) := by
  induction h with
  | nil => exact .nil
  | cons hab _ ih => exact forall₂_orderedInsert hbefore hab ih

theorem forall₂_arranged (hselect : ∀ a b, R a b → select a = select b)
    (hbefore : ∀ a b c d, R a b → R c d → before a c = before b d) {xs ys : List α} (h : List.Forall₂ R xs ys) :
    List.Forall₂ R (arranged select before xs) (arranged select before ys) :=
  forall₂_insertionSort hbefore (Paired.filter hselect h)

theorem map_eq_of_forall₂ {xs ys : List α} (h : List.Forall₂ R xs ys)
    (hlook : ∀ a ∈ xs, ∀ b, R a b → look a = look b) : xs.map look = ys.map look := by
  induction h with
  | nil => rfl
  | @cons a b xs ys hab _ ih =>
    rw [List.map_cons,List.map_cons,hlook a List.mem_cons_self b hab,ih fun c hc => hlook c (List.mem_cons_of_mem a hc)]

theorem mem_arranged {xs : List α} {a : α} : a ∈ arranged select before xs ↔ a ∈ xs ∧ select a = true := by
  rw [arranged,List.mem_insertionSort,List.mem_filter]

theorem length_arranged (xs : List α) : (arranged select before xs).length = (xs.filter select).length :=
  List.length_insertionSort _ _

theorem listing_eq (n p : ℕ) {xs ys : List α} (hmap : (arranged select before xs).map look = (arranged select before ys).map look)
    (hlength : (xs.filter select).length = (ys.filter select).length) :
    listing select before look n p xs = listing select before look n p ys := by
  simp only [listing,Paging.page,List.map_take,List.map_drop,hmap,hlength]

/-- Lists that agree in all that selects, orders and shows their elements have the same listings. -/
theorem listing_congr (n p : ℕ) (hselect : ∀ a b, R a b → select a = select b)
    (hbefore : ∀ a b c d, R a b → R c d → before a c = before b d)
    (hlook : ∀ a b, R a b → select a = true → look a = look b) {xs ys : List α} (h : List.Forall₂ R xs ys) :
    listing select before look n p xs = listing select before look n p ys :=
  listing_eq n p (map_eq_of_forall₂ (forall₂_arranged hselect hbefore h) fun a ha b hab =>
    hlook a b hab (mem_arranged.mp ha).2) (Paired.filter hselect h).length_eq

/-- In whatever order, elements that all look the same make one listing. -/
theorem listing_flat (n p : ℕ) (hselect : ∀ a b, R a b → select a = select b)
    (hlook : ∀ a b, R a b → select a = true → look a = look b) {xs ys : List α} (h : List.Forall₂ R xs ys)
    (hxs : ∀ a ∈ xs, ∀ b ∈ xs, select a = true → select b = true → look a = look b)
    (hys : ∀ a ∈ ys, ∀ b ∈ ys, select a = true → select b = true → look a = look b) :
    listing select before look n p xs = listing select before look n p ys := by
  have hfilter := Paired.filter hselect h
  refine listing_eq n p ?_ hfilter.length_eq
  cases hx : xs.filter select with
  | nil =>
    have hy : ys.filter select = [] := by
      rw [hx] at hfilter
      exact List.forall₂_nil_left_iff.mp hfilter
    simp [arranged,hx,hy]
  | cons a as =>
    rw [hx] at hfilter
    obtain ⟨b,bs,hab,-,hy⟩ := List.forall₂_cons_left_iff.mp hfilter
    obtain ⟨ha,hsa⟩ := List.mem_filter.mp (hx ▸ List.mem_cons_self : a ∈ xs.filter select)
    obtain ⟨hb,hsb⟩ := List.mem_filter.mp (hy ▸ List.mem_cons_self : b ∈ ys.filter select)
    have hconstx : (arranged select before xs).map look = List.replicate (xs.filter select).length (look a) := by
      rw [List.eq_replicate_iff,List.length_map,length_arranged]
      refine ⟨rfl,fun w hw => ?_⟩
      obtain ⟨c,hc,rfl⟩ := List.mem_map.mp hw
      obtain ⟨hc,hsc⟩ := mem_arranged.mp hc
      exact hxs c hc a ha hsc hsa
    have hconsty : (arranged select before ys).map look = List.replicate (ys.filter select).length (look b) := by
      rw [List.eq_replicate_iff,List.length_map,length_arranged]
      refine ⟨rfl,fun w hw => ?_⟩
      obtain ⟨c,hc,rfl⟩ := List.mem_map.mp hw
      obtain ⟨hc,hsc⟩ := mem_arranged.mp hc
      exact hys c hc b hb hsc hsb
    rw [hconstx,hconsty,hlook a b hab hsa,(Paired.filter hselect h).length_eq]

end Related

section Short

variable {select : α → Bool} {before : α → α → Bool} {look : α → ω} {n : ℕ}

/-- The listing of one element tells whether it is selected, and how it looks. -/
theorem listing_single (hn : 1 ≤ n) (a : α) :
    listing select before look n 1 [a] = if select a then ([look a],1) else ([],0) := by
  obtain ⟨m,rfl⟩ := Nat.exists_eq_add_of_le' hn
  cases ha : select a <;> simp [listing,arranged,Paging.page,ha]

/-- The first page of two selected elements starts with the one that comes before the other. -/
theorem listing_pair (hn : 1 ≤ n) {a b : α} (ha : select a = true) (hb : select b = true) :
    (listing select before look n 1 [a,b]).1.head? = some (if before a b then look a else look b) := by
  obtain ⟨m,rfl⟩ := Nat.exists_eq_add_of_le' hn
  cases hab : before a b <;> simp [listing,arranged,Paging.page,ha,hb,hab]

end Short

end Listing
end Biggy
