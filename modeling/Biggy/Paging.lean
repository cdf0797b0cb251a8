import Mathlib.Data.List.Basic
import Mathlib.Data.List.TakeWhile
import Mathlib.Data.List.Nodup
import Mathlib.Tactic.Common

/-!
# Pages of a list

The pages of a list by number and size, and lists on which a property that holds of an
element holds of everything before it: what has the property is then an initial part.
-/
namespace Biggy
namespace Paging

variable {α : Type*}

/-- Page `p` of the list, where the first page is 1 and pages hold `e` elements. -/
def page (e p : ℕ) (xs : List α) : List α := (xs.drop ((p-1)*e)).take e

section Page

variable {e p q : ℕ} {xs : List α}

theorem take_append_page (hp : 1 ≤ p) : xs.take ((p-1)*e) ++ page e p xs = xs.take (p*e) := by
  have hsum : p*e = (p-1)*e+e := by
    rw [← Nat.succ_mul]
    congr 1
    omega
  rw [hsum,List.take_add,page]

theorem page_eq_nil_iff (he : 1 ≤ e) : page e p xs = [] ↔ xs.length ≤ (p-1)*e := by
  rw [page,List.take_eq_nil_iff,List.drop_eq_nil_iff]
  constructor
  · rintro (hzero | hle)
    · omega
    · exact hle
  · exact Or.inr

theorem page_sublist : (page e p xs).Sublist xs := (List.take_sublist _ _).trans (List.drop_sublist _ _)

theorem mem_of_mem_page {x : α} (h : x ∈ page e p xs) : x ∈ xs := page_sublist.subset h

theorem length_page_le : (page e p xs).length ≤ e := List.length_take_le _ _

theorem mem_take_of_mem_page {x : α} (hp : 1 ≤ p) (h : x ∈ page e p xs) : x ∈ xs.take (p*e) := by
  rw [← take_append_page hp]
  exact List.mem_append_right _ h

/-- Every element is on some page. -/
theorem exists_mem_page (he : 1 ≤ e) {x : α} (h : x ∈ xs) : ∃ p, 1 ≤ p ∧ x ∈ page e p xs := by
  obtain ⟨i,hi,rfl⟩ := List.getElem_of_mem h
  refine ⟨i/e+1,Nat.le_add_left 1 _,?_⟩
  have hdiv : e*(i/e)+i%e = i := Nat.div_add_mod i e
  have hmod : i%e < e := Nat.mod_lt i he
  have hget : (page e (i/e+1) xs)[i%e]? = some xs[i] := by
    rw [page,List.getElem?_take_of_lt hmod,List.getElem?_drop,Nat.add_sub_cancel,Nat.mul_comm,hdiv]
    exact List.getElem?_eq_getElem hi
  exact List.mem_of_getElem? hget

/-- An element is on one page only. -/
theorem page_unique (hnodup : xs.Nodup) (hp : 1 ≤ p) (hq : 1 ≤ q) {x : α} (hxp : x ∈ page e p xs)
    (hxq : x ∈ page e q xs) : p = q := by
  have key : ∀ {i j : ℕ}, 1 ≤ i → i < j → x ∈ page e i xs → x ∉ page e j xs := by
    intro i j hi hij hxi hxj
    have hfront : x ∈ xs.take ((j-1)*e) := by
      have hle : i*e ≤ (j-1)*e := Nat.mul_le_mul_right e (by omega)
      exact (List.take_subset_take_left xs hle) (mem_take_of_mem_page hi hxi)
    have hback : x ∈ xs.drop ((j-1)*e) := List.mem_of_mem_take hxj
    have hsplit := hnodup
    rw [← List.take_append_drop ((j-1)*e) xs,List.nodup_append] at hsplit
    exact hsplit.2.2 x hfront x hback rfl
  rcases lt_trichotomy p q with hlt | heq | hgt
  · exact absurd hxq (key hp hlt hxp)
  · exact heq
  · exact absurd hxp (key hq hgt hxq)

end Page

section Initial

/-- Whatever comes before an element with the property has it too. -/
def Initial (new : α → Bool) (xs : List α) : Prop := xs.Pairwise fun a b => new b = true → new a = true

variable {new : α → Bool} {xs ys : List α}

theorem Initial.sublist (h : Initial new ys) (hsub : xs.Sublist ys) : Initial new xs := List.Pairwise.sublist hsub h

/-- Behind an element without the property nothing has it. -/
theorem Initial.filter_right (h : Initial new (xs++ys)) {x : α} (hx : x ∈ xs) (hold : ¬new x = true) :
    ys.filter new = [] := by
  rw [List.filter_eq_nil_iff]
  intro y hy hnew
  exact hold ((List.pairwise_append.mp h).2.2 x hx y hy hnew)

theorem Initial.takeWhile_eq_filter (h : Initial new xs) : xs.takeWhile new = xs.filter new := by
  induction xs with
  | nil => rfl
  | cons x xs ih =>
    by_cases hx : new x = true
    · rw [List.takeWhile_cons_of_pos hx,List.filter_cons_of_pos hx,ih (List.Pairwise.of_cons h)]
    · have hrest : xs.filter new = [] :=
        (show Initial new ([x]++xs) from h).filter_right List.mem_cons_self hx
      rw [List.takeWhile_cons_of_neg hx,List.filter_cons_of_neg hx,hrest]

section Cut

variable {e p n : ℕ}

theorem take_page_new (hp : 1 ≤ p)
    (hfront : ∀ x ∈ xs.take ((p-1)*e), new x = true) (hpage : ∀ x ∈ page e p xs, new x = true) :
    ∀ x ∈ xs.take (p*e), new x = true := by
  intro x hx
  rw [← take_append_page hp] at hx
  rcases List.mem_append.mp hx with hx | hx
  · exact hfront x hx
  · exact hpage x hx

/-- When the front of the list is new, what is new lies in the front and in the rest. -/
theorem filter_split (hfront : ∀ x ∈ xs.take n, new x = true) :
    xs.filter new = xs.take n ++ (xs.drop n).filter new := by
  have hall := List.filter_eq_self.mpr hfront
  have hjoin := List.filter_append (p := new) (xs.take n) (xs.drop n)
  rw [List.take_append_drop,hall] at hjoin
  exact hjoin

/-- The page after a new front holds the new elements that come next. -/
theorem filter_page (hp : 1 ≤ p) (hinit : Initial new xs)
    (hfront : ∀ x ∈ xs.take ((p-1)*e), new x = true) {x : α} (hx : x ∈ page e p xs) (hold : ¬new x = true) :
    xs.filter new = xs.take ((p-1)*e) ++ (page e p xs).takeWhile new := by
  have hsplit : xs.drop ((p-1)*e) = page e p xs ++ xs.drop (p*e) := by
    have hsum : p*e = (p-1)*e+e := by
      rw [← Nat.succ_mul]
      congr 1
      omega
    rw [page,hsum,← List.drop_drop,List.take_append_drop]
  have hdrop : Initial new (page e p xs ++ xs.drop (p*e)) := hsplit ▸ hinit.sublist (List.drop_sublist _ _)
  rw [filter_split hfront,hsplit,List.filter_append,hdrop.filter_right hx hold,List.append_nil]
  rw [(hdrop.sublist (List.sublist_append_left _ _)).takeWhile_eq_filter]

/-- Nothing new is on a page without a new first row, nor behind it. -/
theorem filter_front (hfront : ∀ x ∈ xs.take n, new x = true)
    (hrest : (xs.drop n).filter new = []) : xs.filter new = xs.take n := by
  rw [filter_split hfront,hrest,List.append_nil]

/-- When the new elements fit into the first `n`, these hold all of them. -/
theorem filter_take_of_le (hinit : Initial new xs) (hle : (xs.filter new).length ≤ n) :
    (xs.take n).filter new = xs.filter new := by
  have hjoin := List.filter_append (p := new) (xs.take n) (xs.drop n)
  rw [List.take_append_drop] at hjoin
  have hrest : (xs.drop n).filter new = [] := by
    by_contra hsome
    obtain ⟨x,hx⟩ := List.exists_mem_of_ne_nil _ hsome
    obtain ⟨hdrop,hnew⟩ := List.mem_filter.mp hx
    rw [← List.take_append_drop n xs] at hinit
    have hall : ∀ y ∈ xs.take n, new y = true := fun y hy =>
      (List.pairwise_append.mp hinit).2.2 y hy x hdrop hnew
    have hlong : n < xs.length := by
      by_contra hshort
      rw [List.drop_eq_nil_of_le (by omega)] at hdrop
      cases hdrop
    have hlength := congrArg List.length hjoin
    rw [List.length_append,List.filter_eq_self.mpr hall,List.length_take] at hlength
    have hpos : 0 < ((xs.drop n).filter new).length := List.length_pos_of_mem hx
    omega
  rw [hjoin,hrest,List.append_nil]

end Cut

end Initial

section Slices

/-- At most `e` elements of the list from position `a` on. -/
def slice (a e : ℕ) (xs : List α) : List α := (xs.drop a).take e

/-- The slices of one size at the first `n` of the given positions, one behind the other. -/
def slices (start : ℕ → ℕ) (e n : ℕ) (xs : List α) : List α :=
  (List.range n).flatMap fun i => slice (start i) e xs

/-- The positions in these slices. -/
def positions (start : ℕ → ℕ) (e n : ℕ) : List ℕ := (List.range n).flatMap fun i => List.range' (start i) e

/-- Each element with the property is in one of the slices only. -/
def Once (start : ℕ → ℕ) (e n : ℕ) (new : α → Bool) (xs : List α) : Prop :=
  ∀ j x, xs[j]? = some x → new x = true → ∃! i, i < n ∧ start i ≤ j ∧ j < start i+e

variable {start : ℕ → ℕ} {a e n : ℕ} {new : α → Bool} {xs : List α}

theorem slice_eq_filterMap : slice a e xs = (List.range' a e).filterMap fun j => xs[j]? := by
  induction e generalizing a with
  | zero => simp [slice]
  | succ e ih =>
    rw [List.range'_succ,List.filterMap_cons,← ih]
    cases hx : xs[a]? with
    | none =>
      have hlength : xs.length ≤ a := List.getElem?_eq_none_iff.mp hx
      simp [slice,List.drop_eq_nil_of_le hlength,List.drop_eq_nil_of_le (Nat.le_succ_of_le hlength)]
    | some x =>
      obtain ⟨hlt,heq⟩ := List.getElem?_eq_some_iff.mp hx
      simp only [slice,List.drop_eq_getElem_cons hlt,List.take_succ_cons,heq]

theorem slices_eq_filterMap : slices start e n xs = (positions start e n).filterMap fun j => xs[j]? := by
  simp only [slices,positions,List.filterMap_flatMap,slice_eq_filterMap]

theorem eq_filterMap_range (xs : List α) : xs = (List.range xs.length).filterMap fun j => xs[j]? := by
  have h : slice 0 xs.length xs = (List.range' 0 xs.length).filterMap fun j => xs[j]? := slice_eq_filterMap
  rwa [slice,List.drop_zero,List.take_length,← List.range_eq_range'] at h

theorem mem_positions {j : ℕ} : j ∈ positions start e n ↔ ∃ i, i < n ∧ start i ≤ j ∧ j < start i+e := by
  simp only [positions,List.mem_flatMap,List.mem_range,List.mem_range'_1]

theorem mem_slices {x : α} :
    x ∈ slices start e n xs ↔ ∃ j, xs[j]? = some x ∧ ∃ i, i < n ∧ start i ≤ j ∧ j < start i+e := by
  rw [slices_eq_filterMap,List.mem_filterMap]
  constructor
  · rintro ⟨j,hj,hx⟩
    exact ⟨j,hx,mem_positions.mp hj⟩
  · rintro ⟨j,hx,hj⟩
    exact ⟨j,mem_positions.mpr hj,hx⟩

/-- The element at a position, when it has the property. -/
def pick (new : α → Bool) (xs : List α) (j : ℕ) : Option α := xs[j]?.filter new

theorem pick_isSome {j : ℕ} : (pick new xs j).isSome = true ↔ ∃ x, xs[j]? = some x ∧ new x = true := by
  cases hx : xs[j]? with
  | none => simp [pick,hx]
  | some x => simp [pick,hx]

theorem filter_slices : (slices start e n xs).filter new = (positions start e n).filterMap (pick new xs) := by
  rw [slices_eq_filterMap,List.filter_filterMap]
  rfl

theorem filter_eq_filterMap : xs.filter new = (List.range xs.length).filterMap (pick new xs) := by
  conv_lhs => rw [eq_filterMap_range xs,List.filter_filterMap]
  rfl

theorem filterMap_filter_isSome {β : Type*} (f : β → Option α) (l : List β) :
    (l.filter fun x => (f x).isSome).filterMap f = l.filterMap f := by
  rw [List.filterMap_filter]
  congr 1
  funext x
  cases hx : f x <;> simp

theorem nodup_of_filterMap {β : Type*} {f : β → Option α} {l : List β} (h : (l.filterMap f).Nodup) :
    (l.filter fun x => (f x).isSome).Nodup := by
  induction l with
  | nil => simp
  | cons b l ih =>
    cases hb : f b with
    | none =>
      rw [List.filterMap_cons_none hb] at h
      rw [List.filter_cons_of_neg (by simp [hb])]
      exact ih h
    | some x =>
      rw [List.filterMap_cons_some hb,List.nodup_cons] at h
      rw [List.filter_cons_of_pos (by simp [hb]),List.nodup_cons]
      refine ⟨?_,ih h.2⟩
      intro hmem
      exact h.1 (List.mem_filterMap.mpr ⟨b,List.mem_of_mem_filter hmem,hb⟩)

/-- The positions of elements with the property are the same, each once. -/
theorem nodup_picked (honce : Once start e n new xs) :
    ((positions start e n).filter fun j => (pick new xs j).isSome).Nodup := by
  rw [positions,List.filter_flatMap,List.nodup_flatMap]
  constructor
  · intro i _
    exact List.Nodup.filter _ List.nodup_range'
  · apply List.Pairwise.imp_of_mem _ List.nodup_range
    intro i k hi hk hne j hji hjk
    obtain ⟨hji,hpick⟩ := List.mem_filter.mp hji
    obtain ⟨x,hx,hnew⟩ := pick_isSome.mp hpick
    obtain ⟨m,-,hunique⟩ := honce j x hx hnew
    have hi' := hunique i ⟨List.mem_range.mp hi,List.mem_range'_1.mp hji⟩
    have hk' := hunique k ⟨List.mem_range.mp hk,List.mem_range'_1.mp (List.mem_of_mem_filter hjk)⟩
    exact hne (hi'.trans hk'.symm)

/-- Slices that hold each element with the property once hold these in some order. -/
theorem perm_of_once (honce : Once start e n new xs) : ((slices start e n xs).filter new).Perm (xs.filter new) := by
  rw [filter_slices,filter_eq_filterMap,← filterMap_filter_isSome _ (positions start e n),
    ← filterMap_filter_isSome _ (List.range xs.length)]
  apply List.Perm.filterMap
  rw [List.perm_ext_iff_of_nodup (nodup_picked honce) (List.nodup_range.filter _)]
  intro j
  simp only [List.mem_filter,and_congr_left_iff]
  intro hpick
  obtain ⟨x,hx,hnew⟩ := pick_isSome.mp hpick
  obtain ⟨i,hi,-⟩ := honce j x hx hnew
  have hrange : j ∈ List.range xs.length := List.mem_range.mpr (List.getElem?_eq_some_iff.mp hx).1
  exact iff_of_true (mem_positions.mpr ⟨i,hi⟩) hrange

theorem once_of_perm (hnodup : xs.Nodup) (hperm : ((slices start e n xs).filter new).Perm (xs.filter new)) :
    Once start e n new xs := by
  intro j x hx hnew
  have hmem : x ∈ (slices start e n xs).filter new :=
    hperm.mem_iff.mpr (List.mem_filter.mpr ⟨List.mem_of_getElem? hx,hnew⟩)
  obtain ⟨k,hk,i,hi⟩ := mem_slices.mp (List.mem_of_mem_filter hmem)
  obtain ⟨hlt,heq⟩ := List.getElem?_eq_some_iff.mp hx
  obtain ⟨hlt',heq'⟩ := List.getElem?_eq_some_iff.mp hk
  obtain rfl : k = j := hnodup.getElem_inj_iff.mp (heq'.trans heq.symm)
  refine ⟨i,hi,?_⟩
  intro m hm
  have hpicked : ((positions start e n).filter fun j => (pick new xs j).isSome).Nodup := by
    apply nodup_of_filterMap
    rw [← filter_slices]
    exact hperm.nodup_iff.mpr (hnodup.filter _)
  rw [positions,List.filter_flatMap,List.nodup_flatMap] at hpicked
  have hpos : (pick new xs k).isSome = true := pick_isSome.mpr ⟨x,hk,hnew⟩
  have hin : ∀ {p : ℕ}, start p ≤ k ∧ k < start p+e →
      k ∈ (List.range' (start p) e).filter fun j => (pick new xs j).isSome := fun hp =>
    List.mem_filter.mpr ⟨List.mem_range'_1.mpr hp,hpos⟩
  -- two slices that hold the position are not disjoint
  have hsame : ∀ {p q : ℕ}, p < q → q < n → start p ≤ k ∧ k < start p+e → start q ≤ k ∧ k < start q+e → False := by
    intro p q hlt hq hkp hkq
    have hpair := List.pairwise_iff_getElem.mp hpicked.2 p q (by simp; omega) (by simpa using hq) hlt
    simp only [Function.onFun,List.getElem_range] at hpair
    exact hpair (hin hkp) (hin hkq)
  rcases lt_trichotomy m i with hlt | heqi | hgt
  · exact (hsame hlt hi.1 hm.2 hi.2).elim
  · exact heqi
  · exact (hsame hgt hm.1 hi.2 hm.2).elim

end Slices

end Paging
end Biggy
