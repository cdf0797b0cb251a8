import Biggy.Paired
import Mathlib.Data.List.Nodup

/-!
# Grouping

A list is divided into the groups of the elements with one key, the keys in the order in which they come first.
-/
namespace Biggy
namespace Grouping

variable {α κ : Type*} [DecidableEq κ] (key : α → κ)

/-- The keys of a list, each once. -/
def firsts : List α → List κ
  | [] => []
  | x::xs => key x::(firsts xs).filter fun k => k ≠ key x

/-- The elements with a key. -/
def having (k : κ) (xs : List α) : List α := xs.filter fun x => key x = k

def groups (xs : List α) : List (List α) := (firsts key xs).map fun k => having key k xs

variable {key} {xs ys : List α}

theorem mem_firsts {k : κ} : k ∈ firsts key xs ↔ ∃ x ∈ xs, key x = k := by
  induction xs with
  | nil => simp [firsts]
  | cons x xs ih =>
    rw [firsts,List.mem_cons,List.mem_filter,ih]
    constructor
    · rintro (rfl | ⟨⟨y,hy,rfl⟩,-⟩)
      · exact ⟨x,List.mem_cons_self,rfl⟩
      · exact ⟨y,List.mem_cons_of_mem _ hy,rfl⟩
    · rintro ⟨y,hy,rfl⟩
      rcases List.mem_cons.mp hy with rfl | hy
      · exact Or.inl rfl
      · by_cases hkey : key y = key x
        · exact Or.inl hkey
        · exact Or.inr ⟨⟨y,hy,rfl⟩,by simpa using hkey⟩

theorem nodup_firsts (xs : List α) : (firsts key xs).Nodup := by
  induction xs with
  | nil => exact List.nodup_nil
  | cons x xs ih =>
    rw [firsts,List.nodup_cons]
    exact ⟨fun hmem => by simpa using (List.mem_filter.mp hmem).2,ih.filter _⟩

theorem mem_groups {g : List α} : g ∈ groups key xs ↔ ∃ x ∈ xs, having key (key x) xs = g := by
  rw [groups,List.mem_map]
  constructor
  · rintro ⟨k,hk,rfl⟩
    obtain ⟨x,hx,rfl⟩ := mem_firsts.mp hk
    exact ⟨x,hx,rfl⟩
  · rintro ⟨x,hx,rfl⟩
    exact ⟨key x,mem_firsts.mpr ⟨x,hx,rfl⟩,rfl⟩

/-- No group is empty. -/
theorem ne_nil_of_mem {g : List α} (hg : g ∈ groups key xs) : g ≠ [] := by
  obtain ⟨x,hx,rfl⟩ := mem_groups.mp hg
  exact List.ne_nil_of_mem (List.mem_filter.mpr ⟨hx,by simp⟩)

theorem subset_of_mem {g : List α} (hg : g ∈ groups key xs) : g ⊆ xs := by
  obtain ⟨x,-,rfl⟩ := mem_groups.mp hg
  exact fun y hy => List.mem_of_mem_filter hy

theorem filter_or_perm {p q : α → Bool} (hpq : ∀ x, p x = true → q x = false) (xs : List α) :
    (xs.filter p++xs.filter q).Perm (xs.filter fun x => p x || q x) := by
  induction xs with
  | nil => exact .refl _
  | cons x xs ih =>
    cases hp : p x with
    | true =>
      rw [List.filter_cons_of_pos hp,List.filter_cons_of_neg (by simp [hpq x hp]),List.filter_cons_of_pos (by simp [hp])]
      exact ih.cons x
    | false =>
      rw [List.filter_cons_of_neg (by simp [hp])]
      cases hq : q x with
      | true =>
        rw [List.filter_cons_of_pos hq,List.filter_cons_of_pos (by simp [hq])]
        exact List.perm_middle.trans (ih.cons x)
      | false =>
        rw [List.filter_cons_of_neg (by simp [hq]),List.filter_cons_of_neg (by simp [hp,hq])]
        exact ih

theorem flatMap_having_perm {ks : List κ} (h : ks.Nodup) (xs : List α) :
    (ks.flatMap fun k => having key k xs).Perm (xs.filter fun x => key x ∈ ks) := by
  induction ks with
  | nil => simp
  | cons k ks ih =>
    obtain ⟨hk,hks⟩ := List.nodup_cons.mp h
    rw [List.flatMap_cons]
    refine ((ih hks).append_left _).trans ((filter_or_perm (fun x hx => ?_) xs).trans (.of_eq ?_))
    · have hkey : key x = k := by simpa using hx
      simpa [hkey] using hk
    · refine List.filter_congr fun x _ => ?_
      simp [List.mem_cons]

/-- The groups divide the list. -/
theorem groups_perm (xs : List α) : (groups key xs).flatten.Perm xs := by
  rw [groups,← List.flatMap_def]
  refine (flatMap_having_perm (nodup_firsts xs) xs).trans (.of_eq (List.filter_eq_self.mpr fun x hx => ?_))
  simpa using mem_firsts.mpr ⟨x,hx,rfl⟩

section Related

variable {R : α → α → Prop}

theorem firsts_congr (hkey : ∀ x y, R x y → key x = key y) (h : List.Forall₂ R xs ys) : firsts key xs = firsts key ys := by
  induction h with
  | nil => rfl
  | @cons x y xs ys hxy _ ih => rw [firsts,firsts,ih,hkey x y hxy]

/-- Lists that pair up under a relation that keeps the keys have groups that pair up. -/
theorem groups_related (hkey : ∀ x y, R x y → key x = key y) (h : List.Forall₂ R xs ys) :
    List.Forall₂ (List.Forall₂ R) (groups key xs) (groups key ys) := by
  rw [groups,groups,firsts_congr hkey h,List.forall₂_map_left_iff,List.forall₂_map_right_iff]
  refine List.forall₂_same.mpr fun k _ => Paired.filter (fun x y hxy => ?_) h
  rw [hkey x y hxy]

end Related

/-! ### Aggregates of aggregates -/

section Folds

variable {β : Type*} {agg : List β → Option β} {op : β → β → β}

/-- An aggregate of a list comes from the aggregates of its parts; that of nothing is nothing. -/
structure Folds (agg : List β → Option β) (op : β → β → β) : Prop where
  nil : agg [] = none
  single : ∀ b, agg [b] = some b
  append : ∀ xs ys, agg (xs++ys) = Option.merge op (agg xs) (agg ys)

/-- The aggregate of all is that of the aggregates of the parts. -/
theorem Folds.flatten (h : Folds agg op) (xss : List (List β)) : agg xss.flatten = agg (xss.filterMap agg) := by
  induction xss with
  | nil => rfl
  | cons xs xss ih =>
    rw [List.flatten_cons,h.append,ih]
    cases hxs : agg xs with
    | none => rw [List.filterMap_cons_none hxs,Option.merge_none_left]
    | some b => rw [List.filterMap_cons_some hxs,← List.singleton_append,h.append,h.single]

end Folds

end Grouping
end Biggy
