import Mathlib.Data.List.Basic
import Mathlib.Data.List.Nodup
import Mathlib.Tactic.Common

/-!
# Lists with a key

A table with a unique key, in the order its rows were added. `put` replaces the
element that has the same key or adds the new one at the end.
-/
namespace Biggy
namespace Keyed

variable {α κ : Type*} [DecidableEq κ] (key : α → κ)

/-- The element with the given key. -/
def find (k : κ) (xs : List α) : Option α := xs.find? fun x => decide (key x = k)

/-- Replace the element that has the key of `x`, or add `x` at the end. -/
def put (x : α) : List α → List α
  | [] => [x]
  | y::ys => if key y = key x then x::ys else y::put x ys

@[simp] theorem find_nil (k : κ) : find key k [] = none := rfl

theorem find_cons (k : κ) (x : α) (xs : List α) :
    find key k (x::xs) = if key x = k then some x else find key k xs := by
  by_cases h : key x = k <;> simp [find,h]

variable {key}

theorem mem_of_find {k : κ} {xs : List α} {x : α} (h : find key k xs = some x) : x ∈ xs :=
  List.mem_of_find?_eq_some h

theorem key_of_find {k : κ} {xs : List α} {x : α} (h : find key k xs = some x) : key x = k := by
  simpa using List.find?_some h

theorem find_eq_none {k : κ} {xs : List α} : find key k xs = none ↔ ∀ x ∈ xs, key x ≠ k := by
  simp [find]

/-- With unique keys every element is found under its own key. -/
theorem find_of_mem {xs : List α} (hnodup : (xs.map key).Nodup) {x : α} (hx : x ∈ xs) :
    find key (key x) xs = some x := by
  induction xs with
  | nil => simp at hx
  | cons y ys ih =>
    rw [find_cons]
    simp only [List.map_cons,List.nodup_cons,List.mem_map,not_exists,not_and] at hnodup
    rcases List.mem_cons.mp hx with rfl | hy
    · simp
    · rw [if_neg (fun h => hnodup.1 x hy h.symm)]
      exact ih hnodup.2 hy

omit [DecidableEq κ] in
/-- With unique keys an element keeps its key exactly when it is itself kept. -/
theorem exists_filter_iff {xs : List α} (hnodup : (xs.map key).Nodup) {x : α} (hx : x ∈ xs) (p : α → Bool) :
    (∃ y ∈ xs.filter p, key y = key x) ↔ p x = true := by
  constructor
  · rintro ⟨y,hy,hsame⟩
    obtain ⟨hmem,hp⟩ := List.mem_filter.mp hy
    rwa [List.inj_on_of_nodup_map hnodup hmem hx hsame] at hp
  · intro hp
    exact ⟨x,List.mem_filter.mpr ⟨hx,hp⟩,rfl⟩

theorem find_put_self (x : α) (xs : List α) : find key (key x) (put key x xs) = some x := by
  induction xs with
  | nil => simp [put,find_cons]
  | cons y ys ih =>
    by_cases h : key y = key x
    · simp [put,h,find_cons]
    · simp [put,h,find_cons,ih]

theorem find_put_other {x : α} {k : κ} (hk : key x ≠ k) (xs : List α) :
    find key k (put key x xs) = find key k xs := by
  induction xs with
  | nil => simp [put,find_cons,hk]
  | cons y ys ih =>
    by_cases h : key y = key x
    · simp [put,h,find_cons,hk]
    · simp [put,h,find_cons,ih]

theorem find_map {f : α → α} (hf : ∀ x, key (f x) = key x) (k : κ) (xs : List α) :
    find key k (xs.map f) = (find key k xs).map f := by
  induction xs with
  | nil => rfl
  | cons y ys ih =>
    rw [List.map_cons,find_cons,find_cons,hf,ih]
    split <;> rfl

theorem mem_put {x y : α} {xs : List α} (h : y ∈ put key x xs) : y = x ∨ y ∈ xs := by
  induction xs with
  | nil => simpa [put] using h
  | cons z zs ih =>
    simp only [put] at h
    split at h
    · rcases List.mem_cons.mp h with h | h
      · exact Or.inl h
      · exact Or.inr (List.mem_cons_of_mem z h)
    · rcases List.mem_cons.mp h with rfl | h
      · exact Or.inr List.mem_cons_self
      · exact (ih h).imp id (List.mem_cons_of_mem z)

theorem nodup_put (x : α) {xs : List α} (h : (xs.map key).Nodup) :
    ((put key x xs).map key).Nodup := by
  induction xs with
  | nil => simp [put]
  | cons y ys ih =>
    simp only [List.map_cons,List.nodup_cons,List.mem_map,not_exists,not_and] at h
    by_cases hy : key y = key x
    · simp only [put,hy,if_true,List.map_cons,List.nodup_cons,List.mem_map,not_exists,not_and]
      exact ⟨fun z hz hk => h.1 z hz (hk.trans hy.symm),h.2⟩
    · simp only [put,hy,if_false,List.map_cons,List.nodup_cons,List.mem_map,not_exists,not_and]
      refine ⟨fun z hz hk => ?_,ih h.2⟩
      rcases mem_put hz with rfl | hz
      · exact hy hk.symm
      · exact h.1 z hz hk

/-- The elements whose key has not come before. -/
def distinct (key : α → κ) : List α → List α
  | [] => []
  | x::xs => x::(distinct key xs).filter fun y => key y ≠ key x

theorem nodup_distinct (xs : List α) : ((distinct key xs).map key).Nodup := by
  induction xs with
  | nil => exact List.nodup_nil
  | cons x xs ih =>
    rw [distinct,List.map_cons,List.nodup_cons]
    constructor
    · intro hmem
      obtain ⟨y,hy,hkey⟩ := List.mem_map.mp hmem
      simpa [hkey] using (List.mem_filter.mp hy).2
    · exact ih.sublist (List.filter_sublist.map key)

theorem find_filter (keep : κ → Bool) (k : κ) (xs : List α) :
    find key k (xs.filter fun y => keep (key y)) = if keep k then find key k xs else none := by
  induction xs with
  | nil => simp
  | cons y ys ih =>
    by_cases hy : keep (key y) = true
    · rw [List.filter_cons_of_pos (by exact hy),find_cons,find_cons,ih]
      by_cases hk : key y = k
      · subst hk
        simp [hy]
      · simp [hk]
    · rw [List.filter_cons_of_neg (by exact hy),ih,find_cons]
      by_cases hk : key y = k
      · subst hk
        simp [hy]
      · simp [hk]

theorem find_distinct (k : κ) (xs : List α) : find key k (distinct key xs) = find key k xs := by
  induction xs with
  | nil => rfl
  | cons x xs ih =>
    rw [distinct,find_cons,find_cons]
    split
    · rfl
    · rename_i hk
      rw [find_filter (fun k' => decide (k' ≠ key x)),ih,if_pos (by simpa using Ne.symm hk)]

theorem exists_mem_distinct {k : κ} {xs : List α} : (∃ x ∈ distinct key xs, key x = k) ↔ ∃ x ∈ xs, key x = k := by
  have hfound : ∀ ys : List α, (∃ x ∈ ys, key x = k) ↔ find key k ys ≠ none := fun ys => by
    rw [ne_eq,find_eq_none]
    simp
  rw [hfound,hfound,find_distinct]

theorem mem_distinct {ι : Type*} [DecidableEq ι] {x : ι} {xs : List ι} : x ∈ distinct id xs ↔ x ∈ xs := by
  have hexists := @exists_mem_distinct ι ι _ id x xs
  simpa using hexists

/-- The elements of a list, put one after the other. -/
def puts (key : α → κ) (xs : List α) : List α := xs.foldl (fun out x => put key x out) []

theorem foldl_put {xs out : List α} (hnodup : (out.map key).Nodup) :
    ((xs.foldl (fun out x => put key x out) out).map key).Nodup ∧
      ∀ x ∈ xs.foldl (fun out x => put key x out) out, x ∈ xs ∨ x ∈ out := by
  induction xs generalizing out with
  | nil => exact ⟨hnodup,fun x hx => Or.inr hx⟩
  | cons y ys ih =>
    obtain ⟨hkeys,hmem⟩ := ih (nodup_put y hnodup)
    refine ⟨hkeys,fun x hx => ?_⟩
    rcases hmem x hx with hys | hout
    · exact Or.inl (List.mem_cons_of_mem y hys)
    · rcases mem_put hout with rfl | hout
      · exact Or.inl List.mem_cons_self
      · exact Or.inr hout

theorem nodup_puts (xs : List α) : ((puts key xs).map key).Nodup := (@foldl_put _ _ _ key xs [] List.nodup_nil).1

theorem mem_puts {x : α} {xs : List α} (h : x ∈ puts key xs) : x ∈ xs := by
  rcases (@foldl_put _ _ _ key xs [] List.nodup_nil).2 x h with h | h
  · exact h
  · cases h

theorem exists_mem_put {k : κ} {x : α} {xs : List α} (h : key x = k ∨ ∃ y ∈ xs, key y = k) :
    ∃ y ∈ put key x xs, key y = k := by
  by_cases hk : key x = k
  · exact ⟨x,mem_of_find (find_put_self x xs),hk⟩
  · obtain ⟨y,hy,hyk⟩ := h.resolve_left hk
    by_contra hnone
    have hput : find key k (put key x xs) = none := find_eq_none.mpr fun z hz hzk => hnone ⟨z,hz,hzk⟩
    rw [find_put_other hk] at hput
    exact find_eq_none.mp hput y hy hyk

theorem exists_mem_puts {x : α} {xs : List α} (hx : x ∈ xs) : ∃ y ∈ puts key xs, key y = key x := by
  have hfold : ∀ (xs out : List α), (∃ y ∈ xs, key y = key x) ∨ (∃ y ∈ out, key y = key x) →
      ∃ y ∈ xs.foldl (fun out x => put key x out) out, key y = key x := by
    intro xs
    induction xs with
    | nil => exact fun out h => h.resolve_left fun ⟨_,hy,_⟩ => by cases hy
    | cons z zs ih =>
      intro out h
      refine ih (put key z out) ?_
      rcases h with ⟨y,hy,hk⟩ | hout
      · rcases List.mem_cons.mp hy with rfl | hy
        · exact Or.inr (exists_mem_put (Or.inl hk))
        · exact Or.inl ⟨y,hy,hk⟩
      · exact Or.inr (exists_mem_put (Or.inr hout))
  exact hfold xs [] (Or.inl ⟨x,hx,rfl⟩)

omit [DecidableEq κ] in
theorem nodup_filter (keep : α → Bool) {xs : List α} (h : (xs.map key).Nodup) :
    ((xs.filter keep).map key).Nodup := h.sublist (List.filter_sublist.map key)

omit [DecidableEq κ] in
theorem map_key_map {f : α → α} (hf : ∀ x, key (f x) = key x) (xs : List α) :
    (xs.map f).map key = xs.map key := by
  simp [Function.comp_def,hf]

/-- What holds of one element only filters it out. -/
theorem filter_unique {p : α → Bool} {x : α} {xs : List α} (hxs : xs.Nodup) (hx : x ∈ xs)
    (hp : ∀ y ∈ xs, p y = true ↔ y = x) : xs.filter p = [x] := by
  induction xs with
  | nil => cases hx
  | cons y ys ih =>
    rw [List.nodup_cons] at hxs
    have hy := hp y List.mem_cons_self
    have hys : ∀ z ∈ ys, p z = true ↔ z = x := fun z hz => hp z (List.mem_cons_of_mem y hz)
    rcases List.mem_cons.mp hx with rfl | hx
    · have hnone : ys.filter p = [] := by
        apply List.filter_eq_nil_iff.mpr
        intro z hz hsame
        exact hxs.1 ((hys z hz).mp hsame ▸ hz)
      rw [List.filter_cons_of_pos (hy.mpr rfl),hnone]
    · have hne : y ≠ x := fun heq => hxs.1 (heq ▸ hx)
      rw [List.filter_cons_of_neg fun hsame => hne (hy.mp hsame)]
      exact ih hxs.2 hx hys

/-! A dictionary is a list of bindings with the names as keys. -/

section Bindings

variable {β : Type*} [BEq κ] [LawfulBEq κ] {k other : κ}

theorem lookup_put_self (k : κ) (v : β) (xs : List (κ × β)) : (put Prod.fst (k,v) xs).lookup k = some v := by
  induction xs with
  | nil => simp [put]
  | cons p xs ih =>
    obtain ⟨name,old⟩ := p
    by_cases hname : name = k
    · simp [put,hname]
    · have hne : (k == name) = false := by simpa using Ne.symm hname
      simpa [put,hname,List.lookup_cons,hne] using ih

theorem lookup_put_other (hne : other ≠ k) (v : β) (xs : List (κ × β)) :
    (put Prod.fst (k,v) xs).lookup other = xs.lookup other := by
  have hbeq : (other == k) = false := by simpa using hne
  induction xs with
  | nil => simp [put,List.lookup_cons,hbeq]
  | cons p xs ih =>
    obtain ⟨name,old⟩ := p
    by_cases hname : name = k
    · simp [put,hname,List.lookup_cons,hbeq]
    · cases hother : other == name with
      | true => simp [put,hname,List.lookup_cons,hother]
      | false => simpa [put,hname,List.lookup_cons,hother] using ih

/-- Of the bindings of a name the last one counts. -/
theorem lookup_puts (xs : List (κ × β)) (k : κ) : (puts Prod.fst xs).lookup k = xs.reverse.lookup k := by
  have hfold : ∀ out : List (κ × β), (xs.foldl (fun out x => put Prod.fst x out) out).lookup k =
      (xs.reverse.lookup k).or (out.lookup k) := by
    induction xs with
    | nil => exact fun out => rfl
    | cons p xs ih =>
      intro out
      have hput : (put Prod.fst p out).lookup k = ([p].lookup k).or (out.lookup k) := by
        obtain ⟨name,value⟩ := p
        by_cases hkey : k = name
        · subst hkey
          rw [List.lookup_cons,beq_self_eq_true]
          exact lookup_put_self k value out
        · rw [List.lookup_cons,beq_eq_false_iff_ne.mpr hkey]
          exact lookup_put_other hkey value out
      rw [List.foldl_cons,ih,hput,List.reverse_cons,List.lookup_append,Option.or_assoc]
  rw [puts,hfold,List.lookup_nil,Option.or_none]

theorem lookup_puts_iff {xs : List (κ × β)} {v : β} : (puts Prod.fst xs).lookup k = some v ↔
    ∃ before after, xs = before++(k,v)::after ∧ ∀ p ∈ after, p.1 ≠ k := by
  rw [lookup_puts,List.lookup_eq_some_iff]
  constructor
  · rintro ⟨later,before,hsplit,hlater⟩
    refine ⟨before.reverse,later.reverse,?_,fun p hp heq => ?_⟩
    · rw [← List.reverse_reverse xs,hsplit,List.reverse_append,List.reverse_cons,List.append_assoc]
      rfl
    · exact bne_iff_ne.mp (hlater p (List.mem_reverse.mp hp)) heq.symm
  · rintro ⟨before,after,rfl,hafter⟩
    refine ⟨after.reverse,before.reverse,?_,fun p hp => bne_iff_ne.mpr fun heq => ?_⟩
    · rw [List.reverse_append,List.reverse_cons,List.append_assoc]
      rfl
    · exact hafter p (List.mem_reverse.mp hp) heq.symm

end Bindings

end Keyed
end Biggy
