import Mathlib.Data.List.Forall2
import Mathlib.Tactic.Common

/-!
# Lists whose elements pair up

Two lists pair up when they are equally long and elements at the same place are related. Such pairings compose, and
carry over to selections, images and searches.
-/
namespace Biggy
namespace Paired

variable {α β γ : Type*}

theorem comp {R : α → β → Prop} {S : β → γ → Prop} {xs : List α} {ys : List β} {zs : List γ} (hxy : List.Forall₂ R xs ys)
    (hyz : List.Forall₂ S ys zs) : List.Forall₂ (fun x z => ∃ y, R x y ∧ S y z) xs zs := by
  induction hxy generalizing zs with
  | nil =>
    cases hyz
    exact .nil
  | cons hhead _ ih =>
    cases hyz with
    | cons hhead' htail => exact .cons ⟨_,hhead,hhead'⟩ (ih htail)

theorem trans {R : α → α → Prop} (hR : ∀ x y z, R x y → R y z → R x z) {xs ys zs : List α} (hxy : List.Forall₂ R xs ys)
    (hyz : List.Forall₂ R ys zs) : List.Forall₂ R xs zs :=
  (comp hxy hyz).imp fun _ _ ⟨_,h,h'⟩ => hR _ _ _ h h'

/-- An element of the second list has its like in the first. -/
theorem mem_left {R : α → β → Prop} {xs : List α} {ys : List β} (h : List.Forall₂ R xs ys) {y : β} (hy : y ∈ ys) :
    ∃ x ∈ xs, R x y := by
  induction h with
  | nil => cases hy
  | cons hxy _ ih =>
    rcases List.mem_cons.mp hy with rfl | hy
    · exact ⟨_,List.mem_cons_self,hxy⟩
    · obtain ⟨x,hx,hR⟩ := ih hy
      exact ⟨x,List.mem_cons_of_mem _ hx,hR⟩

theorem mem_right {R : α → β → Prop} {xs : List α} {ys : List β} (h : List.Forall₂ R xs ys) {x : α} (hx : x ∈ xs) :
    ∃ y ∈ ys, R x y := by
  obtain ⟨y,hy,hR⟩ := mem_left h.flip hx
  exact ⟨y,hy,hR⟩

theorem with_mem {R : α → β → Prop} {xs : List α} {ys : List β} (h : List.Forall₂ R xs ys) :
    List.Forall₂ (fun x y => R x y ∧ x ∈ xs ∧ y ∈ ys) xs ys := by
  have hleft := (List.forall₂_and_left (p := (· ∈ xs)) xs ys).mpr ⟨fun _ => id,h⟩
  have hright := (List.forall₂_and_left (p := (· ∈ ys)) ys xs).mpr ⟨fun _ => id,hleft.flip⟩
  exact hright.flip.imp fun _ _ hxy => ⟨hxy.2.2,hxy.2.1,hxy.1⟩

theorem both {R S : α → β → Prop} {xs : List α} {ys : List β} (h : List.Forall₂ R xs ys) (h' : List.Forall₂ S xs ys) :
    List.Forall₂ (fun x y => R x y ∧ S x y) xs ys := by
  induction h with
  | nil => exact .nil
  | cons hR _ ih =>
    cases h' with
    | cons hS htail => exact .cons ⟨hR,hS⟩ (ih htail)

theorem filter {R : α → β → Prop} {p : α → Bool} {q : β → Bool} (hpq : ∀ x y, R x y → p x = q y) {xs : List α} {ys : List β}
    (h : List.Forall₂ R xs ys) : List.Forall₂ R (xs.filter p) (ys.filter q) := by
  induction h with
  | nil => exact .nil
  | cons hxy _ ih =>
    rw [List.filter_cons,List.filter_cons,hpq _ _ hxy]
    split
    · exact .cons hxy ih
    · exact ih

theorem map_eq {δ : Type*} {R : α → β → Prop} {f : α → δ} {g : β → δ} (hfg : ∀ x y, R x y → f x = g y) {xs : List α}
    {ys : List β} (h : List.Forall₂ R xs ys) : xs.map f = ys.map g := by
  induction h with
  | nil => rfl
  | cons hxy _ ih => rw [List.map_cons,List.map_cons,hfg _ _ hxy,ih]

/-- Keys that could only have become one that is there already have not changed when they are still unique. -/
theorem keys_kept {δ : Type*} {R : α → β → Prop} {f : α → δ} {g : β → δ} {s : δ} (hR : ∀ x y, R x y → g y = f x ∨ g y = s ∧ f x ≠ s)
    {xs : List α} {ys : List β} (h : List.Forall₂ R xs ys) (hnodup : (ys.map g).Nodup) (hs : s ∈ xs.map f) :
    List.Forall₂ (fun x y => g y = f x) xs ys := by
  induction h with
  | nil => exact .nil
  | @cons x y xs ys hxy htail ih =>
    obtain ⟨hy,hnodup⟩ := List.nodup_cons.mp hnodup
    by_cases hx : s = f x
    · have hsame : g y = f x := (hR x y hxy).elim id fun hmoved => absurd hx.symm hmoved.2
      refine .cons hsame ((with_mem htail).imp fun x' y' ⟨hR',_,hy'⟩ => (hR x' y' hR').resolve_right fun hmoved => hy ?_)
      rw [hsame,← hx,← hmoved.1]
      exact List.mem_map_of_mem hy'
    · have hrest : s ∈ xs.map f := (List.mem_cons.mp hs).resolve_left hx
      have hkept := ih hnodup hrest
      refine .cons ((hR x y hxy).resolve_right fun hmoved => hy ?_) hkept
      rw [hmoved.1,← map_eq (fun _ _ => Eq.symm) hkept]
      exact hrest

theorem find {δ : Type*} {R : α → β → Prop} {p : α → Bool} {q : β → Bool} {f : α → δ} {g : β → δ}
    (hpq : ∀ x y, R x y → p x = q y) (hfg : ∀ x y, R x y → f x = g y) {xs : List α} {ys : List β} (h : List.Forall₂ R xs ys) :
    (xs.find? p).map f = (ys.find? q).map g := by
  induction h with
  | nil => rfl
  | cons hxy _ ih =>
    rw [List.find?_cons,List.find?_cons,hpq _ _ hxy]
    split
    · exact congrArg some (hfg _ _ hxy)
    · exact ih

theorem find_rel {R : α → β → Prop} {p : α → Bool} {q : β → Bool} (hpq : ∀ x y, R x y → p x = q y) {xs : List α} {ys : List β}
    (h : List.Forall₂ R xs ys) : Option.Rel R (xs.find? p) (ys.find? q) := by
  induction h with
  | nil => exact .none
  | cons hxy _ ih =>
    rw [List.find?_cons,List.find?_cons,hpq _ _ hxy]
    split
    · exact .some hxy
    · exact ih

end Paired
end Biggy
