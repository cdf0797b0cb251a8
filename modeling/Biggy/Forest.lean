import Biggy.Keyed
import Mathlib.Logic.Relation

/-!
# Forests of parent links

Each item has at most one parent. Following the links ends, or it runs into a cycle; relinking one item
to a parent that is not below it keeps every chain of links ending.
-/
namespace Biggy
namespace Forest

variable {α : Type*}

section Links

variable (up : α → Option α)

/-- One link up. -/
def Link (a b : α) : Prop := up a = some b

/-- `b` is `a` or above it. -/
def Above : α → α → Prop := Relation.ReflTransGen (Link up)

/-- Following the links from an item comes to one without a parent. -/
inductive Ends : α → Prop
  | top {a : α} (h : up a = none) : Ends a
  | step {a b : α} (h : up a = some b) (hb : Ends b) : Ends a

def Cyclic (a : α) : Prop := Relation.TransGen (Link up) a a

end Links

variable {up up' : α → Option α}

theorem Ends.not_cyclic {a : α} (h : Ends up a) : ¬Cyclic up a := by
  induction h with
  | top htop =>
    intro hcycle
    obtain ⟨b,hb,-⟩ := Relation.TransGen.head'_iff.mp hcycle
    rw [Link,htop] at hb
    cases hb
  | step hlink _ ih =>
    intro hcycle
    obtain ⟨c,hc,hback⟩ := Relation.TransGen.head'_iff.mp hcycle
    obtain rfl : _ = c := Option.some.inj (hlink.symm.trans hc)
    exact ih (Relation.TransGen.tail' hback hlink)

theorem Ends.above {a b : α} (h : Ends up a) (habove : Above up a b) : Ends up b := by
  induction habove with
  | refl => exact h
  | tail _ hlink ih =>
    cases ih with
    | top htop => cases htop.symm.trans hlink
    | step hstep hends =>
      obtain rfl := Option.some.inj (hstep.symm.trans hlink)
      exact hends

/-- Items that lose their links keep every chain ending. -/
theorem Ends.cut (hcut : ∀ a, up' a = up a ∨ up' a = none) {a : α} (h : Ends up a) : Ends up' a := by
  induction h with
  | @top a htop => exact .top ((hcut a).elim (·.trans htop) id)
  | @step a b hlink _ ih =>
    rcases hcut a with hsame | hnone
    · exact .step (hsame.trans hlink) ih
    · exact .top hnone

section Relink

/-! One item gets a new parent. -/

variable {a : α} (hother : ∀ b, b ≠ a → up' b = up b)

include hother

/-- A chain that does not come to the item is the same as before. -/
theorem Ends.off {b : α} (h : Ends up b) (hoff : ¬Above up b a) : Ends up' b := by
  induction h with
  | @top b htop =>
    have hne : b ≠ a := fun heq => hoff (heq ▸ .refl)
    exact .top ((hother b hne).trans htop)
  | @step b c hlink _ ih =>
    have hne : b ≠ a := fun heq => hoff (heq ▸ .refl)
    exact .step ((hother b hne).trans hlink) (ih fun habove => hoff (.head hlink habove))

theorem ends_relink (hends : ∀ b, Ends up b) {p : α} (hp : up' a = some p) (hfree : ¬Above up p a) (b : α) :
    Ends up' b := by
  have hitem : Ends up' a := .step hp ((hends p).off hother hfree)
  have hb := hends b
  induction hb with
  | @top b htop =>
    rcases Classical.em (b = a) with rfl | hne
    · exact hitem
    · exact .top ((hother b hne).trans htop)
  | @step b c hlink _ ih =>
    rcases Classical.em (b = a) with rfl | hne
    · exact hitem
    · exact .step ((hother b hne).trans hlink) ih

/-- The item may go anywhere that is not below itself. -/
theorem ends_move (hends : ∀ b, Ends up b) (hfree : ∀ p, up' a = some p → ¬Above up p a) (b : α) : Ends up' b := by
  cases hp : up' a with
  | none =>
    refine (hends b).cut fun c => ?_
    rcases Classical.em (c = a) with rfl | hc
    · exact Or.inr hp
    · exact Or.inl (hother c hc)
  | some p => exact ends_relink hother hends hp (hfree p hp) b

/-- The way up to the item does not use its own link. -/
theorem Above.off {b : α} (h : Above up b a) : Above up' b a := by
  induction h using Relation.ReflTransGen.head_induction_on with
  | refl => exact .refl
  | @head b c hlink _ ih =>
    rcases Classical.em (b = a) with rfl | hne
    · exact .refl
    · exact .head ((hother b hne).trans hlink) ih

theorem cyclic_relink {p : α} (hp : up' a = some p) (hbelow : Above up p a) : Cyclic up' a :=
  Relation.TransGen.head' hp (hbelow.off hother)

end Relink

section Table

/-! The links of a list of items with keys; a key that no item has is without a parent. -/

variable {κ : Type*} [DecidableEq κ] (key : α → κ) (parent : α → Option κ)

def upOf (xs : List α) (k : κ) : Option κ := (Keyed.find key k xs).bind parent

variable {key parent}

theorem upOf_missing {xs : List α} {k : κ} (h : ∀ x ∈ xs, key x ≠ k) : upOf key parent xs k = none := by
  rw [upOf,Keyed.find_eq_none.mpr h]
  rfl

theorem upOf_map {β : Type*} (f : β → α) (xs : List β) (k : κ) :
    upOf key parent (xs.map f) k = upOf (fun x => key (f x)) (fun x => parent (f x)) xs k := by
  simp only [upOf,Keyed.find,List.find?_map,Option.bind_map]
  rfl

theorem upOf_mem {xs : List α} (hnodup : (xs.map key).Nodup) {x : α} (hx : x ∈ xs) : upOf key parent xs (key x) = parent x := by
  rw [upOf,Keyed.find_of_mem hnodup hx]
  rfl

theorem upOf_iff {xs : List α} (hnodup : (xs.map key).Nodup) {k p : κ} :
    upOf key parent xs k = some p ↔ ∃ x ∈ xs, key x = k ∧ parent x = some p := by
  constructor
  · intro h
    obtain ⟨x,hx,hp⟩ := Option.bind_eq_some_iff.mp h
    exact ⟨x,Keyed.mem_of_find hx,Keyed.key_of_find hx,hp⟩
  · rintro ⟨x,hx,rfl,hp⟩
    exact (upOf_mem hnodup hx).trans hp

theorem upOf_append_self {xs : List α} {x : α} (h : ∀ y ∈ xs, key y ≠ key x) : upOf key parent (xs ++ [x]) (key x) = parent x := by
  have hnone : xs.find? (fun y => decide (key y = key x)) = none := Keyed.find_eq_none.mpr h
  simp [upOf,Keyed.find,hnone]

theorem upOf_append_other {xs : List α} {x : α} {k : κ} (hk : k ≠ key x) : upOf key parent (xs ++ [x]) k = upOf key parent xs k := by
  simp [upOf,Keyed.find,Ne.symm hk]

/-- The item with one key is changed, its key apart. -/
theorem upOf_change {f : α → α} (hkey : ∀ x, key (f x) = key x) {k : κ} {q : Option κ} (hself : ∀ x, key x = k → parent (f x) = q)
    (hother : ∀ x, key x ≠ k → parent (f x) = parent x) (xs : List α) (j : κ) :
    upOf key parent (xs.map f) j = if j = k then (Keyed.find key j xs).bind fun _ => q else upOf key parent xs j := by
  rw [upOf,Keyed.find_map hkey]
  cases hfind : Keyed.find key j xs with
  | none => simp [upOf,hfind]
  | some x =>
    obtain rfl := Keyed.key_of_find hfind
    rcases eq_or_ne (key x) k with hk | hk
    · simp [hk,hself x hk]
    · simp [upOf,hfind,hk,hother x hk]

theorem upOf_filter (keep : κ → Bool) (xs : List α) (k : κ) :
    upOf key parent (xs.filter fun x => keep (key x)) k = if keep k then upOf key parent xs k else none := by
  rw [upOf,Keyed.find_filter keep]
  split <;> rfl

/-- Removing items leaves every chain an end. -/
theorem ends_filter (keep : κ → Bool) {xs : List α} (hends : ∀ k, Ends (upOf key parent xs) k) (k : κ) :
    Ends (upOf key parent (xs.filter fun x => keep (key x))) k := by
  refine (hends k).cut fun j => ?_
  rw [upOf_filter]
  split
  · exact Or.inl rfl
  · exact Or.inr rfl

end Table

end Forest
end Biggy
