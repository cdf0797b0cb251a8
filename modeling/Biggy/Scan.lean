import Mathlib.Data.List.Basic

/-!
# Searching a text from the left

A reader looks at the symbol before a place and at everything from the place on. `search` asks it at every place and returns
its first answer.
-/
namespace Biggy
namespace Scan

variable {α β γ : Type*}

/-! ### Readers that take as much as they can -/

theorem takeWhile_stop {p : α → Bool} {xs ys : List α} (hxs : ∀ x ∈ xs, p x = true)
    (hys : ∀ y, ys.head? = some y → p y = false) : (xs++ys).takeWhile p = xs := by
  rw [List.takeWhile_append_of_pos hxs]
  cases ys with
  | nil => simp
  | cons y ys => simp [hys y rfl]

theorem dropWhile_stop {p : α → Bool} {xs ys : List α} (hxs : ∀ x ∈ xs, p x = true)
    (hys : ∀ y, ys.head? = some y → p y = false) : (xs++ys).dropWhile p = ys := by
  rw [List.dropWhile_append_of_pos hxs]
  cases ys with
  | nil => rfl
  | cons y ys => simp [hys y rfl]

/-! ### Literals -/

section Literal

variable [DecidableEq γ] (key : α → γ)

/-- What follows a literal, where symbols with the same key are the same. -/
def literal : List α → List α → Option (List α × List α)
  | [],xs => some ([],xs)
  | _::_,[] => none
  | p::ps,x::xs => if key p = key x then (literal ps xs).map fun r => (x::r.1,r.2) else none

theorem literal_eq_some_iff {ps xs m rest : List α} :
    literal key ps xs = some (m,rest) ↔ xs = m++rest ∧ m.map key = ps.map key := by
  induction ps generalizing xs m with
  | nil =>
    simp only [literal,Option.some.injEq,Prod.mk.injEq,List.map_nil,List.map_eq_nil_iff]
    constructor
    · intro h
      exact ⟨by rw [← h.1,← h.2]; rfl,h.1.symm⟩
    · intro h
      exact ⟨h.2.symm,by rw [h.1,h.2]; rfl⟩
  | cons p ps ih =>
    cases xs with
    | nil =>
      simp only [literal,reduceCtorEq,false_iff,not_and]
      intro h
      obtain ⟨rfl,-⟩ := List.append_eq_nil_iff.mp h.symm
      simp
    | cons x xs =>
      rw [literal]
      split
      · rename_i hkey
        rw [Option.map_eq_some_iff]
        constructor
        · intro h
          obtain ⟨r,hr,heq⟩ := h
          obtain ⟨rfl,rfl⟩ := Prod.mk.inj heq
          obtain ⟨rfl,hmap⟩ := ih.mp hr
          exact ⟨rfl,by rw [List.map_cons,List.map_cons,hmap,hkey]⟩
        · intro h
          cases m with
          | nil => cases h.2
          | cons y m =>
            obtain ⟨rfl,hxs⟩ := List.cons.inj h.1
            obtain ⟨-,hmap⟩ := List.cons.inj h.2
            exact ⟨(m,rest),ih.mpr ⟨hxs,hmap⟩,rfl⟩
      · rename_i hkey
        simp only [reduceCtorEq,false_iff,not_and]
        intro hxs hmap
        cases m with
        | nil => cases hmap
        | cons y m =>
          obtain ⟨rfl,-⟩ := List.cons.inj hxs
          exact hkey (List.cons.inj hmap).1.symm

theorem literal_append {ps m : List α} (hm : m.map key = ps.map key) (rest : List α) :
    literal key ps (m++rest) = some (m,rest) := (literal_eq_some_iff key).mpr ⟨rfl,hm⟩

theorem literal_head_ne {p x : α} (h : key p ≠ key x) (ps xs : List α) : literal key (p::ps) (x::xs) = none := by
  rw [literal,if_neg h]

end Literal

/-! ### The first place -/

section Search

variable (read : Option α → List α → Option β)

def search (previous : Option α) : List α → Option β
  | [] => read previous []
  | x::xs => (read previous (x::xs)).or (search (some x) xs)

/-- The symbol before a place: the last one of the text before it, or the one before the text. -/
def before (previous : Option α) (u : List α) : Option α := u.getLast?.or previous

theorem before_cons (previous : Option α) (x : α) (u : List α) : before previous (x::u) = before (some x) u := by
  cases u with
  | nil => rfl
  | cons y u => simp [before,List.getLast?_cons]

/-- The first place of a text where something holds. -/
def First (R : Option α → List α → β → Prop) (previous : Option α) (xs : List α) (b : β) : Prop :=
  ∃ u v, xs = u++v ∧ R (before previous u) v b ∧
    ∀ u' v', xs = u'++v' → u'.length < u.length → ∀ b', ¬R (before previous u') v' b'

theorem search_eq_some_iff {previous : Option α} {xs : List α} {b : β} : search read previous xs = some b ↔
    ∃ u v, xs = u++v ∧ read (before previous u) v = some b ∧
      ∀ u' v', xs = u'++v' → u'.length < u.length → read (before previous u') v' = none := by
  induction xs generalizing previous with
  | nil =>
    rw [search]
    constructor
    · intro h
      exact ⟨[],[],rfl,h,fun u' v' _ hlt => absurd hlt (by simp)⟩
    · intro h
      obtain ⟨u,v,hnil,hread,-⟩ := h
      obtain ⟨rfl,rfl⟩ := List.append_eq_nil_iff.mp hnil.symm
      exact hread
  | cons x xs ih =>
    rw [search]
    cases hx : read previous (x::xs) with
    | some b' =>
      constructor
      · intro h
        exact ⟨[],x::xs,rfl,hx.trans h,fun u' v' _ hlt => absurd hlt (by simp)⟩
      · intro h
        obtain ⟨u,v,hsplit,hread,hnone⟩ := h
        cases u with
        | nil =>
          obtain rfl := hsplit
          exact hx.symm.trans hread
        | cons y u =>
          have hempty : read previous (x::xs) = none := hnone [] (x::xs) rfl (Nat.succ_pos _)
          rw [hx] at hempty
          cases hempty
    | none =>
      rw [Option.none_or,ih]
      constructor
      · intro h
        obtain ⟨u,v,rfl,hread,hnone⟩ := h
        refine ⟨x::u,v,rfl,by rw [before_cons]; exact hread,?_⟩
        intro u' v' hsplit hlt
        cases u' with
        | nil =>
          obtain rfl := hsplit
          exact hx
        | cons y u' =>
          obtain ⟨rfl,hrest⟩ := List.cons.inj hsplit
          rw [before_cons]
          exact hnone u' v' hrest (Nat.lt_of_succ_lt_succ hlt)
      · intro h
        obtain ⟨u,v,hsplit,hread,hnone⟩ := h
        cases u with
        | nil =>
          obtain rfl := hsplit
          rw [before,List.getLast?_nil,Option.none_or,hx] at hread
          cases hread
        | cons y u =>
          obtain ⟨rfl,rfl⟩ := List.cons.inj hsplit
          rw [before_cons] at hread
          refine ⟨u,v,rfl,hread,?_⟩
          intro u' v' hrest hlt
          rw [← before_cons]
          exact hnone (x::u') v' (congrArg (x::·) hrest) (Nat.succ_lt_succ hlt)

/-- `search` returns what the reader says at the first place where it says something. -/
theorem search_iff_first {R : Option α → List α → β → Prop} (h : ∀ previous xs b, read previous xs = some b ↔ R previous xs b)
    {previous : Option α} {xs : List α} {b : β} : search read previous xs = some b ↔ First R previous xs b := by
  have hnone : ∀ previous xs, read previous xs = none ↔ ∀ b, ¬R previous xs b := by
    intro previous xs
    rw [Option.eq_none_iff_forall_ne_some]
    exact forall_congr' fun b => not_congr (h previous xs b)
  rw [search_eq_some_iff]
  simp only [h,hnone,First]

theorem search_cons_none {previous : Option α} {x : α} {xs : List α} (h : read previous (x::xs) = none) :
    search read previous (x::xs) = search read (some x) xs := by
  rw [search,h,Option.none_or]

theorem search_here {previous : Option α} {xs : List α} {b : β} (h : read previous xs = some b) :
    search read previous xs = some b := by
  cases xs with
  | nil => exact h
  | cons x xs => rw [search,h,Option.some_or]

/-- Where nothing is found, nothing is read at any place. -/
theorem search_eq_none {previous : Option α} {xs u v : List α} (h : search read previous xs = none) (hsplit : xs = u++v) :
    read (before previous u) v = none := by
  induction u generalizing previous xs with
  | nil =>
    obtain rfl : xs = v := hsplit
    cases xs with
    | nil => exact h
    | cons x xs =>
      rw [search,Option.or_eq_none_iff] at h
      exact h.1
  | cons y u ih =>
    subst hsplit
    rw [List.cons_append,search,Option.or_eq_none_iff] at h
    rw [before_cons]
    exact ih h.2 rfl

end Search

/-! ### The first of a list that answers -/

/-- Two families of answers, one a function and one a relation, pick the same first answer. -/
theorem findSome?_eq_some_iff_of {f : α → Option β} {R : α → β → Prop} (h : ∀ a b, f a = some b ↔ R a b) {xs : List α} {b : β} :
    xs.findSome? f = some b ↔ ∃ front a back, xs = front++a::back ∧ R a b ∧ ∀ x ∈ front, ∀ b, ¬R x b := by
  rw [List.findSome?_eq_some_iff]
  constructor
  · intro hfirst
    obtain ⟨front,a,back,hxs,ha,hfront⟩ := hfirst
    refine ⟨front,a,back,hxs,(h a b).mp ha,?_⟩
    intro x hx b' hb'
    exact absurd (hfront x hx) (by rw [(h x b').mpr hb']; exact Option.some_ne_none b')
  · intro hfirst
    obtain ⟨front,a,back,hxs,ha,hfront⟩ := hfirst
    refine ⟨front,a,back,hxs,(h a b).mpr ha,?_⟩
    intro x hx
    cases hfx : f x with
    | none => rfl
    | some b' => exact absurd ((h x b').mp hfx) (hfront x hx b')

theorem findSome?_eq_none_iff_of {f : α → Option β} {R : α → β → Prop} (h : ∀ a b, f a = some b ↔ R a b) {xs : List α} :
    xs.findSome? f = none ↔ ∀ x ∈ xs, ∀ b, ¬R x b := by
  rw [List.findSome?_eq_none_iff]
  constructor
  · intro hnone x hx b hb
    exact absurd (hnone x hx) (by rw [(h x b).mpr hb]; exact Option.some_ne_none b)
  · intro hnone x hx
    cases hfx : f x with
    | none => rfl
    | some b => exact absurd ((h x b).mp hfx) (hnone x hx b)

end Scan
end Biggy
