import Mathlib.Data.List.Basic
import Mathlib.Data.Nat.Find
import Mathlib.Order.Defs.LinearOrder
import Mathlib.Tactic.Common

/-!
# First come, first served

Askers come one after the other, each with names in an order of its own, and each is given the first of its names that is not
gone. `Taken` says what is gone when an asker comes. An asker gets nothing only when all its names are gone.
-/
namespace Biggy
namespace Allotment

variable {α β : Type*}

/-- The name is gone when the asker with this number comes: one before it had the name as the first that was left. -/
inductive Taken (wish : β → ℕ → α) (askers : List β) : ℕ → α → Prop
  | intro {i j k : ℕ} {b : β} (earlier : j < i) (asker : askers[j]? = some b)
      (better : ∀ l < k, Taken wish askers j (wish b l)) : Taken wish askers i (wish b k)

/-- The asker with this number is given the name. -/
def Given (wish : β → ℕ → α) (askers : List β) (i : ℕ) (x : α) : Prop :=
  ∃ b k, askers[i]? = some b ∧ x = wish b k ∧ ¬Taken wish askers i x ∧ ∀ l < k, Taken wish askers i (wish b l)

/-- Nobody comes when all names are gone. -/
def Supplied (wish : β → ℕ → α) (askers : List β) : Prop :=
  ∀ i b, askers[i]? = some b → ∃ k, ¬Taken wish askers i (wish b k)

variable {wish : β → ℕ → α} {askers : List β} {i j : ℕ} {x y : α}

theorem Taken.mono (h : Taken wish askers i x) (hij : i ≤ j) : Taken wish askers j x := by
  cases h with
  | intro earlier asker better => exact .intro (lt_of_lt_of_le earlier hij) asker better

theorem not_taken_zero : ¬Taken wish askers 0 x := by
  intro h
  cases h with
  | intro earlier => exact absurd earlier (Nat.not_lt_zero _)

/-- What is gone after an asker is what was gone before it and the name that it is given. -/
theorem taken_succ : Taken wish askers (i+1) x ↔ Taken wish askers i x ∨ Given wish askers i x := by
  constructor
  · intro h
    by_cases hgone : Taken wish askers i x
    · exact Or.inl hgone
    · cases h with
      | intro earlier asker better =>
        rcases Nat.lt_succ_iff_lt_or_eq.mp earlier with hlt | rfl
        · exact absurd (.intro hlt asker better) hgone
        · exact Or.inr ⟨_,_,asker,rfl,hgone,better⟩
  · rintro (h | ⟨b,k,hb,rfl,-,hbetter⟩)
    · exact h.mono (Nat.le_succ i)
    · exact .intro (Nat.lt_succ_self i) hb hbetter

theorem taken_iff : Taken wish askers i x ↔ ∃ j < i, Given wish askers j x := by
  induction i with
  | zero => exact iff_of_false not_taken_zero fun ⟨j,hj,_⟩ => absurd hj (Nat.not_lt_zero j)
  | succ i ih =>
    rw [taken_succ,ih]
    constructor
    · rintro (⟨j,hj,hx⟩ | hx)
      · exact ⟨j,lt_trans hj (Nat.lt_succ_self i),hx⟩
      · exact ⟨i,Nat.lt_succ_self i,hx⟩
    · rintro ⟨j,hj,hx⟩
      rcases Nat.lt_succ_iff_lt_or_eq.mp hj with hlt | rfl
      · exact Or.inl ⟨j,hlt,hx⟩
      · exact Or.inr hx

theorem Given.unique (hx : Given wish askers i x) (hy : Given wish askers i y) : x = y := by
  obtain ⟨b,k,hb,rfl,hxfree,hxbetter⟩ := hx
  obtain ⟨b',k',hb',rfl,hyfree,hybetter⟩ := hy
  obtain rfl := Option.some.inj (hb.symm.trans hb')
  rcases lt_trichotomy k k' with hlt | rfl | hlt
  · exact absurd (hybetter k hlt) hxfree
  · rfl
  · exact absurd (hxbetter k' hlt) hyfree

/-- No name is given twice. -/
theorem Given.ne (hij : i < j) (hx : Given wish askers i x) (hy : Given wish askers j y) : x ≠ y := by
  rintro rfl
  obtain ⟨b,k,-,-,hfree,-⟩ := hy
  exact hfree (taken_iff.mpr ⟨i,hij,hx⟩)

/-- An asker gets a name as long as one of its own is left. -/
theorem given_iff {b : β} (hb : askers[i]? = some b) :
    (∃ x, Given wish askers i x) ↔ ∃ k, ¬Taken wish askers i (wish b k) := by
  constructor
  · rintro ⟨x,b',k,hb',rfl,hfree,-⟩
    obtain rfl := Option.some.inj (hb'.symm.trans hb)
    exact ⟨k,hfree⟩
  · intro h
    classical
    exact ⟨wish b (Nat.find h),b,Nat.find h,hb,rfl,Nat.find_spec h,fun l hl => not_not.mp (Nat.find_min h hl)⟩

theorem supplied_iff : Supplied wish askers ↔ ∀ i < askers.length, ∃ x, Given wish askers i x := by
  constructor
  · intro h i hi
    have hb := List.getElem?_eq_getElem hi
    exact (given_iff hb).mpr (h i _ hb)
  · intro h i b hb
    obtain ⟨hi,-⟩ := List.getElem?_eq_some_iff.mp hb
    exact (given_iff hb).mp (h i hi)

/-- An asker whose first name another one before it wanted first too does not get it. -/
theorem taken_first {b : β} (hij : i < j) (hb : askers[i]? = some b) : Taken wish askers j (wish b 0) :=
  .intro hij hb fun _ hl => absurd hl (Nat.not_lt_zero _)

end Allotment
end Biggy
