import Biggy.Run

/-!
# Referential integrity of a shrinking store

A store holds things and references to things. When a step can only take away, every state of a run keeps what is still
referred to exactly when every step does.
-/
namespace Biggy
namespace Integrity

open Run

variable {σ ρ ι : Type*} (refs has : σ → ρ → Prop)

/-- What was there and is still referred to is still there. -/
def Keeps (s t : σ) : Prop := ∀ r, refs t r → has s r → has t r

/-- Neither things nor references are new. -/
structure Shrinks (s t : σ) : Prop where
  refs : ∀ r, refs t r → refs s r
  has : ∀ r, has t r → has s r

variable {refs has} {s t u : σ}

theorem Keeps.refl : Keeps refs has s s := fun _ _ h => h

theorem Shrinks.refl : Shrinks refs has s s := ⟨fun _ h => h,fun _ h => h⟩

theorem Shrinks.trans (h : Shrinks refs has s t) (h' : Shrinks refs has t u) : Shrinks refs has s u :=
  ⟨fun r hr => h.refs r (h'.refs r hr),fun r hr => h.has r (h'.has r hr)⟩

theorem Keeps.trans (h : Keeps refs has s t) (h' : Keeps refs has t u) (hu : Shrinks refs has t u) :
    Keeps refs has s u := fun r hr hs => h' r hr (h r (hu.refs r hr) hs)

/-- What is kept from the start is kept from any later state. -/
theorem Keeps.later (h : Keeps refs has s u) (ht : Shrinks refs has s t) : Keeps refs has t u :=
  fun r hr hs => h r hr (ht.has r hs)

section Runs

variable {step : σ → ι → σ} (hstep : ∀ s i, Shrinks refs has s (step s i))

include hstep

theorem exec_shrinks (is : List ι) : Shrinks refs has s (exec step s is) := by
  induction is generalizing s with
  | nil => exact Shrinks.refl
  | cons i is ih => exact (hstep s i).trans ih

/-- The states of a run keep what is referred to exactly when its steps do. -/
theorem keeps_iff_meets (is : List ι) : (∀ before, before <+: is → Keeps refs has s (exec step s before)) ↔
    Meets step (fun s i => Keeps refs has s (step s i)) s is := by
  induction is generalizing s with
  | nil =>
    refine ⟨fun _ => trivial,fun _ before hbefore => ?_⟩
    rw [List.prefix_nil.mp hbefore]
    exact Keeps.refl
  | cons i is ih =>
    constructor
    · intro h
      refine ⟨h [i] (by simp),ih.mp fun before hbefore => ?_⟩
      exact (h (i::before) (List.cons_prefix_cons.mpr ⟨rfl,hbefore⟩)).later (hstep s i)
    · rintro ⟨hfirst,hrest⟩ before hbefore
      rcases before with _ | ⟨j,before⟩
      · exact Keeps.refl
      · obtain ⟨rfl,htail⟩ := List.cons_prefix_cons.mp hbefore
        exact hfirst.trans (ih.mpr hrest before htail) (exec_shrinks hstep before)

end Runs

end Integrity
end Biggy
