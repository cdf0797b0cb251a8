import Biggy.Run

/-!
# Inputs that leave no trace

Some inputs of a machine are hidden from an observer. When a hidden input keeps two states alike for the observer and a shown
one leads alike states to alike states, the observer cannot tell runs apart that differ in hidden inputs only.
-/
namespace Biggy
namespace Purge

open Run

variable {σ ι : Type*} {step : σ → ι → σ} {hidden : ι → Bool} {Alike : σ → σ → Prop}

/-- What is left of a run without its hidden inputs. -/
def purge (hidden : ι → Bool) (is : List ι) : List ι := is.filter fun i => !hidden i

/-- The two conditions on single steps. -/
structure Unwinds (step : σ → ι → σ) (hidden : ι → Bool) (Alike : σ → σ → Prop) : Prop where
  local' : ∀ s s' i, Alike s s' → hidden i = true → Alike (step s i) s'
  shown : ∀ s s' i, Alike s s' → hidden i = false → Alike (step s i) (step s' i)

theorem alike_purge (h : Unwinds step hidden Alike) {s s' : σ} (halike : Alike s s') (is : List ι) :
    Alike (exec step s is) (exec step s' (purge hidden is)) := by
  induction is generalizing s s' with
  | nil => exact halike
  | cons i is ih =>
    cases hhidden : hidden i with
    | true =>
      rw [purge,List.filter_cons_of_neg (by simp [hhidden])]
      exact ih (h.local' s s' i halike hhidden)
    | false =>
      rw [purge,List.filter_cons_of_pos (by simp [hhidden]),exec_cons,exec_cons]
      exact ih (h.shown s s' i halike hhidden)

/-- What an observer sees is the same in all runs that agree on the shown inputs. -/
theorem same_view {ω : Type*} (h : Unwinds step hidden Alike) {s : σ} (halike : Alike s s) (view : σ → ω)
    (hview : ∀ s s', Alike s s' → view s = view s') {is js : List ι} (hsame : purge hidden is = purge hidden js) :
    view (exec step s is) = view (exec step s js) := by
  have hi := hview _ _ (alike_purge h halike is)
  have hj := hview _ _ (alike_purge h halike js)
  rw [hsame] at hi
  exact hi.trans hj.symm

end Purge
end Biggy
