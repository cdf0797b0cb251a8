import Mathlib.Data.Nat.Notation
import Mathlib.Tactic.Common

/-!
# Loops

A round of a loop goes on with a new state or leaves with a result. With a measure that falls in every round the loop leaves
from every state, and an invariant of the rounds is handed over to the result.
-/
namespace Biggy

/-- A loop that ends: the measure bounds the rounds that are still to come. -/
structure Loop (σ ρ : Type*) where
  round : σ → σ ⊕ ρ
  measure : σ → ℕ
  falls : ∀ s s', round s = .inl s' → measure s' < measure s

namespace Loop

variable {σ ρ : Type*}

/-- From a state, the rounds come to a result. -/
inductive Leaves (round : σ → σ ⊕ ρ) : σ → ρ → Prop
  | done {s : σ} {r : ρ} (h : round s = .inr r) : Leaves round s r
  | next {s s' : σ} {r : ρ} (h : round s = .inl s') (hr : Leaves round s' r) : Leaves round s r

section Rules

variable {round : σ → σ ⊕ ρ} {s : σ} {r : ρ}

/-- What holds at first and after every round holds where the loop leaves. -/
theorem Leaves.rule (Inv : σ → Prop) (Post : ρ → Prop) (hround : ∀ s s', Inv s → round s = .inl s' → Inv s')
    (hpost : ∀ s r, Inv s → round s = .inr r → Post r) (h : Leaves round s r) (hs : Inv s) : Post r := by
  induction h with
  | done hdone => exact hpost _ _ hs hdone
  | next hnext _ ih => exact ih (hround _ _ hs hnext)

end Rules

variable (L : Loop σ ρ)

/-- The rounds from a state whose measure is below a number. -/
def within : (n : ℕ) → (s : σ) → L.measure s < n → ρ
  | 0, _, h => (Nat.not_lt_zero _ h).elim
  | n+1, s, h =>
    match hs : L.round s with
    | .inl s' => within n s' (Nat.lt_of_lt_of_le (L.falls s s' hs) (Nat.le_of_lt_succ h))
    | .inr r => r

/-- The result of the loop. -/
def run (s : σ) : ρ := L.within (L.measure s+1) s (Nat.lt_succ_self _)

theorem within_leaves {n : ℕ} {s : σ} (h : L.measure s < n) : Leaves L.round s (L.within n s h) := by
  induction n generalizing s with
  | zero => exact absurd h (Nat.not_lt_zero _)
  | succ n ih =>
    rw [within]
    split
    · rename_i s' hs
      exact .next hs (ih _)
    · rename_i r hs
      exact .done hs

/-- The loop leaves from every state. -/
theorem run_leaves (s : σ) : Leaves L.round s (L.run s) := L.within_leaves _

end Loop
end Biggy
