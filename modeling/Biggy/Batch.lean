import Mathlib.Data.List.Sort
import Mathlib.Data.List.Nodup
import Mathlib.Order.Basic

/-!
# Batches by key

The first elements above a bound in the order of a key. With unique keys a batch is an
initial part of everything above the bound.
-/
namespace Biggy
namespace Batch

variable {α κ : Type*} [LinearOrder κ] (key : α → κ)

/-- The elements of `xs` in the order of the key. -/
def sorted (xs : List α) : List α := xs.insertionSort fun a b => key a ≤ key b

/-- The first `n` elements whose key is above the bound. -/
def after (bound : κ) (n : ℕ) (xs : List α) : List α :=
  (sorted key (xs.filter fun x => decide (bound < key x))).take n

@[simp] theorem mem_sorted {xs : List α} {x : α} : x ∈ sorted key xs ↔ x ∈ xs :=
  List.mem_insertionSort _

theorem perm_sorted (xs : List α) : (sorted key xs).Perm xs := List.perm_insertionSort _ xs

theorem pairwise_sorted (xs : List α) : (sorted key xs).Pairwise fun a b => key a ≤ key b := by
  have : Std.Total fun a b : α => key a ≤ key b := ⟨fun a b => le_total (key a) (key b)⟩
  have : IsTrans α fun a b : α => key a ≤ key b := ⟨fun _ _ _ => le_trans⟩
  exact List.pairwise_insertionSort _ xs

variable {key} {bound : κ} {n : ℕ} {xs : List α}

theorem mem_of_mem_after {x : α} (h : x ∈ after key bound n xs) : x ∈ xs ∧ bound < key x := by
  have hsorted := List.mem_of_mem_take h
  rw [mem_sorted,List.mem_filter,decide_eq_true_eq] at hsorted
  exact hsorted

theorem nodup_after (hkeys : (xs.map key).Nodup) : ((after key bound n xs).map key).Nodup := by
  have hfilter : ((xs.filter fun x => decide (bound < key x)).map key).Nodup :=
    hkeys.sublist (List.filter_sublist.map key)
  have hsorted : ((sorted key (xs.filter fun x => decide (bound < key x))).map key).Nodup :=
    ((perm_sorted key _).map key).nodup_iff.mpr hfilter
  exact hsorted.sublist ((List.take_sublist n _).map key)

/-- Whatever is above the bound and not above an element of the batch is in the batch. -/
theorem mem_after_of_le (hkeys : (xs.map key).Nodup) {x y : α} (hx : x ∈ xs) (hbound : bound < key x)
    (hy : y ∈ after key bound n xs) (hle : key x ≤ key y) : x ∈ after key bound n xs := by
  have hin : x ∈ sorted key (xs.filter fun x => decide (bound < key x)) := by
    simp [hx,hbound]
  rw [← List.take_append_drop n (sorted key _)] at hin
  rcases List.mem_append.mp hin with htake | hdrop
  · exact htake
  · have hpair := pairwise_sorted key (xs.filter fun x => decide (bound < key x))
    rw [← List.take_append_drop n (sorted key _),List.pairwise_append] at hpair
    have heq : key x = key y := le_antisymm hle (hpair.2.2 y hy x hdrop)
    have hsame : x = y := List.inj_on_of_nodup_map hkeys hx (mem_of_mem_after hy).1 heq
    exact hsame ▸ hy

end Batch
end Biggy
