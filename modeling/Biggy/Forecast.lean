import Biggy.Commits
import Biggy.Paired
import Mathlib.Algebra.Order.BigOperators.Group.List
import Mathlib.Algebra.Order.Ring.Nat

/-!
# Counts taken before a loop, and by it

A loop counts something at each of its turns and changes the state. What is counted beforehand for a turn is never less,
and it is right for all of them exactly when no turn takes anything from a later one.
-/
namespace Biggy
namespace Forecast

open Commits Commits.Prog

variable {σ ω ε ι : Type*}

/-- A turn counts what there is for it, and leaves what there is for another as it was exactly when it spares it. -/
structure Counting (P : σ → Prop) (count : ι → σ → ℕ) (Spares : ι → ι → σ → Prop) (f : ι → Prog σ ω ε ℕ) (xs : List ι) :
    Prop where
  counts : ∀ x ∈ xs, ∀ s, P s → ∀ n, (f x s).result = .ok n → n = count x s
  keeps : ∀ x ∈ xs, Ensures P (f x) P
  shrinks : ∀ x ∈ xs, ∀ y ∈ xs, ∀ s, P s → ∀ n, (f x s).result = .ok n → count y (f x s).state ≤ count y s
  spares : ∀ x ∈ xs, ∀ y ∈ xs, ∀ s, P s → ∀ n, (f x s).result = .ok n →
    (count y (f x s).state = count y s ↔ Spares x y s)
  stable : ∀ x ∈ xs, ∀ y ∈ xs, ∀ z ∈ xs, ∀ s, P s → Spares x y s → Spares x z s → ∀ n, (f x s).result = .ok n →
    (Spares y z (f x s).state ↔ Spares y z s)

section Counting

variable {P : σ → Prop} {count : ι → σ → ℕ} {Spares : ι → ι → σ → Prop} {f : ι → Prog σ ω ε ℕ} {x : ι} {xs : List ι}

theorem Counting.tail (h : Counting P count Spares f (x::xs)) : Counting P count Spares f xs where
  counts y hy := h.counts y (List.mem_cons_of_mem x hy)
  keeps y hy := h.keeps y (List.mem_cons_of_mem x hy)
  shrinks y hy z hz := h.shrinks y (List.mem_cons_of_mem x hy) z (List.mem_cons_of_mem x hz)
  spares y hy z hz := h.spares y (List.mem_cons_of_mem x hy) z (List.mem_cons_of_mem x hz)
  stable y hy z hz w hw :=
    h.stable y (List.mem_cons_of_mem x hy) z (List.mem_cons_of_mem x hz) w (List.mem_cons_of_mem x hw)

theorem le_map {count count' : ι → ℕ} {xs : List ι} (h : ∀ y ∈ xs, count y ≤ count' y) :
    List.Forall₂ (· ≤ ·) (xs.map count) (xs.map count') :=
  List.forall₂_map_left_iff.mpr (List.forall₂_map_right_iff.mpr (List.forall₂_same.mpr h))

theorem eq_of_le {ns ms : List ℕ} (h : List.Forall₂ (· ≤ ·) ns ms) (h' : List.Forall₂ (· ≤ ·) ms ns) : ns = ms := by
  induction h with
  | nil => rfl
  | cons hle _ ih =>
    cases h' with
    | cons hle' htail => rw [Nat.le_antisymm hle hle',ih htail]

/-- What the loop counts is at most what was counted before, and the same exactly when every turn spares the later ones. -/
theorem Counting.counted (h : Counting P count Spares f xs) {s : σ} (hs : P s) {ns : List ℕ}
    (hok : (xs.mapM f s).result = .ok ns) : List.Forall₂ (· ≤ ·) ns (xs.map fun x => count x s) ∧
      (ns = xs.map (fun x => count x s) ↔ xs.Pairwise fun x y => Spares x y s) := by
  induction xs generalizing s ns with
  | nil =>
    obtain rfl : [] = ns := Except.ok.inj hok
    exact ⟨.nil,iff_of_true rfl .nil⟩
  | cons x xs ih =>
    have hmem : ∀ {y}, y ∈ xs → y ∈ x::xs := fun hy => List.mem_cons_of_mem x hy
    rw [List.mapM_cons] at hok
    obtain ⟨n,hn,hrest,-,-⟩ := bind_ok hok
    obtain ⟨ns',hns',hlast,-,-⟩ := bind_ok hrest
    obtain rfl : n::ns' = ns := Except.ok.inj hlast
    obtain ⟨hle,hiff⟩ := ih h.tail (h.keeps x List.mem_cons_self s hs n hn) hns'
    have hshrinks := le_map fun y hy => h.shrinks x List.mem_cons_self y (hmem hy) s hs n hn
    have hsame := fun y hy => h.spares x List.mem_cons_self y (hmem hy) s hs n hn
    rw [h.counts x List.mem_cons_self s hs n hn,List.map_cons]
    have hbelow := Paired.trans (R := fun n m : ℕ => n ≤ m) (fun _ _ _ => Nat.le_trans) hle hshrinks
    refine ⟨.cons (Nat.le_refl _) hbelow,?_⟩
    rw [List.cons_inj_right,List.pairwise_cons]
    constructor
    · intro heq
      have hback : ns' = xs.map fun y => count y (f x s).state := eq_of_le hle (heq ▸ hshrinks)
      have hspares : ∀ y ∈ xs, Spares x y s := by
        have hcounts := hback.symm.trans heq
        exact fun y hy => (hsame y hy).mp (List.map_inj_left.mp hcounts y hy)
      refine ⟨hspares,(hiff.mp hback).imp_of_mem fun hy hz hspared => ?_⟩
      exact (h.stable x List.mem_cons_self _ (hmem hy) _ (hmem hz) s hs (hspares _ hy) (hspares _ hz) n hn).mp hspared
    · rintro ⟨hspares,hpairs⟩
      have hback : ns' = xs.map fun y => count y (f x s).state := hiff.mpr <| hpairs.imp_of_mem fun hy hz hspared =>
        (h.stable x List.mem_cons_self _ (hmem hy) _ (hmem hz) s hs (hspares _ hy) (hspares _ hz) n hn).mpr hspared
      rw [hback]
      exact List.map_congr_left fun y hy => (hsame y hy).mpr (hspares y hy)

end Counting

/-! ### Lists of counts -/

variable {α : Type*}

/-- The counts under their labels, less those that are zero. -/
def listed (labels : List α) (ns : List ℕ) : List (α × ℕ) := (labels.zip ns).filter fun e => decide (e.2 ≠ 0)

/-- Nothing is lost from the total. -/
theorem sum_listed {labels : List α} {ns : List ℕ} (h : ns.length = labels.length) :
    ((listed labels ns).map Prod.snd).sum = ns.sum := by
  induction ns generalizing labels with
  | nil => simp [listed]
  | cons n ns ih =>
    cases labels with
    | nil => cases h
    | cons label labels =>
      have htail := ih (Nat.succ.inj h)
      rw [listed] at htail ⊢
      rw [List.zip_cons_cons,List.filter_cons]
      by_cases hn : n = 0
      · simpa [hn] using htail
      · simpa [hn] using htail

/-- Smaller counts with the same total are the same. -/
theorem eq_of_sum {ns ms : List ℕ} (h : List.Forall₂ (· ≤ ·) ns ms) (hsum : ns.sum = ms.sum) : ns = ms := by
  induction h with
  | nil => rfl
  | @cons n m ns ms hle htail ih =>
    have hrest := List.Forall₂.sum_le_sum htail
    rw [List.sum_cons,List.sum_cons] at hsum
    have hn : n = m := by omega
    rw [hn,ih (by omega)]

/-- Smaller counts make the same list only when they are the same. -/
theorem listed_inj {labels : List α} {ns ms : List ℕ} (hlength : ms.length = labels.length)
    (h : List.Forall₂ (· ≤ ·) ns ms) : listed labels ns = listed labels ms ↔ ns = ms := by
  constructor
  · intro heq
    have hsum := congrArg (fun es => (es.map Prod.snd).sum) heq
    simp only [sum_listed hlength,sum_listed (h.length_eq.trans hlength)] at hsum
    exact eq_of_sum h hsum
  · rintro rfl
    rfl

/-- A list that is built with its counts. -/
theorem listed_map (label : ι → α) (count : ι → ℕ) (xs : List ι) :
    xs.filterMap (fun x => if count x = 0 then none else some (label x,count x)) =
      listed (xs.map label) (xs.map count) := by
  induction xs with
  | nil => rfl
  | cons x xs ih =>
    rw [listed] at ih ⊢
    rw [List.filterMap_cons,List.map_cons,List.map_cons,List.zip_cons_cons,List.filter_cons]
    by_cases hx : count x = 0
    · simp [hx,ih]
    · simp [hx,ih]

end Forecast
end Biggy
