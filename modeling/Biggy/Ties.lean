import Biggy.Paging
import Mathlib.Data.List.Sort

/-!
# Orders with ties

Elements that come before each other may stand in any order. When pages that are cut out of different orders of one list
make up the list.
-/
namespace Biggy
namespace Ties

open Paging

variable {α : Type*} (le : α → α → Bool)

/-- The list in an order that the comparison allows. -/
def Permitted (xs ordered : List α) : Prop := ordered.Perm xs ∧ ordered.Pairwise fun a b => le a b = true

/-- The number of elements that come before, whatever the order is. -/
def lower (xs : List α) (x : α) : ℕ := xs.countP fun y => !le x y

/-- The number of elements that may come before, and of the element itself. -/
def upper (xs : List α) (x : α) : ℕ := xs.countP fun y => le y x

/-- No two elements that may change places stand on both sides of the position. -/
def Separated (xs : List α) (k : ℕ) : Prop := ∀ x ∈ xs, ¬(lower le xs x < k ∧ k < upper le xs x)

/-- Pages 1 to `n`, each cut out of an order of its own. -/
def pages (e n : ℕ) (orders : ℕ → List α) : List α := (List.range n).flatMap fun i => page e (i+1) (orders (i+1))

variable {le} (htotal : ∀ a b, le a b = true ∨ le b a = true) (htrans : ∀ a b c, le a b = true → le b c = true → le a c = true)
  {xs ordered front back : List α} {e k n : ℕ} {x : α}

theorem lower_perm (h : ordered.Perm xs) : lower le ordered x = lower le xs x := h.countP_eq _

theorem upper_perm (h : ordered.Perm xs) : upper le ordered x = upper le xs x := h.countP_eq _

theorem upper_le_length : upper le xs x ≤ xs.length := List.countP_le_length

/-- The two elements around a position inside a list. -/
theorem split_at (hpos : 0 < k) (hk : k < xs.length) : ∃ front a b back, xs = front++a::b::back ∧ front.length+1 = k := by
  refine ⟨xs.take (k-1),xs[k-1],xs[k],xs.drop (k+1),?_,?_⟩
  · have hfirst := List.drop_eq_getElem_cons (show k-1 < xs.length by omega)
    have hsecond := List.drop_eq_getElem_cons hk
    rw [show k-1+1 = k by omega,hsecond] at hfirst
    rw [← hfirst,List.take_append_drop]
  · rw [List.length_take]
    omega

theorem pairwise_swap {a b : α} (hsorted : (front++a::b::back).Pairwise fun a b => le a b = true) (hba : le b a = true) :
    (front++b::a::back).Pairwise fun a b => le a b = true := by
  obtain ⟨hfront,hback,hcross⟩ := List.pairwise_append.mp hsorted
  obtain ⟨ha,hback⟩ := List.pairwise_cons.mp hback
  obtain ⟨hb,hback⟩ := List.pairwise_cons.mp hback
  refine List.pairwise_append.mpr ⟨hfront,?_,fun y hy z hz => hcross y hy z ((List.Perm.swap a b back).mem_iff.mp hz)⟩
  refine List.pairwise_cons.mpr ⟨?_,List.pairwise_cons.mpr ⟨fun y hy => ha y (List.mem_cons_of_mem b hy),hback⟩⟩
  intro y hy
  rcases List.mem_cons.mp hy with rfl | hy
  · exact hba
  · exact hb y hy

include htotal

theorem le_self (a : α) : le a a = true := (htotal a a).elim id id

/-- An element stands behind those that come before it, and before those that may not. -/
theorem bounds (hsorted : (front++x::back).Pairwise fun a b => le a b = true) :
    lower le (front++x::back) x ≤ front.length ∧ front.length < upper le (front++x::back) x := by
  obtain ⟨-,hback,hcross⟩ := List.pairwise_append.mp hsorted
  have hself := le_self htotal x
  constructor
  · have hrest : (x::back).countP (fun y => !le x y) = 0 := by
      rw [List.countP_eq_zero]
      intro y hy
      rcases List.mem_cons.mp hy with rfl | hy
      · simp [hself]
      · simp [(List.pairwise_cons.mp hback).1 y hy]
    rw [lower,List.countP_append,hrest]
    exact List.countP_le_length
  · have hall : front.countP (fun y => le y x) = front.length :=
      List.countP_eq_length.mpr fun y hy => hcross y hy x List.mem_cons_self
    have hpos : 0 < (x::back).countP fun y => le y x := List.countP_pos_iff.mpr ⟨x,List.mem_cons_self,hself⟩
    rw [upper,List.countP_append,hall]
    omega

/-- Where a position separates the ties, the same elements stand before it in every order. -/
theorem take_eq_filter (hordered : Permitted le xs ordered) (hseparated : Separated le xs k) :
    ordered.take k = ordered.filter fun x => decide (upper le xs x ≤ k) := by
  obtain ⟨hperm,hsorted⟩ := hordered
  have hfront : ∀ y ∈ ordered.take k, decide (upper le xs y ≤ k) = true := by
    intro y hy
    have hmem : y ∈ xs := hperm.mem_iff.mp (List.mem_of_mem_take hy)
    obtain ⟨l,l',hsplit⟩ := List.append_of_mem hy
    have hlength : l.length < k := by
      have := congrArg List.length hsplit
      simp only [List.length_take,List.length_append,List.length_cons] at this
      omega
    have hwhole : ordered = l++y::(l'++ordered.drop k) := by
      conv_lhs => rw [← List.take_append_drop k ordered,hsplit]
      simp
    have hlower : lower le xs y ≤ l.length := by
      rw [← lower_perm hperm,hwhole]
      exact (bounds htotal (hwhole ▸ hsorted)).1
    have hnot := hseparated y hmem
    exact decide_eq_true (by omega)
  have hrest : (ordered.drop k).filter (fun y => decide (upper le xs y ≤ k)) = [] := by
    rw [List.filter_eq_nil_iff]
    intro y hy
    obtain ⟨l,l',hsplit⟩ := List.append_of_mem hy
    have hlength : k ≤ (ordered.take k++l).length := by
      have := congrArg List.length hsplit
      simp only [List.length_drop,List.length_append,List.length_cons,List.length_take] at this ⊢
      omega
    have hwhole : ordered = (ordered.take k++l)++y::l' := by
      conv_lhs => rw [← List.take_append_drop k ordered,hsplit]
      simp
    have hupper : (ordered.take k++l).length < upper le xs y := by
      rw [← upper_perm hperm]
      conv_rhs => rw [hwhole]
      exact (bounds htotal (hwhole ▸ hsorted)).2
    simp only [decide_eq_true_eq]
    omega
  conv_rhs => rw [← List.take_append_drop k ordered,List.filter_append,List.filter_eq_self.mpr hfront,hrest,List.append_nil]

/-- The first pages together hold what stands before their end. -/
theorem pages_perm {orders : ℕ → List α} (horders : ∀ p, Permitted le xs (orders p)) (hseparated : ∀ i, Separated le xs (i*e)) :
    (pages e n orders).Perm (xs.filter fun x => decide (upper le xs x ≤ n*e)) := by
  induction n with
  | zero =>
    have hnone : xs.filter (fun x => decide (upper le xs x ≤ 0*e)) = [] := by
      rw [List.filter_eq_nil_iff]
      intro x hx
      have hpos : 0 < upper le xs x := List.countP_pos_iff.mpr ⟨x,hx,le_self htotal x⟩
      simp only [decide_eq_true_eq]
      omega
    rw [hnone]
    exact List.Perm.nil
  | succ n ih =>
    have hbefore := take_eq_filter htotal (horders (n+1)) (hseparated n)
    have hafter := take_eq_filter htotal (horders (n+1)) (hseparated (n+1))
    have hstep : (orders (n+1)).take (n*e) ++ page e (n+1) (orders (n+1)) = (orders (n+1)).take ((n+1)*e) :=
      take_append_page (Nat.le_add_left 1 n)
    have hjoin : pages e (n+1) orders = pages e n orders ++ page e (n+1) (orders (n+1)) := by
      rw [pages,List.range_succ,List.flatMap_append,List.flatMap_singleton,pages]
    have hfront : (pages e n orders).Perm ((orders (n+1)).take (n*e)) := by
      rw [hbefore]
      exact ih.trans ((horders (n+1)).1.symm.filter _)
    rw [hjoin]
    refine (hfront.append_right _).trans ?_
    rw [hstep,hafter]
    exact (horders (n+1)).1.filter _

/-- Pages that end where the ties are separated make up the list. -/
theorem pages_all {orders : ℕ → List α} (horders : ∀ p, Permitted le xs (orders p)) (hseparated : ∀ i, Separated le xs (i*e))
    (hn : xs.length ≤ n*e) : (pages e n orders).Perm xs := by
  have hall : xs.filter (fun x => decide (upper le xs x ≤ n*e)) = xs :=
    List.filter_eq_self.mpr fun x _ => decide_eq_true (upper_le_length.trans hn)
  have hperm := pages_perm htotal (n := n) horders hseparated
  rwa [hall] at hperm

include htrans

/-- Every list can be put in order. -/
theorem exists_permitted (xs : List α) : ∃ ordered, Permitted le xs ordered := by
  have : Std.Total fun a b => le a b = true := ⟨htotal⟩
  have : IsTrans α fun a b => le a b = true := ⟨htrans⟩
  exact ⟨xs.insertionSort fun a b => le a b = true,List.perm_insertionSort _ xs,List.pairwise_insertionSort _ xs⟩

/-- The elements on both sides of a position that does not separate the ties may change places. -/
theorem tied {a b : α} (hsorted : (front++a::b::back).Pairwise fun a b => le a b = true)
    (hlower : lower le (front++a::b::back) x < front.length+1) (hupper : front.length+1 < upper le (front++a::b::back) x) :
    le b a = true := by
  obtain ⟨-,hback,hcross⟩ := List.pairwise_append.mp hsorted
  obtain ⟨hab,hback⟩ := List.pairwise_cons.mp hback
  have hxa : le x a = true := by
    by_contra hxa
    have hall : (front++[a]).countP (fun y => !le x y) = (front++[a]).length := by
      rw [List.countP_eq_length]
      intro y hy
      have hya : le y a = true := by
        rcases List.mem_append.mp hy with hy | hy
        · exact hcross y hy a List.mem_cons_self
        · rw [List.mem_singleton.mp hy]
          exact le_self htotal a
      have hnot : ¬le x y = true := fun hxy => hxa (htrans x y a hxy hya)
      simpa using hnot
    rw [lower,show front++a::b::back = (front++[a])++(b::back) by simp,List.countP_append,hall] at hlower
    simp only [List.length_append,List.length_singleton] at hlower
    omega
  have hbx : le b x = true := by
    by_contra hbx
    have hnone : (b::back).countP (fun y => le y x) = 0 := by
      rw [List.countP_eq_zero]
      intro y hy hyx
      rcases List.mem_cons.mp hy with rfl | hy
      · exact hbx hyx
      · exact hbx (htrans b y x ((List.pairwise_cons.mp hback).1 y hy) hyx)
    have hle : (front++[a]).countP (fun y => le y x) ≤ (front++[a]).length := List.countP_le_length
    rw [upper,show front++a::b::back = (front++[a])++(b::back) by simp,List.countP_append,hnone] at hupper
    simp only [List.length_append,List.length_singleton] at hle
    omega
  exact htrans b x a hbx hxa

/-- Where no two elements may change places, every position separates them. -/
theorem separated_of_antisymm (hnodup : xs.Nodup)
    (hanti : ∀ a ∈ xs, ∀ b ∈ xs, le a b = true → le b a = true → a = b) (k : ℕ) : Separated le xs k := by
  rintro x - ⟨hlower,hupper⟩
  obtain ⟨ordered,hperm,hsorted⟩ := exists_permitted htotal htrans xs
  have hk : k < ordered.length := hperm.length_eq.symm ▸ hupper.trans_le upper_le_length
  rw [← lower_perm hperm] at hlower
  rw [← upper_perm hperm] at hupper
  obtain ⟨front,a,b,back,rfl,rfl⟩ := split_at ((Nat.zero_le _).trans_lt hlower) hk
  have hba := tied htotal htrans hsorted hlower hupper
  have hab := (List.pairwise_cons.mp (List.pairwise_append.mp hsorted).2.1).1 b List.mem_cons_self
  have hsame := hanti a (hperm.mem_iff.mp (by simp)) b (hperm.mem_iff.mp (by simp)) hab hba
  have hdifferent := (List.nodup_append.mp (hperm.nodup_iff.mpr hnodup)).2.1
  exact (List.nodup_cons.mp hdifferent).1 (hsame ▸ List.mem_cons_self)

/-- Pages of a list of different elements that make it up in all orders end where the ties are separated. -/
theorem separated_of_pages (he : 0 < e) (hnodup : xs.Nodup) (hn : xs.length ≤ n*e)
    (hpages : ∀ orders : ℕ → List α, (∀ p, Permitted le xs (orders p)) → (pages e n orders).Perm xs) (i : ℕ) :
    Separated le xs (i*e) := by
  rintro x hx ⟨hlower,hupper⟩
  have hlt : i*e < xs.length := hupper.trans_le upper_le_length
  have hpos : 0 < i*e := (Nat.zero_le _).trans_lt hlower
  obtain ⟨ordered,hperm,hsorted⟩ := exists_permitted htotal htrans xs
  rw [← lower_perm hperm] at hlower
  rw [← upper_perm hperm] at hupper
  obtain ⟨front,a,b,back,rfl,hlength⟩ := split_at hpos (hperm.length_eq.symm ▸ hlt)
  rw [← hlength] at hlower hupper
  have hba := tied htotal htrans hsorted hlower hupper
  have hswap : Permitted le xs (front++b::a::back) := by
    refine ⟨((List.Perm.swap a b back).append_left front).trans hperm,?_⟩
    exact pairwise_swap hsorted hba
  have hmany := hpages (fun p => if p ≤ i then front++a::b::back else front++b::a::back) (fun p => by
    split
    · exact ⟨hperm,hsorted⟩
    · exact hswap)
  have hi : i < n := by
    by_contra hle
    have := Nat.mul_le_mul_right e (Nat.le_of_not_lt hle)
    omega
  have hone : 1 ≤ i := Nat.pos_of_mul_pos_right hpos
  have hfirst : a ∈ page e i (front++a::b::back) := by
    have hpred : (i-1)*e+e = i*e := by
      rw [← Nat.succ_mul,Nat.succ_eq_add_one,Nat.sub_add_cancel hone]
    rw [page,List.drop_append_of_le_length (by omega),List.take_append]
    refine List.mem_append_right _ ?_
    rw [List.length_drop]
    obtain ⟨m,hm⟩ := Nat.exists_eq_add_of_lt (show front.length-(i-1)*e < e by omega)
    rw [show e-(front.length-(i-1)*e) = m+1 by omega]
    exact List.mem_cons_self
  have hsecond : a ∈ page e (i+1) (front++b::a::back) := by
    obtain ⟨m,rfl⟩ := Nat.exists_eq_add_of_le' he
    rw [page,Nat.add_sub_cancel,← hlength,show front++b::a::back = (front++[b])++a::back by simp,
      List.drop_left' (by simp),List.take_succ_cons]
    exact List.mem_cons_self
  have hdifferent : (pages e n fun p => if p ≤ i then front++a::b::back else front++b::a::back).Nodup :=
    hmany.nodup_iff.mpr hnodup
  rw [pages,List.nodup_flatMap] at hdifferent
  have hapart := List.pairwise_iff_getElem.mp hdifferent.2 (i-1) i (by simp; omega) (by simpa using hi) (by omega)
  simp only [Function.onFun,List.getElem_range,Nat.sub_add_cancel hone,le_refl,if_true,show ¬i+1 ≤ i by omega,if_false] at hapart
  exact hapart hfirst hsecond

end Ties
end Biggy
