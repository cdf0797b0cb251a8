import Biggy.Metadata
import Biggy.GraphLoop
import Mathlib.Data.Finset.Union
import Mathlib.Data.Finset.Sort

/-!
# Companies

Companies form a tree by their parents, and a user of a company is let in on everything below
it. `subtree_ids` goes down level by level; a parent chain may be cyclic.
-/
namespace Biggy
namespace Companies

open GraphLoop

structure Company where
  id : ℕ
  parentId : Option ℕ

/-- An account with the company it belongs to. -/
structure Account extends AppUser where
  companyId : Option ℕ := none

section Subtree

variable (companies : List Company)

/-- `children.get(cid, set())`. -/
def children (cid : ℕ) : Finset ℕ := ((companies.filter fun c => c.parentId = some cid).map Company.id).toFinset

/-- The loop of `subtree_ids`, for a number of levels. -/
def descend : ℕ → Finset ℕ → Finset ℕ → Finset ℕ
  | 0, ids, _ => ids
  | levels+1, ids, frontier =>
    let next := frontier.biUnion (children companies) \ ids
    if next = ∅ then ids else descend levels (ids ∪ next) next

/-- `subtree_ids`; every level but the last adds a company, so there are no more levels than companies. -/
def subtreeIds (root : ℕ) : Finset ℕ := descend companies (companies.length+1) {root} {root}

end Subtree

section SubtreeRules

variable {companies : List Company}

theorem mem_children {cid x : ℕ} : x ∈ children companies cid ↔ ∃ c ∈ companies, c.parentId = some cid ∧ c.id = x := by
  simp [children,and_assoc]

theorem children_ids (companies : List Company) (cid : ℕ) : children companies cid ⊆ (companies.map Company.id).toFinset := by
  intro x hx
  obtain ⟨c,hc,-,rfl⟩ := mem_children.mp hx
  exact List.mem_toFinset.mpr (List.mem_map_of_mem hc)

/-- With a level for each company that is still to come, the levels are those of the loop. -/
theorem descend_leaves {levels : ℕ} {ids frontier : Finset ℕ}
    (hlevels : ((companies.map Company.id).toFinset \ ids).card < levels) :
    Loop.Leaves (frontRound (children companies)) ⟨ids,frontier⟩ (descend companies levels ids frontier) := by
  induction levels generalizing ids frontier with
  | zero => exact absurd hlevels (Nat.not_lt_zero _)
  | succ levels ih =>
    simp only [descend]
    rcases Finset.eq_empty_or_nonempty frontier with rfl | hfrontier
    · have hnone : (∅ : Finset ℕ).biUnion (children companies) \ ids = ∅ := by simp
      rw [if_pos hnone]
      exact .done (if_pos rfl)
    · refine .next (if_neg hfrontier.ne_empty) ?_
      rcases Finset.eq_empty_or_nonempty (frontier.biUnion (children companies) \ ids) with hlast | ⟨x,hx⟩
      · rw [if_pos hlast,Front.fresh,hlast,Finset.union_empty]
        exact .done (if_pos rfl)
      · rw [if_neg (Finset.nonempty_iff_ne_empty.mp ⟨x,hx⟩)]
        obtain ⟨hfound,hfresh⟩ := Finset.mem_sdiff.mp hx
        obtain ⟨cid,-,hchild⟩ := Finset.mem_biUnion.mp hfound
        have hless := card_sdiff_lt Finset.subset_union_left (Finset.mem_union_right ids hx) hfresh (children_ids _ _ hchild)
        exact ih (lt_of_lt_of_le hless (Nat.le_of_lt_succ hlevels))

theorem subtreeIds_leaves (companies : List Company) (root : ℕ) :
    Loop.Leaves (frontRound (children companies)) ⟨{root},{root}⟩ (subtreeIds companies root) := by
  have hcard : (companies.map Company.id).toFinset.card ≤ companies.length :=
    (List.toFinset_card_le _).trans_eq (List.length_map _)
  exact descend_leaves (Nat.lt_succ_of_le ((Finset.card_le_card Finset.sdiff_subset).trans hcard))

/-- The subtree of a company is what its children's links lead to. -/
theorem mem_subtreeIds {root x : ℕ} : x ∈ subtreeIds companies root ↔
    Relation.ReflTransGen (fun a b => b ∈ children companies a) root x := by
  rw [front_reaches (subtreeIds_leaves companies root)]
  simp only [Finset.mem_singleton,exists_eq_left]

theorem root_mem_subtreeIds (companies : List Company) (root : ℕ) : root ∈ subtreeIds companies root :=
  mem_subtreeIds.mpr .refl

/-- With distinct ids they are the companies whose parent links come to the root. -/
theorem mem_subtreeIds_iff (hnodup : (companies.map Company.id).Nodup) {root x : ℕ} : x ∈ subtreeIds companies root ↔
    Forest.Above (Forest.upOf Company.id Company.parentId companies) x root := by
  have hlink : (fun a b => b ∈ children companies a) =
      Function.swap (Forest.Link (Forest.upOf Company.id Company.parentId companies)) := by
    funext a b
    refine propext ?_
    change b ∈ children companies a ↔ Forest.Link (Forest.upOf Company.id Company.parentId companies) b a
    rw [mem_children,Forest.Link,Forest.upOf_iff hnodup]
    exact exists_congr fun c => and_congr_right fun _ => and_comm
  rw [mem_subtreeIds,hlink,Forest.Above,Relation.reflTransGen_swap]

/-- A child step: the company has the other one as its parent. -/
def ChildOf (companies : List Company) (a b : ℕ) : Prop := ∃ c ∈ companies, c.parentId = some a ∧ c.id = b

/-- The loop of `subtree_ids` ends, with the ids that child steps lead to from the root. -/
theorem subtree_exact (companies : List Company) (root : ℕ) :
    Loop.Leaves (frontRound (children companies)) ⟨{root},{root}⟩ (subtreeIds companies root) ∧
      ∀ x, x ∈ subtreeIds companies root ↔ Relation.ReflTransGen (ChildOf companies) root x := by
  refine ⟨subtreeIds_leaves companies root,fun x => ?_⟩
  have hchild : (fun a b => b ∈ children companies a) = ChildOf companies := by
    funext a b
    exact propext mem_children
  rw [mem_subtreeIds,hchild]

end SubtreeRules

/-- `not id`, of an id that may be absent. -/
def noId : Option ℕ → Bool
  | none => true
  | some id => id == 0

/-- `allowed_for_user`; `none` stands for a user who sees everything. -/
def allowedForUser (accounts : List Account) (companies : List Company) (userId : Option ℕ) : Option (Finset ℕ) :=
  if noId userId then none
  else
    match userId.bind fun id => Keyed.find (fun a : Account => a.id) id accounts with
    | none => none
    | some user =>
      match user.companyId with
      | none => none
      | some company => if company = 0 then none else some (subtreeIds companies company)

end Companies
end Biggy
