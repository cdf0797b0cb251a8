import Biggy.Loop
import Biggy.Forest
import Mathlib.Data.Finset.Union
import Mathlib.Data.Finset.Card

/-!
# Loops over a graph

Three searches of a graph and what they come to: level by level from a frontier, by a set that grows until it stays the same,
and along the one link that every item has.
-/
namespace Biggy
namespace GraphLoop

open Loop

variable {α : Type*} [DecidableEq α]

/-- What is still to come gets less by an element that is new. -/
theorem card_sdiff_lt {found more bound : Finset α} {x : α} (hsub : found ⊆ more) (hx : x ∈ more) (hnew : x ∉ found)
    (hbound : x ∈ bound) : (bound \ more).card < (bound \ found).card := by
  refine Finset.card_lt_card ⟨Finset.sdiff_subset_sdiff subset_rfl hsub,fun hback => ?_⟩
  exact (Finset.mem_sdiff.mp (hback (Finset.mem_sdiff.mpr ⟨hbound,hnew⟩))).2 hx

/-! ### Level by level -/

/-- What has been found, and what of it has just been found. -/
structure Front (α : Type*) where
  found : Finset α
  frontier : Finset α

section Frontier

variable (next : α → Finset α)

/-- What the frontier leads to and has not been found before. -/
def Front.fresh (s : Front α) : Finset α := s.frontier.biUnion next \ s.found

def frontRound (s : Front α) : Front α ⊕ Finset α :=
  if s.frontier = ∅ then .inr s.found else .inl ⟨s.found ∪ s.fresh next,s.fresh next⟩

variable {next}

/-- Everything found comes from the start, and everything but the frontier has handed on what it leads to. -/
structure Front.Sound (next : α → Finset α) (start : Finset α) (s : Front α) : Prop where
  starts : start ⊆ s.found
  reached : ∀ x ∈ s.found, ∃ a ∈ start, Relation.ReflTransGen (fun a b => b ∈ next a) a x
  handed : ∀ x ∈ s.found, x ∉ s.frontier → next x ⊆ s.found
  inside : s.frontier ⊆ s.found

theorem Front.Sound.round {start : Finset α} {s s' : Front α} (hs : s.Sound next start) (h : frontRound next s = .inl s') :
    s'.Sound next start := by
  rw [frontRound] at h
  split_ifs at h
  obtain rfl := Sum.inl.inj h
  constructor
  · exact hs.starts.trans Finset.subset_union_left
  · intro x hx
    rcases Finset.mem_union.mp hx with hold | hnew
    · exact hs.reached x hold
    · obtain ⟨y,hy,hlink⟩ := Finset.mem_biUnion.mp (Finset.mem_sdiff.mp hnew).1
      obtain ⟨a,ha,hpath⟩ := hs.reached y (hs.inside hy)
      exact ⟨a,ha,hpath.tail hlink⟩
  · intro x hx hout y hy
    have hold : x ∈ s.found := (Finset.mem_union.mp hx).resolve_right hout
    by_cases hfound : y ∈ s.found
    · exact Finset.mem_union_left _ hfound
    · by_cases hfront : x ∈ s.frontier
      · exact Finset.mem_union_right _ (Finset.mem_sdiff.mpr ⟨Finset.mem_biUnion.mpr ⟨x,hfront,hy⟩,hfound⟩)
      · exact absurd (hs.handed x hold hfront hy) hfound
  · exact Finset.subset_union_right

/-- The search finds what the links lead to. -/
theorem front_reaches {start found : Finset α} (h : Leaves (frontRound next) ⟨start,start⟩ found) (x : α) :
    x ∈ found ↔ ∃ a ∈ start, Relation.ReflTransGen (fun a b => b ∈ next a) a x := by
  have hstart : Front.Sound next start ⟨start,start⟩ :=
    ⟨subset_rfl,fun x hx => ⟨x,hx,.refl⟩,fun x hx hout => absurd hx hout,subset_rfl⟩
  have hend : Front.Sound next start ⟨found,∅⟩ := by
    refine h.rule (Front.Sound next start) (fun found => Front.Sound next start ⟨found,∅⟩)
      (fun s s' hs hround => hs.round hround) (fun s r hs hdone => ?_) hstart
    obtain ⟨found,frontier⟩ := s
    rw [frontRound] at hdone
    split_ifs at hdone with hempty
    obtain rfl := Sum.inr.inj hdone
    obtain rfl : frontier = ∅ := hempty
    exact hs
  constructor
  · exact hend.reached x
  · rintro ⟨a,ha,hpath⟩
    induction hpath with
    | refl => exact hend.starts ha
    | @tail b c _ hlink ih => exact hend.handed b ih (Finset.notMem_empty b) hlink

end Frontier

/-! ### Until nothing is added -/

section Growing

variable {ε : Type*} (grow : Finset α → Except ε (Finset α))

def growRound (s : Finset α) : Finset α ⊕ Except ε (Finset α) :=
  match grow s with
  | .error e => .inr (.error e)
  | .ok t => if t = s then .inr (.ok s) else .inl t

variable {grow} {bound : Finset α}

theorem growRound_next {s t : Finset α} (h : growRound grow s = .inl t) : grow s = .ok t ∧ t ≠ s := by
  rw [growRound] at h
  split at h
  · cases h
  · rename_i more hgrow
    split_ifs at h with hsame
    obtain rfl := Sum.inl.inj h
    exact ⟨hgrow,hsame⟩

theorem growRound_done {s : Finset α} {r : Except ε (Finset α)} (h : growRound grow s = .inr r) :
    grow s = r ∧ ∀ t, r = .ok t → t = s := by
  rw [growRound] at h
  split at h
  · rename_i e hgrow
    obtain rfl := Sum.inr.inj h
    exact ⟨hgrow,fun t ht => by cases ht⟩
  · rename_i more hgrow
    split_ifs at h with hsame
    obtain rfl := Sum.inr.inj h
    rw [hsame] at hgrow
    exact ⟨hgrow,fun t ht => (Except.ok.inj ht).symm⟩

theorem grow_falls (hgrow : ∀ s t, grow s = .ok t → s ⊆ t ∧ t ⊆ s ∪ bound) (s t : Finset α) (h : growRound grow s = .inl t) :
    (bound \ t).card < (bound \ s).card := by
  obtain ⟨hok,hne⟩ := growRound_next h
  obtain ⟨hsub,hbound⟩ := hgrow s t hok
  obtain ⟨x,hx,hnew⟩ := Finset.exists_of_ssubset (Finset.ssubset_iff_subset_ne.mpr ⟨hsub,hne.symm⟩)
  exact card_sdiff_lt hsub hx hnew ((Finset.mem_union.mp (hbound hx)).resolve_left hnew)

variable (grow) in
/-- `while True:` with a break where the set stays as it is; what it grows by may fail to be computed. -/
def growLoop (bound : Finset α) (hgrow : ∀ s t, grow s = .ok t → s ⊆ t ∧ t ⊆ s ∪ bound) :
    Loop (Finset α) (Except ε (Finset α)) where
  round := growRound grow
  measure s := (bound \ s).card
  falls := grow_falls hgrow

/-- Where each round adds what the links lead to, the loop comes to all that they lead to. -/
theorem grow_reaches {R : α → α → Prop} (hlinks : ∀ s, ∃ t, grow s = .ok t ∧ ∀ x, x ∈ t ↔ x ∈ s ∨ ∃ a ∈ s, R a x)
    {start : Finset α} {r : Except ε (Finset α)} (h : Leaves (growRound grow) start r) :
    ∃ found, r = .ok found ∧ ∀ x, x ∈ found ↔ ∃ a ∈ start, Relation.ReflTransGen R a x := by
  have hstart : start ⊆ start ∧ ∀ x ∈ start, ∃ a ∈ start, Relation.ReflTransGen R a x :=
    ⟨subset_rfl,fun x hx => ⟨x,hx,.refl⟩⟩
  obtain ⟨found,rfl,⟨hsub,hreached⟩,hclosed⟩ : ∃ found, r = .ok found ∧
      (start ⊆ found ∧ ∀ x ∈ found, ∃ a ∈ start, Relation.ReflTransGen R a x) ∧ ∀ a ∈ found, ∀ x, R a x → x ∈ found := by
    refine h.rule (fun s => start ⊆ s ∧ ∀ x ∈ s, ∃ a ∈ start, Relation.ReflTransGen R a x) (fun r => ∃ found, r = .ok found ∧
      (start ⊆ found ∧ ∀ x ∈ found, ∃ a ∈ start, Relation.ReflTransGen R a x) ∧ ∀ a ∈ found, ∀ x, R a x → x ∈ found)
      (fun s t hs hnext => ?_) (fun s r hs hdone => ?_) hstart
    · obtain ⟨more,hmore,hmem⟩ := hlinks s
      obtain rfl : more = t := Except.ok.inj (hmore.symm.trans (growRound_next hnext).1)
      refine ⟨fun x hx => (hmem x).mpr (Or.inl (hs.1 hx)),fun x hx => ?_⟩
      rcases (hmem x).mp hx with hold | ⟨b,hb,hlink⟩
      · exact hs.2 x hold
      · obtain ⟨a,ha,hpath⟩ := hs.2 b hb
        exact ⟨a,ha,hpath.tail hlink⟩
    · obtain ⟨more,hmore,hmem⟩ := hlinks s
      obtain ⟨hgrow,hsame⟩ := growRound_done hdone
      obtain rfl := hsame more (hgrow.symm.trans hmore)
      exact ⟨more,hgrow.symm.trans hmore,hs,fun a ha x hlink => (hmem x).mpr (Or.inr ⟨a,ha,hlink⟩)⟩
  refine ⟨found,rfl,fun x => ⟨hreached x,?_⟩⟩
  rintro ⟨a,ha,hpath⟩
  induction hpath with
  | refl => exact hsub ha
  | tail _ hlink ih => exact hclosed _ ih _ hlink

end Growing

/-! ### Along one link -/

/-- The items passed, and the one that the walk has come to. -/
structure Step (α : Type*) where
  seen : Finset α
  node : α

section Walk

open Forest

variable (up : α → Option α)

/-- The walk leaves where there is no link, or with `true` at an item that it has passed. -/
def walkRound (s : Step α) : Step α ⊕ Bool :=
  match up s.node with
  | none => .inr false
  | some b => if s.node ∈ s.seen then .inr true else .inl ⟨insert s.node s.seen,b⟩

variable {up}

theorem walkRound_next {s s' : Step α} (h : walkRound up s = .inl s') :
    s.node ∉ s.seen ∧ s'.seen = insert s.node s.seen ∧ up s.node = some s'.node := by
  rw [walkRound] at h
  split at h
  · cases h
  · rename_i b hup
    split_ifs at h with hseen
    obtain rfl := Sum.inl.inj h
    exact ⟨hseen,rfl,hup⟩

theorem walk_falls {keys : Finset α} (hkeys : ∀ a b, up a = some b → a ∈ keys) (s s' : Step α)
    (h : walkRound up s = .inl s') : (keys \ s'.seen).card < (keys \ s.seen).card := by
  obtain ⟨hnew,hseen,hup⟩ := walkRound_next h
  rw [hseen]
  exact card_sdiff_lt (Finset.subset_insert _ _) (Finset.mem_insert_self _ _) hnew (hkeys _ _ hup)

variable (up) in
def walkLoop (keys : Finset α) (hkeys : ∀ a b, up a = some b → a ∈ keys) : Loop (Step α) Bool where
  round := walkRound up
  measure s := (keys \ s.seen).card
  falls := walk_falls hkeys

theorem walk_ends {s : Step α} {found : Bool} (h : Leaves (walkRound up) s found) (hfound : found = false) : Ends up s.node := by
  induction h with
  | @done s r hdone =>
    rw [walkRound] at hdone
    split at hdone
    · rename_i htop
      exact .top htop
    · split_ifs at hdone
      exact absurd ((Sum.inr.inj hdone).trans hfound) (by decide)
  | next hnext _ ih => exact .step (walkRound_next hnext).2.2 (ih hfound)

/-- Everything passed leads to the item that the walk has come to. -/
theorem walk_cycle {start : α} (h : Leaves (walkRound up) ⟨∅,start⟩ true) : ∃ b, Above up start b ∧ Cyclic up b := by
  have hstart : Above up start start ∧ ∀ a ∈ (∅ : Finset α), Relation.TransGen (Link up) a start :=
    ⟨.refl,fun a ha => absurd ha (Finset.notMem_empty a)⟩
  refine h.rule (fun s => Above up start s.node ∧ ∀ a ∈ s.seen, Relation.TransGen (Link up) a s.node)
    (fun found => found = true → ∃ b, Above up start b ∧ Cyclic up b) (fun s s' hs hnext => ?_) (fun s r hs hdone hr => ?_)
    hstart rfl
  · obtain ⟨-,hseen,hup⟩ := walkRound_next hnext
    refine ⟨hs.1.tail hup,fun a ha => ?_⟩
    rw [hseen] at ha
    rcases Finset.mem_insert.mp ha with rfl | hold
    · exact .single hup
    · exact (hs.2 a hold).tail hup
  · rw [walkRound] at hdone
    split at hdone
    · exact absurd ((Sum.inr.inj hdone).trans hr) (by decide)
    · split_ifs at hdone with hseen
      exact ⟨s.node,hs.1,hs.2 s.node hseen⟩

/-- The walk comes to an item again exactly where it leads into a cycle. -/
theorem walk_iff {start : α} {found : Bool} (h : Leaves (walkRound up) ⟨∅,start⟩ found) :
    found = true ↔ ∃ b, Above up start b ∧ Cyclic up b := by
  constructor
  · rintro rfl
    exact walk_cycle h
  · rintro ⟨b,habove,hcycle⟩
    cases found with
    | true => rfl
    | false =>
      have hends : Ends up start := walk_ends h rfl
      exact absurd hcycle (hends.above habove).not_cyclic

end Walk

end GraphLoop
end Biggy
