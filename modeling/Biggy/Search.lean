import Mathlib.Data.List.Basic
import Mathlib.Tactic.Common

/-!
# A search with a limit

Breadth first from one item, over items with keys: an item is found once, when it is admitted and the
limit is not reached. Each link that is followed is noted.
-/
namespace Biggy
namespace Search

/-- What is searched. A link `b` leads to the item `item b`; `note cur found b` records it, with the key
of the item when that one is among the found. -/
structure Problem (α β κ σ : Type*) where
  key : α → κ
  allows : α → Bool
  next : α → List β
  item : β → α
  note : κ → Option κ → β → σ → σ
  limit : ℕ
  depth : ℕ

/-- The items that are found and those that are still to be expanded, with their distance from the root. -/
structure State (α σ : Type*) where
  found : List (α × ℕ)
  full : Bool
  queue : List (α × ℕ)
  notes : σ

variable {α β κ σ : Type*} [DecidableEq κ]

section Run

variable (P : Problem α β κ σ)

def known (s : State α σ) (k : κ) : Bool := s.found.any fun p => decide (P.key p.1 = k)

/-- Find an item: its key when it is found now or before, and whether it is new. -/
def add (s : State α σ) (x : α) (d : ℕ) : State α σ × Option κ × Bool :=
  if known P s (P.key x) then (s,some (P.key x),false)
  else if P.limit ≤ s.found.length then ({ s with full := true },none,false)
  else if P.allows x then ({ s with found := s.found ++ [(x,d)] },some (P.key x),true)
  else (s,none,false)

/-- Follow one link. -/
def visit (cur : κ) (d : ℕ) (s : State α σ) (b : β) : State α σ :=
  let r := add P s (P.item b) (d+1)
  { r.1 with
    notes := P.note cur r.2.1 b r.1.notes
    queue := if r.2.2 then r.1.queue ++ [(P.item b,d+1)] else r.1.queue }

def expand (s : State α σ) (x : α) (d : ℕ) : State α σ :=
  if P.depth ≤ d then s
  else if known P s (P.key x) then (P.next x).foldl (visit P (P.key x) d) s
  else s

def search : ℕ → State α σ → State α σ
  | 0, s => s
  | fuel+1, s =>
    match s.queue with
    | [] => s
    | (x,d)::rest => search fuel (expand P { s with queue := rest } x d)

def start (root : α) (notes : σ) : State α σ := { (add P ⟨[],false,[],notes⟩ root 0).1 with queue := [(root,0)] }

/-- Every item that is found is expanded once, so the limit bounds the turns. -/
def run (root : α) (notes : σ) : State α σ := search P (P.limit+1) (start P root notes)

end Run

section Rules

variable {P : Problem α β κ σ}

theorem known_iff {s : State α σ} {k : κ} : known P s k = true ↔ ∃ p ∈ s.found, P.key p.1 = k := by
  simp [known]

/-- What finding one item does to the found. -/
theorem add_found (s : State α σ) (x : α) (d : ℕ) :
    ((add P s x d).1.found = s.found ∧ (add P s x d).2.2 = false) ∨
      ((add P s x d).1.found = s.found ++ [(x,d)] ∧ (add P s x d).2.2 = true ∧ known P s (P.key x) = false ∧
        s.found.length < P.limit ∧ P.allows x = true) := by
  simp only [add]
  split
  · exact Or.inl ⟨rfl,rfl⟩
  · rename_i hknown
    split
    · exact Or.inl ⟨rfl,rfl⟩
    · rename_i hroom
      split
      · rename_i hallowed
        exact Or.inr ⟨rfl,rfl,by simpa using hknown,by omega,hallowed⟩
      · exact Or.inl ⟨rfl,rfl⟩

theorem add_queue (s : State α σ) (x : α) (d : ℕ) : (add P s x d).1.queue = s.queue := by
  simp only [add]
  split
  · rfl
  · split
    · rfl
    · split <;> rfl

/-- An admitted item is found while there is room. -/
theorem add_known {s : State α σ} {x : α} {d : ℕ} (hroom : s.found.length < P.limit) (hallowed : P.allows x = true) :
    ∃ p ∈ (add P s x d).1.found, P.key p.1 = P.key x := by
  simp only [add]
  split
  · rename_i hknown
    exact known_iff.mp hknown
  · rw [if_neg (by omega)]
    exact ⟨(x,d),List.mem_append_right _ (List.mem_singleton_self _),rfl⟩

/-- The found only grow, by at most one item at each link. -/
theorem visit_grows (cur : κ) (d : ℕ) (s : State α σ) (b : β) :
    ∃ more, (visit P cur d s b).found = s.found ++ more ∧ more.length ≤ 1 := by
  rcases add_found (P := P) s (P.item b) (d+1) with ⟨hsame,-⟩ | ⟨hmore,-⟩
  · exact ⟨[],hsame.trans (List.append_nil _).symm,Nat.zero_le 1⟩
  · exact ⟨[(P.item b,d+1)],hmore,Nat.le_refl _⟩

theorem visits_grow (cur : κ) (d : ℕ) (bs : List β) (s : State α σ) :
    ∃ more, (bs.foldl (visit P cur d) s).found = s.found ++ more ∧ more.length ≤ bs.length := by
  induction bs generalizing s with
  | nil => exact ⟨[],(List.append_nil _).symm,Nat.le_refl _⟩
  | cons b bs ih =>
    obtain ⟨one,hone,hlength⟩ := visit_grows (P := P) cur d s b
    obtain ⟨more,hmore,hrest⟩ := ih (visit P cur d s b)
    refine ⟨one++more,?_,?_⟩
    · rw [List.foldl_cons,hmore,hone,List.append_assoc]
    · rw [List.length_append,List.length_cons]
      omega

theorem expand_grows (s : State α σ) (x : α) (d : ℕ) : ∃ more, (expand P s x d).found = s.found ++ more := by
  simp only [expand]
  split
  · exact ⟨[],(List.append_nil _).symm⟩
  · split
    · obtain ⟨more,hmore,-⟩ := visits_grow (P := P) (P.key x) d (P.next x) s
      exact ⟨more,hmore⟩
    · exact ⟨[],(List.append_nil _).symm⟩

theorem search_grows (fuel : ℕ) (s : State α σ) : ∃ more, (search P fuel s).found = s.found ++ more := by
  induction fuel generalizing s with
  | zero => exact ⟨[],(List.append_nil _).symm⟩
  | succ fuel ih =>
    rw [search]
    split
    · exact ⟨[],(List.append_nil _).symm⟩
    · rename_i x d rest _
      obtain ⟨one,hone⟩ := expand_grows (P := P) { s with queue := rest } x d
      obtain ⟨more,hmore⟩ := ih (expand P { s with queue := rest } x d)
      exact ⟨one++more,by rw [hmore,hone,List.append_assoc]⟩

/-- The search starts from the root, when that one is admitted and may be found. -/
theorem start_found (root : α) (notes : σ) : (start P root notes).found = [] ∨
    ((start P root notes).found = [(root,0)] ∧ 0 < P.limit ∧ P.allows root = true) := by
  rcases add_found (P := P) ⟨[],false,[],notes⟩ root 0 with ⟨hsame,-⟩ | ⟨hmore,-,-,hroom,hroot⟩
  · exact Or.inl hsame
  · exact Or.inr ⟨hmore,hroom,hroot⟩

/-! ### What every link keeps -/

/-- What waits to be expanded is found; only a root that is not found waits for nothing. -/
def Queued (s : State α σ) : Prop := s.found = [] ∨ ∀ q ∈ s.queue, q ∈ s.found

theorem start_queued (root : α) (notes : σ) : Queued (start P root notes) := by
  refine (start_found root notes).imp_right fun hone q hq => ?_
  rw [hone.1]
  exact hq

theorem visit_queued {cur : κ} {d : ℕ} {s : State α σ} {b : β} (h : ∀ q ∈ s.queue, q ∈ s.found) :
    ∀ q ∈ (visit P cur d s b).queue, q ∈ (visit P cur d s b).found := by
  intro q hq
  rcases add_found (P := P) s (P.item b) (d+1) with ⟨hsame,hold⟩ | ⟨hmore,hnew,-⟩
  · simp only [visit,hsame,hold,add_queue] at hq ⊢
    exact h q hq
  · simp only [visit,hmore,hnew,add_queue,if_true] at hq ⊢
    rcases List.mem_append.mp hq with hq | hq
    · exact List.mem_append_left _ (h q hq)
    · exact List.mem_append_right _ hq

section Invariant

variable (Inv : State α σ → Prop) (hframe : ∀ s queue, Inv s → Inv { s with queue := queue })
  (hvisit : ∀ s x d, d < P.depth → ∀ b ∈ P.next x, Inv s → (x,d) ∈ s.found → Inv (visit P (P.key x) d s b))

include hvisit

theorem visits_invariant {x : α} {d : ℕ} (hd : d < P.depth) {bs : List β} (hbs : ∀ b ∈ bs, b ∈ P.next x) {s : State α σ}
    (hs : Inv s) (hx : (x,d) ∈ s.found) (hqueue : ∀ q ∈ s.queue, q ∈ s.found) :
    Inv (bs.foldl (visit P (P.key x) d) s) ∧ Queued (bs.foldl (visit P (P.key x) d) s) := by
  induction bs generalizing s with
  | nil => exact ⟨hs,Or.inr hqueue⟩
  | cons b bs ih =>
    obtain ⟨more,hmore,-⟩ := visit_grows (P := P) (P.key x) d s b
    exact ih (fun c hc => hbs c (List.mem_cons_of_mem b hc)) (hvisit s x d hd b (hbs b List.mem_cons_self) hs hx)
      (hmore ▸ List.mem_append_left more hx) (visit_queued hqueue)

include hframe

/-- What each link keeps that leaves an item among the found holds at the end of the search. -/
theorem search_invariant {s : State α σ} (hs : Inv s) (hqueue : Queued s) (fuel : ℕ) : Inv (search P fuel s) := by
  induction fuel generalizing s with
  | zero => exact hs
  | succ fuel ih =>
    rw [search]
    split
    · exact hs
    · rename_i x d rest hrest
      have hturn : Inv (expand P { s with queue := rest } x d) ∧ Queued (expand P { s with queue := rest } x d) := by
        have hkept : Inv { s with queue := rest } ∧ Queued { s with queue := rest } := by
          refine ⟨hframe s rest hs,hqueue.imp_right fun h q hq => h q ?_⟩
          rw [hrest]
          exact List.mem_cons_of_mem _ hq
        simp only [expand]
        split
        · exact hkept
        · rename_i hdepth
          split
          · rename_i hknown
            have hfound : ∀ q ∈ s.queue, q ∈ s.found := by
              rcases hqueue with hnone | hfound
              · simp [known,hnone] at hknown
              · exact hfound
            rw [hrest] at hfound
            exact visits_invariant Inv hvisit (Nat.not_le.mp hdepth) (fun _ hb => hb) hkept.1 (hfound _ List.mem_cons_self)
              fun q hq => hfound q (List.mem_cons_of_mem _ hq)
          · exact hkept
      exact ih hturn.1 hturn.2

end Invariant

/-- Everything that is found, the root apart, is as good as the admitted items behind the links of an admitted one. -/
theorem run_sound {root : α} (notes : σ) (Good : α → Prop)
    (hnext : ∀ x, P.allows x = true → ∀ b ∈ P.next x, P.allows (P.item b) = true → P.key (P.item b) ≠ P.key x →
      Good (P.item b)) : ∀ p ∈ (run P root notes).found, P.key p.1 = P.key root ∨ Good p.1 := by
  have hstart := start_found (P := P) root notes
  have hall : ∀ p ∈ (run P root notes).found, P.allows p.1 = true ∧ (P.key p.1 = P.key root ∨ Good p.1) := by
    refine search_invariant (fun s => ∀ p ∈ s.found, P.allows p.1 = true ∧ (P.key p.1 = P.key root ∨ Good p.1))
      (fun _ _ h => h) ?_ ?_ ?_ _
    · intro s x d _ b hb hs hx
      rcases add_found (P := P) s (P.item b) (d+1) with ⟨hsame,-⟩ | ⟨hmore,-,hnew,-,hallowed⟩
      · intro p hp
        have hp' : p ∈ s.found := hsame ▸ hp
        exact hs p hp'
      · intro p hp
        have hp' : p ∈ s.found ++ [(P.item b,d+1)] := hmore ▸ hp
        rcases List.mem_append.mp hp' with hp' | hp'
        · exact hs p hp'
        · obtain rfl := List.mem_singleton.mp hp'
          refine ⟨hallowed,Or.inr (hnext x (hs _ hx).1 b hb hallowed fun hsame => ?_)⟩
          rw [hsame,known_iff.mpr ⟨(x,d),hx,rfl⟩] at hnew
          cases hnew
    · intro p hp
      rcases hstart with hnone | ⟨hone,-,hroot⟩
      · rw [hnone] at hp
        cases hp
      · rw [hone] at hp
        obtain rfl := List.mem_singleton.mp hp
        exact ⟨hroot,Or.inl rfl⟩
    · exact start_queued root notes
  exact fun p hp => (hall p hp).2

/-- With room for all of them, the admitted items behind the links of an admitted root are found. -/
theorem run_first {root : α} (notes : σ) (hroot : P.allows root = true) (hdepth : 0 < P.depth)
    (hroom : (P.next root).length < P.limit) {b : β} (hb : b ∈ P.next root) (hallowed : P.allows (P.item b) = true) :
    ∃ p ∈ (run P root notes).found, P.key p.1 = P.key (P.item b) := by
  have hstart : (start P root notes).found = [(root,0)] := by
    have hlimit : ¬P.limit ≤ 0 := by omega
    simp [start,add,known,hlimit,hroot]
  have hfold : ∀ bs : List β, b ∈ bs → ∀ s : State α σ, s.found.length + bs.length ≤ P.limit →
      ∃ p ∈ (bs.foldl (visit P (P.key root) 0) s).found, P.key p.1 = P.key (P.item b) := by
    intro bs
    induction bs with
    | nil => exact fun hb => by cases hb
    | cons c bs ih =>
      intro hb s hlimit
      rw [List.length_cons] at hlimit
      rw [List.foldl_cons]
      rcases List.mem_cons.mp hb with rfl | hb
      · obtain ⟨p,hp,hkey⟩ := add_known (P := P) (s := s) (d := 1) (by omega) hallowed
        obtain ⟨more,hmore,-⟩ := visits_grow (P := P) (P.key root) 0 bs (visit P (P.key root) 0 s b)
        exact ⟨p,hmore ▸ List.mem_append_left more hp,hkey⟩
      · obtain ⟨more,hmore,hlength⟩ := visit_grows (P := P) (P.key root) 0 s c
        exact ih hb _ (by rw [hmore,List.length_append]; omega)
  have hknown : known P { start P root notes with queue := [] } (P.key root) = true :=
    known_iff.mpr ⟨(root,0),by rw [hstart]; exact List.mem_singleton_self _,rfl⟩
  have hturn : run P root notes = search P P.limit
      ((P.next root).foldl (visit P (P.key root) 0) { start P root notes with queue := [] }) := by
    rw [run,search]
    have hqueue : (start P root notes).queue = [(root,0)] := rfl
    rw [hqueue]
    simp only [expand]
    rw [if_neg (by omega),if_pos hknown]
  obtain ⟨p,hp,hkey⟩ := hfold _ hb { start P root notes with queue := [] } (by rw [hstart,List.length_singleton]; omega)
  obtain ⟨more,hmore⟩ := search_grows (P := P) P.limit
    ((P.next root).foldl (visit P (P.key root) 0) { start P root notes with queue := [] })
  exact ⟨p,by rw [hturn,hmore]; exact List.mem_append_left more hp,hkey⟩

/-! ### The end of the search -/

/-- Each link adds to the queue what it adds to the found. -/
theorem visit_balance (cur : κ) (d : ℕ) (s : State α σ) (b : β) :
    (visit P cur d s b).queue.length + s.found.length = s.queue.length + (visit P cur d s b).found.length ∧
      (s.found.length ≤ P.limit → (visit P cur d s b).found.length ≤ P.limit) := by
  rcases add_found (P := P) s (P.item b) (d+1) with ⟨hsame,hold⟩ | ⟨hmore,hnew,-,hroom,-⟩
  · simp only [visit,hsame,hold,add_queue]
    exact ⟨by simp,id⟩
  · simp only [visit,hmore,hnew,add_queue,if_true,List.length_append,List.length_singleton]
    exact ⟨by omega,fun _ => by omega⟩

theorem expand_balance (s : State α σ) (x : α) (d : ℕ) :
    (expand P s x d).queue.length + s.found.length = s.queue.length + (expand P s x d).found.length ∧
      (s.found.length ≤ P.limit → (expand P s x d).found.length ≤ P.limit) := by
  have hfold : ∀ (bs : List β) (s : State α σ),
      (bs.foldl (visit P (P.key x) d) s).queue.length + s.found.length =
          s.queue.length + (bs.foldl (visit P (P.key x) d) s).found.length ∧
        (s.found.length ≤ P.limit → (bs.foldl (visit P (P.key x) d) s).found.length ≤ P.limit) := by
    intro bs
    induction bs with
    | nil => exact fun s => ⟨rfl,id⟩
    | cons b bs ih =>
      intro s
      obtain ⟨hone,hfits⟩ := visit_balance (P := P) (P.key x) d s b
      obtain ⟨hrest,hfits'⟩ := ih (visit P (P.key x) d s b)
      rw [List.foldl_cons]
      exact ⟨by omega,fun hs => hfits' (hfits hs)⟩
  simp only [expand]
  split
  · exact ⟨rfl,id⟩
  · split
    · exact hfold _ s
    · exact ⟨rfl,id⟩

/-- The search ends with nothing left to expand. -/
theorem run_ends (root : α) (notes : σ) : (run P root notes).queue = [] := by
  have hsearch : ∀ (fuel : ℕ) (s : State α σ), s.found.length ≤ P.limit →
      s.queue.length + (P.limit - s.found.length) ≤ fuel → (search P fuel s).queue = [] := by
    intro fuel
    induction fuel with
    | zero =>
      intro s _ hfuel
      exact List.eq_nil_of_length_eq_zero (Nat.le_zero.mp (Nat.le_trans (Nat.le_add_right _ _) hfuel))
    | succ fuel ih =>
      intro s hlimit hfuel
      rw [search]
      split
      · assumption
      · rename_i x d rest hqueue
        obtain ⟨hbalance,hfits⟩ := expand_balance (P := P) { s with queue := rest } x d
        have hle := hfits hlimit
        rw [hqueue,List.length_cons] at hfuel
        have hbalance' : (expand P { s with queue := rest } x d).queue.length + s.found.length =
            rest.length + (expand P { s with queue := rest } x d).found.length := hbalance
        exact ih _ hle (by omega)
  have hfound : (start P root notes).found.length ≤ P.limit := by
    rcases start_found (P := P) root notes with hnone | ⟨hone,hroom,-⟩
    · rw [hnone]
      exact Nat.zero_le _
    · rw [hone]
      exact hroom
  exact hsearch _ _ hfound (by
    have hqueue : (start P root notes).queue.length = 1 := rfl
    omega)

end Rules

end Search
end Biggy
