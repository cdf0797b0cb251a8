import Biggy.Search
import Mathlib.Data.List.Nodup
import Mathlib.Data.List.Perm.Subperm

/-!
# What a search reaches

A search that is not cut short by its limit finds exactly what its links reach within the depth, each at the
fewest links. The items that wait are in the order of their distance, and at most two distances wait at once.
-/
namespace Biggy
namespace Search

variable {α β κ σ : Type*} [DecidableEq κ]

section Walks

variable (P : Problem α β κ σ) (root : α)

/-- The keys of the found. -/
def keys (s : State α σ) : List κ := s.found.map fun p => P.key p.1

/-- An item that so many links lead to from the root, over admitted items. -/
inductive Walk : ℕ → α → Prop
  | root (h : P.allows root = true) : Walk 0 root
  | step {n : ℕ} {x : α} {b : β} (hx : Walk n x) (hb : b ∈ P.next x) (hallowed : P.allows (P.item b) = true) :
      Walk (n+1) (P.item b)

def Reached (n : ℕ) (k : κ) : Prop := ∃ x, Walk P root n x ∧ P.key x = k

/-- The fewest links that lead to a key. -/
def Distance (k : κ) (n : ℕ) : Prop := Reached P root n k ∧ ∀ m, m < n → ¬Reached P root m k

/-- Items with one key are the same: admitted alike, with the same links. -/
def KeyDecides : Prop := ∀ x y, P.key x = P.key y → P.allows x = P.allows y ∧ P.next x = P.next y

/-- Where a search stands that has expanded some of the found. -/
structure Course (s : State α σ) (done : List (α × ℕ)) : Prop where
  split : s.found = done ++ s.queue
  walks : ∀ p ∈ s.found, Walk P root p.2 p.1 ∧ p.2 ≤ P.depth
  sorted : s.queue.Pairwise fun p q => p.2 ≤ q.2
  near : ∀ p ∈ s.found, ∀ q ∈ s.queue, p.2 ≤ q.2+1
  closed : s.full = false → ∀ p ∈ done, p.2 < P.depth → ∀ b ∈ P.next p.1, P.allows (P.item b) = true →
    ∃ q ∈ s.found, P.key q.1 = P.key (P.item b) ∧ q.2 ≤ p.2+1

end Walks

variable {P : Problem α β κ σ} {root : α}

omit [DecidableEq κ] in
theorem Walk.from_root {n : ℕ} {x : α} (h : Walk P root n x) : P.allows root = true := by
  induction h with
  | root h => exact h
  | step _ _ _ ih => exact ih

omit [DecidableEq κ] in
theorem Reached.distance {n : ℕ} {k : κ} (h : Reached P root n k) : ∃ d, d ≤ n ∧ Distance P root k d := by
  induction n using Nat.strongRecOn with
  | ind n ih =>
    rcases Classical.em (∃ m, m < n ∧ Reached P root m k) with ⟨m,hm,hreached⟩ | hleast
    · obtain ⟨d,hd,hdistance⟩ := ih m hm hreached
      exact ⟨d,Nat.le_trans hd (Nat.le_of_lt hm),hdistance⟩
    · exact ⟨n,Nat.le_refl n,h,fun m hm hreached => hleast ⟨m,hm,hreached⟩⟩

/-- A search that is not full has found every admitted item it came to. -/
theorem add_full (s : State α σ) (x : α) (d : ℕ) (h : (add P s x d).1.full = false) : s.full = false ∧
    (P.allows x = true → ∃ p ∈ (add P s x d).1.found, P.key p.1 = P.key x) := by
  simp only [add] at h ⊢
  split
  · rename_i hknown
    rw [if_pos hknown] at h
    exact ⟨h,fun _ => known_iff.mp hknown⟩
  · rename_i hnew
    rw [if_neg hnew] at h
    split
    · rename_i hlimit
      rw [if_pos hlimit] at h
      cases h
    · rename_i hroom
      rw [if_neg hroom] at h
      split
      · rename_i hallowed
        rw [if_pos hallowed] at h
        exact ⟨h,fun _ => ⟨(x,d),List.mem_append_right _ (List.mem_singleton_self _),rfl⟩⟩
      · rename_i hrefused
        rw [if_neg hrefused] at h
        exact ⟨h,fun hallowed => absurd hallowed hrefused⟩

/-- What following the links of one item adds. -/
theorem visits_spec (cur : κ) (d : ℕ) (bs : List β) (s : State α σ) : ∃ new,
    (bs.foldl (visit P cur d) s).found = s.found ++ new ∧ (bs.foldl (visit P cur d) s).queue = s.queue ++ new ∧
      (∀ p ∈ new, p.2 = d+1 ∧ P.allows p.1 = true ∧ ∃ b ∈ bs, P.item b = p.1) ∧
      ((bs.foldl (visit P cur d) s).full = false → s.full = false ∧
        ∀ b ∈ bs, P.allows (P.item b) = true → ∃ p ∈ (bs.foldl (visit P cur d) s).found, P.key p.1 = P.key (P.item b)) := by
  induction bs generalizing s with
  | nil => exact ⟨[],(List.append_nil _).symm,(List.append_nil _).symm,by simp,fun h => ⟨h,by simp⟩⟩
  | cons b bs ih =>
    obtain ⟨new,hfound,hqueue,hnew,hfull⟩ := ih (visit P cur d s b)
    obtain ⟨one,hone,hwaits,hitem⟩ : ∃ one, (visit P cur d s b).found = s.found ++ one ∧
        (visit P cur d s b).queue = s.queue ++ one ∧ ∀ p ∈ one, p = (P.item b,d+1) ∧ P.allows (P.item b) = true := by
      rcases add_found (P := P) s (P.item b) (d+1) with ⟨hsame,hold⟩ | ⟨hmore,hisnew,-,-,hallowed⟩
      · exact ⟨[],hsame.trans (List.append_nil _).symm,by simp [visit,hold,add_queue],by simp⟩
      · exact ⟨[(P.item b,d+1)],hmore,by simp [visit,hisnew,add_queue],fun p hp => ⟨List.mem_singleton.mp hp,hallowed⟩⟩
    refine ⟨one++new,?_,?_,fun p hp => ?_,fun h => ?_⟩
    · rw [List.foldl_cons,hfound,hone,List.append_assoc]
    · rw [List.foldl_cons,hqueue,hwaits,List.append_assoc]
    · rcases List.mem_append.mp hp with hp | hp
      · obtain ⟨rfl,hallowed⟩ := hitem p hp
        exact ⟨rfl,hallowed,b,List.mem_cons_self,rfl⟩
      · obtain ⟨hdepth,hallowed,c,hc,hitem⟩ := hnew p hp
        exact ⟨hdepth,hallowed,c,List.mem_cons_of_mem b hc,hitem⟩
    · obtain ⟨hrest,hlater⟩ := hfull h
      obtain ⟨hstill,hknown⟩ := add_full s (P.item b) (d+1) hrest
      refine ⟨hstill,fun c hc hallowed => ?_⟩
      rcases List.mem_cons.mp hc with rfl | hc
      · obtain ⟨p,hp,hkey⟩ := hknown hallowed
        refine ⟨p,?_,hkey⟩
        rw [List.foldl_cons,hfound]
        exact List.mem_append_left _ hp
      · exact hlater c hc hallowed

/-- Expanding the first item that waits. -/
theorem Course.expand {s : State α σ} {done rest : List (α × ℕ)} {x : α} {d : ℕ} (h : Course P root s done)
    (hqueue : s.queue = (x,d)::rest) :
    Course P root (Search.expand P { s with queue := rest } x d) (done++[(x,d)]) := by
  obtain ⟨hsplit,hwalks,hsorted,hnear,hclosed⟩ := h
  rw [hqueue] at hsplit hsorted hnear
  obtain ⟨hfirst,hrest⟩ := List.pairwise_cons.mp hsorted
  have hmem : (x,d) ∈ s.found := by simp [hsplit]
  have hlast : ∀ p ∈ s.found, p.2 ≤ d+1 := fun p hp => hnear p hp (x,d) List.mem_cons_self
  have hknown : known P { s with queue := rest } (P.key x) = true := known_iff.mpr ⟨(x,d),hmem,rfl⟩
  by_cases hdepth : P.depth ≤ d
  · have hsame : Search.expand P { s with queue := rest } x d = { s with queue := rest } := by simp [Search.expand,hdepth]
    rw [hsame]
    refine ⟨by simp [hsplit],hwalks,hrest,fun p hp q hq => hnear p hp q (List.mem_cons_of_mem _ hq),fun hfull p hp hlt => ?_⟩
    rcases List.mem_append.mp hp with hp | hp
    · exact hclosed hfull p hp hlt
    · rw [List.mem_singleton.mp hp] at hlt
      exact absurd hdepth (Nat.not_le.mpr hlt)
  · have hturn : Search.expand P { s with queue := rest } x d =
        (P.next x).foldl (visit P (P.key x) d) { s with queue := rest } := by
      simp only [Search.expand]
      rw [if_neg hdepth,if_pos hknown]
    obtain ⟨new,hfound,hwaits,hnew,hfull⟩ := visits_spec (P.key x) d (P.next x) { s with queue := rest }
    rw [hturn]
    have hall : ∀ p ∈ s.found ++ new, p.2 ≤ d+1 := by
      intro p hp
      rcases List.mem_append.mp hp with hp | hp
      · exact hlast p hp
      · exact Nat.le_of_eq (hnew p hp).1
    have hleast : ∀ q ∈ rest ++ new, d ≤ q.2 := by
      intro q hq
      rcases List.mem_append.mp hq with hq | hq
      · exact hfirst q hq
      · rw [(hnew q hq).1]
        exact Nat.le_succ d
    refine ⟨?_,fun p hp => ?_,?_,fun p hp q hq => ?_,fun hnotfull p hp hlt b hb hallowed => ?_⟩
    · rw [hfound,hwaits]
      simp [hsplit]
    · rw [hfound] at hp
      rcases List.mem_append.mp hp with hp | hp
      · exact hwalks p hp
      · obtain ⟨hd,hallowed,b,hb,hitem⟩ := hnew p hp
        rw [hd]
        refine ⟨?_,by omega⟩
        rw [← hitem] at hallowed ⊢
        exact .step (hwalks _ hmem).1 hb hallowed
    · rw [hwaits]
      refine List.pairwise_append.mpr ⟨hrest,List.pairwise_of_forall_mem_list fun p hp q hq => ?_,fun p hp q hq => ?_⟩
      · exact Nat.le_of_eq ((hnew p hp).1.trans (hnew q hq).1.symm)
      · rw [(hnew q hq).1]
        exact hlast p (by simp [hsplit,hp])
    · rw [hfound] at hp
      rw [hwaits] at hq
      exact Nat.le_trans (hall p hp) (Nat.succ_le_succ (hleast q hq))
    · obtain ⟨hstill,hcame⟩ := hfull hnotfull
      rcases List.mem_append.mp hp with hp | hp
      · obtain ⟨q,hq,hkey,hle⟩ := hclosed hstill p hp hlt b hb hallowed
        refine ⟨q,?_,hkey,hle⟩
        rw [hfound]
        exact List.mem_append_left _ hq
      · obtain rfl := List.mem_singleton.mp hp
        obtain ⟨q,hq,hkey⟩ := hcame b hb hallowed
        exact ⟨q,hq,hkey,hall q (hfound ▸ hq)⟩

theorem Course.search {s : State α σ} {done : List (α × ℕ)} (h : Course P root s done) (fuel : ℕ) :
    ∃ done', Course P root (Search.search P fuel s) done' := by
  induction fuel generalizing s done with
  | zero => exact ⟨done,h⟩
  | succ fuel ih =>
    rw [Search.search]
    split
    · exact ⟨done,h⟩
    · rename_i x d rest hqueue
      exact ih (h.expand hqueue)

/-- A root that is not found leaves the search as it started. -/
theorem run_missing {notes : σ} (h : (start P root notes).found = []) :
    (run P root notes).found = [] ∧ (run P root notes).full = (start P root notes).full := by
  have hturn : run P root notes = search P P.limit { start P root notes with queue := [] } := by
    rw [run,Search.search]
    have hqueue : (start P root notes).queue = [(root,0)] := rfl
    rw [hqueue]
    simp [Search.expand,known,h]
  have hend : ∀ (fuel : ℕ) (s : State α σ), s.queue = [] → search P fuel s = s := by
    intro fuel s hs
    cases fuel with
    | zero => rfl
    | succ fuel => rw [Search.search,hs]
  rw [hturn,hend _ _ rfl]
  exact ⟨h,rfl⟩

theorem start_course {notes : σ} (h : (start P root notes).found = [(root,0)]) (hallowed : P.allows root = true) :
    Course P root (start P root notes) [] := by
  have hqueue : (start P root notes).queue = [(root,0)] := rfl
  refine ⟨by rw [h,hqueue]; rfl,?_,by rw [hqueue]; simp,?_,fun _ p hp => absurd hp List.not_mem_nil⟩
  · rw [h]
    simpa using Walk.root hallowed
  · rw [h,hqueue]
    simp

/-- Everything that is found is reached within the depth. -/
theorem run_walks (notes : σ) : ∀ p ∈ (run P root notes).found, Walk P root p.2 p.1 ∧ p.2 ≤ P.depth := by
  rcases start_found (P := P) root notes with hnone | ⟨hone,-,hallowed⟩
  · rw [(run_missing hnone).1]
    exact List.forall_mem_nil _
  · obtain ⟨done,hend⟩ := (start_course hone hallowed).search (P.limit+1)
    exact hend.walks

/-- A search that is not cut short finds everything within the depth, no later than it is reached. -/
theorem run_complete (hdecides : KeyDecides P) {notes : σ} (hfull : (run P root notes).full = false) {n : ℕ} {x : α}
    (hwalk : Walk P root n x) (hn : n ≤ P.depth) : ∃ p ∈ (run P root notes).found, P.key p.1 = P.key x ∧ p.2 ≤ n := by
  rcases start_found (P := P) root notes with hnone | ⟨hone,-,hallowed⟩
  · have hstart : (start P root notes).full = false := (run_missing hnone).2 ▸ hfull
    obtain ⟨-,hroot⟩ := add_full (P := P) ⟨[],false,[],notes⟩ root 0 hstart
    have hrefused : P.allows root ≠ true := by
      intro hallowed
      obtain ⟨p,hp,-⟩ := hroot hallowed
      have hfound : p ∈ (start P root notes).found := hp
      rw [hnone] at hfound
      cases hfound
    induction hwalk with
    | root h => exact absurd h hrefused
    | step _ _ _ ih => exact absurd (ih (Nat.le_of_succ_le hn)) (by rw [(run_missing hnone).1]; simp)
  · obtain ⟨done,hend⟩ := (start_course hone hallowed).search (P.limit+1)
    have hdone : (run P root notes).found = done := by
      have hsplit : (run P root notes).found = done ++ (run P root notes).queue := hend.split
      rw [hsplit,run_ends,List.append_nil]
    induction hwalk with
    | root _ =>
      obtain ⟨more,hmore⟩ := search_grows (P := P) (P.limit+1) (start P root notes)
      refine ⟨(root,0),?_,rfl,Nat.le_refl 0⟩
      rw [run,hmore,hone]
      exact List.mem_append_left _ (List.mem_singleton_self _)
    | @step n x b _ hb hallowed ih =>
      obtain ⟨p,hp,hkey,hle⟩ := ih (Nat.le_of_succ_le hn)
      have hnext : b ∈ P.next p.1 := by rwa [(hdecides p.1 x hkey).2]
      obtain ⟨q,hq,hqkey,hqle⟩ := hend.closed hfull p (hdone ▸ hp) (by omega) b hnext hallowed
      exact ⟨q,hq,hqkey,by omega⟩

/-- No key is found twice, and no more than the limit allows. -/
theorem run_found (root : α) (notes : σ) :
    (keys P (run P root notes)).Nodup ∧ (run P root notes).found.length ≤ P.limit := by
  refine search_invariant (P := P) (fun s : State α σ => (keys P s).Nodup ∧ s.found.length ≤ P.limit)
    (fun _ _ h => h) (fun s x d _ b _ hs _ => ⟨?_,(visit_balance (P := P) (P.key x) d s b).2 hs.2⟩) ?_ (start_queued (P := P) root notes) _
  · rcases add_found (P := P) s (P.item b) (d+1) with ⟨hsame,-⟩ | ⟨hmore,-,hnew,-⟩
    · have hfound : (visit P (P.key x) d s b).found = s.found := hsame
      rw [keys,hfound]
      exact hs.1
    · have hfound : (visit P (P.key x) d s b).found = s.found ++ [(P.item b,d+1)] := hmore
      rw [keys,hfound,List.map_append,List.map_singleton]
      refine List.nodup_append.mpr ⟨hs.1,List.nodup_singleton _,fun k hk k' hk' heq => ?_⟩
      obtain ⟨p,hp,rfl⟩ := List.mem_map.mp hk
      rw [List.mem_singleton.mp hk'] at heq
      rw [known_iff.mpr ⟨p,hp,heq⟩] at hnew
      cases hnew
  · rcases start_found (P := P) root notes with hnone | ⟨hone,hroom,-⟩
    · rw [keys,hnone]
      exact ⟨List.nodup_nil,Nat.zero_le _⟩
    · rw [keys,hone]
      exact ⟨List.nodup_singleton _,hroom⟩

/-- A key that a link is noted with is found, now or before. -/
theorem add_noted {s : State α σ} {x : α} {d : ℕ} {k : κ} (h : (add P s x d).2.1 = some k) :
    k ∈ keys P (add P s x d).1 := by
  simp only [add,keys] at h ⊢
  split
  · rename_i hknown
    rw [if_pos hknown] at h
    obtain ⟨p,hp,hkey⟩ := known_iff.mp hknown
    obtain rfl := Option.some.inj h
    exact List.mem_map.mpr ⟨p,hp,hkey⟩
  · rename_i hnew
    rw [if_neg hnew] at h
    split
    · rename_i hlimit
      rw [if_pos hlimit] at h
      cases h
    · rename_i hroom
      rw [if_neg hroom] at h
      split
      · rename_i hallowed
        rw [if_pos hallowed] at h
        obtain rfl := Option.some.inj h
        simp
      · rename_i hrefused
        rw [if_neg hrefused] at h
        cases h

/-- What the notes keep when a link between found keys is noted, and when more is found, they keep to the end. -/
theorem run_notes {Good : List κ → σ → Prop} (hmore : ∀ ks more notes, Good ks notes → Good (ks++more) notes)
    (hnote : ∀ ks cur found b notes, Good ks notes → cur ∈ ks → (∀ k, found = some k → k ∈ ks) → Good ks (P.note cur found b notes))
    (root : α) {notes : σ} (hstart : ∀ ks, Good ks notes) :
    Good (keys P (run P root notes)) (run P root notes).notes := by
  refine search_invariant (P := P) (fun s : State α σ => Good (keys P s) s.notes) (fun _ _ h => h)
    (fun s x d _ b _ hs hx => ?_) ?_ (start_queued (P := P) root notes) _
  · obtain ⟨more,hgrown,-⟩ := visit_grows (P := P) (P.key x) d s b
    have hadded : (add P s (P.item b) (d+1)).1.found = s.found ++ more := hgrown
    have hnotes : (add P s (P.item b) (d+1)).1.notes = s.notes := by
      simp only [add]
      split_ifs <;> rfl
    have hgood : Good (keys P (visit P (P.key x) d s b)) s.notes := by
      rw [keys,hgrown,List.map_append]
      exact hmore _ _ _ hs
    refine hnote _ _ _ b _ (hnotes ▸ hgood) ?_ fun k hk => add_noted hk
    rw [keys,hgrown]
    exact List.mem_map_of_mem (List.mem_append_left _ hx)
  · have hnotes : (start P root notes).notes = notes := by
      simp only [start,add]
      split_ifs <;> rfl
    rw [hnotes]
    exact hstart _

/-- A search that is not cut short finds exactly what is reached within the depth, at its distance. -/
theorem run_reach (hdecides : KeyDecides P) {notes : σ} (hfull : (run P root notes).full = false) (k : κ) (d : ℕ) :
    (∃ p ∈ (run P root notes).found, P.key p.1 = k ∧ p.2 = d) ↔ Distance P root k d ∧ d ≤ P.depth := by
  constructor
  · rintro ⟨p,hp,rfl,rfl⟩
    obtain ⟨hwalk,hdepth⟩ := run_walks notes p hp
    refine ⟨⟨⟨p.1,hwalk,rfl⟩,?_⟩,hdepth⟩
    rintro m hm ⟨y,hy,hkey⟩
    obtain ⟨q,hq,hqkey,hle⟩ := run_complete hdecides hfull hy (by omega)
    obtain rfl := List.inj_on_of_nodup_map (run_found root notes).1 hq hp (hqkey.trans hkey)
    omega
  · rintro ⟨⟨⟨x,hwalk,rfl⟩,hleast⟩,hdepth⟩
    obtain ⟨p,hp,hkey,hle⟩ := run_complete hdecides hfull hwalk hdepth
    refine ⟨p,hp,hkey,Nat.le_antisymm hle (Nat.not_lt.mp fun hlt => ?_)⟩
    exact hleast p.2 hlt ⟨p.1,(run_walks notes p hp).1,hkey⟩

/-- A search is not cut short when everything it comes to is admitted and is of no more keys than it has room for. -/
theorem run_room {ks : List κ} (hks : ks.length ≤ P.limit) (hroot : P.allows root = true)
    (hkeys : ∀ n x, n ≤ P.depth → Walk P root n x → P.key x ∈ ks)
    (hadmitted : ∀ n x, n < P.depth → Walk P root n x → ∀ b ∈ P.next x, P.allows (P.item b) = true) (notes : σ) :
    (run P root notes).full = false := by
  have hpos : 0 < P.limit := Nat.lt_of_lt_of_le (List.length_pos_of_mem (hkeys 0 root (Nat.zero_le _) (.root hroot))) hks
  have hstart : (start P root notes).full = false ∧ (start P root notes).found = [(root,0)] := by
    have hlimit : ¬P.limit ≤ 0 := Nat.not_le.mpr hpos
    simp [start,add,known,hlimit,hroot]
  have hend := search_invariant (P := P) (fun s : State α σ => s.full = false ∧ (keys P s).Nodup ∧
    ∀ p ∈ s.found, Walk P root p.2 p.1 ∧ p.2 ≤ P.depth) (fun _ _ h => h) (fun s x d hd b hb hs hx => ?_) ?_
    (start_queued (P := P) root notes) (P.limit+1)
  · exact hend.1
  · obtain ⟨hfull,hnodup,hwalks⟩ := hs
    have hallowed := hadmitted d x hd (hwalks _ hx).1 b hb
    have hwalk : Walk P root (d+1) (P.item b) := .step (hwalks _ hx).1 hb hallowed
    by_cases hknown : known P s (P.key (P.item b)) = true
    · have hadd : add P s (P.item b) (d+1) = (s,some (P.key (P.item b)),false) := by simp [add,hknown]
      simp only [visit,hadd]
      exact ⟨hfull,hnodup,hwalks⟩
    · have hfresh : P.key (P.item b) ∉ keys P s := by
        intro hmem
        obtain ⟨p,hp,hkey⟩ := List.mem_map.mp hmem
        exact hknown (known_iff.mpr ⟨p,hp,hkey⟩)
      have hall : P.key (P.item b)::keys P s ⊆ ks := by
        intro k hk
        rcases List.mem_cons.mp hk with rfl | hk
        · exact hkeys (d+1) _ hd hwalk
        · obtain ⟨p,hp,rfl⟩ := List.mem_map.mp hk
          exact hkeys p.2 p.1 (hwalks p hp).2 (hwalks p hp).1
      have hroom : s.found.length < P.limit := by
        have hle := (List.subperm_of_subset (List.nodup_cons.mpr ⟨hfresh,hnodup⟩) hall).length_le
        rw [List.length_cons,keys,List.length_map] at hle
        omega
      have hadd : add P s (P.item b) (d+1) =
          ({ s with found := s.found ++ [(P.item b,d+1)] },some (P.key (P.item b)),true) := by
        simp only [add]
        rw [if_neg hknown,if_neg (Nat.not_le.mpr hroom),if_pos hallowed]
      simp only [visit,hadd,if_true]
      refine ⟨hfull,?_,fun p hp => ?_⟩
      · rw [keys,List.map_append,List.map_singleton]
        refine List.nodup_append.mpr ⟨hnodup,List.nodup_singleton _,fun k hk k' hk' heq => hfresh ?_⟩
        rwa [← List.mem_singleton.mp hk',← heq]
      · rcases List.mem_append.mp hp with hp | hp
        · exact hwalks p hp
        · rw [List.mem_singleton.mp hp]
          exact ⟨hwalk,hd⟩
  · rw [keys,hstart.2]
    refine ⟨hstart.1,List.nodup_singleton _,fun p hp => ?_⟩
    rw [List.mem_singleton.mp hp]
    exact ⟨.root hroot,Nat.zero_le _⟩

end Search
end Biggy
