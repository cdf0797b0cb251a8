import Mathlib.Logic.Relation
import Mathlib.Logic.Function.Basic
import Mathlib.Data.List.Induction
import Mathlib.Data.List.Nodup
import Mathlib.Data.List.Perm.Subperm
import Biggy.Outcome

/-!
# Dependency orders

A depth-first visit lists names behind the names they depend on, and reports a cycle when a
name is met below itself. A system gives each name a value that is evaluated from the values
of its dependencies; along such a list it is solved in one run, and its solution is unique.
-/
namespace Biggy
namespace Dependency

variable {ν : Type*}

/-! ### Orders -/

section Order

/-- Every name stands once, behind its dependencies. -/
inductive Ordered (deps : ν → List ν) : List ν → Prop
  | nil : Ordered deps []
  | snoc {l : List ν} {n : ν} : Ordered deps l → (∀ d ∈ deps n, d ∈ l) → n ∉ l → Ordered deps (l++[n])

theorem Ordered.closed {deps : ν → List ν} {l : List ν} (h : Ordered deps l) : ∀ n ∈ l, ∀ d ∈ deps n, d ∈ l := by
  induction h with
  | nil => exact fun n hn => by cases hn
  | snoc _ hdeps _ ih =>
    intro m hm d hd
    apply List.mem_append_left
    rcases List.mem_append.mp hm with hm | hm
    · exact ih m hm d hd
    · exact hdeps d (List.mem_singleton.mp hm ▸ hd)

theorem Ordered.nodup {deps : ν → List ν} {l : List ν} (h : Ordered deps l) : l.Nodup := by
  induction h with
  | nil => exact List.nodup_nil
  | @snoc l n _ _ hnew ih =>
    refine List.nodup_append.mpr ⟨ih,List.nodup_singleton n,fun a ha b hb hab => hnew ?_⟩
    rwa [← List.mem_singleton.mp hb,← hab]

/-- What a name depends on stands before it. -/
theorem Ordered.behind {deps : ν → List ν} {l before after : List ν} {n : ν} (h : Ordered deps l)
    (hl : l = before++n::after) : ∀ d ∈ deps n, d ∈ before := by
  induction h generalizing after with
  | nil => exact absurd hl (by simp)
  | @snoc l m _ hdeps _ ih =>
    rcases List.eq_nil_or_concat after with rfl | ⟨after,last,rfl⟩
    · obtain ⟨rfl,hm⟩ := List.append_inj' hl rfl
      obtain rfl := List.singleton_inj.mp hm
      exact hdeps
    · have hlast : l++[m] = (before++n::after)++[last] := by simpa using hl
      exact ih (List.append_inj' hlast rfl).1

/-- A name depends on another. -/
def Edge (deps : ν → List ν) (n d : ν) : Prop := d ∈ deps n

/-- No name depends on itself, in any number of steps. -/
def Acyclic (deps : ν → List ν) : Prop := ∀ n, ¬Relation.TransGen (Edge deps) n n

/-- A rank that falls along the edges leaves no cycle. -/
theorem Acyclic.of_rank {deps : ν → List ν} (rank : ν → ℕ) (h : ∀ n, ∀ d ∈ deps n, rank d < rank n) : Acyclic deps := by
  have hfall : ∀ {n m : ν}, Relation.TransGen (Edge deps) n m → rank m < rank n := by
    intro n m hpath
    induction hpath with
    | single hedge => exact h _ _ hedge
    | tail _ hedge ih => exact Nat.lt_trans (h _ _ hedge) ih
  exact fun n hcycle => Nat.lt_irrefl _ (hfall hcycle)

/-- What is in order has no cycle. -/
theorem Ordered.acyclic {deps : ν → List ν} {l : List ν} (h : Ordered deps l) (hclosed : ∀ n, n ∉ l → deps n = []) :
    Acyclic deps := by
  classical
  have hrank : ∃ (rank : ν → ℕ) (bound : ℕ), ∀ n ∈ l, rank n < bound ∧ ∀ d ∈ deps n, rank d < rank n := by
    clear hclosed
    induction h with
    | nil => exact ⟨fun _ => 0,0,List.forall_mem_nil _⟩
    | @snoc l n hl hdeps hnew ih =>
      obtain ⟨rank,bound,hrank⟩ := ih
      have hold : ∀ m ∈ l, Function.update rank n bound m = rank m := by
        intro m hm
        have hne : m ≠ n := fun hsame => hnew (hsame ▸ hm)
        exact Function.update_of_ne hne _ _
      refine ⟨Function.update rank n bound,bound+1,fun m hm => ?_⟩
      rcases List.mem_append.mp hm with hm | hm
      · rw [hold m hm]
        refine ⟨Nat.lt_succ_of_lt (hrank m hm).1,fun d hd => ?_⟩
        rw [hold d (hl.closed m hm d hd)]
        exact (hrank m hm).2 d hd
      · obtain rfl := List.mem_singleton.mp hm
        rw [Function.update_self]
        refine ⟨Nat.lt_succ_self _,fun d hd => ?_⟩
        rw [hold d (hdeps d hd)]
        exact (hrank d (hdeps d hd)).1
  obtain ⟨rank,bound,hrank⟩ := hrank
  refine Acyclic.of_rank rank fun n d hd => ?_
  by_cases hn : n ∈ l
  · exact (hrank n hn).2 d hd
  · rw [hclosed n hn] at hd
    cases hd

/-- Why a visit ends early; `depth` is the bound on the nesting. -/
inductive Trouble
  | cycle | depth
  deriving DecidableEq

variable [DecidableEq ν]

/-- A depth-first visit: the names that are being visited, and those that are done. -/
def visit (deps : ν → List ν) : ℕ → List ν → List ν → ν → Except Trouble (List ν)
  | 0, _, _, _ => .error .depth
  | fuel+1, active, done, n =>
    if n ∈ active then .error .cycle
    else if n ∈ done then .ok done
    else ((deps n).foldlM (visit deps fuel (n::active)) done).map (· ++ [n])

variable {deps : ν → List ν}

/-- What a visit leaves: an order that extends the one before and has no name that is still active. -/
structure Extends (deps : ν → List ν) (active done done' : List ν) : Prop where
  ordered : Ordered deps done'
  subset : done ⊆ done'
  inactive : ∀ a ∈ active, a ∉ done'

theorem visit_ok {fuel : ℕ} {active done done' : List ν} {n : ν} (hdone : Ordered deps done)
    (hactive : ∀ a ∈ active, a ∉ done) (h : visit deps fuel active done n = .ok done') :
    Extends deps active done done' ∧ n ∈ done' := by
  induction fuel generalizing active done done' n with
  | zero => cases h
  | succ fuel ih =>
    rw [visit] at h
    by_cases hcycle : n ∈ active
    · rw [if_pos hcycle] at h
      cases h
    rw [if_neg hcycle] at h
    by_cases hin : n ∈ done
    · rw [if_pos hin] at h
      obtain rfl := Except.ok.inj h
      exact ⟨⟨hdone,List.Subset.refl _,hactive⟩,hin⟩
    rw [if_neg hin] at h
    -- the dependencies leave the name itself out
    have hall : ∀ {names mid last : List ν}, Ordered deps mid → (∀ a ∈ n::active, a ∉ mid) →
        names.foldlM (visit deps fuel (n::active)) mid = .ok last →
        Extends deps (n::active) mid last ∧ ∀ d ∈ names, d ∈ last := by
      intro names
      induction names with
      | nil =>
        intro mid last hmid hout hlast
        obtain rfl := Except.ok.inj hlast
        exact ⟨⟨hmid,List.Subset.refl _,hout⟩,fun d hd => by cases hd⟩
      | cons d names ihnames =>
        intro mid last hmid hout hlast
        rw [List.foldlM_cons] at hlast
        cases hfirst : visit deps fuel (n::active) mid d with
        | error e =>
          rw [hfirst] at hlast
          cases hlast
        | ok next =>
          rw [hfirst] at hlast
          obtain ⟨hnext,hd⟩ := ih hmid hout hfirst
          obtain ⟨hrest,hnames⟩ := ihnames hnext.ordered hnext.inactive hlast
          refine ⟨⟨hrest.ordered,List.Subset.trans hnext.subset hrest.subset,hrest.inactive⟩,?_⟩
          intro x hx
          rcases List.mem_cons.mp hx with rfl | hx
          · exact hrest.subset hd
          · exact hnames x hx
    cases hdeps : (deps n).foldlM (visit deps fuel (n::active)) done with
    | error e =>
      rw [hdeps] at h
      cases h
    | ok last =>
      rw [hdeps] at h
      obtain rfl := Except.ok.inj h
      have hout : ∀ a ∈ n::active, a ∉ done := by
        intro a ha
        rcases List.mem_cons.mp ha with rfl | ha
        · exact hin
        · exact hactive a ha
      obtain ⟨hlast,hnames⟩ := hall hdone hout hdeps
      refine ⟨⟨.snoc hlast.ordered hnames (hlast.inactive n List.mem_cons_self),?_,?_⟩,by simp⟩
      · exact List.Subset.trans hlast.subset (List.subset_append_left _ _)
      · intro a ha hmem
        rcases List.mem_append.mp hmem with hmem | hmem
        · exact hlast.inactive a (List.mem_cons_of_mem n ha) hmem
        · exact hcycle (List.mem_singleton.mp hmem ▸ ha)

/-- Visits one after the other. -/
theorem visits_ok {fuel : ℕ} {names done done' : List ν} (hdone : Ordered deps done)
    (h : names.foldlM (visit deps fuel []) done = .ok done') :
    Ordered deps done' ∧ done ⊆ done' ∧ ∀ n ∈ names, n ∈ done' := by
  induction names generalizing done with
  | nil =>
    obtain rfl := Except.ok.inj h
    exact ⟨hdone,List.Subset.refl _,fun n hn => by cases hn⟩
  | cons d names ih =>
    rw [List.foldlM_cons] at h
    cases hfirst : visit deps fuel [] done d with
    | error e =>
      rw [hfirst] at h
      cases h
    | ok next =>
      rw [hfirst] at h
      obtain ⟨hnext,hd⟩ := visit_ok hdone (fun a ha => by cases ha) hfirst
      obtain ⟨hordered,hsubset,hnames⟩ := ih hnext.ordered h
      refine ⟨hordered,List.Subset.trans hnext.subset hsubset,?_⟩
      intro n hn
      rcases List.mem_cons.mp hn with rfl | hn
      · exact hsubset hd
      · exact hnames n hn

/-- Without a cycle a visit comes to its end, and stays among the given names. -/
theorem visit_acyclic (hacyclic : Acyclic deps) {names : List ν} (hclosed : ∀ n ∈ names, ∀ d ∈ deps n, d ∈ names)
    {fuel : ℕ} {active done : List ν} {n : ν} (hn : n ∈ names) (hnodup : active.Nodup) (hsub : active ⊆ names)
    (hpath : ∀ a ∈ active, Relation.TransGen (Edge deps) a n) (hfuel : names.length < active.length+fuel)
    (hdone : done ⊆ names) : ∃ done', visit deps fuel active done n = .ok done' ∧ done' ⊆ names := by
  induction fuel generalizing active done n with
  | zero =>
    have hle := (List.subperm_of_subset hnodup hsub).length_le
    omega
  | succ fuel ih =>
    have hcycle : n ∉ active := fun hmem => hacyclic n (hpath n hmem)
    rw [visit,if_neg hcycle]
    by_cases hin : n ∈ done
    · rw [if_pos hin]
      exact ⟨done,rfl,hdone⟩
    rw [if_neg hin]
    have hall : ∀ {ds mid : List ν}, (∀ d ∈ ds, d ∈ deps n) → mid ⊆ names →
        ∃ last, ds.foldlM (visit deps fuel (n::active)) mid = .ok last ∧ last ⊆ names := by
      intro ds
      induction ds with
      | nil => exact fun _ hmid => ⟨_,rfl,hmid⟩
      | cons d ds ihds =>
        intro mid hds hmid
        have hd := hds d List.mem_cons_self
        have hbelow : ∀ a ∈ n::active, Relation.TransGen (Edge deps) a d := by
          intro a ha
          rcases List.mem_cons.mp ha with rfl | ha
          · exact .single hd
          · exact .tail (hpath a ha) hd
        have hnext := ih (hclosed n hn d hd) (List.nodup_cons.mpr ⟨hcycle,hnodup⟩)
          (List.cons_subset.mpr ⟨hn,hsub⟩) hbelow (by rw [List.length_cons]; omega) hmid
        obtain ⟨next,hvisit,hnext⟩ := hnext
        obtain ⟨last,hlast,hsublast⟩ := ihds (fun x hx => hds x (List.mem_cons_of_mem d hx)) hnext
        refine ⟨last,?_,hsublast⟩
        rw [List.foldlM_cons,hvisit]
        exact hlast
    obtain ⟨last,hlast,hsublast⟩ := hall (fun d hd => hd) hdone
    refine ⟨last++[n],by rw [hlast]; rfl,?_⟩
    exact List.append_subset.mpr ⟨hsublast,by simpa using hn⟩

/-- Without a cycle the names can be listed in order. -/
theorem visits_acyclic (hacyclic : Acyclic deps) {names : List ν} (hclosed : ∀ n ∈ names, ∀ d ∈ deps n, d ∈ names)
    {fuel : ℕ} (hfuel : names.length < fuel) {some done : List ν} (hsome : some ⊆ names) (hdone : done ⊆ names) :
    ∃ done', some.foldlM (visit deps fuel []) done = .ok done' ∧ done' ⊆ names := by
  induction some generalizing done with
  | nil => exact ⟨done,rfl,hdone⟩
  | cons n rest ih =>
    obtain ⟨hn,hrest⟩ := List.cons_subset.mp hsome
    obtain ⟨next,hvisit,hnext⟩ := visit_acyclic hacyclic hclosed hn List.nodup_nil (List.nil_subset _)
      (fun a ha => by cases ha) (by simpa using hfuel) hdone
    obtain ⟨last,hlast,hsublast⟩ := ih hrest hnext
    refine ⟨last,?_,hsublast⟩
    rw [List.foldlM_cons,hvisit]
    exact hlast

/-- With a level for every name the nesting is not bounded. -/
theorem visit_depth {names : List ν} (hclosed : ∀ n ∈ names, ∀ d ∈ deps n, d ∈ names) {fuel : ℕ} {active done : List ν}
    {n : ν} (hn : n ∈ names) (hnodup : active.Nodup) (hsub : active ⊆ names) (hfuel : names.length < active.length+fuel) :
    visit deps fuel active done n ≠ .error .depth := by
  induction fuel generalizing active done n with
  | zero =>
    have hle := (List.subperm_of_subset hnodup hsub).length_le
    omega
  | succ fuel ih =>
    rw [visit]
    by_cases hcycle : n ∈ active
    · rw [if_pos hcycle]
      intro h
      cases h
    rw [if_neg hcycle]
    by_cases hin : n ∈ done
    · rw [if_pos hin]
      intro h
      cases h
    rw [if_neg hin]
    intro h
    obtain ⟨mid,d,hd,hfails⟩ := Outcome.foldlM_error (Outcome.map_error h)
    exact ih (hclosed n hn d hd) (List.nodup_cons.mpr ⟨hcycle,hnodup⟩) (List.cons_subset.mpr ⟨hn,hsub⟩)
      (by rw [List.length_cons]; omega) hfails

end Order

/-! ### Systems -/

/-- What a name is evaluated to, and which value it has from then on. -/
structure System (ν α β : Type*) where
  eval : ν → (ν → α) → β
  settle : ν → β → α → α

section System

variable {α β : Type*}

/-- The evaluation of a name reads its dependencies and what lies outside the system. -/
def System.Local (S : System ν α β) (deps : ν → List ν) (names : List ν) : Prop :=
  ∀ n ∈ names, ∀ env env' : ν → α, (∀ d, d ∈ deps n ∨ d ∉ names → env d = env' d) → S.eval n env = S.eval n env'

/-- The values agree with their own evaluation, and are the initial ones outside the system. -/
structure System.Solves (S : System ν α β) (names : List ν) (init env : ν → α) : Prop where
  inside : ∀ n ∈ names, env n = S.settle n (S.eval n env) (init n)
  outside : ∀ n, n ∉ names → env n = init n

theorem System.Solves.congr {S : System ν α β} {names names' : List ν} {init env : ν → α}
    (hnames : ∀ n, n ∈ names ↔ n ∈ names') (h : S.Solves names init env) : S.Solves names' init env :=
  ⟨fun n hn => h.inside n ((hnames n).mpr hn),fun n hn => h.outside n fun hmem => hn ((hnames n).mp hmem)⟩

variable [DecidableEq ν]

/-- Evaluate one name and settle its value. -/
def System.step (S : System ν α β) (s : (ν → α) × List (ν × β)) (n : ν) : (ν → α) × List (ν × β) :=
  (Function.update s.1 n (S.settle n (S.eval n s.1) (s.1 n)),s.2++[(n,S.eval n s.1)])

def System.run (S : System ν α β) (names : List ν) (init : ν → α) : (ν → α) × List (ν × β) :=
  names.foldl S.step (init,[])

variable {S : System ν α β} {deps : ν → List ν} {names : List ν} {init env env' : ν → α}

theorem System.run_snoc (l : List ν) (n : ν) : S.run (l++[n]) init = S.step (S.run l init) n := by
  simp [System.run,List.foldl_append]

theorem System.run_names (l : List ν) : (S.run l init).2.map Prod.fst = l := by
  induction l using List.reverseRecOn with
  | nil => rfl
  | append_singleton l n ih => simp [System.run_snoc,System.step,ih]

/-- Every result is an evaluation. -/
theorem System.run_evaluated {l : List ν} {p : ν × β} (h : p ∈ (S.run l init).2) : ∃ env, p.2 = S.eval p.1 env := by
  induction l using List.reverseRecOn with
  | nil => cases h
  | append_singleton l n ih =>
    rw [System.run_snoc,System.step] at h
    rcases List.mem_append.mp h with h | h
    · exact ih h
    · obtain rfl := List.mem_singleton.mp h
      exact ⟨_,rfl⟩

theorem System.run_outside {l : List ν} {m : ν} (h : m ∉ l) : (S.run l init).1 m = init m := by
  induction l using List.reverseRecOn with
  | nil => rfl
  | append_singleton l n ih =>
    simp only [List.mem_append,List.mem_singleton,not_or] at h
    simp [System.run_snoc,System.step,h.2,ih h.1]

/-- Along an order each result is the evaluation of the final values. -/
theorem System.run_inside (hlocal : S.Local deps names) {l : List ν} (hl : Ordered deps l) (hsub : l ⊆ names) :
    ∀ m ∈ l, (S.run l init).1 m = S.settle m (S.eval m (S.run l init).1) (init m) ∧
      (S.run l init).2.lookup m = some (S.eval m (S.run l init).1) := by
  induction hl with
  | nil => exact fun m hm => by cases hm
  | @snoc l n hl hdeps hn ih =>
    obtain ⟨hsubl,hin⟩ := List.append_subset.mp hsub
    have hnames : n ∈ names := hin List.mem_cons_self
    have hsame : ∀ m ∈ l++[n], S.eval m (S.run (l++[n]) init).1 = S.eval m (S.run l init).1 := by
      intro m hm
      apply hlocal m (hsub hm)
      intro d hd
      have hne : d ≠ n := by
        rintro rfl
        rcases hd with hd | hd
        · rcases List.mem_append.mp hm with hm | hm
          · exact hn (hl.closed m hm d hd)
          · exact hn (hdeps d (List.mem_singleton.mp hm ▸ hd))
        · exact hd hnames
      simp [System.run_snoc,System.step,hne]
    intro m hm
    rw [hsame m hm]
    rcases List.mem_append.mp hm with hm | hm
    · have hne : m ≠ n := fun heq => hn (heq ▸ hm)
      obtain ⟨hvalue,hlookup⟩ := ih hsubl m hm
      simp [System.run_snoc,System.step,hne,hvalue.symm,List.lookup_append,hlookup]
    · obtain rfl := List.mem_singleton.mp hm
      have habsent : (S.run l init).2.lookup m = none := by
        rw [List.lookup_eq_none_iff]
        intro p hp
        have hmem : p.1 ∈ (S.run l init).2.map Prod.fst := List.mem_map_of_mem hp
        rw [System.run_names] at hmem
        have hne : m ≠ p.1 := fun heq => hn (heq ▸ hmem)
        simpa using hne
      simp [System.run_snoc,System.step,System.run_outside hn,List.lookup_append,habsent]

/-- A run along an order of the names solves the system. -/
theorem System.run_solves (hlocal : S.Local deps names) (hordered : Ordered deps names) :
    S.Solves names init (S.run names init).1 :=
  ⟨fun n hn => (System.run_inside hlocal hordered (List.Subset.refl _) n hn).1,fun _ hn => System.run_outside hn⟩

/-- The results of a run along an order are the evaluations of the names. -/
theorem System.run_lookup (hlocal : S.Local deps names) (hordered : Ordered deps names) (n : ν) :
    (S.run names init).2.lookup n = if n ∈ names then some (S.eval n (S.run names init).1) else none := by
  by_cases hin : n ∈ names
  · rw [if_pos hin]
    exact (System.run_inside hlocal hordered (List.Subset.refl _) n hin).2
  · rw [if_neg hin,List.lookup_eq_none_iff]
    intro p hp
    have hmem : p.1 ∈ (S.run names init).2.map Prod.fst := List.mem_map_of_mem hp
    rw [System.run_names] at hmem
    have hne : n ≠ p.1 := fun heq => hin (heq ▸ hmem)
    simpa using hne

/-- The solution is unique. -/
theorem System.Solves.unique (hlocal : S.Local deps names) (hordered : Ordered deps names)
    (h : S.Solves names init env) (h' : S.Solves names init env') : env = env' := by
  have hinside : ∀ {l : List ν}, Ordered deps l → l ⊆ names → ∀ m ∈ l, env m = env' m := by
    intro l hl
    induction hl with
    | nil => exact fun _ m hm => by cases hm
    | snoc _ hdeps _ ih =>
      intro hsub m hm
      obtain ⟨hsubl,hin⟩ := List.append_subset.mp hsub
      rcases List.mem_append.mp hm with hm | hm
      · exact ih hsubl m hm
      · obtain rfl := List.mem_singleton.mp hm
        have hnames := hin List.mem_cons_self
        have heval : S.eval m env = S.eval m env' := by
          apply hlocal m hnames
          intro d hd
          rcases hd with hd | hd
          · exact ih hsubl d (hdeps d hd)
          · rw [h.outside d hd,h'.outside d hd]
        rw [h.inside m hnames,h'.inside m hnames,heval]
  funext m
  by_cases hm : m ∈ names
  · exact hinside hordered (List.Subset.refl _) m hm
  · rw [h.outside m hm,h'.outside m hm]

end System

end Dependency
end Biggy
