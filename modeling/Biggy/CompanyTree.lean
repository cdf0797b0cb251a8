import Biggy.Companies
import Biggy.Forest
import Biggy.Run

/-!
# The company tree

Companies are added, edited and deleted in the designer with whatever parent id is submitted. An edit
refuses the company itself and everything below it as the parent; an addition takes any number.
-/
namespace Biggy
namespace CompanyTree

open Companies Forest Run

structure NamedCompany extends Company where
  name : String

/-- The companies, and the id that the database gives out next. -/
structure State where
  companies : List NamedCompany
  next : ℕ

def start : State := ⟨[],1⟩

def State.rows (s : State) : List Company := s.companies.map NamedCompany.toCompany

/-- What Python and the database decide: `str.isdigit`, `int` of such a text (none is a ValueError, as for
superscripts), which names are equal and which numbers an integer column holds. -/
structure Setup where
  isDigit : String → Bool
  int : String → Option ℕ
  sameName : String → String → Bool
  holds : ℕ → Bool

/-- What is submitted. -/
structure Submitted where
  name : Option String := none
  parentId : Option String := none

inductive Op
  | add (form : Submitted)
  | edit (cid : ℕ) (form : Submitted)
  /-- With the companies of the accounts at that time. -/
  | delete (cid : ℕ) (assigned : List ℕ)

section Routes

variable (U : Setup)

/-- `int(raw) if raw.isdigit() and int(raw) else None`; none stands for the ValueError. -/
def parentId (form : Submitted) : Option (Option ℕ) :=
  let raw := form.parentId.getD ""
  if U.isDigit raw then (U.int raw).map fun n => if n = 0 then none else some n else some none

def name (form : Submitted) : String := clip 120 (strip (form.name.getD ""))

/-- The name is given and no other company has it. -/
def nameFree (s : State) (name : String) (own : Option ℕ) : Bool :=
  name != "" && s.companies.all fun c => !U.sameName c.name name || decide (own = some c.id)

/-- The row that `companies_home` adds, when it adds one. -/
def added (s : State) (form : Submitted) : Option NamedCompany :=
  match parentId U form with
  | none => none
  | some parent =>
    if nameFree U s (name form) none && parent.all U.holds then some { id := s.next, parentId := parent, name := name form }
    else none

/-- `companies_home`. -/
def companiesHome (s : State) (form : Submitted) : State :=
  match added U s form with
  | none => s
  | some c => ⟨s.companies ++ [c],s.next+1⟩

/-- `company_edit`. -/
def companyEdit (s : State) (cid : ℕ) (form : Submitted) : State :=
  match parentId U form with
  | none => s
  | some parent =>
    if nameFree U s (name form) (some cid) && parent.all (fun p => U.holds p && decide (p ∉ subtreeIds s.rows cid)) then
      { s with companies := s.companies.map fun c => if c.id = cid then { c with parentId := parent, name := name form } else c }
    else s

/-- `company_delete`. -/
def companyDelete (s : State) (cid : ℕ) (assigned : List ℕ) : State :=
  if s.companies.any (fun c => decide (c.parentId = some cid)) || decide (cid ∈ assigned) then s
  else { s with companies := s.companies.filter fun c => decide (c.id ≠ cid) }

def step (s : State) : Op → State
  | .add form => companiesHome U s form
  | .edit cid form => companyEdit U s cid form
  | .delete cid assigned => companyDelete s cid assigned

end Routes

/-- The parent link of a company; an id that no company has is without one. -/
def parentOf (s : State) : ℕ → Option ℕ := upOf (fun c : NamedCompany => c.id) (fun c => c.parentId) s.companies

/-- From every company the parent links end, and they never come back. -/
def IsForest (s : State) : Prop := (∀ c ∈ s.companies, Ends (parentOf s) c.id) ∧ ∀ id, ¬Cyclic (parentOf s) id

/-- A company that is added does not get itself for a parent, nor an id whose links already lead to the id it gets. -/
def ParentBefore (U : Setup) (s : State) : Op → Prop
  | .add form => ∀ c, added U s form = some c → ∀ p, c.parentId = some p → p ∉ subtreeIds s.rows s.next
  | _ => True

/-- The ids are distinct and were given out before. -/
structure Numbered (s : State) : Prop where
  nodup : (s.companies.map fun c => c.id).Nodup
  before : ∀ c ∈ s.companies, c.id < s.next

/-- `subtree_ids` finds what the parent links bring to the company. -/
theorem Numbered.mem_subtreeIds_iff {s : State} (h : Numbered s) {root x : ℕ} :
    x ∈ subtreeIds s.rows root ↔ Above (parentOf s) x root := by
  have hnodup : (s.rows.map Company.id).Nodup := by simpa [State.rows,Function.comp_def] using h.nodup
  have hup : upOf Company.id Company.parentId s.rows = parentOf s := funext fun k => upOf_map NamedCompany.toCompany s.companies k
  rw [Companies.mem_subtreeIds_iff hnodup,hup]

section Steps

variable {U : Setup} {s : State}

theorem added_id {form : Submitted} {c : NamedCompany} (h : added U s form = some c) : c.id = s.next := by
  simp only [added] at h
  split at h
  · cases h
  · split at h
    · rw [← Option.some.inj h]
    · cases h

/-- What a step does: nothing, or one of the three changes. -/
theorem step_cases (U : Setup) (s : State) (op : Op) : step U s op = s ∨
    (∃ form c, op = .add form ∧ added U s form = some c ∧ c.id = s.next ∧ step U s op = ⟨s.companies ++ [c],s.next+1⟩) ∨
    (∃ cid parent name, (∀ p, parent = some p → p ∉ subtreeIds s.rows cid) ∧ step U s op =
      { s with companies := s.companies.map fun c => if c.id = cid then { c with parentId := parent, name := name } else c }) ∨
    ∃ cid, step U s op = { s with companies := s.companies.filter fun c => decide (c.id ≠ cid) } := by
  cases op with
  | add form =>
    cases hadded : added U s form with
    | none => exact Or.inl (by simp only [step,companiesHome,hadded])
    | some c =>
      exact Or.inr (Or.inl ⟨form,c,rfl,hadded,added_id hadded,by simp only [step,companiesHome,hadded]⟩)
  | edit cid form =>
    simp only [step,companyEdit]
    split
    · exact Or.inl rfl
    · rename_i parent hparent
      split
      · rename_i hok
        refine Or.inr (Or.inr (Or.inl ⟨cid,parent,name form,fun p hp => ?_,rfl⟩))
        rw [Bool.and_eq_true,hp] at hok
        simpa using (Bool.and_eq_true_iff.mp hok.2).2
      · exact Or.inl rfl
  | delete cid assigned =>
    simp only [step,companyDelete]
    split
    · exact Or.inl rfl
    · exact Or.inr (Or.inr (Or.inr ⟨cid,rfl⟩))

theorem edited_id (cid : ℕ) (parent : Option ℕ) (name : String) (c : NamedCompany) :
    (if c.id = cid then { c with parentId := parent, name := name } else c).id = c.id := by
  split <;> rfl

theorem numbered_step (h : Numbered s) (op : Op) : Numbered (step U s op) := by
  rcases step_cases U s op with hsame | ⟨form,c,-,-,hid,hadd⟩ | ⟨cid,parent,name,-,hedit⟩ | ⟨cid,hdelete⟩
  · rwa [hsame]
  · have hfresh : ∀ d ∈ s.companies, d.id ≠ c.id := fun d hd => hid ▸ (h.before d hd).ne
    rw [hadd]
    refine ⟨?_,fun d hd => ?_⟩
    · rw [List.map_append,List.map_singleton]
      exact List.nodup_append.mpr ⟨h.nodup,List.nodup_singleton _,by simpa using hfresh⟩
    · rcases List.mem_append.mp hd with hold | hnew
      · exact Nat.lt_succ_of_lt (h.before d hold)
      · rw [List.mem_singleton.mp hnew,hid]
        exact Nat.lt_succ_self _
  · rw [hedit]
    refine ⟨?_,fun d hd => ?_⟩
    · rw [Keyed.map_key_map (edited_id cid parent name)]
      exact h.nodup
    · obtain ⟨c,hc,rfl⟩ := List.mem_map.mp hd
      rw [edited_id]
      exact h.before c hc
  · rw [hdelete]
    exact ⟨Keyed.nodup_filter _ h.nodup,fun d hd => h.before d (List.mem_filter.mp hd).1⟩

/-- A company that is added gets the link to its parent; no other link changes. -/
theorem parentOf_added (h : Numbered s) {c : NamedCompany} (hid : c.id = s.next) :
    parentOf ⟨s.companies ++ [c],s.next+1⟩ s.next = c.parentId ∧
      ∀ x, x ≠ s.next → parentOf ⟨s.companies ++ [c],s.next+1⟩ x = parentOf s x := by
  rw [← hid]
  exact ⟨upOf_append_self fun d hd => hid ▸ (h.before d hd).ne,fun x hx => upOf_append_other hx⟩

theorem parentOf_edited (s : State) (cid : ℕ) (parent : Option ℕ) (name : String) (x : ℕ) :
    parentOf { s with companies := s.companies.map fun c => if c.id = cid then { c with parentId := parent, name := name } else c } x =
      if x = cid then (Keyed.find (fun c : NamedCompany => c.id) x s.companies).bind fun _ => parent else parentOf s x :=
  upOf_change (edited_id cid parent name) (fun c hc => by simp [hc]) (fun c hc => by simp [hc]) s.companies x

/-- All parent links end. -/
def Grounded (s : State) : Prop := ∀ id, Ends (parentOf s) id

theorem grounded_step (hnum : Numbered s) (h : Grounded s) {op : Op} (hop : ParentBefore U s op) : Grounded (step U s op) := by
  rcases step_cases U s op with hsame | ⟨form,c,rfl,hadded,hid,hadd⟩ | ⟨cid,parent,name,hguard,hedit⟩ | ⟨cid,hdelete⟩
  · rwa [hsame]
  · obtain ⟨hlink,hother⟩ := parentOf_added hnum hid
    rw [hadd]
    refine ends_move hother h fun p hp habove => ?_
    exact hop c hadded p (hlink.symm.trans hp) (hnum.mem_subtreeIds_iff.mpr habove)
  · rw [hedit]
    have hlink := parentOf_edited s cid parent name
    refine ends_move (fun x hx => (hlink x).trans (if_neg hx)) h fun p hp habove => ?_
    rw [hlink,if_pos rfl] at hp
    obtain ⟨-,-,hp⟩ := Option.bind_eq_some_iff.mp hp
    exact hguard p hp (hnum.mem_subtreeIds_iff.mpr habove)
  · rw [hdelete]
    exact ends_filter (fun id => decide (id ≠ cid)) h

/-- A company added under itself or under one that hangs below the id it gets closes a cycle. -/
theorem cyclic_step (hnum : Numbered s) {form : Submitted} {c : NamedCompany} {p : ℕ} (hadded : added U s form = some c)
    (hparent : c.parentId = some p) (hbelow : p ∈ subtreeIds s.rows s.next) : Cyclic (parentOf (step U s (.add form))) s.next := by
  obtain ⟨hlink,hother⟩ := parentOf_added hnum (added_id hadded)
  have hstep : step U s (.add form) = ⟨s.companies ++ [c],s.next+1⟩ := by simp only [step,companiesHome,hadded]
  rw [hstep]
  exact cyclic_relink hother (hlink.trans hparent) (hnum.mem_subtreeIds_iff.mp hbelow)

theorem isForest_iff : IsForest s ↔ Grounded s := by
  constructor
  · intro h x
    rcases Classical.em (∃ c ∈ s.companies, c.id = x) with ⟨c,hc,rfl⟩ | hmissing
    · exact h.1 c hc
    · exact .top (upOf_missing fun c hc hid => hmissing ⟨c,hc,hid⟩)
  · exact fun h => ⟨fun c _ => h c.id,fun x => (h x).not_cyclic⟩

end Steps

/-- In all states of a run the companies are a forest exactly when no company is added below the id it gets. -/
theorem forest_iff (U : Setup) (ops : List Op) :
    (∀ before, before <+: ops → IsForest (exec (step U) start before)) ↔ Meets (step U) (ParentBefore U) start ops := by
  have hstart : Numbered start := ⟨List.nodup_nil,List.forall_mem_nil _⟩
  have hnumbered : ∀ before, Numbered (exec (step U) start before) := fun before =>
    Run.invariant_all Numbered (fun s op hs => numbered_step hs op) hstart before
  constructor
  · intro h
    refine meets_iff_splits.mpr fun before op after hsplit => ?_
    cases op with
    | edit | delete => trivial
    | add form =>
      intro c hadded p hparent hbelow
      have hforest := h (before++[.add form]) ⟨after,by simp [hsplit]⟩
      rw [exec_append] at hforest
      exact hforest.2 _ (cyclic_step (hnumbered before) hadded hparent hbelow)
  · rintro hrun before ⟨after,rfl⟩
    have hmeets := ((meets_append _ _ _ before after).mp hrun).1
    have hgrounded := Run.invariant (fun s => Numbered s ∧ Grounded s)
      (fun s op hs hop => ⟨numbered_step hs.1 op,grounded_step hs.1 hs.2 hop⟩) ⟨hstart,fun _ => .top rfl⟩ hmeets
    exact isForest_iff.mpr hgrounded.2

/-- Digits and names as they are in ASCII. -/
def ascii : Setup where
  isDigit s := s != "" && s.toList.all Char.isDigit
  int s := some (s.toList.foldl (fun n c => n*10+(c.toNat-48)) 0)
  sameName a b := a == b
  holds n := decide (n < 2147483648)

/-- The first company can be added as its own parent. -/
theorem forest_cycle : ¬∀ (U : Setup) (ops : List Op), IsForest (exec (step U) start ops) := by
  intro h
  have hlink : parentOf (exec (step ascii) start [.add { name := some "Acme", parentId := some "1" }]) 1 = some 1 := by decide
  exact (h ascii [.add { name := some "Acme", parentId := some "1" }]).2 1 (.single hlink)

end CompanyTree
end Biggy
