import Biggy.Metadata

/-!
# Status workflows

A workflow attaches a graph of allowed transitions to an enum field. `check` runs
on every direct update; it gates each changed workflow field by the graph and by
the roles of the transition it takes.
-/
namespace Biggy

/-- One entry of the `transitions` JSON; `roles = []` means any writer. -/
structure Transition where
  fromState : String
  toState : String
  roles : List String
  deriving DecidableEq

/-- `stored` holds the dicts of the workflow's `transitions` column. -/
structure Workflow where
  id : ℕ
  tableId : ℕ
  fieldId : ℕ
  stored : List Transition
  deriving DecidableEq

inductive WorkflowError
  | notAllowed (label : String) (old new : Value)
  | roleDenied (label : String) (old new : Value)
  deriving DecidableEq

def WorkflowError.message (str : Value → String) : WorkflowError → String
  | .notAllowed label old new =>
    label ++ ": “" ++ str old ++ "” → “" ++ str new ++ "” is not an allowed transition."
  | .roleDenied label old new =>
    label ++ ": your role may not perform “" ++ str old ++ "” → “" ++ str new ++ "”."

namespace Workflow

def transitions (wf : Workflow) : List Transition := wf.stored.filter fun t => t.fromState != "" && t.toState != ""

/-- `_match`: the first transition from `frm` to `target`. -/
def matchTransition (wf : Workflow) (frm target : Value) : Option Transition :=
  wf.transitions.find? fun t =>
    decide (Value.text t.fromState = frm) && decide (Value.text t.toState = target)

def roleOk (t : Transition) (user : AppUser) : Bool :=
  t.roles.isEmpty || user.isDesigner || t.roles.contains user.role

/-- `for_table`: the workflows on a table's fields. -/
def forTable (workflows : List Workflow) (tableId : ℕ) : List Workflow :=
  workflows.filter fun wf => wf.tableId == tableId

/-- The graph has an edge from `a` to `b`. -/
def Allows (wf : Workflow) (a b : Value) : Prop :=
  ∃ t ∈ wf.transitions, Value.text t.fromState = a ∧ Value.text t.toState = b

instance (wf : Workflow) (a b : Value) : Decidable (wf.Allows a b) :=
  inferInstanceAs (Decidable (∃ t ∈ wf.transitions, _))

theorem allows_of_matchTransition {wf : Workflow} {a b : Value} {t : Transition}
    (h : wf.matchTransition a b = some t) : wf.Allows a b := by
  have hm := List.mem_of_find?_eq_some h
  have hp := List.find?_some h
  simp only [Bool.and_eq_true,decide_eq_true_eq] at hp
  exact ⟨t,hm,hp⟩

/-- The body of `check` for one workflow of the table. -/
def checkOne (mt : MetaTable) (old : Row) (values : Values) (user : AppUser) (wf : Workflow) :
    Except WorkflowError Unit :=
  match mt.field wf.fieldId with
  | none => .ok ()
  | some field =>
    match values.lookup field.physName with
    | none => .ok ()
    | some new =>
      if new = old field.physName ∨ new.blank then .ok ()
      else
        match wf.matchTransition (old field.physName) new with
        | none => .error (.notAllowed field.label (old field.physName) new)
        | some t =>
          if roleOk t user then .ok ()
          else .error (.roleDenied field.label (old field.physName) new)

def check (mt : MetaTable) (old : Row) (values : Values) (user : AppUser) :
    List Workflow → Except WorkflowError Unit
  | [] => .ok ()
  | wf::wfs =>
    match checkOne mt old values user wf with
    | .error e => .error e
    | .ok () => check mt old values user wfs

theorem checkOne_of_check {mt : MetaTable} {old : Row} {values : Values} {user : AppUser}
    {wfs : List Workflow} (h : check mt old values user wfs = .ok ()) :
    ∀ wf ∈ wfs, checkOne mt old values user wf = .ok () := by
  induction wfs with
  | nil => simp
  | cons w wfs ih =>
    simp only [check] at h
    split at h
    · cases h
    · rename_i hw
      intro wf hwf
      rcases List.mem_cons.mp hwf with rfl | hwf
      · exact hw
      · exact ih h wf hwf

/-- A field that passed the check keeps its value, is cleared or follows an edge. -/
theorem checkOne_ok {mt : MetaTable} {old : Row} {values : Values} {user : AppUser} {wf : Workflow}
    (h : checkOne mt old values user wf = .ok ()) {field : MetaField}
    (hf : mt.field wf.fieldId = some field) {new : Value}
    (hn : values.lookup field.physName = some new) :
    new = old field.physName ∨ new.blank = true ∨ wf.Allows (old field.physName) new := by
  simp only [checkOne,hf,hn] at h
  split at h
  · rename_i hkeep
    exact hkeep.elim Or.inl fun h => Or.inr (Or.inl h)
  · split at h
    · cases h
    · rename_i t ht
      exact Or.inr (Or.inr (allows_of_matchTransition ht))

end Workflow
end Biggy
