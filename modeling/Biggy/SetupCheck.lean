import Biggy.FormCheck
import Biggy.PyDict
import Biggy.WorkflowChoices
import Mathlib.Data.Finset.Sort
import Mathlib.Data.List.ReduceOption
import Mathlib.Data.String.Basic

/-!
# The setup check

`report` puts the findings of `check_form` for every form together with those for every workflow, whose states are searched from
the initial one along the transitions. `unreachable_exact`: what is reported as missing is what no path of transitions comes to.
-/
namespace Biggy
namespace SetupCheck

open PyDict FormRules FormDesign FormCheck GraphLoop

/-! ### Sets of values -/

/-- The key as the only element of a set, where it is a text. -/
def names : Key → Finset String
  | .text s => {s}
  | _ => ∅

def isText (k : Key) : Bool := (names k).Nonempty

/-- `sorted(missing)` where the names are joined, which takes texts only. -/
def sortedNames (missing : Finset Key) : Except PyError (List String) :=
  if ∀ k ∈ missing, isText k = true then .ok ((missing.biUnion names).sort (· ≤ ·)) else .error .typeError

/-! ### The search for states -/

/-- A row of `app_workflow`. -/
structure WorkflowRow where
  id : ℕ
  fieldId : ℕ
  initialState : Option String
  transitions : Option String

/-- Where a transition leads, as an element of a set. -/
def target (t : Json) : Except PyError Key := (member t "to").bind hash

/-- The state that a transition adds to those that are reached. -/
def follow (reachable : Finset Key) (t : Json) : Except PyError (Option Key) :=
  ((member t "from").bind hash).bind fun frm => if frm ∈ reachable then (target t).map some else .ok none

/-- `reachable | {t['to'] for t in transitions if t['from'] in reachable}`. -/
def expand (transitions : List Json) (reachable : Finset Key) : Except PyError (Finset Key) :=
  (transitions.mapM (follow reachable)).map fun found => reachable ∪ found.reduceOption.toFinset

/-- All that the transitions lead to. -/
def targets (transitions : List Json) : Finset Key := (transitions.filterMap fun t => (target t).toOption).toFinset

theorem follow_some {reachable : Finset Key} {t : Json} {x : Key} (h : follow reachable t = .ok (some x)) :
    (∃ frm ∈ reachable, (member t "from").bind hash = .ok frm) ∧ target t = .ok x := by
  obtain ⟨frm,hfrm,hrest⟩ := Outcome.bind_ok h
  split_ifs at hrest with hin
  · obtain ⟨y,hy,hx⟩ := Outcome.map_ok hrest
    obtain rfl := Option.some.inj hx
    exact ⟨⟨frm,hin,hfrm⟩,hy⟩
  · cases Except.ok.inj hrest

theorem mem_expand {transitions : List Json} {reachable expanded : Finset Key} (h : expand transitions reachable = .ok expanded)
    (x : Key) : x ∈ expanded ↔ x ∈ reachable ∨ ∃ t ∈ transitions, follow reachable t = .ok (some x) := by
  obtain ⟨found,hfound,rfl⟩ := Outcome.map_ok h
  rw [Finset.mem_union,List.mem_toFinset,List.reduceOption_mem_iff]
  exact or_congr_right (Outcome.mem_mapM hfound)

theorem expand_grows (transitions : List Json) (reachable expanded : Finset Key)
    (h : expand transitions reachable = .ok expanded) : reachable ⊆ expanded ∧ expanded ⊆ reachable ∪ targets transitions := by
  constructor
  · intro x hx
    exact (mem_expand h x).mpr (Or.inl hx)
  · intro x hx
    rcases (mem_expand h x).mp hx with hold | ⟨t,ht,hfollow⟩
    · exact Finset.mem_union_left _ hold
    · refine Finset.mem_union_right _ (List.mem_toFinset.mpr (List.mem_filterMap.mpr ⟨t,ht,?_⟩))
      rw [(follow_some hfollow).2]
      rfl

/-- `while True:` until nothing more is reached. -/
def stateLoop (transitions : List Json) : Loop (Finset Key) (Except PyError (Finset Key)) :=
  growLoop (expand transitions) (targets transitions) (expand_grows transitions)

/-! ### One workflow -/

structure WorkflowIssue where
  message : String
  level : String
  workflowId : ℕ

section Report

variable {ω : Type*} (lib : DesignLib ω) (setup : Setup)

/-- `session.get(MetaField, id)`. -/
def fieldAt (id : ℕ) : Option MetaField := (setup.tables.flatMap MetaTable.fields).find? fun f => decide (f.id = id)

/-- `text or '[]'`. -/
def orEmpty (text : Option String) : String := (text.filter (· ≠ "")).getD "[]"

def states (field : Option MetaField) : Except PyError (Finset Key) :=
  match field with
  | none => .ok ∅
  | some field =>
    ((lib.loads (orEmpty field.enumOptions)).bind Workflow.elements).bind fun options => (options.mapM hash).map List.toFinset

/-- `wf.initial_state` as an element of a set. -/
def WorkflowRow.start (wf : WorkflowRow) : Key := wf.initialState.elim .null .text

def unreachableIssue (wf : WorkflowRow) (missing : List String) : WorkflowIssue where
  message := "Workflow "++toString wf.id++": invalid initial state or unreachable states: "++String.intercalate ", " missing++"."
  level := "warning"
  workflowId := wf.id

/-- The body of the `try`. -/
def searchWorkflow (wf : WorkflowRow) : Except PyError (List WorkflowIssue) :=
  (states lib (fieldAt setup wf.fieldId)).bind fun states =>
    ((lib.loads (orEmpty wf.transitions)).bind Workflow.elements).bind fun transitions =>
      ((stateLoop transitions).run {wf.start}).bind fun reachable =>
        if wf.start ∉ states ∨ (states \ reachable).Nonempty then
          (sortedNames (states \ reachable)).map fun missing => [unreachableIssue wf missing]
        else .ok []

def checkWorkflow (wf : WorkflowRow) : Except PyError (List WorkflowIssue) :=
  match searchWorkflow lib setup wf with
  | .ok issues => .ok issues
  | .error e =>
    if caught e then .ok [⟨"Workflow "++toString wf.id++" has invalid transition data.","error",wf.id⟩] else .error e

/-! ### The report -/

inductive Finding
  | form (issue : FormCheck.Issue)
  | workflow (issue : WorkflowIssue)

structure Step where
  title : String
  done : Bool
  endpoint : String
  hint : String

def steps (forms : List Form) (menus : List ℕ) (findings : List Finding) : List Step :=
  [⟨"Define tables and fields",!setup.tables.isEmpty && setup.tables.all fun t => !t.fields.isEmpty,"designer.table_new",
      "Create the information your team will collect."⟩,
    ⟨"Connect related records",!setup.relations.isEmpty,"designer.relations","Optional for standalone tables."⟩,
    ⟨"Build forms",!forms.isEmpty && forms.all fun f => !f.items.isEmpty,"designer.forms","Choose fields, sections and rules."⟩,
    ⟨"Check configuration",findings.isEmpty,"designer.setup_guide","Resolve errors before publishing."⟩,
    ⟨"Configure roles",setup.roles.any fun role => role.name ≠ "designer","designer.permissions",
      "Roles exist; review their form and field permissions before publishing."⟩,
    ⟨"Make forms discoverable",!menus.isEmpty || forms.any Form.inCatalog,"designer.menus","Add a menu entry or catalog card."⟩]

/-- `report`. -/
def report (forms : List Form) (workflows : List WorkflowRow) (menus : List ℕ) : Except PyError (List Step × List Finding) :=
  (forms.mapM (checkForm lib setup)).bind fun formIssues =>
    (workflows.mapM (checkWorkflow lib setup)).map fun workflowIssues =>
      let findings := formIssues.flatten.map Finding.form++workflowIssues.flatten.map Finding.workflow
      (steps setup forms menus findings,findings)

end Report

/-! ### What no path comes to -/

section Missing

variable {ω : Type*} {lib : DesignLib ω} {setup : Setup} {ts : List Json}

/-- A transition from one state to another. -/
def Leads (t : Json) (a b : Key) : Prop :=
  ∃ members frm dest, t = .obj members ∧ members.lookup "from" = some frm ∧ members.lookup "to" = some dest ∧
    hash frm = .ok a ∧ hash dest = .ok b

/-- Every transition is one between two states. -/
def WellFormed (ts : List Json) : Prop := ∀ t ∈ ts, ∃ a b, Leads t a b

/-- Some transition leads from one state to the other. -/
def Joins (ts : List Json) (a b : Key) : Prop := ∃ t ∈ ts, Leads t a b

/-- The options of the field, of which there are none where the field is missing. -/
def Offers (lib : DesignLib ω) (field : Option MetaField) (options : List String) : Prop :=
  field.elim (options = []) fun f => (lib.loads (orEmpty f.enumOptions)).bind Workflow.elements = .ok (options.map .str)

/-- A path of transitions leads to the state from the initial one. -/
def Reached (ts : List Json) (wf : WorkflowRow) (state : String) : Prop := Relation.ReflTransGen (Joins ts) wf.start (.text state)

theorem follow_leads {t : Json} {a b : Key} (h : Leads t a b) (reachable : Finset Key) :
    follow reachable t = .ok (if a ∈ reachable then some b else none) := by
  obtain ⟨members,frm,dest,rfl,hfrm,hto,ha,hb⟩ := h
  have hfrom : (member (.obj members) "from").bind hash = .ok a := by
    simp only [member,hfrm]
    exact ha
  have htarget : target (.obj members) = .ok b := by
    simp only [target,member,hto]
    exact hb
  rw [follow,hfrom]
  simp only [Except.bind,htarget]
  split_ifs <;> rfl

/-- A round adds what the transitions lead to. -/
theorem expand_joins (hts : WellFormed ts) (reachable : Finset Key) :
    ∃ expanded, expand ts reachable = .ok expanded ∧
      ∀ x, x ∈ expanded ↔ x ∈ reachable ∨ ∃ a ∈ reachable, Joins ts a x := by
  have hfollow : ∀ t ∈ ts, ∃ y, follow reachable t = .ok y := by
    intro t ht
    obtain ⟨a,b,hleads⟩ := hts t ht
    exact ⟨_,follow_leads hleads reachable⟩
  obtain ⟨found,hfound⟩ := Outcome.mapM_total hfollow
  have hexpand : expand ts reachable = .ok (reachable ∪ found.reduceOption.toFinset) := by
    rw [expand,hfound]
    rfl
  refine ⟨_,hexpand,fun x => (mem_expand hexpand x).trans (or_congr_right ⟨?_,?_⟩)⟩
  · rintro ⟨t,ht,hx⟩
    obtain ⟨a,b,hleads⟩ := hts t ht
    rw [follow_leads hleads] at hx
    split_ifs at hx with ha
    · obtain rfl := Option.some.inj (Except.ok.inj hx)
      exact ⟨a,ha,t,ht,hleads⟩
    · cases Except.ok.inj hx
  · rintro ⟨a,ha,t,ht,hleads⟩
    exact ⟨t,ht,by rw [follow_leads hleads,if_pos ha]⟩

theorem hash_texts (options : List String) : (options.map Json.str).mapM hash = .ok (options.map Key.text) := by
  induction options with
  | nil => rfl
  | cons o rest ih =>
    rw [List.map_cons,List.mapM_cons,ih]
    rfl

theorem states_offers {field : Option MetaField} {options : List String} (h : Offers lib field options) :
    states lib field = .ok (options.map Key.text).toFinset := by
  cases field with
  | none =>
    obtain rfl : options = [] := h
    rfl
  | some f =>
    have hloads : (lib.loads (orEmpty f.enumOptions)).bind Workflow.elements = .ok (options.map .str) := h
    rw [states,hloads]
    simp only [Except.bind,hash_texts]
    rfl

/-- Names that are all texts are sorted. -/
theorem sortedNames_texts {missing : Finset Key} (h : ∀ k ∈ missing, ∃ s, k = .text s) :
    ∃ names, sortedNames missing = .ok names ∧ names.SortedLT ∧ ∀ s, s ∈ names ↔ Key.text s ∈ missing := by
  have htext : ∀ k ∈ missing, isText k = true := by
    intro k hk
    obtain ⟨s,rfl⟩ := h k hk
    simp [isText,names]
  refine ⟨_,if_pos htext,?_,fun s => ?_⟩
  · exact Finset.sortedLT_sort _
  · rw [Finset.mem_sort,Finset.mem_biUnion]
    constructor
    · rintro ⟨k,hk,hs⟩
      obtain ⟨s',rfl⟩ := h k hk
      rwa [Finset.mem_singleton.mp hs]
    · intro hs
      exact ⟨_,hs,Finset.mem_singleton_self s⟩

/-- What the search of a workflow comes to. -/
theorem searchWorkflow_run {wf : WorkflowRow} {options found : Finset Key} {missing : List String}
    (hoptions : states lib (fieldAt setup wf.fieldId) = .ok options)
    (hloads : (lib.loads (orEmpty wf.transitions)).bind Workflow.elements = .ok ts)
    (hrun : (stateLoop ts).run {wf.start} = .ok found) (hnames : sortedNames (options \ found) = .ok missing) :
    searchWorkflow lib setup wf =
      .ok (if wf.start ∈ options ∧ options \ found = ∅ then [] else [unreachableIssue wf missing]) := by
  have hbad : (wf.start ∉ options ∨ (options \ found).Nonempty) ↔ ¬(wf.start ∈ options ∧ options \ found = ∅) := by
    rw [not_and_or,Finset.nonempty_iff_ne_empty]
  rw [searchWorkflow,hoptions,Except.bind,hloads]
  simp only [Except.bind,hrun,hnames,hbad,Except.map]
  split_ifs <;> rfl

/-- The search ends, and the states reported as missing are the options that no path of transitions comes to. -/
theorem unreachable_exact (lib : DesignLib ω) (setup : Setup) (wf : WorkflowRow) {options : List String} {ts : List Json}
    (hoptions : Offers lib (fieldAt setup wf.fieldId) options)
    (hloads : (lib.loads (orEmpty wf.transitions)).bind Workflow.elements = .ok ts) (hts : WellFormed ts) :
    (∃ found, Loop.Leaves (growRound (expand ts)) {wf.start} (.ok found)) ∧
      ∃ missing : List String, missing.SortedLT ∧ (∀ s, s ∈ missing ↔ s ∈ options ∧ ¬Reached ts wf s) ∧
        checkWorkflow lib setup wf =
          .ok (if wf.start ∈ options.map Key.text ∧ missing = [] then [] else [unreachableIssue wf missing]) := by
  obtain ⟨found,hrun,hmem⟩ := grow_reaches (expand_joins hts) ((stateLoop ts).run_leaves {wf.start})
  have hleaves : Loop.Leaves (growRound (expand ts)) {wf.start} ((stateLoop ts).run {wf.start}) :=
    (stateLoop ts).run_leaves {wf.start}
  have hreached : ∀ s, Key.text s ∈ found ↔ Reached ts wf s := by
    intro s
    rw [hmem,Reached]
    simp
  have hgone : ∀ k ∈ (options.map Key.text).toFinset \ found, ∃ s, k = .text s := by
    intro k hk
    obtain ⟨s,-,rfl⟩ := List.mem_map.mp (List.mem_toFinset.mp (Finset.mem_sdiff.mp hk).1)
    exact ⟨s,rfl⟩
  obtain ⟨missing,hnames,hsorted,hmissing⟩ := sortedNames_texts hgone
  have hexact : ∀ s, s ∈ missing ↔ s ∈ options ∧ ¬Reached ts wf s := by
    intro s
    rw [hmissing,Finset.mem_sdiff,hreached]
    simp
  refine ⟨⟨found,hrun ▸ hleaves⟩,missing,hsorted,hexact,?_⟩
  have hall : wf.start ∈ options.map Key.text ∧ missing = [] ↔
      wf.start ∈ (options.map Key.text).toFinset ∧ (options.map Key.text).toFinset \ found = ∅ := by
    rw [List.mem_toFinset,Finset.eq_empty_iff_forall_notMem,List.eq_nil_iff_forall_not_mem]
    refine and_congr_right fun _ => ⟨fun h k hk => ?_,fun h s hs => h _ ((hmissing s).mp hs)⟩
    obtain ⟨s,rfl⟩ := hgone k hk
    exact h s ((hmissing s).mpr hk)
  have hsearch := searchWorkflow_run (states_offers hoptions) hloads hrun hnames
  simp only [checkWorkflow,hsearch,hall]

end Missing

/-- What the report finds is what `check_form` finds in some form and the search in some workflow. -/
theorem mem_findings {ω : Type*} {lib : DesignLib ω} {setup : Setup} {forms : List Form} {workflows : List WorkflowRow}
    {menus : List ℕ} {result : List Step × List Finding} (h : report lib setup forms workflows menus = .ok result) (f : Finding) :
    f ∈ result.2 ↔ (∃ i, (∃ form ∈ forms, ∃ issues, checkForm lib setup form = .ok issues ∧ i ∈ issues) ∧ f = .form i) ∨
      ∃ i, (∃ wf ∈ workflows, ∃ issues, checkWorkflow lib setup wf = .ok issues ∧ i ∈ issues) ∧ f = .workflow i := by
  obtain ⟨formIssues,hforms,hrest⟩ := Outcome.bind_ok h
  obtain ⟨workflowIssues,hworkflows,rfl⟩ := Outcome.map_ok hrest
  simp only [List.mem_append,List.mem_map,Outcome.mem_flatten_mapM hforms,Outcome.mem_flatten_mapM hworkflows,eq_comm (a:=f)]

/-! ### A workflow with a state that is left out -/

def transition (frm dest : String) : Json := .obj [("from",.str frm),("to",.str dest)]

theorem leads_transition (frm dest : String) : Leads (transition frm dest) (.text frm) (.text dest) :=
  ⟨_,_,_,rfl,rfl,rfl,rfl,rfl⟩

def ticketStates : String := "[\"new\", \"open\", \"closed\"]"

def ticketMoves : String :=
  "[\x7b\"from\": \"new\", \"to\": \"open\"\x7d, \x7b\"from\": \"open\", \"to\": \"new\"\x7d]"

/-- The library reads the rules of a template and the texts of the workflow. -/
def ticketLib : DesignLib String where
  toFormLib := { FormTemplates.templateLib.toFormLib with
    loads := fun s =>
      if s = ticketStates then .ok (.arr [.str "new",.str "open",.str "closed"])
      else if s = ticketMoves then .ok (.arr [transition "new" "open",transition "open" "new"])
      else FormTemplates.templateLib.loads s }
  dump := FormTemplates.templateLib.dump
  digest := FormTemplates.templateLib.digest
  arrangement := FormTemplates.templateLib.arrangement
  dump_rules := FormTemplates.templateLib.dump_rules

def ticketStatus : MetaField where
  id := 1
  physName := "status"
  label := "Status"
  dataType := .enum
  enumOptions := some ticketStates

def ticketTable : MetaTable where
  id := 1
  physName := "ticket"
  label := "Tickets"
  fields := [ticketStatus]
  idsNodup := by decide
  namesNodup := by decide
  namesFree := by decide

def ticketSetup : Setup := { requestSetup with tables := [ticketTable] }

def ticketFlow : WorkflowRow where
  id := 1
  fieldId := 1
  initialState := some "new"
  transitions := some ticketMoves


theorem ticket_offers : Offers ticketLib (fieldAt ticketSetup ticketFlow.fieldId) ["new","open","closed"] := rfl

theorem ticket_loads : (ticketLib.loads (orEmpty ticketFlow.transitions)).bind Workflow.elements =
    .ok [transition "new" "open",transition "open" "new"] := rfl

theorem ticket_wellFormed : WellFormed [transition "new" "open",transition "open" "new"] := by
  intro t ht
  rcases List.mem_cons.mp ht with rfl | ht
  · exact ⟨_,_,leads_transition "new" "open"⟩
  · rw [List.mem_singleton.mp ht]
    exact ⟨_,_,leads_transition "open" "new"⟩

/-- The transitions go round between two states, and the third one is not reached. -/
theorem ticket_unreachable :
    (∃ found, Loop.Leaves (growRound (expand [transition "new" "open",transition "open" "new"])) {ticketFlow.start} (.ok found)) ∧
      ∃ missing : List String, missing.SortedLT ∧
        (∀ s, s ∈ missing ↔ s ∈ ["new","open","closed"] ∧
          ¬Reached [transition "new" "open",transition "open" "new"] ticketFlow s) ∧
        checkWorkflow ticketLib ticketSetup ticketFlow =
          .ok (if ticketFlow.start ∈ ["new","open","closed"].map Key.text ∧ missing = [] then []
            else [unreachableIssue ticketFlow missing]) :=
  unreachable_exact ticketLib ticketSetup ticketFlow ticket_offers ticket_loads ticket_wellFormed

end SetupCheck
end Biggy
