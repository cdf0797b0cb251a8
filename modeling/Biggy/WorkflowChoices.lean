import Biggy.Workflow

/-!
# Choices of a workflow field

A form offers the states that `allowed_choices` collects over all transitions, an update goes by the first transition
that `_match` finds. They differ where two transitions between the same states admit different roles.
-/
namespace Biggy
namespace Workflow

/-! ### What the editor stores -/

/-- `value in names`, for a set of texts. -/
def inSet (names : List String) : Json → Except PyError Bool
  | .str s => .ok (names.contains s)
  | .arr _ | .obj _ => .error .typeError
  | _ => .ok false

/-- The elements of `for x in value`. -/
def elements : Json → Except PyError (List Json)
  | .arr items => .ok items
  | .obj members => .ok (members.map fun p => .str p.1)
  | .str s => .ok (s.toList.map fun c => .str (String.singleton c))
  | _ => .error .typeError

/-- A role that exists is kept. -/
def savedRole (roles : List String) (kept : List String) (role : Json) : Except PyError (List String) := do
  let valid ← inSet roles role
  match role with
  | .str r => .ok (if valid then kept++[r] else kept)
  | _ => .ok kept

/-- One entry of the request; an entry that is not between two states of the field is left out. -/
def savedTransition (states roles : List String) (trans : List Transition) : Json → Except PyError (List Transition)
  | .obj t => do
    let hasFrom ← inSet states (Json.get t "from")
    let hasTo ← if hasFrom then inSet states (Json.get t "to") else .ok false
    match Json.get t "from", Json.get t "to" with
    | .str frm, .str target =>
      if hasTo then do
        let given ← if (Json.get t "roles").truthy then elements (Json.get t "roles") else .ok []
        let kept ← given.foldlM (savedRole roles) []
        .ok (trans++[⟨frm,target,kept⟩])
      else .ok trans
    | _, _ => .ok trans
  | _ => .ok trans

/-- `workflow_save`: the transitions of the request that are stored. -/
def workflowSave (states roles : List String) (data : Json) : Except PyError (List Transition) :=
  match data with
  | .obj members => do
    let entries ← match members.lookup "transitions" with
      | none => .ok []
      | some value => elements value
    entries.foldlM (savedTransition states roles) []
  | other => if other.truthy then .error .attributeError else .ok []

/-! ### What a form offers -/

/-- `allowed_choices`. -/
def allowedChoices (wf : Workflow) (current : Value) (user : AppUser) : List Value :=
  wf.transitions.foldl
    (fun out t =>
      if Value.text t.fromState = current ∧ roleOk t user = true ∧ Value.text t.toState ∉ out then out++[.text t.toState]
      else out)
    (if current = .null then [] else [current])

/-- The transition leads from one state to the other. -/
def Joins (t : Transition) (current : Value) (target : String) : Prop :=
  Value.text t.fromState = current ∧ t.toState = target

theorem mem_collected {user : AppUser} {current v : Value} (ts : List Transition) (out : List Value) :
    v ∈ ts.foldl
      (fun out t =>
        if Value.text t.fromState = current ∧ roleOk t user = true ∧ Value.text t.toState ∉ out then out++[.text t.toState]
        else out) out ↔
      v ∈ out ∨ ∃ t ∈ ts, Value.text t.fromState = current ∧ roleOk t user = true ∧ v = .text t.toState := by
  induction ts generalizing out with
  | nil => simp
  | cons t ts ih =>
    rw [List.foldl_cons,ih]
    simp only [List.mem_cons,exists_eq_or_imp]
    rw [← or_assoc]
    refine or_congr_left ?_
    split
    · rename_i hnew
      rw [List.mem_append,List.mem_singleton]
      exact or_congr_right ⟨fun hv => ⟨hnew.1,hnew.2.1,hv⟩,fun hv => hv.2.2⟩
    · rename_i hold
      refine ⟨Or.inl,?_⟩
      rintro (hmem | ⟨hfrom,hrole,rfl⟩)
      · exact hmem
      · by_contra hnot
        exact hold ⟨hfrom,hrole,hnot⟩

/-- Another state is offered when some transition to it admits the user. -/
theorem offered_iff {wf : Workflow} {current : Value} {user : AppUser} {target : String} (hother : .text target ≠ current) :
    .text target ∈ allowedChoices wf current user ↔
      ∃ t ∈ wf.transitions, Joins t current target ∧ roleOk t user = true := by
  rw [allowedChoices,mem_collected]
  have hcurrent : Value.text target ∉ if current = .null then [] else [current] := by
    split <;> simp [hother]
  constructor
  · rintro (hmem | ⟨t,ht,hfrom,hrole,hto⟩)
    · exact absurd hmem hcurrent
    · exact ⟨t,ht,⟨hfrom,(Value.text.inj hto).symm⟩,hrole⟩
  · rintro ⟨t,ht,⟨hfrom,rfl⟩,hrole⟩
    exact Or.inr ⟨t,ht,hfrom,hrole,rfl⟩

/-! ### What an update accepts -/

theorem check_of_all {mt : MetaTable} {old : Row} {values : Values} {user : AppUser} {wfs : List Workflow}
    (h : ∀ wf ∈ wfs, checkOne mt old values user wf = .ok ()) : check mt old values user wfs = .ok () := by
  induction wfs with
  | nil => rfl
  | cons wf wfs ih =>
    rw [check,h wf List.mem_cons_self]
    exact ih fun w hw => h w (List.mem_cons_of_mem wf hw)

/-- An update of one field is checked by the workflow of that field alone. -/
theorem check_single {mt : MetaTable} {old : Row} {user : AppUser} {field : MetaField} {v : Value} {wfs : List Workflow}
    (hunique : (wfs.map Workflow.fieldId).Nodup) {wf : Workflow} (hwf : wf ∈ wfs) (hfield : mt.field wf.fieldId = some field) :
    check mt old [(field.physName,v)] user wfs = .ok () ↔ checkOne mt old [(field.physName,v)] user wf = .ok () := by
  refine ⟨fun h => checkOne_of_check h wf hwf,fun h => check_of_all fun w hw => ?_⟩
  rcases hg : mt.field w.fieldId with _ | g
  · simp only [checkOne,hg]
  · by_cases hname : g.physName = field.physName
    · have hsame := mt.field_unique (Keyed.mem_of_find hg) (Keyed.mem_of_find hfield) hname
      have hid : w.fieldId = wf.fieldId :=
        (Keyed.key_of_find hg).symm.trans ((congrArg MetaField.id hsame).trans (Keyed.key_of_find hfield))
      rwa [List.inj_on_of_nodup_map hunique hw hwf hid]
    · have hlookup : List.lookup g.physName [(field.physName,v)] = none := by rw [Values.lookup_singleton,if_neg hname]
      simp only [checkOne,hg,hlookup]

/-- Moving to another state is accepted when the first transition to it admits the user. -/
theorem accepted_iff {mt : MetaTable} {old : Row} {user : AppUser} {field : MetaField} {wf : Workflow} {target : String}
    (hfield : mt.field wf.fieldId = some field) (hother : .text target ≠ old field.physName) :
    checkOne mt old [(field.physName,.text target)] user wf = .ok () ↔
      target = "" ∨ ∃ t, wf.matchTransition (old field.physName) (.text target) = some t ∧ roleOk t user = true := by
  have hblank : (Value.text target).blank = true ↔ target = "" := by simp [Value.blank]
  simp only [checkOne,hfield,List.lookup_cons,beq_self_eq_true]
  by_cases htarget : target = ""
  · rw [if_pos (Or.inr (hblank.mpr htarget))]
    exact iff_of_true rfl (Or.inl htarget)
  · rw [if_neg (not_or.mpr ⟨hother,fun h => htarget (hblank.mp h)⟩)]
    rcases wf.matchTransition (old field.physName) (.text target) with _ | t
    · simp [htarget]
    · by_cases hrole : roleOk t user <;> simp [htarget,hrole]

/-- The first transition between two states admits every user whom one of them admits. -/
def FirstAdmits (wf : Workflow) (current : Value) (target : String) (user : AppUser) : Prop :=
  ∀ t, wf.matchTransition current (.text target) = some t → roleOk t user = false →
    ∀ t' ∈ wf.transitions, Joins t' current target → roleOk t' user = false

/-- The state is offered exactly if it is accepted: it is not the empty text, and the first transition to it decides for
all of them. -/
theorem choices_iff (mt : MetaTable) (old : Row) (user : AppUser) (field : MetaField) (wfs : List Workflow)
    (hunique : (wfs.map Workflow.fieldId).Nodup) (wf : Workflow) (hwf : wf ∈ wfs) (hfield : mt.field wf.fieldId = some field)
    (target : String) (hother : .text target ≠ old field.physName) :
    (.text target ∈ allowedChoices wf (old field.physName) user ↔
        check mt old [(field.physName,.text target)] user wfs = .ok ()) ↔
      target ≠ "" ∧ FirstAdmits wf (old field.physName) target user := by
  rw [offered_iff hother,check_single hunique hwf hfield,accepted_iff hfield hother]
  have hnonempty : ∀ t ∈ wf.transitions, t.toState ≠ "" := by
    intro t ht hempty
    simpa [transitions,hempty] using (List.mem_filter.mp ht).2
  constructor
  · intro h
    have htarget : target ≠ "" := by
      intro hempty
      obtain ⟨t,ht,⟨-,hto⟩,-⟩ := h.mpr (Or.inl hempty)
      exact hnonempty t ht (hto.trans hempty)
    refine ⟨htarget,fun t hmatch hrefused t' ht' hjoins => ?_⟩
    by_contra hadmits
    obtain ⟨first,hfirst,hrole⟩ := (h.mp ⟨t',ht',hjoins,by simpa using hadmits⟩).resolve_left htarget
    rw [hmatch] at hfirst
    rw [Option.some.inj hfirst,hrole] at hrefused
    cases hrefused
  · rintro ⟨htarget,hfirst⟩
    constructor
    · rintro ⟨t,ht,⟨hfrom,hto⟩,hrole⟩
      have hfound : (wf.matchTransition (old field.physName) (.text target)).isSome := by
        rw [matchTransition,List.find?_isSome]
        exact ⟨t,ht,by simp [hfrom,hto]⟩
      obtain ⟨first,hmatch⟩ := Option.isSome_iff_exists.mp hfound
      refine Or.inr ⟨first,hmatch,?_⟩
      by_contra hrefused
      have := hfirst first hmatch (by simpa using hrefused) t ht ⟨hfrom,hto⟩
      rw [hrole] at this
      cases this
    · rintro (hempty | ⟨t,hmatch,hrole⟩)
      · exact absurd hempty htarget
      · have hjoins := List.find?_some hmatch
        simp only [Bool.and_eq_true,decide_eq_true_eq,Value.text.injEq] at hjoins
        exact ⟨t,List.mem_of_find?_eq_some hmatch,hjoins,hrole⟩

/-! ### Two transitions between the same states -/

def roleEntry (role : String) : Json :=
  .obj [("from",.str "new"),("to",.str "done"),("roles",.arr [.str role])]

/-- The editor keeps a transition for clerks and one for leads. -/
def twoRoles : List Transition := [⟨"new","done",["clerk"]⟩,⟨"new","done",["lead"]⟩]

def stateField : MetaField where
  id := 1
  physName := "state"
  label := "State"
  dataType := .enum

def ticketTable : MetaTable where
  id := 1
  physName := "ticket"
  label := "Ticket"
  fields := [stateField]
  idsNodup := by decide
  namesNodup := by decide
  namesFree := by decide

def newTicket (column : String) : Value := if column = "state" then .text "new" else .null

theorem choices_iff_clerk : .text "done" ∈ allowedChoices ⟨1,1,1,twoRoles⟩ (.text "new") ⟨7,"clerk"⟩ ↔
    check ticketTable newTicket [("state",.text "done")] ⟨7,"clerk"⟩ [⟨1,1,1,twoRoles⟩] = .ok () :=
  (choices_iff ticketTable newTicket ⟨7,"clerk"⟩ stateField [⟨1,1,1,twoRoles⟩] (by decide) ⟨1,1,1,twoRoles⟩ (by decide) rfl "done"
    (by decide)).mpr ⟨by decide,fun _ hmatch hrefused => by cases hmatch; cases hrefused⟩

/-- A lead is offered a move that the update refuses. -/
theorem offered_refused :
    workflowSave ["new","done"] ["clerk","lead"] (.obj [("transitions",.arr [roleEntry "clerk",roleEntry "lead"])]) = .ok twoRoles ∧
      .text "done" ∈ allowedChoices ⟨1,1,1,twoRoles⟩ (.text "new") ⟨8,"lead"⟩ ∧
      check ticketTable newTicket [("state",.text "done")] ⟨8,"lead"⟩ [⟨1,1,1,twoRoles⟩] =
        .error (.roleDenied "State" (.text "new") (.text "done")) :=
  ⟨rfl,by decide,rfl⟩

end Workflow
end Biggy
