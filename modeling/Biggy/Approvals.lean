import Biggy.Workflow
import Mathlib.Data.List.Sort
import Mathlib.Data.List.Dedup

/-!
# Approvals held on workflow transitions

A transition with at least one approval step is held: `plan_diversions` pops it
out of the update, `request_transition` files a pending request and `act` records
one decision at a time. Steps of one position are open together, positions are
taken in ascending order, and the last one applies the move.
-/
namespace Biggy

structure ApprovalStep where
  id : ℕ
  workflowId : ℕ
  fromState : String
  toState : String
  position : ℤ
  approverRole : Option String := none
  approverUserId : Option ℕ := none
  deriving DecidableEq

/-- The rows of `app_approval_step` with their primary key. -/
structure StepTable where
  rows : List ApprovalStep
  idsNodup : (rows.map ApprovalStep.id).Nodup

inductive RequestState
  | pending | approved | rejected
  deriving DecidableEq

inductive Decision
  | approve | reject
  deriving DecidableEq

structure ApprovalRequest where
  id : ℕ
  workflowId : ℕ
  tablePhys : String
  rowPk : String
  fromState : Value
  toState : Value
  state : RequestState := .pending
  currentPosition : ℤ
  requestedBy : Option ℕ
  decidedAt : Option ℤ := none
  deriving DecidableEq

structure ApprovalAction where
  requestId : ℕ
  stepId : ℕ
  position : ℤ
  userId : ℕ
  decision : Decision
  comment : Option String
  performedAt : ℤ
  deriving DecidableEq

namespace Approvals

/-- `ORDER BY position, id`. -/
def stepLe (a b : ApprovalStep) : Prop :=
  a.position < b.position ∨ (a.position = b.position ∧ a.id ≤ b.id)

instance : DecidableRel stepLe := fun a b =>
  inferInstanceAs (Decidable (a.position < b.position ∨ (a.position = b.position ∧ a.id ≤ b.id)))

instance : Std.Total stepLe := ⟨fun a b => by simp only [stepLe]; omega⟩

instance : IsTrans ApprovalStep stepLe := ⟨fun a b c => by simp only [stepLe]; omega⟩

/-- The steps on one transition. -/
def onTransition (workflowId : ℕ) (frm target : Value) (s : ApprovalStep) : Bool :=
  s.workflowId == workflowId && decide (Value.text s.fromState = frm) && decide (Value.text s.toState = target)

def stepsFor (steps : List ApprovalStep) (workflowId : ℕ) (frm target : Value) : List ApprovalStep :=
  (steps.filter (onTransition workflowId frm target)).insertionSort stepLe

def requiresApproval (steps : List ApprovalStep) (workflowId : ℕ) (frm target : Value) : Bool :=
  steps.any (onTransition workflowId frm target)

/-- The steps of the transition a request asks for. -/
def requestSteps (steps : List ApprovalStep) (request : ApprovalRequest) : List ApprovalStep :=
  stepsFor steps request.workflowId request.fromState request.toState

def eligible (step : ApprovalStep) (user : AppUser) : Bool :=
  user.isDesigner ||
    (match step.approverUserId with | some uid => uid != 0 && uid == user.id | none => false) ||
    (match step.approverRole with | some role => role != "" && user.role == role | none => false)

/-- The step has an approve action of this request. -/
def approvedIn (actions : List ApprovalAction) (request : ApprovalRequest) (s : ApprovalStep) : Bool :=
  actions.any fun a => a.requestId == request.id && decide (a.decision = .approve) && a.stepId == s.id

/-- `_open_steps`: the steps at the current position without an approve action. -/
def openSteps (steps : List ApprovalStep) (actions : List ApprovalAction) (request : ApprovalRequest) :
    List ApprovalStep :=
  ((requestSteps steps request).filter fun s => decide (s.position = request.currentPosition)).filter
    fun s => !approvedIn actions request s

/-- `sorted({s.position for s in steps_for(...)})`. -/
def positions (steps : List ApprovalStep) (request : ApprovalRequest) : List ℤ :=
  ((requestSteps steps request).map ApprovalStep.position).dedup.insertionSort (· ≤ ·)

/-- The first position after the current one. -/
def nextPosition (steps : List ApprovalStep) (request : ApprovalRequest) : Option ℤ :=
  (positions steps request).find? fun p => decide (request.currentPosition < p)

/-- What an act decides once its own action is written. -/
inductive Outcome
  | reject | stay | advance (position : ℤ) | approve
  deriving DecidableEq

def outcome (steps : List ApprovalStep) (actions : List ApprovalAction) (request : ApprovalRequest)
    (decision : String) : Outcome :=
  if decision = "reject" then .reject
  else if openSteps steps actions request ≠ [] then .stay
  else
    match nextPosition steps request with
    | none => .approve
    | some p => .advance p

/-- The columns of the request that the outcome changes. -/
def settle (request : ApprovalRequest) (now : ℤ) : Outcome → ApprovalRequest
  | .reject => { request with state := .rejected, decidedAt := some now }
  | .stay => request
  | .advance p => { request with currentPosition := p }
  | .approve => { request with state := .approved, decidedAt := some now }

/-- The action row an act adds for the step it satisfies. -/
def newAction (request : ApprovalRequest) (step : ApprovalStep) (user : AppUser) (decision : String)
    (comment : Option String) (now : ℤ) : ApprovalAction where
  requestId := request.id
  stepId := step.id
  position := request.currentPosition
  userId := user.id
  decision := if decision = "reject" then .reject else .approve
  comment := comment.filter (· ≠ "")
  performedAt := now

/-- An accepted act: the action it records and what it decides. -/
structure ActResult where
  action : ApprovalAction
  request : ApprovalRequest
  applies : Bool
  deriving DecidableEq

def mine (steps : List ApprovalStep) (actions : List ApprovalAction) (request : ApprovalRequest)
    (user : AppUser) : List ApprovalStep :=
  (openSteps steps actions request).filter fun s => eligible s user

/-- `act`; the caller writes the action and the request, and calls `_apply` when
the result says so. -/
def act (steps : List ApprovalStep) (actions : List ApprovalAction) (request : ApprovalRequest)
    (user : AppUser) (decision : String) (comment : Option String) (now : ℤ) :
    Except String ActResult :=
  if request.state ≠ .pending then .error "This approval has already been decided."
  else
    match mine steps actions request user with
    | [] => .error "You are not an eligible approver for the current step."
    | step::_ =>
      let action := newAction request step user decision comment now
      let decided := outcome steps (actions++[action]) request decision
      .ok { action := action
            request := settle request now decided
            applies := decide (decided = .approve) }

/-- One call of `act` by one user. -/
structure Call where
  user : AppUser
  decision : String
  comment : Option String
  now : ℤ
  deriving DecidableEq

/-- One transition popped out of an update. -/
structure Diversion where
  wf : Workflow
  field : MetaField
  frm : Value
  target : Value

/-- `plan_diversions`: the held transitions and the values left to write directly. -/
def planDiversions (steps : List ApprovalStep) (mt : MetaTable) (old : Row) :
    List Workflow → Values → List Diversion × Values
  | [], values => ([],values)
  | wf::wfs, values =>
    match mt.field wf.fieldId with
    | none => planDiversions steps mt old wfs values
    | some field =>
      match values.lookup field.physName with
      | none => planDiversions steps mt old wfs values
      | some target =>
        if target = old field.physName ∨ target.blank then planDiversions steps mt old wfs values
        else if (wf.matchTransition (old field.physName) target).isSome ∧
            requiresApproval steps wf.id (old field.physName) target then
          let rest := planDiversions steps mt old wfs (values.del field.physName)
          (⟨wf,field,old field.physName,target⟩::rest.1,rest.2)
        else planDiversions steps mt old wfs values

/-- The pending request that `request_transition` reuses. -/
def sameRequest (mt : MetaTable) (rowPk : String) (d : Diversion) (r : ApprovalRequest) : Bool :=
  r.workflowId == d.wf.id && r.tablePhys == mt.physName && r.rowPk == rowPk &&
    decide (r.fromState = d.frm) && decide (r.toState = d.target) && decide (r.state = .pending)

/-- `steps[0].position if steps else 1`. -/
def firstPosition : List ApprovalStep → ℤ
  | [] => 1
  | s::_ => s.position

/-- The row `request_transition` adds when there is no pending one to reuse. -/
def newRequest (steps : List ApprovalStep) (mt : MetaTable) (rowPk : String) (d : Diversion)
    (user : AppUser) (id : ℕ) : ApprovalRequest where
  id := id
  workflowId := d.wf.id
  tablePhys := mt.physName
  rowPk := rowPk
  fromState := d.frm
  toState := d.target
  currentPosition := firstPosition (stepsFor steps d.wf.id d.frm d.target)
  requestedBy := some user.id

def requestTransition (steps : List ApprovalStep) (mt : MetaTable) (rowPk : String) (user : AppUser)
    (requests : List ApprovalRequest) (d : Diversion) : List ApprovalRequest :=
  if requests.any (sameRequest mt rowPk d) then requests
  else requests ++ [newRequest steps mt rowPk d user (requests.length+1)]

/-! ### What the queries select -/

theorem mem_stepsFor {steps : List ApprovalStep} {workflowId : ℕ} {frm target : Value}
    {s : ApprovalStep} :
    s ∈ stepsFor steps workflowId frm target ↔ s ∈ steps ∧ onTransition workflowId frm target s := by
  simp [stepsFor,List.mem_insertionSort]

/-- Ids are unique, so an id names one step of a transition. -/
theorem step_unique (T : StepTable) {request : ApprovalRequest} {t u : ApprovalStep}
    (ht : t ∈ requestSteps T.rows request) (hu : u ∈ requestSteps T.rows request) (h : t.id = u.id) :
    t = u :=
  List.inj_on_of_nodup_map T.idsNodup (mem_stepsFor.mp ht).1 (mem_stepsFor.mp hu).1 h

theorem mem_openSteps {steps : List ApprovalStep} {actions : List ApprovalAction}
    {request : ApprovalRequest} {s : ApprovalStep} :
    s ∈ openSteps steps actions request ↔ s ∈ requestSteps steps request ∧
      s.position = request.currentPosition ∧ approvedIn actions request s = false := by
  simp [openSteps,and_comm]

theorem approvedIn_iff {actions : List ApprovalAction} {request : ApprovalRequest} {s : ApprovalStep} :
    approvedIn actions request s = true ↔
      ∃ a ∈ actions, a.requestId = request.id ∧ a.decision = .approve ∧ a.stepId = s.id := by
  simp [approvedIn,and_assoc]

theorem approvedIn_append (actions more : List ApprovalAction) (request : ApprovalRequest)
    (s : ApprovalStep) : approvedIn (actions++more) request s =
      (approvedIn actions request s || approvedIn more request s) := by
  simp [approvedIn]

theorem mem_positions {steps : List ApprovalStep} {request : ApprovalRequest} {p : ℤ} :
    p ∈ positions steps request ↔ ∃ s ∈ requestSteps steps request, s.position = p := by
  simp [positions,List.mem_insertionSort]

theorem nextPosition_none {steps : List ApprovalStep} {request : ApprovalRequest}
    (h : nextPosition steps request = none) {s : ApprovalStep} (hs : s ∈ requestSteps steps request) :
    s.position ≤ request.currentPosition := by
  have hn := List.find?_eq_none.mp h s.position (mem_positions.mpr ⟨s,hs,rfl⟩)
  simpa using hn

/-- The next position is the least position of a step after the current one. -/
theorem nextPosition_some {steps : List ApprovalStep} {request : ApprovalRequest} {p : ℤ}
    (h : nextPosition steps request = some p) :
    request.currentPosition < p ∧ (∃ s ∈ requestSteps steps request, s.position = p) ∧
      ∀ s ∈ requestSteps steps request, request.currentPosition < s.position → p ≤ s.position := by
  have hsorted : List.Pairwise (· ≤ ·) (positions steps request) :=
    List.pairwise_insertionSort (· ≤ ·) _
  obtain ⟨hlt,before,after,heq,hbefore⟩ := List.find?_eq_some_iff_append.mp h
  refine ⟨by simpa using hlt,mem_positions.mp (by simp [heq]),fun s hs hpos => ?_⟩
  have hmem : s.position ∈ before ++ p::after := heq ▸ mem_positions.mpr ⟨s,hs,rfl⟩
  rw [heq,List.pairwise_append,List.pairwise_cons] at hsorted
  rcases List.mem_append.mp hmem with hb | hb
  · have hnot := hbefore _ hb
    simp only [Bool.not_eq_true',decide_eq_false_iff_not] at hnot
    omega
  · rcases List.mem_cons.mp hb with hb | hb
    · omega
    · exact hsorted.2.1.1 _ hb

/-- A fresh request starts at the least position of its steps. -/
theorem newRequest_position {steps : List ApprovalStep} {mt : MetaTable} {rowPk : String}
    {d : Diversion} {user : AppUser} {id : ℕ} {s : ApprovalStep}
    (hs : s ∈ requestSteps steps (newRequest steps mt rowPk d user id)) :
    (newRequest steps mt rowPk d user id).currentPosition ≤ s.position ∧
      ∃ t ∈ requestSteps steps (newRequest steps mt rowPk d user id),
        t.position = (newRequest steps mt rowPk d user id).currentPosition := by
  have hsorted : List.Pairwise stepLe (stepsFor steps d.wf.id d.frm d.target) :=
    List.pairwise_insertionSort stepLe _
  change s ∈ stepsFor steps d.wf.id d.frm d.target at hs
  change firstPosition (stepsFor steps d.wf.id d.frm d.target) ≤ s.position ∧
    ∃ t ∈ stepsFor steps d.wf.id d.frm d.target,
      t.position = firstPosition (stepsFor steps d.wf.id d.frm d.target)
  cases hl : stepsFor steps d.wf.id d.frm d.target with
  | nil => simp [hl] at hs
  | cons t ts =>
    rw [hl] at hs hsorted
    refine ⟨?_,t,List.mem_cons_self,rfl⟩
    rcases List.mem_cons.mp hs with rfl | hs
    · exact le_refl _
    · have hle := (List.pairwise_cons.mp hsorted).1 s hs
      simp only [stepLe] at hle
      simp only [firstPosition]
      omega

/-- A diversion is a held transition of one of the workflows. -/
theorem planDiversions_held {steps : List ApprovalStep} {mt : MetaTable} {old : Row}
    {wfs : List Workflow} {values : Values} {d : Diversion}
    (h : d ∈ (planDiversions steps mt old wfs values).1) :
    d.wf ∈ wfs ∧ d.wf.Allows d.frm d.target ∧ requiresApproval steps d.wf.id d.frm d.target = true := by
  induction wfs generalizing values with
  | nil => simp [planDiversions] at h
  | cons wf wfs ih =>
    have hskip : ∀ {vs : Values}, d ∈ (planDiversions steps mt old wfs vs).1 → d.wf ∈ wf::wfs ∧
        d.wf.Allows d.frm d.target ∧ requiresApproval steps d.wf.id d.frm d.target = true :=
      fun h => ⟨List.mem_cons_of_mem wf (ih h).1,(ih h).2⟩
    simp only [planDiversions] at h
    split at h
    · exact hskip h
    · split at h
      · exact hskip h
      · split at h
        · exact hskip h
        · split at h
          · rename_i hheld
            rcases List.mem_cons.mp h with rfl | h
            · obtain ⟨t,ht⟩ := Option.isSome_iff_exists.mp hheld.1
              exact ⟨List.mem_cons_self,Workflow.allows_of_matchTransition ht,hheld.2⟩
            · exact hskip h
          · exact hskip h

/-- A held transition has a step. -/
theorem exists_step {steps : List ApprovalStep} {workflowId : ℕ} {frm target : Value}
    (h : requiresApproval steps workflowId frm target = true) :
    ∃ s, s ∈ stepsFor steps workflowId frm target := by
  obtain ⟨s,hs,hon⟩ := List.any_eq_true.mp h
  exact ⟨s,mem_stepsFor.mpr ⟨hs,hon⟩⟩

/-! ### Acting on a request -/

@[simp] theorem settle_id (request : ApprovalRequest) (now : ℤ) (o : Outcome) :
    (settle request now o).id = request.id := by cases o <;> rfl
@[simp] theorem settle_workflowId (request : ApprovalRequest) (now : ℤ) (o : Outcome) :
    (settle request now o).workflowId = request.workflowId := by cases o <;> rfl
@[simp] theorem settle_rowPk (request : ApprovalRequest) (now : ℤ) (o : Outcome) :
    (settle request now o).rowPk = request.rowPk := by cases o <;> rfl
@[simp] theorem settle_fromState (request : ApprovalRequest) (now : ℤ) (o : Outcome) :
    (settle request now o).fromState = request.fromState := by cases o <;> rfl
@[simp] theorem settle_toState (request : ApprovalRequest) (now : ℤ) (o : Outcome) :
    (settle request now o).toState = request.toState := by cases o <;> rfl
@[simp] theorem requestSteps_settle (steps : List ApprovalStep) (request : ApprovalRequest) (now : ℤ)
    (o : Outcome) : requestSteps steps (settle request now o) = requestSteps steps request := by
  simp [requestSteps]
@[simp] theorem approvedIn_settle (actions : List ApprovalAction) (request : ApprovalRequest) (now : ℤ)
    (o : Outcome) (s : ApprovalStep) :
    approvedIn actions (settle request now o) s = approvedIn actions request s := by
  simp [approvedIn]

/-- Everything an accepted act can do. -/
theorem act_ok {steps : List ApprovalStep} {actions : List ApprovalAction} {request : ApprovalRequest}
    {user : AppUser} {decision : String} {comment : Option String} {now : ℤ} {r : ActResult}
    (h : act steps actions request user decision comment now = .ok r) :
    request.state = .pending ∧ ∃ step ∈ openSteps steps actions request, eligible step user = true ∧
      r.action = newAction request step user decision comment now ∧
      r.request = settle request now (outcome steps (actions++[r.action]) request decision) ∧
      r.applies = decide (outcome steps (actions++[r.action]) request decision = .approve) := by
  simp only [act] at h
  split at h
  · cases h
  · rename_i hp
    split at h
    · cases h
    · rename_i step rest hm
      have hmem : step ∈ mine steps actions request user := by rw [hm]; exact List.mem_cons_self
      obtain ⟨hopen,heli⟩ := List.mem_filter.mp hmem
      cases h
      exact ⟨by simpa using hp,step,hopen,heli,rfl,rfl,rfl⟩

theorem outcome_reject {steps : List ApprovalStep} {actions : List ApprovalAction}
    {request : ApprovalRequest} {decision : String} :
    outcome steps actions request decision = .reject ↔ decision = "reject" := by
  simp only [outcome]
  split
  · simpa
  · rename_i h
    simp only [h,iff_false]
    split
    · simp
    · cases nextPosition steps request <;> simp

theorem outcome_approve {steps : List ApprovalStep} {actions : List ApprovalAction}
    {request : ApprovalRequest} {decision : String}
    (h : outcome steps actions request decision = .approve) :
    openSteps steps actions request = [] ∧ nextPosition steps request = none := by
  simp only [outcome] at h
  split at h
  · cases h
  · split at h
    · cases h
    · rename_i ho
      cases hn : nextPosition steps request with
      | none => exact ⟨by simpa using ho,rfl⟩
      | some p => simp [hn] at h

theorem outcome_advance {steps : List ApprovalStep} {actions : List ApprovalAction}
    {request : ApprovalRequest} {decision : String} {p : ℤ}
    (h : outcome steps actions request decision = .advance p) :
    openSteps steps actions request = [] ∧ nextPosition steps request = some p := by
  simp only [outcome] at h
  split at h
  · cases h
  · split at h
    · cases h
    · rename_i ho
      cases hn : nextPosition steps request with
      | none => simp [hn] at h
      | some q =>
        simp only [hn,Outcome.advance.injEq] at h
        exact ⟨by simpa using ho,by rw [h]⟩

end Approvals
end Biggy
