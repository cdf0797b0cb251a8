import Biggy.Run
import Biggy.Approvals
import Biggy.RecordService

/-!
# Direct updates and approvals on one table

Two writers change a workflow field: a direct update, gated by `workflow.check`,
and the deferred `_apply` at the end of an approval. The machine below takes
direct updates, filed requests and acts in any order; `Legal` is the promise that
every change of a workflow field follows the graph. `_apply` does not look at the
stored value again, so the promise holds along the runs whose completing acts
find a value the target can be reached from.
-/
namespace Biggy
namespace ApprovalWrites

open Approvals Run

/-- The configuration of one table: its workflows, the approval steps and what the
update needs of the formulas and of the row scopes. -/
structure Catalog where
  table : MetaTable
  workflows : List Workflow
  steps : List ApprovalStep
  visible : AppUser → Row → Bool
  evaluate : RecordService.Evaluator
  str : Value → String
  idsNodup : (workflows.map Workflow.id).Nodup
  fieldsNodup : (workflows.map Workflow.fieldId).Nodup
  onEnum : ∀ wf ∈ Workflow.forTable workflows table.id, ∀ field, table.field wf.fieldId = some field →
    field.dataType = .enum

structure Db where
  data : Physical
  requests : List ApprovalRequest
  actions : List ApprovalAction

namespace Catalog

variable (C : Catalog)

def tableWorkflows : List Workflow := Workflow.forTable C.workflows C.table.id

/-- `get_record`: the row, when the user's scopes show it. -/
def getRecord (data : Physical) (pk : Value) (user : AppUser) : Option Row :=
  (data.getRow pk).filter (C.visible user)

/-- The body of the update route up to the write: divert, check, write what is left. -/
def update (db : Db) (pk : Value) (values : Values) (user : AppUser) (now : ℤ) : Except String Db :=
  match C.getRecord db.data pk user with
  | none => .error "Record not found."
  | some old =>
    let direct := (planDiversions C.steps C.table old C.tableWorkflows values).2
    match Workflow.check C.table old direct user C.tableWorkflows with
    | .error e => .error (e.message C.str)
    | .ok () =>
      if direct = [] then .ok db
      else (RecordService.update C.evaluate C.table db.data pk direct (some user.id) now).map
        fun data => { db with data := data }

/-- `request_transition` for every diverted transition of the submitted values. -/
def request (db : Db) (pk : Value) (old : Row) (values : Values) (user : AppUser) : Db :=
  { db with
    requests := (planDiversions C.steps C.table old C.tableWorkflows values).1.foldl
      (requestTransition C.steps C.table (C.str pk) user) db.requests }

/-- `_apply`; a write that the database refuses raises and changes nothing. -/
def apply (db : Db) (request : ApprovalRequest) (now : ℤ) : Db :=
  match Keyed.find Workflow.id request.workflowId C.tableWorkflows with
  | none => db
  | some wf =>
    match C.table.field wf.fieldId with
    | none => db
    | some field =>
      match RecordService.update C.evaluate C.table db.data (.text request.rowPk)
          [(field.physName,request.toState)] request.requestedBy now with
      | .error _ => db
      | .ok data => { db with data := data }

def act (db : Db) (requestId : ℕ) (user : AppUser) (decision : String) (comment : Option String)
    (now : ℤ) : Db :=
  match Keyed.find ApprovalRequest.id requestId db.requests with
  | none => db
  | some request =>
    match Approvals.act C.steps db.actions request user decision comment now with
    | .error _ => db
    | .ok result =>
      let recorded : Db :=
        { db with
          requests := Keyed.put ApprovalRequest.id result.request db.requests
          actions := db.actions ++ [result.action] }
      if result.applies then C.apply recorded result.request now else recorded

end Catalog

inductive Input
  | update (pk : Value) (values : Values) (user : AppUser) (now : ℤ)
  | request (pk : Value) (old : Row) (values : Values) (user : AppUser)
  | act (requestId : ℕ) (user : AppUser) (decision : String) (comment : Option String) (now : ℤ)

/-- One step of any user; a refused update changes nothing. -/
def step (C : Catalog) (db : Db) : Input → Db
  | .update pk values user now =>
    match C.update db pk values user now with
    | .error _ => db
    | .ok db' => db'
  | .request pk old values user => C.request db pk old values user
  | .act requestId user decision comment now => C.act db requestId user decision comment now

/-- The update route of the API: the direct update, then the diverted requests. -/
def patch (C : Catalog) (db : Db) (pk : Value) (values : Values) (user : AppUser) (now : ℤ) :
    Except String Db :=
  match C.getRecord db.data pk user with
  | none => .error "Record not found."
  | some old => (C.update db pk values user now).map fun db' => C.request db' pk old values user

theorem patch_exec {C : Catalog} {db db' : Db} {pk : Value} {values : Values} {user : AppUser} {now : ℤ}
    (h : patch C db pk values user now = .ok db') : ∃ old, C.getRecord db.data pk user = some old ∧
      db' = exec (step C) db [.update pk values user now,.request pk old values user] := by
  simp only [patch] at h
  split at h
  · cases h
  · rename_i old hold
    refine ⟨old,hold,?_⟩
    cases hu : C.update db pk values user now with
    | error e => simp [hu,Except.map] at h
    | ok db₁ =>
      simp only [hu,Except.map,Except.ok.injEq] at h
      simp [step,hu,← h]

/-- The stored value of one column of one record. -/
def valueAt (db : Db) (k : Value) (column : String) : Option Value := (db.data.rowAt k).map fun row => row column

/-- Every change of a workflow field between two non-blank values is a transition. -/
def Legal (C : Catalog) (db : Db) (i : Input) : Prop :=
  ∀ wf ∈ C.tableWorkflows, ∀ field, C.table.field wf.fieldId = some field → ∀ k a b,
    valueAt db k field.physName = some a → valueAt (step C db i) k field.physName = some b →
      a.blank = false → b.blank = false → a ≠ b → wf.Allows a b

/-- The act signs the only open step of the last position. -/
def LastSignature (C : Catalog) (db : Db) (request : ApprovalRequest) (user : AppUser)
    (decision : String) : Prop :=
  request.state = .pending ∧ decision ≠ "reject" ∧ nextPosition C.steps request = none ∧
    ∃ s ∈ mine C.steps db.actions request user, ∀ t ∈ openSteps C.steps db.actions request, t.id = s.id

/-- When an act signs a request off, the record still has the value the request was
filed for, or another one that may move to the target. -/
def Fresh (C : Catalog) (db : Db) : Input → Prop
  | .act requestId user decision _ _ =>
    ∀ request, Keyed.find ApprovalRequest.id requestId db.requests = some request →
      LastSignature C db request user decision →
        ∀ wf, Keyed.find Workflow.id request.workflowId C.tableWorkflows = some wf →
          ∀ field, C.table.field wf.fieldId = some field → ∀ a,
            valueAt db (db.data.key (.text request.rowPk)) field.physName = some a →
              a = request.fromState ∨ a = request.toState ∨ a.blank = true ∨ wf.Allows a request.toState
  | _ => True

/-- Every filed request asks for a transition of its workflow. -/
def Filed (C : Catalog) (db : Db) : Prop :=
  ∀ request ∈ db.requests, ∃ wf ∈ C.tableWorkflows, wf.id = request.workflowId ∧
    wf.Allows request.fromState request.toState

/-! ### What the pieces of a step do -/

theorem find_workflow (C : Catalog) {wf : Workflow} (h : wf ∈ C.tableWorkflows) :
    Keyed.find Workflow.id wf.id C.tableWorkflows = some wf :=
  Keyed.find_of_mem (Keyed.nodup_filter _ C.idsNodup) h

theorem requestTransition_filed {C : Catalog} {rowPk : String} {user : AppUser} {d : Diversion}
    (hd : d.wf ∈ C.tableWorkflows ∧ d.wf.Allows d.frm d.target) {requests : List ApprovalRequest}
    (h : ∀ r ∈ requests, ∃ wf ∈ C.tableWorkflows, wf.id = r.workflowId ∧ wf.Allows r.fromState r.toState) :
    ∀ r ∈ requestTransition C.steps C.table rowPk user requests d,
      ∃ wf ∈ C.tableWorkflows, wf.id = r.workflowId ∧ wf.Allows r.fromState r.toState := by
  intro r hr
  simp only [requestTransition] at hr
  split at hr
  · exact h r hr
  · rcases List.mem_append.mp hr with hr | hr
    · exact h r hr
    · obtain rfl := List.mem_singleton.mp hr
      exact ⟨d.wf,hd.1,rfl,hd.2⟩

theorem request_filed {C : Catalog} {db : Db} (h : Filed C db) (pk : Value) (old : Row) (values : Values)
    (user : AppUser) : Filed C (C.request db pk old values user) := by
  have hall : ∀ d ∈ (planDiversions C.steps C.table old C.tableWorkflows values).1,
      d.wf ∈ C.tableWorkflows ∧ d.wf.Allows d.frm d.target := fun d hd => ⟨(planDiversions_held hd).1,(planDiversions_held hd).2.1⟩
  simp only [Filed,Catalog.request]
  generalize (planDiversions C.steps C.table old C.tableWorkflows values).1 = ds at hall
  have hreq : ∀ r ∈ db.requests, ∃ wf ∈ C.tableWorkflows, wf.id = r.workflowId ∧
      wf.Allows r.fromState r.toState := h
  generalize db.requests = requests at hreq
  induction ds generalizing requests with
  | nil => exact hreq
  | cons d ds ih =>
    exact ih (fun e he => hall e (List.mem_cons_of_mem d he)) _
      (requestTransition_filed (hall d List.mem_cons_self) hreq)

/-- Everything an accepted direct update does. -/
theorem update_cases {C : Catalog} {db db' : Db} {pk : Value} {values : Values} {user : AppUser} {now : ℤ}
    (h : C.update db pk values user now = .ok db') :
    ∃ old direct, C.getRecord db.data pk user = some old ∧
      direct = (planDiversions C.steps C.table old C.tableWorkflows values).2 ∧
      Workflow.check C.table old direct user C.tableWorkflows = .ok () ∧
      (db' = db ∨ ∃ data, RecordService.update C.evaluate C.table db.data pk direct (some user.id) now =
        .ok data ∧ db' = { db with data := data }) := by
  simp only [Catalog.update] at h
  split at h
  · cases h
  · rename_i old hold
    split at h
    · cases h
    · rename_i hcheck
      refine ⟨old,_,hold,rfl,hcheck,?_⟩
      split at h
      · exact Or.inl (Except.ok.inj h).symm
      · cases hu : RecordService.update C.evaluate C.table db.data pk
            (planDiversions C.steps C.table old C.tableWorkflows values).2 (some user.id) now with
        | error e => simp [hu,Except.map] at h
        | ok data => exact Or.inr ⟨data,rfl,by simpa [hu,Except.map] using h.symm⟩

/-- What an accepted direct update does to a workflow field of a record. -/
theorem update_valueAt {C : Catalog} {db db' : Db} {pk : Value} {values : Values} {user : AppUser} {now : ℤ}
    (h : C.update db pk values user now = .ok db') {wf : Workflow} (hwf : wf ∈ C.tableWorkflows)
    {field : MetaField} (hf : C.table.field wf.fieldId = some field) {k a b : Value}
    (ha : valueAt db k field.physName = some a) (hb : valueAt db' k field.physName = some b) :
    b = a ∨ b.blank = true ∨ wf.Allows a b := by
  obtain ⟨old,direct,hold,-,hcheck,rfl | ⟨data,hdata,rfl⟩⟩ := update_cases h
  · exact Or.inl (Option.some.inj (hb.symm.trans ha))
  · have hplain : field.dataType ≠ .formula := by simp [C.onEnum wf hwf field hf]
    obtain ⟨row',hrow',rfl⟩ := Option.map_eq_some_iff.mp hb
    obtain ⟨row,hrow,hkeep | ⟨rfl,hnew⟩⟩ :=
      RecordService.update_ok hdata (Keyed.mem_of_find hf) hplain hrow'
    · rw [valueAt,hrow] at ha
      exact Or.inl (hkeep.trans (Option.some.inj ha))
    · obtain ⟨hget,-⟩ := Option.filter_eq_some_iff.mp hold
      obtain rfl : row = old := Option.some.inj (hrow.symm.trans hget)
      obtain rfl : row field.physName = a := by simpa [valueAt,hrow] using ha
      exact Workflow.checkOne_ok (Workflow.checkOne_of_check hcheck wf hwf) hf hnew

/-- Workflows of the table that share a column are the same workflow. -/
theorem workflow_unique (C : Catalog) {wf wf' : Workflow} (hwf : wf ∈ C.tableWorkflows)
    (hwf' : wf' ∈ C.tableWorkflows) {field field' : MetaField} (hf : C.table.field wf.fieldId = some field)
    (hf' : C.table.field wf'.fieldId = some field') (h : field.physName = field'.physName) : wf = wf' := by
  obtain rfl : field = field' :=
    C.table.field_unique (Keyed.mem_of_find hf) (Keyed.mem_of_find hf') h
  have hid : wf.fieldId = wf'.fieldId := (Keyed.key_of_find hf).symm.trans (Keyed.key_of_find hf')
  exact List.inj_on_of_nodup_map (Keyed.nodup_filter _ C.fieldsNodup)
    hwf hwf' hid

/-- `_apply` changes a workflow field only to the target of its own request. -/
theorem apply_valueAt {C : Catalog} (db : Db) {request : ApprovalRequest} {now : ℤ} {wf : Workflow}
    (hwf : wf ∈ C.tableWorkflows) {field : MetaField} (hf : C.table.field wf.fieldId = some field)
    {k a b : Value} (ha : valueAt db k field.physName = some a)
    (hb : valueAt (C.apply db request now) k field.physName = some b) :
    b = a ∨ wf.id = request.workflowId ∧ k = db.data.key (.text request.rowPk) ∧ b = request.toState := by
  have hsame : valueAt db k field.physName = some b → b = a := fun h => Option.some.inj (h.symm.trans ha)
  simp only [Catalog.apply] at hb
  split at hb
  · exact Or.inl (hsame hb)
  · rename_i wf' hfind
    split at hb
    · exact Or.inl (hsame hb)
    · rename_i field' hf'
      split at hb
      · exact Or.inl (hsame hb)
      · rename_i data hdata
        have hplain : field.dataType ≠ .formula := by simp [C.onEnum wf hwf field hf]
        obtain ⟨row',hrow',rfl⟩ := Option.map_eq_some_iff.mp hb
        obtain ⟨row,hrow,hkeep | ⟨hk,hnew⟩⟩ :=
          RecordService.update_ok hdata (Keyed.mem_of_find hf) hplain hrow'
        · rw [valueAt,hrow] at ha
          exact Or.inl (hkeep.trans (Option.some.inj ha))
        · simp only [List.lookup_cons,List.lookup_nil] at hnew
          split at hnew
          · rename_i hname
            obtain rfl := workflow_unique C hwf (Keyed.mem_of_find hfind) hf hf' (by simpa using hname)
            exact Or.inr ⟨Keyed.key_of_find hfind,hk,(Option.some.inj hnew).symm⟩
          · cases hnew

/-- An act that applies the transition signs the last open step. -/
theorem lastSignature_of_applies {C : Catalog} {db : Db} {request : ApprovalRequest} {user : AppUser}
    {decision : String} {comment : Option String} {now : ℤ} {r : ActResult}
    (h : Approvals.act C.steps db.actions request user decision comment now = .ok r)
    (happ : r.applies = true) : LastSignature C db request user decision := by
  obtain ⟨hp,s,hs,heli,haction,-,happlies⟩ := act_ok h
  have ho : outcome C.steps (db.actions++[r.action]) request decision = .approve := by
    simpa [happ] using happlies.symm
  obtain ⟨hclosed,hlast⟩ := outcome_approve ho
  have hd : decision ≠ "reject" := fun h => by simp [outcome_reject.mpr h] at ho
  refine ⟨hp,hd,hlast,s,List.mem_filter.mpr ⟨hs,heli⟩,fun t ht => ?_⟩
  obtain ⟨hmem,hpos,hnot⟩ := mem_openSteps.mp ht
  have hsigned : approvedIn (db.actions++[r.action]) request t = true := by
    by_contra hno
    have hopen : t ∈ openSteps C.steps (db.actions++[r.action]) request :=
      mem_openSteps.mpr ⟨hmem,hpos,by simpa using hno⟩
    simp [hclosed] at hopen
  rw [approvedIn_append,hnot,Bool.false_or] at hsigned
  obtain ⟨a,ha,-,-,hid⟩ := approvedIn_iff.mp hsigned
  obtain rfl := List.mem_singleton.mp ha
  rw [← hid,haction]
  rfl

theorem act_filed {C : Catalog} {db : Db} (h : Filed C db) (requestId : ℕ) (user : AppUser)
    (decision : String) (comment : Option String) (now : ℤ) :
    Filed C (C.act db requestId user decision comment now) := by
  have happly : ∀ {d : Db} {r : ApprovalRequest} {t : ℤ}, Filed C d → Filed C (C.apply d r t) := by
    intro d r t hd
    simp only [Catalog.apply]
    repeat' split
    all_goals exact hd
  simp only [Catalog.act]
  split
  · exact h
  · rename_i request hfind
    split
    · exact h
    · rename_i r hact
      obtain ⟨-,-,-,-,-,hrequest,-⟩ := act_ok hact
      obtain ⟨wf,hwf,hid,hallows⟩ := h request (Keyed.mem_of_find hfind)
      have hrecorded : Filed C { db with
          requests := Keyed.put ApprovalRequest.id r.request db.requests
          actions := db.actions ++ [r.action] } := by
        intro r' hr'
        rcases Keyed.mem_put hr' with rfl | hr'
        · exact ⟨wf,hwf,by simpa [hrequest] using hid,by simpa [hrequest] using hallows⟩
        · exact h r' hr'
      split
      · exact happly hrecorded
      · exact hrecorded

theorem step_filed (C : Catalog) (db : Db) (i : Input) (h : Filed C db) : Filed C (step C db i) := by
  cases i with
  | update pk values user now =>
    simp only [step]
    split
    · exact h
    · rename_i db' hu
      obtain ⟨old,direct,-,-,-,rfl | ⟨data,-,rfl⟩⟩ := update_cases hu
      · exact h
      · exact h
  | request pk old values user => exact request_filed h pk old values user
  | act requestId user decision comment now => exact act_filed h requestId user decision comment now

/-- A filed request asks for a transition of the workflow it names. -/
theorem filed_allows {C : Catalog} {db : Db} (h : Filed C db) {request : ApprovalRequest}
    (hr : request ∈ db.requests) {wf : Workflow} (hwf : wf ∈ C.tableWorkflows)
    (hid : wf.id = request.workflowId) : wf.Allows request.fromState request.toState := by
  obtain ⟨wf',hwf',hid',hallows⟩ := h request hr
  have heq : wf' = wf := List.inj_on_of_nodup_map (Keyed.nodup_filter _ C.idsNodup) hwf' hwf (hid'.trans hid.symm)
  rwa [← heq]

/-- An act leaves the rows alone or signs the request off and applies it. -/
theorem act_cases (C : Catalog) (db : Db) (requestId : ℕ) (user : AppUser) (decision : String)
    (comment : Option String) (now : ℤ) :
    (C.act db requestId user decision comment now).data = db.data ∨
      ∃ request recorded, Keyed.find ApprovalRequest.id requestId db.requests = some request ∧
        LastSignature C db request user decision ∧ recorded.data = db.data ∧
        ∃ signed, C.act db requestId user decision comment now = C.apply recorded signed now ∧
          signed.workflowId = request.workflowId ∧ signed.rowPk = request.rowPk ∧
          signed.toState = request.toState := by
  simp only [Catalog.act]
  split
  · exact Or.inl rfl
  · rename_i request hfind
    split
    · exact Or.inl rfl
    · rename_i r hact
      split
      · rename_i happ
        obtain ⟨-,-,-,-,-,hsigned,-⟩ := act_ok hact
        have hlast : LastSignature C db request user decision := lastSignature_of_applies hact happ
        exact Or.inr ⟨request,{ db with
            requests := Keyed.put ApprovalRequest.id r.request db.requests
            actions := db.actions ++ [r.action] },hfind,hlast,rfl,
          r.request,rfl,by simp [hsigned],by simp [hsigned],by simp [hsigned]⟩
      · exact Or.inl rfl

/-- One step from a database whose requests were filed follows the graph, provided a
completing act finds a value the target can be reached from. -/
theorem step_legal (C : Catalog) (db : Db) (i : Input) (h : Filed C db) (hfresh : Fresh C db i) :
    Legal C db i := by
  intro wf hwf field hf k a b ha hb hab hbb hne
  have hsame : valueAt (step C db i) k field.physName ≠ some a := fun h => hne (Option.some.inj (h.symm.trans hb))
  cases i with
  | update pk values user now =>
    cases hu : C.update db pk values user now with
    | error e =>
      simp only [step,hu] at hsame
      exact absurd ha hsame
    | ok db' =>
      simp only [step,hu] at hb
      rcases update_valueAt hu hwf hf ha hb with heq | hblank | hallows
      · exact absurd heq.symm hne
      · simp [hbb] at hblank
      · exact hallows
  | request pk old values user => exact absurd ha hsame
  | act requestId user decision comment now =>
    simp only [step] at hb hsame
    rcases act_cases C db requestId user decision comment now with
      hdata | ⟨request,recorded,hfind,hlast,hdata,signed,happly,hid,hpk,hto⟩
    · rw [valueAt,hdata] at hsame
      exact absurd ha hsame
    · have hstored : valueAt recorded k field.physName = some a := by rwa [valueAt,hdata]
      rw [happly] at hb
      rcases apply_valueAt recorded hwf hf hstored hb with heq | ⟨hwid,hk,hb'⟩
      · exact absurd heq.symm hne
      · rw [hdata,hpk] at hk
        rw [hid] at hwid
        rw [hto] at hb'
        have hallows := filed_allows h (Keyed.mem_of_find hfind) hwf hwid
        have hread := hfresh request hfind hlast wf (hwid ▸ find_workflow C hwf) field hf a (hk ▸ ha)
        rw [hb'] at hne ⊢
        rcases hread with hfrom | hreached | hblank | hedge
        · rwa [hfrom]
        · exact absurd hreached hne
        · simp [hab] at hblank
        · exact hedge

/-- Along every run whose sign-offs find the value they were asked for, each change of
a workflow field is a transition of its workflow. -/
theorem exec_legal (C : Catalog) (data : Physical) (inputs : List Input)
    (hfresh : Meets (step C) (Fresh C) ⟨data,[],[]⟩ inputs) :
    Meets (step C) (Legal C) ⟨data,[],[]⟩ inputs :=
  meets_of_invariant (Filed C) (fun db i h _ => step_filed C db i h)
    (fun db i h hi => step_legal C db i h hi) (by simp [Filed]) hfresh

/-! ### A request that outlives the value it was filed for -/

def status : MetaField where
  id := 1
  physName := "status"
  label := "Status"
  dataType := .enum

def orderFlow : Workflow where
  id := 1
  tableId := 1
  fieldId := 1
  stored := [⟨"draft","submitted",[]⟩,⟨"submitted","approved",[]⟩,⟨"submitted","draft",[]⟩]

def managerStep : ApprovalStep where
  id := 1
  workflowId := 1
  fromState := "submitted"
  toState := "approved"
  position := 1
  approverRole := some "manager"

/-- Orders whose move from submitted to approved needs one manager. -/
def orders : Catalog where
  table :=
    { id := 1
      physName := "orders"
      label := "Orders"
      fields := [status]
      idsNodup := by decide
      namesNodup := by decide
      namesFree := by decide }
  workflows := [orderFlow]
  steps := [managerStep]
  visible := fun _ _ => true
  evaluate := fun _ _ => none
  str := fun v => match v with | .text s => s | _ => ""
  idsNodup := by decide
  fieldsNodup := by decide
  onEnum := by
    intro wf hwf field hf
    obtain rfl : field = status := by simpa using Keyed.mem_of_find hf
    rfl

def submitted : Row := fun column => if column = "id" then .int 1 else .text "submitted"

/-- One submitted order with the key 1, which a request names as text. -/
def ordersData : Physical where
  columns := ["id","status"]
  pk := "id"
  rows := [submitted]
  key := fun v => if v = .text "1" then .int 1 else v
  admits := fun _ => true

def clerk : AppUser := ⟨1,"clerk"⟩
def manager : AppUser := ⟨2,"manager"⟩

def askApproval : List Input :=
  [.update (.text "1") [("status",.text "approved")] clerk 0,
    .request (.text "1") submitted [("status",.text "approved")] clerk]
def takeBack : Input := .update (.text "1") [("status",.text "draft")] clerk 1
def signOff : Input := .act 1 manager "approve" none 2

/-- The approval is applied over the draft the order was taken back to. -/
theorem exec_not_legal : ¬∀ (C : Catalog) (data : Physical) (inputs : List Input),
    Meets (step C) (Legal C) ⟨data,[],[]⟩ inputs := by
  intro h
  have hlast : Legal orders (exec (step orders) ⟨ordersData,[],[]⟩ (askApproval++[takeBack])) signOff :=
    meets_at (h orders ordersData (askApproval++[takeBack]++[signOff]))
  have hedge : orderFlow.Allows (.text "draft") (.text "approved") :=
    hlast orderFlow (by decide) status (by rfl) (.int 1) (.text "draft") (.text "approved") (by rfl) (by rfl)
      (by rfl) (by rfl) (by decide)
  exact absurd hedge (by decide)

/-- Signed off while the order is still submitted. -/
theorem exec_legal_orders : Meets (step orders) (Legal orders) ⟨ordersData,[],[]⟩ (askApproval++[signOff]) := by
  refine exec_legal orders ordersData (askApproval++[signOff]) ⟨trivial,trivial,?_,trivial⟩
  intro request hrequest _ wf hwf field hf a ha
  have hmem : field ∈ [status] := Keyed.mem_of_find hf
  obtain rfl := List.mem_singleton.mp hmem
  have hfiled := Option.some.inj hrequest
  subst hfiled
  have hvalue : Value.text "submitted" = a := Option.some.inj ha
  exact Or.inl hvalue.symm

end ApprovalWrites
end Biggy
