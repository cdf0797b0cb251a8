import Biggy.Handlers
import Biggy.Metadata

/-!
# Chains of triggers

A trigger may create a record in another table, whose triggers may create records in turn. A depth counter ends such
chains; `chains_end` says that every create comes to an end and leaves the counter as it was.
-/
namespace Biggy
namespace TriggerChains

open Commits Prog Handlers

/-- An exception that `except Exception` catches, or another one. -/
inductive Raised
  | exception
  | baseException
  deriving DecidableEq

/-- Why a run stops: by an exception, or because the recursion is not followed any further. -/
inductive Stop
  | raised (r : Raised)
  | outOfFuel
  deriving DecidableEq

/-- `except Exception`. -/
def Stop.caught : Stop → Bool
  | .raised .exception => true
  | _ => false

/-- The columns of a rule that decide which actions it runs. -/
structure TriggerRule where
  id : ℕ
  tableId : ℕ
  active : Bool
  event : String
  setFieldId : Option ℕ
  inApp : Bool
  emailTo : String
  webhookUrl : String
  createTableId : Option ℕ

/-- Something that the program calls: it changes the world and returns or raises. -/
def Op (ω α : Type) := ω → Except Raised α × ω

/-- What the create and its triggers do besides calling each other. `values` is all that a create adds to the submitted
values, and `fieldMap` makes the values of the new record. -/
structure Ops (ω : Type) where
  values : MetaTable → Values → Option ℕ → Op ω Values
  insertRow : MetaTable → Values → Op ω Value
  log : MetaTable → Value → Values → Option ℕ → Op ω Unit
  runFeeds : MetaTable → String → Value → Option Row → Option ℕ → Op ω Unit
  runSla : MetaTable → String → Value → Option Row → Option ℕ → Op ω Unit
  logException : MetaTable → Value → Op ω Unit
  notifyAssignees : MetaTable → Value → Values → Option ℕ → Op ω Unit
  ripple : MetaTable → Value → Values → Op ω Unit
  queryRules : ℕ → Op ω Unit
  getRow : MetaTable → Value → Op ω Row
  matchesRule : TriggerRule → String → Row → Row → Op ω Bool
  conditionOk : TriggerRule → Row → Op ω Bool
  ruleFailed : TriggerRule → MetaTable → Value → String → Op ω Unit
  commit : Op ω Unit
  maintenance : MetaTable → Op ω Bool
  setField : TriggerRule → MetaTable → Value → String → Row → Op ω Row
  notifyInApp : TriggerRule → MetaTable → Value → String → Row → Option ℕ → Bool → Op ω Unit
  email : TriggerRule → MetaTable → Value → String → Row → Bool → Op ω Unit
  webhook : TriggerRule → MetaTable → Value → String → Row → Option Row → Bool → Op ω Unit
  depthReached : TriggerRule → MetaTable → Value → String → Op ω Unit
  getTable : ℕ → Op ω (Option MetaTable)
  fieldMap : TriggerRule → MetaTable → Row → Op ω Values
  created : TriggerRule → MetaTable → Value → String → MetaTable → Value → Op ω Unit
  createFailed : TriggerRule → MetaTable → Value → String → Op ω Unit

structure State (ω : Type) where
  world : ω
  createDepth : ℕ

/-- A program; each insert is put out with the number of creates that are under way around it. -/
abbrev Code (ω α : Type) := Prog (State ω) ℕ Stop α

/-- `_MAX_CREATE_DEPTH`. -/
def maxCreateDepth : ℕ := 3

section Code

variable {ω : Type}

def call {α : Type} (op : Op ω α) : Code ω α := fun s =>
  match op s.world with
  | (.ok a,world) => ⟨{ s with world := world },[],.ok a⟩
  | (.error r,world) => ⟨{ s with world := world },[],.error (.raised r)⟩

/-- An operation under a condition, and a value of its own otherwise. -/
def callIf {α : Type} (b : Bool) (op : Op ω α) (a : α) : Code ω α := if b then call op else pure a

variable (ops : Ops ω) (rules : List TriggerRule)

/-- `rules_for`. -/
def rulesFor (tableId : ℕ) (events : List String) : List TriggerRule :=
  rules.filter fun r => decide (r.tableId = tableId) && r.active && decide (r.event ∈ events)

/-- An update is a transition as well. -/
def eventsOf (event : String) : List String := if event = "update" then ["update","transition"] else [event]

section Create

/-! `createRecord` is the create that a trigger calls, with the number of creates that are under way around it. -/

variable (createRecord : ℕ → MetaTable → Values → Option ℕ → Code ω Value)

/-- `_create_record`. -/
def createAction (level : ℕ) (rule : TriggerRule) (mt : MetaTable) (pk : Value) (event : String) (newRow : Row)
    (userId : Option ℕ) (createTableId : ℕ) : Code ω Unit :=
  withState fun s =>
    if maxCreateDepth ≤ s.createDepth then call (ops.depthReached rule mt pk event)
    else do
      let target ← call (ops.getTable createTableId)
      match target with
      | none => pure ()
      | some target => do
        let values ← call (ops.fieldMap rule target newRow)
        if values.isEmpty then pure ()
        else
          inside (fun s => { s with createDepth := s.createDepth+1 }) (fun s t => { t with createDepth := s.createDepth })
            (handle Stop.caught
              (do
                let newPk ← createRecord (level+1) target values userId
                call (ops.created rule mt pk event target newPk))
              fun _ => call (ops.createFailed rule mt pk event))

/-- `_run`. -/
def run (level : ℕ) (mt : MetaTable) (rule : TriggerRule) (event : String) (pk : Value) (oldRow : Option Row) (newRow : Row)
    (userId : Option ℕ) : Code ω Row := do
  let muted ← call (ops.maintenance mt)
  let newRow ← callIf (rule.setFieldId.isSome && event != "delete") (ops.setField rule mt pk event newRow) newRow
  callIf rule.inApp (ops.notifyInApp rule mt pk event newRow userId muted) ()
  callIf (rule.emailTo != "") (ops.email rule mt pk event newRow muted) ()
  callIf (rule.webhookUrl != "") (ops.webhook rule mt pk event newRow oldRow muted) ()
  match rule.createTableId.filter fun _ => event != "delete" with
  | some createTableId => do
    createAction ops createRecord level rule mt pk event newRow userId createTableId
    pure newRow
  | none => pure newRow

/-- The body of the loop of `fire`; a rule that fails leaves the row as it was known before. -/
def fireRule (level : ℕ) (mt : MetaTable) (event : String) (pk : Value) (oldRow : Option Row) (userId : Option ℕ) (newRow : Row)
    (rule : TriggerRule) : Code ω Row :=
  handle Stop.caught
    (do
      let matched ← call (ops.matchesRule rule event (oldRow.getD fun _ => .null) newRow)
      let ok ← callIf matched (ops.conditionOk rule newRow) false
      if ok then run ops createRecord level mt rule event pk oldRow newRow userId else pure newRow)
    fun _ => do
      call (ops.ruleFailed rule mt pk event)
      pure newRow

/-- `fire`. -/
def fire (level : ℕ) (mt : MetaTable) (event : String) (pk : Value) (oldRow : Option Row) (userId : Option ℕ) : Code ω Unit := do
  call (ops.queryRules mt.id)
  let found := rulesFor rules mt.id (eventsOf event)
  if found.isEmpty then pure ()
  else do
    let newRow ← callIf (event != "delete") (ops.getRow mt pk) (oldRow.getD fun _ => .null)
    let _ ← found.foldlM (fireRule ops createRecord level mt event pk oldRow userId) newRow
    call ops.commit

/-- `_fire`: neither triggers nor feeds nor SLA clocks break the write. -/
def dispatch (level : ℕ) (mt : MetaTable) (event : String) (pk : Value) (oldRow : Option Row) (userId : Option ℕ) : Code ω Unit := do
  handle Stop.caught (fire ops rules createRecord level mt event pk oldRow userId) fun _ => call (ops.logException mt pk)
  handle Stop.caught (call (ops.runFeeds mt event pk oldRow userId)) fun _ => call (ops.logException mt pk)
  handle Stop.caught (call (ops.runSla mt event pk oldRow userId)) fun _ => call (ops.logException mt pk)

end Create

/-- `record_service.create`, followed to so many creates inside each other. -/
def create : ℕ → ℕ → MetaTable → Values → Option ℕ → Code ω Value
  | 0, _, _, _, _ => raise .outOfFuel
  | fuel+1, level, mt, values, userId => do
    let values ← call (ops.values mt values userId)
    let pk ← call (ops.insertRow mt values)
    emit level
    call (ops.log mt pk values userId)
    dispatch ops rules (create fuel) level mt "create" pk none userId
    call (ops.notifyAssignees mt pk values userId)
    call (ops.ripple mt pk values)
    pure pk

end Code

section Bounds

variable {ω : Type} {ops : Ops ω} {rules : List TriggerRule} {d level : ℕ} {W : ℕ → Prop}
  {createRecord createRecord' : ℕ → MetaTable → Values → Option ℕ → Code ω Value}

/-- The depth counter stands at `d`. -/
def AtDepth (d : ℕ) (s : State ω) : Prop := s.createDepth = d

theorem within_call {α : Type} (op : Op ω α) : Within (AtDepth d) W (· ≠ Stop.outOfFuel) (call op) where
  state s hs := by
    simp only [call]
    split <;> exact hs
  out s hs w hw := by
    simp only [call] at hw
    split at hw <;> cases hw
  error s hs e he := by
    simp only [call] at he
    split at he
    · cases he
    · rintro rfl
      cases he

theorem settled_call {α : Type} (op : Op ω α) : Settled (AtDepth d) W (· ≠ Stop.outOfFuel) (call op) (call op) :=
  settled_self (within_call op)

theorem settled_pure {α : Type} (a : α) : Settled (AtDepth d) W (· ≠ Stop.outOfFuel) (pure a : Code ω α) (pure a) :=
  settled_self (within_pure a)

theorem settled_callIf {α : Type} (b : Bool) (op : Op ω α) (a : α) :
    Settled (AtDepth d) W (· ≠ Stop.outOfFuel) (callIf b op a) (callIf b op a) := by
  cases b with
  | true => exact settled_call op
  | false => exact settled_pure a

/-- What the actions of a rule may call: creates one level further in, with the counter one higher. -/
def Nested (d level : ℕ) (W : ℕ → Prop) (createRecord createRecord' : ℕ → MetaTable → Values → Option ℕ → Code ω Value) : Prop :=
  d < maxCreateDepth → ∀ target values userId, Settled (AtDepth (d+1)) W (· ≠ Stop.outOfFuel)
    (createRecord (level+1) target values userId) (createRecord' (level+1) target values userId)

theorem settled_createAction (h : Nested d level W createRecord createRecord') (rule : TriggerRule) (mt : MetaTable) (pk : Value)
    (event : String) (newRow : Row) (userId : Option ℕ) (createTableId : ℕ) :
    Settled (AtDepth d) W (· ≠ Stop.outOfFuel) (createAction ops createRecord level rule mt pk event newRow userId createTableId)
      (createAction ops createRecord' level rule mt pk event newRow userId createTableId) := by
  refine settled_withState fun s hs => ?_
  split
  · exact settled_call _
  · rename_i hdepth
    have hbelow : d < maxCreateDepth := by
      rw [AtDepth] at hs
      omega
    refine settled_bind (settled_call _) fun target => ?_
    cases target with
    | none => exact settled_pure _
    | some target =>
      refine settled_bind (settled_call _) fun values => ?_
      split
      · exact settled_pure _
      · refine settled_inside (Q := AtDepth (d+1)) (fun t ht => congrArg (· + 1) ht) (fun _ _ ht => ht) ?_
        exact settled_handle (settled_bind (h hbelow target values userId) fun newPk => settled_call _) fun _ => within_call _

theorem settled_run (h : Nested d level W createRecord createRecord') (mt : MetaTable) (rule : TriggerRule) (event : String)
    (pk : Value) (oldRow : Option Row) (newRow : Row) (userId : Option ℕ) :
    Settled (AtDepth d) W (· ≠ Stop.outOfFuel) (run ops createRecord level mt rule event pk oldRow newRow userId)
      (run ops createRecord' level mt rule event pk oldRow newRow userId) := by
  refine settled_bind (settled_call _) fun muted => settled_bind (settled_callIf _ _ _) fun newRow => ?_
  refine settled_bind (settled_callIf _ _ _) fun _ => settled_bind (settled_callIf _ _ _) fun _ => ?_
  refine settled_bind (settled_callIf _ _ _) fun _ => ?_
  cases rule.createTableId.filter fun _ => event != "delete" with
  | none => exact settled_pure _
  | some createTableId => exact settled_bind (settled_createAction h _ _ _ _ _ _ _) fun _ => settled_pure _

theorem settled_fireRule (h : Nested d level W createRecord createRecord') (mt : MetaTable) (event : String) (pk : Value)
    (oldRow : Option Row) (userId : Option ℕ) (newRow : Row) (rule : TriggerRule) :
    Settled (AtDepth d) W (· ≠ Stop.outOfFuel) (fireRule ops createRecord level mt event pk oldRow userId newRow rule)
      (fireRule ops createRecord' level mt event pk oldRow userId newRow rule) := by
  refine settled_handle ?_ fun _ => within_bind (within_call _) fun _ => within_pure _
  refine settled_bind (settled_call _) fun matched => settled_bind (settled_callIf _ _ _) fun ok => ?_
  split
  · exact settled_run h _ _ _ _ _ _ _
  · exact settled_pure _

theorem settled_fire (h : Nested d level W createRecord createRecord') (mt : MetaTable) (event : String) (pk : Value)
    (oldRow : Option Row) (userId : Option ℕ) :
    Settled (AtDepth d) W (· ≠ Stop.outOfFuel) (fire ops rules createRecord level mt event pk oldRow userId)
      (fire ops rules createRecord' level mt event pk oldRow userId) := by
  refine settled_bind (settled_call _) fun _ => ?_
  dsimp only
  split
  · exact settled_pure _
  · refine settled_bind (settled_callIf _ _ _) fun newRow => ?_
    exact settled_bind (settled_foldlM (fun row rule => settled_fireRule h _ _ _ _ _ _ _) newRow) fun _ => settled_call _

theorem settled_dispatch (h : Nested d level W createRecord createRecord') (mt : MetaTable) (event : String) (pk : Value)
    (oldRow : Option Row) (userId : Option ℕ) :
    Settled (AtDepth d) W (· ≠ Stop.outOfFuel) (dispatch ops rules createRecord level mt event pk oldRow userId)
      (dispatch ops rules createRecord' level mt event pk oldRow userId) := by
  refine settled_bind (settled_handle (settled_fire h _ _ _ _ _) fun _ => within_call _) fun _ => ?_
  refine settled_bind (settled_handle (settled_call _) fun _ => within_call _) fun _ => ?_
  exact settled_handle (settled_call _) fun _ => within_call _

/-- Followed far enough from a counter at `d`, a create does not run out of fuel, more fuel makes no difference, the
counter is put back, and the creates inside it are at most `3-d` deep. -/
theorem settled_create {fuel fuel' : ℕ} (hfuel : maxCreateDepth-d < fuel) (hfuel' : maxCreateDepth-d < fuel')
    (level : ℕ) (mt : MetaTable) (values : Values) (userId : Option ℕ) :
    Settled (AtDepth d) (· ≤ level+(maxCreateDepth-d)) (· ≠ Stop.outOfFuel) (create ops rules fuel level mt values userId)
      (create ops rules fuel' level mt values userId) := by
  induction fuel generalizing fuel' d level mt values userId with
  | zero => omega
  | succ fuel ih =>
    obtain ⟨more,rfl⟩ := Nat.exists_eq_add_of_le' (show 1 ≤ fuel' by omega)
    have hnested : Nested d level (· ≤ level+(maxCreateDepth-d)) (create ops rules fuel) (create ops rules more) := by
      intro hbelow target values userId
      have hsettled : Settled (AtDepth (d+1)) _ _ (create ops rules fuel (level+1) target values userId)
          (create ops rules more (level+1) target values userId) := ih (by omega) (by omega) (level+1) target values userId
      rwa [show level+1+(maxCreateDepth-(d+1)) = level+(maxCreateDepth-d) by omega] at hsettled
    refine settled_bind (settled_call _) fun values => settled_bind (settled_call _) fun pk => ?_
    refine settled_bind (settled_self (within_emit (Nat.le_add_right _ _))) fun _ => settled_bind (settled_call _) fun _ => ?_
    refine settled_bind (settled_dispatch hnested _ _ _ _ _) fun _ => settled_bind (settled_call _) fun _ => ?_
    exact settled_bind (settled_call _) fun _ => settled_pure _

end Bounds

/-- Whatever the rules are and wherever something raises: a create that is followed four creates deep comes to an end,
which is the same however much further it is followed; the depth counter is then what it was, and no record has been
created more than three triggers deep. -/
theorem chains_end {ω : Type} (ops : Ops ω) (rules : List TriggerRule) (mt : MetaTable) (values : Values) (userId : Option ℕ)
    (world : ω) (d : ℕ) : ∃ ending : Ending (State ω) ℕ Stop Value,
      (∀ fuel, maxCreateDepth < fuel → create ops rules fuel 0 mt values userId ⟨world,d⟩ = ending) ∧
        ending.result ≠ .error .outOfFuel ∧ ending.state.createDepth = d ∧ ∀ level ∈ ending.out, level ≤ maxCreateDepth := by
  have hsettled := fun fuel (hfuel : maxCreateDepth < fuel) => @settled_create ω ops rules d (maxCreateDepth+1) fuel (by omega)
    (by omega) 0 mt values userId
  obtain ⟨hwithin,-⟩ := hsettled (maxCreateDepth+1) (by omega)
  have hstart : AtDepth d (State.mk world d) := rfl
  refine ⟨create ops rules (maxCreateDepth+1) 0 mt values userId ⟨world,d⟩,?_,?_,hwithin.state _ hstart,fun level hlevel => ?_⟩
  · exact fun fuel hfuel => ((hsettled fuel hfuel).agree _ hstart).symm
  · exact fun hfuel => hwithin.error _ hstart _ hfuel rfl
  · have := hwithin.out _ hstart level hlevel
    omega

/-- A world in which everything goes well, and a rule that creates a record in its own table. -/
def quietOps (mt : MetaTable) : Ops Unit where
  values _ values _ := fun w => (.ok values,w)
  insertRow _ _ := fun w => (.ok (.int 1),w)
  log _ _ _ _ := fun w => (.ok (),w)
  runFeeds _ _ _ _ _ := fun w => (.ok (),w)
  runSla _ _ _ _ _ := fun w => (.ok (),w)
  logException _ _ := fun w => (.ok (),w)
  notifyAssignees _ _ _ _ := fun w => (.ok (),w)
  ripple _ _ _ := fun w => (.ok (),w)
  queryRules _ := fun w => (.ok (),w)
  getRow _ _ := fun w => (.ok fun _ => .null,w)
  matchesRule _ _ _ _ := fun w => (.ok true,w)
  conditionOk _ _ := fun w => (.ok true,w)
  ruleFailed _ _ _ _ := fun w => (.ok (),w)
  commit := fun w => (.ok (),w)
  maintenance _ := fun w => (.ok false,w)
  setField _ _ _ _ row := fun w => (.ok row,w)
  notifyInApp _ _ _ _ _ _ _ := fun w => (.ok (),w)
  email _ _ _ _ _ _ := fun w => (.ok (),w)
  webhook _ _ _ _ _ _ _ := fun w => (.ok (),w)
  depthReached _ _ _ _ := fun w => (.ok (),w)
  getTable _ := fun w => (.ok (some mt),w)
  fieldMap _ _ _ := fun w => (.ok [("name",.text "again")],w)
  created _ _ _ _ _ _ := fun w => (.ok (),w)
  createFailed _ _ _ _ := fun w => (.ok (),w)

def again : TriggerRule := ⟨1,1,true,"create",none,false,"","",some 1⟩

def tasks : MetaTable where
  id := 1
  physName := "tasks"
  label := "Tasks"
  fields := []
  idsNodup := List.nodup_nil
  namesNodup := List.nodup_nil
  namesFree := unmanaged_fields

example : (create (quietOps tasks) [again] 9 0 tasks [] none ⟨(),0⟩).out = [0,1,2,3] := by decide

end TriggerChains
end Biggy
