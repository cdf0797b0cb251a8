import Biggy.Run
import Biggy.SlaClock

/-!
# The SLA engine

`runForEvent` takes one record event through every active policy of the table,
`sweep` is one call of `run_breach_sweep`: a first loop that marks overdue running
clocks, each isolated from the others, and a second one that fires escalation
levels and can be left early by an exception. `step` runs both on the table of clocks.
-/
namespace Biggy
namespace Sla

open Run

/-- What the engine reads of the configuration. The policies are listed by id. -/
structure Setup where
  policies : List SlaPolicy
  tables : List MetaTable
  windows : List MaintenanceWindow
  defaultWarn : ℤ
  py : PyLib
  deliverEmail : String → String → String → String × Option String
  setValue : MetaField → Option String → Value
  idsNodup : (policies.map SlaPolicy.id).Nodup

namespace Setup

variable (S : Setup)

def policy (id : ℕ) : Option SlaPolicy := Keyed.find SlaPolicy.id id S.policies

def table (phys : String) : Option MetaTable := Keyed.find MetaTable.physName phys S.tables

/-- `_policies`: the active policies of a table. -/
def policiesOf (mt : MetaTable) : List SlaPolicy := S.policies.filter fun p => p.tableId == mt.id && p.active

/-- The window that holds breaches on a table. -/
def held (mt : MetaTable) (now : ℤ) : Bool := Maintenance.isActive S.windows mt now

end Setup

/-- A row of `app_notification` that an escalation adds. -/
structure Notice where
  event : String
  channel : String
  userId : Value := .null
  target : Option String := none
  subject : Option String := none
  body : String
  status : String
  detail : Option String := none

/-- What the engine does beside changing clocks. -/
inductive Effect
  | wrote (key : ClockKey) (updates : Values)
  | marked (key : ClockKey) (at_ : ℤ)
  | escalated (key : ClockKey) (notices : List Notice)
  | fired (key : ClockKey) (level : ℕ) (breachedAt after now : ℤ) (notices : List Notice)
  | failed (key : ClockKey)

def Effect.key : Effect → ClockKey
  | .wrote k _ | .marked k _ | .escalated k _ | .fired k _ _ _ _ _ | .failed k => k

/-- The write of `data_service.update_row`, when there is a column to write. -/
def writes (key : ClockKey) (updates : Values) : List Effect := if updates = [] then [] else [.wrote key updates]

/-! ### Record events -/

/-- One record event: `row` is what `_apply` sees, `refused` the policies whose
write-back the database refuses. -/
structure RecordEvent where
  event : Event
  phys : String
  rowPk : String
  row : Row
  now : ℤ
  refused : ℕ → Bool

namespace RecordEvent

variable (S : Setup) (mt : MetaTable) (e : RecordEvent) (policy : SlaPolicy)

def keyOf : ClockKey := ⟨policy.id,e.phys,e.rowPk⟩

def target : Option Target := targetOf S.py policy mt e.row

/-- `_apply` on the clock of one policy. -/
def clockAfter (clock : Option SlaClock) : Option SlaClock :=
  advance policy (e.keyOf policy) e.event (e.target S mt policy) e.now clock

/-- The write-back at the end of `_apply`; a delete returns before it. -/
def written (clock : Option SlaClock) : List Effect :=
  match e.event, e.clockAfter S mt policy clock with
  | .delete, _ => []
  | _, none => []
  | _, some c =>
    let updates := writeback S.defaultWarn policy mt e.now c
    if updates ≠ [] ∧ e.refused policy.id then [.failed (e.keyOf policy)]
    else writes (e.keyOf policy) updates

end RecordEvent

/-- The loop of `run_for_event` over the policies. -/
def applyAll (S : Setup) (mt : MetaTable) (e : RecordEvent) :
    List SlaPolicy → List SlaClock → List SlaClock × List Effect
  | [], clocks => (clocks,[])
  | policy::rest, clocks =>
    let clock := Keyed.find SlaClock.key (e.keyOf policy) clocks
    let clocks' := match e.clockAfter S mt policy clock with
      | none => clocks
      | some c => Keyed.put SlaClock.key c clocks
    let later := applyAll S mt e rest clocks'
    (later.1,e.written S mt policy clock ++ later.2)

def runForEvent (S : Setup) (e : RecordEvent) (clocks : List SlaClock) : List SlaClock × List Effect :=
  match S.table e.phys with
  | none => (clocks,[])
  | some mt => applyAll S mt e (S.policiesOf mt) clocks

/-! ### Escalation -/

/-- `_recipient`. -/
def recipient (policy : SlaPolicy) (row : Row) : Value :=
  match policy.breachNotifyTarget with
  | some "owner" => row "created_by"
  | some "user" => match policy.breachNotifyUserId with | some id => .int id | none => .null
  | _ => .null

/-- `x or y` of two optional texts. -/
def orText (x y : Option String) : Option String := (x.filter (· ≠ "")).or y

/-- `_escalate`: the record column it sets and the notices it adds. -/
def escalate (S : Setup) (mt : MetaTable) (policy : SlaPolicy) (row : Row) : Values × List Notice :=
  let set : Values := match fieldOf mt policy.breachSetFieldId with
    | some f => [(f.physName,S.setValue f policy.breachSetValue)]
    | none => []
  let row := row.write set
  let uid := recipient policy row
  let inApp : List Notice :=
    if policy.breachInApp && uid.truthy then
      [{ event := "sla_breach"
         channel := "in_app"
         userId := uid
         status := "unread"
         body := Triggers.render S.py (orText policy.breachMessage (some "SLA breached on record {id}")) row }]
    else []
  let email : List Notice := match policy.breachEmailTo.filter (· ≠ "") with
    | none => []
    | some to_ =>
      let target := Triggers.render S.py (some to_) row
      let subject := Triggers.render S.py
        (orText (orText policy.breachEmailSubject policy.breachMessage) (some "SLA breached")) row
      let body := Triggers.render S.py (orText policy.breachEmailBody policy.breachMessage) row
      let sent := S.deliverEmail target subject body
      [{ event := "sla_breach"
         channel := "email"
         target := some (clip 400 target)
         subject := some (clip 255 subject)
         body := body
         status := sent.1
         detail := sent.2 }]
  (set,inApp++email)

/-- `_escalation_levels`: only `ValueError` and `TypeError` of `json.loads` are caught,
and what is loaded must be iterable. -/
def escalationLevels (py : PyLib) (policy : SlaPolicy) : Except PyError (List (List (String × Json))) :=
  match py.loads ((policy.escalations.filter (· ≠ "")).getD "[]") with
  | .error (.valueError _) | .error .typeError => .ok []
  | .error e => .error e
  | .ok (.arr items) => .ok (items.filterMap fun item => match item with | .obj level => some level | _ => none)
  | .ok (.obj _) | .ok (.str _) => .ok []
  | .ok _ => .error .typeError

/-- `int(level.get("after_minutes") or 0)`. -/
def afterMinutes (py : PyLib) (level : List (String × Json)) : Except PyError ℤ :=
  let value := Json.get level "after_minutes"
  if !value.truthy then .ok 0
  else
    match value with
    | .int n => .ok n
    | .bool _ => .ok 1
    | .float (.finite q) => .ok (if q < 0 then q.ceil else q.floor)
    | .float .nan => .error (.valueError "cannot convert float NaN to integer")
    | .float _ => .error .overflowError
    | .str s => match py.int s with | some n => .ok n | none => .error (.valueError "invalid literal for int()")
    | _ => .error .typeError

/-- `breached_at + timedelta(minutes=after)`. -/
def chainDue (breachedAt after : ℤ) : Except PyError ℤ :=
  if after / 1440 < -999999999 ∨ 999999999 < after / 1440 then .error .overflowError
  else if breachedAt + minutes after < 0 ∨ maxDatetime < breachedAt + minutes after then .error .overflowError
  else .ok (breachedAt + minutes after)

/-- A member that `_render` is given: it must be a text. -/
def textOf : Json → Except PyError String
  | .str s => .ok s
  | _ => .error .typeError

/-- A member that is written to the integer column `user_id`. -/
def userOf : Json → Except PyError Value
  | .int n => .ok (.int n)
  | .bool b => .ok (.bool b)
  | .float x => .ok (.float x)
  | .str s => .ok (.text s)
  | _ => .error .typeError

/-- `level.get("message") or ...`. -/
def levelMessage (mt : MetaTable) (key : ClockKey) (level : List (String × Json)) : Except PyError String :=
  if (Json.get level "message").truthy then textOf (Json.get level "message")
  else .ok ("SLA escalation on " ++ mt.label ++ " #" ++ key.rowPk)

def levelUser (row : Row) (level : List (String × Json)) : Except PyError Value :=
  match Json.get level "notify_target" with
  | .str "owner" => .ok (row "created_by")
  | _ => if (Json.get level "notify_user_id").truthy then userOf (Json.get level "notify_user_id") else .ok .null

def levelEmail (S : Setup) (row : Row) (level : List (String × Json)) (msg : String) :
    Except PyError (List Notice) :=
  if (Json.get level "email_to").truthy then
    (textOf (Json.get level "email_to")).map fun to_ =>
      let target := Triggers.render S.py (some to_) row
      let sent := S.deliverEmail target msg msg
      [{ event := "escalation"
         channel := "email"
         target := some (clip 400 target)
         subject := some (clip 255 msg)
         body := msg
         status := sent.1
         detail := sent.2 }]
  else .ok []

/-- `_fire_escalation`. -/
def fireEscalation (S : Setup) (mt : MetaTable) (key : ClockKey) (row : Row)
    (level : List (String × Json)) : Except PyError (List Notice) := do
  let template ← levelMessage mt key level
  let msg := Triggers.render S.py (some template) row
  let uid ← levelUser row level
  let email ← levelEmail S row level msg
  if uid.truthy then
    return { event := "escalation", channel := "in_app", userId := uid, status := "unread", body := msg } :: email
  return email

/-! ### The sweep -/

/-- Processing one clock fails before or after its escalation has gone out; the rows that
the escalation added are then rolled back, what it sent and set is not. -/
inductive Stage
  | early | late
  deriving DecidableEq

/-- One call of `run_breach_sweep`: the time, the stored rows and the statements on a
clock's record that the database refuses in the first and in the second loop. -/
structure SweepCall where
  now : ℤ
  row : ClockKey → Row
  markFault : ClockKey → Option Stage
  fireFault : ClockKey → Bool

def overdue (now : ℤ) (clock : SlaClock) : Bool :=
  match clock.dueAt with
  | some due => decide (due ≤ now)
  | none => false

/-- The policy and the table of a clock, when both exist and no window holds it. -/
def scope (S : Setup) (now : ℤ) (clock : SlaClock) : Option (SlaPolicy × MetaTable) :=
  match S.policy clock.key.policyId, S.table clock.key.tablePhys with
  | some policy, some mt => if S.held mt now then none else some (policy,mt)
  | _, _ => none

/-- The clock once the sweep has marked it. -/
def breach (now : ℤ) (clock : SlaClock) : SlaClock :=
  { clock with
    state := .breached
    breachedAt := clock.dueAt
    breachNotified := true
    updatedAt := now }

/-- The escalation of a clock that the sweep marks, unless it went out before. -/
def breachEffects (S : Setup) (call : SweepCall) (policy : SlaPolicy) (mt : MetaTable) (clock : SlaClock) :
    List Effect :=
  if overdue call.now clock && !clock.breachNotified then
    let done := escalate S mt policy (call.row clock.key)
    writes clock.key done.1 ++ [.escalated clock.key done.2]
  else []

/-- The body of the first loop for one clock; a failure rolls the clock back. -/
def mark (S : Setup) (call : SweepCall) (clock : SlaClock) : SlaClock × List Effect :=
  if clock.state ≠ .running then (clock,[])
  else
    match scope S call.now clock with
    | none => (clock,[])
    | some (policy,mt) =>
      match call.markFault clock.key with
      | some .early => (clock,[.failed clock.key])
      | some .late => (clock,breachEffects S call policy mt clock ++ [.failed clock.key])
      | none =>
        let clock' := if overdue call.now clock then breach call.now clock else clock
        (clock',breachEffects S call policy mt clock ++
          (if overdue call.now clock then [.marked clock.key call.now] else []) ++
          writes clock.key (writeback S.defaultWarn policy mt call.now clock'))

/-- The body of the second loop for one clock: what lies outside its `try` can raise. -/
def chain (S : Setup) (call : SweepCall) (clock : SlaClock) : Except PyError (SlaClock × List Effect) :=
  if clock.state ≠ .breached then .ok (clock,[])
  else
    match scope S call.now clock, clock.breachedAt with
    | some (policy,mt), some breachedAt =>
      match escalationLevels S.py policy with
      | .error e => .error e
      | .ok levels =>
        match levels[clock.escalationLevel]? with
        | none => .ok (clock,[])
        | some level =>
          match afterMinutes S.py level with
          | .error e => .error e
          | .ok after =>
            match chainDue breachedAt after with
            | .error e => .error e
            | .ok due =>
              if call.now < due then .ok (clock,[])
              else if call.fireFault clock.key then .ok (clock,[.failed clock.key])
              else
                match fireEscalation S mt clock.key (call.row clock.key) level with
                | .error _ => .ok (clock,[.failed clock.key])
                | .ok notices => .ok
                    ({ clock with escalationLevel := clock.escalationLevel+1, updatedAt := call.now },
                      [.fired clock.key clock.escalationLevel breachedAt after call.now notices])
    | _, _ => .ok (clock,[])

/-- The second loop; an exception leaves the clocks behind it as they are. -/
def chainLoop (S : Setup) (call : SweepCall) :
    List SlaClock → List SlaClock × List Effect × Option PyError
  | [] => ([],[],none)
  | clock::rest =>
    match chain S call clock with
    | .error e => (clock::rest,[],some e)
    | .ok (clock',effects) =>
      let later := chainLoop S call rest
      (clock'::later.1,effects++later.2.1,later.2.2)

/-- `run_breach_sweep`. -/
def sweep (S : Setup) (call : SweepCall) (clocks : List SlaClock) :
    List SlaClock × List Effect × Option PyError :=
  let marked := clocks.map (mark S call)
  let chained := chainLoop S call (marked.map Prod.fst)
  (chained.1,marked.flatMap Prod.snd ++ chained.2.1,chained.2.2)

/-! ### Runs -/

inductive Input
  | event (e : RecordEvent)
  | sweep (call : SweepCall)

def Input.time : Input → ℤ
  | .event e => e.now
  | .sweep call => call.now

def step (S : Setup) (clocks : List SlaClock) : Input → List SlaClock
  | .event e => (runForEvent S e clocks).1
  | .sweep call => (sweep S call clocks).1

def effects (S : Setup) (clocks : List SlaClock) : Input → List Effect
  | .event e => (runForEvent S e clocks).2
  | .sweep call => (sweep S call clocks).2.1

end Sla
end Biggy
