import Biggy.Triggers

/-!
# SLA clocks

One clock of one policy and one record: how a status value classifies, the four
moves of `_start`, `_pause`, `_resume` and `_stop`, the token that is written back
and what an event or a delete does to the clock.
-/
namespace Biggy

structure SlaPolicy where
  id : ℕ
  tableId : ℕ
  active : Bool := true
  targetMinutes : ℤ
  warnMinutes : Option ℤ := none
  statusFieldId : Option ℕ := none
  startOnCreate : Bool := true
  startStates : Option String := none
  pauseStates : Option String := none
  stopStates : Option String := none
  condFieldId : Option ℕ := none
  condOp : Option String := none
  condValue : Option String := none
  stateFieldId : Option ℕ := none
  dueFieldId : Option ℕ := none
  breachInApp : Bool := false
  breachNotifyTarget : Option String := none
  breachNotifyUserId : Option ℕ := none
  breachMessage : Option String := none
  breachEmailTo : Option String := none
  breachEmailSubject : Option String := none
  breachEmailBody : Option String := none
  breachSetFieldId : Option ℕ := none
  breachSetValue : Option String := none
  escalations : Option String := none

inductive ClockState
  | running | paused | met | breached | stopped
  deriving DecidableEq

/-- `state in _TERMINAL`. -/
def ClockState.terminal : ClockState → Bool
  | .met | .breached | .stopped => true
  | _ => false

/-- The unique constraint of `app_sla_clock`. -/
structure ClockKey where
  policyId : ℕ
  tablePhys : String
  rowPk : String
  deriving DecidableEq

structure SlaClock where
  key : ClockKey
  state : ClockState := .running
  startedAt : Option ℤ := none
  dueAt : Option ℤ := none
  remainingSeconds : Option ℤ := none
  breachedAt : Option ℤ := none
  breachNotified : Bool := false
  escalationLevel : ℕ := 0
  updatedAt : ℤ
  deriving DecidableEq

namespace Sla

/-- What the clock should be doing for a status. -/
inductive Target
  | stop | pause | run
  deriving DecidableEq

/-- `_states`. -/
def states (csv : Option String) : List String :=
  ((splitOn ',' (csv.getD "")).map strip).filter (· ≠ "")

/-- `_classify`. -/
def classify (py : PyLib) (policy : SlaPolicy) (statusValue : Value) : Option Target :=
  let v := match statusValue with | .null => "" | v => py.str v
  if v ∈ states policy.stopStates then some .stop
  else if v ∈ states policy.pauseStates then some .pause
  else if states policy.startStates = [] ∨ v ∈ states policy.startStates then some .run
  else none

/-- `fields.get(field_id)` for a column that holds an id, where 0 counts as empty. -/
def fieldOf (mt : MetaTable) (fieldId : Option ℕ) : Option MetaField :=
  match fieldId with
  | none => none
  | some id => if id = 0 then none else mt.field id

/-- `_applies`. -/
def applies (py : PyLib) (policy : SlaPolicy) (mt : MetaTable) (row : Row) : Bool :=
  match fieldOf mt policy.condFieldId with
  | none => true
  | some f =>
    match policy.condOp with
    | none => true
    | some op => op == "" || Triggers.eval py op (row f.physName) policy.condValue

/-- `_status_value`. -/
def statusValue (policy : SlaPolicy) (mt : MetaTable) (row : Row) : Value :=
  match fieldOf mt policy.statusFieldId with
  | none => .null
  | some f => row f.physName

/-- `_classify(...) if applies else None`. -/
def targetOf (py : PyLib) (policy : SlaPolicy) (mt : MetaTable) (row : Row) : Option Target :=
  if applies py policy mt row then classify py policy (statusValue policy mt row) else none

/-! ### The four moves -/

/-- `int(timedelta.total_seconds())`. -/
def wholeSeconds (d : ℤ) : ℤ := d.tdiv 1000000

def start (policy : SlaPolicy) (now : ℤ) (clock : SlaClock) : SlaClock :=
  { clock with
    startedAt := clock.startedAt.or (some now)
    dueAt := some (now + minutes policy.targetMinutes)
    remainingSeconds := none
    breachedAt := none
    state := .running
    updatedAt := now }

def pause (now : ℤ) (clock : SlaClock) : SlaClock :=
  { clock with
    remainingSeconds := match clock.dueAt with
      | some due => some (max 0 (wholeSeconds (due - now)))
      | none => clock.remainingSeconds
    dueAt := none
    state := .paused
    updatedAt := now }

def resume (now : ℤ) (clock : SlaClock) : SlaClock :=
  { clock with
    dueAt := some (now + seconds (clock.remainingSeconds.getD 0))
    remainingSeconds := none
    state := .running
    updatedAt := now }

/-- The clock counts as breached when it is stopped at `now`. -/
def stopsLate (now : ℤ) (clock : SlaClock) : Bool :=
  decide (clock.state = .breached) ||
    (match clock.dueAt with | some due => decide (due < now) | none => false)

def stop (now : ℤ) (clock : SlaClock) : SlaClock :=
  { clock with
    state := if stopsLate now clock then .breached else .met
    breachedAt := if stopsLate now clock then clock.breachedAt.or (some (clock.dueAt.getD now))
      else clock.breachedAt
    remainingSeconds := none
    updatedAt := now }

/-- The clock ends without a verdict. -/
def abandon (now : ℤ) (clock : SlaClock) : SlaClock := { clock with state := .stopped, updatedAt := now }

/-! ### The written token -/

/-- `_state_token`. -/
def stateToken (defaultWarn : ℤ) (policy : SlaPolicy) (now : ℤ) (clock : SlaClock) : Option String :=
  match clock.state with
  | .breached => some "breached"
  | .met => some "met"
  | .stopped => none
  | .paused => some "paused"
  | .running =>
    match clock.dueAt with
    | none => some "on_track"
    | some due =>
      if due ≤ now then some "breached"
      else if due - now ≤ minutes (policy.warnMinutes.getD defaultWarn) then some "due_soon"
      else some "on_track"

/-- The state column of `_writeback`. -/
def tokenUpdate (defaultWarn : ℤ) (policy : SlaPolicy) (mt : MetaTable) (now : ℤ) (clock : SlaClock) : Values :=
  match fieldOf mt policy.stateFieldId, stateToken defaultWarn policy now clock with
  | some f, some token => [(f.physName,.text token)]
  | _, _ => []

def dueValue (clock : SlaClock) : Value :=
  match clock.dueAt with
  | some due => .datetime due
  | none => .null

/-- The deadline column of `_writeback`. -/
def dueUpdate (policy : SlaPolicy) (mt : MetaTable) (clock : SlaClock) : Values :=
  match fieldOf mt policy.dueFieldId with
  | some f => [(f.physName,dueValue clock)]
  | none => []

/-- The columns `_writeback` updates; the deadline wins where both share a column. -/
def writeback (defaultWarn : ℤ) (policy : SlaPolicy) (mt : MetaTable) (now : ℤ) (clock : SlaClock) : Values :=
  (tokenUpdate defaultWarn policy mt now clock).update (dueUpdate policy mt clock)

/-! ### Events -/

inductive Event
  | create | update | delete
  deriving DecidableEq

/-- A first clock is opened by a run or pause status, on create only if the policy says so. -/
def starts (policy : SlaPolicy) (event : Event) (target : Option Target) : Bool :=
  (decide (target = some .run) || decide (target = some .pause)) &&
    (decide (event ≠ .create) || policy.startOnCreate)

def opened (policy : SlaPolicy) (key : ClockKey) (target : Option Target) (now : ℤ) : SlaClock :=
  let running := start policy now { key := key, startedAt := some now, updatedAt := now }
  if target = some .pause then pause now running else running

/-- What a create or update does to a clock that exists. -/
def moved (target : Option Target) (now : ℤ) (clock : SlaClock) : SlaClock :=
  match clock.state, target with
  | .met, _ | .breached, _ | .stopped, _ => clock
  | _, some .stop => stop now clock
  | .running, some .pause => pause now clock
  | .paused, some .run => resume now clock
  | .running, some .run | .paused, some .pause => clock
  | _, none => abandon now clock

def onDelete (now : ℤ) (clock : SlaClock) : SlaClock :=
  if clock.state.terminal then clock else abandon now clock

/-- The clock after `_apply`, without the write-back. -/
def advance (policy : SlaPolicy) (key : ClockKey) (event : Event) (target : Option Target) (now : ℤ)
    (clock : Option SlaClock) : Option SlaClock :=
  match event, clock with
  | .delete, clock => clock.map (onDelete now)
  | event, none => if starts policy event target then some (opened policy key target now) else none
  | _, some clock => some (moved target now clock)

section Keys

variable (policy : SlaPolicy) (target : Option Target) (now : ℤ) (clock : SlaClock)

@[simp] theorem start_key : (start policy now clock).key = clock.key := rfl
@[simp] theorem pause_key : (pause now clock).key = clock.key := rfl
@[simp] theorem resume_key : (resume now clock).key = clock.key := rfl
@[simp] theorem stop_key : (stop now clock).key = clock.key := rfl
@[simp] theorem abandon_key : (abandon now clock).key = clock.key := rfl
@[simp] theorem moved_key : (moved target now clock).key = clock.key := by
  cases hs : clock.state <;> rcases target with _ | _ | _ | _ <;> simp [moved,hs]
@[simp] theorem onDelete_key : (onDelete now clock).key = clock.key := by
  simp only [onDelete]
  split <;> rfl
@[simp] theorem opened_key (key : ClockKey) : (opened policy key target now).key = key := by
  simp only [opened]
  split <;> rfl

end Keys

/-- An event keeps a clock under its key. -/
theorem advance_key {policy : SlaPolicy} {key : ClockKey} {event : Event} {target : Option Target} {now : ℤ}
    {clock : Option SlaClock} (hkey : ∀ c, clock = some c → c.key = key) {c' : SlaClock}
    (h : advance policy key event target now clock = some c') : c'.key = key := by
  cases clock with
  | none =>
    cases event with
    | delete => simp [advance] at h
    | create | update =>
      simp only [advance] at h
      split at h
      · rw [← Option.some.inj h]
        simp
      · cases h
  | some c =>
    have hc := hkey c rfl
    cases event with
    | delete =>
      rw [← Option.some.inj h]
      simpa using hc
    | create | update =>
      rw [← Option.some.inj h]
      simpa using hc

/-- A terminal clock is left as it is by every event. -/
theorem moved_terminal {clock : SlaClock} (h : clock.state.terminal = true) (target : Option Target)
    (now : ℤ) : moved target now clock = clock := by
  cases hs : clock.state <;> simp [hs,ClockState.terminal] at h <;> simp [moved,hs]

theorem advance_terminal {clock : SlaClock} (h : clock.state.terminal = true) (policy : SlaPolicy)
    (key : ClockKey) (event : Event) (target : Option Target) (now : ℤ) :
    advance policy key event target now (some clock) = some clock := by
  cases event with
  | delete => simp [advance,onDelete,h]
  | create | update => simp [advance,moved_terminal h]

end Sla
end Biggy
