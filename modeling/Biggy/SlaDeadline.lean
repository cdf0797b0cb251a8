import Biggy.SlaOneClock

/-!
# Deadlines and verdicts

A meter beside the clock table adds up how long one clock stays in each state.
`Account` ties the columns of the clock to the meter as long as every pause comes
no later than the deadline: pausing throws the deadline away and keeps the seconds
that remain, resuming builds it again from them. Both the deadline and the verdict
of a clock are read off it.
-/
namespace Biggy
namespace Sla

open Run

/-- The state of the clock of a key, if there is one. -/
def modeOf (k : ClockKey) (clocks : List SlaClock) : Option ClockState :=
  (Keyed.find SlaClock.key k clocks).map SlaClock.state

abbrev Watched := Metered (List SlaClock) ClockState ℤ

/-- The engine with a meter on one clock. -/
def watch (S : Setup) (k : ClockKey) : Watched → Input → Watched := tick (step S) Input.time (modeOf k)

/-- No clock yet, at time `t`. -/
def noClock (t : ℤ) : Watched := ⟨[],t,fun _ => 0⟩

/-- Times do not go back and are whole seconds. -/
def OnSeconds (w : Watched) (i : Input) : Prop := w.last ≤ i.time ∧ ∃ n, i.time = seconds n

/-- A pause comes no later than the deadline the clock has, or starts out with. -/
def EarlyPause (p : SlaPolicy) (e : RecordEvent) : Option SlaClock → Prop
  | none => starts p e.event (some .pause) = true → 0 ≤ p.targetMinutes
  | some c => c.state = .running → ∀ due ∈ c.dueAt, e.now ≤ due

instance (p : SlaPolicy) (e : RecordEvent) : (clock : Option SlaClock) → Decidable (EarlyPause p e clock)
  | none => inferInstanceAs (Decidable (_ → _))
  | some c => inferInstanceAs (Decidable (c.state = .running → ∀ due ∈ c.dueAt, _))

/-- If the input pauses the clock of the key, its deadline has not passed. -/
def PausedInTime (S : Setup) (k : ClockKey) (clocks : List SlaClock) : Input → Prop
  | .sweep _ => True
  | .event e =>
    match eventPolicy S k e with
    | none => True
    | some (mt,p) => e.event ≠ .delete → e.target S mt p = some .pause →
        EarlyPause p e (Keyed.find SlaClock.key k clocks)

instance (S : Setup) (k : ClockKey) (clocks : List SlaClock) : (i : Input) → Decidable (PausedInTime S k clocks i)
  | .sweep _ => isTrue trivial
  | .event e =>
    match h : eventPolicy S k e with
    | none => isTrue (by simp [PausedInTime,h])
    | some (mt,p) =>
      decidable_of_iff (e.event ≠ .delete → e.target S mt p = some .pause →
        EarlyPause p e (Keyed.find SlaClock.key k clocks)) (by simp only [PausedInTime,h])

/-- What the columns of a clock say about the time it has spent running and paused. -/
def Account (goal last running paused : ℤ) : Option SlaClock → Prop
  | none => running = 0 ∧ paused = 0
  | some c =>
    match c.state with
    | .running => ∃ s, c.startedAt = some s ∧ c.dueAt = some (s+goal+paused) ∧
        c.remainingSeconds = none ∧ last = s+running+paused ∧ ∃ n, running = seconds n
    | .paused => ∃ s r, c.startedAt = some s ∧ c.dueAt = none ∧ c.remainingSeconds = some r ∧ 0 ≤ r ∧
        seconds r = goal-running ∧ last = s+running+paused ∧ ∃ n, running = seconds n
    | .met => running ≤ goal
    | .breached => goal ≤ running
    | .stopped => True

theorem wholeSeconds_seconds (n : ℤ) : wholeSeconds (seconds n) = n := by
  simp [wholeSeconds,seconds]

section Account

variable {goal last now running paused : ℤ} {c : SlaClock}

theorem account_running (hs : c.state = .running) : Account goal last running paused (some c) ↔
    ∃ s, c.startedAt = some s ∧ c.dueAt = some (s+goal+paused) ∧ c.remainingSeconds = none ∧
      last = s+running+paused ∧ ∃ n, running = seconds n := by
  simp only [Account,hs]

theorem account_paused (hs : c.state = .paused) : Account goal last running paused (some c) ↔
    ∃ s r, c.startedAt = some s ∧ c.dueAt = none ∧ c.remainingSeconds = some r ∧ 0 ≤ r ∧
      seconds r = goal-running ∧ last = s+running+paused ∧ ∃ n, running = seconds n := by
  simp only [Account,hs]

theorem account_met (hs : c.state = .met) :
    Account goal last running paused (some c) ↔ running ≤ goal := by simp only [Account,hs]

theorem account_breached (hs : c.state = .breached) :
    Account goal last running paused (some c) ↔ goal ≤ running := by simp only [Account,hs]

theorem account_stopped (hs : c.state = .stopped) : Account goal last running paused (some c) := by
  simp only [Account,hs]

/-- Waiting changes the meter and not the clock. -/
theorem account_wait {spent : ClockState → ℤ} {clock : Option SlaClock}
    (h : Account goal last (spent .running) (spent .paused) clock)
    (hlast : ∃ n, last = seconds n) (hnow : ∃ n, now = seconds n) :
    Account goal now (elapse (clock.map SlaClock.state) last now spent .running)
      (elapse (clock.map SlaClock.state) last now spent .paused) clock := by
  obtain ⟨l,hl⟩ := hlast
  obtain ⟨m,hm⟩ := hnow
  cases clock with
  | none => simpa [elapse,Account] using h
  | some c =>
    cases hs : c.state with
    | running =>
      obtain ⟨s,hstart,hdue,hrem,heq,n,hn⟩ := (account_running hs).mp h
      have hrun : elapse (some ClockState.running) last now spent .running = spent .running + (now-last) := by
        simp [elapse]
      have hpause : elapse (some ClockState.running) last now spent .paused = spent .paused := by simp [elapse]
      rw [Option.map_some,hs,hrun,hpause]
      refine (account_running hs).mpr ⟨s,hstart,hdue,hrem,by omega,n+(m-l),?_⟩
      simp only [seconds] at hn hl hm ⊢
      omega
    | paused =>
      obtain ⟨s,r,hstart,hdue,hrem,hr,hleft,heq,hn⟩ := (account_paused hs).mp h
      have hrun : elapse (some ClockState.paused) last now spent .running = spent .running := by simp [elapse]
      have hpause : elapse (some ClockState.paused) last now spent .paused = spent .paused + (now-last) := by
        simp [elapse]
      rw [Option.map_some,hs,hrun,hpause]
      exact (account_paused hs).mpr ⟨s,r,hstart,hdue,hrem,hr,hleft,by omega,hn⟩
    | met =>
      refine (account_met hs).mpr ?_
      simpa [elapse,hs] using (account_met hs).mp h
    | breached =>
      refine (account_breached hs).mpr ?_
      simpa [elapse,hs] using (account_breached hs).mp h
    | stopped => exact account_stopped hs

theorem account_opened {policy : SlaPolicy} {key : ClockKey} {target : Option Target}
    (htarget : target = some .pause → 0 ≤ policy.targetMinutes) :
    Account (minutes policy.targetMinutes) now 0 0 (some (opened policy key target now)) := by
  by_cases hp : target = some .pause
  · have hgoal := htarget hp
    have hleft : now + minutes policy.targetMinutes - now = seconds (policy.targetMinutes*60) := by
      rw [seconds_mul_sixty]
      omega
    have hrem : max 0 (wholeSeconds (now + minutes policy.targetMinutes - now)) = policy.targetMinutes*60 := by
      rw [hleft,wholeSeconds_seconds]
      omega
    refine (account_paused (by simp [opened,hp,pause])).mpr ⟨now,policy.targetMinutes*60,
      by simp [opened,hp,pause,start],by simp [opened,hp,pause],?_,by omega,?_,by omega,0,rfl⟩
    · simp only [opened,hp,if_true,pause,start,hrem]
    · rw [seconds_mul_sixty]
      omega
  · exact (account_running (by simp [opened,hp,start])).mpr ⟨now,by simp [opened,hp,start],
      by simp [opened,hp,start],by simp [opened,hp,start],by omega,0,rfl⟩

theorem account_pause (hs : c.state = .running) (h : Account goal now running paused (some c))
    (hgoal : ∃ n, goal = seconds n) (hdue : ∀ due, c.dueAt = some due → now ≤ due) :
    Account goal now running paused (some (pause now c)) := by
  obtain ⟨s,hstart,hat,-,heq,n,hn⟩ := (account_running hs).mp h
  obtain ⟨g,hg⟩ := hgoal
  have hleft : s+goal+paused-now = seconds (g-n) := by
    simp only [seconds] at hg hn ⊢
    omega
  have hpos : 0 ≤ g-n := by
    have := hdue _ hat
    simp only [seconds] at hleft
    omega
  refine (account_paused rfl).mpr ⟨s,g-n,hstart,rfl,?_,hpos,?_,heq,n,hn⟩
  · simp only [pause,hat,hleft,wholeSeconds_seconds]
    exact congrArg some (by omega)
  · simp only [seconds] at hg hn ⊢
    omega

theorem account_resume (hs : c.state = .paused) (h : Account goal now running paused (some c)) :
    Account goal now running paused (some (resume now c)) := by
  obtain ⟨s,r,hstart,-,hrem,-,hleft,heq,hn⟩ := (account_paused hs).mp h
  refine (account_running rfl).mpr ⟨s,hstart,?_,rfl,heq,hn⟩
  simp only [resume,hrem,Option.getD_some,hleft]
  congr 1
  omega

theorem account_stop (hs : c.state = .running ∨ c.state = .paused)
    (h : Account goal now running paused (some c)) : Account goal now running paused (some (stop now c)) := by
  rcases hs with hs | hs
  · obtain ⟨s,-,hdue,-,heq,-⟩ := (account_running hs).mp h
    by_cases hlate : s+goal+paused < now
    · refine (account_breached (by simp [stop,stopsLate,hdue,hlate])).mpr ?_
      omega
    · refine (account_met (by simp [stop,stopsLate,hs,hdue,hlate])).mpr ?_
      omega
  · obtain ⟨s,r,-,hdue,-,hr,hleft,-,-⟩ := (account_paused hs).mp h
    refine (account_met (by simp [stop,stopsLate,hs,hdue])).mpr ?_
    simp only [seconds] at hleft
    omega

theorem account_abandon : Account goal now running paused (some (abandon now c)) :=
  account_stopped rfl

theorem account_breach (hs : c.state = .running) (h : Account goal now running paused (some c))
    (hdue : overdue now c = true) : Account goal now running paused (some (breach now c)) := by
  obtain ⟨s,-,hat,-,heq,-⟩ := (account_running hs).mp h
  simp only [overdue,hat,decide_eq_true_eq] at hdue
  refine (account_breached rfl).mpr ?_
  omega

/-- A create or update keeps the account of a clock, an early enough pause included. -/
theorem account_moved {target : Option Target} (h : Account goal now running paused (some c))
    (hgoal : ∃ n, goal = seconds n)
    (hdue : c.state = .running → target = some .pause → ∀ due, c.dueAt = some due → now ≤ due) :
    Account goal now running paused (some (moved target now c)) := by
  cases hs : c.state with
  | running =>
    rcases target with _ | _ | _ | _
    · simpa only [moved,hs] using account_abandon
    · simpa only [moved,hs] using account_stop (Or.inl hs) h
    · simpa only [moved,hs] using account_pause hs h hgoal (hdue hs rfl)
    · simpa only [moved,hs] using h
  | paused =>
    rcases target with _ | _ | _ | _
    · simpa only [moved,hs] using account_abandon
    · simpa only [moved,hs] using account_stop (Or.inr hs) h
    · simpa only [moved,hs] using h
    · simpa only [moved,hs] using account_resume hs h
  | met => rwa [moved_terminal (by simp [hs,ClockState.terminal])]
  | breached => rwa [moved_terminal (by simp [hs,ClockState.terminal])]
  | stopped => rwa [moved_terminal (by simp [hs,ClockState.terminal])]

theorem account_onDelete (h : Account goal now running paused (some c)) :
    Account goal now running paused (some (onDelete now c)) := by
  simp only [onDelete]
  split
  · exact h
  · exact account_abandon

/-- A sweep keeps the account: it marks a clock only past its deadline. -/
theorem account_mark {S : Setup} {call : SweepCall} (h : Account goal call.now running paused (some c)) :
    Account goal call.now running paused (some (mark S call c).1) := by
  simp only [mark]
  split
  · exact h
  · rename_i hs
    split
    · exact h
    · split
      · exact h
      · exact h
      · change Account goal call.now running paused (some (if overdue call.now c then breach call.now c else c))
        split
        · exact account_breach (by simpa using hs) h ‹_›
        · exact h

theorem account_swept {S : Setup} {call : SweepCall} {reached : Bool}
    (h : Account goal call.now running paused (some c)) :
    Account goal call.now running paused (some (swept S call reached c)) := by
  have hmark := account_mark (S:=S) h
  simp only [swept]
  split
  · simp only [chained]
    split
    · rename_i clock' fx hchain
      rcases chain_ok hchain with ⟨rfl,-⟩ | ⟨_,_,_,_,_,_,hfires,rfl,-⟩
      · exact hmark
      · exact (account_breached hfires.state).mpr ((account_breached hfires.state).mp hmark)
    · exact hmark
  · exact hmark

end Account

/-- The meter and the clock of a key agree; times are whole seconds once there is a clock. -/
structure Accounted (S : Setup) (k : ClockKey) (w : Watched) : Prop where
  account : ∀ p, S.policy k.policyId = some p →
    Account (minutes p.targetMinutes) w.last (w.spent .running) (w.spent .paused)
      (Keyed.find SlaClock.key k w.state)
  whole : Keyed.find SlaClock.key k w.state ≠ none → ∃ n, w.last = seconds n

/-- Everything the claim about one clock asks of a step. -/
def Timely (S : Setup) (k : ClockKey) (w : Watched) (i : Input) : Prop :=
  OnSeconds w i ∧ PausedInTime S k w.state i

/-- The account of the clock when the next input comes. -/
theorem accounted_wait {S : Setup} {k : ClockKey} {w : Watched} {now : ℤ} {p : SlaPolicy}
    (hw : Accounted S k w) (hnow : ∃ n, now = seconds n) (hp : S.policy k.policyId = some p) :
    Account (minutes p.targetMinutes) now (elapse (modeOf k w.state) w.last now w.spent .running)
      (elapse (modeOf k w.state) w.last now w.spent .paused) (Keyed.find SlaClock.key k w.state) := by
  have hacc := hw.account p hp
  cases hf : Keyed.find SlaClock.key k w.state with
  | none =>
    rw [hf] at hacc
    simpa [modeOf,hf,elapse,Account] using hacc
  | some c =>
    have hlast : ∃ n, w.last = seconds n := hw.whole (by simp [hf])
    rw [hf] at hacc
    simpa only [modeOf,hf] using account_wait hacc hlast hnow

/-- An event keeps the account of the clock that it takes through `_apply`. -/
theorem account_event {S : Setup} {k : ClockKey} {clocks : List SlaClock} {e : RecordEvent} {p : SlaPolicy}
    {running paused : ℤ} (hp : S.policy k.policyId = some p) (hpause : PausedInTime S k clocks (.event e))
    (h : Account (minutes p.targetMinutes) e.now running paused (Keyed.find SlaClock.key k clocks)) :
    Account (minutes p.targetMinutes) e.now running paused
      (Keyed.find SlaClock.key k (runForEvent S e clocks).1) := by
  have hgoal : ∃ n, minutes p.targetMinutes = seconds n := ⟨p.targetMinutes*60,(seconds_mul_sixty _).symm⟩
  rw [find_runForEvent]
  cases he : eventPolicy S k e with
  | none => exact h
  | some mtp =>
    obtain ⟨mt,q⟩ := mtp
    obtain ⟨-,-,-,hq⟩ := eventPolicy_some he
    obtain rfl : q = p := Option.some.inj (hq.symm.trans hp)
    simp only [PausedInTime,he] at hpause
    simp only [RecordEvent.clockAfter]
    cases hf : Keyed.find SlaClock.key k clocks with
    | none =>
      rw [hf] at h hpause
      obtain ⟨rfl,rfl⟩ := h
      cases hev : e.event with
      | delete => exact ⟨rfl,rfl⟩
      | create | update =>
        simp only [advance]
        split
        · rename_i hstarts
          apply account_opened
          intro ht
          exact hpause (by simp [hev]) ht (by rwa [hev,← ht])
        · exact ⟨rfl,rfl⟩
    | some c =>
      rw [hf] at h hpause
      cases hev : e.event with
      | delete => exact account_onDelete h
      | create | update =>
        apply account_moved h hgoal
        intro hs ht due hdue
        exact hpause (by simp [hev]) ht hs due hdue

theorem account_sweep {S : Setup} {k : ClockKey} {clocks : List SlaClock} {call : SweepCall}
    {goal running paused : ℤ} (h : Account goal call.now running paused (Keyed.find SlaClock.key k clocks)) :
    Account goal call.now running paused (Keyed.find SlaClock.key k (sweep S call clocks).1) := by
  rw [find_sweep]
  cases hf : Keyed.find SlaClock.key k clocks with
  | none => rwa [hf] at h
  | some c =>
    rw [hf] at h
    exact account_swept h

theorem watch_accounted (S : Setup) (k : ClockKey) (w : Watched) (i : Input) (hw : Accounted S k w)
    (hi : Timely S k w i) : Accounted S k (watch S k w i) := by
  obtain ⟨⟨-,hnow⟩,hpause⟩ := hi
  refine ⟨fun p hp => ?_,fun _ => hnow⟩
  have hwait := accounted_wait hw hnow hp
  cases i with
  | event e => exact account_event hp hpause hwait
  | sweep call => exact account_sweep hwait

theorem noClock_accounted (S : Setup) (k : ClockKey) (t : ℤ) : Accounted S k (noClock t) :=
  ⟨fun _ _ => ⟨rfl,rfl⟩,fun h => absurd rfl h⟩

section Runs

variable (S : Setup) (k : ClockKey) (t : ℤ) (inputs : List Input)

theorem exec_account (h : Meets (watch S k) (Timely S k) (noClock t) inputs) {p : SlaPolicy}
    (hp : S.policy k.policyId = some p) {c : SlaClock}
    (hc : Keyed.find SlaClock.key k (exec (step S) [] inputs) = some c) :
    let w := exec (watch S k) (noClock t) inputs
    Account (minutes p.targetMinutes) w.last (w.spent .running) (w.spent .paused) (some c) := by
  have hrun := invariant (Accounted S k) (watch_accounted S k) (noClock_accounted S k t) h
  have hstate : (exec (watch S k) (noClock t) inputs).state = exec (step S) [] inputs :=
    tick_exec (step S) Input.time (modeOf k) (noClock t) inputs
  have hacc := hrun.account p hp
  rwa [hstate,hc] at hacc

/-- The deadline is the start plus the target plus all time paused, and the remainder is
the target less all time run. -/
theorem deadline_exec (h : Meets (watch S k) (Timely S k) (noClock t) inputs) {p : SlaPolicy}
    (hp : S.policy k.policyId = some p) {c : SlaClock}
    (hc : Keyed.find SlaClock.key k (exec (step S) [] inputs) = some c) :
    let w := exec (watch S k) (noClock t) inputs
    (c.state = .running → ∃ s, c.startedAt = some s ∧
      c.dueAt = some (s + minutes p.targetMinutes + w.spent .paused) ∧ c.remainingSeconds = none) ∧
    (c.state = .paused → ∃ r, c.remainingSeconds = some r ∧
      seconds r = seconds (p.targetMinutes*60) - w.spent .running ∧ c.dueAt = none) := by
  have hacc := exec_account S k t inputs h hp hc
  refine ⟨fun hs => ?_,fun hs => ?_⟩
  · obtain ⟨s,hstart,hdue,hrem,-,-⟩ := (account_running hs).mp hacc
    exact ⟨s,hstart,hdue,hrem⟩
  · obtain ⟨s,r,-,hdue,hrem,-,hleft,-,-⟩ := (account_paused hs).mp hacc
    exact ⟨r,hrem,by rw [hleft,seconds_mul_sixty],hdue⟩

/-- A clock that ends met has run for the target at most, one that ends breached for the
target at least. -/
theorem verdict_exec (h : Meets (watch S k) (Timely S k) (noClock t) inputs) {p : SlaPolicy}
    (hp : S.policy k.policyId = some p) {c : SlaClock}
    (hc : Keyed.find SlaClock.key k (exec (step S) [] inputs) = some c) :
    let w := exec (watch S k) (noClock t) inputs
    (c.state = .met → w.spent .running ≤ minutes p.targetMinutes) ∧
      (c.state = .breached → minutes p.targetMinutes ≤ w.spent .running) := by
  have hacc := exec_account S k t inputs h hp hc
  exact ⟨fun hs => (account_met hs).mp hacc,fun hs => (account_breached hs).mp hacc⟩

end Runs

/-! ### A ticket that waits -/

def ticketStatus : MetaField where
  id := 1
  physName := "status"
  label := "Status"
  dataType := .enum

def tickets : MetaTable where
  id := 1
  physName := "tickets"
  label := "Tickets"
  fields := [ticketStatus]
  idsNodup := by decide
  namesNodup := by decide
  namesFree := by decide

/-- One minute to answer, not counting the time the ticket waits. -/
def answerInTime : SlaPolicy where
  id := 1
  tableId := 1
  targetMinutes := 1
  statusFieldId := some 1
  pauseStates := some "waiting"
  stopStates := some "done, closed"

/-- A chain of one level, five minutes after the breach. -/
def chainText : String := "[\x7b\"after_minutes\": 5\x7d]"

/-- The library on the values that tickets and their policies hold. -/
def plainPy : PyLib where
  strOther := fun _ => ""
  float := fun _ => none
  int := fun s => if s = "7" then some 7 else none
  isAlnum := Char.isAlphanum
  loads := fun s =>
    if s = "[]" then .ok (.arr [])
    else if s = chainText then .ok (.arr [.obj [("after_minutes",.int 5)]])
    else if s = "null" then .ok .null
    else .error (.valueError "Expecting value")

def helpdesk (policies : List SlaPolicy) (windows : List MaintenanceWindow)
    (h : (policies.map SlaPolicy.id).Nodup) : Setup where
  policies := policies
  tables := [tickets]
  windows := windows
  defaultWarn := 60
  py := plainPy
  deliverEmail := fun _ _ _ => ("skipped",none)
  setValue := fun _ raw => match raw with | some s => .text s | none => .null
  idsNodup := h

def answering : Setup := helpdesk [answerInTime] [] (by decide)

def ticketKey : ClockKey := ⟨1,"tickets","7"⟩

/-- A status change of ticket 7 at second `n`. -/
def ticketEvent (event : Event) (status : String) (n : ℤ) : Input :=
  .event
    { event := event
      phys := "tickets"
      rowPk := "7"
      row := fun column => if column = "status" then .text status else .null
      now := seconds n
      refused := fun _ => false }

def answered : List Input :=
  [ticketEvent .create "open" 0,ticketEvent .update "waiting" 30,ticketEvent .update "open" 500,
    ticketEvent .update "done" 520]

def answeredLate : List Input :=
  [ticketEvent .create "open" 0,ticketEvent .update "waiting" 120,ticketEvent .update "done" 180]

theorem answered_timely :
    Meets (watch answering ticketKey) (Timely answering ticketKey) (noClock 0) answered :=
  ⟨⟨⟨by decide,0,rfl⟩,by decide⟩,⟨⟨by decide,30,rfl⟩,by decide⟩,⟨⟨by decide,500,rfl⟩,by decide⟩,
    ⟨⟨by decide,520,rfl⟩,by decide⟩,trivial⟩

/-- While the ticket waits, thirty of its sixty seconds are left. -/
theorem deadline_waiting : ∃ r, (Keyed.find SlaClock.key ticketKey
      (exec (step answering) [] (answered.take 2))).bind SlaClock.remainingSeconds = some r ∧
    seconds r = seconds 60 - (exec (watch answering ticketKey) (noClock 0) (answered.take 2)).spent .running := by
  have h : Meets (watch answering ticketKey) (Timely answering ticketKey) (noClock 0) (answered.take 2) :=
    ⟨answered_timely.1,answered_timely.2.1,trivial⟩
  obtain ⟨r,hrem,hleft,-⟩ := (deadline_exec answering ticketKey 0 (answered.take 2) h (p:=answerInTime) rfl rfl).2 rfl
  exact ⟨r,hrem,hleft⟩

/-- Answered in time, in spite of the long wait. -/
theorem verdict_answered :
    (exec (watch answering ticketKey) (noClock 0) answered).spent .running ≤ minutes 1 :=
  (verdict_exec answering ticketKey 0 answered answered_timely (p:=answerInTime) rfl rfl).1 rfl

/-- A ticket overdue for a minute is put to wait, which loses the deadline, and closed as met. -/
theorem exec_late_met : ¬∀ (S : Setup) (k : ClockKey) (t : ℤ) (inputs : List Input),
    Meets (watch S k) OnSeconds (noClock t) inputs →
      ∀ p, S.policy k.policyId = some p → ∀ c, Keyed.find SlaClock.key k (exec (step S) [] inputs) = some c →
        (c.state = .met → (exec (watch S k) (noClock t) inputs).spent .running ≤ minutes p.targetMinutes) ∧
          (c.state = .breached →
            minutes p.targetMinutes ≤ (exec (watch S k) (noClock t) inputs).spent .running) := by
  intro h
  have htimes : Meets (watch answering ticketKey) OnSeconds (noClock 0) answeredLate :=
    ⟨⟨by decide,0,rfl⟩,⟨by decide,120,rfl⟩,⟨by decide,180,rfl⟩,trivial⟩
  have hmet := (h answering ticketKey 0 answeredLate htimes answerInTime rfl _ rfl).1 rfl
  exact absurd hmet (by decide)

end Sla
end Biggy
