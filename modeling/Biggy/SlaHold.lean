import Biggy.SlaEscalation

/-!
# Maintenance windows

While a window covers a table its clocks should not turn breached and its records
should not get the token. The sweep skips such clocks. The event path asks no window:
`Harmless` lists, by the state a clock is in, the events it gets away with.
-/
namespace Biggy
namespace Sla

open Run

/-- While a window is active for a table, no clock of it turns breached and no record of
it gets the token. -/
def HoldsOff (S : Setup) (clocks : List SlaClock) (i : Input) : Prop :=
  ∀ phys mt, S.table phys = some mt → S.held mt i.time = true → ∀ k : ClockKey, k.tablePhys = phys →
    (∀ c', Keyed.find SlaClock.key k (step S clocks i) = some c' → c'.state = .breached →
      ∃ c, Keyed.find SlaClock.key k clocks = some c ∧ c.state = .breached) ∧
    ∀ updates, .wrote k updates ∈ effects S clocks i → ∀ p, S.policy k.policyId = some p →
      ∀ f, fieldOf mt p.stateFieldId = some f → updates.lookup f.physName ≠ some (.text "breached")

/-- A token reaches the state column: there is one, the deadline does not overwrite it
and the database accepts the write. -/
def TokenLands (mt : MetaTable) (e : RecordEvent) (p : SlaPolicy) : Prop :=
  e.refused p.id = false ∧ ∃ f, fieldOf mt p.stateFieldId = some f ∧
    ∀ g, fieldOf mt p.dueFieldId = some g → g.physName ≠ f.physName

/-- The event neither ends an overdue clock nor leaves one whose token lands. -/
def Harmless (S : Setup) (mt : MetaTable) (e : RecordEvent) (p : SlaPolicy) : Option SlaClock → Prop
  | none => starts p e.event (e.target S mt p) = true → e.target S mt p = some .run → TokenLands mt e p →
      0 < p.targetMinutes
  | some c =>
    match c.state, e.target S mt p with
    | .breached, _ => ¬TokenLands mt e p
    | .running, some .stop | .paused, some .stop => ∀ due ∈ c.dueAt, e.now ≤ due
    | .running, some .run => TokenLands mt e p → ∀ due ∈ c.dueAt, e.now < due
    | .paused, some .run => TokenLands mt e p → 0 < c.remainingSeconds.getD 0
    | _, _ => True

/-- The condition on one step: in a window every policy of the table meets a harmless event. -/
def HarmlessStep (S : Setup) (clocks : List SlaClock) : Input → Prop
  | .sweep _ => True
  | .event e => ∀ mt, S.table e.phys = some mt → S.held mt e.now = true → e.event ≠ .delete →
      ∀ p ∈ S.policiesOf mt, Harmless S mt e p (Keyed.find SlaClock.key (e.keyOf p) clocks)

/-! ### The token -/

theorem stateToken_breached (warn : ℤ) (p : SlaPolicy) (now : ℤ) (c : SlaClock) :
    stateToken warn p now c = some "breached" ↔
      c.state = .breached ∨ c.state = .running ∧ ∃ due ∈ c.dueAt, due ≤ now := by
  simp only [stateToken]
  cases hs : c.state with
  | running =>
    cases hd : c.dueAt with
    | none => simp
    | some due =>
      by_cases hle : due ≤ now
      · simp [hle]
      · by_cases hwarn : due - now ≤ minutes (p.warnMinutes.getD warn) <;> simp [hle,hwarn]
  | paused | met | breached | stopped => simp

theorem writeback_breached {warn : ℤ} {p : SlaPolicy} {mt : MetaTable} {now : ℤ} {c : SlaClock}
    {f : MetaField} (hf : fieldOf mt p.stateFieldId = some f) :
    (writeback warn p mt now c).lookup f.physName = some (.text "breached") ↔
      stateToken warn p now c = some "breached" ∧
        ∀ g, fieldOf mt p.dueFieldId = some g → g.physName ≠ f.physName := by
  have htoken : (tokenUpdate warn p mt now c).lookup f.physName = some (.text "breached") ↔
      stateToken warn p now c = some "breached" := by
    simp only [tokenUpdate,hf]
    cases stateToken warn p now c <;> simp
  simp only [writeback,Values.lookup_update]
  cases hd : fieldOf mt p.dueFieldId with
  | none => simpa [dueUpdate,hd] using htoken
  | some g =>
    by_cases hname : f.physName = g.physName
    · have htext : dueValue c ≠ .text "breached" := by
        simp only [dueValue]
        cases c.dueAt <;> simp
      simp [dueUpdate,hd,hname,htext]
    · rw [← htoken]
      simp [dueUpdate,hd,Values.lookup_singleton,hname,Ne.symm hname]

/-! ### One policy of an event -/

/-- What the promise asks of one policy of an event. -/
def QuietPolicy (S : Setup) (mt : MetaTable) (e : RecordEvent) (p : SlaPolicy) (clock : Option SlaClock) : Prop :=
  (∀ c', e.clockAfter S mt p clock = some c' → c'.state = .breached →
    ∃ c, clock = some c ∧ c.state = .breached) ∧
  ∀ updates, .wrote (e.keyOf p) updates ∈ e.written S mt p clock → ∀ f, fieldOf mt p.stateFieldId = some f →
    updates.lookup f.physName ≠ some (.text "breached")

theorem mem_written {S : Setup} {mt : MetaTable} {e : RecordEvent} {p : SlaPolicy} {clock : Option SlaClock}
    {k : ClockKey} {updates : Values} : .wrote k updates ∈ e.written S mt p clock ↔
      k = e.keyOf p ∧ e.event ≠ .delete ∧ ∃ c', e.clockAfter S mt p clock = some c' ∧
        updates = writeback S.defaultWarn p mt e.now c' ∧ updates ≠ [] ∧ e.refused p.id = false := by
  simp only [RecordEvent.written]
  cases hev : e.event with
  | delete => simp
  | create | update =>
    cases hc : e.clockAfter S mt p clock with
    | none => simp
    | some c' =>
      constructor
      · intro h
        simp only at h
        split at h
        · cases List.mem_singleton.mp h
        · rename_i hno
          cases mem_writes h
          have hne : writeback S.defaultWarn p mt e.now c' ≠ [] := fun hnil => by simp [writes,hnil] at h
          refine ⟨rfl,by simp,c',rfl,rfl,hne,?_⟩
          cases hr : e.refused p.id with
          | false => rfl
          | true => exact absurd ⟨hne,hr⟩ hno
      · rintro ⟨rfl,-,c'',hc'',rfl,hne,hr⟩
        cases hc''
        simp [writes,hne,hr]

/-- The promise for one policy, by the clock the event leaves. -/
theorem quietPolicy_iff (S : Setup) (mt : MetaTable) (e : RecordEvent) (p : SlaPolicy)
    (clock : Option SlaClock) (hev : e.event ≠ .delete) : QuietPolicy S mt e p clock ↔
      ∀ c', e.clockAfter S mt p clock = some c' →
        (c'.state = .breached → ∃ c, clock = some c ∧ c.state = .breached) ∧
        (TokenLands mt e p → ¬(c'.state = .breached ∨ c'.state = .running ∧ ∃ due ∈ c'.dueAt, due ≤ e.now)) := by
  constructor
  · rintro ⟨hstate,hwritten⟩ c' hc'
    refine ⟨hstate c' hc',fun ⟨hrefused,f,hf,hother⟩ hbreached => ?_⟩
    have hlookup : (writeback S.defaultWarn p mt e.now c').lookup f.physName = some (.text "breached") :=
      (writeback_breached hf).mpr ⟨(stateToken_breached S.defaultWarn p e.now c').mpr hbreached,hother⟩
    have hne : writeback S.defaultWarn p mt e.now c' ≠ [] := fun hnil => by simp [hnil] at hlookup
    exact hwritten _ (mem_written.mpr ⟨rfl,hev,c',hc',rfl,hne,hrefused⟩) f hf hlookup
  · intro h
    refine ⟨fun c' hc' => (h c' hc').1,fun updates hw f hf hlookup => ?_⟩
    obtain ⟨-,-,c',hc',rfl,-,hrefused⟩ := mem_written.mp hw
    obtain ⟨htoken,hother⟩ := (writeback_breached hf).mp hlookup
    exact (h c' hc').2 ⟨hrefused,f,hf,hother⟩ ((stateToken_breached S.defaultWarn p e.now c').mp htoken)

theorem stop_breached {now : ℤ} {c : SlaClock} (hs : c.state ≠ .breached) :
    (stop now c).state = .breached ↔ ∃ due ∈ c.dueAt, due < now := by
  cases hd : c.dueAt <;> simp [stop,stopsLate,hs,hd]

theorem stop_running (now : ℤ) (c : SlaClock) : (stop now c).state ≠ .running := by
  simp only [stop]
  split <;> simp

/-- A stop keeps the promise when the clock it ends is not late. -/
theorem stop_quiet {mt : MetaTable} {e : RecordEvent} {p : SlaPolicy} {c : SlaClock} {state : ClockState}
    (hs : c.state = state) (hne : state ≠ .breached) :
    (((stop e.now c).state = .breached → state = .breached) ∧ (TokenLands mt e p →
      ¬((stop e.now c).state = .breached ∨
        (stop e.now c).state = .running ∧ ∃ due ∈ (stop e.now c).dueAt, due ≤ e.now))) ↔
      ∀ due ∈ c.dueAt, e.now ≤ due := by
  rw [stop_breached (by rw [hs]; exact hne)]
  simp only [stop_running,false_and,or_false,hne,imp_false]
  constructor
  · intro h due hdue
    by_contra hlate
    exact h.1 ⟨due,hdue,by omega⟩
  · rintro h
    have hno : ¬∃ due ∈ c.dueAt, due < e.now := fun ⟨due,hdue,hlt⟩ => by
      have := h due hdue
      omega
    exact ⟨hno,fun _ => hno⟩

theorem clockAfter_update (S : Setup) (mt : MetaTable) (e : RecordEvent) (p : SlaPolicy)
    (clock : Option SlaClock) (hev : e.event ≠ .delete) : e.clockAfter S mt p clock =
      match clock with
      | none => if starts p e.event (e.target S mt p) then
          some (opened p (e.keyOf p) (e.target S mt p) e.now) else none
      | some c => some (moved (e.target S mt p) e.now c) := by
  cases hevent : e.event with
  | delete => exact absurd hevent hev
  | create | update => cases clock <;> simp [RecordEvent.clockAfter,advance,hevent]

/-- What a harmless event is, read off the moves of the clock. -/
theorem harmless_iff (S : Setup) (mt : MetaTable) (e : RecordEvent) (p : SlaPolicy)
    (clock : Option SlaClock) (hev : e.event ≠ .delete) :
    QuietPolicy S mt e p clock ↔ Harmless S mt e p clock := by
  rw [quietPolicy_iff S mt e p clock hev,clockAfter_update S mt e p clock hev]
  cases clock with
  | none =>
    cases hstarts : starts p e.event (e.target S mt p) with
    | false => simp [Harmless,hstarts]
    | true =>
      rcases htarget : e.target S mt p with _ | _ | _ | _
      · simp [starts,htarget] at hstarts
      · simp [starts,htarget] at hstarts
      · simp [Harmless,htarget,opened,pause]
      · rw [htarget] at hstarts
        simp [Harmless,htarget,hstarts,opened,start]
  | some c =>
    simp only [Option.some.injEq,forall_eq',exists_eq_left']
    cases hs : c.state with
    | running =>
      rcases htarget : e.target S mt p with _ | _ | _ | _
      · simp [Harmless,htarget,hs,moved,abandon]
      · simp only [Harmless,htarget,hs,moved]
        exact stop_quiet hs (by simp)
      · simp [Harmless,htarget,hs,moved,pause]
      · simp [Harmless,htarget,hs,moved]
    | paused =>
      rcases htarget : e.target S mt p with _ | _ | _ | _
      · simp [Harmless,htarget,hs,moved,abandon]
      · simp only [Harmless,htarget,hs,moved]
        exact stop_quiet hs (by simp)
      · simp [Harmless,htarget,hs,moved]
      · simp [Harmless,htarget,hs,moved,resume]
    | met => simp [Harmless,hs,moved]
    | breached => simp [Harmless,hs,moved]
    | stopped => simp [Harmless,hs,moved]

/-! ### One step and whole runs -/

theorem scope_held {S : Setup} {now : ℤ} {c : SlaClock} {mt : MetaTable}
    (hmt : S.table c.key.tablePhys = some mt) (hheld : S.held mt now = true) : scope S now c = none := by
  simp only [scope,hmt]
  cases S.policy c.key.policyId <;> simp [hheld]

theorem mark_held {S : Setup} {call : SweepCall} {c : SlaClock} {mt : MetaTable}
    (hmt : S.table c.key.tablePhys = some mt) (hheld : S.held mt call.now = true) :
    mark S call c = (c,[]) := by
  simp [mark,scope_held hmt hheld]

theorem chainEffects_wrote {S : Setup} {call : SweepCall} {c : SlaClock} {k : ClockKey} {updates : Values} :
    .wrote k updates ∉ chainEffects S call c := by
  simp only [chainEffects]
  split
  · rename_i c' fx hc
    rcases chain_ok hc with ⟨-,rfl | rfl⟩ | ⟨_,_,_,_,_,_,-,-,rfl⟩ <;> simp
  · simp

/-- The sweep leaves the clocks and records of a held table alone. -/
theorem sweep_holdsOff (S : Setup) (clocks : List SlaClock) (call : SweepCall) :
    HoldsOff S clocks (.sweep call) := by
  rintro phys mt hmt hheld k rfl
  refine ⟨fun c' hc' hs => ?_,fun updates hw => ?_⟩
  · simp only [step,find_sweep] at hc'
    obtain ⟨c,hc,rfl⟩ := Option.map_eq_some_iff.mp hc'
    have hmark : mark S call c = (c,[]) := mark_held (by rw [Keyed.key_of_find hc]; exact hmt) hheld
    refine ⟨c,hc,?_⟩
    simp only [swept,hmark] at hs
    split at hs
    · rwa [chained_state] at hs
    · exact hs
  · obtain ⟨c,-,hmark | hchain⟩ := mem_sweep hw
    · have hkey : k = c.key := mark_effect_key hmark
      rw [mark_held (by rwa [← hkey]) hheld] at hmark
      cases hmark
    · exact absurd hchain chainEffects_wrote

theorem onDelete_breached {now : ℤ} {c : SlaClock} (h : (onDelete now c).state = .breached) :
    c.state = .breached := by
  simp only [onDelete] at h
  split at h
  · exact h
  · cases h

/-- What an event puts out comes from the policies of its table. -/
theorem mem_effects_event {S : Setup} {clocks : List SlaClock} {e : RecordEvent} {mt : MetaTable}
    (hmt : S.table e.phys = some mt) {fx : Effect} : fx ∈ effects S clocks (.event e) ↔
      ∃ p ∈ S.policiesOf mt, fx ∈ e.written S mt p (Keyed.find SlaClock.key (e.keyOf p) clocks) := by
  simp only [effects,runForEvent,hmt]
  exact mem_applyAll (S.policiesOf_nodup mt)

/-- Where the promise is kept, each policy of a held table meets a harmless event. -/
theorem harmless_of_holdsOff {S : Setup} {clocks : List SlaClock} {e : RecordEvent}
    (h : HoldsOff S clocks (.event e)) : HarmlessStep S clocks (.event e) := by
  intro mt hmt hheld hev p hp
  rw [← harmless_iff S mt e p _ hev]
  obtain ⟨hstate,hwritten⟩ := h e.phys mt hmt hheld (e.keyOf p) rfl
  constructor
  · intro c' hc'
    apply hstate
    simp only [step,find_runForEvent,eventPolicy_keyOf hmt hp]
    exact hc'
  · intro updates hw
    exact hwritten updates ((mem_effects_event hmt).mpr ⟨p,hp,hw⟩) p (Setup.policy_of_mem hp)

/-- Harmless events of a held table breach no clock. -/
theorem harmless_state {S : Setup} {clocks : List SlaClock} {e : RecordEvent}
    (h : HarmlessStep S clocks (.event e)) {k : ClockKey} {mt : MetaTable} (hmt : S.table k.tablePhys = some mt)
    (hheld : S.held mt e.now = true) {c' : SlaClock}
    (hc' : Keyed.find SlaClock.key k (step S clocks (.event e)) = some c') (hs : c'.state = .breached) :
    ∃ c, Keyed.find SlaClock.key k clocks = some c ∧ c.state = .breached := by
  simp only [step,find_runForEvent] at hc'
  cases hk : eventPolicy S k e with
  | none =>
    rw [hk] at hc'
    exact ⟨c',hc',hs⟩
  | some mtp =>
    obtain ⟨mt',p⟩ := mtp
    obtain ⟨hmt',hkey,hp,-⟩ := eventPolicy_some hk
    obtain rfl : mt' = mt := by
      rw [← hkey] at hmt
      exact Option.some.inj (hmt'.symm.trans hmt)
    simp only [hk] at hc'
    by_cases hev : e.event = .delete
    · rw [RecordEvent.clockAfter,advance.eq_def,hev] at hc'
      obtain ⟨c,hc,rfl⟩ := Option.map_eq_some_iff.mp hc'
      exact ⟨c,hc,onDelete_breached hs⟩
    · have hquiet := (harmless_iff S mt' e p _ hev).mpr (h mt' hmt' hheld hev p hp)
      rw [hkey] at hquiet
      exact hquiet.1 c' hc' hs

/-- Harmless events of a held table write no token. -/
theorem harmless_token {S : Setup} {clocks : List SlaClock} {e : RecordEvent}
    (h : HarmlessStep S clocks (.event e)) {k : ClockKey} {mt : MetaTable} (hmt : S.table k.tablePhys = some mt)
    (hheld : S.held mt e.now = true) {updates : Values} (hw : .wrote k updates ∈ effects S clocks (.event e))
    {p : SlaPolicy} (hp : S.policy k.policyId = some p) {f : MetaField}
    (hf : fieldOf mt p.stateFieldId = some f) : updates.lookup f.physName ≠ some (.text "breached") := by
  cases hmt' : S.table e.phys with
  | none => simp [effects,runForEvent,hmt'] at hw
  | some mt' =>
    obtain ⟨q,hq,hw⟩ := (mem_effects_event hmt').mp hw
    obtain ⟨rfl,hev,-⟩ := mem_written.mp hw
    obtain rfl : mt' = mt := Option.some.inj (hmt'.symm.trans hmt)
    obtain rfl : q = p := Option.some.inj ((Setup.policy_of_mem hq).symm.trans hp)
    have hquiet := (harmless_iff S mt' e q _ hev).mpr (h mt' hmt' hheld hev q hq)
    exact hquiet.2 updates hw f hf

/-- An event keeps the promise exactly when it is harmless to every policy of a held table. -/
theorem event_holdsOff_iff (S : Setup) (clocks : List SlaClock) (e : RecordEvent) :
    HoldsOff S clocks (.event e) ↔ HarmlessStep S clocks (.event e) := by
  constructor
  · exact harmless_of_holdsOff
  · rintro h phys mt hmt hheld k rfl
    exact ⟨fun c' hc' hs => harmless_state h hmt hheld hc' hs,
      fun updates hw p hp f hf => harmless_token h hmt hheld hw hp hf⟩

/-- A run holds breaches off exactly when each of its events in a window is harmless. -/
theorem holdsOff_exec_iff (S : Setup) (clocks : List SlaClock) (inputs : List Input) :
    Meets (step S) (HoldsOff S) clocks inputs ↔ Meets (step S) (HarmlessStep S) clocks inputs := by
  refine meets_congr (fun _ => True) (fun _ _ _ => trivial) (fun db i _ => ?_) trivial inputs
  cases i with
  | event e => exact event_holdsOff_iff S db e
  | sweep call => exact iff_of_true (sweep_holdsOff S db call) trivial

/-! ### A ticket closed in a window -/

def plannedWork : MaintenanceWindow := ⟨none,seconds 100,seconds 1000⟩

def maintained : Setup := { answering with windows := [plannedWork] }

def closedInWindow : List Input := [ticketEvent .create "open" 0,ticketEvent .update "closed" 200]

/-- Closing the overdue ticket marks it breached in spite of the window. -/
theorem exec_not_holdsOff : ¬Meets (step maintained) (HoldsOff maintained) [] closedInWindow := by
  intro h
  have hlast := h.2.1 "tickets" tickets rfl (by decide) ticketKey rfl
  obtain ⟨c,hc,hs⟩ := hlast.1 _ rfl rfl
  have hrunning : ClockState.running = c.state := congrArg SlaClock.state (Option.some.inj hc)
  rw [← hrunning] at hs
  cases hs

end Sla
end Biggy
