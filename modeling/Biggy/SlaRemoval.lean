import Biggy.SlaIsolation

/-!
# Removed records

`remove` fires a delete event, which stops the running and paused clocks of the record
under the active policies of its table. A breached clock stays breached, and the sweep
does not ask whether the record of a clock is still there. `Silent` clocks are those no
sweep ever acts on; a record is removed cleanly when it is left with silent clocks.
-/
namespace Biggy
namespace Sla

open Run

/-- `_pk_value` of a key given as a text, by whether the key column holds integers. -/
def pkValue (py : PyLib) (integer : Bool) (pk : String) : Value :=
  if integer then (match py.int pk with | some n => .int n | none => .text pk) else .text pk

/-- The clocks, and the records that are removed and have not come back. -/
structure Store where
  clocks : List SlaClock
  removed : List (String × Value)

/-- A record event or a sweep, or a record that is taken back from the trash. -/
inductive Op
  | clock (i : Input)
  | restore (phys rowPk : String)

/-- A breach mark, a write-back or an escalation. -/
def Effect.active : Effect → Bool
  | .failed _ => false
  | .wrote _ _ | .marked _ _ | .escalated _ _ | .fired _ _ _ _ _ _ => true

section Store

variable (S : Setup) (integerKey : String → Bool)

/-- The record that a key given as a text names. -/
def recordOf (phys rowPk : String) : String × Value := (phys,pkValue S.py (integerKey phys) rowPk)

def removedAfter (removed : List (String × Value)) : Op → List (String × Value)
  | .clock (.event e) =>
    match e.event with
    | .create => removed.filter (· ≠ recordOf S integerKey e.phys e.rowPk)
    | .update => removed
    | .delete => recordOf S integerKey e.phys e.rowPk :: removed
  | .clock (.sweep _) => removed
  | .restore phys rowPk => removed.filter (· ≠ recordOf S integerKey phys rowPk)

def clocksAfter (clocks : List SlaClock) : Op → List SlaClock
  | .clock i => step S clocks i
  | .restore _ _ => clocks

def storeStep (st : Store) (op : Op) : Store where
  clocks := clocksAfter S st.clocks op
  removed := removedAfter S integerKey st.removed op

/-- A sweep does nothing for a record that is removed. -/
def AtRest (st : Store) : Op → Prop
  | .clock (.sweep call) => ∀ fx ∈ (sweep S call st.clocks).2.1, fx.active = true →
      recordOf S integerKey fx.key.tablePhys fx.key.rowPk ∉ st.removed
  | _ => True

/-- The chain has a next level, with a due time and with members a notice can be built from. -/
def NextLevel (p : SlaPolicy) (c : SlaClock) : Prop :=
  ∃ breachedAt levels level after due, c.breachedAt = some breachedAt ∧ escalationLevels S.py p = .ok levels ∧
    levels[c.escalationLevel]? = some level ∧ afterMinutes S.py level = .ok after ∧
    chainDue breachedAt after = .ok due ∧ Sendable level

/-- No sweep has anything to do for the clock. -/
def Silent (c : SlaClock) : Prop :=
  ∀ p mt, S.policy c.key.policyId = some p → S.table c.key.tablePhys = some mt →
    match c.state with
    | .running => c.dueAt = none ∧ fieldOf mt p.stateFieldId = none ∧ fieldOf mt p.dueFieldId = none
    | .breached => ¬NextLevel S p c
    | .paused | .met | .stopped => True

/-- The delete handler finds the clock: an active policy of the table, and the key in the same spelling. -/
def Found (e : RecordEvent) (c : SlaClock) : Prop :=
  ∃ mt p, S.table e.phys = some mt ∧ p ∈ S.policiesOf mt ∧ c.key = e.keyOf p

/-- An update of a record that is not there sets no clock going and ends none late. -/
def Idle (mt : MetaTable) (e : RecordEvent) (p : SlaPolicy) : Option SlaClock → Prop
  | none => starts p e.event (e.target S mt p) = true → e.target S mt p ≠ some .run
  | some c => c.state = .paused → e.target S mt p ≠ some .run ∧
      (e.target S mt p = some .stop → ∀ due ∈ c.dueAt, e.now ≤ due)

/-- The condition on one step: a removal finds no clock that goes on, and later updates
of the record do not set one going. -/
def RemovedCleanly (st : Store) : Op → Prop
  | .clock (.event e) =>
    match e.event with
    | .create => True
    | .update => recordOf S integerKey e.phys e.rowPk ∈ st.removed → ∀ mt, S.table e.phys = some mt →
        ∀ p ∈ S.policiesOf mt, Idle S mt e p (Keyed.find SlaClock.key (e.keyOf p) st.clocks)
    | .delete => ∀ c ∈ st.clocks,
        recordOf S integerKey c.key.tablePhys c.key.rowPk = recordOf S integerKey e.phys e.rowPk →
          Silent S c ∨ c.state = .running ∧ Found S e c
  | .clock (.sweep _) | .restore _ _ => True

end Store

/-! ### Silent clocks -/

section Silent

variable {S : Setup} {c : SlaClock}

theorem silent_still (h : c.state = .paused ∨ c.state = .met ∨ c.state = .stopped) : Silent S c := by
  intro p mt _ _
  rcases h with h | h | h <;> simp [h]

theorem writeback_none {warn : ℤ} {p : SlaPolicy} {mt : MetaTable} {now : ℤ}
    (hstate : fieldOf mt p.stateFieldId = none) (hdue : fieldOf mt p.dueFieldId = none) :
    writeback warn p mt now c = [] := by
  simp [writeback,tokenUpdate,dueUpdate,hstate,hdue,Values.update]

theorem silent_mark (h : Silent S c) (call : SweepCall) :
    (mark S call c).1 = c ∧ ∀ fx ∈ (mark S call c).2, fx.active = false := by
  by_cases hs : c.state = .running
  · cases hscope : scope S call.now c with
    | none => simp [mark,hscope]
    | some pm =>
      obtain ⟨p,mt⟩ := pm
      obtain ⟨hp,hmt,-⟩ := scope_some hscope
      have hquiet := h p mt hp hmt
      simp only [hs] at hquiet
      obtain ⟨hdue,hstate,hfield⟩ := hquiet
      have hno : overdue call.now c = false := by simp [overdue,hdue]
      cases hf : call.markFault c.key with
      | none => simp [mark,hs,hscope,hf,hno,breachEffects,writeback_none hstate hfield,writes]
      | some stage => cases stage <;> simp [mark,hs,hscope,hf,hno,breachEffects,Effect.active]
  · simp [mark,hs]

theorem Fires.nextLevel {call : SweepCall} {p : SlaPolicy} {mt : MetaTable} {level : List (String × Json)}
    {breachedAt after : ℤ} {notices : List Notice} (h : Fires S call c p mt level breachedAt after notices) :
    NextLevel S p c := by
  obtain ⟨levels,hlevels,hlevel⟩ := h.next
  obtain ⟨due,hdue,-⟩ := h.due
  exact ⟨breachedAt,levels,level,after,due,h.since,hlevels,hlevel,h.wait,hdue,
    (fireEscalation_ok S mt c.key (call.row c.key) level).mp ⟨notices,h.sent⟩⟩

theorem silent_chain (h : Silent S c) (call : SweepCall) :
    chained S call c = c ∧ ∀ fx ∈ chainEffects S call c, fx.active = false := by
  simp only [chained,chainEffects]
  cases hc : chain S call c with
  | error e => simp
  | ok r =>
    obtain ⟨c',fx⟩ := r
    rcases chain_ok hc with ⟨rfl,rfl | rfl⟩ | ⟨p,mt,level,breachedAt,after,notices,hfires,-,-⟩
    · simp
    · simp [Effect.active]
    · obtain ⟨hp,hmt,-⟩ := scope_some hfires.inScope
      have hquiet := h p mt hp hmt
      simp only [hfires.state] at hquiet
      exact absurd hfires.nextLevel hquiet

/-- A sweep leaves a silent clock as it is. -/
theorem silent_swept (h : Silent S c) (call : SweepCall) (reached : Bool) :
    swept S call reached c = c ∧ ∀ fx ∈ sweptEffects S call reached c, fx.active = false := by
  obtain ⟨hmark,hmarked⟩ := silent_mark h call
  obtain ⟨hchain,hchained⟩ := silent_chain h call
  refine ⟨?_,fun fx hfx => ?_⟩
  · simp only [swept,hmark,hchain]
    split <;> rfl
  · rcases List.mem_append.mp hfx with hfx | hfx
    · exact hmarked fx hfx
    · split at hfx
      · exact hchained fx (hmark ▸ hfx)
      · cases hfx

/-- An idle update leaves a silent clock silent. -/
theorem silent_moved {mt : MetaTable} {e : RecordEvent} {p : SlaPolicy} (h : Silent S c)
    (hp : S.policy c.key.policyId = some p) (hmt : S.table c.key.tablePhys = some mt)
    (hidle : Idle S mt e p (some c)) : Silent S (moved (e.target S mt p) e.now c) := by
  have hquiet := h p mt hp hmt
  cases hs : c.state with
  | running =>
    simp only [hs] at hquiet
    have hstop : (stop e.now c).state = .met := by simp [stop,stopsLate,hs,hquiet.1]
    rcases htarget : e.target S mt p with _ | _ | _ | _ <;> simp only [moved,hs]
    · exact silent_still (Or.inr (Or.inr rfl))
    · exact silent_still (Or.inr (Or.inl hstop))
    · exact silent_still (Or.inl rfl)
    · exact h
  | paused =>
    obtain ⟨hrun,hlate⟩ := hidle hs
    rcases htarget : e.target S mt p with _ | _ | _ | _ <;> simp only [moved,hs]
    · exact silent_still (Or.inr (Or.inr rfl))
    · have hdue := hlate htarget
      have hstop : (stop e.now c).state = .met := by
        cases hd : c.dueAt with
        | none => simp [stop,stopsLate,hs,hd]
        | some due => simpa [stop,stopsLate,hs,hd] using hdue due hd
      exact silent_still (Or.inr (Or.inl hstop))
    · exact h
    · exact absurd htarget hrun
  | met | breached | stopped => simpa [moved,hs] using h

/-- After an idle update the clock of a policy is silent, whether it was there before or not. -/
theorem silent_update {mt : MetaTable} {e : RecordEvent} {p : SlaPolicy} {clock : Option SlaClock} {c' : SlaClock}
    (hev : e.event = .update) (hp : S.policy p.id = some p) (hmt : S.table e.phys = some mt)
    (hclock : ∀ c, clock = some c → c.key = e.keyOf p ∧ Silent S c) (hidle : Idle S mt e p clock)
    (hafter : e.clockAfter S mt p clock = some c') : Silent S c' := by
  rw [RecordEvent.clockAfter,hev] at hafter
  cases hc : clock with
  | none =>
    rw [hc] at hafter hidle
    simp only [advance] at hafter
    split at hafter
    · rename_i hstarts
      have hrun : e.target S mt p ≠ some .run := hidle (hev ▸ hstarts)
      have hpause : e.target S mt p = some .pause := by
        rcases htarget : e.target S mt p with _ | _ | _ | _ <;> simp [starts,htarget] at hstarts hrun ⊢
      rw [← Option.some.inj hafter]
      apply silent_still
      exact Or.inl (by simp [opened,hpause,pause])
    · cases hafter
  | some c =>
    rw [hc] at hafter hidle
    obtain ⟨hkey,hsilent⟩ := hclock c hc
    have hpolicy : S.policy c.key.policyId = some p := by
      rw [hkey]
      exact hp
    have htable : S.table c.key.tablePhys = some mt := by
      rw [hkey]
      exact hmt
    rw [← Option.some.inj hafter]
    exact silent_moved hsilent hpolicy htable hidle

/-- The delete handler leaves a silent clock, or a running one it finds, silent. -/
theorem silent_onDelete {now : ℤ} (h : Silent S c ∨ c.state = .running) : Silent S (onDelete now c) := by
  simp only [onDelete]
  split
  · rename_i hterm
    exact h.resolve_right fun hs => by simp [hs,ClockState.terminal] at hterm
  · exact silent_still (Or.inr (Or.inr rfl))

/-- A call in which nothing fails. -/
def smoothSweep (now : ℤ) : SweepCall where
  now := now
  row := fun _ _ => .null
  markFault := fun _ => none
  fireFault := fun _ => false

/-- Every window ends, so there are times at which no table is held. -/
theorem exists_unheld (S : Setup) (t : ℤ) : ∃ now, t ≤ now ∧ ∀ mt, S.held mt now = false := by
  have hend : ∃ b, t ≤ b ∧ ∀ w ∈ S.windows, w.endsAt ≤ b := by
    induction S.windows with
    | nil => exact ⟨t,Int.le_refl t,by simp⟩
    | cons w ws ih =>
      obtain ⟨b,ht,hb⟩ := ih
      refine ⟨max b w.endsAt,by omega,fun v hv => ?_⟩
      rcases List.mem_cons.mp hv with rfl | hv
      · omega
      · have := hb v hv
        omega
  obtain ⟨b,ht,hb⟩ := hend
  refine ⟨b,ht,fun mt => ?_⟩
  simp only [Setup.held,Maintenance.isActive,List.any_eq_false,Maintenance.covers,Bool.and_eq_true,
    decide_eq_true_eq,not_and]
  intro w hw hcover
  have := hb w hw
  omega

theorem writeback_cons {warn : ℤ} {p : SlaPolicy} {mt : MetaTable} {now : ℤ} (hs : c.state = .running)
    (h : ¬(fieldOf mt p.stateFieldId = none ∧ fieldOf mt p.dueFieldId = none)) : writeback warn p mt now c ≠ [] := by
  intro hnil
  have hnone : ∀ column, (writeback warn p mt now c).lookup column = none := by simp [hnil]
  simp only [writeback,Values.lookup_update] at hnone
  cases hdue : fieldOf mt p.dueFieldId with
  | some g => simpa [dueUpdate,hdue] using hnone g.physName
  | none =>
    cases hstate : fieldOf mt p.stateFieldId with
    | none => exact h ⟨hstate,hdue⟩
    | some f =>
      have htoken : ∃ token, stateToken warn p now c = some token := by
        simp only [stateToken,hs]
        split
        · exact ⟨_,rfl⟩
        · split
          · exact ⟨_,rfl⟩
          · split <;> exact ⟨_,rfl⟩
      obtain ⟨token,htoken⟩ := htoken
      simpa [dueUpdate,hdue,tokenUpdate,hstate,htoken] using hnone f.physName

/-- A clock is silent exactly when no sweep, whenever it comes, does anything for it. -/
theorem silent_iff (S : Setup) (c : SlaClock) : Silent S c ↔
    ∀ call reached, ∀ fx ∈ sweptEffects S call reached c, fx.active = false := by
  refine ⟨fun h call reached => (silent_swept h call reached).2,fun h p mt hp hmt => ?_⟩
  have hscope : ∀ now, S.held mt now = false → scope S now c = some (p,mt) := fun now hheld => by
    simp [scope,hp,hmt,hheld]
  cases hs : c.state with
  | running =>
    cases hdue : c.dueAt with
    | some due =>
      obtain ⟨now,hnow,hheld⟩ := exists_unheld S due
      have hmarked : Effect.marked c.key now ∈ sweptEffects S (smoothSweep now) false c := by
        simp [sweptEffects,mark,hs,smoothSweep,hscope now (hheld mt),overdue,hdue,hnow]
      cases h (smoothSweep now) false _ hmarked
    | none =>
      refine ⟨rfl,?_⟩
      by_contra hfield
      obtain ⟨now,-,hheld⟩ := exists_unheld S 0
      have hwrote : Effect.wrote c.key (writeback S.defaultWarn p mt now c) ∈
          sweptEffects S (smoothSweep now) false c := by
        simp [sweptEffects,mark,hs,smoothSweep,hscope now (hheld mt),overdue,hdue,breachEffects,writes,
          writeback_cons hs hfield]
      cases h (smoothSweep now) false _ hwrote
  | breached =>
    rintro ⟨breachedAt,levels,level,after,due,hat,hlevels,hlevel,hafter,hdue,hsend⟩
    obtain ⟨now,hnow,hheld⟩ := exists_unheld S due
    obtain ⟨notices,hnotices⟩ := (fireEscalation_ok S mt c.key (fun _ => .null) level).mpr hsend
    have hfired : Effect.fired c.key c.escalationLevel breachedAt after now notices ∈
        sweptEffects S (smoothSweep now) true c := by
      have hwait : ¬now < due := by omega
      simp [sweptEffects,mark,hs,smoothSweep,chainEffects,chain,hscope now (hheld mt),hat,hlevels,hlevel,hafter,
        hdue,hwait,hnotices]
    cases h (smoothSweep now) true _ hfired
  | paused | met | stopped => trivial

end Silent
/-! ### One step and whole runs -/

section Runs

variable {S : Setup} {integerKey : String → Bool}

/-- Every clock of a removed record is silent. -/
structure Resting (S : Setup) (integerKey : String → Bool) (st : Store) : Prop where
  keysNodup : (st.clocks.map SlaClock.key).Nodup
  silent : ∀ c ∈ st.clocks, recordOf S integerKey c.key.tablePhys c.key.rowPk ∈ st.removed → Silent S c

/-- A clock behind an event is untouched or comes from `_apply` for its policy. -/
theorem mem_event {clocks : List SlaClock} {e : RecordEvent} {c' : SlaClock}
    (hkeys : (clocks.map SlaClock.key).Nodup) (h : c' ∈ step S clocks (.event e)) :
    c' ∈ clocks ∧ eventPolicy S c'.key e = none ∨
      ∃ mt p, eventPolicy S c'.key e = some (mt,p) ∧
        e.clockAfter S mt p (Keyed.find SlaClock.key c'.key clocks) = some c' := by
  have hfind := Keyed.find_of_mem (step_nodup S clocks (.event e) hkeys) h
  simp only [step,find_runForEvent] at hfind
  cases hk : eventPolicy S c'.key e with
  | none =>
    rw [hk] at hfind
    exact Or.inl ⟨Keyed.mem_of_find hfind,rfl⟩
  | some mtp =>
    rw [hk] at hfind
    exact Or.inr ⟨mtp.1,mtp.2,rfl,hfind⟩

/-- A clock the delete handler finds has a policy that takes it through `_apply`. -/
theorem eventPolicy_found {e : RecordEvent} {c : SlaClock} (h : Found S e c) :
    eventPolicy S c.key e ≠ none := by
  obtain ⟨mt,p,hmt,hp,hkey⟩ := h
  rw [hkey,eventPolicy_keyOf hmt hp]
  simp

theorem sweep_resting {st : Store} {call : SweepCall} (h : Resting S integerKey st) :
    Resting S integerKey (storeStep S integerKey st (.clock (.sweep call))) where
  keysNodup := step_nodup S st.clocks (.sweep call) h.keysNodup
  silent c' hc' hremoved := by
    have hfind := Keyed.find_of_mem (step_nodup S st.clocks (.sweep call) h.keysNodup) hc'
    simp only [step,find_sweep] at hfind
    obtain ⟨c,hc,hswept⟩ := Option.map_eq_some_iff.mp hfind
    have hsilent : Silent S c := h.silent c (Keyed.mem_of_find hc) (by rwa [Keyed.key_of_find hc])
    rw [← hswept,(silent_swept hsilent call _).1]
    exact hsilent

/-- The record of a clock that `_apply` takes is the record of the event. -/
theorem recordOf_event {k : ClockKey} {e : RecordEvent} {mt : MetaTable} {p : SlaPolicy}
    (h : eventPolicy S k e = some (mt,p)) :
    recordOf S integerKey k.tablePhys k.rowPk = recordOf S integerKey e.phys e.rowPk := by
  obtain ⟨-,hkey,-⟩ := eventPolicy_some h
  rw [← hkey]
  rfl

/-- A clock that no policy takes through `_apply` is silent if its record is removed. -/
theorem silent_untouched {st : Store} {e : RecordEvent} (h : Resting S integerKey st)
    (hok : RemovedCleanly S integerKey st (.clock (.event e))) {c : SlaClock} (hc : c ∈ st.clocks)
    (hk : eventPolicy S c.key e = none)
    (hremoved : recordOf S integerKey c.key.tablePhys c.key.rowPk ∈
      removedAfter S integerKey st.removed (.clock (.event e))) : Silent S c := by
  cases hev : e.event with
  | create =>
    simp only [removedAfter,hev,List.mem_filter] at hremoved
    exact h.silent c hc hremoved.1
  | update =>
    simp only [removedAfter,hev] at hremoved
    exact h.silent c hc hremoved
  | delete =>
    simp only [removedAfter,hev,List.mem_cons] at hremoved
    simp only [RemovedCleanly,hev] at hok
    rcases hremoved with hsame | hremoved
    · have hleft := hok c hc hsame
      exact hleft.resolve_right fun hfound => eventPolicy_found hfound.2 hk
    · exact h.silent c hc hremoved

/-- A clock that comes out of `_apply` is silent if its record is removed. -/
theorem silent_applied {st : Store} {e : RecordEvent} (h : Resting S integerKey st)
    (hok : RemovedCleanly S integerKey st (.clock (.event e))) {k : ClockKey} {c' : SlaClock} {mt : MetaTable}
    {p : SlaPolicy} (hk : eventPolicy S k e = some (mt,p))
    (hafter : e.clockAfter S mt p (Keyed.find SlaClock.key k st.clocks) = some c')
    (hremoved : recordOf S integerKey k.tablePhys k.rowPk ∈
      removedAfter S integerKey st.removed (.clock (.event e))) : Silent S c' := by
  have hsame : recordOf S integerKey k.tablePhys k.rowPk = recordOf S integerKey e.phys e.rowPk :=
    recordOf_event hk
  obtain ⟨hmt,hkey,hp,hpolicy⟩ := eventPolicy_some hk
  cases hev : e.event with
  | create =>
    simp only [removedAfter,hev,List.mem_filter] at hremoved
    simp [hsame] at hremoved
  | update =>
    simp only [removedAfter,hev] at hremoved
    simp only [RemovedCleanly,hev] at hok
    have hidle := hok (hsame ▸ hremoved) mt hmt p hp
    rw [hkey] at hidle
    have hid : S.policy p.id = some p := by
      rw [← hkey] at hpolicy
      exact hpolicy
    refine silent_update hev hid hmt (fun c hc => ?_) hidle hafter
    have hck : c.key = k := Keyed.key_of_find hc
    exact ⟨hck.trans hkey.symm,h.silent c (Keyed.mem_of_find hc) (by rwa [hck])⟩
  | delete =>
    simp only [RemovedCleanly,hev] at hok
    rw [RecordEvent.clockAfter,hev] at hafter
    obtain ⟨c,hc,rfl⟩ := Option.map_eq_some_iff.mp hafter
    have hck : c.key = k := Keyed.key_of_find hc
    have hleft := hok c (Keyed.mem_of_find hc) (by rwa [hck])
    apply silent_onDelete
    exact hleft.imp_right And.left

theorem event_resting {st : Store} {e : RecordEvent} (h : Resting S integerKey st)
    (hok : RemovedCleanly S integerKey st (.clock (.event e))) :
    Resting S integerKey (storeStep S integerKey st (.clock (.event e))) where
  keysNodup := step_nodup S st.clocks (.event e) h.keysNodup
  silent c' hc' hremoved := by
    rcases mem_event h.keysNodup hc' with ⟨hc,hk⟩ | ⟨mt,p,hk,hafter⟩
    · exact silent_untouched h hok hc hk hremoved
    · exact silent_applied h hok hk hafter hremoved

theorem storeStep_resting (st : Store) (op : Op) (h : Resting S integerKey st)
    (hok : RemovedCleanly S integerKey st op) : Resting S integerKey (storeStep S integerKey st op) := by
  match op with
  | .clock (.event e) => exact event_resting h hok
  | .clock (.sweep call) => exact sweep_resting h
  | .restore phys rowPk =>
    exact ⟨h.keysNodup,fun c hc hremoved => h.silent c hc (List.mem_filter.mp hremoved).1⟩

theorem resting_atRest (st : Store) (op : Op) (h : Resting S integerKey st) : AtRest S integerKey st op := by
  match op with
  | .clock (.event e) => trivial
  | .restore phys rowPk => trivial
  | .clock (.sweep call) =>
    intro fx hfx hactive hremoved
    obtain ⟨c,hc,hmark | hchain⟩ := mem_sweep hfx
    · have hsilent := h.silent c hc (by rwa [← mark_effect_key hmark])
      exact absurd ((silent_mark hsilent call).2 fx hmark) (by simp [hactive])
    · have hkey : fx.key = c.key := (chainEffects_key hchain).trans (mark_key S call c)
      have hsilent := h.silent c hc (by rwa [← hkey])
      rw [(silent_mark hsilent call).1] at hchain
      exact absurd ((silent_chain hsilent call).2 fx hchain) (by simp [hactive])

end Runs

/-! ### A ticket that is removed with a level to go -/

def noClocks : ClockTable where
  rows := []
  keysNodup := List.nodup_nil

def removedInTime : List Op :=
  [.clock (ticketEvent .create "open" 0),.clock (ticketEvent .delete "open" 30),.clock (sweepAt 600)]

def removedBreached : List Op :=
  [.clock (ticketEvent .create "open" 0),.clock (sweepAt 60),.clock (ticketEvent .delete "open" 100),
    .clock (sweepAt 600)]

end Sla
end Biggy
