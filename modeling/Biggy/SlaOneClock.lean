import Biggy.Sla

/-!
# One clock of the table

A step acts on each clock by its own key: a record event through the policy of the
key, a sweep through the body of its two loops. `find_runForEvent` and `find_sweep`
say what becomes of one clock, `own_sweep` what is put out for it.
-/
namespace Biggy
namespace Sla

open Run

theorem mem_writes {key : ClockKey} {updates : Values} {fx : Effect} (h : fx ∈ writes key updates) :
    fx = .wrote key updates := by
  simp only [writes] at h
  split at h
  · cases h
  · exact List.mem_singleton.mp h

@[simp] theorem mark_key (S : Setup) (call : SweepCall) (clock : SlaClock) :
    (mark S call clock).1.key = clock.key := by
  simp only [mark]
  split
  · rfl
  · split
    · rfl
    · split
      · rfl
      · rfl
      · by_cases h : overdue call.now clock <;> simp [h,breach]

theorem scope_some {S : Setup} {now : ℤ} {clock : SlaClock} {policy : SlaPolicy} {mt : MetaTable}
    (h : scope S now clock = some (policy,mt)) : S.policy clock.key.policyId = some policy ∧
      S.table clock.key.tablePhys = some mt ∧ S.held mt now = false := by
  simp only [scope] at h
  split at h
  · rename_i p mt' hp hmt
    cases hheld : S.held mt' now with
    | true => simp [hheld] at h
    | false =>
      simp only [hheld,Bool.false_eq_true,if_false,Option.some.injEq,Prod.mk.injEq] at h
      exact ⟨hp.trans (congrArg some h.1),hmt.trans (congrArg some h.2),h.2 ▸ hheld⟩
  · cases h

/-- The clock once its next level is out. -/
def climb (now : ℤ) (clock : SlaClock) : SlaClock :=
  { clock with escalationLevel := clock.escalationLevel+1, updatedAt := now }

/-- The second loop gets the next level of a clock out. -/
structure Fires (S : Setup) (call : SweepCall) (clock : SlaClock) (policy : SlaPolicy) (mt : MetaTable)
    (level : List (String × Json)) (breachedAt after : ℤ) (notices : List Notice) : Prop where
  state : clock.state = .breached
  inScope : scope S call.now clock = some (policy,mt)
  since : clock.breachedAt = some breachedAt
  next : ∃ levels, escalationLevels S.py policy = .ok levels ∧ levels[clock.escalationLevel]? = some level
  wait : afterMinutes S.py level = .ok after
  due : ∃ due, chainDue breachedAt after = .ok due ∧ due ≤ call.now
  sent : fireEscalation S mt clock.key (call.row clock.key) level = .ok notices

/-- Everything the second loop can do to one clock. -/
theorem chain_ok {S : Setup} {call : SweepCall} {clock clock' : SlaClock} {fx : List Effect}
    (h : chain S call clock = .ok (clock',fx)) :
    clock' = clock ∧ (fx = [] ∨ fx = [.failed clock.key]) ∨
      ∃ policy mt level breachedAt after notices, Fires S call clock policy mt level breachedAt after notices ∧
        clock' = climb call.now clock ∧
        fx = [.fired clock.key clock.escalationLevel breachedAt after call.now notices] := by
  simp only [chain] at h
  split at h
  · cases h
    exact Or.inl ⟨rfl,Or.inl rfl⟩
  · rename_i hstate
    split at h
    · rename_i policy mt breachedAt hscope hat
      split at h
      · cases h
      · rename_i levels hlevels
        split at h
        · cases h
          exact Or.inl ⟨rfl,Or.inl rfl⟩
        · rename_i level hlevel
          split at h
          · cases h
          · rename_i after hafter
            split at h
            · cases h
            · rename_i due hdue
              split at h
              · cases h
                exact Or.inl ⟨rfl,Or.inl rfl⟩
              · rename_i hnow
                split at h
                · cases h
                  exact Or.inl ⟨rfl,Or.inr rfl⟩
                · split at h
                  · cases h
                    exact Or.inl ⟨rfl,Or.inr rfl⟩
                  · rename_i notices hnotices
                    cases h
                    exact Or.inr ⟨policy,mt,level,breachedAt,after,notices,⟨by simpa using hstate,hscope,hat,
                      ⟨levels,hlevels,hlevel⟩,hafter,⟨due,hdue,by omega⟩,hnotices⟩,rfl,rfl⟩
    · cases h
      exact Or.inl ⟨rfl,Or.inl rfl⟩

theorem chain_key {S : Setup} {call : SweepCall} {clock clock' : SlaClock} {fx : List Effect}
    (h : chain S call clock = .ok (clock',fx)) : clock'.key = clock.key := by
  rcases chain_ok h with ⟨rfl,-⟩ | ⟨_,_,_,_,_,_,-,rfl,-⟩ <;> rfl

theorem Setup.policiesOf_nodup (S : Setup) (mt : MetaTable) : ((S.policiesOf mt).map SlaPolicy.id).Nodup :=
  Keyed.nodup_filter _ S.idsNodup

theorem Setup.policy_of_mem {S : Setup} {mt : MetaTable} {p : SlaPolicy} (hp : p ∈ S.policiesOf mt) :
    S.policy p.id = some p :=
  Keyed.find_of_mem S.idsNodup (List.mem_filter.mp hp).1

/-- The policy of a key, when the event takes the clock of that key through `_apply`. -/
def eventPolicy (S : Setup) (k : ClockKey) (e : RecordEvent) : Option (MetaTable × SlaPolicy) :=
  if e.phys = k.tablePhys ∧ e.rowPk = k.rowPk then
    match S.table e.phys with
    | none => none
    | some mt => (Keyed.find SlaPolicy.id k.policyId (S.policiesOf mt)).map fun p => (mt,p)
  else none

theorem eventPolicy_some {S : Setup} {k : ClockKey} {e : RecordEvent} {mt : MetaTable} {p : SlaPolicy}
    (h : eventPolicy S k e = some (mt,p)) : S.table e.phys = some mt ∧ e.keyOf p = k ∧
      p ∈ S.policiesOf mt ∧ S.policy k.policyId = some p := by
  simp only [eventPolicy] at h
  split at h
  · rename_i hkey
    split at h
    · cases h
    · rename_i mt' hmt
      obtain ⟨p',hp,heq⟩ := Option.map_eq_some_iff.mp h
      cases heq
      have hid : p.id = k.policyId := Keyed.key_of_find hp
      have hmem : p ∈ S.policiesOf mt := Keyed.mem_of_find hp
      refine ⟨hmt,?_,hmem,hid ▸ Setup.policy_of_mem hmem⟩
      simp [RecordEvent.keyOf,hkey.1,hkey.2,hid]
  · cases h

/-- Every active policy of the table takes its own clock through `_apply`. -/
theorem eventPolicy_keyOf {S : Setup} {e : RecordEvent} {mt : MetaTable} {p : SlaPolicy}
    (hmt : S.table e.phys = some mt) (hp : p ∈ S.policiesOf mt) : eventPolicy S (e.keyOf p) e = some (mt,p) := by
  have hfind : Keyed.find SlaPolicy.id p.id (S.policiesOf mt) = some p :=
    Keyed.find_of_mem (S.policiesOf_nodup mt) hp
  simp [eventPolicy,RecordEvent.keyOf,hmt,hfind]

theorem clockAfter_key {S : Setup} {mt : MetaTable} {e : RecordEvent} {p : SlaPolicy}
    {clocks : List SlaClock} {c : SlaClock}
    (h : e.clockAfter S mt p (Keyed.find SlaClock.key (e.keyOf p) clocks) = some c) : c.key = e.keyOf p :=
  advance_key (fun _ => Keyed.key_of_find) h

theorem applyAll_other {S : Setup} {mt : MetaTable} {e : RecordEvent} {k : ClockKey}
    {policies : List SlaPolicy} (h : ∀ p ∈ policies, e.keyOf p ≠ k) (clocks : List SlaClock) :
    Keyed.find SlaClock.key k (applyAll S mt e policies clocks).1 = Keyed.find SlaClock.key k clocks := by
  induction policies generalizing clocks with
  | nil => rfl
  | cons p policies ih =>
    simp only [applyAll]
    rw [ih fun q hq => h q (List.mem_cons_of_mem p hq)]
    split
    · rfl
    · rename_i c hc
      exact Keyed.find_put_other (by rw [clockAfter_key hc]; exact h p List.mem_cons_self) clocks

/-- Each policy of the list takes its own clock one step. -/
theorem applyAll_own {S : Setup} {mt : MetaTable} {e : RecordEvent} {policies : List SlaPolicy}
    (hids : (policies.map SlaPolicy.id).Nodup) {p : SlaPolicy} (hp : p ∈ policies) (clocks : List SlaClock) :
    Keyed.find SlaClock.key (e.keyOf p) (applyAll S mt e policies clocks).1 =
      e.clockAfter S mt p (Keyed.find SlaClock.key (e.keyOf p) clocks) := by
  have hne : ∀ {q : SlaPolicy}, q.id ≠ p.id → e.keyOf q ≠ e.keyOf p := fun hq heq =>
    hq (congrArg ClockKey.policyId heq)
  induction policies generalizing clocks with
  | nil => simp at hp
  | cons q policies ih =>
    simp only [List.map_cons,List.nodup_cons,List.mem_map,not_exists,not_and] at hids
    simp only [applyAll]
    rcases List.mem_cons.mp hp with rfl | hp
    · rw [applyAll_other fun r hr => hne (hids.1 r hr)]
      cases hc : e.clockAfter S mt p (Keyed.find SlaClock.key (e.keyOf p) clocks) with
      | none =>
        cases hf : Keyed.find SlaClock.key (e.keyOf p) clocks with
        | none => rfl
        | some c =>
          rw [hf] at hc
          cases he : e.event <;> simp [RecordEvent.clockAfter,advance,he] at hc
      | some c =>
        have hkey := clockAfter_key hc
        rw [← hkey]
        exact Keyed.find_put_self c clocks
    · rw [ih hids.2 hp]
      have hq : e.keyOf q ≠ e.keyOf p := hne fun h => hids.1 p hp h.symm
      split
      · rfl
      · rename_i c hc
        rw [Keyed.find_put_other (by rw [clockAfter_key hc]; exact hq)]

/-- What an event puts out comes from the policies, each at its own clock. -/
theorem mem_applyAll {S : Setup} {mt : MetaTable} {e : RecordEvent} {policies : List SlaPolicy}
    (hids : (policies.map SlaPolicy.id).Nodup) {clocks : List SlaClock} {fx : Effect} :
    fx ∈ (applyAll S mt e policies clocks).2 ↔
      ∃ p ∈ policies, fx ∈ e.written S mt p (Keyed.find SlaClock.key (e.keyOf p) clocks) := by
  induction policies generalizing clocks with
  | nil => simp [applyAll]
  | cons q policies ih =>
    simp only [List.map_cons,List.nodup_cons,List.mem_map,not_exists,not_and] at hids
    simp only [applyAll,List.mem_append,ih hids.2,List.mem_cons,exists_eq_or_imp]
    refine or_congr_right (exists_congr fun p => and_congr_right fun hp => ?_)
    have hne : e.keyOf q ≠ e.keyOf p := fun h => hids.1 p hp (congrArg ClockKey.policyId h).symm
    split
    · rfl
    · rename_i c hc
      rw [Keyed.find_put_other (by rw [clockAfter_key hc]; exact hne)]

/-- A record event moves the clock of a key by `_apply`, or not at all. -/
theorem find_runForEvent (S : Setup) (k : ClockKey) (e : RecordEvent) (clocks : List SlaClock) :
    Keyed.find SlaClock.key k (runForEvent S e clocks).1 =
      match eventPolicy S k e with
      | none => Keyed.find SlaClock.key k clocks
      | some (mt,p) => e.clockAfter S mt p (Keyed.find SlaClock.key k clocks) := by
  cases h : eventPolicy S k e with
  | some mtp =>
    obtain ⟨mt,p⟩ := mtp
    obtain ⟨hmt,hkey,hmem,-⟩ := eventPolicy_some h
    simp only [runForEvent,hmt]
    rw [← hkey]
    exact applyAll_own (S.policiesOf_nodup mt) hmem clocks
  | none =>
    simp only [runForEvent]
    cases hmt : S.table e.phys with
    | none => rfl
    | some mt =>
      refine applyAll_other (fun p hp hkey => ?_) clocks
      rw [← hkey,eventPolicy_keyOf hmt hp] at h
      cases h

/-- The clock behind the second loop. -/
def chained (S : Setup) (call : SweepCall) (clock : SlaClock) : SlaClock :=
  match chain S call clock with
  | .ok (clock',_) => clock'
  | .error _ => clock

def chainEffects (S : Setup) (call : SweepCall) (clock : SlaClock) : List Effect :=
  match chain S call clock with
  | .ok (_,fx) => fx
  | .error _ => []

/-- The second loop gets to the clock of the key. -/
def reaches (S : Setup) (call : SweepCall) (k : ClockKey) : List SlaClock → Bool
  | [] => true
  | clock::rest => decide (clock.key = k) || ((chain S call clock).isOk && reaches S call k rest)

@[simp] theorem chained_key (S : Setup) (call : SweepCall) (clock : SlaClock) :
    (chained S call clock).key = clock.key := by
  simp only [chained]
  split
  · exact chain_key ‹_›
  · rfl

@[simp] theorem chained_state (S : Setup) (call : SweepCall) (clock : SlaClock) :
    (chained S call clock).state = clock.state := by
  simp only [chained]
  split
  · rename_i c' fx hc
    rcases chain_ok hc with ⟨rfl,-⟩ | ⟨_,_,_,_,_,_,-,rfl,-⟩ <;> rfl
  · rfl

theorem find_chainLoop (S : Setup) (call : SweepCall) (k : ClockKey) (clocks : List SlaClock) :
    Keyed.find SlaClock.key k (chainLoop S call clocks).1 = (Keyed.find SlaClock.key k clocks).map
      fun c => if reaches S call k clocks then chained S call c else c := by
  induction clocks with
  | nil => rfl
  | cons c clocks ih =>
    simp only [chainLoop]
    rw [Keyed.find_cons]
    by_cases hk : c.key = k
    · cases hc : chain S call c with
      | error e => simp [Keyed.find_cons,hk,chained,hc]
      | ok r =>
        have hkey := chain_key hc
        simp [Keyed.find_cons,hkey,hk,reaches,chained,hc]
    · cases hc : chain S call c with
      | error e =>
        have hno : reaches S call k (c::clocks) = false := by
          simp only [reaches,hc,hk,decide_false,Bool.false_or]
          rfl
        simp [Keyed.find_cons,hk,hno]
      | ok r =>
        have hyes : reaches S call k (c::clocks) = reaches S call k clocks := by
          simp only [reaches,hc,hk,decide_false,Bool.false_or]
          exact Bool.true_and _
        have hkey := chain_key hc
        simp [Keyed.find_cons,hkey,hk,hyes,ih]

theorem marks_fst (S : Setup) (call : SweepCall) (clocks : List SlaClock) :
    (clocks.map (mark S call)).map Prod.fst = clocks.map fun c => (mark S call c).1 := by
  simp [Function.comp_def]

/-- One sweep of one clock; the flag says whether the second loop gets to it. -/
def swept (S : Setup) (call : SweepCall) (reached : Bool) (clock : SlaClock) : SlaClock :=
  if reached then chained S call (mark S call clock).1 else (mark S call clock).1

/-- The second loop of a sweep of `clocks` gets to the clock of the key. -/
def reached (S : Setup) (call : SweepCall) (k : ClockKey) (clocks : List SlaClock) : Bool :=
  reaches S call k (clocks.map fun c => (mark S call c).1)

theorem find_sweep (S : Setup) (call : SweepCall) (k : ClockKey) (clocks : List SlaClock) :
    Keyed.find SlaClock.key k (sweep S call clocks).1 =
      (Keyed.find SlaClock.key k clocks).map (swept S call (reached S call k clocks)) := by
  simp only [sweep,marks_fst]
  rw [find_chainLoop,Keyed.find_map (mark_key S call)]
  cases Keyed.find SlaClock.key k clocks with
  | none => rfl
  | some c => rfl

/-! ### What is put out for one clock -/

/-- The effects for one clock. -/
def own (k : ClockKey) (fx : List Effect) : List Effect := fx.filter fun e => decide (e.key = k)

@[simp] theorem own_append (k : ClockKey) (fx fx' : List Effect) : own k (fx++fx') = own k fx ++ own k fx' := by
  simp [own]

theorem own_self {k : ClockKey} {fx : List Effect} (h : ∀ e ∈ fx, e.key = k) : own k fx = fx := by
  simpa [own] using h

theorem own_nil {k : ClockKey} {fx : List Effect} (h : ∀ e ∈ fx, e.key ≠ k) : own k fx = [] := by
  simpa [own] using h

/-! ### The table keeps its keys -/

theorem applyAll_nodup {S : Setup} {mt : MetaTable} {e : RecordEvent} (policies : List SlaPolicy)
    {clocks : List SlaClock} (h : (clocks.map SlaClock.key).Nodup) :
    ((applyAll S mt e policies clocks).1.map SlaClock.key).Nodup := by
  induction policies generalizing clocks with
  | nil => exact h
  | cons p policies ih =>
    refine ih ?_
    split
    · exact h
    · exact Keyed.nodup_put _ h

theorem chainLoop_keys (S : Setup) (call : SweepCall) (clocks : List SlaClock) :
    (chainLoop S call clocks).1.map SlaClock.key = clocks.map SlaClock.key := by
  induction clocks with
  | nil => rfl
  | cons c clocks ih =>
    simp only [chainLoop]
    split
    · rfl
    · rename_i c' fx hc
      simp [chain_key hc,ih]

theorem mark_keys (S : Setup) (call : SweepCall) (clocks : List SlaClock) :
    (clocks.map fun c => (mark S call c).1).map SlaClock.key = clocks.map SlaClock.key :=
  Keyed.map_key_map (mark_key S call) clocks

theorem step_nodup (S : Setup) (clocks : List SlaClock) (i : Input) (h : (clocks.map SlaClock.key).Nodup) :
    ((step S clocks i).map SlaClock.key).Nodup := by
  cases i with
  | event e =>
    simp only [step,runForEvent]
    split
    · exact h
    · exact applyAll_nodup _ h
  | sweep call =>
    simp only [step,sweep,marks_fst]
    rwa [chainLoop_keys,mark_keys]

/-! ### What a step puts out -/

/-- A breach writes the row of the clock and escalates it. -/
theorem mem_breachEffects {S : Setup} {call : SweepCall} {policy : SlaPolicy} {mt : MetaTable} {clock : SlaClock} {fx : Effect}
    (h : fx ∈ breachEffects S call policy mt clock) : ∃ done : Values × List Notice,
      fx = .wrote clock.key done.1 ∨ fx = .escalated clock.key done.2 := by
  simp only [breachEffects] at h
  split at h
  · refine ⟨_,(List.mem_append.mp h).imp mem_writes List.mem_singleton.mp⟩
  · cases h

theorem breachEffects_key {S : Setup} {call : SweepCall} {policy : SlaPolicy} {mt : MetaTable}
    {clock : SlaClock} {fx : Effect} (h : fx ∈ breachEffects S call policy mt clock) : fx.key = clock.key := by
  obtain ⟨done,rfl | rfl⟩ := mem_breachEffects h <;> rfl

/-- Everything the first loop can do to one clock. -/
theorem mark_cases (S : Setup) (call : SweepCall) (clock : SlaClock) :
    (mark S call clock = (clock,[])) ∨
    ∃ policy mt, clock.state = .running ∧ scope S call.now clock = some (policy,mt) ∧
      ((call.markFault clock.key ≠ none ∧ (mark S call clock).1 = clock ∧
          (mark S call clock).2 = (if call.markFault clock.key = some .late then breachEffects S call policy mt clock
            else []) ++ [.failed clock.key]) ∨
        ∃ written, (∀ fx ∈ written, ∃ updates, fx = .wrote clock.key updates) ∧
          ((overdue call.now clock = false ∧ mark S call clock = (clock,written)) ∨
            (overdue call.now clock = true ∧ mark S call clock = (breach call.now clock,
              breachEffects S call policy mt clock ++ .marked clock.key call.now :: written)))) := by
  by_cases hs : clock.state = .running
  · cases hscope : scope S call.now clock with
    | none => exact Or.inl (by simp [mark,hscope])
    | some pm =>
      obtain ⟨policy,mt⟩ := pm
      refine Or.inr ⟨policy,mt,hs,rfl,?_⟩
      cases hfault : call.markFault clock.key with
      | some stage =>
        refine Or.inl ⟨by simp,?_,?_⟩ <;> cases stage <;> simp [mark,hs,hscope,hfault]
      | none =>
        refine Or.inr ⟨writes clock.key (writeback S.defaultWarn policy mt call.now
          (if overdue call.now clock then breach call.now clock else clock)),?_,?_⟩
        · exact fun fx hfx => ⟨_,mem_writes hfx⟩
        · cases hdue : overdue call.now clock with
          | false => exact Or.inl ⟨rfl,by simp [mark,hs,hscope,hfault,hdue,breachEffects]⟩
          | true => exact Or.inr ⟨rfl,by simp [mark,hs,hscope,hfault,hdue]⟩
  · exact Or.inl (by simp [mark,hs])

theorem mark_effect_key {S : Setup} {call : SweepCall} {clock : SlaClock} {fx : Effect}
    (h : fx ∈ (mark S call clock).2) : fx.key = clock.key := by
  rcases mark_cases S call clock with hm | ⟨policy,mt,-,-,⟨-,-,hm⟩ | ⟨written,hw,⟨-,hm⟩ | ⟨-,hm⟩⟩⟩
  · simp [hm] at h
  · rw [hm] at h
    rcases List.mem_append.mp h with h | h
    · split at h
      · exact breachEffects_key h
      · cases h
    · obtain rfl := List.mem_singleton.mp h
      rfl
  · rw [hm] at h
    obtain ⟨updates,rfl⟩ := hw fx h
    rfl
  · rw [hm] at h
    rcases List.mem_append.mp h with h | h
    · exact breachEffects_key h
    · rcases List.mem_cons.mp h with rfl | h
      · rfl
      · obtain ⟨updates,rfl⟩ := hw fx h
        rfl

theorem chain_effect_key {S : Setup} {call : SweepCall} {clock clock' : SlaClock} {fx : List Effect}
    (h : chain S call clock = .ok (clock',fx)) {e : Effect} (he : e ∈ fx) : e.key = clock.key := by
  rcases chain_ok h with ⟨-,rfl | rfl⟩ | ⟨_,_,_,_,_,_,-,-,rfl⟩
  · cases he
  · rw [List.mem_singleton.mp he]
    rfl
  · rw [List.mem_singleton.mp he]
    rfl

theorem chainEffects_key {S : Setup} {call : SweepCall} {clock : SlaClock} {e : Effect}
    (h : e ∈ chainEffects S call clock) : e.key = clock.key := by
  simp only [chainEffects] at h
  split at h
  · exact chain_effect_key ‹_› h
  · cases h

theorem mem_chainLoop {S : Setup} {call : SweepCall} {clocks : List SlaClock} {fx : Effect}
    (h : fx ∈ (chainLoop S call clocks).2.1) : ∃ c ∈ clocks, fx ∈ chainEffects S call c := by
  induction clocks with
  | nil => cases h
  | cons c clocks ih =>
    simp only [chainLoop] at h
    split at h
    · cases h
    · rename_i c' fx' hc
      rcases List.mem_append.mp h with h | h
      · exact ⟨c,List.mem_cons_self,by simpa [chainEffects,hc] using h⟩
      · obtain ⟨d,hd,hfx⟩ := ih h
        exact ⟨d,List.mem_cons_of_mem c hd,hfx⟩

theorem own_chainLoop {S : Setup} {call : SweepCall} {k : ClockKey} {clocks : List SlaClock}
    (h : (clocks.map SlaClock.key).Nodup) : own k (chainLoop S call clocks).2.1 =
      match Keyed.find SlaClock.key k clocks with
      | none => []
      | some c => if reaches S call k clocks then chainEffects S call c else [] := by
  induction clocks with
  | nil => rfl
  | cons c clocks ih =>
    simp only [List.map_cons,List.nodup_cons,List.mem_map,not_exists,not_and] at h
    rw [Keyed.find_cons]
    by_cases hk : c.key = k
    · cases hc : chain S call c with
      | error e => simp [chainLoop,hc,hk,chainEffects,own]
      | ok r =>
        have hown : own k r.2 = r.2 := own_self fun fx hfx => by
          rw [← hk]
          exact chain_effect_key hc hfx
        have hrest : own k (chainLoop S call clocks).2.1 = [] := own_nil fun fx hfx hkey => by
          obtain ⟨d,hd,hfx⟩ := mem_chainLoop hfx
          exact h.1 d hd ((chainEffects_key hfx).symm.trans (hkey.trans hk.symm))
        simp [chainLoop,hc,hk,chainEffects,reaches,hown,hrest]
    · cases hc : chain S call c with
      | error e =>
        have hno : reaches S call k (c::clocks) = false := by
          simp only [reaches,hc,hk,decide_false,Bool.false_or]
          rfl
        simp only [chainLoop,hc,hk,if_false,hno]
        cases Keyed.find SlaClock.key k clocks <;> rfl
      | ok r =>
        have hyes : reaches S call k (c::clocks) = reaches S call k clocks := by
          simp only [reaches,hc,hk,decide_false,Bool.false_or]
          exact Bool.true_and _
        have hown : own k r.2 = [] := own_nil fun fx hfx hkey =>
          hk ((chain_effect_key hc hfx).symm.trans hkey)
        simp only [chainLoop,hc,hk,if_false,hyes,own_append,hown,List.nil_append]
        exact ih h.2

theorem own_marks {S : Setup} {call : SweepCall} {k : ClockKey} {clocks : List SlaClock}
    (h : (clocks.map SlaClock.key).Nodup) : own k (clocks.flatMap fun c => (mark S call c).2) =
      match Keyed.find SlaClock.key k clocks with
      | none => []
      | some c => (mark S call c).2 := by
  induction clocks with
  | nil => rfl
  | cons c clocks ih =>
    simp only [List.map_cons,List.nodup_cons,List.mem_map,not_exists,not_and] at h
    rw [List.flatMap_cons,own_append,ih h.2,Keyed.find_cons]
    by_cases hk : c.key = k
    · have hnone : Keyed.find SlaClock.key k clocks = none :=
        Keyed.find_eq_none.mpr fun d hd hkey => h.1 d hd (hkey.trans hk.symm)
      have hown : own k (mark S call c).2 = (mark S call c).2 :=
        own_self fun fx hfx => (mark_effect_key hfx).trans hk
      simp [hk,hnone,hown]
    · have hown : own k (mark S call c).2 = [] := own_nil fun fx hfx hkey =>
        hk ((mark_effect_key hfx).symm.trans hkey)
      simp [hk,hown]

/-- What a sweep puts out comes from one of its loops at one clock. -/
theorem mem_sweep {S : Setup} {call : SweepCall} {clocks : List SlaClock} {fx : Effect}
    (h : fx ∈ (sweep S call clocks).2.1) :
    ∃ c ∈ clocks, fx ∈ (mark S call c).2 ∨ fx ∈ chainEffects S call (mark S call c).1 := by
  rcases List.mem_append.mp h with h | h
  · obtain ⟨r,hr,hfx⟩ := List.mem_flatMap.mp h
    obtain ⟨c,hc,rfl⟩ := List.mem_map.mp hr
    exact ⟨c,hc,Or.inl hfx⟩
  · obtain ⟨d,hd,hfx⟩ := mem_chainLoop h
    obtain ⟨r,hr,rfl⟩ := List.mem_map.mp hd
    obtain ⟨c,hc,rfl⟩ := List.mem_map.mp hr
    exact ⟨c,hc,Or.inr hfx⟩

/-- What a sweep puts out for one clock. -/
def sweptEffects (S : Setup) (call : SweepCall) (reached : Bool) (clock : SlaClock) : List Effect :=
  (mark S call clock).2 ++ if reached then chainEffects S call (mark S call clock).1 else []

theorem own_sweep (S : Setup) (call : SweepCall) (k : ClockKey) {clocks : List SlaClock}
    (h : (clocks.map SlaClock.key).Nodup) : own k (sweep S call clocks).2.1 =
      match Keyed.find SlaClock.key k clocks with
      | none => []
      | some c => sweptEffects S call (reached S call k clocks) c := by
  have hflat : (clocks.map (mark S call)).flatMap Prod.snd = clocks.flatMap fun c => (mark S call c).2 := by
    simp [List.flatMap_map]
  simp only [sweep,marks_fst,hflat,own_append]
  rw [own_marks h,own_chainLoop (by rwa [mark_keys]),Keyed.find_map (mark_key S call)]
  cases Keyed.find SlaClock.key k clocks with
  | none => rfl
  | some c => rfl

end Sla
end Biggy
