import Biggy.SlaDeadline

/-!
# Escalation

What a run puts out for one clock. Its terminal state stays, the escalation of its
breach goes out once, and the levels of the chain are fired one after the other,
each when it is due.
-/
namespace Biggy
namespace Sla

open Run

def Effect.isEscalation : Effect → Bool
  | .escalated _ _ => true
  | _ => false

def Effect.firedLevel : Effect → Option ℕ
  | .fired _ level _ _ _ _ => some level
  | _ => none

/-- No statement on the clock's record fails. -/
def Faultless (k : ClockKey) (_ : List SlaClock) : Input → Prop
  | .event _ => True
  | .sweep call => call.markFault k = none ∧ call.fireFault k = false

instance (k : ClockKey) (clocks : List SlaClock) : (i : Input) → Decidable (Faultless k clocks i)
  | .event _ => isTrue trivial
  | .sweep _ => inferInstanceAs (Decidable (_ ∧ _))

def levelOf : Option SlaClock → ℕ
  | none => 0
  | some c => c.escalationLevel

/-- A fired level is the level of the policy's chain at its index, for a clock breached
at the recorded time, and its wait is over. -/
def FiredDue (S : Setup) (k : ClockKey) (clock : Option SlaClock) : Effect → Prop
  | .fired _ index breachedAt after now _ =>
    (∃ c, clock = some c ∧ c.state = .breached ∧ c.breachedAt = some breachedAt) ∧
      breachedAt + minutes after ≤ now ∧ ∃ p levels level, S.policy k.policyId = some p ∧
        escalationLevels S.py p = .ok levels ∧ levels[index]? = some level ∧ afterMinutes S.py level = .ok after
  | _ => True

/-- What a clock and everything put out for it have in common. -/
structure History (S : Setup) (k : ClockKey) (clock : Option SlaClock) (log : List Effect) : Prop where
  once : log.countP Effect.isEscalation ≤ 1
  open_ : (∀ c, clock = some c → c.state ≠ .breached) → log.countP Effect.isEscalation = 0
  levels : log.filterMap Effect.firedLevel = List.range (levelOf clock)
  due : ∀ e ∈ log, FiredDue S k clock e

section Step

variable {S : Setup} {k : ClockKey} {c : SlaClock} {log : List Effect}

@[simp] theorem moved_level (target : Option Target) (now : ℤ) :
    (moved target now c).escalationLevel = c.escalationLevel := by
  cases hs : c.state <;> rcases target with _ | _ | _ | _ <;> simp [moved,hs,stop,pause,resume,abandon]
@[simp] theorem onDelete_level (now : ℤ) : (onDelete now c).escalationLevel = c.escalationLevel := by
  simp only [onDelete]
  split <;> rfl
@[simp] theorem opened_level (p : SlaPolicy) (target : Option Target) (now : ℤ) :
    (opened p k target now).escalationLevel = 0 := by
  simp only [opened]
  split <;> rfl

/-- An event keeps the level of a clock and leaves a terminal one alone. -/
theorem advance_some (p : SlaPolicy) (event : Event) (target : Option Target) (now : ℤ) :
    ∃ c', advance p k event target now (some c) = some c' ∧ c'.escalationLevel = c.escalationLevel ∧
      (c.state.terminal = true → c' = c) := by
  cases event with
  | delete => exact ⟨onDelete now c,rfl,onDelete_level now,fun h => by simp [onDelete,h]⟩
  | create | update => exact ⟨moved target now c,rfl,moved_level target now,fun h => moved_terminal h target now⟩

theorem advance_level (p : SlaPolicy) (event : Event) (target : Option Target) (now : ℤ)
    (clock : Option SlaClock) : levelOf (advance p k event target now clock) = levelOf clock := by
  cases clock with
  | some c =>
    obtain ⟨c',hc',hlevel,-⟩ := advance_some (c:=c) (k:=k) p event target now
    simpa [hc',levelOf] using hlevel
  | none =>
    cases event with
    | delete => rfl
    | create | update =>
      simp only [advance]
      split
      · simp [levelOf]
      · rfl

/-- A fired level stays due while the clock keeps the time of its breach. -/
theorem firedDue_mono {clock clock' : Option SlaClock} {e : Effect} (h : FiredDue S k clock e)
    (hkeep : ∀ c, clock = some c → c.state = .breached →
      ∃ c', clock' = some c' ∧ c'.state = .breached ∧ c'.breachedAt = c.breachedAt) : FiredDue S k clock' e := by
  cases e with
  | fired key index breachedAt after now notices =>
    obtain ⟨⟨c,hc,hs,hat⟩,hrest⟩ := h
    obtain ⟨c',hc',hs',hat'⟩ := hkeep c hc hs
    exact ⟨⟨c',hc',hs',hat'.trans hat⟩,hrest⟩
  | wrote | marked | escalated | failed => trivial

theorem history_quiet {clock clock' : Option SlaClock} (h : History S k clock log)
    (hlevel : levelOf clock' = levelOf clock)
    (hkeep : ∀ c, clock = some c → c.state = .breached → clock' = some c) {fx : List Effect}
    (hquiet : ∀ e ∈ fx, e.isEscalation = false ∧ e.firedLevel = none ∧ FiredDue S k clock' e) :
    History S k clock' (log++fx) := by
  have hcount : fx.countP Effect.isEscalation = 0 := List.countP_eq_zero.mpr fun e he => by simp [hquiet e he]
  have hfired : fx.filterMap Effect.firedLevel = [] := List.filterMap_eq_nil_iff.mpr fun e he => (hquiet e he).2.1
  refine ⟨by simpa [hcount] using h.once,fun hno => ?_,?_,fun e he => ?_⟩
  · have hopen : ∀ c, clock = some c → c.state ≠ .breached := fun c hc hs => hno c (hkeep c hc hs) hs
    simp [hcount,h.open_ hopen]
  · simp [hfired,h.levels,hlevel]
  · rcases List.mem_append.mp he with he | he
    · exact firedDue_mono (h.due e he) fun c hc hs => ⟨c,hkeep c hc hs,hs,rfl⟩
    · exact (hquiet e he).2.2

theorem breachEffects_firedLevel {call : SweepCall} {p : SlaPolicy} {mt : MetaTable} {e : Effect}
    (h : e ∈ breachEffects S call p mt c) : e.firedLevel = none := by
  obtain ⟨done,rfl | rfl⟩ := mem_breachEffects h <;> rfl

/-- The first loop fires no level of a chain. -/
theorem mark_firedLevel {call : SweepCall} {e : Effect} (h : e ∈ (mark S call c).2) : e.firedLevel = none := by
  rcases mark_cases S call c with hm | ⟨p,mt,-,-,⟨-,-,hm⟩ | ⟨written,hw,⟨-,hm⟩ | ⟨-,hm⟩⟩⟩
  · simp [hm] at h
  · rw [hm] at h
    rcases List.mem_append.mp h with h | h
    · split at h
      · exact breachEffects_firedLevel h
      · cases h
    · rw [List.mem_singleton.mp h]
      rfl
  · rw [hm] at h
    obtain ⟨updates,rfl⟩ := hw e h
    rfl
  · rw [hm] at h
    rcases List.mem_append.mp h with h | h
    · exact breachEffects_firedLevel h
    · rcases List.mem_cons.mp h with rfl | h
      · rfl
      · obtain ⟨updates,rfl⟩ := hw e h
        rfl

/-- The escalation of a breach is one effect that fires no level. -/
theorem breachEffects_once (S : Setup) (call : SweepCall) (p : SlaPolicy) (mt : MetaTable) (c : SlaClock) :
    (breachEffects S call p mt c).countP Effect.isEscalation ≤ 1 := by
  simp only [breachEffects]
  split
  · simp only [writes]
    split <;> simp [Effect.isEscalation]
  · simp

/-- A running clock has no escalation behind it, so it may have the one of its breach. -/
theorem history_breach {call : SweepCall} {p : SlaPolicy} {mt : MetaTable} (hs : c.state = .running)
    (h : History S k (some c) log) :
    History S k (some (breach call.now c)) (log ++ breachEffects S call p mt c) := by
  have hrunning : ∀ c', some c = some c' → c'.state ≠ .breached := by
    intro c' hc' hb
    rw [← Option.some.inj hc',hs] at hb
    cases hb
  have hzero : log.countP Effect.isEscalation = 0 := h.open_ hrunning
  have honce := breachEffects_once S call p mt c
  have hlevels : ∀ e ∈ breachEffects S call p mt c, e.firedLevel = none := fun e he =>
    breachEffects_firedLevel he
  refine ⟨?_,fun hno => absurd rfl (hno _ rfl),?_,fun e he => ?_⟩
  · rw [List.countP_append]
    omega
  · rw [List.filterMap_append,List.filterMap_eq_nil_iff.mpr hlevels,List.append_nil]
    exact h.levels
  · rcases List.mem_append.mp he with he | he
    · exact firedDue_mono (h.due e he) fun c' hc' hb => absurd hb (hrunning c' hc')
    · have hnone := hlevels e he
      cases e with
      | fired key index breachedAt after now notices => cases hnone
      | wrote | marked | escalated | failed => trivial

theorem history_mark {call : SweepCall} (hk : c.key = k) (hfault : call.markFault k = none)
    (h : History S k (some c) log) : History S k (some (mark S call c).1) (log ++ (mark S call c).2) := by
  have hwritten : ∀ {clock' : Option SlaClock} {fx : List Effect},
      (∀ e ∈ fx, ∃ updates, e = .wrote c.key updates) → ∀ e ∈ fx,
        e.isEscalation = false ∧ e.firedLevel = none ∧ FiredDue S k clock' e := by
    intro clock' fx hw e he
    obtain ⟨updates,rfl⟩ := hw e he
    exact ⟨rfl,rfl,trivial⟩
  rcases mark_cases S call c with hm | ⟨p,mt,hs,-,⟨hbad,-,-⟩ | ⟨written,hw,⟨-,hm⟩ | ⟨hdue,hm⟩⟩⟩
  · simpa [hm] using h
  · exact absurd (hk ▸ hfault) hbad
  · rw [hm]
    exact history_quiet h rfl (fun c' hc' _ => hc') (hwritten hw)
  · have hrest : ∀ e ∈ .marked c.key call.now :: written,
        e.isEscalation = false ∧ e.firedLevel = none ∧ FiredDue S k (some (breach call.now c)) e := by
      intro e he
      rcases List.mem_cons.mp he with rfl | he
      · exact ⟨rfl,rfl,trivial⟩
      · exact hwritten hw e he
    rw [hm,← List.append_assoc]
    exact history_quiet (history_breach hs h) rfl (fun c' hc' _ => hc') hrest

theorem chainDue_eq {breachedAt after due : ℤ} (h : chainDue breachedAt after = .ok due) :
    due = breachedAt + minutes after := by
  simp only [chainDue] at h
  split at h
  · cases h
  · split at h
    · cases h
    · exact (Except.ok.inj h).symm

/-- The level that goes out is the next one of the policy's chain, and its wait is over. -/
theorem Fires.firedDue {call : SweepCall} {p : SlaPolicy} {mt : MetaTable} {level : List (String × Json)}
    {breachedAt after : ℤ} {notices : List Notice}
    (h : Fires S call c p mt level breachedAt after notices) :
    FiredDue S c.key (some (climb call.now c))
      (.fired c.key c.escalationLevel breachedAt after call.now notices) := by
  have hp : S.policy c.key.policyId = some p := (scope_some h.inScope).1
  obtain ⟨levels,hlevels,hlevel⟩ := h.next
  obtain ⟨due,hdue,hnow⟩ := h.due
  have hwait : breachedAt + minutes after ≤ call.now := chainDue_eq hdue ▸ hnow
  exact ⟨⟨climb call.now c,rfl,h.state,h.since⟩,hwait,p,levels,level,hp,hlevels,hlevel,h.wait⟩

theorem history_chain {call : SweepCall} (hk : c.key = k) (h : History S k (some c) log) :
    History S k (some (chained S call c)) (log ++ chainEffects S call c) := by
  simp only [chained,chainEffects]
  cases hc : chain S call c with
  | error e => simpa using h
  | ok r =>
    obtain ⟨c',fx⟩ := r
    rcases chain_ok hc with ⟨rfl,hfx⟩ | ⟨p,mt,level,breachedAt,after,notices,hfires,rfl,rfl⟩
    · refine history_quiet h rfl (fun _ hc' _ => hc') fun e he => ?_
      rcases hfx with rfl | rfl
      · cases he
      · rw [List.mem_singleton.mp he]
        exact ⟨rfl,rfl,trivial⟩
    · refine ⟨?_,fun hno => absurd hfires.state (hno (climb call.now c) rfl),?_,fun e he => ?_⟩
      · simpa [Effect.isEscalation] using h.once
      · rw [List.filterMap_append,h.levels]
        exact List.range_succ.symm
      · rcases List.mem_append.mp he with he | he
        · apply firedDue_mono (h.due e he)
          intro c' hc' hb
          obtain rfl := Option.some.inj hc'
          exact ⟨climb call.now c,rfl,hb,rfl⟩
        · rw [List.mem_singleton.mp he,← hk]
          exact hfires.firedDue

end Step

/-- Record events write back and nothing else. -/
theorem applyAll_effects {S : Setup} {mt : MetaTable} {e : RecordEvent} {policies : List SlaPolicy}
    {clocks : List SlaClock} {fx : Effect} (h : fx ∈ (applyAll S mt e policies clocks).2) :
    ∃ key, fx = .failed key ∨ ∃ updates, fx = .wrote key updates := by
  induction policies generalizing clocks with
  | nil => cases h
  | cons p policies ih =>
    rcases List.mem_append.mp h with h | h
    · simp only [RecordEvent.written] at h
      split at h
      · cases h
      · cases h
      · split at h
        · exact ⟨_,Or.inl (List.mem_singleton.mp h)⟩
        · exact ⟨_,Or.inr ⟨_,mem_writes h⟩⟩
    · exact ih h

/-- The invariant of a run: unique keys, and the history of one clock. -/
def Chronicle (S : Setup) (k : ClockKey) (clocks : List SlaClock) (log : List Effect) : Prop :=
  (clocks.map SlaClock.key).Nodup ∧ History S k (Keyed.find SlaClock.key k clocks) (own k log)

theorem step_chronicle (S : Setup) (k : ClockKey) (clocks : List SlaClock) (log : List Effect) (i : Input)
    (h : Chronicle S k clocks log) (hi : Faultless k clocks i) :
    Chronicle S k (step S clocks i) (log ++ effects S clocks i) := by
  obtain ⟨hnodup,hist⟩ := h
  refine ⟨step_nodup S clocks i hnodup,?_⟩
  rw [own_append]
  cases i with
  | event e =>
    have hquiet : ∀ clock', ∀ fx ∈ own k (effects S clocks (.event e)),
        fx.isEscalation = false ∧ fx.firedLevel = none ∧ FiredDue S k clock' fx := by
      intro clock' fx hfx
      have hmem : fx ∈ (runForEvent S e clocks).2 := (List.mem_filter.mp hfx).1
      simp only [runForEvent] at hmem
      split at hmem
      · cases hmem
      · obtain ⟨key,rfl | ⟨updates,rfl⟩⟩ := applyAll_effects hmem <;> exact ⟨rfl,rfl,trivial⟩
    simp only [step,find_runForEvent]
    cases hp : eventPolicy S k e with
    | none => exact history_quiet hist rfl (fun c hc _ => hc) (hquiet _)
    | some mtp =>
      obtain ⟨mt,p⟩ := mtp
      refine history_quiet hist (advance_level p _ _ _ _) (fun c hc hs => ?_) (hquiet _)
      rw [hc]
      exact advance_terminal (by simp [hs,ClockState.terminal]) p _ _ _ _
  | sweep call =>
    simp only [step,effects,find_sweep,own_sweep S call k hnodup]
    cases hf : Keyed.find SlaClock.key k clocks with
    | none => simpa [hf] using hist
    | some c =>
      have hk : c.key = k := Keyed.key_of_find hf
      rw [hf] at hist
      have hmark := history_mark hk hi.1 hist
      simp only [Option.map_some,swept,sweptEffects]
      split
      · rw [← List.append_assoc]
        exact history_chain ((mark_key S call c).trans hk) hmark
      · simpa using hmark

/-- A step keeps every clock, its terminal state and the levels it has fired. -/
theorem step_clock (S : Setup) (k : ClockKey) (clocks : List SlaClock) (i : Input) {c : SlaClock}
    (hc : Keyed.find SlaClock.key k clocks = some c) :
    ∃ c', Keyed.find SlaClock.key k (step S clocks i) = some c' ∧
      (c.state.terminal = true → c'.state = c.state) ∧ c.escalationLevel ≤ c'.escalationLevel := by
  cases i with
  | event e =>
    simp only [step,find_runForEvent,hc]
    cases eventPolicy S k e with
    | none => exact ⟨c,rfl,fun _ => rfl,le_rfl⟩
    | some mtp =>
      obtain ⟨c',hc',hlevel,hsame⟩ := advance_some (c:=c) (k:=e.keyOf mtp.2) mtp.2 e.event
        (e.target S mtp.1 mtp.2) e.now
      exact ⟨c',hc',fun h => by rw [hsame h],hlevel.ge⟩
  | sweep call =>
    refine ⟨swept S call (reached S call k clocks) c,by simp only [step,find_sweep,hc,Option.map_some],?_⟩
    have hmark : (c.state.terminal = true → (mark S call c).1.state = c.state) ∧
        (mark S call c).1.escalationLevel = c.escalationLevel := by
      rcases mark_cases S call c with hm | ⟨p,mt,hs,-,⟨-,hm,-⟩ | ⟨written,-,⟨-,hm⟩ | ⟨-,hm⟩⟩⟩
      · simp [hm]
      · simp [hm]
      · simp [hm]
      · exact ⟨fun h => by simp [hs,ClockState.terminal] at h,by simp [hm,breach]⟩
    have hchain : (chained S call (mark S call c).1).state = (mark S call c).1.state ∧
        (mark S call c).1.escalationLevel ≤ (chained S call (mark S call c).1).escalationLevel := by
      simp only [chained]
      split
      · rename_i c' fx hch
        rcases chain_ok hch with ⟨rfl,-⟩ | ⟨_,_,_,_,_,_,-,rfl,-⟩
        · exact ⟨rfl,le_rfl⟩
        · exact ⟨rfl,Nat.le_succ _⟩
      · exact ⟨rfl,le_rfl⟩
    simp only [swept]
    split
    · exact ⟨fun h => hchain.1.trans (hmark.1 h),hmark.2 ▸ hchain.2⟩
    · exact ⟨hmark.1,hmark.2.ge⟩

theorem exec_clock (S : Setup) (k : ClockKey) (clocks : List SlaClock) (inputs : List Input) {c : SlaClock}
    (hc : Keyed.find SlaClock.key k clocks = some c) :
    ∃ c', Keyed.find SlaClock.key k (exec (step S) clocks inputs) = some c' ∧
      (c.state.terminal = true → c'.state = c.state) ∧ c.escalationLevel ≤ c'.escalationLevel := by
  induction inputs generalizing clocks c with
  | nil => exact ⟨c,hc,fun _ => rfl,le_rfl⟩
  | cons i inputs ih =>
    obtain ⟨c₁,hc₁,hterm₁,hlevel₁⟩ := step_clock S k clocks i hc
    obtain ⟨c₂,hc₂,hterm₂,hlevel₂⟩ := ih (step S clocks i) hc₁
    refine ⟨c₂,hc₂,fun h => ?_,hlevel₁.trans hlevel₂⟩
    have h₁ := hterm₁ h
    exact (hterm₂ (by rw [h₁]; exact h)).trans h₁

/-- Over every run without failures: terminal states stay, the breach escalates once at
most, the level never goes down, and the levels fire one by one, each when it is due. -/
theorem escalation_exec (S : Setup) (k : ClockKey) (before after : List Input)
    (hrun : Meets (step S) (Faultless k) [] (before++after)) :
    let log := own k (emitted (step S) (effects S) [] (before++after))
    let clock := Keyed.find SlaClock.key k (exec (step S) [] (before++after))
    (∀ c, Keyed.find SlaClock.key k (exec (step S) [] before) = some c → ∃ c', clock = some c' ∧
      (c.state.terminal = true → c'.state = c.state) ∧ c.escalationLevel ≤ c'.escalationLevel) ∧
    log.countP Effect.isEscalation ≤ 1 ∧
    log.filterMap Effect.firedLevel = List.range (levelOf clock) ∧
    ∀ e ∈ log, FiredDue S k clock e := by
  intro log clock
  have hstart : Chronicle S k [] [] := ⟨List.nodup_nil,by simp [own],fun _ => rfl,rfl,by simp [own]⟩
  obtain ⟨-,hist⟩ := history_invariant (Chronicle S k) (step_chronicle S k) hstart hrun
  refine ⟨fun c hc => ?_,hist.once,hist.levels,hist.due⟩
  have hclock := exec_clock S k (exec (step S) [] before) after hc
  rwa [← exec_append] at hclock

/-! ### A breached ticket with one level -/

def chasing : Setup :=
  helpdesk [{ answerInTime with escalations := some chainText }] [] (by decide)

def sweepAt (n : ℤ) : Input :=
  .sweep
    { now := seconds n
      row := fun _ _ => .null
      markFault := fun _ => none
      fireFault := fun _ => false }

/-- Breached after a minute, chased five minutes later, once. -/
theorem escalation_ticket :
    (own ticketKey (emitted (step chasing) (effects chasing) []
      ([ticketEvent .create "open" 0,sweepAt 60]++[sweepAt 359,sweepAt 360,sweepAt 420]))).filterMap
        Effect.firedLevel = List.range 1 :=
  (escalation_exec chasing ticketKey [ticketEvent .create "open" 0,sweepAt 60]
    [sweepAt 359,sweepAt 360,sweepAt 420] (by decide)).2.2.1

end Sla
end Biggy
