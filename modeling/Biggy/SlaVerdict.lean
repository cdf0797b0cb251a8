import Biggy.SlaIsolation

/-!
# Three verdicts on one deadline

`_stop` compares the deadline with `>`, the token that is shown and the sweep with `>=`. `verdicts_iff` says when the
three agree on a running clock.
-/
namespace Biggy
namespace Sla

/-- The clock is breached when it is stopped at the time. -/
def StopBreaches (now : ℤ) (c : SlaClock) : Prop := (stop now c).state = .breached

/-- The clock is shown as breached at the time. -/
def TokenBreaches (S : Setup) (policy : SlaPolicy) (now : ℤ) (c : SlaClock) : Prop :=
  stateToken S.defaultWarn policy now c = some "breached"

/-- The clock is breached after the sweep. -/
def SweepBreaches (S : Setup) (call : SweepCall) (T : ClockTable) (c : SlaClock) : Prop :=
  ∃ c', Keyed.find SlaClock.key c.key (sweep S call T.rows).1 = some c' ∧ c'.state = .breached

def VerdictsAgree (S : Setup) (policy : SlaPolicy) (call : SweepCall) (T : ClockTable) (c : SlaClock) : Prop :=
  (StopBreaches call.now c ↔ TokenBreaches S policy call.now c) ∧ (TokenBreaches S policy call.now c ↔ SweepBreaches S call T c)

/-- The sweep gets the policy, the table and the record of the clock, and its statements are not refused. -/
structure Attended (S : Setup) (call : SweepCall) (c : SlaClock) : Prop where
  policy : S.policy c.key.policyId ≠ none
  table : S.table c.key.tablePhys ≠ none
  fault : call.markFault c.key = none

section Verdicts

variable {S : Setup} {call : SweepCall} {c : SlaClock} {due now : ℤ}

theorem stopBreaches_iff (hrun : c.state = .running) (hdue : c.dueAt = some due) : StopBreaches now c ↔ due < now := by
  have hlate : stopsLate now c = decide (due < now) := by simp [stopsLate,hrun,hdue]
  rw [StopBreaches,stop,hlate]
  by_cases hpast : due < now
  · simp [hpast]
  · simp [hpast]

theorem tokenBreaches_iff (hrun : c.state = .running) (hdue : c.dueAt = some due) (policy : SlaPolicy) :
    TokenBreaches S policy now c ↔ due ≤ now := by
  rw [TokenBreaches,stateToken,hrun,hdue]
  dsimp only
  by_cases hpast : due ≤ now
  · simp [hpast]
  · rw [if_neg hpast]
    split <;> simp [hpast]

theorem overdue_iff (hdue : c.dueAt = some due) : overdue now c = true ↔ due ≤ now := by simp [overdue,hdue]

/-- Outside of maintenance the policy and the table are all that a sweep asks for. -/
theorem scope_iff (hopen : ∀ mt, S.table c.key.tablePhys = some mt → S.held mt now = false) :
    scope S now c ≠ none ↔ S.policy c.key.policyId ≠ none ∧ S.table c.key.tablePhys ≠ none := by
  rw [scope]
  cases hpolicy : S.policy c.key.policyId with
  | none => simp
  | some policy =>
    cases htable : S.table c.key.tablePhys with
    | none => simp
    | some mt => simp [hopen mt htable]

theorem sweepBreaches_iff {T : ClockTable} (hc : c ∈ T.rows) (hrun : c.state = .running) (hdue : c.dueAt = some due)
    (hopen : ∀ mt, S.table c.key.tablePhys = some mt → S.held mt call.now = false) :
    SweepBreaches S call T c ↔ due ≤ call.now ∧ Attended S call c := by
  by_cases hover : Overdue S call.now c
  · obtain ⟨-,hpast,hscope⟩ := hover
    obtain ⟨hpolicy,htable⟩ := (scope_iff hopen).mp hscope
    rw [SweepBreaches,sweep_overdue hc ⟨hrun,hpast,hscope⟩]
    exact ⟨fun hfault => ⟨(overdue_iff hdue).mp hpast,hpolicy,htable,hfault⟩,fun h => h.2.fault⟩
  · have hmarked : (mark S call c).1.state = .running := by
      rcases mark_cases S call c with hm | ⟨policy,mt,-,hscope,⟨-,hm,-⟩ | ⟨written,-,⟨-,hm⟩ | ⟨hpast,-⟩⟩⟩
      · rw [hm]
        exact hrun
      · rw [hm]
        exact hrun
      · rw [hm]
        exact hrun
      · exact absurd ⟨hrun,hpast,by simp [hscope]⟩ hover
    have hstate : (swept S call (reached S call c.key T.rows) c).state = .running := by
      rw [← hmarked,swept]
      split
      · exact chained_state S call _
      · rfl
    rw [SweepBreaches,find_sweep,Keyed.find_of_mem T.keysNodup hc]
    constructor
    · rintro ⟨c',hc',hbreached⟩
      rw [← Option.some.inj hc',hstate] at hbreached
      cases hbreached
    · rintro ⟨hpast,hattended⟩
      exact absurd ⟨hrun,(overdue_iff hdue).mpr hpast,(scope_iff hopen).mpr ⟨hattended.policy,hattended.table⟩⟩ hover

end Verdicts

/-- Outside of maintenance the three verdicts on a running clock agree unless the time is the deadline itself, or the
deadline has passed and the sweep does not get to mark the clock. -/
theorem verdicts_iff (S : Setup) (policy : SlaPolicy) (call : SweepCall) (T : ClockTable) {c : SlaClock} (hc : c ∈ T.rows)
    (hrun : c.state = .running) {due : ℤ} (hdue : c.dueAt = some due)
    (hopen : ∀ mt, S.table c.key.tablePhys = some mt → S.held mt call.now = false) :
    VerdictsAgree S policy call T c ↔ call.now ≠ due ∧ (due < call.now → Attended S call c) := by
  rw [VerdictsAgree,stopBreaches_iff hrun hdue,tokenBreaches_iff hrun hdue,sweepBreaches_iff hc hrun hdue hopen]
  constructor
  · rintro ⟨hstop,hsweep⟩
    refine ⟨fun hat => ?_,fun hpast => (hsweep.mp (Int.le_of_lt hpast)).2⟩
    have hbefore : due < call.now := hstop.mpr (by omega)
    omega
  · rintro ⟨hnever,hattended⟩
    have hpast : due ≤ call.now → due < call.now := by omega
    exact ⟨⟨Int.le_of_lt,hpast⟩,fun hdue => ⟨hdue,hattended (hpast hdue)⟩,fun h => h.1⟩

/-! ### At the deadline -/

def waitingClock : SlaClock where
  key := ticketKey
  startedAt := some 0
  dueAt := some (seconds 60)
  updatedAt := 0

def oneWaiting : ClockTable where
  rows := [waitingClock]
  keysNodup := by decide

def sweepOnTime (n : ℤ) : SweepCall where
  now := seconds n
  row := fun _ _ => .null
  markFault := fun _ => none
  fireFault := fun _ => false

theorem verdicts_late : VerdictsAgree answering answerInTime (sweepOnTime 61) oneWaiting waitingClock :=
  (verdicts_iff answering answerInTime (sweepOnTime 61) oneWaiting List.mem_cons_self rfl rfl fun _ _ => rfl).mpr
    ⟨by decide,fun _ => ⟨by decide,by decide,rfl⟩⟩

/-- At the deadline the ticket is answered in time for `_stop`, and breached on the list and for the sweep. -/
theorem verdicts_differ : ¬∀ (S : Setup) (policy : SlaPolicy) (call : SweepCall) (T : ClockTable), ∀ c ∈ T.rows,
    c.state = .running → ∀ due, c.dueAt = some due →
      (∀ mt, S.table c.key.tablePhys = some mt → S.held mt call.now = false) → Attended S call c →
        VerdictsAgree S policy call T c := by
  intro h
  have hagree := h answering answerInTime (sweepOnTime 60) oneWaiting waitingClock List.mem_cons_self rfl _ rfl (fun _ _ => rfl)
    ⟨by decide,by decide,rfl⟩
  have hstopped : StopBreaches (seconds 60) waitingClock := hagree.1.mpr rfl
  exact absurd hstopped (by unfold StopBreaches; decide)

end Sla
end Biggy
