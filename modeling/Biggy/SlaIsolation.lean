import Biggy.SlaEscalation

/-!
# One bad policy and the sweep

The first loop isolates every clock. The second one reads the chain of the policy,
converts the wait of the next level and adds it to the breach time outside its
`try`; `Raises` says exactly when that fails, and then the clocks behind are not
reached. `Isolated` is the promise for one call.
-/
namespace Biggy
namespace Sla

/-- The clocks of `app_sla_clock`. -/
structure ClockTable where
  rows : List SlaClock
  keysNodup : (rows.map SlaClock.key).Nodup

/-- A running clock past its deadline that no window holds. -/
def Overdue (S : Setup) (now : ℤ) (c : SlaClock) : Prop :=
  c.state = .running ∧ overdue now c = true ∧ scope S now c ≠ none

/-- A level as the form's help describes it, with its wait in minutes. -/
structure WellFormed (level : List (String × Json)) (after : ℤ) : Prop where
  wait : Json.get level "after_minutes" = .int after ∨ Json.get level "after_minutes" = .null ∧ after = 0
  nonneg : 0 ≤ after
  message : Json.get level "message" = .null ∨ ∃ s, Json.get level "message" = .str s
  user : Json.get level "notify_user_id" = .null ∨ ∃ n, Json.get level "notify_user_id" = .int n
  email : Json.get level "email_to" = .null ∨ ∃ s, Json.get level "email_to" = .str s

/-- A breached clock that no window holds and whose next level is well formed and due. -/
def DueLevel (S : Setup) (now : ℤ) (c : SlaClock) : Prop :=
  c.state = .breached ∧ ∃ policy mt breachedAt levels level after, scope S now c = some (policy,mt) ∧
    c.breachedAt = some breachedAt ∧ escalationLevels S.py policy = .ok levels ∧
    levels[c.escalationLevel]? = some level ∧ WellFormed level after ∧
    0 ≤ breachedAt ∧ breachedAt + minutes after ≤ now ∧ now ≤ maxDatetime

/-- The stored chain is no JSON that can be read as a list of levels. -/
def Unreadable (py : PyLib) (policy : SlaPolicy) : Prop :=
  match py.loads ((policy.escalations.filter (· ≠ "")).getD "[]") with
  | .ok .null | .ok (.bool _) | .ok (.int _) | .ok (.float _) => True
  | .ok _ | .error (.valueError _) | .error .typeError => False
  | .error _ => True

/-- The wait of a level is no number of minutes. -/
def BadWait (py : PyLib) (level : List (String × Json)) : Prop :=
  match Json.get level "after_minutes" with
  | .float (.finite _) => False
  | .float _ => True
  | .str s => s ≠ "" ∧ py.int s = none
  | .arr items => items ≠ []
  | .obj members => members ≠ []
  | _ => False

/-- The due time of a level is no `datetime`. -/
def OutOfRange (breachedAt after : ℤ) : Prop :=
  after / 1440 < -999999999 ∨ 999999999 < after / 1440 ∨ breachedAt + minutes after < 0 ∨
    maxDatetime < breachedAt + minutes after

/-- The second loop does not get past this clock. -/
def Raises (S : Setup) (now : ℤ) (c : SlaClock) : Prop :=
  c.state = .breached ∧ ∃ policy mt breachedAt, scope S now c = some (policy,mt) ∧
    c.breachedAt = some breachedAt ∧ (Unreadable S.py policy ∨
      ∃ levels level, escalationLevels S.py policy = .ok levels ∧ levels[c.escalationLevel]? = some level ∧
        (BadWait S.py level ∨ ∃ after, afterMinutes S.py level = .ok after ∧ OutOfRange breachedAt after))

/-- The clocks as the second loop finds them. -/
def markedRows (S : Setup) (call : SweepCall) (T : ClockTable) : List SlaClock :=
  T.rows.map fun c => (mark S call c).1

/-- Every overdue clock is marked, and every due level is fired. -/
def Isolated (S : Setup) (call : SweepCall) (T : ClockTable) : Prop :=
  (∀ c ∈ T.rows, Overdue S call.now c → ∃ c', Keyed.find SlaClock.key c.key (sweep S call T.rows).1 = some c' ∧
    c'.state = .breached) ∧
  ∀ c ∈ markedRows S call T, DueLevel S call.now c → ∃ breachedAt after notices,
    Effect.fired c.key c.escalationLevel breachedAt after call.now notices ∈ (sweep S call T.rows).2.1

/-- No overdue clock fails on its own, and no clock with a due level fails on its own or
stands behind one that raises. -/
def Undisturbed (S : Setup) (call : SweepCall) (T : ClockTable) : Prop :=
  (∀ c ∈ T.rows, Overdue S call.now c → call.markFault c.key = none) ∧
  ∀ before c after, markedRows S call T = before ++ c::after → DueLevel S call.now c →
    call.fireFault c.key = false ∧ ∀ d ∈ before, ¬Raises S call.now d

/-! ### When the second loop raises -/

theorem escalationLevels_error (py : PyLib) (policy : SlaPolicy) :
    (∃ e, escalationLevels py policy = .error e) ↔ Unreadable py policy := by
  simp only [escalationLevels,Unreadable]
  cases py.loads ((policy.escalations.filter (· ≠ "")).getD "[]") with
  | ok v => cases v <;> simp
  | error e => cases e <;> simp

theorem afterMinutes_error (py : PyLib) (level : List (String × Json)) :
    (∃ e, afterMinutes py level = .error e) ↔ BadWait py level := by
  simp only [afterMinutes,BadWait]
  cases Json.get level "after_minutes" with
  | float x =>
    cases x with
    | finite q => by_cases hq : q = 0 <;> simp [Json.truthy,PyFloat.isZero,hq]
    | posInf | negInf | nan => simp [Json.truthy,PyFloat.isZero]
  | str s =>
    by_cases hs : s = ""
    · simp [hs,Json.truthy]
    · cases hi : py.int s <;> simp [hs,Json.truthy,hi]
  | arr items => cases items <;> simp [Json.truthy]
  | obj members => cases members <;> simp [Json.truthy]
  | null => simp [Json.truthy]
  | bool b => cases b <;> simp [Json.truthy]
  | int n => by_cases hn : n = 0 <;> simp [hn,Json.truthy]

theorem chainDue_error (breachedAt after : ℤ) :
    (∃ e, chainDue breachedAt after = .error e) ↔ OutOfRange breachedAt after := by
  simp only [chainDue,OutOfRange]
  split
  · rename_i h
    simp only [Except.error.injEq,exists_eq',true_iff]
    omega
  · split
    · rename_i h
      simp only [Except.error.injEq,exists_eq',true_iff]
      omega
    · simp only [reduceCtorEq,exists_false,false_iff]
      omega

theorem chain_error (S : Setup) (call : SweepCall) (c : SlaClock) :
    (∃ e, chain S call c = .error e) ↔ Raises S call.now c := by
  constructor
  · rintro ⟨e,h⟩
    simp only [chain] at h
    split at h
    · cases h
    · rename_i hs
      split at h
      · rename_i policy mt breachedAt hscope hat
        refine ⟨by simpa using hs,policy,mt,breachedAt,hscope,hat,?_⟩
        split at h
        · rename_i e' hlevels
          exact Or.inl ((escalationLevels_error S.py policy).mp ⟨e',hlevels⟩)
        · rename_i levels hlevels
          split at h
          · cases h
          · rename_i level hlevel
            refine Or.inr ⟨levels,level,hlevels,hlevel,?_⟩
            split at h
            · rename_i e' hafter
              exact Or.inl ((afterMinutes_error S.py level).mp ⟨e',hafter⟩)
            · rename_i after hafter
              refine Or.inr ⟨after,hafter,?_⟩
              split at h
              · rename_i e' hdue
                exact (chainDue_error breachedAt after).mp ⟨e',hdue⟩
              · repeat' split at h
                all_goals cases h
      · cases h
  · rintro ⟨hs,policy,mt,breachedAt,hscope,hat,hbad | ⟨levels,level,hlevels,hlevel,hbad | ⟨after,hafter,hbad⟩⟩⟩
    · obtain ⟨e,he⟩ := (escalationLevels_error S.py policy).mpr hbad
      exact ⟨e,by simp [chain,hs,hscope,hat,he]⟩
    · obtain ⟨e,he⟩ := (afterMinutes_error S.py level).mpr hbad
      exact ⟨e,by simp [chain,hs,hscope,hat,hlevels,hlevel,he]⟩
    · obtain ⟨e,he⟩ := (chainDue_error breachedAt after).mpr hbad
      exact ⟨e,by simp [chain,hs,hscope,hat,hlevels,hlevel,hafter,he]⟩

theorem chain_isOk (S : Setup) (call : SweepCall) (c : SlaClock) :
    (chain S call c).isOk = true ↔ ¬Raises S call.now c := by
  rw [← chain_error]
  cases chain S call c <;> simp [Except.isOk,Except.toBool]

/-- The second loop gets to a clock when nothing before it raises. -/
theorem reaches_append {S : Setup} {call : SweepCall} {before after : List SlaClock} {c : SlaClock}
    (h : ((before++c::after).map SlaClock.key).Nodup) :
    reaches S call c.key (before++c::after) = true ↔ ∀ d ∈ before, ¬Raises S call.now d := by
  induction before with
  | nil => simp [reaches]
  | cons d before ih =>
    simp only [List.cons_append,List.map_cons,List.nodup_cons] at h
    have hne : d.key ≠ c.key := fun hkey => h.1 (List.mem_map.mpr ⟨c,by simp,hkey.symm⟩)
    simp [reaches,hne,chain_isOk,ih h.2]

/-! ### A due level fires -/

theorem afterMinutes_wellFormed (py : PyLib) {level : List (String × Json)} {after : ℤ}
    (h : WellFormed level after) : afterMinutes py level = .ok after := by
  rcases h.wait with hw | ⟨hw,rfl⟩
  · by_cases hzero : after = 0 <;> simp [afterMinutes,hw,Json.truthy,hzero]
  · simp [afterMinutes,hw,Json.truthy]

theorem chainDue_ok {breachedAt after now : ℤ} (h₀ : 0 ≤ breachedAt) (hafter : 0 ≤ after)
    (hdue : breachedAt + minutes after ≤ now) (hnow : now ≤ maxDatetime) :
    chainDue breachedAt after = .ok (breachedAt + minutes after) := by
  have hdays : ¬(after / 1440 < -999999999 ∨ 999999999 < after / 1440) := by
    simp only [minutes,maxDatetime] at hdue hnow
    omega
  have hrange : ¬(breachedAt + minutes after < 0 ∨ maxDatetime < breachedAt + minutes after) := by
    simp only [minutes] at hdue ⊢
    omega
  simp only [chainDue]
  rw [if_neg hdays,if_neg hrange]

/-- The members of a level that a notice is built from have the types it needs. -/
structure Sendable (level : List (String × Json)) : Prop where
  message : (Json.get level "message").truthy → ∃ s, Json.get level "message" = .str s
  user : Json.get level "notify_target" ≠ .str "owner" → (Json.get level "notify_user_id").truthy →
    ∃ uid, userOf (Json.get level "notify_user_id") = .ok uid
  email : (Json.get level "email_to").truthy → ∃ s, Json.get level "email_to" = .str s

theorem textOf_ok (v : Json) : (∃ s, textOf v = .ok s) ↔ ∃ s, v = .str s := by
  cases v <;> simp [textOf]

theorem levelMessage_ok (mt : MetaTable) (key : ClockKey) (level : List (String × Json)) :
    (∃ template, levelMessage mt key level = .ok template) ↔
      ((Json.get level "message").truthy → ∃ s, Json.get level "message" = .str s) := by
  simp only [levelMessage]
  split
  · rename_i h
    simp [textOf_ok,h]
  · rename_i h
    simp [h]

theorem levelUser_ok (row : Row) (level : List (String × Json)) : (∃ uid, levelUser row level = .ok uid) ↔
    (Json.get level "notify_target" ≠ .str "owner" → (Json.get level "notify_user_id").truthy →
      ∃ uid, userOf (Json.get level "notify_user_id") = .ok uid) := by
  simp only [levelUser]
  split
  · rename_i h
    simp [h]
  · rename_i howner
    have hother : Json.get level "notify_target" ≠ .str "owner" := howner
    simp only [hother,ne_eq,not_false_eq_true,true_implies]
    split <;> simp_all

theorem levelEmail_ok (S : Setup) (row : Row) (level : List (String × Json)) (msg : String) :
    (∃ email, levelEmail S row level msg = .ok email) ↔
      ((Json.get level "email_to").truthy → ∃ s, Json.get level "email_to" = .str s) := by
  simp only [levelEmail]
  split
  · rename_i h
    rw [← textOf_ok]
    cases textOf (Json.get level "email_to") <;> simp [h,Except.map]
  · rename_i h
    simp [h]

/-- A level goes out exactly when its members have the types a notice needs. -/
theorem fireEscalation_ok (S : Setup) (mt : MetaTable) (key : ClockKey) (row : Row)
    (level : List (String × Json)) :
    (∃ notices, fireEscalation S mt key row level = .ok notices) ↔ Sendable level := by
  have hparts : (∃ notices, fireEscalation S mt key row level = .ok notices) ↔
      ∃ template, levelMessage mt key level = .ok template ∧ (∃ uid, levelUser row level = .ok uid) ∧
        ∃ email, levelEmail S row level (Triggers.render S.py (some template) row) = .ok email := by
    simp only [fireEscalation,bind,Except.bind]
    cases levelMessage mt key level with
    | error e => simp
    | ok template =>
      simp only [Except.ok.injEq,exists_eq_left']
      cases levelUser row level with
      | error e => simp
      | ok uid =>
        cases levelEmail S row level (Triggers.render S.py (some template) row) with
        | error e => simp
        | ok email =>
          simp only [pure,Except.pure,Except.ok.injEq,exists_eq',and_self,iff_true]
          split <;> exact ⟨_,rfl⟩
  rw [hparts]
  simp only [levelUser_ok,levelEmail_ok]
  constructor
  · rintro ⟨template,hmessage,huser,hemail⟩
    exact ⟨(levelMessage_ok mt key level).mp ⟨template,hmessage⟩,huser,hemail⟩
  · intro h
    obtain ⟨template,hmessage⟩ := (levelMessage_ok mt key level).mpr h.message
    exact ⟨template,hmessage,h.user,h.email⟩

theorem WellFormed.sendable {level : List (String × Json)} {after : ℤ} (h : WellFormed level after) :
    Sendable level where
  message htruthy := h.message.resolve_left fun hnull => by simp [hnull,Json.truthy] at htruthy
  user _ htruthy := by
    obtain ⟨n,hn⟩ := h.user.resolve_left fun hnull => by simp [hnull,Json.truthy] at htruthy
    exact ⟨.int n,by rw [hn]; rfl⟩
  email htruthy := h.email.resolve_left fun hnull => by simp [hnull,Json.truthy] at htruthy

theorem chain_due {S : Setup} {call : SweepCall} {c : SlaClock} (h : DueLevel S call.now c) :
    ∃ breachedAt after notices, chainEffects S call c =
      if call.fireFault c.key then [.failed c.key]
      else [.fired c.key c.escalationLevel breachedAt after call.now notices] := by
  obtain ⟨hs,policy,mt,breachedAt,levels,level,after,hscope,hat,hlevels,hlevel,hwf,h₀,hdue,hnow⟩ := h
  obtain ⟨notices,hnotices⟩ := (fireEscalation_ok S mt c.key (call.row c.key) level).mpr hwf.sendable
  refine ⟨breachedAt,after,notices,?_⟩
  have hwait : ¬call.now < breachedAt + minutes after := by omega
  have hafter := afterMinutes_wellFormed S.py hwf
  have hchain := chainDue_ok h₀ hwf.nonneg hdue hnow
  cases hf : call.fireFault c.key <;>
    simp [chainEffects,chain,hs,hscope,hat,hlevels,hlevel,hafter,hchain,hwait,hf,hnotices]

/-! ### The whole call -/

section Call

variable {S : Setup} {call : SweepCall} {T : ClockTable}

theorem markedRows_keys : (markedRows S call T).map SlaClock.key = T.rows.map SlaClock.key :=
  mark_keys S call T.rows

/-- A marked clock comes from one row of the table, which its key finds. -/
theorem mem_markedRows {c : SlaClock} (h : c ∈ markedRows S call T) : ∃ c₀ ∈ T.rows, (mark S call c₀).1 = c ∧
    Keyed.find SlaClock.key c.key T.rows = some c₀ := by
  obtain ⟨c₀,hmem,rfl⟩ := List.mem_map.mp h
  exact ⟨c₀,hmem,rfl,by rw [mark_key]; exact Keyed.find_of_mem T.keysNodup hmem⟩

theorem mark_overdue {c : SlaClock} (h : Overdue S call.now c) :
    ((mark S call c).1.state = .breached ↔ call.markFault c.key = none) := by
  obtain ⟨hs,hdue,hscope⟩ := h
  rcases mark_cases S call c with hm | ⟨p,mt,-,-,⟨hbad,hm,-⟩ | ⟨written,-,⟨hno,-⟩ | ⟨-,hm⟩⟩⟩
  · obtain ⟨⟨p,mt⟩,hpm⟩ := Option.ne_none_iff_exists'.mp hscope
    cases hf : call.markFault c.key with
    | none => simp [mark,hs,hpm,hf,hdue] at hm
    | some stage => simp [hm,hs]
  · simp [hm,hs,hbad]
  · simp [hdue] at hno
  · have hf : call.markFault c.key = none := by
      by_contra hf
      obtain ⟨stage,hstage⟩ := Option.ne_none_iff_exists'.mp hf
      obtain ⟨⟨p',mt'⟩,hpm⟩ := Option.ne_none_iff_exists'.mp hscope
      have hrun : (mark S call c).1.state = .running := by cases stage <;> simp [mark,hs,hpm,hstage]
      simp [hm,breach] at hrun
    simp [hm,hf,breach]

/-- An overdue clock ends breached exactly when nothing of its own fails. -/
theorem sweep_overdue {c : SlaClock} (hc : c ∈ T.rows) (h : Overdue S call.now c) :
    (∃ c', Keyed.find SlaClock.key c.key (sweep S call T.rows).1 = some c' ∧ c'.state = .breached) ↔
      call.markFault c.key = none := by
  rw [find_sweep,Keyed.find_of_mem T.keysNodup hc,← mark_overdue h]
  have hstate : (swept S call (reached S call c.key T.rows) c).state = (mark S call c).1.state := by
    simp only [swept]
    split
    · exact chained_state S call _
    · rfl
  simp [hstate]

/-- A fired level comes from the second loop, which has got to its clock. -/
theorem mem_sweep_fired {k : ClockKey} {c : SlaClock} (hfind : Keyed.find SlaClock.key k T.rows = some c)
    {e : Effect} (hkey : e.key = k) (hfired : e.firedLevel ≠ none) :
    e ∈ (sweep S call T.rows).2.1 ↔
      reached S call k T.rows = true ∧ e ∈ chainEffects S call (mark S call c).1 := by
  have hown : e ∈ (sweep S call T.rows).2.1 ↔ e ∈ own k (sweep S call T.rows).2.1 := by simp [own,hkey]
  rw [hown,own_sweep S call k T.keysNodup,hfind]
  simp only [sweptEffects,List.mem_append]
  constructor
  · rintro (he | he)
    · exact absurd (mark_firedLevel he) hfired
    · split at he
      · exact ⟨‹_›,he⟩
      · cases he
  · rintro ⟨hr,he⟩
    rw [if_pos hr]
    exact Or.inr he

/-- A due level fires exactly when the second loop gets to it and its own statements succeed. -/
theorem sweep_due {before after : List SlaClock} {c : SlaClock}
    (hsplit : markedRows S call T = before ++ c::after) (h : DueLevel S call.now c) :
    (∃ breachedAt wait notices, Effect.fired c.key c.escalationLevel breachedAt wait call.now notices ∈
      (sweep S call T.rows).2.1) ↔
      call.fireFault c.key = false ∧ ∀ d ∈ before, ¬Raises S call.now d := by
  have hmem : c ∈ markedRows S call T := by simp [hsplit]
  obtain ⟨c₀,-,rfl,hfind⟩ := mem_markedRows hmem
  have hkeys : ((before ++ (mark S call c₀).1::after).map SlaClock.key).Nodup := by
    rw [← hsplit,markedRows_keys]
    exact T.keysNodup
  have hreach : reached S call (mark S call c₀).1.key T.rows = true ↔ ∀ d ∈ before, ¬Raises S call.now d := by
    rw [← reaches_append hkeys,← hsplit]
    rfl
  obtain ⟨at_,wait_,notices_,heffects⟩ := chain_due h
  constructor
  · rintro ⟨breachedAt,wait,notices,he⟩
    obtain ⟨hr,he⟩ := (mem_sweep_fired hfind rfl (by simp [Effect.firedLevel])).mp he
    refine ⟨?_,hreach.mp hr⟩
    cases hf : call.fireFault (mark S call c₀).1.key with
    | false => rfl
    | true =>
      rw [heffects,if_pos hf] at he
      cases List.mem_singleton.mp he
  · rintro ⟨hf,hbefore⟩
    refine ⟨at_,wait_,notices_,(mem_sweep_fired hfind rfl (by simp [Effect.firedLevel])).mpr
      ⟨hreach.mpr hbefore,?_⟩⟩
    rw [heffects,hf]
    exact List.mem_singleton.mpr rfl

end Call

def mixedPolicies : List SlaPolicy :=
  [{ answerInTime with escalations := some "null" },{ answerInTime with id := 2, escalations := some chainText }]

def mixed : Setup := helpdesk mixedPolicies [] (by decide)

def breachedClock (policyId : ℕ) : SlaClock where
  key := ⟨policyId,"tickets","7"⟩
  state := .breached
  startedAt := some 0
  dueAt := some (seconds 60)
  breachedAt := some (seconds 60)
  breachNotified := true
  updatedAt := seconds 60

def bothBreached : ClockTable where
  rows := [breachedClock 1,breachedClock 2]
  keysNodup := by decide

def laterSweep : SweepCall where
  now := seconds 600
  row := fun _ _ => .null
  markFault := fun _ => none
  fireFault := fun _ => false

end Sla
end Biggy
