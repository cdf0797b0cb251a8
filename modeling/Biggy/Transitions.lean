import Biggy.RecordService

/-!
# Transitions

An update hands the row as it was before to the trigger rules and the feeds of the table. `update` reads that row under
some configurations only, and a feed on a transition may be handed an empty row in its place.
-/
namespace Biggy
namespace Transitions

open RecordService

inductive RecordEvent
  | create | update | transition | delete | scheduled
  deriving DecidableEq

/-- The columns by which rules and feeds are matched. -/
structure Watch where
  id : ℕ
  active : Bool := true
  event : RecordEvent
  fieldId : Option ℕ := none
  fromState : Option String := none
  toState : Option String := none
  condition : Row → Bool := fun _ => true

/-- A trigger rule; its action may set a field of the record. -/
structure TriggerRule extends Watch where
  setField : Option (ℕ × Value) := none

/-- A table with its trigger rules and feeds in the order of their ids. -/
structure Config where
  table : MetaTable
  rules : List TriggerRule
  feeds : List Watch
  evaluate : Evaluator

/-- A state of a rule admits a value. -/
def fits (state : Option String) (v : Value) : Bool :=
  match state with
  | none => true
  | some s => s == "" || v = .text s

/-- `_matches`, for the event `update`. -/
def ruleMatches (mt : MetaTable) (w : Watch) (old new : Row) : Bool :=
  if w.event = .transition then
    match w.fieldId.bind mt.field with
    | none => false
    | some f => old f.physName ≠ new f.physName && fits w.fromState (old f.physName) && fits w.toState (new f.physName)
  else w.event = .update

/-- The rule or feed is looked up for an update. -/
def Watch.listens (w : Watch) : Bool := w.active && (w.event = .update || w.event = .transition)

/-- A rule or a feed with the rows it is handed and what is stored when it is looked at. -/
structure Look where
  watch : Watch
  old : Row
  new : Row
  data : Physical

section Update

variable (C : Config) (pk : Value)

/-- `_run`: the record and the row that the next rule sees. -/
def run (rule : TriggerRule) (data : Physical) (new : Row) : Physical × Row :=
  match rule.setField.bind fun p => (C.table.field p.1).map fun f => (f.physName,p.2) with
  | none => (data,new)
  | some p =>
    match data.updateRow pk [p] with
    | .error _ => (data,new)
    | .ok data' => (data',(data'.getRow pk).getD new)

/-- The loop of `fire`. -/
def fireRules (old : Row) : List TriggerRule → Physical → Row → List Look × Physical
  | [], data, _ => ([],data)
  | rule::rules, data, new =>
    let after := if ruleMatches C.table rule.toWatch old new && rule.condition new then run C pk rule data new
      else (data,new)
    let rest := fireRules old rules after.1 after.2
    (⟨rule.toWatch,old,new,data⟩::rest.1,rest.2)

/-- `triggers.fire` after an update. -/
def fire (old : Row) (data : Physical) : List Look × Physical :=
  fireRules C pk old (C.rules.filter fun r => r.listens) data (oldRow data pk)

/-- `feeds.run_for_event` after an update. -/
def runForEvent (old : Row) (data : Physical) : List Look :=
  (C.feeds.filter Watch.listens).map fun feed => ⟨feed,old,oldRow data pk,data⟩

/-- `update` reads the row before it writes. -/
def readsOld (values : Values) : Bool :=
  C.table.trackAudit || C.rules.any (fun r => r.active) || hasFormulas C.table ||
    C.table.fields.any fun f => decide (f.dataType = .user) && values.has f.physName

/-- What `update` hands on as the row before. -/
def handed (data : Physical) (values : Values) : Row :=
  if readsOld C values then oldRow data pk else fun _ => .null

/-- Every rule and feed that an update of a record looks at. -/
def update (data : Physical) (values : Values) (userId : Option ℕ) (now : ℤ) : Except String (List Look) :=
  (RecordService.update C.evaluate C.table data pk values userId now).map fun data' =>
    let fired := fire C pk (handed C pk data values) data'
    fired.1 ++ runForEvent C pk (handed C pk data values) fired.2

/-- A field has gone from one value to another, and both fit the states of the rule. -/
def Changed (w : Watch) (before after : Value) : Prop :=
  before ≠ after ∧ fits w.fromState before = true ∧ fits w.toState after = true

/-- A transition on a field matches exactly when the stored value has changed accordingly. -/
def Exact (data : Physical) (look : Look) : Prop :=
  look.watch.event = .transition → ∀ f, look.watch.fieldId.bind C.table.field = some f →
    (ruleMatches C.table look.watch look.old look.new = true ↔
      Changed look.watch (oldRow data pk f.physName) (oldRow look.data pk f.physName))

/-- A feed that does not know the value before decides as if it did. -/
def Blind (w : Watch) (before after : Value) : Prop :=
  before = .null ∨ fits w.toState after = false ∨
    (fits w.fromState .null = false ∧ (before = after ∨ fits w.fromState before = false)) ∨
    (fits w.fromState .null = true ∧ after ≠ .null ∧ before ≠ after)

end Update

section Proofs

variable {C : Config} {pk : Value}

theorem ruleMatches_transition {w : Watch} {old new : Row} (hevent : w.event = .transition) {f : MetaField}
    (hf : w.fieldId.bind C.table.field = some f) :
    ruleMatches C.table w old new = true ↔ Changed w (old f.physName) (new f.physName) := by
  simp [ruleMatches,hevent,hf,Changed,and_assoc]

/-- A record that an update does not find was not there before. -/
theorem getRow_updateRow_none {data data' : Physical} {vs : Values} (h : data.updateRow pk vs = .ok data')
    (hnone : data'.getRow pk = none) : data.getRow pk = none := by
  have hkey : data'.key = data.key := by rw [Physical.updateRow_ok h]
  rw [Physical.getRow,hkey,Physical.rowAt_updateRow h,if_pos rfl,Option.map_eq_none_iff] at hnone
  exact hnone

theorem run_stored {rule : TriggerRule} {data : Physical} {new : Row} (hnew : new = oldRow data pk) :
    (run C pk rule data new).2 = oldRow (run C pk rule data new).1 pk := by
  rw [run]
  split
  · exact hnew
  · split
    · exact hnew
    · rename_i data' hdata
      cases hrow : data'.getRow pk with
      | some row => simp [oldRow,hrow]
      | none =>
        have hbefore := getRow_updateRow_none hdata hrow
        simp [oldRow,hrow,hnew,hbefore]

/-- Every rule is handed the stored row. -/
theorem fireRules_stored {old : Row} {rules : List TriggerRule} {data : Physical} {new : Row}
    (hnew : new = oldRow data pk) {look : Look} (hlook : look ∈ (fireRules C pk old rules data new).1) :
    look.old = old ∧ look.new = oldRow look.data pk := by
  induction rules generalizing data new with
  | nil => cases hlook
  | cons rule rules ih =>
    rcases List.mem_cons.mp hlook with rfl | hlook
    · exact ⟨rfl,hnew⟩
    · refine ih ?_ hlook
      split
      · exact run_stored hnew
      · exact hnew

theorem update_looks {data : Physical} {values : Values} {userId : Option ℕ} {now : ℤ} {looks : List Look}
    (h : update C pk data values userId now = .ok looks) {look : Look} (hlook : look ∈ looks) :
    look.old = handed C pk data values ∧ look.new = oldRow look.data pk := by
  cases hdata : RecordService.update C.evaluate C.table data pk values userId now with
  | error e =>
    rw [update,hdata] at h
    cases h
  | ok data' =>
    rw [update,hdata] at h
    obtain rfl := Except.ok.inj h
    rcases List.mem_append.mp hlook with hrule | hfeed
    · exact fireRules_stored rfl hrule
    · obtain ⟨feed,-,rfl⟩ := List.mem_map.mp hfeed
      exact ⟨rfl,rfl⟩

/-- A look is exact when what it is handed decides like the value before. -/
theorem exact_iff {data : Physical} {look : Look} (hnew : look.new = oldRow look.data pk) :
    Exact C pk data look ↔ (look.watch.event = .transition → ∀ f, look.watch.fieldId.bind C.table.field = some f →
      (Changed look.watch (look.old f.physName) (oldRow look.data pk f.physName) ↔
        Changed look.watch (oldRow data pk f.physName) (oldRow look.data pk f.physName))) := by
  refine forall_congr' fun hevent => forall_congr' fun f => forall_congr' fun hf => ?_
  rw [ruleMatches_transition hevent hf,hnew]

theorem fits_of_blank {state : Option String} (h : fits state .null = true) (v : Value) : fits state v = true := by
  cases state with
  | none => rfl
  | some s =>
    have hs : s = "" := by simpa [fits] using h
    simp [fits,hs]

/-- An empty row in place of the row before decides alike exactly in the blind cases. -/
theorem changed_null_iff (w : Watch) (before after : Value) :
    (Changed w .null after ↔ Changed w before after) ↔ Blind w before after := by
  simp only [Changed,Blind]
  by_cases hnull : before = .null
  · simp [hnull]
  · cases hto : fits w.toState after with
    | false => simp
    | true =>
      cases hfrom : fits w.fromState .null with
      | false => by_cases heq : before = after <;> cases hbefore : fits w.fromState before <;> simp_all
      | true =>
        have hbefore := fits_of_blank hfrom before
        by_cases hafter : after = .null
        · simp [hnull,hafter,hbefore]
        · simp only [hbefore,hnull,and_true,false_or,Bool.true_eq_false,false_and,true_and,ne_eq,hafter,
            not_false_eq_true]
          simp [Ne.symm hafter]

/-- What a field holds after an update without formulas. -/
theorem update_stored {data data' : Physical} {values : Values} {userId : Option ℕ} {now : ℤ}
    (h : RecordService.update C.evaluate C.table data pk values userId now = .ok data')
    (hplain : hasFormulas C.table = false) {f : MetaField} (hf : f ∈ C.table.fields)
    (hstored : oldRow data pk f.physName ≠ .null) :
    oldRow data' pk f.physName = (oldRow data pk).write (data.clean values) f.physName := by
  have hkey : data'.key = data.key := by rw [Physical.updateRow_ok h]
  have htype : f.dataType ≠ .formula := by
    intro htype
    have hany := List.any_eq_false.mp hplain f hf
    simp [htype] at hany
  have hrow := Physical.rowAt_updateRow h (data.key pk)
  rw [if_pos rfl] at hrow
  simp only [oldRow,Physical.getRow,hkey,hrow] at hstored ⊢
  cases hold : data.rowAt (data.key pk) with
  | none => simp [hold] at hstored
  | some row =>
    simp only [Option.map_some,Option.getD_some,Row.write,Physical.lookup_clean]
    rw [updateValues_lookup hf htype]

theorem field_mem {w : Watch} {f : MetaField} (h : w.fieldId.bind C.table.field = some f) : f ∈ C.table.fields := by
  obtain ⟨id,-,hid⟩ := Option.bind_eq_some_iff.mp h
  exact Keyed.mem_of_find hid

/-- Every transition rule and feed matches exactly the real changes of an update if and only if the update reads the
row before, or every transition feed decides alike without it. -/
theorem transitions_exact (C : Config) (pk : Value) (data : Physical) (values : Values) (userId : Option ℕ) (now : ℤ)
    (looks : List Look) (h : update C pk data values userId now = .ok looks) :
    (∀ look ∈ looks, Exact C pk data look) ↔ (readsOld C values = true ∨
      ∀ feed ∈ C.feeds, feed.active = true → feed.event = .transition → ∀ f, feed.fieldId.bind C.table.field = some f →
        Blind feed (oldRow data pk f.physName) ((oldRow data pk).write (data.clean values) f.physName)) := by
  by_cases hreads : readsOld C values = true
  · refine ⟨fun _ => Or.inl hreads,fun _ look hlook => ?_⟩
    obtain ⟨hold,hnew⟩ := update_looks h hlook
    rw [exact_iff hnew,hold,handed,if_pos hreads]
    exact fun _ f _ => Iff.rfl
  · rw [or_iff_right hreads]
    have hidle : hasFormulas C.table = false ∧ (C.rules.filter fun r => r.listens) = [] := by
      simp only [readsOld,Bool.or_eq_true,not_or,Bool.not_eq_true] at hreads
      refine ⟨hreads.1.2,List.filter_eq_nil_iff.mpr fun rule hrule => ?_⟩
      have hrules := List.any_eq_false.mp hreads.1.1.2 rule hrule
      simp only [Bool.not_eq_true] at hrules
      simp [Watch.listens,hrules]
    cases hdata : RecordService.update C.evaluate C.table data pk values userId now with
    | error e =>
      rw [update,hdata] at h
      cases h
    | ok data' =>
      rw [update,hdata] at h
      obtain rfl := Except.ok.inj h
      have hfired : ∀ old, fire C pk old data' = ([],data') := by
        intro old
        rw [fire,hidle.2]
        rfl
      have hempty : handed C pk data values = fun _ => .null := if_neg hreads
      simp only [hfired,List.nil_append,runForEvent,List.mem_map,List.mem_filter,hempty]
      -- without the row before a feed is exact where it is blind
      have hlook : ∀ feed : Watch, (Exact C pk data ⟨feed,fun _ => .null,oldRow data' pk,data'⟩ ↔
          (feed.event = .transition → ∀ f, feed.fieldId.bind C.table.field = some f →
            Blind feed (oldRow data pk f.physName) ((oldRow data pk).write (data.clean values) f.physName))) := by
        intro feed
        rw [exact_iff rfl]
        refine forall_congr' fun _ => forall_congr' fun f => forall_congr' fun hf => ?_
        rw [changed_null_iff]
        by_cases hstored : oldRow data pk f.physName = .null
        · exact ⟨fun _ => Or.inl hstored,fun _ => Or.inl hstored⟩
        · rw [update_stored hdata hidle.1 (field_mem hf) hstored]
      constructor
      · intro hexact feed hfeed hactive hevent
        have hlistens : feed.listens = true := by simp [Watch.listens,hactive,hevent]
        exact (hlook feed).mp (hexact _ ⟨feed,⟨hfeed,hlistens⟩,rfl⟩) hevent
      · rintro hblind look ⟨feed,⟨hfeed,hlistens⟩,rfl⟩
        have hactive : feed.active = true := by
          simp only [Watch.listens,Bool.and_eq_true] at hlistens
          exact hlistens.1
        exact (hlook feed).mpr fun hevent => hblind feed hfeed hactive hevent

end Proofs

/-! ### A feed on a table without rules -/

def status : MetaField where
  id := 1
  physName := "status"
  label := "Status"
  dataType := .enum

def note : MetaField where
  id := 2
  physName := "note"
  label := "Note"
  dataType := .text

/-- Tickets with one feed on the transitions of the status. -/
def tickets : Config where
  table :=
    { id := 1
      physName := "tickets"
      label := "Tickets"
      fields := [status,note]
      idsNodup := by decide
      namesNodup := by decide
      namesFree := by decide }
  rules := []
  feeds := [{ id := 1, event := .transition, fieldId := some 1 }]
  evaluate := fun _ _ => none

def ticket : Row := Row.write (fun _ => .null) [("id",.int 1),("status",.text "open")]

def ticketsData : Physical := ⟨["id","status","note"],"id",[ticket],id,fun _ => true⟩

/-- A note on a ticket makes the feed see a transition of the status. -/
theorem note_seen_as_transition : ¬∀ (C : Config) (pk : Value) (data : Physical) (values : Values) (userId : Option ℕ)
    (now : ℤ) (looks : List Look), update C pk data values userId now = .ok looks →
      ∀ look ∈ looks, Exact C pk data look := by
  intro h
  have hlook := h tickets (.int 1) ticketsData [("note",.text "called back")] none 0 _ rfl _ List.mem_cons_self
  have hmatch := (hlook rfl status rfl).mp (by decide)
  exact absurd hmatch.1 (by decide)

/-- The status of a ticket that had none. -/
theorem transitions_exact_tickets : ∃ looks, update tickets (.int 1)
    ⟨["id","status","note"],"id",[Row.write (fun _ => .null) [("id",.int 1)]],id,fun _ => true⟩ [("status",.text "open")] none 0 =
      .ok looks ∧ ∀ look ∈ looks, Exact tickets (.int 1)
        ⟨["id","status","note"],"id",[Row.write (fun _ => .null) [("id",.int 1)]],id,fun _ => true⟩ look := by
  refine ⟨_,rfl,(transitions_exact tickets (.int 1) _ _ none 0 _ rfl).mpr (Or.inr ?_)⟩
  intro feed hfeed _ _ f hf
  obtain rfl := List.mem_singleton.mp hfeed
  obtain rfl : status = f := Option.some.inj hf
  exact Or.inl rfl

end Transitions
end Biggy
