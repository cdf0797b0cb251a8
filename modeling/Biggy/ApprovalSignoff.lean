import Biggy.Run
import Biggy.Approvals
import Mathlib.Data.List.Induction

/-!
# The sign-off trail of one request

All `act` calls on one request, taken one after the other. The trail keeps, beside
each recorded action, the user who performed it. `Inv` links the trail to the
request: every position below the current one is fully signed, nobody signs above
it, and only the last action of an approved request applied the transition.
-/
namespace Biggy
namespace Signoff

open Approvals Run

/-- A recorded action, who performed it and whether it applied the transition. -/
structure Event where
  user : AppUser
  action : ApprovalAction
  applies : Bool

structure State where
  request : ApprovalRequest
  trail : List Event

def State.actions (s : State) : List ApprovalAction := s.trail.map Event.action

/-- A refused call raises and leaves everything as it was. -/
def step (T : StepTable) (s : State) (c : Call) : State :=
  match act T.rows s.actions s.request c.user c.decision c.comment c.now with
  | .error _ => s
  | .ok r => ⟨r.request,s.trail ++ [⟨c.user,r.action,r.applies⟩]⟩

/-- A request as `request_transition` files it. -/
def start (T : StepTable) (mt : MetaTable) (rowPk : String) (d : Diversion) (user : AppUser) (id : ℕ) :
    State := ⟨newRequest T.rows mt rowPk d user id,[]⟩

/-- The trail holds an approve action for the step. -/
def Signed (trail : List Event) (t : ApprovalStep) : Prop :=
  ∃ e ∈ trail, e.action.stepId = t.id ∧ e.action.decision = .approve

theorem Signed.append {trail : List Event} {t : ApprovalStep} (h : Signed trail t) (more : List Event) :
    Signed (trail++more) t := by
  obtain ⟨e,he,hs⟩ := h
  exact ⟨e,List.mem_append_left more he,hs⟩

structure Inv (T : StepTable) (s : State) : Prop where
  /-- Every action satisfies a step its user is eligible for, at or below the current position. -/
  known : ∀ e ∈ s.trail, ∃ t ∈ requestSteps T.rows s.request, e.action.stepId = t.id ∧
    t.position ≤ s.request.currentPosition ∧ eligible t e.user = true
  below : ∀ t ∈ requestSteps T.rows s.request, t.position < s.request.currentPosition → Signed s.trail t
  ordered : ∀ before e, before ++ [e] <+: s.trail → ∀ t ∈ requestSteps T.rows s.request,
    ∀ u ∈ requestSteps T.rows s.request, e.action.stepId = u.id → t.position < u.position →
      Signed before t
  pending : s.request.state = .pending →
    ∀ e ∈ s.trail, e.action.decision ≠ .reject ∧ e.applies = false
  approved : s.request.state = .approved →
    (∀ t ∈ requestSteps T.rows s.request, Signed s.trail t) ∧
      ∀ e ∈ s.trail, e.action.decision ≠ .reject
  once : ∀ before e, before ++ [e] <+: s.trail → e.applies = true →
    ∀ e' ∈ before, e'.action.decision ≠ .reject ∧ e'.applies = false

theorem start_inv (T : StepTable) (mt : MetaTable) (rowPk : String) (d : Diversion) (user : AppUser)
    (id : ℕ) : Inv T (start T mt rowPk d user id) where
  known := by simp [start]
  below := by
    intro t ht hlt
    have hle := (newRequest_position ht).1
    simp only [start] at hlt
    omega
  ordered := by simp [start]
  pending := by simp [start]
  approved := by simp [start,newRequest]
  once := by simp [start]

/-- With nothing left open at the current position, its steps are all signed. -/
theorem signed_of_closed {T : StepTable} {s : State} {e : Event} {t : ApprovalStep}
    (hclosed : openSteps T.rows (s.actions ++ [e.action]) s.request = [])
    (ht : t ∈ requestSteps T.rows s.request) (hpos : t.position = s.request.currentPosition) :
    Signed (s.trail ++ [e]) t := by
  have happr : approvedIn (s.actions ++ [e.action]) s.request t = true := by
    by_contra hno
    have hmem : t ∈ openSteps T.rows (s.actions ++ [e.action]) s.request :=
      mem_openSteps.mpr ⟨ht,hpos,by simpa using hno⟩
    simp [hclosed] at hmem
  obtain ⟨a,ha,-,hdec,hid⟩ := approvedIn_iff.mp happr
  have hsplit : s.actions ++ [e.action] = (s.trail ++ [e]).map Event.action := by simp [State.actions]
  rw [hsplit] at ha
  obtain ⟨e',he',rfl⟩ := List.mem_map.mp ha
  exact ⟨e',he',hid,hdec⟩

/-- What an accepted act adds to the trail: a decision on an open step by an eligible user. -/
structure Records (T : StepTable) (s : State) (decision : String) (t₀ : ApprovalStep) (e : Event) : Prop where
  isOpen : t₀ ∈ openSteps T.rows s.actions s.request
  mayAct : eligible t₀ e.user = true
  onStep : e.action.stepId = t₀.id
  decided : e.action.decision = if decision = "reject" then .reject else .approve
  final : e.applies = decide (outcome T.rows (s.actions++[e.action]) s.request decision = .approve)

section Act

variable {T : StepTable} {s : State} {decision : String} {t₀ : ApprovalStep} {e : Event}

theorem known_act (hs : Inv T s) (he : Records T s decision t₀ e) {p : ℤ} (hle : s.request.currentPosition ≤ p) :
    ∀ e' ∈ s.trail ++ [e], ∃ t ∈ requestSteps T.rows s.request, e'.action.stepId = t.id ∧ t.position ≤ p ∧
      eligible t e'.user = true := by
  obtain ⟨hmem,hpos,-⟩ := mem_openSteps.mp he.isOpen
  refine List.forall_mem_append.mpr ⟨?_,?_⟩
  · intro e' he'
    obtain ⟨t,ht,hid,hpt,heli⟩ := hs.known e' he'
    exact ⟨t,ht,hid,hpt.trans hle,heli⟩
  · exact List.forall_mem_singleton.mpr ⟨t₀,hmem,he.onStep,hpos.le.trans hle,he.mayAct⟩

/-- Everything below the step of the new action is signed before it. -/
theorem ordered_act (hs : Inv T s) (he : Records T s decision t₀ e) (before : List Event) (e' : Event)
    (hpre : before ++ [e'] <+: s.trail ++ [e]) : ∀ t ∈ requestSteps T.rows s.request,
      ∀ u ∈ requestSteps T.rows s.request, e'.action.stepId = u.id → t.position < u.position →
        Signed before t := by
  intro t ht u hu hid hlt
  rcases List.prefix_concat_iff.mp hpre with heq | hpre
  · obtain ⟨rfl,hlast⟩ := List.append_inj' heq rfl
    obtain rfl : e' = e := by simpa using hlast
    obtain ⟨hmem,hpos,-⟩ := mem_openSteps.mp he.isOpen
    have hsame : t₀ = u := step_unique T hmem hu (he.onStep.symm.trans hid)
    have hbelow : t.position < s.request.currentPosition := by
      rw [← hpos,hsame]
      exact hlt
    exact hs.below t ht hbelow
  · exact hs.ordered before e' hpre t ht u hu hid hlt

/-- Nothing in front of the new action is a rejection or has applied the transition. -/
theorem once_act (hs : Inv T s) (hp : s.request.state = .pending) (before : List Event) (e' : Event)
    (hpre : before ++ [e'] <+: s.trail ++ [e]) (happ : e'.applies = true) :
    ∀ e'' ∈ before, e''.action.decision ≠ .reject ∧ e''.applies = false := by
  rcases List.prefix_concat_iff.mp hpre with heq | hpre
  · obtain ⟨rfl,-⟩ := List.append_inj' heq rfl
    exact hs.pending hp
  · exact hs.once before e' hpre happ

theorem clean_act (hs : Inv T s) (hp : s.request.state = .pending) (he : Records T s decision t₀ e)
    (hd : decision ≠ "reject") : ∀ e' ∈ s.trail ++ [e], e'.action.decision ≠ .reject := by
  have hnew : e.action.decision ≠ .reject := by simp [he.decided,hd]
  exact List.forall_mem_append.mpr ⟨fun e' he' => (hs.pending hp e' he').1,List.forall_mem_singleton.mpr hnew⟩

theorem unapplied_act (hs : Inv T s) (hp : s.request.state = .pending) (he : Records T s decision t₀ e)
    (ho : outcome T.rows (s.actions++[e.action]) s.request decision ≠ .approve) :
    ∀ e' ∈ s.trail ++ [e], e'.applies = false := by
  have hnew : e.applies = false := by simp [he.final,ho]
  exact List.forall_mem_append.mpr ⟨fun e' he' => (hs.pending hp e' he').2,List.forall_mem_singleton.mpr hnew⟩

theorem below_act (hs : Inv T s) : ∀ t ∈ requestSteps T.rows s.request,
    t.position < s.request.currentPosition → Signed (s.trail ++ [e]) t :=
  fun t ht hlt => (hs.below t ht hlt).append [e]

/-- What one accepted act does to the invariant, by the outcome it decides. -/
theorem act_inv (hs : Inv T s) (hp : s.request.state = .pending) (he : Records T s decision t₀ e) (now : ℤ) :
    Inv T ⟨settle s.request now (outcome T.rows (s.actions++[e.action]) s.request decision),s.trail ++ [e]⟩ := by
  have hreject : outcome T.rows (s.actions++[e.action]) s.request decision ≠ .reject → decision ≠ "reject" :=
    fun h hd => h (outcome_reject.mpr hd)
  have hunapplied := unapplied_act hs hp he
  cases ho : outcome T.rows (s.actions++[e.action]) s.request decision with
  | reject =>
    exact {
      known := known_act hs he le_rfl
      below := below_act hs
      ordered := ordered_act hs he
      pending := by simp [settle]
      approved := by simp [settle]
      once := once_act hs hp }
  | stay =>
    have hd : decision ≠ "reject" := hreject (by simp [ho])
    have hfree := hunapplied (by simp [ho])
    exact {
      known := known_act hs he le_rfl
      below := below_act hs
      ordered := ordered_act hs he
      pending := fun _ e' he' => ⟨clean_act hs hp he hd e' he',hfree e' he'⟩
      approved := by simp [settle,hp]
      once := once_act hs hp }
  | advance p =>
    have hd : decision ≠ "reject" := hreject (by simp [ho])
    have hfree := hunapplied (by simp [ho])
    obtain ⟨hclosed,hnext⟩ := outcome_advance ho
    obtain ⟨hlt,-,hleast⟩ := nextPosition_some hnext
    have hbelow : ∀ t ∈ requestSteps T.rows s.request, t.position < p → Signed (s.trail ++ [e]) t := by
      intro t ht htp
      rcases lt_trichotomy t.position s.request.currentPosition with h | h | h
      · exact below_act hs t ht h
      · exact signed_of_closed hclosed ht h
      · have hge : p ≤ t.position := hleast t ht h
        omega
    exact {
      known := known_act hs he hlt.le
      below := hbelow
      ordered := ordered_act hs he
      pending := fun _ e' he' => ⟨clean_act hs hp he hd e' he',hfree e' he'⟩
      approved := by simp [settle,hp]
      once := once_act hs hp }
  | approve =>
    have hd : decision ≠ "reject" := hreject (by simp [ho])
    obtain ⟨hclosed,hlast⟩ := outcome_approve ho
    have hall : ∀ t ∈ requestSteps T.rows s.request, Signed (s.trail ++ [e]) t := by
      intro t ht
      rcases (nextPosition_none hlast ht).lt_or_eq with h | h
      · exact below_act hs t ht h
      · exact signed_of_closed hclosed ht h
    exact {
      known := known_act hs he le_rfl
      below := below_act hs
      ordered := ordered_act hs he
      pending := by simp [settle]
      approved := fun _ => ⟨hall,clean_act hs hp he hd⟩
      once := once_act hs hp }

end Act

/-- A call is refused and changes nothing, or records one action and keeps the invariant. -/
theorem step_inv (T : StepTable) (s : State) (c : Call) (hs : Inv T s) : Inv T (step T s c) := by
  simp only [step]
  cases h : act T.rows s.actions s.request c.user c.decision c.comment c.now with
  | error e => exact hs
  | ok r =>
    obtain ⟨hp,t₀,ht₀,heli,haction,hrequest,happ⟩ := act_ok h
    have hrecords : Records T s c.decision t₀ ⟨c.user,r.action,r.applies⟩ :=
      { isOpen := ht₀
        mayAct := heli
        onStep := by simp [haction,newAction]
        decided := by simp [haction,newAction]
        final := happ }
    simpa only [hrequest] using act_inv hs hp hrecords c.now

theorem exec_inv (T : StepTable) (mt : MetaTable) (rowPk : String) (d : Diversion) (user : AppUser)
    (id : ℕ) (calls : List Call) : Inv T (exec (step T) (start T mt rowPk d user id) calls) :=
  invariant_all (Inv T) (step_inv T) (start_inv T mt rowPk d user id) calls

/-- A decided request refuses every further call. -/
theorem step_decided (T : StepTable) {s : State} (h : s.request.state ≠ .pending) (c : Call) :
    step T s c = s := by simp [step,act,h]

theorem exec_decided (T : StepTable) {s : State} (h : s.request.state ≠ .pending) (calls : List Call) :
    exec (step T) s calls = s := by
  induction calls with
  | nil => rfl
  | cons c calls ih => rw [exec_cons,step_decided T h,ih]

/-- If nothing before an element with the property has it, at most one element does. -/
theorem countP_le_one_of_first {α : Type*} (p : α → Bool) (xs : List α)
    (h : ∀ before x, before ++ [x] <+: xs → p x = true → ∀ y ∈ before, p y = false) :
    xs.countP p ≤ 1 := by
  induction xs using List.reverseRecOn with
  | nil => simp
  | append_singleton xs x ih =>
    rw [List.countP_append,List.countP_singleton]
    cases hx : p x with
    | false =>
      have hle := ih fun before y hpre => h before y (hpre.trans (List.prefix_append xs [x]))
      simpa using hle
    | true =>
      have hzero : xs.countP p = 0 := List.countP_eq_zero.mpr fun y hy => by
        simp [h xs x (List.prefix_refl _) hx y hy]
      simp [hzero]

/-- Sign-off is complete, in order and final, over every sequence of acts. -/
theorem signoff_exec (T : StepTable) (mt : MetaTable) (rowPk : String) (d : Diversion) (user : AppUser)
    (id : ℕ) (calls : List Call) :
    let s := exec (step T) (start T mt rowPk d user id) calls
    (s.request.state = .approved → ∀ t ∈ requestSteps T.rows s.request, ∃ e ∈ s.trail,
      e.action.stepId = t.id ∧ e.action.decision = .approve ∧ eligible t e.user = true) ∧
    (∀ before e, before ++ [e] <+: s.trail → ∃ u ∈ requestSteps T.rows s.request,
      e.action.stepId = u.id ∧ ∀ t ∈ requestSteps T.rows s.request, t.position < u.position →
        Signed before t) ∧
    (s.request.state ≠ .pending → ∀ more, exec (step T) s more = s) ∧
    s.trail.countP Event.applies ≤ 1 ∧
    ∀ before e, before ++ [e] <+: s.trail → e.applies = true →
      ∀ e' ∈ before, e'.action.decision ≠ .reject := by
  intro s
  have hs : Inv T s := exec_inv T mt rowPk d user id calls
  refine ⟨fun hap t ht => ?_,fun before e hpre => ?_,exec_decided T,?_,
    fun before e hpre happ e' he' => (hs.once before e hpre happ e' he').1⟩
  · obtain ⟨e,he,hid,hdec⟩ := (hs.approved hap).1 t ht
    obtain ⟨u,hu,hu_id,-,heli⟩ := hs.known e he
    obtain rfl : t = u := step_unique T ht hu (hid.symm.trans hu_id)
    exact ⟨e,he,hid,hdec,heli⟩
  · obtain ⟨u,hu,hid,-,-⟩ := hs.known e (hpre.subset (by simp))
    exact ⟨u,hu,hid,fun t ht hlt => hs.ordered before e hpre t ht u hu hid hlt⟩
  · exact countP_le_one_of_first Event.applies s.trail fun before e hpre happ e' he' =>
      (hs.once before e hpre happ e' he').2

end Signoff
end Biggy
