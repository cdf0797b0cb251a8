import Biggy.Run
import Biggy.Approvals

/-!
# Interleaved acts on one request

Each worker runs one `act` as a transaction of its own. It loads the request once,
reads the committed actions twice, before and after it adds its own, and commits
the action together with the request columns it changed; nothing is locked. A
schedule names the worker that moves next. A worker left alone does what `act`
does; `Settled` is the promise about the end of a schedule.
-/
namespace Biggy
namespace ApprovalRace

open Approvals Run

inductive Phase
  | idle
  | loaded (request : ApprovalRequest)
  | acted (request : ApprovalRequest) (action : ApprovalAction)
  | decided (request : ApprovalRequest) (action : ApprovalAction) (o : Outcome)
  | applying
  | finished
  deriving DecidableEq

def Phase.isApplying : Phase → Bool
  | .applying => true
  | _ => false

/-- The committed rows, the number of applied transitions and the workers. -/
structure State where
  request : ApprovalRequest
  actions : List ApprovalAction
  applied : ℕ
  workers : List (Call × Phase)

def State.move (s : State) (i : ℕ) (c : Call) (phase : Phase) : State :=
  { s with workers := s.workers.set i (c,phase) }

@[simp] theorem State.move_request (s : State) (i : ℕ) (c : Call) (phase : Phase) :
    (s.move i c phase).request = s.request := rfl
@[simp] theorem State.move_actions (s : State) (i : ℕ) (c : Call) (phase : Phase) :
    (s.move i c phase).actions = s.actions := rfl
@[simp] theorem State.move_applied (s : State) (i : ℕ) (c : Call) (phase : Phase) :
    (s.move i c phase).applied = s.applied := rfl
@[simp] theorem State.move_move (s : State) (i : ℕ) (c : Call) (p q : Phase) :
    (s.move i c p).move i c q = s.move i c q := by simp [State.move]

/-- The action and the columns that the outcome changes become visible together. -/
def commit (s : State) (i : ℕ) (c : Call) (a : ApprovalAction) (o : Outcome) : State :=
  { s.move i c (if o = .approve then .applying else .finished) with
    request := settle s.request c.now o
    actions := s.actions ++ [a] }

/-- The statements of `act` between two points where another worker can come in. -/
def advance (T : StepTable) (s : State) (i : ℕ) (c : Call) : Phase → State
  | .idle => s.move i c (.loaded s.request)
  | .loaded r =>
    if r.state ≠ .pending then s.move i c .finished
    else
      match mine T.rows s.actions r c.user with
      | [] => s.move i c .finished
      | t::_ => s.move i c (.acted r (newAction r t c.user c.decision c.comment c.now))
  | .acted r a => s.move i c (.decided r a (outcome T.rows (s.actions++[a]) r c.decision))
  | .decided _ a o => commit s i c a o
  | .applying => { s.move i c .finished with applied := s.applied+1 }
  | .finished => s

def step (T : StepTable) (s : State) (i : ℕ) : State :=
  match s.workers[i]? with
  | none => s
  | some (c,phase) => advance T s i c phase

/-- A filed request before anybody acts on it. -/
def start (T : StepTable) (mt : MetaTable) (rowPk : String) (d : Diversion) (user : AppUser) (id : ℕ)
    (calls : List Call) : State where
  request := newRequest T.rows mt rowPk d user id
  actions := []
  applied := 0
  workers := calls.map fun c => (c,.idle)

/-- No reject is recorded. -/
def NoReject (actions : List ApprovalAction) : Prop := ∀ a ∈ actions, a.decision ≠ .reject

instance (actions : List ApprovalAction) : Decidable (NoReject actions) :=
  inferInstanceAs (Decidable (∀ a ∈ actions, a.decision ≠ .reject))

/-- With all workers through, a request without a reject whose steps are all signed is
approved and applied once, and a pending request has a step left to sign. -/
def Settled (T : StepTable) (s : State) : Prop :=
  (∀ w ∈ s.workers, w.2 = .finished) →
    (NoReject s.actions → (∀ t ∈ requestSteps T.rows s.request, approvedIn s.actions s.request t = true) →
      s.request.state = .approved ∧ s.applied = 1) ∧
    (s.request.state = .pending → openSteps T.rows s.actions s.request ≠ [])

instance (T : StepTable) (s : State) : Decidable (Settled T s) :=
  inferInstanceAs (Decidable (_ → _))

/-- What a commit finds still true of the request its decision was read from: an act
that leaves the request to a sibling finds one unsigned, an act that moves the
position does not move it back, an act that signs the request off finds it pending. -/
def StillTrue (T : StepTable) (s : State) (r : ApprovalRequest) (a : ApprovalAction) : Outcome → Prop
  | .reject => True
  | .stay => s.request.state = .pending → s.request.currentPosition = r.currentPosition →
      ∃ t ∈ openSteps T.rows s.actions s.request, t.id ≠ a.stepId
  | .advance p => s.request.state = .pending → s.request.currentPosition ≤ p
  | .approve => s.request.state = .pending

instance (T : StepTable) (s : State) (r : ApprovalRequest) (a : ApprovalAction) :
    (o : Outcome) → Decidable (StillTrue T s r a o)
  | .reject => isTrue trivial
  | .stay => inferInstanceAs (Decidable (_ → _ → ∃ t ∈ _, _))
  | .advance _ => inferInstanceAs (Decidable (_ → _))
  | .approve => inferInstanceAs (Decidable (_ = _))

/-- Once a reject is committed nothing more is asked. -/
def InTime (T : StepTable) (s : State) (i : ℕ) : Prop :=
  match s.workers[i]? with
  | some (_,.decided r a o) => NoReject s.actions → StillTrue T s r a o
  | _ => True

instance (T : StepTable) (s : State) (i : ℕ) : Decidable (InTime T s i) :=
  match h : s.workers[i]? with
  | some (_,.decided r a o) =>
    decidable_of_iff (NoReject s.actions → StillTrue T s r a o) (by simp only [InTime,h])
  | none => isTrue (by simp [InTime,h])
  | some (_,.idle) => isTrue (by simp [InTime,h])
  | some (_,.loaded _) => isTrue (by simp [InTime,h])
  | some (_,.acted _ _) => isTrue (by simp [InTime,h])
  | some (_,.applying) => isTrue (by simp [InTime,h])
  | some (_,.finished) => isTrue (by simp [InTime,h])

/-! ### A worker left alone -/

theorem step_at {T : StepTable} {s : State} {i : ℕ} {c : Call} {phase : Phase}
    (h : s.workers[i]? = some (c,phase)) : step T s i = advance T s i c phase := by
  simp [step,h]

theorem move_at {s : State} {i : ℕ} {w : Call × Phase} (h : s.workers[i]? = some w) (c : Call)
    (phase : Phase) : (s.move i c phase).workers[i]? = some (c,phase) := by
  obtain ⟨hi,-⟩ := List.getElem?_eq_some_iff.mp h
  simp [State.move,hi]

theorem commit_at {s : State} {i : ℕ} {w : Call × Phase} (h : s.workers[i]? = some w) (c : Call)
    (a : ApprovalAction) (o : Outcome) :
    (commit s i c a o).workers[i]? = some (c,if o = .approve then .applying else .finished) :=
  move_at h c _

/-- Five uninterrupted moves of a worker are one call of `act`. -/
theorem act_exec (T : StepTable) (s : State) (i : ℕ) (c : Call) (h : s.workers[i]? = some (c,.idle)) :
    let s' := exec (step T) s [i,i,i,i,i]
    match act T.rows s.actions s.request c.user c.decision c.comment c.now with
    | .error _ => s'.request = s.request ∧ s'.actions = s.actions ∧ s'.applied = s.applied
    | .ok r => s'.request = r.request ∧ s'.actions = s.actions ++ [r.action] ∧
        s'.applied = s.applied + if r.applies then 1 else 0 := by
  intro s'
  have hfinished : step T (s.move i c .finished) i = s.move i c .finished := step_at (move_at h c .finished)
  have hloaded : s' = exec (step T) (step T (s.move i c (.loaded s.request)) i) [i,i,i] := by
    simp only [s',exec_cons,step_at h,advance]
  rw [step_at (move_at h c (.loaded s.request)),advance] at hloaded
  simp only [act]
  by_cases hp : s.request.state = .pending
  · cases hm : mine T.rows s.actions s.request c.user with
    | nil =>
      simp only [hp,hm,State.move_actions,State.move_move,ne_eq,not_true_eq_false,if_false,exec_cons,
        exec_nil,hfinished] at hloaded
      simp [hp,hloaded]
    | cons t ts =>
      let a := newAction s.request t c.user c.decision c.comment c.now
      let o := outcome T.rows (s.actions++[a]) s.request c.decision
      have hdecided : s' = exec (step T) (s.move i c (.decided s.request a o)) [i,i] := by
        simp only [hp,hm,State.move_actions,State.move_move,ne_eq,not_true_eq_false,if_false] at hloaded
        rw [hloaded,exec_cons,step_at (move_at h c _)]
        simp only [advance,State.move_actions,State.move_move,o,a]
      rw [exec_cons,step_at (move_at h c _),advance] at hdecided
      have hcommitted := commit_at (move_at h c (.decided s.request a o)) c a o
      by_cases ho : o = .approve
      · simp only [ho,if_true] at hcommitted
        rw [ho,exec_cons,step_at hcommitted,advance] at hdecided
        simp only [o,a] at ho
        simp [hp,hdecided,commit,ho,a]
      · simp only [ho,if_false] at hcommitted
        rw [exec_cons,step_at hcommitted,advance,exec_nil] at hdecided
        simp only [o,a] at ho
        simp [hp,hdecided,commit,ho,o,a]
  · simp only [hp,State.move_move,ne_eq,not_false_eq_true,if_true,exec_cons,exec_nil,hfinished] at hloaded
    simp [hp,hloaded]

/-! ### The invariant of a schedule -/

/-- The snapshot is of the same request, at a position it has reached. -/
def Reached (T : StepTable) (request r : ApprovalRequest) : Prop :=
  requestSteps T.rows r = requestSteps T.rows request ∧
    (request.state = .pending → r.currentPosition ≤ request.currentPosition)

/-- The action signs or rejects a step at the snapshot's position. -/
def ActsOn (T : StepTable) (r : ApprovalRequest) (c : Call) (a : ApprovalAction) : Prop :=
  (∃ t ∈ requestSteps T.rows r, t.position = r.currentPosition ∧ a.stepId = t.id) ∧
    (a.decision = .reject ↔ c.decision = "reject")

/-- What a worker still knows about the committed request. -/
def InFlight (T : StepTable) (request : ApprovalRequest) (c : Call) : Phase → Prop
  | .loaded r => Reached T request r
  | .acted r a => Reached T request r ∧ ActsOn T r c a
  | .decided r a o => Reached T request r ∧ ActsOn T r c a ∧ (o = .reject ↔ c.decision = "reject") ∧
      ∀ p, o = .advance p → r.currentPosition < p ∧ ∃ t ∈ requestSteps T.rows r, t.position = p
  | _ => True

structure Inv (T : StepTable) (s : State) : Prop where
  workers : ∀ w ∈ s.workers, InFlight T s.request w.1 w.2
  clean : s.request.state = .pending → NoReject s.actions
  rejected : s.request.state = .rejected → ¬NoReject s.actions
  above : s.request.state = .pending → ∀ t ∈ requestSteps T.rows s.request,
    s.request.currentPosition < t.position → approvedIn s.actions s.request t = false
  unsigned : s.request.state = .pending → openSteps T.rows s.actions s.request ≠ []
  count : NoReject s.actions → s.applied + s.workers.countP (fun w => w.2.isApplying) =
    if s.request.state = .approved then 1 else 0

/-- A settled state follows from the invariant once nobody is applying. -/
theorem settled_of_inv {T : StepTable} {s : State} (hs : Inv T s) : Settled T s := by
  intro hfinished
  refine ⟨fun hclean hall => ?_,hs.unsigned⟩
  have hnone : s.workers.countP (fun w => w.2.isApplying) = 0 :=
    List.countP_eq_zero.mpr fun w hw => by simp [hfinished w hw,Phase.isApplying]
  have hcount := hs.count hclean
  cases hstate : s.request.state with
  | pending =>
    obtain ⟨t,ht⟩ := List.exists_mem_of_ne_nil _ (hs.unsigned hstate)
    obtain ⟨hmem,-,hopen⟩ := mem_openSteps.mp ht
    simp [hall t hmem] at hopen
  | approved => exact ⟨rfl,by simpa [hstate,hnone] using hcount⟩
  | rejected => exact absurd hclean (hs.rejected hstate)

theorem start_inv (T : StepTable) (mt : MetaTable) (rowPk : String) {d : Diversion} (user : AppUser)
    (id : ℕ) (calls : List Call) (hd : requiresApproval T.rows d.wf.id d.frm d.target = true) :
    Inv T (start T mt rowPk d user id calls) where
  workers := by
    intro w hw
    obtain ⟨c,-,rfl⟩ := List.mem_map.mp hw
    trivial
  clean := by simp [start,NoReject]
  rejected := by simp [start,newRequest]
  above := by simp [start,approvedIn]
  unsigned := by
    intro _
    obtain ⟨t,ht⟩ := exists_step hd
    have ht' : t ∈ requestSteps T.rows (newRequest T.rows mt rowPk d user id) := ht
    obtain ⟨u,hu,hpos⟩ := (newRequest_position ht').2
    exact List.ne_nil_of_mem (mem_openSteps.mpr ⟨hu,hpos,by simp [start,approvedIn]⟩)
  count := by
    intro _
    have hnone : (calls.map fun c => (c,Phase.idle)).countP (fun w => w.2.isApplying) = 0 := by
      simp [List.countP_map,Phase.isApplying]
    simp [start,hnone,newRequest]

/-- A worker's own moves leave the committed rows alone. -/
theorem move_inv {T : StepTable} {s : State} (hs : Inv T s) {i : ℕ} {c : Call} {phase : Phase}
    (hi : s.workers[i]? = some (c,phase)) (happ : phase.isApplying = false) {phase' : Phase}
    (happ' : phase'.isApplying = false) (h : InFlight T s.request c phase') : Inv T (s.move i c phase') := by
  obtain ⟨hlt,hget⟩ := List.getElem?_eq_some_iff.mp hi
  refine ⟨fun w hw => ?_,hs.clean,hs.rejected,hs.above,hs.unsigned,fun hclean => ?_⟩
  · rcases List.mem_or_eq_of_mem_set hw with hw | rfl
    · exact hs.workers w hw
    · exact h
  · have hsame : (s.workers.set i (c,phase')).countP (fun w => w.2.isApplying) =
        s.workers.countP fun w => w.2.isApplying := by
      rw [List.countP_set hlt]
      simp [hget,happ,happ']
    change s.applied + (s.workers.set i (c,phase')).countP (fun w => w.2.isApplying) =
      if s.request.state = .approved then 1 else 0
    rw [hsame]
    exact hs.count hclean

theorem applied_inv {T : StepTable} {s : State} (hs : Inv T s) {i : ℕ} {c : Call}
    (hi : s.workers[i]? = some (c,.applying)) :
    Inv T { s.move i c .finished with applied := s.applied+1 } := by
  obtain ⟨hlt,hget⟩ := List.getElem?_eq_some_iff.mp hi
  refine ⟨fun w hw => ?_,hs.clean,hs.rejected,hs.above,hs.unsigned,fun hclean => ?_⟩
  · rcases List.mem_or_eq_of_mem_set hw with hw | rfl
    · exact hs.workers w hw
    · trivial
  · have hpos : 0 < s.workers.countP fun w => w.2.isApplying :=
      List.countP_pos_iff.mpr ⟨(c,.applying),List.mem_of_getElem? hi,rfl⟩
    have hone : (s.workers.set i (c,.finished)).countP (fun w => w.2.isApplying) =
        s.workers.countP (fun w => w.2.isApplying) - 1 := by
      rw [List.countP_set hlt]
      simp [hget,Phase.isApplying]
    have hcount := hs.count hclean
    change s.applied + 1 + (s.workers.set i (c,.finished)).countP (fun w => w.2.isApplying) =
      if s.request.state = .approved then 1 else 0
    omega

theorem inFlight_mono {T : StepTable} {request request' : ApprovalRequest}
    (hsteps : requestSteps T.rows request' = requestSteps T.rows request)
    (hpos : request'.state = .pending →
      request.state = .pending ∧ request.currentPosition ≤ request'.currentPosition)
    {c : Call} {phase : Phase} (h : InFlight T request c phase) : InFlight T request' c phase := by
  have hreached : ∀ {r}, Reached T request r → Reached T request' r := fun hr =>
    ⟨hr.1.trans hsteps.symm,fun hp => le_trans (hr.2 (hpos hp).1) (hpos hp).2⟩
  cases phase with
  | loaded r => exact hreached h
  | acted r a => exact ⟨hreached h.1,h.2⟩
  | decided r a o => exact ⟨hreached h.1,h.2⟩
  | idle => trivial
  | applying => trivial
  | finished => trivial

/-- An action for a step at one position leaves the steps of the others as they were. -/
theorem approvedIn_other {T : StepTable} {actions : List ApprovalAction} {request r : ApprovalRequest}
    {c : Call} {a : ApprovalAction} (hsteps : requestSteps T.rows r = requestSteps T.rows request)
    (ha : ActsOn T r c a) {t : ApprovalStep} (ht : t ∈ requestSteps T.rows request)
    (hpos : t.position ≠ r.currentPosition) :
    approvedIn (actions++[a]) request t = approvedIn actions request t := by
  obtain ⟨⟨u,hu,hupos,hid⟩,-⟩ := ha
  have hne : (a.stepId == t.id) = false := by
    simp only [beq_eq_false_iff_ne,ne_eq,hid]
    rintro heq
    rw [step_unique T (hsteps ▸ hu) ht heq] at hupos
    exact hpos hupos
  simp [approvedIn,hne]

theorem noReject_append {actions : List ApprovalAction} {a : ApprovalAction} :
    NoReject (actions++[a]) ↔ NoReject actions ∧ a.decision ≠ .reject := by
  simp [NoReject,or_imp,forall_and]

theorem commit_count {s : State} {i : ℕ} {c : Call} {phase : Phase} (hi : s.workers[i]? = some (c,phase))
    (happ : phase.isApplying = false) (a : ApprovalAction) (o : Outcome) :
    (commit s i c a o).workers.countP (fun w => w.2.isApplying) =
      s.workers.countP (fun w => w.2.isApplying) + if o = .approve then 1 else 0 := by
  obtain ⟨hlt,hget⟩ := List.getElem?_eq_some_iff.mp hi
  simp only [commit,State.move,List.countP_set hlt,hget,happ]
  by_cases ho : o = .approve <;> simp [ho,Phase.isApplying]

theorem commit_workers {T : StepTable} {s : State} (hs : Inv T s) (i : ℕ) (c : Call) (a : ApprovalAction)
    (o : Outcome)
    (hpos : (settle s.request c.now o).state = .pending → s.request.state = .pending ∧
      s.request.currentPosition ≤ (settle s.request c.now o).currentPosition) :
    ∀ w ∈ (commit s i c a o).workers, InFlight T (commit s i c a o).request w.1 w.2 := by
  intro w hw
  rcases List.mem_or_eq_of_mem_set hw with hw | rfl
  · exact inFlight_mono (requestSteps_settle T.rows s.request c.now o) hpos (hs.workers w hw)
  · by_cases ho : o = .approve <;> simp [ho,InFlight]

/-- The step that stays open when an act leaves the request to a sibling. -/
theorem stay_unsigned {T : StepTable} {s : State} (hs : Inv T s) {r : ApprovalRequest} {c : Call}
    {a : ApprovalAction} (hreached : Reached T s.request r) (hacts : ActsOn T r c a)
    (htime : StillTrue T s r a .stay) (hp : s.request.state = .pending) :
    openSteps T.rows (s.actions++[a]) s.request ≠ [] := by
  by_cases hpos : s.request.currentPosition = r.currentPosition
  · obtain ⟨t,ht,hne⟩ := htime hp hpos
    obtain ⟨hmem,htpos,hopen⟩ := mem_openSteps.mp ht
    refine List.ne_nil_of_mem (mem_openSteps.mpr ⟨hmem,htpos,?_⟩)
    rw [approvedIn_append,hopen]
    simp [approvedIn,hne.symm]
  · obtain ⟨t,ht⟩ := List.exists_mem_of_ne_nil _ (hs.unsigned hp)
    obtain ⟨hmem,htpos,hopen⟩ := mem_openSteps.mp ht
    refine List.ne_nil_of_mem (mem_openSteps.mpr ⟨hmem,htpos,?_⟩)
    rw [approvedIn_other hreached.1 hacts hmem (by rwa [htpos])]
    exact hopen

/-- The step that an act opens when it moves the position to `p`. -/
theorem advance_unsigned {T : StepTable} {s : State} (hs : Inv T s) {r : ApprovalRequest} {c : Call}
    {a : ApprovalAction} {p : ℤ} (hreached : Reached T s.request r) (hacts : ActsOn T r c a)
    (hlt : r.currentPosition < p) (hstep : ∃ t ∈ requestSteps T.rows r, t.position = p)
    (htime : s.request.currentPosition ≤ p) (hp : s.request.state = .pending) :
    openSteps T.rows (s.actions++[a]) (settle s.request c.now (.advance p)) ≠ [] := by
  have hopen : ∃ t ∈ requestSteps T.rows s.request, t.position = p ∧
      approvedIn s.actions s.request t = false := by
    rcases htime.eq_or_lt with heq | hmoved
    · obtain ⟨t,ht⟩ := List.exists_mem_of_ne_nil _ (hs.unsigned hp)
      obtain ⟨hmem,htpos,hopen⟩ := mem_openSteps.mp ht
      exact ⟨t,hmem,htpos.trans heq,hopen⟩
    · obtain ⟨t,ht,htpos⟩ := hstep
      have hmem : t ∈ requestSteps T.rows s.request := hreached.1 ▸ ht
      exact ⟨t,hmem,htpos,hs.above hp t hmem (by omega)⟩
  obtain ⟨t,ht,htpos,hnot⟩ := hopen
  refine List.ne_nil_of_mem (mem_openSteps.mpr ⟨by simpa using ht,htpos,?_⟩)
  rw [approvedIn_settle,approvedIn_other hreached.1 hacts ht (by omega)]
  exact hnot

/-- A late action signs no step above the position of a pending request. -/
theorem above_append {T : StepTable} {s : State} (hs : Inv T s) {r : ApprovalRequest} {c : Call}
    {a : ApprovalAction} (hreached : Reached T s.request r) (hacts : ActsOn T r c a)
    (hp : s.request.state = .pending) {t : ApprovalStep} (ht : t ∈ requestSteps T.rows s.request)
    (hlt : s.request.currentPosition < t.position) :
    approvedIn (s.actions++[a]) s.request t = false := by
  have hle := hreached.2 hp
  rw [approvedIn_other hreached.1 hacts ht (by omega)]
  exact hs.above hp t ht hlt

/-- Signing off a pending request leaves one worker that has to apply it. -/
theorem approve_count {T : StepTable} {s : State} (hs : Inv T s) {i : ℕ} {c : Call} {phase : Phase}
    (hi : s.workers[i]? = some (c,phase)) (happ : phase.isApplying = false) (a : ApprovalAction)
    (hclean : NoReject s.actions) (hp : s.request.state = .pending) :
    s.applied + (commit s i c a .approve).workers.countP (fun w => w.2.isApplying) = 1 := by
  have hzero : s.applied + s.workers.countP (fun w => w.2.isApplying) = 0 :=
    (hs.count hclean).trans (if_neg (by simp [hp]))
  have hcount := commit_count hi happ a .approve
  rw [if_pos rfl] at hcount
  omega

theorem commit_inv {T : StepTable} {s : State} (hs : Inv T s) {i : ℕ} {c : Call} {r : ApprovalRequest}
    {a : ApprovalAction} {o : Outcome} (hi : s.workers[i]? = some (c,.decided r a o))
    (htime : NoReject s.actions → StillTrue T s r a o) : Inv T (commit s i c a o) := by
  obtain ⟨hreached,hacts,hreject,hadvance⟩ := hs.workers _ (List.mem_of_getElem? hi)
  have hcount := commit_count hi rfl a o
  have hkeep : a.decision ≠ .reject ↔ o ≠ .reject := not_congr (hacts.2.trans hreject.symm)
  have hbefore : NoReject (s.actions++[a]) → NoReject s.actions := fun h => (noReject_append.mp h).1
  cases o with
  | reject =>
    have hdirty : ¬NoReject (s.actions++[a]) := fun h => (noReject_append.mp h).2 (hacts.2.mpr (hreject.mp rfl))
    exact {
      workers := commit_workers hs i c a .reject (fun h => by simp [settle] at h)
      clean := fun h => by simp [commit,settle] at h
      rejected := fun _ => hdirty
      above := fun h => by simp [commit,settle] at h
      unsigned := fun h => by simp [commit,settle] at h
      count := fun h => absurd h hdirty }
  | stay =>
    have hdec : a.decision ≠ .reject := hkeep.mpr (by simp)
    exact {
      workers := commit_workers hs i c a .stay (fun h => ⟨h,le_rfl⟩)
      clean := fun h => noReject_append.mpr ⟨hs.clean h,hdec⟩
      rejected := fun h hclean => hs.rejected h (hbefore hclean)
      above := fun h t ht hpos => above_append hs hreached hacts h ht hpos
      unsigned := fun h => stay_unsigned hs hreached hacts (htime (hs.clean h)) h
      count := fun h => by rw [hcount]; exact hs.count (hbefore h) }
  | advance p =>
    have hdec : a.decision ≠ .reject := hkeep.mpr (by simp)
    obtain ⟨hlt,hstep⟩ := hadvance p rfl
    have hle : s.request.state = .pending → s.request.currentPosition ≤ p := fun h =>
      htime (hs.clean h) h
    exact {
      workers := commit_workers hs i c a (.advance p) (fun h => ⟨h,hle h⟩)
      clean := fun h => noReject_append.mpr ⟨hs.clean h,hdec⟩
      rejected := fun h hclean => hs.rejected h (hbefore hclean)
      above := fun h t ht hpos => above_append hs hreached hacts h ht (lt_of_le_of_lt (hle h) hpos)
      unsigned := fun h => advance_unsigned hs hreached hacts hlt hstep (hle h) h
      count := fun h => by rw [hcount]; exact hs.count (hbefore h) }
  | approve =>
    exact {
      workers := commit_workers hs i c a .approve (fun h => by simp [settle] at h)
      clean := fun h => by simp [commit,settle] at h
      rejected := fun h => by simp [commit,settle] at h
      above := fun h => by simp [commit,settle] at h
      unsigned := fun h => by simp [commit,settle] at h
      count := fun h => approve_count hs hi rfl a (hbefore h) (htime (hbefore h)) }

/-- Reading the open steps picks one at the snapshot's position. -/
theorem loaded_inv {T : StepTable} {s : State} (hs : Inv T s) {i : ℕ} {c : Call} {r : ApprovalRequest}
    (hi : s.workers[i]? = some (c,.loaded r)) : Inv T (advance T s i c (.loaded r)) := by
  have hreached : Reached T s.request r := hs.workers _ (List.mem_of_getElem? hi)
  simp only [advance]
  split
  · exact move_inv hs hi rfl rfl trivial
  · split
    · exact move_inv hs hi rfl rfl trivial
    · rename_i t ts hm
      have hopen : t ∈ mine T.rows s.actions r c.user := by rw [hm]; exact List.mem_cons_self
      obtain ⟨hmem,hpos,-⟩ := mem_openSteps.mp (List.mem_filter.mp hopen).1
      refine move_inv hs hi rfl rfl ⟨hreached,⟨t,hmem,hpos,rfl⟩,?_⟩
      by_cases hd : c.decision = "reject" <;> simp [newAction,hd]

theorem acted_inv {T : StepTable} {s : State} (hs : Inv T s) {i : ℕ} {c : Call} {r : ApprovalRequest}
    {a : ApprovalAction} (hi : s.workers[i]? = some (c,.acted r a)) :
    Inv T (advance T s i c (.acted r a)) := by
  obtain ⟨hreached,hacts⟩ := hs.workers _ (List.mem_of_getElem? hi)
  refine move_inv hs hi rfl rfl ⟨hreached,hacts,outcome_reject,fun p ho => ?_⟩
  obtain ⟨hlt,hstep,-⟩ := nextPosition_some (outcome_advance ho).2
  exact ⟨hlt,hstep⟩

theorem step_inv (T : StepTable) (s : State) (i : ℕ) (hs : Inv T s) (htime : InTime T s i) :
    Inv T (step T s i) := by
  cases hi : s.workers[i]? with
  | none => simpa [step,hi] using hs
  | some w =>
    obtain ⟨c,phase⟩ := w
    rw [step_at hi]
    cases phase with
    | idle => exact move_inv hs hi rfl rfl ⟨rfl,fun _ => le_rfl⟩
    | loaded r => exact loaded_inv hs hi
    | acted r a => exact acted_inv hs hi
    | decided r a o =>
      simp only [InTime,hi] at htime
      exact commit_inv hs hi htime
    | applying => exact applied_inv hs hi
    | finished => exact hs

/-- Whatever the schedule, the request agrees with its record once all workers are
through, provided each commit finds what its decision was read from still true. -/
theorem settled_exec (T : StepTable) (mt : MetaTable) (rowPk : String) (user : AppUser) (id : ℕ)
    (old : Row) (wfs : List Workflow) (values : Values) (d : Diversion)
    (hd : d ∈ (planDiversions T.rows mt old wfs values).1) (calls : List Call) (schedule : List ℕ)
    (htime : Meets (step T) (InTime T) (start T mt rowPk d user id calls) schedule) :
    Settled T (exec (step T) (start T mt rowPk d user id calls) schedule) :=
  settled_of_inv (invariant (Inv T) (step_inv T)
    (start_inv T mt rowPk user id calls (planDiversions_held hd).2.2) htime)

/-! ### Two approvers of one position -/

def legal : ApprovalStep where
  id := 1
  workflowId := 1
  fromState := "draft"
  toState := "signed"
  position := 1
  approverRole := some "legal"

def finance : ApprovalStep := { legal with id := 2, approverRole := some "finance" }

/-- A contract that legal and finance sign in parallel. -/
def contractSteps : StepTable where
  rows := [legal,finance]
  idsNodup := by decide

def stage : MetaField where
  id := 1
  physName := "stage"
  label := "Stage"
  dataType := .enum

def contracts : MetaTable where
  id := 1
  physName := "contracts"
  label := "Contracts"
  fields := [stage]
  idsNodup := by decide
  namesNodup := by decide
  namesFree := by decide

def contractFlow : Workflow where
  id := 1
  tableId := 1
  fieldId := 1
  stored := [⟨"draft","signed",[]⟩]

def signing : Diversion := ⟨contractFlow,stage,.text "draft",.text "signed"⟩

def approvers : List Call := [⟨⟨1,"legal"⟩,"approve",none,0⟩,⟨⟨2,"finance"⟩,"approve",none,0⟩]

def contractStart : State := start contractSteps contracts "7" signing ⟨3,"clerk"⟩ 1 approvers

/-- Each of the two reads the other's step as open, and nobody can act any more. -/
theorem exec_not_settled : ¬Settled contractSteps (exec (step contractSteps) contractStart [0,0,1,1,0,1,0,1]) := by
  decide

/-- One after the other they sign the contract off. -/
theorem settled_contract : Settled contractSteps (exec (step contractSteps) contractStart [0,0,0,0,1,1,1,1,1]) :=
  settled_exec contractSteps contracts "7" ⟨3,"clerk"⟩ 1 (fun _ => .text "draft") [contractFlow]
    [("stage",.text "signed")] signing (List.mem_singleton.mpr rfl) approvers
    [0,0,0,0,1,1,1,1,1] (by decide)

end ApprovalRace
end Biggy
