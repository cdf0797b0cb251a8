import Biggy.Approvals

/-!
# The inbox of an approver

`pending_for_user` asks the database for the requests with a step that the user might act on and keeps those that
`can_act` admits. No request is lost, since the query admits every step that is open for the user.
-/
namespace Biggy
namespace Approvals

/-- How the database compares texts. -/
structure Collation where
  same : String → String → Bool
  refl : ∀ s, same s s = true

/-- `can_act`. -/
def canAct (steps : List ApprovalStep) (actions : List ApprovalAction) (request : ApprovalRequest) (user : AppUser) : Bool :=
  decide (request.state = .pending) && (openSteps steps actions request).any fun s => eligible s user

section Inbox

variable (C : Collation) (steps : List ApprovalStep) (actions : List ApprovalAction) (requests : List ApprovalRequest)
  (user : AppUser)

/-- The conditions by which the query joins a step to a request. -/
def joined (request : ApprovalRequest) (s : ApprovalStep) : Bool :=
  onTransition request.workflowId request.fromState request.toState s && decide (s.position = request.currentPosition)

/-- The condition on the step for a user who is no designer. -/
def mightAct (s : ApprovalStep) : Bool :=
  user.isDesigner || s.approverUserId.any (· == user.id) || s.approverRole.any fun role => C.same role user.role

/-- `_candidate_requests`: one row for each pending request and step, the requests of them without repetition. -/
def candidateRequests : List ApprovalRequest :=
  (((requests.filter fun r => decide (r.state = .pending)).flatMap fun r =>
    (steps.filter fun s => joined r s && mightAct C user s).map fun _ => r).dedup).insertionSort fun a b => b.id ≤ a.id

/-- `pending_for_user`. -/
def pendingForUser : List ApprovalRequest :=
  (candidateRequests C steps requests user).filter fun r => canAct steps actions r user

theorem mem_candidateRequests {request : ApprovalRequest} : request ∈ candidateRequests C steps requests user ↔
    request ∈ requests ∧ request.state = .pending ∧ ∃ s ∈ steps, joined request s = true ∧ mightAct C user s = true := by
  simp only [candidateRequests,List.mem_insertionSort,List.mem_dedup,List.mem_flatMap,List.mem_map,List.mem_filter,
    decide_eq_true_eq,Bool.and_eq_true]
  constructor
  · rintro ⟨r,⟨hr,hpending⟩,s,⟨hs,hjoined,hmight⟩,rfl⟩
    exact ⟨hr,hpending,s,hs,hjoined,hmight⟩
  · rintro ⟨hr,hpending,s,hs,hjoined,hmight⟩
    exact ⟨request,⟨hr,hpending⟩,s,⟨hs,hjoined,hmight⟩,rfl⟩

/-- The query admits every step that an eligible user has. -/
theorem mightAct_of_eligible {s : ApprovalStep} (h : eligible s user = true) : mightAct C user s = true := by
  simp only [eligible,Bool.or_eq_true] at h
  rcases h with (hdesigner | huser) | hrole
  · simp [mightAct,hdesigner]
  · rcases hid : s.approverUserId with _ | uid
    · simp [hid] at huser
    · obtain ⟨-,hsame⟩ : uid ≠ 0 ∧ uid = user.id := by simpa [hid] using huser
      simp [mightAct,hid,hsame]
  · rcases hname : s.approverRole with _ | role
    · simp [hname] at hrole
    · obtain ⟨-,hsame⟩ : role ≠ "" ∧ user.role = role := by simpa [hname] using hrole
      simp [mightAct,hname,hsame,C.refl]

/-- A request that the user can act on is one of the candidates. -/
theorem candidate_of_canAct {request : ApprovalRequest} (hmem : request ∈ requests)
    (h : canAct steps actions request user = true) : request ∈ candidateRequests C steps requests user := by
  rw [canAct,Bool.and_eq_true,decide_eq_true_eq,List.any_eq_true] at h
  obtain ⟨hpending,s,hopen,heligible⟩ := h
  obtain ⟨hstep,hposition,-⟩ := mem_openSteps.mp hopen
  obtain ⟨hs,htransition⟩ := mem_stepsFor.mp hstep
  refine (mem_candidateRequests C steps requests user).mpr ⟨hmem,hpending,s,hs,?_,mightAct_of_eligible C user heligible⟩
  rw [joined,htransition,hposition,decide_eq_true rfl]
  rfl

/-- The inbox holds the requests that the user can act on, each once. -/
theorem pendingForUser_exact : (pendingForUser C steps actions requests user).Nodup ∧
    ∀ request, request ∈ pendingForUser C steps actions requests user ↔
      request ∈ requests ∧ request.state = .pending ∧ canAct steps actions request user = true := by
  constructor
  · refine List.Nodup.filter _ ?_
    rw [candidateRequests,List.Perm.nodup_iff (List.perm_insertionSort _ _)]
    exact List.nodup_dedup _
  · intro request
    rw [pendingForUser,List.mem_filter]
    constructor
    · rintro ⟨hcandidate,hact⟩
      obtain ⟨hmem,hpending,-⟩ := (mem_candidateRequests C steps requests user).mp hcandidate
      exact ⟨hmem,hpending,hact⟩
    · rintro ⟨hmem,-,hact⟩
      exact ⟨candidate_of_canAct C steps actions requests user hmem hact,hact⟩

end Inbox

end Approvals
end Biggy
