import Biggy.Run
import Biggy.Keyed
import Biggy.Python

/-!
# Claiming scheduled jobs

`jobs.claim_due` is one conditional UPDATE, so the runs of any number of workers are
the lists of their calls in the order the database took them. Each call brings the
clock of its worker and the cadence that worker read.
-/
namespace Biggy
namespace Jobs

open Run

/-- The columns of a scheduled job that `claim_due` works on. -/
structure Job where
  id : ℤ
  lastRunAt : Option ℤ
  deriving DecidableEq

/-- The rows of the model's table, under their primary key. -/
structure JobTable where
  rows : List Job
  idsNodup : (rows.map Job.id).Nodup

def JobTable.find (jobs : JobTable) (objId : ℤ) : Option Job := Keyed.find Job.id objId jobs.rows

/-- `or_(last_run_at IS NULL, last_run_at <= cutoff)`. -/
def dueBy (cutoff : ℤ) (job : Job) : Bool :=
  match job.lastRunAt with
  | none => true
  | some t => decide (t ≤ cutoff)

/-- The row condition of the UPDATE. -/
def taken (objId cutoff : ℤ) (job : Job) : Bool := decide (job.id = objId) && dueBy cutoff job

/-- The UPDATE of one row. -/
def stamp (objId cutoff now : ℤ) (job : Job) : Job :=
  if taken objId cutoff job then { job with lastRunAt := some now } else job

@[simp] theorem stamp_id (objId cutoff now : ℤ) (job : Job) : (stamp objId cutoff now job).id = job.id := by
  simp only [stamp]
  split <;> rfl

def JobTable.update (jobs : JobTable) (objId cutoff now : ℤ) : JobTable where
  rows := jobs.rows.map (stamp objId cutoff now)
  idsNodup := by
    rw [Keyed.map_key_map (stamp_id objId cutoff now)]
    exact jobs.idsNodup

/-- `res.rowcount`. -/
def JobTable.rowcount (jobs : JobTable) (objId cutoff : ℤ) : ℕ := jobs.rows.countP (taken objId cutoff)

/-- `claim_due`: whether the caller won, and the table after the UPDATE. -/
def claimDue (jobs : JobTable) (objId : ℤ) (scheduleMinutes : Option ℤ) (now : ℤ) :
    Except PyError (Bool × JobTable) :=
  match scheduleMinutes with
  | none => .ok (false,jobs)
  | some n =>
    if n ≤ 0 then .ok (false,jobs)
    else if now-minutes n < 0 then .error .overflowError
    else .ok (jobs.rowcount objId (now-minutes n) == 1,jobs.update objId (now-minutes n) now)

/-- One call of `claim_due` by some worker. -/
structure Attempt where
  worker : ℕ
  objId : ℤ
  scheduleMinutes : Option ℤ
  now : ℤ
  deriving DecidableEq

/-- A call that raises has written nothing. -/
def attempt (jobs : JobTable) (a : Attempt) : JobTable :=
  match claimDue jobs a.objId a.scheduleMinutes a.now with
  | .ok r => r.2
  | .error _ => jobs

def wins (jobs : JobTable) (a : Attempt) : Bool :=
  match claimDue jobs a.objId a.scheduleMinutes a.now with
  | .ok r => r.1
  | .error _ => false

/-- The calls for one job that returned `True`, in the order they succeeded. -/
def winners (objId : ℤ) (jobs : JobTable) (attempts : List Attempt) : List Attempt :=
  emitted attempt (fun jobs a => if wins jobs a && decide (a.objId = objId) then [a] else []) jobs attempts

/-- `claim_due` finds the job due at the caller's clock. -/
structure Due (jobs : JobTable) (a : Attempt) (n : ℤ) (job : Job) : Prop where
  cadence : a.scheduleMinutes = some n
  positive : 0 < n
  inRange : 0 ≤ a.now-minutes n
  row : jobs.find a.objId = some job
  due : dueBy (a.now-minutes n) job = true

theorem rowcount_eq (jobs : JobTable) (objId cutoff : ℤ) :
    jobs.rowcount objId cutoff = if (jobs.find objId).any (dueBy cutoff) then 1 else 0 := by
  have key (rows : List Job) (h : (rows.map Job.id).Nodup) : rows.countP (taken objId cutoff) =
      if (Keyed.find Job.id objId rows).any (dueBy cutoff) then 1 else 0 := by
    induction rows with
    | nil => rfl
    | cons job rows ih =>
      simp only [List.map_cons,List.nodup_cons,List.mem_map,not_exists,not_and] at h
      rw [List.countP_cons,ih h.2,Keyed.find_cons]
      by_cases hid : job.id = objId
      · have hnone : Keyed.find Job.id objId rows = none :=
          Keyed.find_eq_none.mpr fun other hother heq => h.1 other hother (heq.trans hid.symm)
        simp [taken,hid,hnone]
      · simp [taken,hid]
  exact key jobs.rows jobs.idsNodup

theorem find_update (jobs : JobTable) (objId cutoff now k : ℤ) :
    (jobs.update objId cutoff now).find k = (jobs.find k).map (stamp objId cutoff now) :=
  Keyed.find_map (stamp_id objId cutoff now) k jobs.rows

theorem wins_iff (jobs : JobTable) (a : Attempt) : wins jobs a = true ↔ ∃ n job, Due jobs a n job := by
  simp only [wins,claimDue]
  cases hs : a.scheduleMinutes with
  | none =>
    simp only [Bool.false_eq_true,false_iff,not_exists]
    intro n job h
    simpa [hs] using h.cadence
  | some n =>
    by_cases hn : n ≤ 0
    · simp only [hn,if_true,Bool.false_eq_true,false_iff,not_exists]
      intro m job h
      have hm : n = m := by simpa [hs] using h.cadence
      have := h.positive
      omega
    · by_cases hrange : a.now-minutes n < 0
      · simp only [hn,hrange,if_true,if_false,Bool.false_eq_true,false_iff,not_exists]
        intro m job h
        have hm : n = m := by simpa [hs] using h.cadence
        have := hm ▸ h.inRange
        omega
      · simp only [hn,hrange,if_false,rowcount_eq]
        cases hrow : jobs.find a.objId with
        | none =>
          simp only [Option.any_none,Bool.false_eq_true,if_false]
          constructor
          · intro h
            simp at h
          · rintro ⟨m,job,h⟩
            simpa [hrow] using h.row
        | some job =>
          constructor
          · intro h
            have hdue : dueBy (a.now-minutes n) job = true := by
              by_contra hno
              simp [hno] at h
            exact ⟨n,job,hs,by omega,by omega,hrow,hdue⟩
          · rintro ⟨m,job',h⟩
            have hm : n = m := by simpa [hs] using h.cadence
            have hjob : job = job' := by simpa [hrow] using h.row
            subst hm hjob
            simp [h.due]

/-- A call that does not win leaves every job as it was. -/
theorem attempt_find_of_lost {jobs : JobTable} {a : Attempt} (h : wins jobs a = false) (k : ℤ) :
    (attempt jobs a).find k = jobs.find k := by
  simp only [attempt,wins,claimDue] at h ⊢
  cases hs : a.scheduleMinutes with
  | none => rfl
  | some n =>
    by_cases hn : n ≤ 0
    · simp [hn]
    · by_cases hrange : a.now-minutes n < 0
      · simp [hn,hrange]
      · simp only [hs,hn,hrange,if_false,rowcount_eq] at h
        simp only [hn,hrange,if_false,find_update]
        cases hk : jobs.find k with
        | none => rfl
        | some job =>
          have hkey : job.id = k := Keyed.key_of_find hk
          have hout : taken a.objId (a.now-minutes n) job = false := by
            by_contra hin
            simp only [taken,Bool.and_eq_true,decide_eq_true_eq,Bool.not_eq_false] at hin
            have hobj : jobs.find a.objId = some job := by rw [← hin.1,hkey,hk]
            simp [hobj,hin.2] at h
          simp [stamp,hout]

/-- A call that wins writes its clock into its own job. -/
theorem attempt_find_of_won {jobs : JobTable} {a : Attempt} {n : ℤ} {job : Job} (h : Due jobs a n job) (k : ℤ) :
    (attempt jobs a).find k = if k = a.objId then some { job with lastRunAt := some a.now } else jobs.find k := by
  have hn : ¬ n ≤ 0 := by
    have := h.positive
    omega
  have hrange : ¬ a.now-minutes n < 0 := by
    have := h.inRange
    omega
  have hid : job.id = a.objId := Keyed.key_of_find h.row
  simp only [attempt,claimDue,h.cadence,hn,hrange,if_false,find_update]
  by_cases hk : k = a.objId
  · subst hk
    simp [h.row,stamp,taken,hid,h.due]
  · rw [if_neg hk]
    cases hrow : jobs.find k with
    | none => rfl
    | some other =>
      have hother : other.id ≠ a.objId := fun he => hk ((Keyed.key_of_find hrow).symm.trans he)
      simp [stamp,taken,hother]

/-- The later of two calls kept the distance it was called with. -/
def Apart (a b : Attempt) : Prop := ∃ n, b.scheduleMinutes = some n ∧ 0 < n ∧ a.now+minutes n ≤ b.now

theorem Apart.lt {a b : Attempt} (h : Apart a b) : a.now < b.now := by
  rcases h with ⟨n,-,hn,hle⟩
  have := (lt_add_minutes a.now n).mpr hn
  omega

/-- The winners so far keep their distances, and none is later than the stored time. -/
structure Spaced (objId : ℤ) (jobs : JobTable) (log : List Attempt) : Prop where
  apart : log.Pairwise Apart
  stored : ∀ a ∈ log, ∃ job t, jobs.find objId = some job ∧ job.lastRunAt = some t ∧ a.now ≤ t

theorem Spaced.win {objId : ℤ} {jobs : JobTable} {log : List Attempt} (h : Spaced objId jobs log) {a : Attempt}
    {n : ℤ} {job : Job} (ha : a.objId = objId) (hdue : Due jobs a n job) :
    Spaced objId (attempt jobs a) (log ++ [a]) := by
  have hbefore : ∀ b ∈ log, b.now+minutes n ≤ a.now := by
    intro b hb
    rcases h.stored b hb with ⟨job',t,hrow,ht,hle⟩
    have hjob : job = job' := by
      have := hdue.row
      rw [ha,hrow] at this
      exact (Option.some.inj this).symm
    have hcut := hdue.due
    simp only [dueBy,hjob,ht,decide_eq_true_eq] at hcut
    omega
  have hnow : (attempt jobs a).find objId = some { job with lastRunAt := some a.now } := by
    rw [attempt_find_of_won hdue,if_pos ha.symm]
  constructor
  · rw [List.pairwise_append]
    refine ⟨h.apart,List.pairwise_singleton _ _,?_⟩
    intro b hb c hc
    rw [List.mem_singleton.mp hc]
    exact ⟨n,hdue.cadence,hdue.positive,hbefore b hb⟩
  · intro b hb
    refine ⟨_,a.now,hnow,rfl,?_⟩
    rcases List.mem_append.mp hb with hb | hb
    · have hle := hbefore b hb
      have := (minutes_pos n).mpr hdue.positive
      omega
    · exact (List.mem_singleton.mp hb) ▸ Int.le_refl _

theorem Spaced.other {objId : ℤ} {jobs : JobTable} {log : List Attempt} (h : Spaced objId jobs log) {a : Attempt}
    (hsame : (attempt jobs a).find objId = jobs.find objId) : Spaced objId (attempt jobs a) log where
  apart := h.apart
  stored := by
    rw [hsame]
    exact h.stored

theorem spaced_attempt {objId : ℤ} {jobs : JobTable} {log : List Attempt} (h : Spaced objId jobs log) (a : Attempt) :
    Spaced objId (attempt jobs a) (log ++ if wins jobs a && decide (a.objId = objId) then [a] else []) := by
  by_cases hw : wins jobs a = true
  · rcases (wins_iff jobs a).mp hw with ⟨n,job,hdue⟩
    by_cases ha : a.objId = objId
    · simpa [hw,ha] using h.win ha hdue
    · have hsame : (attempt jobs a).find objId = jobs.find objId := by
        rw [attempt_find_of_won hdue,if_neg (Ne.symm ha)]
      simpa [hw,ha] using h.other hsame
  · have hlost : wins jobs a = false := by simpa using hw
    simpa [hlost] using h.other (attempt_find_of_lost hlost objId)

/-- From any table, the winners of a job are spaced after every run. -/
theorem spaced_winners (objId : ℤ) (jobs : JobTable) (attempts : List Attempt) :
    Spaced objId (exec attempt jobs attempts) (winners objId jobs attempts) := by
  have hstart : Spaced objId jobs [] := ⟨List.Pairwise.nil,by simp⟩
  have h := history_invariant (fun jobs log => Spaced objId jobs log) (fun jobs log a hs _ => spaced_attempt hs a)
    hstart (meets_trivial jobs attempts)
  simpa [winners] using h

theorem mem_winners {objId : ℤ} {jobs : JobTable} {attempts : List Attempt} {a : Attempt}
    (h : a ∈ winners objId jobs attempts) : a ∈ attempts ∧ a.objId = objId := by
  obtain ⟨before,b,after,rfl,hout⟩ := mem_emitted_iff.mp h
  split at hout
  · rename_i hwon
    simp only [Bool.and_eq_true,decide_eq_true_eq] at hwon
    rw [List.mem_singleton.mp hout]
    exact ⟨List.mem_append_right _ List.mem_cons_self,hwon.2⟩
  · cases hout

/-- Calls that keep the distance of the cadence meet a period of that length once. -/
theorem period_count {n : ℤ} {log : List Attempt} (h : log.Pairwise Apart)
    (hn : ∀ a ∈ log, a.scheduleMinutes = some n) (start : ℤ) :
    log.countP (fun a => decide (start ≤ a.now ∧ a.now < start+minutes n)) ≤ 1 := by
  induction log with
  | nil => simp
  | cons a log ih =>
    rw [List.pairwise_cons] at h
    have hlog := ih h.2 fun b hb => hn b (List.mem_cons_of_mem a hb)
    rw [List.countP_cons]
    by_cases ha : start ≤ a.now ∧ a.now < start+minutes n
    · have hrest : log.countP (fun a => decide (start ≤ a.now ∧ a.now < start+minutes n)) = 0 := by
        rw [List.countP_eq_zero]
        intro b hb
        rcases h.1 b hb with ⟨m,hm,-,hle⟩
        have hcadence := hn b (List.mem_cons_of_mem a hb)
        have hmn : m = n := by simpa [hm] using hcadence
        subst hmn
        simp only [decide_eq_true_eq]
        omega
      rw [hrest]
      split <;> omega
    · simpa [ha] using hlog

end Jobs
end Biggy
