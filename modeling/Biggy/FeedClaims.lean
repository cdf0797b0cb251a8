import Biggy.FeedDelivery

/-!
# Claims and completions of one feed

Any number of workers run the same feed. Each run claims the feed, reads the watermark
and the rows above it, and commits the new watermark together with the time of its own
claim; the parts of different runs come in any order, and a run may break off anywhere.
-/
namespace Biggy
namespace Feeds

open Run

/-- How far a worker is with its run: `now` is the time it claimed the feed with. -/
inductive Phase
  | idle
  | claimed (now : ℤ)
  | loaded (now : ℤ) (watermark : Value)
  | fetched (now : ℤ) (rows : List Row)

/-- The time of the claim that a worker holds. -/
def Phase.now : Phase → Option ℤ
  | .idle => none
  | .claimed now | .loaded now _ | .fetched now _ => some now

/-- The stored feed and the workers on it. -/
structure Shared where
  feed : Feed
  phase : ℕ → Phase

/-- One part of a run of some worker; `rows` is the source table at that time. -/
inductive Act
  | claim (worker : ℕ) (now : ℤ)
  | load (worker : ℕ)
  | fetch (worker : ℕ) (rows : List Row)
  | complete (worker : ℕ)
  | abandon (worker : ℕ)

def Shared.setPhase (s : Shared) (worker : ℕ) (phase : Phase) : Shared where
  feed := s.feed
  phase := fun w => if w = worker then phase else s.phase w

@[simp] theorem setPhase_feed (s : Shared) (worker : ℕ) (phase : Phase) : (s.setPhase worker phase).feed = s.feed :=
  rfl

@[simp] theorem setPhase_phase (s : Shared) (worker w : ℕ) (phase : Phase) :
    (s.setPhase worker phase).phase w = if w = worker then phase else s.phase w := rfl

section

variable {κ : Type*} [LinearOrder κ] (S : Setup κ) (t : Physical)

/-- One part of a run; a part that its worker is not ready for does nothing. -/
def act (s : Shared) : Act → Shared
  | .claim worker now =>
    match s.phase worker, s.feed.active, claim s.feed now with
    | .idle, true, some feed => { s with feed := feed }.setPhase worker (.claimed now)
    | _, _, _ => s
  | .load worker =>
    match s.phase worker with
    | .claimed now => s.setPhase worker (.loaded now s.feed.watermark)
    | _ => s
  | .fetch worker rows =>
    match s.phase worker with
    | .loaded now watermark => s.setPhase worker (.fetched now (listRowsAfter S { t with rows := rows } watermark))
    | _ => s
  | .complete worker =>
    match s.phase worker with
    | .fetched now rows => { s with feed := complete S t s.feed now rows }.setPhase worker .idle
    | _ => s
  | .abandon worker => s.setPhase worker .idle

/-- The time of a claim that succeeds. -/
def claims (s : Shared) : Act → List ℤ
  | .claim worker now =>
    match s.phase worker, s.feed.active, claim s.feed now with
    | .idle, true, some _ => [now]
    | _, _, _ => []
  | _ => []

/-- A completion comes while the stored time is still that of its own claim, and the
watermark column keeps the greatest `id` of its batch. -/
def Prompt (s : Shared) : Act → Prop
  | .complete worker =>
    match s.phase worker with
    | .fetched now rows => s.feed.lastRunAt = some now ∧ ∀ row rest, rows = row::rest →
        ∀ watermark, newWatermark S t row rest = some watermark → Lands S t rows watermark
    | _ => True
  | _ => True

/-- The two claims are the cadence apart. -/
def Spaced (feed : Feed) (a b : ℤ) : Prop := ∃ n, feed.scheduleMinutes = some n ∧ a+minutes n ≤ b

/-- The step does not move the watermark back. -/
def Forward (s : Shared) (a : Act) : Prop := level S t s.feed.watermark ≤ level S t (act S t s a).feed.watermark

/-- What a worker holds is still above the stored watermark, while its claim is the last one. -/
def Fresh (feed : Feed) : Phase → Prop
  | .loaded now watermark => feed.lastRunAt = some now → level S t watermark = level S t feed.watermark
  | .fetched now rows => feed.lastRunAt = some now → ∀ row ∈ rows, level S t feed.watermark < place S t row
  | _ => True

/-- The invariant of the workers and the claims so far. -/
structure Ordered (feed : Feed) (s : Shared) (log : List ℤ) : Prop where
  cadence : s.feed.scheduleMinutes = feed.scheduleMinutes
  spaced : log.Pairwise (Spaced feed)
  past : ∀ a ∈ log, ∃ last, s.feed.lastRunAt = some last ∧ a ≤ last
  held : ∀ worker now, (s.phase worker).now = some now → now ∈ log
  alone : ∀ v w now, (s.phase v).now = some now → (s.phase w).now = some now → v = w
  fresh : ∀ worker, Fresh S t s.feed (s.phase worker)

variable {S t} {feed : Feed} {s : Shared} {log : List ℤ}

/-- A worker that goes on with its run keeps the time of its claim, or gives it up. -/
theorem Ordered.move (h : Ordered S t feed s log) {worker : ℕ} {phase : Phase}
    (hnow : ∀ now, phase.now = some now → (s.phase worker).now = some now) (hfresh : Fresh S t s.feed phase) :
    Ordered S t feed (s.setPhase worker phase) log where
  cadence := h.cadence
  spaced := h.spaced
  past := h.past
  held := by
    intro w now hw
    by_cases hwk : w = worker
    · subst hwk
      exact h.held w now (hnow now (by simpa using hw))
    · exact h.held w now (by simpa [hwk] using hw)
  alone := by
    have hback : ∀ w now, ((s.setPhase worker phase).phase w).now = some now → (s.phase w).now = some now := by
      intro w now hw
      by_cases hwk : w = worker
      · subst hwk
        exact hnow now (by simpa using hw)
      · simpa [hwk] using hw
    exact fun v w now hv hw => h.alone v w now (hback v now hv) (hback w now hw)
  fresh := by
    intro w
    by_cases hwk : w = worker
    · simpa [hwk] using hfresh
    · simpa [hwk] using h.fresh w

/-- A claim that succeeds is later than every claim before it. -/
theorem Ordered.before (h : Ordered S t feed s log) {claimed : Feed} {now : ℤ} (hclaim : claim s.feed now = some claimed) :
    ∀ a ∈ log, Spaced feed a now ∧ a < now := by
  intro a ha
  rcases claim_eq_some.mp hclaim with ⟨n,hn,hpos,-,hdue,-⟩
  rcases h.past a ha with ⟨last,hlast,hle⟩
  have hcut := hdue last hlast
  have hlater := (minutes_pos n).mpr hpos
  exact ⟨⟨n,h.cadence ▸ hn,by omega⟩,by omega⟩

theorem Ordered.claim (h : Ordered S t feed s log) {claimed : Feed} {now : ℤ} {worker : ℕ}
    (hclaim : Feeds.claim s.feed now = some claimed) :
    Ordered S t feed ({ s with feed := claimed }.setPhase worker (.claimed now)) (log ++ [now]) := by
  have hbefore := h.before hclaim
  have hstamp : claimed = { s.feed with lastRunAt := some now } := by
    rcases claim_eq_some.mp hclaim with ⟨_,_,_,_,_,rfl⟩
    rfl
  have hother : ∀ w, w ≠ worker → ∀ k, (s.phase w).now = some k → k < now :=
    fun w _ k hk => (hbefore k (h.held w k hk)).2
  subst hstamp
  refine ⟨h.cadence,?_,?_,?_,?_,?_⟩
  · rw [List.pairwise_append]
    refine ⟨h.spaced,List.pairwise_singleton _ _,?_⟩
    intro a ha b hb
    rw [List.mem_singleton.mp hb]
    exact (hbefore a ha).1
  · intro a ha
    refine ⟨now,rfl,?_⟩
    rcases List.mem_append.mp ha with ha | ha
    · exact (hbefore a ha).2.le
    · exact (List.mem_singleton.mp ha).le
  · intro w k hk
    rw [List.mem_append,List.mem_singleton]
    by_cases hw : w = worker
    · right
      simpa [hw,Phase.now,eq_comm] using hk
    · left
      exact h.held w k (by simpa [hw] using hk)
  · intro v w k hv hw
    by_cases hvk : v = worker <;> by_cases hwk : w = worker
    · rw [hvk,hwk]
    · have hkn : k = now := by simpa [hvk,Phase.now,eq_comm] using hv
      have := hother w hwk k (by simpa [hwk] using hw)
      omega
    · have hkn : k = now := by simpa [hwk,Phase.now,eq_comm] using hw
      have := hother v hvk k (by simpa [hvk] using hv)
      omega
    · exact h.alone v w k (by simpa [hvk] using hv) (by simpa [hwk] using hw)
  · intro w
    by_cases hw : w = worker
    · simp [hw,Fresh]
    · have hnow := hother w hw
      rw [setPhase_phase,if_neg hw]
      cases hphase : s.phase w with
      | idle => trivial
      | claimed k => trivial
      | loaded k watermark =>
        intro hlast
        have := hnow k (by rw [hphase]; rfl)
        have hk : now = k := Option.some.inj hlast
        omega
      | fetched k rows =>
        intro hlast
        have := hnow k (by rw [hphase]; rfl)
        have hk : now = k := Option.some.inj hlast
        omega

omit [LinearOrder κ] in
theorem complete_cases (feed : Feed) (now : ℤ) (rows : List Row) (h : feed.lastRunAt = some now) :
    complete S t feed now rows = feed ∨ ∃ row rest watermark, rows = row::rest ∧
      newWatermark S t row rest = some watermark ∧
      complete S t feed now rows = { feed with watermark := watermark } := by
  cases rows with
  | nil =>
    left
    rw [complete,← h]
  | cons row rest =>
    cases hnew : newWatermark S t row rest with
    | none =>
      left
      simp [complete,hnew]
    | some watermark =>
      right
      exact ⟨row,rest,watermark,rfl,hnew,by simp [complete,hnew,h]⟩

/-- A prompt completion leaves the time of the last run alone and moves the watermark forward. -/
theorem Ordered.complete (h : Ordered S t feed s log) {worker : ℕ} {now : ℤ} {rows : List Row}
    (hphase : s.phase worker = .fetched now rows) (hprompt : Prompt S t s (.complete worker)) :
    Ordered S t feed (act S t s (.complete worker)) log ∧ Forward S t s (.complete worker) := by
  simp only [Prompt,hphase] at hprompt
  obtain ⟨hlast,hlands⟩ := hprompt
  have hidle : Ordered S t feed (s.setPhase worker .idle) log := h.move (fun _ hnow => by cases hnow) trivial
  rcases complete_cases (S := S) (t := t) s.feed now rows hlast with hsame | ⟨row,rest,watermark,hrows,hnew,hmoved⟩
  · have hact : act S t s (.complete worker) = s.setPhase worker .idle := by simp only [act,hphase,hsame]
    rw [Forward,hact]
    exact ⟨hidle,le_rfl⟩
  · have hact : act S t s (.complete worker) =
        { s with feed := { s.feed with watermark := watermark } }.setPhase worker .idle := by
      simp only [act,hphase,hmoved]
    rw [Forward,hact]
    constructor
    · refine ⟨h.cadence,h.spaced,h.past,hidle.held,hidle.alone,?_⟩
      intro w
      by_cases hw : w = worker
      · simp [hw,Fresh]
      · have hstale : ∀ k, (s.phase w).now = some k → k ≠ now := by
          rintro k hk rfl
          exact hw (h.alone w worker k hk (by rw [hphase]; rfl))
        rw [setPhase_phase,if_neg hw]
        cases hother : s.phase w with
        | idle => trivial
        | claimed k => trivial
        | loaded k read =>
          intro hk
          exact absurd (Option.some.inj (hk.symm.trans hlast)) (hstale k (by rw [hother]; rfl))
        | fetched k batch =>
          intro hk
          exact absurd (Option.some.inj (hk.symm.trans hlast)) (hstale k (by rw [hother]; rfl))
    · have hfresh := h.fresh worker
      rw [hphase] at hfresh
      obtain ⟨last,hmem,-⟩ := (hlands row rest hrows watermark hnew).2
      have hbelow := hfresh hlast last hmem
      have habove := (hlands row rest hrows watermark hnew).1 last hmem
      exact hbelow.le.trans habove

/-- What one part of a run keeps. -/
theorem Ordered.act (h : Ordered S t feed s log) {a : Act} (hprompt : Prompt S t s a) :
    Ordered S t feed (Feeds.act S t s a) (log ++ claims s a) ∧ Forward S t s a := by
  cases a with
  | claim worker now =>
    simp only [Forward,Feeds.act,claims]
    split
    · rename_i claimed hphase hactive hclaim
      refine ⟨h.claim hclaim,?_⟩
      rw [setPhase_feed,claim_watermark hclaim]
    · simpa using h
  | load worker =>
    simp only [Forward,Feeds.act,claims,List.append_nil]
    split
    · rename_i now hphase
      refine ⟨h.move ?_ (fun _ => rfl),le_rfl⟩
      intro k hk
      rw [hphase]
      exact hk
    · exact ⟨h,le_rfl⟩
  | fetch worker rows =>
    simp only [Forward,Feeds.act,claims,List.append_nil]
    split
    · rename_i now watermark hphase
      refine ⟨h.move ?_ ?_,le_rfl⟩
      · intro k hk
        rw [hphase]
        exact hk
      · intro hlast row hrow
        have hfresh := h.fresh worker
        rw [hphase] at hfresh
        have habove := (Batch.mem_of_mem_after hrow).2
        rw [← hfresh hlast]
        exact habove
    · exact ⟨h,le_rfl⟩
  | complete worker =>
    have hnone : claims s (.complete worker) = [] := rfl
    rw [hnone,List.append_nil]
    cases hphase : s.phase worker with
    | fetched now rows => exact h.complete hphase hprompt
    | _ =>
      simp only [Forward,Feeds.act,hphase]
      exact ⟨h,le_rfl⟩
  | abandon worker =>
    have hnone : claims s (.abandon worker) = [] := rfl
    rw [hnone,List.append_nil]
    exact ⟨h.move (fun _ hnow => by cases hnow) trivial,le_rfl⟩

end

def orderRows (keys : List ℤ) : List Row := (tableOf "id" keys).rows

/-- Every run ends before the next claim. -/
def promptDay : List Act :=
  [.claim 0 (nextDay 0),.load 0,.fetch 0 (orderRows [1]),.complete 0,
    .claim 1 (nextDay 1),.load 1,.fetch 1 (orderRows [1,2]),.complete 1]

/-- The first run ends after the second one. -/
def lateDay : List Act :=
  [.claim 0 (nextDay 0),.load 0,.fetch 0 (orderRows [1]),
    .claim 1 (nextDay 1),.load 1,.fetch 1 (orderRows [1,2]),.complete 1,.complete 0,
    .claim 2 (nextDay 1+minutes 1)]

def idleHourly : Shared := ⟨hourly,fun _ => .idle⟩

theorem lands_orderRows (keys : List ℤ) (after : Value) {row : Row} {rest : List Row}
    (hrows : listRowsAfter integers { tableOf "id" [] with rows := orderRows keys } after = row::rest)
    {watermark : Value} (hnew : newWatermark integers (tableOf "id" []) row rest = some watermark) :
    Lands integers (tableOf "id" []) (row::rest) watermark := by
  apply (integerKey_tableOf []).lands _ hnew
  intro r hr
  rw [← hrows] at hr
  exact ints_tableOf "id" keys r (Batch.mem_of_mem_after hr).1

end Feeds
end Biggy
