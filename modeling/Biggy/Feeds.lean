import Biggy.Jobs
import Biggy.Triggers
import Biggy.Batch

/-!
# The feed engine

One feed over one source table: the payload of a row, its push to the peer, and the
scheduled run, which pushes the rows whose key is above the watermark and then moves
the watermark to the greatest `id` of the batch.
-/
namespace Biggy
namespace Feeds

/-- One entry of `field_map`. -/
structure Mapping where
  target : Option String
  source : Option String
  deriving DecidableEq

structure Feed where
  id : ℤ
  active : Bool := true
  targetTable : String
  mode : String := "create"
  matchTargetField : Option String := none
  fieldMap : List Mapping := []
  scheduleMinutes : Option ℤ
  lastRunAt : Option ℤ := none
  watermark : Value := .int 0

structure Connection where
  active : Bool

/-- A request to the peer; `record` is the id at the end of its path. -/
structure Request where
  method : String
  table : String
  record : Option Json := none
  params : Option (String × Value) := none
  payload : Option Values := none

inductive PushStatus
  | sent | failed | skipped
  deriving DecidableEq

/-- What one push meets: the connection row, whether outbound calls are live, and the
peer, which answers with a status code and a decoded body or raises. -/
structure PushEnv where
  conn : Option Connection
  live : Bool := true
  request : Request → Except String (ℤ × Json)

/-- The parts of the setting that a feed does not choose: the order of the key column
and what the integer watermark column keeps of a value, if it takes the value. -/
structure Setup (κ : Type*) where
  py : PyLib
  rank : Value → κ
  column : Value → Option Value

/-- `row.get(column)`. -/
def fetched (t : Physical) (row : Row) : Row := fun column =>
  if t.columns.contains column then row column else .null

/-- `build_payload`. -/
def buildPayload (py : PyLib) (feed : Feed) (row : Row) : Values :=
  feed.fieldMap.foldl (fun out m =>
    match m.target, m.source with
    | some target, some source =>
      if target = "" ∨ source = "" then out
      else out.update [(target,if isIn "\x7b" source then .text (Triggers.render py (some source) row) else row source)]
    | _, _ => out) []

/-- `data["data"][0].get("id")` of a lookup that found something; `none` where the
lookup raises. -/
def existingId (answer : ℤ × Json) : Option Json :=
  if answer.1 ≠ 200 then some .null
  else
    match answer.2 with
    | .obj members =>
      let found := Json.get members "data"
      if !found.truthy then some .null
      else
        match found with
        | .arr (.obj first::_) => some (Json.get first "id")
        | _ => none
    | _ => some .null

/-- The id of the row to overwrite, if the feed looks for one. -/
def lookupExisting (env : PushEnv) (table : String) (payload : Values) (matchField : Option String) :
    Option Json :=
  match matchField with
  | none => some .null
  | some name =>
    let value := (payload.lookup name).getD .null
    if name = "" ∨ value.blank then some .null
    else
      match env.request { method := "GET", table := table, params := some (name,value) } with
      | .error _ => none
      | .ok answer => existingId answer

/-- The answer to the write and whether its status is the expected one. -/
def write (env : PushEnv) (table : String) (payload : Values) (existing : Json) :
    Except String (Bool × Json) :=
  if existing.truthy then
    match env.request { method := "PATCH", table := table, record := some existing, payload := some payload } with
    | .error e => .error e
    | .ok answer => .ok (answer.1 == 200,answer.2)
  else
    match env.request { method := "POST", table := table, payload := some payload } with
    | .error e => .error e
    | .ok answer => .ok (answer.1 == 201,answer.2)

/-- `connectors.push`: every exception of the calls counts as a failure, but the id is
read out of an accepted answer after the `try`. -/
def push (env : PushEnv) (table : String) (payload : Values) (matchField : Option String) :
    Except PyError PushStatus :=
  if !env.live then .ok .skipped
  else
    match lookupExisting env table payload matchField with
    | none => .ok .failed
    | some existing =>
      match write env table payload existing with
      | .error _ => .ok .failed
      | .ok (false,_) => .ok .failed
      | .ok (true,.obj _) => .ok .sent
      | .ok (true,data) => if data.truthy then .error .attributeError else .ok .sent

/-- `run_one`. -/
def runOne (py : PyLib) (feed : Feed) (row : Row) (env : PushEnv) : Except PyError PushStatus :=
  match env.conn with
  | none => .ok .skipped
  | some conn =>
    if !conn.active then .ok .skipped
    else push env feed.targetTable (buildPayload py feed row)
      (if feed.mode = "upsert" then feed.matchTargetField else none)

/-- The pushes of a batch in order, up to the first one that raises. -/
def pushRows (py : PyLib) (t : Physical) (feed : Feed) (env : Value → PushEnv) :
    List Row → List (Row × PushStatus) × Option PyError
  | [] => ([],none)
  | row::rows =>
    match runOne py feed (fetched t row) (env (t.keyOf row)) with
    | .error e => ([],some e)
    | .ok status =>
      let rest := pushRows py t feed env rows
      ((row,status)::rest.1,rest.2)

/-- Python's `<` between keys. -/
def less : Value → Value → Except PyError Bool
  | .int a, .int b => .ok (decide (a < b))
  | .text a, .text b => .ok (decide (a < b))
  | _, _ => .error .typeError

/-- `max` of a list that starts with `m`. -/
def greatest : Value → List Value → Except PyError Value
  | m, [] => .ok m
  | m, v::vs =>
    match less m v with
    | .error e => .error e
    | .ok true => greatest v vs
    | .ok false => greatest m vs

/-- `max(r["id"] for r in rows)`, with the first row apart. -/
def maxId (t : Physical) (row : Row) (rows : List Row) : Except PyError Value :=
  if t.columns.contains "id" then greatest (row "id") (rows.map fun r => r "id") else .error .keyError

/-- The feed's own row among the scheduled jobs. -/
def Feed.jobs (feed : Feed) : Jobs.JobTable := ⟨[⟨feed.id,feed.lastRunAt⟩],by simp⟩

/-- The feed after a claim, if the caller won it. -/
def claim (feed : Feed) (now : ℤ) : Option Feed :=
  match Jobs.claimDue feed.jobs feed.id feed.scheduleMinutes now with
  | .ok (true,jobs) => some { feed with lastRunAt := (jobs.find feed.id).bind Jobs.Job.lastRunAt }
  | _ => none

variable {κ : Type*} [LinearOrder κ] (S : Setup κ)

/-- The place of a row in the order of the key column. -/
def place (t : Physical) (row : Row) : κ := S.rank (t.keyOf row)

/-- The place of a watermark. -/
def level (t : Physical) (watermark : Value) : κ := S.rank (t.key watermark)

/-- `list_rows_after`: the first 500 rows above the watermark, ascending. -/
def listRowsAfter (t : Physical) (watermark : Value) : List Row :=
  Batch.after (place S t) (level S t watermark) 500 t.rows

/-- The watermark that a batch leaves; `none` where reading it off raises or the
column refuses it. -/
def newWatermark (t : Physical) (row : Row) (rows : List Row) : Option Value :=
  match maxId t row rows with
  | .error _ => none
  | .ok top => S.column top

/-- The last commit of the run; a failing one leaves the feed as it was. -/
def complete (t : Physical) (feed : Feed) (now : ℤ) : List Row → Feed
  | [] => { feed with lastRunAt := some now }
  | row::rows =>
    match newWatermark S t row rows with
    | none => feed
    | some watermark => { feed with watermark := watermark, lastRunAt := some now }

/-- `run_scheduled` for one feed whose run nothing overlaps: the feed it leaves and what
it pushed. -/
def runScheduled (t : Physical) (feed : Feed) (now : ℤ) (env : Value → PushEnv) :
    Feed × List (Row × PushStatus) :=
  if !feed.active then (feed,[])
  else
    match claim feed now with
    | none => (feed,[])
    | some claimed =>
      let rows := listRowsAfter S t claimed.watermark
      let pushed := pushRows S.py t claimed env rows
      (if pushed.2.isSome then claimed else complete S t claimed now rows,pushed.1)

/-- A claim wins exactly when the job is due, and only stamps the feed. -/
theorem claim_eq_some {feed claimed : Feed} {now : ℤ} : claim feed now = some claimed ↔
    ∃ n, feed.scheduleMinutes = some n ∧ 0 < n ∧ 0 ≤ now-minutes n ∧
      (∀ t, feed.lastRunAt = some t → t ≤ now-minutes n) ∧ claimed = { feed with lastRunAt := some now } := by
  simp only [claim,Jobs.claimDue]
  cases hs : feed.scheduleMinutes with
  | none => simp
  | some n =>
    by_cases hn : n ≤ 0
    · simp only [hn,if_true,Option.some.injEq,reduceCtorEq,false_iff,not_exists]
      rintro m ⟨rfl,hm,-⟩
      omega
    · by_cases hrange : now-minutes n < 0
      · simp only [hn,hrange,if_false,if_true,Option.some.injEq,reduceCtorEq,false_iff,not_exists]
        rintro m ⟨rfl,-,hm,-⟩
        omega
      · have hjob : feed.jobs.find feed.id = some ⟨feed.id,feed.lastRunAt⟩ := by
          simp [Feed.jobs,Jobs.JobTable.find,Keyed.find_cons]
        have hdue : Jobs.dueBy (now-minutes n) ⟨feed.id,feed.lastRunAt⟩ = true ↔
            ∀ t, feed.lastRunAt = some t → t ≤ now-minutes n := by
          cases feed.lastRunAt <;> simp [Jobs.dueBy]
        simp only [hn,hrange,if_false,Jobs.rowcount_eq,hjob,Option.any_some]
        by_cases hd : Jobs.dueBy (now-minutes n) ⟨feed.id,feed.lastRunAt⟩ = true
        · have hstamp : ((feed.jobs.update feed.id (now-minutes n) now).find feed.id).bind Jobs.Job.lastRunAt =
              some now := by
            simp [Jobs.find_update,hjob,Jobs.stamp,Jobs.taken,hd]
          simp only [hd,if_true,beq_self_eq_true,hstamp,Option.some.injEq]
          constructor
          · intro h
            exact ⟨n,rfl,by omega,by omega,hdue.mp hd,h.symm⟩
          · rintro ⟨m,-,-,-,-,rfl⟩
            rfl
        · simp only [hd,Bool.false_eq_true,if_false]
          constructor
          · intro h
            simp at h
          · rintro ⟨m,hm,-,-,hle,-⟩
            have hmn : n = m := Option.some.inj hm
            exact absurd (hdue.mpr (hmn ▸ hle)) hd

theorem claim_watermark {feed claimed : Feed} {now : ℤ} (h : claim feed now = some claimed) :
    claimed.watermark = feed.watermark := by
  rcases claim_eq_some.mp h with ⟨_,_,_,_,_,rfl⟩
  rfl

section Pushes

variable {py : PyLib} {t : Physical} {feed : Feed} {env : Value → PushEnv} {rows : List Row}

/-- The push of a row answers `sent`. -/
def sends (py : PyLib) (t : Physical) (feed : Feed) (env : Value → PushEnv) (row : Row) : Prop :=
  runOne py feed (fetched t row) (env (t.keyOf row)) = .ok .sent

theorem pushRows_of_sends (h : ∀ row ∈ rows, sends py t feed env row) :
    pushRows py t feed env rows = (rows.map fun row => (row,.sent),none) := by
  induction rows with
  | nil => rfl
  | cons row rows ih =>
    have hrow := h row List.mem_cons_self
    rw [sends] at hrow
    simp [pushRows,hrow,ih fun r hr => h r (List.mem_cons_of_mem row hr)]

/-- The push of a row raises. -/
def raises (py : PyLib) (t : Physical) (feed : Feed) (env : Value → PushEnv) (row : Row) : Prop :=
  ∃ e, runOne py feed (fetched t row) (env (t.keyOf row)) = .error e

theorem pushRows_of_raises {row : Row} (hrow : row ∈ rows) (h : raises py t feed env row) :
    (pushRows py t feed env rows).2.isSome = true := by
  rcases h with ⟨e,he⟩
  induction rows with
  | nil => cases hrow
  | cons r rows ih =>
    simp only [pushRows]
    split
    · rfl
    · rename_i status hstatus
      rcases List.mem_cons.mp hrow with rfl | hrow
      · rw [he] at hstatus
        cases hstatus
      · exact ih hrow

theorem sends_of_mem {row : Row} (h : (row,PushStatus.sent) ∈ (pushRows py t feed env rows).1) :
    row ∈ rows ∧ sends py t feed env row := by
  induction rows with
  | nil => cases h
  | cons r rows ih =>
    simp only [pushRows] at h
    split at h
    · cases h
    · rename_i status hstatus
      rcases List.mem_cons.mp h with heq | h
      · obtain ⟨rfl,rfl⟩ := Prod.mk.inj heq
        exact ⟨List.mem_cons_self,hstatus⟩
      · exact ⟨List.mem_cons_of_mem r (ih h).1,(ih h).2⟩

end Pushes

section Watermark

variable {S}

/-- The watermark is at the place of the last row. -/
def Lands (S : Setup κ) (t : Physical) (rows : List Row) (watermark : Value) : Prop :=
  (∀ r ∈ rows, place S t r ≤ level S t watermark) ∧ ∃ r ∈ rows, level S t watermark ≤ place S t r

/-- An integer key named `id` whose values the watermark column takes as they are. -/
structure IntegerKey (S : Setup κ) (t : Physical) : Prop where
  named : t.pk = "id"
  present : t.columns.contains "id" = true
  key : ∀ n, t.key (.int n) = .int n
  column : ∀ n, S.column (.int n) = some (.int n)
  mono : ∀ m n, m ≤ n → S.rank (.int m) ≤ S.rank (.int n)

theorem greatest_int (m : ℤ) (vs : List Value) (hvs : ∀ v ∈ vs, ∃ n, v = .int n) :
    ∃ top, greatest (.int m) vs = .ok (.int top) ∧ Value.int top ∈ Value.int m::vs ∧
      ∀ n, Value.int n ∈ Value.int m::vs → n ≤ top := by
  induction vs generalizing m with
  | nil =>
    refine ⟨m,rfl,List.mem_cons_self,?_⟩
    intro n hn
    cases List.mem_singleton.mp hn
    exact Int.le_refl m
  | cons v vs ih =>
    rcases hvs v List.mem_cons_self with ⟨k,rfl⟩
    have hrest := fun w hw => hvs w (List.mem_cons_of_mem (Value.int k) hw)
    by_cases hlt : m < k
    · rcases ih k hrest with ⟨top,htop,hmem,hupper⟩
      refine ⟨top,by simpa [greatest,less,hlt] using htop,List.mem_cons_of_mem _ hmem,?_⟩
      intro n hn
      rcases List.mem_cons.mp hn with heq | hn
      · cases heq
        have := hupper k List.mem_cons_self
        omega
      · exact hupper n hn
    · rcases ih m hrest with ⟨top,htop,hmem,hupper⟩
      refine ⟨top,by simpa [greatest,less,hlt] using htop,?_,?_⟩
      · rcases List.mem_cons.mp hmem with heq | hmem
        · exact heq ▸ List.mem_cons_self
        · exact List.mem_cons_of_mem _ (List.mem_cons_of_mem _ hmem)
      · intro n hn
        rcases List.mem_cons.mp hn with heq | hn
        · exact hupper n (heq ▸ List.mem_cons_self)
        · rcases List.mem_cons.mp hn with heq | hn
          · cases heq
            have := hupper m List.mem_cons_self
            omega
          · exact hupper n (List.mem_cons_of_mem _ hn)

theorem IntegerKey.newWatermark {t : Physical} (h : IntegerKey S t) {row : Row} {rows : List Row}
    (hints : ∀ r ∈ row::rows, ∃ n, t.keyOf r = .int n) :
    ∃ watermark, Feeds.newWatermark S t row rows = some watermark ∧ Lands S t (row::rows) watermark := by
  simp only [Physical.keyOf,h.named] at hints
  rcases hints row List.mem_cons_self with ⟨m,hm⟩
  have hvs : ∀ v ∈ rows.map (fun r => r "id"), ∃ n, v = .int n := by
    intro v hv
    rcases List.mem_map.mp hv with ⟨r,hr,rfl⟩
    exact hints r (List.mem_cons_of_mem row hr)
  rcases greatest_int m _ hvs with ⟨top,htop,hmem,hupper⟩
  have hids : (row::rows).map (fun r => r "id") = .int m::rows.map fun r => r "id" := by
    rw [List.map_cons,hm]
  rw [← hids] at hmem hupper
  have hplace : ∀ r, place S t r = S.rank (r "id") := by
    intro r
    rw [place,Physical.keyOf,h.named]
  have hlevel : level S t (.int top) = S.rank (.int top) := by rw [level,h.key]
  refine ⟨.int top,by simp [Feeds.newWatermark,maxId,List.elem_iff.mp h.present,hm,htop,h.column],?_,?_⟩
  · intro r hr
    rcases hints r hr with ⟨n,hn⟩
    rw [hplace r,hlevel,hn]
    exact h.mono n top (hupper n (List.mem_map.mpr ⟨r,hr,hn⟩))
  · rcases List.mem_map.mp hmem with ⟨r,hr,hid⟩
    exact ⟨r,hr,by rw [hplace r,hlevel,hid]⟩

theorem IntegerKey.lands {t : Physical} (h : IntegerKey S t) {row : Row} {rows : List Row}
    (hints : ∀ r ∈ row::rows, ∃ n, t.keyOf r = .int n) {watermark : Value}
    (hnew : Feeds.newWatermark S t row rows = some watermark) : Lands S t (row::rows) watermark := by
  rcases h.newWatermark hints with ⟨other,hother,hlands⟩
  have hsame : other = watermark := Option.some.inj (hother.symm.trans hnew)
  exact hsame ▸ hlands

end Watermark

end Feeds
end Biggy
