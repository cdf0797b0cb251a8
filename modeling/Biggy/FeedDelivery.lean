import Biggy.Feeds

/-!
# Scheduled delivery

The scheduled runs of a feed over a table that rows are added to and taken from. Every
row at or below the watermark is delivered, and none twice, as long as no batch is half
delivered and no row comes in at or below the watermark.
-/
namespace Biggy
namespace Feeds

open Run

section

variable {κ : Type*} [LinearOrder κ] (S : Setup κ)

/-- A feed and its source table; the table's key is unique in its own order. -/
structure Source where
  feed : Feed
  table : Physical
  placesNodup : (table.rows.map (place S table)).Nodup

variable {S}

inductive Event
  | insert (row : Row)
  | delete (key : Value)
  | run (now : ℤ) (env : Value → PushEnv)

/-- The table after a row was added. -/
def insertRow (s : Source S) (row : Row) (hfree : place S s.table row ∉ s.table.rows.map (place S s.table)) :
    Source S where
  feed := s.feed
  table := { s.table with rows := s.table.rows ++ [row] }
  placesNodup := by
    change ((s.table.rows ++ [row]).map (place S s.table)).Nodup
    rw [List.map_append,List.nodup_append]
    refine ⟨s.placesNodup,List.nodup_singleton _,?_⟩
    intro k hk k' hk' heq
    rw [List.map_singleton,List.mem_singleton] at hk'
    exact hfree (hk' ▸ heq ▸ hk)

def deleteRow (s : Source S) (key : Value) : Source S where
  feed := s.feed
  table := { s.table with rows := s.table.rows.filter fun row => s.table.keyOf row != key }
  placesNodup := Keyed.nodup_filter _ s.placesNodup

/-- One event; the database refuses a row whose key is taken. -/
def step (s : Source S) : Event → Source S
  | .insert row => if h : place S s.table row ∈ s.table.rows.map (place S s.table) then s else insertRow s row h
  | .delete key => deleteRow s key
  | .run now env => { s with feed := (runScheduled S s.table s.feed now env).1 }

/-- The keys of the rows that an event pushes with status `sent`. -/
def sentBy (s : Source S) : Event → List κ
  | .run now env => ((runScheduled S s.table s.feed now env).2.filter fun p => p.2 = .sent).map
      fun p => place S s.table p.1
  | _ => []

/-- The batch of the next run. -/
def batch (s : Source S) : List Row := listRowsAfter S s.table s.feed.watermark

/-- The level of the stored watermark. -/
def stored (s : Source S) : κ := level S s.table s.feed.watermark

/-- Reading off the greatest `id` gives the place of the last row of the batch. -/
def Kept (s : Source S) (rows : List Row) : Prop := ∀ row rest, rows = row::rest →
  ∃ watermark, newWatermark S s.table row rest = some watermark ∧ Lands S s.table rows watermark

/-- Reading off the greatest `id` fails. -/
def Unkept (s : Source S) (rows : List Row) : Prop := ∃ row rest, rows = row::rest ∧ newWatermark S s.table row rest = none

/-- A batch is delivered as a whole, or nothing of it is and the run stops before it
moves the watermark. -/
def Whole (s : Source S) (env : Value → PushEnv) : Prop :=
  (∀ row ∈ batch s, sends S.py s.table s.feed env row) ∧ Kept s (batch s) ∨
    (∀ row ∈ batch s, ¬sends S.py s.table s.feed env row) ∧
      (Unkept s (batch s) ∨ ∃ row ∈ batch s, raises S.py s.table s.feed env row)

/-- The condition of an event: a new row comes in above the watermark, and the batch of
a run that claims the feed is delivered as a whole. -/
def Orderly (s : Source S) : Event → Prop
  | .insert row => place S s.table row ∉ s.table.rows.map (place S s.table) → stored s < place S s.table row
  | .delete _ => True
  | .run now env => (claim s.feed now).isSome → Whole s env

/-- Every row at or below the watermark was sent, and nothing twice. -/
structure Delivered (s : Source S) (log : List κ) : Prop where
  below : ∀ row ∈ s.table.rows, place S s.table row ≤ stored s → place S s.table row ∈ log
  once : log.Nodup

/-- What was sent is not above the watermark. -/
structure Settled (s : Source S) (log : List κ) : Prop extends Delivered s log where
  within : ∀ k ∈ log, k ≤ stored s

theorem Settled.insert {s : Source S} {log : List κ} (h : Settled s log) {row : Row} (hok : Orderly s (.insert row)) :
    Settled (step s (.insert row)) log := by
  simp only [step]
  split
  · exact h
  · rename_i hfree
    refine ⟨⟨?_,h.once⟩,h.within⟩
    intro r hr hle
    rcases List.mem_append.mp hr with hr | hr
    · exact h.below r hr hle
    · have hnew := hok hfree
      rw [List.mem_singleton.mp hr] at hle
      exact absurd (lt_of_lt_of_le hnew hle) (lt_irrefl _)

theorem Settled.delete {s : Source S} {log : List κ} (h : Settled s log) (key : Value) :
    Settled (step s (.delete key)) log :=
  ⟨⟨fun row hrow hle => h.below row (List.mem_filter.mp hrow).1 hle,h.once⟩,h.within⟩

/-- A delivered batch and the watermark at its end. -/
theorem Settled.advance {s s' : Source S} {log : List κ} (h : Settled s log) (htable : s'.table = s.table)
    {watermark : Value} (hstored : stored s' = level S s.table watermark)
    (hlands : Lands S s.table (batch s) watermark) : Settled s' (log ++ (batch s).map (place S s.table)) := by
  rcases hlands with ⟨hupper,last,hmem,hlast⟩
  rw [← hstored] at hupper hlast
  have hgrow : stored s ≤ stored s' := (Batch.mem_of_mem_after hmem).2.le.trans (hupper last hmem)
  refine ⟨⟨?_,?_⟩,?_⟩
  · intro row hrow hle
    rw [htable] at hrow hle ⊢
    rw [List.mem_append]
    by_cases hold : place S s.table row ≤ stored s
    · exact Or.inl (h.below row hrow hold)
    · have hin : row ∈ batch s :=
        Batch.mem_after_of_le s.placesNodup hrow (lt_of_not_ge hold) hmem (hle.trans hlast)
      exact Or.inr (List.mem_map_of_mem hin)
  · rw [List.nodup_append]
    refine ⟨h.once,Batch.nodup_after s.placesNodup,?_⟩
    intro k hk k' hk' heq
    rcases List.mem_map.mp hk' with ⟨row,hrow,rfl⟩
    have habove := (Batch.mem_of_mem_after hrow).2
    have hbelow := h.within k hk
    rw [heq] at hbelow
    exact absurd (lt_of_lt_of_le habove hbelow) (lt_irrefl _)
  · intro k hk
    rcases List.mem_append.mp hk with hk | hk
    · exact (h.within k hk).trans hgrow
    · rcases List.mem_map.mp hk with ⟨row,hrow,rfl⟩
      exact hupper row hrow

/-- A step that moves neither the watermark nor the rows and sends nothing. -/
theorem Settled.stay {s s' : Source S} {log : List κ} (h : Settled s log) (htable : s'.table = s.table)
    (hstored : s'.feed.watermark = s.feed.watermark) : Settled s' log := by
  have hlevel : stored s' = stored s := by
    rw [stored,stored,htable,hstored]
  refine ⟨⟨?_,h.once⟩,?_⟩
  · intro row hrow hle
    rw [htable] at hrow hle ⊢
    exact h.below row hrow (hlevel ▸ hle)
  · rw [hlevel]
    exact h.within

/-- What a run that won its claim leaves and pushes. -/
theorem runScheduled_claimed {t : Physical} {feed claimed : Feed} {now : ℤ} (env : Value → PushEnv)
    (hactive : feed.active = true) (hclaim : claim feed now = some claimed) :
    runScheduled S t feed now env =
      (if (pushRows S.py t feed env (listRowsAfter S t feed.watermark)).2.isSome then claimed
        else complete S t claimed now (listRowsAfter S t feed.watermark),
      (pushRows S.py t feed env (listRowsAfter S t feed.watermark)).1) := by
  have hpush : ∀ rows, pushRows S.py t claimed env rows = pushRows S.py t feed env rows := by
    rcases claim_eq_some.mp hclaim with ⟨_,_,_,_,_,rfl⟩
    intro rows
    induction rows with
    | nil => rfl
    | cons row rows ih =>
      simp only [pushRows,ih]
      rfl
  simp only [runScheduled,hactive,hclaim,Bool.not_true,Bool.false_eq_true,if_false,hpush,claim_watermark hclaim]

theorem Settled.run {s : Source S} {log : List κ} (h : Settled s log) {now : ℤ} {env : Value → PushEnv}
    (hok : Orderly s (.run now env)) :
    Settled (step s (.run now env)) (log ++ sentBy s (.run now env)) := by
  by_cases hactive : s.feed.active = true
  · cases hclaim : claim s.feed now with
    | none =>
      have hidle : runScheduled S s.table s.feed now env = (s.feed,[]) := by simp [runScheduled,hclaim]
      simpa [step,sentBy,hidle] using h
    | some claimed =>
      have hrun := runScheduled_claimed (S := S) (t := s.table) env hactive hclaim
      have hmark := claim_watermark hclaim
      rcases hok (by simp [hclaim]) with ⟨hsends,hkept⟩ | ⟨hnone,hstop⟩
      · have hpushed := pushRows_of_sends hsends
        have hsent : sentBy s (.run now env) = (batch s).map (place S s.table) := by
          simp only [sentBy,hrun]
          change (((pushRows S.py s.table s.feed env (batch s)).1.filter _).map _) = _
          simp [hpushed,List.filter_map,Function.comp_def]
        have hfeed : (step s (.run now env)).feed = complete S s.table claimed now (batch s) := by
          simp only [step,hrun]
          change (if (pushRows S.py s.table s.feed env (batch s)).2.isSome then claimed else _) = _
          simp only [hpushed,Option.isSome_none,Bool.false_eq_true,if_false]
          rfl
        rw [hsent]
        cases hrows : batch s with
        | nil =>
          rw [hrows] at hfeed
          have hstay : Settled (step s (.run now env)) log := h.stay rfl (by rw [hfeed]; exact hmark)
          simpa using hstay
        | cons row rows =>
          rcases hkept row rows hrows with ⟨watermark,hnew,hlands⟩
          rw [hrows] at hfeed
          have hstored : stored (step s (.run now env)) = level S s.table watermark := by
            rw [stored,hfeed]
            simp only [complete,hnew]
            rfl
          rw [← hrows]
          exact h.advance rfl hstored hlands
      · have hsent : sentBy s (.run now env) = [] := by
          simp only [sentBy,hrun,List.map_eq_nil_iff,List.filter_eq_nil_iff,decide_eq_true_eq]
          rintro ⟨row,status⟩ hmem rfl
          exact hnone row (sends_of_mem hmem).1 (sends_of_mem hmem).2
        have hfeed : (step s (.run now env)).feed.watermark = s.feed.watermark := by
          simp only [step,hrun]
          split
          · exact hmark
          · rename_i hquiet
            rcases hstop with ⟨row,rest,hrows,hnew⟩ | ⟨row,hrow,hraise⟩
            · change (complete S s.table claimed now (batch s)).watermark = _
              rw [hrows]
              simp [complete,hnew,hmark]
            · exact absurd (pushRows_of_raises hrow hraise) hquiet
        rw [hsent,List.append_nil]
        exact h.stay rfl hfeed
  · have hidle : runScheduled S s.table s.feed now env = (s.feed,[]) := by simp [runScheduled,hactive]
    simpa [step,sentBy,hidle] using h

theorem Settled.step {s : Source S} {log : List κ} (h : Settled s log) {e : Event} (hok : Orderly s e) :
    Settled (Feeds.step s e) (log ++ sentBy s e) := by
  cases e with
  | insert row => simpa [sentBy] using h.insert hok
  | delete key => simpa [sentBy] using h.delete key
  | run now env => exact h.run hok

/-- With an integer key named `id` the watermark always lands on the last row of the batch. -/
theorem kept_of_integerKey {s : Source S} (h : IntegerKey S s.table)
    (hints : ∀ row ∈ s.table.rows, ∃ n, s.table.keyOf row = .int n) : Kept s (batch s) := by
  intro row rest hrows
  rw [hrows]
  apply h.newWatermark
  intro r hr
  rw [← hrows] at hr
  exact hints r (Batch.mem_of_mem_after hr).1

/-- In every run of orderly events from a feed with no row at or below its watermark,
every row at or below the watermark was sent, and no row twice. -/
theorem delivered_exec (s : Source S) (events : List Event)
    (hstart : ∀ row ∈ s.table.rows, stored s < place S s.table row) (hrun : Meets Feeds.step Orderly s events) :
    Delivered (exec Feeds.step s events) (emitted Feeds.step sentBy s events) := by
  have hsettled : Settled s [] := by
    refine ⟨⟨?_,List.nodup_nil⟩,by simp⟩
    intro row hrow hle
    exact absurd (lt_of_lt_of_le (hstart row hrow) hle) (lt_irrefl _)
  have h := history_invariant (fun s log => Settled s log) (fun s log e hs hok => hs.step hok) hsettled hrun
  rw [List.nil_append] at h
  exact h.toDelivered

end

/-! ### Orders for a peer -/

def integers : Setup ℤ where
  py :=
    { strOther := fun _ => ""
      float := fun _ => none
      int := fun _ => none
      isAlnum := Char.isAlphanum
      loads := fun _ => .error (.valueError "Expecting value") }
  rank := fun v => match v with | .int n => n | _ => 0
  column := some

def tableOf (pk : String) (keys : List ℤ) : Physical where
  columns := [pk,"title"]
  pk := pk
  rows := keys.map fun n column => if column = pk then .int n else .text "order"
  key := id
  admits := fun _ => true

def hourly : Feed where
  id := 1
  targetTable := "orders"
  fieldMap := [⟨some "title",some "title"⟩]
  scheduleMinutes := some 60

/-- A peer that creates every record except those with the given keys. -/
def peerRefusing (refused : List ℤ) (key : Value) : PushEnv where
  conn := some ⟨true⟩
  request := fun _ =>
    match key with
    | .int n => if n ∈ refused then .ok (500,.null) else .ok (201,.obj [("id",.int n)])
    | _ => .ok (500,.null)

def orders : Source integers where
  feed := hourly
  table := tableOf "id" [1,2]
  placesNodup := by decide

def parcels : Source integers where
  feed := hourly
  table := tableOf "sku" [1,2]
  placesNodup := by decide

def nextDay (hour : ℤ) : ℤ := minutes (1440+60*hour)

/-- Two orders go out in the first run, a third one in the second. -/
def deliveredDay : List Event :=
  [.run (nextDay 0) (peerRefusing []),.insert fun column => if column = "id" then .int 3 else .text "order",
    .run (nextDay 1) (peerRefusing [])]

theorem integerKey_tableOf (keys : List ℤ) : IntegerKey integers (tableOf "id" keys) :=
  ⟨rfl,rfl,fun _ => rfl,fun _ => rfl,fun _ _ hle => hle⟩

theorem ints_tableOf (pk : String) (keys : List ℤ) :
    ∀ row ∈ (tableOf pk keys).rows, ∃ n, (tableOf pk keys).keyOf row = .int n := by
  intro row hrow
  rcases List.mem_map.mp hrow with ⟨n,_,rfl⟩
  exact ⟨n,by simp [tableOf,Physical.keyOf]⟩

theorem delivered_orders :
    Delivered (exec Feeds.step orders deliveredDay) (emitted Feeds.step sentBy orders deliveredDay) := by
  refine delivered_exec orders deliveredDay (by decide) ⟨?_,?_,?_,trivial⟩
  · intro _
    refine Or.inl ⟨?_,kept_of_integerKey (integerKey_tableOf [1,2]) (ints_tableOf "id" [1,2])⟩
    intro row hrow
    rcases List.mem_map.mp (Batch.mem_of_mem_after hrow).1 with ⟨n,_,rfl⟩
    rfl
  · intro _
    decide
  · intro _
    refine Or.inl ⟨?_,kept_of_integerKey (integerKey_tableOf [1,2,3]) (ints_tableOf "id" [1,2,3])⟩
    intro row hrow
    have hmem : row ∈ (tableOf "id" [1,2,3]).rows := (Batch.mem_of_mem_after hrow).1
    rcases List.mem_map.mp hmem with ⟨n,_,rfl⟩
    rfl

/-- A refused order is passed over for good, and a parcel goes out in every run. -/
theorem exec_not_delivered :
    ¬Delivered (exec Feeds.step orders [.run (nextDay 0) (peerRefusing [1])])
      (emitted Feeds.step sentBy orders [.run (nextDay 0) (peerRefusing [1])]) ∧
    ¬Delivered (exec Feeds.step parcels [.run (nextDay 0) (peerRefusing []),.run (nextDay 1) (peerRefusing [])])
      (emitted Feeds.step sentBy parcels [.run (nextDay 0) (peerRefusing []),.run (nextDay 1) (peerRefusing [])]) := by
  constructor
  · intro h
    have hlog : emitted Feeds.step sentBy orders [.run (nextDay 0) (peerRefusing [1])] = [2] := by decide
    have hfirst := h.below (fun column => if column = "id" then .int 1 else .text "order") List.mem_cons_self (by decide)
    rw [hlog] at hfirst
    exact absurd hfirst (by decide)
  · intro h
    exact absurd h.once (by decide)

end Feeds
end Biggy
