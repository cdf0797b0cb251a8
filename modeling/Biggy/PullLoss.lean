import Biggy.Pull

/-!
# What a pull leaves for the next run

The watermark moves past every stored record that is newer, whatever became of the records
before it, so a record that failed comes back only if its cursor is ahead of all of these.
-/
namespace Biggy
namespace Pull

section Watermark

variable (lib : PullLib) (ctype : CursorType)

/-- The cursor moves the watermark. -/
def newer (watermark : Option String) (cursor : Json) : Bool :=
  match cursor with
  | .null => false
  | c => match greater lib ctype c watermark with
    | .ok b => b
    | .error _ => false

/-- The watermark behind a stored record. -/
def next (watermark : Option String) (cursor : Json) : Option String :=
  if newer lib ctype watermark cursor then some (lib.strJson cursor) else watermark

/-- The watermarks passed so far, last one first; an empty text starts them over. -/
def pass (passed : List (Option String)) (cursor : Json) : List (Option String) :=
  match passed with
  | [] => []
  | watermark::earlier =>
    if newer lib ctype watermark cursor then
      if lib.strJson cursor = "" then [some ""] else some (lib.strJson cursor)::watermark::earlier
    else watermark::earlier

/-- The watermarks that the stored cursors lead through from the last blank one on. -/
def trail (watermark : Option String) (cursors : List Json) : List (Option String) :=
  cursors.foldl (pass lib ctype) [watermark]

variable {lib ctype}

theorem newer_eq_true {w : Option String} {c : Json} :
    newer lib ctype w c = true ↔ c ≠ .null ∧ greater lib ctype c w = .ok true := by
  cases c with
  | null => simp [newer]
  | _ =>
    simp only [newer,ne_eq,reduceCtorEq,not_false_eq_true,true_and]
    split
    · rename_i b hb
      simp [hb]
    · rename_i e he
      simp [he]

/-- `advance` moves the watermark to a newer cursor and leaves it otherwise. -/
theorem advance_eq (w : Option String) (c : Json) :
    (match advance lib ctype w c with | .ok w' => w' | .error _ => w) = next lib ctype w c := by
  by_cases hnull : c = .null
  · subst hnull
    rfl
  · have hadvance : advance lib ctype w c =
        (greater lib ctype c w).map fun newer => if newer then some (lib.strJson c) else w := by
      cases c <;> first | exact absurd rfl hnull | rfl
    rw [hadvance,next]
    cases hgreater : greater lib ctype c w with
    | error e =>
      have hold : ¬newer lib ctype w c = true := by simp [newer_eq_true,hgreater]
      simp [Except.map,hold]
    | ok b =>
      cases b with
      | true =>
        have hnew : newer lib ctype w c = true := newer_eq_true.mpr ⟨hnull,hgreater⟩
        simp [Except.map,hnew]
      | false =>
        have hold : ¬newer lib ctype w c = true := by simp [newer_eq_true,hgreater]
        simp [Except.map,hold]

variable (lib ctype) in
/-- The last watermark of the trail, with what a newer record finds behind it. -/
structure Behind (current : Option String) (passed : List (Option String)) : Prop where
  head : passed.head? = some current
  ahead : ∀ f, greater lib ctype f current = .ok true → ∀ w ∈ passed, greater lib ctype f w = .ok true

theorem Behind.pass {current : Option String} {passed : List (Option String)} {c : Json}
    (h : Behind lib ctype current passed) (hreads : ReadsBack lib c) :
    Behind lib ctype (next lib ctype current c) (Pull.pass lib ctype passed c) := by
  match passed, h with
  | [], h => cases h.head
  | w::earlier, h =>
    obtain rfl : w = current := Option.some.inj h.head
    by_cases hnew : newer lib ctype w c = true
    · obtain ⟨hnull,hgreater⟩ := newer_eq_true.mp hnew
      by_cases hblank : lib.strJson c = ""
      · simp only [next,Pull.pass,hnew,if_true,hblank]
        refine ⟨rfl,?_⟩
        intro f _ w' hw'
        rw [List.mem_singleton.mp hw']
        exact greater_empty f
      · simp only [next,Pull.pass,hnew,if_true,hblank,if_false]
        refine ⟨rfl,?_⟩
        intro f hf w' hw'
        rcases List.mem_cons.mp hw' with rfl | hw'
        · exact hf
        · exact h.ahead f (greater_trans hnull hreads hblank hgreater hf) w' hw'
    · simpa [next,Pull.pass,hnew] using h

theorem Behind.foldl {cursors : List Json} {current : Option String} {passed : List (Option String)}
    (h : Behind lib ctype current passed) (hreads : ∀ c ∈ cursors, ReadsBack lib c) :
    Behind lib ctype (cursors.foldl (next lib ctype) current)
      (cursors.foldl (Pull.pass lib ctype) passed) := by
  induction cursors generalizing current passed with
  | nil => exact h
  | cons c cursors ih =>
    exact ih (h.pass (hreads c List.mem_cons_self)) fun d hd => hreads d (List.mem_cons_of_mem c hd)

/-- Ahead of the last watermark is ahead of the whole trail. -/
theorem greater_trail_iff {w : Option String} {cursors : List Json} (hreads : ∀ c ∈ cursors, ReadsBack lib c)
    (f : Json) : greater lib ctype f (cursors.foldl (next lib ctype) w) = .ok true ↔
      ∀ m ∈ trail lib ctype w cursors, greater lib ctype f m = .ok true := by
  have hstart : Behind lib ctype w [w] :=
    ⟨rfl,fun f hf m hm => by rwa [List.mem_singleton.mp hm]⟩
  have h := hstart.foldl hreads
  exact ⟨fun hf => h.ahead f hf,fun hall => hall _ (List.mem_of_mem_head? h.head)⟩

variable (lib ctype) in
/-- A cursor that compares like its own text: no boolean, no empty text, no NaN and
nothing out of range. -/
def Ordinary (c : Json) : Prop :=
  lib.strJson c ≠ "" ∧ ∃ k, k ≠ .number .nan ∧ ckey lib ctype c = .ok k ∧
    ckey lib ctype (.str (lib.strJson c)) = .ok k

variable (lib ctype) in
/-- A stored watermark, blank or the text of an ordinary cursor. -/
def OrdinaryMark : Option String → Prop
  | none | some "" => True
  | some w => ∃ k, k ≠ .number .nan ∧ ckey lib ctype (.str w) = .ok k

/-- Past an ordinary cursor that is not newer than the watermark comes all that is newer
than the watermark. -/
theorem greater_of_not_newer {c f : Json} {w : Option String} (hc : c ≠ .null) (hord : Ordinary lib ctype c)
    (hw : OrdinaryMark lib ctype w) (hold : ¬newer lib ctype w c = true) (hf : greater lib ctype f w = .ok true) :
    greater lib ctype f (some (lib.strJson c)) = .ok true := by
  obtain ⟨hblank,kc,hnan,hkc,hktext⟩ := hord
  match w with
  | none => exact absurd (newer_eq_true.mpr ⟨hc,greater_none c⟩) hold
  | some u =>
    by_cases hu : u = ""
    · subst hu
      exact absurd (newer_eq_true.mpr ⟨hc,greater_empty c⟩) hold
    · obtain ⟨hnull,kf,ku,hkf,hku,huf⟩ := (greater_eq_true hu).mp hf
      refine (greater_eq_true hblank).mpr ⟨hnull,kf,kc,hkf,hktext,?_⟩
      apply Key.of_not_lt hnan _ huf
      intro huc
      exact hold (newer_eq_true.mpr ⟨hc,(greater_eq_true hu).mpr ⟨hc,kc,ku,hkc,hku,huc⟩⟩)

/-- Among ordinary cursors, ahead of the last watermark is ahead of the first and of all cursors. -/
theorem greater_foldl_iff {cursors : List Json} {w : Option String} (hw : OrdinaryMark lib ctype w)
    (hord : ∀ c ∈ cursors, c ≠ .null → ReadsBack lib c ∧ Ordinary lib ctype c) (f : Json) :
    greater lib ctype f (cursors.foldl (next lib ctype) w) = .ok true ↔
      greater lib ctype f w = .ok true ∧
        ∀ c ∈ cursors, c ≠ .null → greater lib ctype f (some (lib.strJson c)) = .ok true := by
  induction cursors generalizing w with
  | nil => simp
  | cons c cursors ih =>
    have hrest := fun d hd => hord d (List.mem_cons_of_mem c hd)
    rw [List.foldl_cons]
    by_cases hnull : c = .null
    · have hnext : next lib ctype w c = w := by simp [next,newer,hnull]
      rw [hnext,ih hw hrest]
      simp [hnull]
    · obtain ⟨hreads,hc⟩ := hord c List.mem_cons_self hnull
      by_cases hnew : newer lib ctype w c = true
      · have hnext : next lib ctype w c = some (lib.strJson c) := by simp [next,hnew]
        have hmark : OrdinaryMark lib ctype (some (lib.strJson c)) := by
          obtain ⟨hblank,k,hnan,-,hk⟩ := hc
          unfold OrdinaryMark
          split <;> first | trivial | skip
          rename_i u _ heq
          exact ⟨k,hnan,(Option.some.inj heq) ▸ hk⟩
        have hback := fun hf => greater_trans hnull hreads hc.1 (newer_eq_true.mp hnew).2 (f := f) hf
        rw [hnext,ih hmark hrest]
        simp only [List.mem_cons,forall_eq_or_imp]
        constructor
        · rintro ⟨hf,hall⟩
          exact ⟨hback hf,fun _ => hf,hall⟩
        · rintro ⟨-,hf,hall⟩
          exact ⟨hf hnull,hall⟩
      · have hnext : next lib ctype w c = w := by simp [next,hnew]
        have hpast := greater_of_not_newer hnull hc hw hnew (f := f)
        rw [hnext,ih hw hrest]
        simp only [List.mem_cons,forall_eq_or_imp]
        constructor
        · rintro ⟨hf,hall⟩
          exact ⟨hf,fun _ => hpast hf,hall⟩
        · rintro ⟨hf,-,hall⟩
          exact ⟨hf,hall⟩

end Watermark

section Batch

variable (lib : PullLib) (fields : List MetaField) (source : PullSource)

/-- The cursors of the records that are stored, in order. -/
def storedCursors (cursor : String) (batch : List Fetched) : List Json :=
  (batch.filter fun f => fate lib fields source f = .stored).map fun f => dig f.record cursor

/-- Every record that raised has a cursor ahead of the new watermark. -/
def NoLoss (batch : List Fetched) : Prop :=
  ∀ cursor, source.cursorField = some cursor → cursor ≠ "" →
    ∀ f ∈ batch, fate lib fields source f = .raised →
      greater lib source.cursorType (dig f.record cursor) (runOne lib fields source batch).1.watermark = .ok true

/-- Every record that raised is ahead of the old watermark and of each stored cursor that
was ahead of the ones before it. -/
def FailuresAhead (batch : List Fetched) : Prop :=
  ∀ cursor, source.cursorField = some cursor → cursor ≠ "" →
    ∀ f ∈ batch, fate lib fields source f = .raised →
      ∀ m ∈ trail lib source.cursorType source.watermark (storedCursors lib fields source cursor batch),
        greater lib source.cursorType (dig f.record cursor) m = .ok true

/-- Every record that raised is ahead of the old watermark and of every stored cursor. -/
def AheadOfStored (batch : List Fetched) : Prop :=
  ∀ cursor, source.cursorField = some cursor → cursor ≠ "" →
    ∀ f ∈ batch, fate lib fields source f = .raised →
      greater lib source.cursorType (dig f.record cursor) source.watermark = .ok true ∧
        ∀ c ∈ storedCursors lib fields source cursor batch, c ≠ .null →
          greater lib source.cursorType (dig f.record cursor) (some (lib.strJson c)) = .ok true

/-- The old watermark and the stored cursors are ordinary. -/
def OrdinaryBatch (batch : List Fetched) : Prop :=
  OrdinaryMark lib source.cursorType source.watermark ∧ ∀ cursor, source.cursorField = some cursor →
    ∀ c ∈ storedCursors lib fields source cursor batch, c ≠ .null → Ordinary lib source.cursorType c

variable {lib fields source}

theorem runOne_watermark {cursor : String} (hcursor : source.cursorField = some cursor) (hne : cursor ≠ "")
    (batch : List Fetched) : (runOne lib fields source batch).1.watermark =
      (storedCursors lib fields source cursor batch).foldl (next lib source.cursorType) source.watermark := by
  have hfilter : source.cursor = some cursor := by simp [PullSource.cursor,hcursor,hne]
  have key (w : Option String) : batch.foldl (afterRecord lib fields source) w =
      (storedCursors lib fields source cursor batch).foldl (next lib source.cursorType) w := by
    induction batch generalizing w with
    | nil => rfl
    | cons f batch ih =>
      rw [List.foldl_cons,ih]
      cases hfate : fate lib fields source f with
      | stored =>
        have hafter : afterRecord lib fields source w f = next lib source.cursorType w (dig f.record cursor) := by
          simp only [afterRecord,hfate,hfilter]
          exact advance_eq w _
        simp [storedCursors,hfate,hafter]
      | _ => simp [storedCursors,hfate,afterRecord]
  exact key source.watermark

theorem storedCursors_reads {cursor : String} {batch : List Fetched}
    (hreads : ∀ f ∈ batch, ReadsBack lib (dig f.record cursor)) :
    ∀ c ∈ storedCursors lib fields source cursor batch, ReadsBack lib c := by
  intro c hc
  rcases List.mem_map.mp hc with ⟨g,hg,rfl⟩
  exact hreads g (List.mem_filter.mp hg).1

/-- A pull loses no failed record exactly when these are ahead of all the watermarks that
the stored ones lead through; with ordinary cursors, when they are ahead of all of these. -/
theorem noLoss_iff (lib : PullLib) (fields : List MetaField) (source : PullSource) (batch : List Fetched)
    (hreads : ∀ cursor, source.cursorField = some cursor → ∀ f ∈ batch, ReadsBack lib (dig f.record cursor)) :
    (NoLoss lib fields source batch ↔ FailuresAhead lib fields source batch) ∧
      (OrdinaryBatch lib fields source batch →
        (NoLoss lib fields source batch ↔ AheadOfStored lib fields source batch)) := by
  have key : NoLoss lib fields source batch ↔ FailuresAhead lib fields source batch := by
    apply forall_congr'
    intro cursor
    refine forall_congr' fun hcursor => forall_congr' fun hne => forall_congr' fun f => forall_congr' fun _ =>
      forall_congr' fun _ => ?_
    rw [runOne_watermark hcursor hne]
    exact greater_trail_iff (storedCursors_reads (hreads cursor hcursor)) (dig f.record cursor)
  refine ⟨key,?_⟩
  rintro ⟨hmark,hord⟩
  apply forall_congr'
  intro cursor
  refine forall_congr' fun hcursor => forall_congr' fun hne => forall_congr' fun f => forall_congr' fun _ =>
    forall_congr' fun _ => ?_
  rw [runOne_watermark hcursor hne]
  exact greater_foldl_iff hmark
    (fun c hc hnull => ⟨storedCursors_reads (hreads cursor hcursor) c hc,hord cursor hcursor c hc hnull⟩)
    (dig f.record cursor)

end Batch

/-! ### Two tickets, one of which fails -/

/-- The library on the cursors of two tickets. -/
def ticketLib : PullLib where
  strOther := fun _ => ""
  float := fun v =>
    match v with
    | .int n => some (.finite n)
    | .text s => if s = "1" then some (.finite 1) else if s = "2" then some (.finite 2) else none
    | _ => none
  int := fun _ => none
  isAlnum := Char.isAlphanum
  loads := fun _ => .error (.valueError "Expecting value")
  isDigit := fun _ => false
  lowercase := lower
  decimal := fun _ => none
  isoDate := fun _ => none
  isoTime := fun _ => none
  isoDatetime := fun _ => none
  strptime := fun _ _ => none
  search := fun _ _ => .ok false
  dumps := fun _ => ""
  repr := fun _ => ""
  complaint := fun parser raw => "invalid literal for " ++ parser ++ "(): " ++ raw
  reprJson := fun _ => ""
  timestamp := fun _ => .ok none

def titleField : MetaField where
  id := 1
  physName := "title"
  label := "Title"
  dataType := .string

def ticketSource : PullSource where
  cursorField := some "id"
  watermark := none
  fieldMap := [⟨some "title",some "title"⟩]

/-- A fetched ticket whose write goes through or not. -/
def ticket (n : ℤ) (saved : Bool) : Fetched where
  record := .obj [("id",.int n),("title",.str "Printer")]
  save := fun _ => saved

theorem noLoss_tickets : NoLoss ticketLib [titleField] ticketSource [ticket 1 true,ticket 2 false] := by
  refine (noLoss_iff ticketLib [titleField] ticketSource _ ?_).1.mpr ?_
  · intro cursor hcursor f hf
    obtain rfl : "id" = cursor := Option.some.inj hcursor
    rcases List.mem_cons.mp hf with rfl | hf
    · intro x hx
      exact hx
    · obtain rfl := List.mem_singleton.mp hf
      intro x hx
      exact hx
  · intro cursor hcursor hne f hf hraised
    obtain rfl : "id" = cursor := Option.some.inj hcursor
    rcases List.mem_cons.mp hf with rfl | hf
    · cases hraised
    · obtain rfl := List.mem_singleton.mp hf
      have htrail : trail ticketLib .number none (storedCursors ticketLib [titleField] ticketSource "id"
          [ticket 1 true,ticket 2 false]) = [some "1",none] := rfl
      intro m hm
      change m ∈ trail ticketLib .number none _ at hm
      rw [htrail] at hm
      rcases List.mem_cons.mp hm with rfl | hm
      · rfl
      · rw [List.mem_singleton.mp hm]
        rfl

/-- The first ticket fails and falls behind the second one. -/
theorem runOne_not_noLoss : ¬NoLoss ticketLib [titleField] ticketSource [ticket 1 false,ticket 2 true] := by
  intro h
  have hfirst := h "id" rfl (by decide) (ticket 1 false) List.mem_cons_self rfl
  have hback : (.ok false : Except PyError Bool) = .ok true := hfirst
  cases hback

end Pull
end Biggy
