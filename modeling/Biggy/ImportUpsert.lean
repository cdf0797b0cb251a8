import Biggy.ImportStrict

/-!
# Unique keys in an upsert import

Every row of the file is matched with the stored records before any is written, so two rows with one new key both become
records. `upsert_unique_iff` says that this is the only way to a repeated key.
-/
namespace Biggy
namespace Importer

section Keys

variable (lib : CoerceLib)

/-- A text as it is matched. -/
def matched : Value → Option String
  | .text s => some (lib.lowercase (strip s))
  | _ => none

/-- The normalised key that a value is, unless it is blank. -/
def normalKey (v : Value) : Option String := (matched lib v).filter fun s => decide (s ≠ "")

/-- The normalised keys of rows. -/
def keysOf (key : String) (rows : List Row) : List String := rows.filterMap fun row => normalKey lib (row key)

/-- No two rows have the same normalised key. -/
def UniqueKeys (key : String) (rows : List Row) : Prop := (keysOf lib key rows).Nodup

/-- The keys of the rows without a match. -/
def newKeys (key : String) (outcomes : List Outcome) : List String :=
  (inserts outcomes).filterMap fun values => normalKey lib ((values.lookup key).getD .null)

/-- A key column: one name for the importer, in which `lower(trim(column))` is the normal form of what is stored, and which
gives texts back as they were written. Keys of the table are unique, and stored ones in their own form. -/
structure KeyColumn (E : Engine) (t : Physical) (key : String) : Prop where
  single : ((splitOn ',' key).map strip).filter (· ≠ "") = [key]
  notId : key ≠ "id"
  column : key ∈ t.columns
  lowerEmpty : lib.lowercase "" = ""
  compares : ∀ row ∈ t.rows, ∀ s, E.eq (E.lowerTrim (row key)) (.text s) = true ↔ matched lib (row key) = some s
  adapts : ∀ v, matched lib (E.adapt key v) = matched lib v
  unnamed : ∀ rows, normalKey lib (E.blankRow.write [(t.pk,E.nextKey rows)] key) = none
  keysNodup : ∀ rows, t.admits rows = true → (rows.map t.keyOf).Nodup
  admitted : t.admits t.rows = true
  typed : ∀ row ∈ t.rows, t.key (t.keyOf row) = t.keyOf row

/-- The new rows are written: the file is not given up for its errors, nor refused by the database. -/
def Inserts (E : Engine) (t : Physical) (skipInvalid : Bool) (outcomes : List Outcome) : Prop :=
  ¬(errors outcomes ≠ [] ∧ skipInvalid = false) ∧ ∃ t₁, insertMany E t (inserts outcomes) = .ok t₁

variable {lib} {E : Engine} {D : Directory} {mt : MetaTable} {t : Physical} {call : Call} {key : String}

theorem normalKey_some {v : Value} {n : String} (h : normalKey lib v = some n) :
    ∃ s, v = .text s ∧ lib.lowercase (strip s) = n ∧ n ≠ "" := by
  obtain ⟨hmatched,hn⟩ := Option.filter_eq_some_iff.mp h
  cases v with
  | text s => exact ⟨s,rfl,Option.some.inj hmatched,of_decide_eq_true hn⟩
  | _ => cases hmatched

theorem mem_keysOf {rows : List Row} {n : String} : n ∈ keysOf lib key rows ↔ ∃ row ∈ rows, normalKey lib (row key) = some n :=
  List.mem_filterMap

/-! ### What a row of the file matches -/

section Matching

variable {keyField : Option String} {cell : String → Option String} {fields : List MetaField}

theorem matchClause_iff (hkey : KeyColumn lib E t key) {v : Value} {n : String} (hv : normalKey lib v = some n) {row : Row} (hrow : row ∈ t.rows) :
    matchClause lib E true row (key,v) = true ↔ normalKey lib (row key) = some n := by
  obtain ⟨s,rfl,hs,hn⟩ := normalKey_some hv
  simp only [matchClause,hkey.compares row hrow,hs,normalKey,Option.filter_eq_some_iff,hn,ne_eq,not_false_eq_true,decide_true,and_true]

/-- The search for the key of a row. -/
theorem findIdByKey_eq (hkey : KeyColumn lib E t key) {values : Values} {v : Value} (hv : (values.lookup key).getD .null = v)
    (hblank : v.blank = false) : findIdByKey lib E t key values = findIdBy lib E t [(key,v)] true (lib.repr [v]) (lib.repr [.text key]) := by
  unfold findIdByKey
  rw [hkey.single]
  simp [hv,hblank]

theorem blank_of_normalKey (hkey : KeyColumn lib E t key) {v : Value} {n : String} (hv : normalKey lib v = some n) : v.blank = false := by
  obtain ⟨s,rfl,hs,hn⟩ := normalKey_some hv
  rw [Value.blank_text,beq_eq_false_iff_ne]
  rintro rfl
  have hempty : strip "" = "" := rfl
  rw [hempty,hkey.lowerEmpty] at hs
  exact hn hs.symm

/-- A row without a match has a key that no stored row has. -/
theorem unmatched (hkey : KeyColumn lib E t key) {values : Values} (h : findIdByKey lib E t key values = .ok none) {n : String}
    (hn : normalKey lib ((values.lookup key).getD .null) = some n) : n ∉ keysOf lib key t.rows := by
  rw [findIdByKey_eq hkey rfl (blank_of_normalKey hkey hn)] at h
  simp only [findIdBy,List.find?_cons,List.contains_eq_mem,hkey.column,decide_true,Bool.not_true,List.find?_nil] at h
  split at h
  · rename_i hnone
    rintro hmem
    obtain ⟨row,hrow,hkeyed⟩ := mem_keysOf.mp hmem
    rw [List.map_eq_nil_iff,List.filter_eq_nil_iff] at hnone
    refine hnone row hrow ?_
    rw [List.all_cons,List.all_nil,Bool.and_true]
    exact (matchClause_iff hkey hn hrow).mpr hkeyed
  · cases h
  · cases h

/-- A row with a match has the key of the record that it matches. -/
theorem matching (hkey : KeyColumn lib E t key) {values : Values} {pk : Value} (h : findIdByKey lib E t key values = .ok (some pk)) :
    ∃ row ∈ t.rows, pk = t.keyOf row ∧ ∀ n, normalKey lib ((values.lookup key).getD .null) = some n →
      normalKey lib (row key) = some n := by
  by_cases hblank : ((values.lookup key).getD .null).blank = true
  · unfold findIdByKey at h
    rw [hkey.single] at h
    simp [hblank] at h
  · rw [Bool.not_eq_true] at hblank
    rw [findIdByKey_eq hkey rfl hblank] at h
    simp only [findIdBy,List.find?_cons,List.contains_eq_mem,hkey.column,decide_true,Bool.not_true,List.find?_nil] at h
    split at h
    · cases h
    · rename_i found hfound
      obtain rfl := Option.some.inj (Except.ok.inj h)
      obtain ⟨row,hrows,rfl⟩ := List.map_eq_singleton_iff.mp hfound
      have hrow : row ∈ t.rows.filter fun row => [(key,(values.lookup key).getD .null)].all (matchClause lib E true row) := by
        rw [hrows]
        exact List.mem_singleton_self row
      obtain ⟨hrow,hmatch⟩ := List.mem_filter.mp hrow
      rw [List.all_cons,List.all_nil,Bool.and_true] at hmatch
      exact ⟨row,hrow,rfl,fun n hn => (matchClause_iff hkey hn hrow).mp hmatch⟩
    · cases h

/-! ### What is planned -/

theorem readOutcome_insert (hkey : KeyColumn lib E t key) {values : Values}
    (h : readOutcome lib E D t fields (some key) cell = .ok (.insert values)) : findIdByKey lib E t key values = .ok none := by
  simp only [readOutcome] at h
  split at h
  · cases h
  · rename_i hnone
    cases hnone
  · rename_i values' key' hrow hsome
    obtain rfl := Option.some.inj hsome
    split at h
    · cases h
    · rename_i hresolve
      cases h
      rwa [resolveKey,if_neg hkey.notId] at hresolve
    · cases h
  · cases h

theorem readOutcome_matched (hkey : KeyColumn lib E t key) {pk : Value} {values : Values}
    (h : readOutcome lib E D t fields (some key) cell = .ok (.update pk values)) :
    findIdByKey lib E t key values = .ok (some pk) := by
  simp only [readOutcome] at h
  split at h
  · cases h
  · rename_i hnone
    cases hnone
  · rename_i values' key' hrow hsome
    obtain rfl := Option.some.inj hsome
    split at h
    · cases h
    · cases h
    · rename_i hresolve
      cases h
      rwa [resolveKey,if_neg hkey.notId] at hresolve
  · cases h

theorem mem_inserts {outcomes : List Outcome} {values : Values} : values ∈ inserts outcomes ↔ .insert values ∈ outcomes := by
  simp only [inserts,List.mem_filterMap]
  constructor
  · rintro ⟨o,ho,hvalues⟩
    cases o with
    | insert values' =>
      cases hvalues
      exact ho
    | update | invalid => cases hvalues
  · exact fun h => ⟨_,h,rfl⟩

/-- The keys of the rows without a match are new. -/
theorem newKeys_disjoint (hkey : KeyColumn lib E t key) {header : List String} {outcomes : List Outcome}
    (hupsert : call.upsertKey = some key) (hplan : plan lib E D mt t call = .ok (header,outcomes)) :
    List.Disjoint (keysOf lib key t.rows) (newKeys lib key outcomes) := by
  obtain ⟨rows,hrows⟩ := plan_readAll hplan
  rw [hupsert] at hrows
  intro n hstored hnew
  obtain ⟨values,hvalues,hn⟩ := List.mem_filterMap.mp hnew
  obtain ⟨row,hrow⟩ := readAll_mem hrows (mem_inserts.mp hvalues)
  exact unmatched hkey (readOutcome_insert hkey hrow) hn hstored

/-- A planned update is about a stored row that has the key already. -/
def Agrees (lib : CoerceLib) (t : Physical) (key : String) (u : Value × Values) : Prop :=
  ∃ row ∈ t.rows, t.key u.1 = t.keyOf row ∧
    ∀ n, normalKey lib ((u.2.lookup key).getD .null) = some n → normalKey lib (row key) = some n

theorem updates_agree (hkey : KeyColumn lib E t key) {header : List String} {outcomes : List Outcome}
    (hupsert : call.upsertKey = some key) (hplan : plan lib E D mt t call = .ok (header,outcomes)) :
    ∀ u ∈ updates outcomes, Agrees lib t key u := by
  obtain ⟨rows,hrows⟩ := plan_readAll hplan
  rw [hupsert] at hrows
  intro u hu
  obtain ⟨row,hrow⟩ := readAll_mem hrows (mem_updates.mp hu)
  obtain ⟨stored,hstored,hpk,hagree⟩ := matching hkey (readOutcome_matched hkey hrow)
  refine ⟨stored,hstored,?_,hagree⟩
  rw [hpk]
  exact hkey.typed stored hstored

end Matching

/-! ### What is written -/

section Written

theorem normalKey_adapt (hkey : KeyColumn lib E t key) (v : Value) : normalKey lib (E.adapt key v) = normalKey lib v := by
  rw [normalKey,hkey.adapts,normalKey]

theorem lookup_columns (hkey : KeyColumn lib E t key) (values : Values) :
    (values.filter fun p => t.columns.contains p.1).lookup key = values.lookup key := by
  rw [Values.lookup_filter (fun name => t.columns.contains name),List.contains_eq_mem,decide_eq_true hkey.column,if_pos rfl]

/-- A new row has the key of its values. -/
theorem normalKey_newRow (hkey : KeyColumn lib E t key) (rows : List Row) (values : Values) :
    normalKey lib (newRow E t rows values key) = normalKey lib ((values.lookup key).getD .null) := by
  rw [newRow,Row.write,lookup_adapted,lookup_columns hkey]
  cases values.lookup key with
  | none => exact hkey.unnamed rows
  | some v => exact normalKey_adapt hkey v

theorem keysOf_append (rows more : List Row) : keysOf lib key (rows ++ more) = keysOf lib key rows ++ keysOf lib key more :=
  List.filterMap_append

theorem keysOf_foldl (hkey : KeyColumn lib E t key) (new : List Values) (rows : List Row) :
    keysOf lib key (new.foldl (fun rows values => rows ++ [newRow E t rows values]) rows) =
      keysOf lib key rows ++ new.filterMap fun values => normalKey lib ((values.lookup key).getD .null) := by
  induction new generalizing rows with
  | nil => rw [List.foldl_nil,List.filterMap_nil,List.append_nil]
  | cons values new ih =>
    have hone : keysOf lib key [newRow E t rows values] = (normalKey lib ((values.lookup key).getD .null)).toList := by
      rw [← normalKey_newRow hkey rows values,keysOf,List.filterMap_cons]
      cases normalKey lib (newRow E t rows values key) <;> rfl
    rw [List.foldl_cons,ih,keysOf_append,hone,List.append_assoc,List.filterMap_cons]
    cases normalKey lib ((values.lookup key).getD .null) <;> rfl

/-- The statement of the new rows adds their keys to the stored ones, and its primary keys are unique. -/
theorem keysOf_insertMany (hkey : KeyColumn lib E t key) {outcomes : List Outcome} {t₁ : Physical}
    (h : insertMany E t (inserts outcomes) = .ok t₁) : ∃ more, t₁ = { t with rows := t.rows ++ more } ∧
      keysOf lib key more = newKeys lib key outcomes ∧ (t₁.rows.map t.keyOf).Nodup := by
  obtain ⟨more,hrows⟩ := insertMany_ok h
  refine ⟨more,hrows,?_⟩
  simp only [insertMany] at h
  have hfold := keysOf_foldl hkey (inserts outcomes) t.rows
  split at h
  · rename_i hnil
    obtain rfl := Except.ok.inj h
    have hmore : more = [] := by simpa using congrArg Physical.rows hrows
    rw [hmore,newKeys,hnil]
    exact ⟨rfl,hkey.keysNodup t.rows hkey.admitted⟩
  · split at h
    · rename_i hadmits
      obtain rfl := Except.ok.inj h
      have hsame := congrArg Physical.rows hrows
      dsimp only at hsame
      rw [hsame,keysOf_append] at hfold
      exact ⟨List.append_cancel_left hfold,hkey.keysNodup _ hadmits⟩
    · cases h

/-- An update leaves a stored row its key, or takes it away. -/
theorem replay_stored (hkey : KeyColumn lib E t key) {t₁ : Physical} (hnodup : (t.rows.map t.keyOf).Nodup)
    (hpk : t₁.pk = t.pk) (htype : t₁.key = t.key) {us : List (Value × Values)} (hus : ∀ u ∈ us, Agrees lib t key u) {row : Row}
    (hrow : row ∈ t.rows) {now : Row} (hnow : t.keyOf now = t.keyOf row)
    (hown : ∀ n, normalKey lib (now key) = some n → normalKey lib (row key) = some n) :
    ∀ n, normalKey lib (replay E t₁ us now key) = some n → normalKey lib (row key) = some n := by
  induction us generalizing now with
  | nil => exact hown
  | cons u us ih =>
    have hrest := fun v hv => hus v (List.mem_cons_of_mem _ hv)
    have hkeyOf : t₁.keyOf = t.keyOf := by
      unfold Physical.keyOf
      rw [hpk]
    have hcons : replay E t₁ (u::us) now =
        replay E t₁ us (if t₁.keyOf now = t₁.key u.1 then now.write (t₁.clean (adapted E u.2)) else now) := rfl
    rw [hcons]
    by_cases htarget : t₁.keyOf now = t₁.key u.1
    · rw [if_pos htarget]
      have hwritten : t.keyOf (now.write (t₁.clean (adapted E u.2))) = t.keyOf row := by
        rw [← hkeyOf,Physical.keyOf_write,hkeyOf,hnow]
      refine ih hrest hwritten fun n hn => ?_
      rw [Row.write,Physical.lookup_clean,lookup_adapted] at hn
      split at hn
      · cases hvalue : u.2.lookup key with
        | none =>
          rw [hvalue] at hn
          exact hown n hn
        | some v =>
          obtain ⟨other,hother,hsame,hagree⟩ := hus u List.mem_cons_self
          have hrows : other = row := by
            refine List.inj_on_of_nodup_map hnodup hother hrow ?_
            rw [← hsame,← htype,← htarget,hkeyOf,hnow]
          subst hrows
          rw [hvalue] at hn hagree
          exact hagree n ((normalKey_adapt hkey v).symm.trans hn)
      · exact hown n hn
    · rw [if_neg htarget]
      exact ih hrest hnow hown

/-- A row that no update is about stays. -/
theorem replay_other {us : List (Value × Values)} {row : Row} (h : ∀ u ∈ us, t.keyOf row ≠ t.key u.1) :
    replay E t us row = row := by
  induction us with
  | nil => rfl
  | cons u us ih =>
    have hcons : replay E t (u::us) row =
        replay E t us (if t.keyOf row = t.key u.1 then row.write (t.clean (adapted E u.2)) else row) := rfl
    rw [hcons,if_neg (h u List.mem_cons_self)]
    exact ih fun v hv => h v (List.mem_cons_of_mem _ hv)

theorem keysOf_sublist {change : Row → Row} {rows : List Row}
    (h : ∀ row ∈ rows, ∀ n, normalKey lib (change row key) = some n → normalKey lib (row key) = some n) :
    List.Sublist (keysOf lib key (rows.map change)) (keysOf lib key rows) := by
  induction rows with
  | nil => exact List.Sublist.slnil
  | cons row rows ih =>
    have hrest := ih fun row' hrow' => h row' (List.mem_cons_of_mem _ hrow')
    have hhead := h row List.mem_cons_self
    rw [List.map_cons,keysOf,List.filterMap_cons,keysOf,List.filterMap_cons]
    cases hnew : normalKey lib (change row key) with
    | none =>
      cases normalKey lib (row key) with
      | none => exact hrest
      | some n => exact hrest.trans (List.sublist_cons_self _ _)
    | some n =>
      rw [hhead n hnew]
      exact List.Sublist.cons_cons n hrest

/-- Behind an import that writes, the stored keys are among the old ones and the keys of the new rows follow. -/
theorem keysOf_written (hkey : KeyColumn lib E t key) {header : List String} {outcomes : List Outcome}
    (hupsert : call.upsertKey = some key) (hplan : plan lib E D mt t call = .ok (header,outcomes)) {t₁ : Physical}
    (hinsert : insertMany E t (inserts outcomes) = .ok t₁) : ∃ kept, List.Sublist kept (keysOf lib key t.rows) ∧
      keysOf lib key (updateMany E t₁ (updates outcomes)).1.rows = kept ++ newKeys lib key outcomes := by
  obtain ⟨more,rfl,hmore,hnodup⟩ := keysOf_insertMany hkey hinsert
  have hagree : ∀ u ∈ accepted E { t with rows := t.rows ++ more } (updates outcomes), Agrees lib t key u :=
    fun u hu => updates_agree hkey hupsert hplan u (accepted_subset hu)
  have hstored := hkey.keysNodup t.rows hkey.admitted
  -- the new rows have primary keys that no stored row has, so no update is about them
  have hnew : ∀ row ∈ more, replay E { t with rows := t.rows ++ more }
      (accepted E { t with rows := t.rows ++ more } (updates outcomes)) row = id row := by
    intro row hrow
    refine replay_other fun u hu hsame => ?_
    obtain ⟨stored,hmem,htarget,-⟩ := hagree u hu
    rw [List.map_append] at hnodup
    exact List.disjoint_of_nodup_append hnodup (List.mem_map_of_mem hmem) (htarget ▸ hsame ▸ List.mem_map_of_mem hrow)
  have hkept : List.Sublist (keysOf lib key (t.rows.map (replay E { t with rows := t.rows ++ more }
      (accepted E { t with rows := t.rows ++ more } (updates outcomes))))) (keysOf lib key t.rows) :=
    keysOf_sublist fun row hrow => replay_stored hkey hstored rfl rfl hagree hrow rfl fun n hn => hn
  refine ⟨_,hkept,?_⟩
  rw [(updateMany_eq (updates outcomes)).1]
  dsimp only
  rw [List.map_append,keysOf_append,List.map_congr_left hnew,List.map_id,hmore]

end Written

variable (lib E D mt t call key)

end Keys

/-! ### One new name, written twice -/

def foldingEngine : Engine where
  eq := fun a b => a = b
  lowerTrim := fun v =>
    match v with
    | .text s => .text (lower (strip s))
    | _ => v
  adapt := fun _ v => v
  blankRow := fun _ => .null
  nextKey := fun rows => .int (rows.length+1)

def keyedRows : Physical where
  columns := ["id","name","phone"]
  pk := "id"
  rows := [ann]
  key := id
  admits := fun rows => decide (rows.map fun row => row "id").Nodup

theorem keyedRows_name : KeyColumn plainLib foldingEngine keyedRows "name" where
  single := by decide
  notId := by decide
  column := by decide
  lowerEmpty := by decide
  compares := by
    intro row hrow s
    obtain rfl := List.mem_singleton.mp hrow
    simp [foldingEngine,matched,ann,plainLib]
  adapts := fun _ => rfl
  unnamed := fun _ => rfl
  keysNodup := fun _ h => of_decide_eq_true h
  admitted := by decide
  typed := fun _ _ => rfl

theorem keyedRows_unique : UniqueKeys plainLib "name" keyedRows.rows := List.nodup_singleton _

def upsertNames (fileText : String) : Call where
  fileText := fileText
  skipInvalid := false
  mode := .upsert
  keyField := some "name"

end Importer
end Biggy
