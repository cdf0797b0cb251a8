import Biggy.Importer

/-!
# What an upsert import leaves alone

A row that matches a stored record should change the columns of the header and no other.
A field whose column is not in the file has an empty cell in every row, and `import_rows`
writes the value of an empty cell like any other. `frame_iff` says when that is harmless.
-/
namespace Biggy
namespace Importer

section Frame

variable (lib : CoerceLib) (E : Engine) (D : Directory) (mt : MetaTable) (t : Physical) (call : Call)

/-- The updates that the database accepts, up to the first that it refuses. -/
def accepted (t : Physical) : List (Value × Values) → List (Value × Values)
  | [] => []
  | u::us =>
    match updateOne E t u.1 u.2 with
    | .error _ => []
    | .ok t' => u::accepted t' us

/-- The matched rows that are written: not when the file is given up for its errors or the
new rows are refused. -/
def written (skipInvalid : Bool) (outcomes : List Outcome) : List (Value × Values) :=
  if errors outcomes ≠ [] ∧ skipInvalid = false then []
  else
    match insertMany E t (inserts outcomes) with
    | .error _ => []
    | .ok t' => accepted E t' (updates outcomes)

/-- The value of an empty cell: blank, or the default of a required field. -/
def emptyCell (f : MetaField) : Value :=
  if f.nullable then .null
  else
    match defaultFor lib D f with
    | .ok v => v
    | .error _ => .null

/-- Every column outside the header keeps its value in every record that a row matched. -/
def FrameKept : Prop :=
  ∀ header outcomes t' result, plan lib E D mt t call = .ok (header,outcomes) →
    importRows lib E D mt t call = .ok (t',result) → ∀ pk values, .update pk values ∈ outcomes →
      ∀ row, t.rowAt (t.key pk) = some row → ∀ column ∉ header,
        ∃ row', t'.rowAt (t.key pk) = some row' ∧ row' column = row column

/-- Every record that is written already holds the value of an empty cell in each importable
column that the file does not have. -/
def BlankAlready : Prop :=
  ∀ header outcomes, plan lib E D mt t call = .ok (header,outcomes) →
    ∀ u ∈ written E t call.skipInvalid outcomes, ∀ row, t.rowAt (t.key u.1) = some row →
      ∀ f ∈ importableFields mt call.allowed, f.physName ∉ header → f.physName ∈ t.columns →
        f.physName ≠ t.pk → E.adapt f.physName (emptyCell lib D f) = row f.physName

/-- What a row writes to a column that the file does not have. -/
def filling (fields : List MetaField) (column : String) : Option Value :=
  if t.columns.contains column && column != t.pk then
    (Keyed.find MetaField.physName column fields).map fun f => E.adapt column (emptyCell lib D f)
  else none

end Frame

section Reading

variable {lib : CoerceLib} {E : Engine} {D : Directory} {mt : MetaTable} {t : Physical} {call : Call}

theorem fieldValue_empty {f : MetaField} {v : Value} (h : fieldValue lib D f none = .ok (.ok v)) :
    v = emptyCell lib D f := by
  simp only [fieldValue,coerceValue_none,true_and] at h
  cases hnull : f.nullable with
  | true =>
    simp only [hnull,Bool.true_eq_false,if_false,Except.ok.injEq] at h
    simp [emptyCell,hnull,← h]
  | false =>
    simp only [hnull,if_true] at h
    cases hdefault : defaultFor lib D f with
    | error e => simp [hdefault] at h
    | ok w =>
      simp only [hdefault,Except.ok.injEq] at h
      split at h
      · cases h
      · simp [emptyCell,hnull,hdefault,← Except.ok.inj h]

/-- A row without errors has a value for every field. -/
theorem readRow_cons {cell : String → Option String} {f : MetaField} {fs : List MetaField} {values : Values}
    (h : readRow lib D cell (f::fs) = .ok (values,[])) :
    ∃ v rest, fieldValue lib D f (cell f.physName) = .ok (.ok v) ∧ readRow lib D cell fs = .ok (rest,[]) ∧
      values = (f.physName,v)::rest := by
  simp only [readRow] at h
  split at h
  · cases h
  · cases h
  · rename_i v rest messages hv hrest
    cases h
    exact ⟨v,rest,hv,hrest,rfl⟩
  · cases h

/-- A column outside the header is bound to the value of an empty cell, if a field has it. -/
theorem readRow_absent {cell : String → Option String} {column : String} (hcell : cell column = none)
    {fields : List MetaField} {values : Values} (h : readRow lib D cell fields = .ok (values,[])) :
    values.lookup column = (Keyed.find MetaField.physName column fields).map (emptyCell lib D) := by
  induction fields generalizing values with
  | nil =>
    cases h
    rfl
  | cons f fs ih =>
    obtain ⟨v,rest,hv,hrest,rfl⟩ := readRow_cons h
    rw [List.lookup_cons,Keyed.find_cons]
    by_cases hname : f.physName = column
    · subst hname
      rw [hcell] at hv
      simp [fieldValue_empty hv]
    · have hb : (column == f.physName) = false := by simpa using Ne.symm hname
      rw [hb,if_neg hname]
      exact ih hrest

theorem readOutcome_update {fields : List MetaField} {keyField : Option String} {cell : String → Option String}
    {pk : Value} {values : Values}
    (h : readOutcome lib E D t fields keyField cell = .ok (.update pk values)) :
    readRow lib D cell fields = .ok (values,[]) := by
  simp only [readOutcome] at h
  split at h
  · cases h
  · cases h
  · rename_i values' key hrow
    split at h
    · cases h
    · cases h
    · cases h
      exact hrow
  · cases h

theorem readAll_mem {fields : List MetaField} {keyField : Option String} {header : List String}
    {rows : List (List String)} {outcomes : List Outcome}
    (h : readAll lib E D t fields keyField header rows = .ok outcomes) {o : Outcome} (ho : o ∈ outcomes) :
    ∃ row, readOutcome lib E D t fields keyField (Csv.cell header row) = .ok o := by
  induction rows generalizing outcomes with
  | nil =>
    cases h
    cases ho
  | cons row rows ih =>
    simp only [readAll] at h
    split at h
    · cases h
    · rename_i o' ho'
      cases hrest : readAll lib E D t fields keyField header rows with
      | error e => simp [hrest,Except.map] at h
      | ok rest =>
        simp only [hrest,Except.map,Except.ok.injEq] at h
        subst h
        rcases List.mem_cons.mp ho with rfl | ho
        · exact ⟨row,ho'⟩
        · exact ih hrest ho

theorem plan_readAll {header : List String} {outcomes : List Outcome}
    (h : plan lib E D mt t call = .ok (header,outcomes)) : ∃ rows,
    readAll lib E D t (importableFields mt call.allowed) call.upsertKey header rows = .ok outcomes := by
  simp only [plan] at h
  split at h
  · cases h
  · split at h
    · cases h
    · cases h
      exact ⟨[],rfl⟩
  · split at h
    · cases h
    · split at h
      · cases h
      · cases h
      · rename_i hread _
        cases h
        exact ⟨_,hread⟩

theorem mem_updates {outcomes : List Outcome} {u : Value × Values} :
    u ∈ updates outcomes ↔ .update u.1 u.2 ∈ outcomes := by
  simp only [updates,List.mem_filterMap]
  constructor
  · rintro ⟨o,ho,hu⟩
    cases o with
    | update pk values =>
      cases hu
      exact ho
    | insert | invalid => cases hu
  · exact fun h => ⟨_,h,rfl⟩

theorem lookup_adapted (E : Engine) (values : Values) (column : String) :
    (adapted E values).lookup column = (values.lookup column).map (E.adapt column) := by
  induction values with
  | nil => rfl
  | cons p values ih =>
    have hcons : adapted E (p::values) = (p.1,E.adapt p.1 p.2)::adapted E values := rfl
    rw [hcons,List.lookup_cons,List.lookup_cons,ih]
    by_cases hname : column = p.1
    · simp [hname]
    · have hb : (column == p.1) = false := by simpa using hname
      simp [hb]

/-- Every update of a plan fills the columns outside the header in the same way. -/
theorem plan_filling {header : List String} {outcomes : List Outcome}
    (h : plan lib E D mt t call = .ok (header,outcomes)) {u : Value × Values} (hu : u ∈ updates outcomes)
    {column : String} (hcolumn : column ∉ header) : (t.clean (adapted E u.2)).lookup column =
      filling lib E D t (importableFields mt call.allowed) column := by
  obtain ⟨rows,hrows⟩ := plan_readAll h
  obtain ⟨row,hrow⟩ := readAll_mem hrows (mem_updates.mp hu)
  have habsent := readRow_absent (Csv.cell_absent hcolumn row) (readOutcome_update hrow)
  simp only [Physical.lookup_clean,lookup_adapted,habsent,filling,Option.map_map]
  rfl

end Reading
/-! ### Writing -/

section Writing

variable {E : Engine} {t t' : Physical}

theorem foldl_newRow (new : List Values) (rows : List Row) :
    ∃ more, new.foldl (fun rows values => rows ++ [newRow E t rows values]) rows = rows ++ more := by
  induction new generalizing rows with
  | nil => exact ⟨[],by simp⟩
  | cons values new ih =>
    obtain ⟨more,hmore⟩ := ih (rows ++ [newRow E t rows values])
    exact ⟨newRow E t rows values :: more,by simpa using hmore⟩

/-- New rows stand behind the stored ones. -/
theorem insertMany_ok {new : List Values} (h : insertMany E t new = .ok t') :
    ∃ more, t' = { t with rows := t.rows ++ more } := by
  simp only [insertMany] at h
  split at h
  · cases h
    exact ⟨[],by simp⟩
  · split at h
    · obtain ⟨more,hmore⟩ := foldl_newRow (E:=E) (t:=t) new t.rows
      exact ⟨more,by rw [← Except.ok.inj h,hmore]⟩
    · cases h

theorem insertMany_rowAt {new : List Values} (h : insertMany E t new = .ok t') {k : Value} {row : Row}
    (hrow : t.rowAt k = some row) : t'.rowAt k = some row := by
  obtain ⟨more,rfl⟩ := insertMany_ok h
  have hfind : Keyed.find t.keyOf k (t.rows ++ more) = some row := by
    simp only [Physical.rowAt,Keyed.find] at hrow
    simp [Keyed.find,List.find?_append,hrow]
  exact hfind

theorem updateOne_ok {pk : Value} {values : Values} (h : updateOne E t pk values = .ok t') :
    t.updateRow pk (adapted E values) = .ok t' := by
  simp only [updateOne] at h
  split at h
  · cases h
  · exact h

theorem accepted_subset {us : List (Value × Values)} {u : Value × Values} (h : u ∈ accepted E t us) :
    u ∈ us := by
  induction us generalizing t with
  | nil => cases h
  | cons v us ih =>
    simp only [accepted] at h
    split at h
    · cases h
    · rcases List.mem_cons.mp h with rfl | h
      · exact List.mem_cons_self
      · exact List.mem_cons_of_mem v (ih h)

/-- A record behind the updates of some of its columns: one that an update is about holds
what the updates bind, any other one is as it was. -/
def Filled (t : Physical) (us : List (Value × Values)) (k : Value) (fill : Option Value) (old new : Value) : Prop :=
  (∃ u ∈ us, t.key u.1 = k) ∧ new = fill.getD old ∨ (∀ u ∈ us, t.key u.1 ≠ k) ∧ new = old

theorem filled_nil (t : Physical) (k : Value) (fill : Option Value) (old : Value) : Filled t [] k fill old old :=
  Or.inr ⟨fun _ hu => by (cases hu),rfl⟩

/-- An update of the record itself, ahead of the others, fills it with the same value. -/
theorem filled_own {us : List (Value × Values)} {u : Value × Values} {k : Value} (hk : t.key u.1 = k)
    {fill : Option Value} {old new : Value} (h : Filled t us k fill (fill.getD old) new) :
    Filled t (u::us) k fill old new := by
  have hagain : fill.getD (fill.getD old) = fill.getD old := by cases fill <;> rfl
  refine Or.inl ⟨⟨u,List.mem_cons_self,hk⟩,?_⟩
  rcases h with ⟨-,hvalue⟩ | ⟨-,hvalue⟩
  · exact hvalue.trans hagain
  · exact hvalue

/-- An update of another record changes nothing. -/
theorem filled_other {us : List (Value × Values)} {u : Value × Values} {k : Value} (hk : t.key u.1 ≠ k)
    {fill : Option Value} {old new : Value} (h : Filled t us k fill old new) :
    Filled t (u::us) k fill old new := by
  rcases h with ⟨⟨v,hv,hvk⟩,hvalue⟩ | ⟨hno,hvalue⟩
  · exact Or.inl ⟨⟨v,List.mem_cons_of_mem u hv,hvk⟩,hvalue⟩
  · refine Or.inr ⟨fun v hv => ?_,hvalue⟩
    rcases List.mem_cons.mp hv with rfl | hv
    · exact hk
    · exact hno v hv

/-- When all updates bind a column alike, each record is filled with what they bind. -/
theorem updateMany_rowAt {column : String} {fill : Option Value} {us : List (Value × Values)}
    (hfill : ∀ u ∈ us, (t.clean (adapted E u.2)).lookup column = fill) {k : Value} {row : Row}
    (hrow : t.rowAt k = some row) : ∃ row', (updateMany E t us).1.rowAt k = some row' ∧
      Filled t (accepted E t us) k fill (row column) (row' column) := by
  induction us generalizing t row with
  | nil => exact ⟨row,hrow,filled_nil t k fill _⟩
  | cons u us ih =>
    cases hone : updateOne E t u.1 u.2 with
    | error e =>
      refine ⟨row,by simpa [updateMany,hone] using hrow,?_⟩
      simpa [accepted,hone] using filled_nil t k fill (row column)
    | ok t₁ =>
      have hmany : (updateMany E t (u::us)).1 = (updateMany E t₁ us).1 := by simp [updateMany,hone]
      have haccepted : accepted E t (u::us) = u::accepted E t₁ us := by simp [accepted,hone]
      have hrow₁ := Physical.rowAt_updateRow (updateOne_ok hone) k
      -- an accepted statement changes the rows only, so the rest binds the column as before
      obtain rfl := Physical.updateRow_ok (updateOne_ok hone)
      have hrest : ∀ v ∈ us, (({ t with rows := t.writeRow u.1 (adapted E u.2) } : Physical).clean
          (adapted E v.2)).lookup column = fill := fun v hv => hfill v (List.mem_cons_of_mem u hv)
      rw [hmany,haccepted]
      by_cases hk : k = t.key u.1
      · rw [if_pos hk,hrow,Option.map_some] at hrow₁
        obtain ⟨row',hrow',hfilled⟩ := ih hrest hrow₁
        have hwrite : (row.write (t.clean (adapted E u.2))) column = fill.getD (row column) := by
          rw [Row.write,hfill u List.mem_cons_self]
        rw [hwrite] at hfilled
        exact ⟨row',hrow',filled_own hk.symm hfilled⟩
      · rw [if_neg hk,hrow] at hrow₁
        obtain ⟨row',hrow',hfilled⟩ := ih hrest hrow₁
        exact ⟨row',hrow',filled_other (Ne.symm hk) hfilled⟩

/-- What the whole import does to a column that every matched row binds alike. -/
theorem load_rowAt (skipInvalid : Bool) {outcomes : List Outcome} (ignored : List String) {column : String}
    {fill : Option Value} (hfill : ∀ u ∈ updates outcomes, (t.clean (adapted E u.2)).lookup column = fill)
    {k : Value} {row : Row} (hrow : t.rowAt k = some row) :
    ∃ row', (load E t skipInvalid outcomes ignored).1.rowAt k = some row' ∧
      Filled t (written E t skipInvalid outcomes) k fill (row column) (row' column) := by
  by_cases hgiven : errors outcomes ≠ [] ∧ skipInvalid = false
  · refine ⟨row,by simpa only [load,if_pos hgiven] using hrow,?_⟩
    simpa only [written,if_pos hgiven] using filled_nil t k fill (row column)
  · cases hinsert : insertMany E t (inserts outcomes) with
    | error e =>
      refine ⟨row,by simpa only [load,if_neg hgiven,hinsert] using hrow,?_⟩
      simpa only [written,if_neg hgiven,hinsert] using filled_nil t k fill (row column)
    | ok t₁ =>
      have hrow₁ := insertMany_rowAt hinsert hrow
      obtain ⟨more,rfl⟩ := insertMany_ok hinsert
      simp only [load,written,if_neg hgiven,hinsert]
      exact updateMany_rowAt (t:={ t with rows := t.rows ++ more }) hfill hrow₁

theorem written_subset {skipInvalid : Bool} {outcomes : List Outcome} {u : Value × Values}
    (h : u ∈ written E t skipInvalid outcomes) : u ∈ updates outcomes := by
  simp only [written] at h
  split at h
  · cases h
  · split at h
    · cases h
    · exact accepted_subset h

end Writing

/-! ### The whole import -/

theorem importRows_ok {lib : CoerceLib} {E : Engine} {D : Directory} {mt : MetaTable} {t : Physical} {call : Call}
    {header : List String} {outcomes : List Outcome} (h : plan lib E D mt t call = .ok (header,outcomes)) :
    ∃ ignored, importRows lib E D mt t call = .ok (load E t call.skipInvalid outcomes ignored) := by
  simp only [importRows,h]
  exact ⟨_,rfl⟩

theorem filling_field {lib : CoerceLib} {E : Engine} {D : Directory} {mt : MetaTable} {t : Physical}
    {allowed : Option (List String)} {f : MetaField} (hf : f ∈ importableFields mt allowed)
    (hcolumn : f.physName ∈ t.columns) (hpk : f.physName ≠ t.pk) :
    filling lib E D t (importableFields mt allowed) f.physName =
      some (E.adapt f.physName (emptyCell lib D f)) := by
  have hnames : ((importableFields mt allowed).map MetaField.physName).Nodup :=
    Keyed.nodup_filter _ mt.namesNodup
  simp [filling,hcolumn,hpk,Keyed.find_of_mem hnames hf]

/-- An upsert import keeps every column outside the header exactly when the records it
writes hold the value of an empty cell there already. -/
theorem frame_iff (lib : CoerceLib) (E : Engine) (D : Directory) (mt : MetaTable) (t : Physical) (call : Call) :
    FrameKept lib E D mt t call ↔ BlankAlready lib E D mt t call := by
  constructor
  · intro h header outcomes hplan u hu row hrow f hf hheader hcolumn hpk
    obtain ⟨ignored,himport⟩ := importRows_ok hplan
    have hmem := mem_updates.mp (written_subset hu)
    obtain ⟨row',hrow',hkept⟩ := h header outcomes _ _ hplan himport u.1 u.2 hmem row hrow f.physName hheader
    obtain ⟨row'',hrow'',hfilled⟩ := load_rowAt call.skipInvalid ignored
      (fun v hv => plan_filling hplan hv hheader) hrow
    obtain rfl : row' = row'' := Option.some.inj (hrow'.symm.trans hrow'')
    rcases hfilled with ⟨-,hvalue⟩ | ⟨hno,-⟩
    · rw [← hkept,hvalue,filling_field hf hcolumn hpk]
      rfl
    · exact absurd rfl (hno u hu)
  · intro h header outcomes t' result hplan himport pk values hmem row hrow column hheader
    obtain ⟨ignored,hload⟩ := importRows_ok hplan
    obtain ⟨row',hrow',hfilled⟩ := load_rowAt call.skipInvalid ignored
      (fun v hv => plan_filling hplan hv hheader) hrow
    have ht' : t' = (load E t call.skipInvalid outcomes ignored).1 :=
      congrArg Prod.fst (Except.ok.inj (himport.symm.trans hload))
    refine ⟨row',ht' ▸ hrow',?_⟩
    rcases hfilled with ⟨⟨u,hu,hk⟩,hvalue⟩ | ⟨-,hvalue⟩
    · rw [hvalue]
      simp only [filling]
      split
      · rename_i hin
        simp only [Bool.and_eq_true,List.contains_eq_mem,decide_eq_true_eq,bne_iff_ne,ne_eq] at hin
        cases hfind : Keyed.find MetaField.physName column (importableFields mt call.allowed) with
        | none => rfl
        | some f =>
          obtain rfl : f.physName = column := Keyed.key_of_find hfind
          exact h header outcomes hplan u hu row (hk ▸ hrow) f (Keyed.mem_of_find hfind) hheader hin.1 hin.2
      · rfl
    · exact hvalue

/-! ### A file without the phone column -/

def textField (id : ℕ) (name label : String) : MetaField where
  id := id
  physName := name
  label := label
  dataType := .string

def customers : MetaTable where
  id := 1
  physName := "customers"
  label := "Customers"
  fields := [textField 1 "name" "Name",textField 2 "phone" "Phone"]
  idsNodup := by decide
  namesNodup := by decide
  namesFree := by decide

def ann : Row := fun column =>
  match column with
  | "id" => .int 1
  | "name" => .text "Ann"
  | "phone" => .text "555 0100"
  | _ => .null

def customerRows : Physical where
  columns := ["id","name","phone"]
  pk := "id"
  rows := [ann]
  key := id
  admits := fun _ => true

/-- The library on the cells of the file. -/
def plainLib : CoerceLib where
  strOther := fun _ => ""
  float := fun _ => none
  int := fun s => if s = "1" then some 1 else none
  isAlnum := Char.isAlphanum
  loads := fun _ => .error (.valueError "Expecting value")
  isDigit := fun s => s ≠ "" ∧ s.toList.all Char.isDigit
  lowercase := lower
  decimal := fun _ => none
  isoDate := fun _ => none
  isoTime := fun _ => none
  isoDatetime := fun _ => none
  strptime := fun _ _ => none
  search := fun _ _ => .ok false
  dumps := fun _ => ""
  repr := fun _ => ""
  complaint := fun parser raw => "invalid literal for " ++ parser ++ "(): " ++ raw

def plainEngine : Engine where
  eq := fun a b => a = b
  lowerTrim := id
  adapt := fun _ v => v
  blankRow := fun _ => .null
  nextKey := fun rows => .int (rows.length+1)

def noDirectory : Directory where
  users := []
  companies := []
  related := fun _ => none

def renameAnn : Call where
  fileText := "id,name\n1,Anna\n"
  skipInvalid := false
  mode := .upsert
  keyField := some "id"

/-- A file that renames a customer clears the phone number it does not mention. -/
theorem import_not_frameKept : ¬∀ (lib : CoerceLib) (E : Engine) (D : Directory) (mt : MetaTable) (t : Physical)
    (call : Call), call.mode = .upsert → FrameKept lib E D mt t call := by
  intro h
  have hplan : plan plainLib plainEngine noDirectory customers customerRows renameAnn =
      .ok (["id","name"],[.update (.int 1) [("name",.text "Anna"),("phone",.null)]]) := rfl
  obtain ⟨ignored,himport⟩ := importRows_ok hplan
  obtain ⟨row',hrow',hkept⟩ := h plainLib plainEngine noDirectory customers customerRows renameAnn rfl _ _ _ _ hplan
    himport (.int 1) _ List.mem_cons_self ann rfl "phone" (by decide)
  have hnull : row' "phone" = .null := by
    rw [← Option.some.inj hrow']
    rfl
  rw [hnull] at hkept
  cases hkept

end Importer
end Biggy
