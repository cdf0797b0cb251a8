import Biggy.ApiWrites
import Biggy.ListExport
import Mathlib.Tactic.NormNum

/-!
# A record read through the API and written back

`serialize_row` turns a record into JSON values and `deserialize` turns them into values again, through the texts that the
importer reads. `returned_unchanged` says which records survive the way there and back.
-/
namespace Biggy
namespace ApiReadBack

open Access RecordService Importer ApiWrites

/-! ### Reading -/

section Reading

variable (lib : PullLib) (iso : Value → String)

/-- A value of `serialize_row` in the JSON text, where a time has no place; `iso` is `isoformat`. -/
def serializeValue : Value → Except PyError Json
  | .null => .ok .null
  | .bool b => .ok (.bool b)
  | .int n => .ok (.int n)
  | .float x => .ok (.float x)
  | .text s => .ok (.str s)
  | .date d => .ok (.str (iso (.date d)))
  | .datetime t => .ok (.str (iso (.datetime t)))
  | .decimal d =>
    match lib.float (.decimal d) with
    | some x => .ok (.float x)
    | none => .error (.valueError "cannot convert signaling NaN to float")
  | .time _ => .error .typeError

/-- `serialize_row`, encoded. -/
def serializeRow (columns hide : List String) (row : Row) : Except PyError (List (String × Json)) :=
  (columns.filter fun column => decide (column ∉ hide)).mapM fun column =>
    (serializeValue lib iso (row column)).map fun j => (column,j)

end Reading

section Api

variable (S : Site) (user : User)

/-- `_hidden`. -/
def hidden : List String :=
  (S.table.fields.map MetaField.physName).filter fun name =>
    decide (name ∉ (readableFields S.session user S.table).map MetaField.physName)

/-- A member that a client may send back: a field that neither the program manages nor a formula or counter fills. -/
def Sendable (f : MetaField) : Prop :=
  f.physName ∉ readOnly ∧ f.dataType ∉ [DataType.autonumber,.formula,.file,.image]

instance (f : MetaField) : Decidable (Sendable f) := inferInstanceAs (Decidable (_ ∧ _))

/-- The members that go back. -/
def sent (members : List (String × Json)) : List (String × Json) :=
  members.filter fun p => S.table.fields.any fun f => decide (f.physName = p.1 ∧ Sendable f)

/-- The columns that an update fills by itself. -/
def derived (mt : MetaTable) : List String :=
  (if hasAuditCols mt then ["updated_by","updated_at"] else []) ++ (formulaFields mt).map MetaField.physName

/-- Two values that are equal in Python. -/
inductive Same : Value → Value → Prop
  | refl (v : Value) : Same v v
  | decimal {d d' : PyDecimal} {q : ℚ} (hd : d.toRat = some q) (hd' : d'.toRat = some q) : Same (.decimal d) (.decimal d')
  | bit (b : Bool) : Same (.int (if b then 1 else 0)) (.bool b)

/-- The record is returned, what it returns is accepted as an update, and the update leaves the other columns as they were. -/
def Survives (iso : Value → String) (keep : String → Prop) (data : Physical) (pk : Value) (i : Input) : Prop :=
  ∃ row members, shown S user data pk = some row ∧ serializeRow S.lib iso data.columns (hidden S user) row = .ok members ∧
    ∃ data' row', updateRow S user data pk { i with body := .obj (sent S members) } = .ok (data',pk) ∧
      data'.getRow pk = some row' ∧ ∀ column, keep column → Same (row column) (row' column)

/-! ### Values that stand -/

/-- A text without outer white space that is not empty. -/
def Trimmed (s : String) : Prop := strip s = s ∧ s ≠ ""

/-- A stored value that its column would still take: the rules hold, the choice is offered, the record is there, the float of a
decimal has its value, and a JSON text is as the writer formats it. -/
inductive Stands (lib : CoerceLib) (related : MetaField → Resolver) (f : MetaField) : Value → Prop
  | null : Stands lib related f .null
  | text {s : String} (htype : f.dataType ∈ [DataType.string,.text,.markdown]) (htrim : Trimmed s) (hrule : checkText lib f s = .ok ()) :
      Stands lib related f (.text s)
  | whole {n : ℤ} (htype : f.dataType ∈ [DataType.integer,.bigint]) (hrule : checkRange lib f (.int n) = .ok (.int n)) :
      Stands lib related f (.int n)
  | account {n : ℤ} (htype : f.dataType ∈ [DataType.user,.company]) : Stands lib related f (.int n)
  | record {n : ℤ} (htype : f.dataType = .relation) (hrecord : .int n ∈ (related f).ids) : Stands lib related f (.int n)
  | decimal {d d' : PyDecimal} {x : PyFloat} {q : ℚ} (htype : f.dataType ∈ [DataType.decimal,.currency,.percent])
      (hfloat : lib.float (.decimal d) = some x) (hread : lib.decimal (lib.str (.float x)) = some d')
      (hd : d.toRat = some q) (hd' : d'.toRat = some q) (hrule : checkRange lib f (.decimal d') = .ok (.decimal d')) :
      Stands lib related f (.decimal d)
  | float {x : PyFloat} (htype : f.dataType = .float) (hrule : checkRange lib f (.float x) = .ok (.float x)) :
      Stands lib related f (.float x)
  | truth {b : Bool} (htype : f.dataType = .boolean) : Stands lib related f (.bool b)
  | bit {b : Bool} (htype : f.dataType = .boolean) : Stands lib related f (.int (if b then 1 else 0))
  | date {d : ℤ} (htype : f.dataType = .date) : Stands lib related f (.date d)
  | datetime {t : ℤ} (htype : f.dataType = .datetime) : Stands lib related f (.datetime t)
  | choice {s : String} {items : List Json} (htype : f.dataType = .enum) (htrim : Trimmed s)
      (hoptions : loadOptions lib f = .ok (.arr items)) (hoffered : items.any (isText s) = true) : Stands lib related f (.text s)
  | email {s : String} (htype : f.dataType = .email) (htrim : Trimmed s) (hform : coerceEmail lib s = .ok (.text s)) :
      Stands lib related f (.text s)
  | url {s : String} (htype : f.dataType = .url) (htrim : Trimmed s) (hform : coerceUrl lib s = .ok (.text s)) :
      Stands lib related f (.text s)
  | phone {s : String} (htype : f.dataType = .phone) (htrim : Trimmed s) (hform : coercePhone lib s = .ok (.text s)) :
      Stands lib related f (.text s)
  | json {s : String} {j : Json} (htype : f.dataType = .json) (htrim : Trimmed s) (hloads : lib.loads s = .ok j)
      (hdumps : lib.dumps j = s) : Stands lib related f (.text s)

/-- What the standard library says of the text of a value: `int`, `float` and `fromisoformat` read what `str` and `isoformat`
write, and `float` takes a decimal that is stored. -/
def Documented (lib : CoerceLib) (iso : Value → String) : Value → Prop
  | .bool b => lib.lowercase (lib.str (.bool b)) = if b then "true" else "false"
  | .int n => Trimmed (lib.str (.int n)) ∧ lib.int (lib.str (.int n)) = some n ∧ lib.isDigit (lstripMinus (lib.str (.int n))) = true ∧
      lib.lowercase (lib.str (.int n)) = lib.str (.int n)
  | .float x => Trimmed (lib.str (.float x)) ∧ lib.float (.text (lib.str (.float x))) = some x
  | .decimal d => ∃ x, lib.float (.decimal d) = some x ∧ Trimmed (lib.str (.float x))
  | .date d => Trimmed (iso (.date d)) ∧ lib.isoDate (iso (.date d)) = some d
  | .datetime t => Trimmed (iso (.datetime t)) ∧ lib.isoDatetime (iso (.datetime t)) = some t
  | _ => True

end Api

section Proofs

variable {S : Site} {user : User} {iso : Value → String} {f : MetaField} {v : Value}

/-! ### One value -/

theorem Documented.serialized (h : Documented S.lib.toCoerceLib iso v) (htime : ∀ t, v ≠ .time t) :
    ∃ j, serializeValue S.lib iso v = .ok j := by
  cases v with
  | decimal d =>
    obtain ⟨x,hx,-⟩ := h
    exact ⟨.float x,by simp only [serializeValue,hx]⟩
  | time t => exact absurd rfl (htime t)
  | _ => exact ⟨_,rfl⟩

theorem coerceValue_trimmed {lib : CoerceLib} {resolver : Option Resolver} {s : String} (hs : Trimmed s) {w : Value}
    (h : coerceTyped lib f resolver s = some (.ok w)) : coerceValue lib f resolver (some s) = .ok w := by
  have hcell : strip ((some s).getD "") = s := hs.1
  exact (coerceValue_parsed hcell hs.2).mpr h

theorem str_int (lib : PullLib) (n : ℤ) : lib.strJson (.int n) = lib.str (.int n) := rfl

theorem str_float (lib : PullLib) (x : PyFloat) : lib.strJson (.float x) = lib.str (.float x) := rfl

/-- A value that stands is read back as an equal one. -/
theorem Stands.readBack (h : Stands S.lib.toCoerceLib S.relation f v) (hdoc : Documented S.lib.toCoerceLib iso v) (hv : v ≠ .null) {j : Json}
    (hj : serializeValue S.lib iso v = .ok j) : j ≠ .null ∧ j ≠ .str "" ∧
      ∃ w, coerceValue S.lib.toCoerceLib f (if f.dataType = .relation then some (S.relation f) else none) (some (S.lib.strJson j)) = .ok w ∧
        Same v w ∧ (f.dataType = .enum → w = v) := by
  cases h with
  | null => exact absurd rfl hv
  | text htype htrim hrule =>
    obtain rfl := Except.ok.inj hj
    refine ⟨by simp,by simpa using htrim.2,_,coerceValue_trimmed htrim ?_,.refl _,fun _ => rfl⟩
    simp only [List.mem_cons,List.not_mem_nil,or_false] at htype
    rcases htype with htype | htype | htype <;> simp only [coerceTyped,htype,hrule,Except.map]
  | whole htype hrule =>
    obtain rfl := Except.ok.inj hj
    obtain ⟨htrim,hint,-,-⟩ := hdoc
    refine ⟨by simp,by simp,_,?_,.refl _,fun _ => rfl⟩
    rw [str_int]
    apply coerceValue_trimmed htrim
    simp only [List.mem_cons,List.not_mem_nil,or_false] at htype
    rcases htype with htype | htype <;> simp only [coerceTyped,htype,coerceInt,hint,parsed,Except.map,Except.bind,hrule]
  | account htype =>
    obtain rfl := Except.ok.inj hj
    obtain ⟨htrim,hint,-,-⟩ := hdoc
    refine ⟨by simp,by simp,_,?_,.refl _,fun _ => rfl⟩
    rw [str_int]
    apply coerceValue_trimmed htrim
    simp only [List.mem_cons,List.not_mem_nil,or_false] at htype
    rcases htype with htype | htype <;>
      simp only [coerceTyped,htype,reduceCtorEq,if_false,coerceReference,coerceInt,hint,parsed,Except.map]
  | record htype hrecord =>
    obtain rfl := Except.ok.inj hj
    obtain ⟨htrim,hint,hdigit,-⟩ := hdoc
    refine ⟨by simp,by simp,_,?_,.refl _,fun _ => rfl⟩
    rw [str_int]
    apply coerceValue_trimmed htrim
    simp only [coerceTyped,htype,if_true,coerceReference,Resolver.resolve,hdigit,hint,hrecord]
  | decimal htype hfloat hread hd hd' hrule =>
    simp only [serializeValue,hfloat] at hj
    obtain rfl := Except.ok.inj hj
    obtain ⟨x,hx,htrim⟩ := hdoc
    obtain rfl := Option.some.inj (hfloat.symm.trans hx)
    refine ⟨by simp,by simp,_,?_,.decimal hd hd',?_⟩
    · rw [str_float]
      apply coerceValue_trimmed htrim
      simp only [List.mem_cons,List.not_mem_nil,or_false] at htype
      rcases htype with htype | htype | htype <;> simp only [coerceTyped,htype,coerceDecimal,hread,hrule]
    · intro henum
      rw [henum] at htype
      exact absurd htype (by decide)
  | float htype hrule =>
    obtain rfl := Except.ok.inj hj
    obtain ⟨htrim,hfloat⟩ := hdoc
    refine ⟨by simp,by simp,_,?_,.refl _,fun _ => rfl⟩
    rw [str_float]
    apply coerceValue_trimmed htrim
    simp only [coerceTyped,htype,coerceFloat,hfloat,parsed,hrule]
  | @truth b htype =>
    obtain rfl := Except.ok.inj hj
    have hword : S.lib.lowercase (S.lib.str (.bool b)) = if b then "true" else "false" := hdoc
    refine ⟨by simp,by simp,.bool b,?_,.refl _,fun _ => rfl⟩
    cases b with
    | false =>
      apply coerceValue_trimmed (⟨by decide,by decide⟩ : Trimmed "False")
      have hfalse : S.lib.lowercase "False" = "false" := hword
      simp only [coerceTyped,htype,coerceBool,hfalse]
      rfl
    | true =>
      apply coerceValue_trimmed (⟨by decide,by decide⟩ : Trimmed "True")
      have htrue : S.lib.lowercase "True" = "true" := hword
      simp only [coerceTyped,htype,coerceBool,htrue]
      rfl
  | @bit b htype =>
    obtain rfl := Except.ok.inj hj
    obtain ⟨htrim,-,-,hlower⟩ := hdoc
    refine ⟨by simp,by simp,.bool b,?_,.bit b,fun henum => by rw [henum] at htype; cases htype⟩
    rw [str_int]
    apply coerceValue_trimmed htrim
    simp only [coerceTyped,htype,coerceBool,hlower]
    cases b <;> rfl
  | date htype =>
    obtain rfl := Except.ok.inj hj
    obtain ⟨htrim,hread⟩ := hdoc
    refine ⟨by simp,by simpa using htrim.2,_,?_,.refl _,fun _ => rfl⟩
    apply coerceValue_trimmed htrim
    simp only [coerceTyped,htype,hread,parsed,Except.map]
  | datetime htype =>
    obtain rfl := Except.ok.inj hj
    obtain ⟨htrim,hread⟩ := hdoc
    refine ⟨by simp,by simpa using htrim.2,_,?_,.refl _,fun _ => rfl⟩
    apply coerceValue_trimmed htrim
    simp only [coerceTyped,htype,parseDatetime,hread,Option.some_or,Except.map]
  | choice htype htrim hoptions hoffered =>
    obtain rfl := Except.ok.inj hj
    refine ⟨by simp,by simpa using htrim.2,_,coerceValue_trimmed htrim ?_,.refl _,fun _ => rfl⟩
    simp only [coerceTyped,htype,coerceEnum,hoptions,hoffered,if_true]
  | email htype htrim hform | url htype htrim hform | phone htype htrim hform =>
    obtain rfl := Except.ok.inj hj
    refine ⟨by simp,by simpa using htrim.2,_,coerceValue_trimmed htrim ?_,.refl _,fun _ => rfl⟩
    simp only [coerceTyped,htype,hform]
  | json htype htrim hloads hdumps =>
    obtain rfl := Except.ok.inj hj
    refine ⟨by simp,by simpa using htrim.2,_,coerceValue_trimmed htrim ?_,.refl _,fun _ => rfl⟩
    simp only [coerceTyped,htype,coerceJson,hloads,Except.map,hdumps]

/-! ### The whole record -/

theorem serializeRow_mem {columns hide : List String} {row : Row} {members : List (String × Json)}
    (h : serializeRow S.lib iso columns hide row = .ok members) {p : String × Json} (hp : p ∈ members) :
    p.1 ∈ columns ∧ p.1 ∉ hide ∧ serializeValue S.lib iso (row p.1) = .ok p.2 := by
  obtain ⟨column,hcolumn,hmember⟩ := Outcome.mapM_from h hp
  obtain ⟨hin,hshown⟩ := List.mem_filter.mp hcolumn
  obtain ⟨j,hj,rfl⟩ := Outcome.map_ok hmember
  exact ⟨hin,of_decide_eq_true hshown,hj⟩

/-- A member that is sent back becomes a value equal to the stored one. -/
theorem deserializeItem_sent {data : Physical} {row : Row} {members : List (String × Json)}
    (hread : serializeRow S.lib iso data.columns (hidden S user) row = .ok members)
    (hwrite : ∀ f ∈ S.table.fields, Sendable f → f.physName ∈ data.columns → f.physName ∉ hidden S user →
      f ∈ writableFields S.session user S.table ∧ Stands S.lib.toCoerceLib S.relation f (row f.physName))
    (hdoc : ∀ column ∈ data.columns, Documented S.lib.toCoerceLib iso (row column)) {p : String × Json} (hp : p ∈ sent S members) :
    ∃ w, deserializeItem S user p = .ok (p.1,w) ∧ Same (row p.1) w ∧
      ∀ f ∈ S.table.fields, f.physName = p.1 → f.dataType = .enum → w = row p.1 := by
  obtain ⟨hmember,hany⟩ := List.mem_filter.mp hp
  obtain ⟨f,hf,hname⟩ := List.any_eq_true.mp hany
  obtain ⟨hname,hsend⟩ := of_decide_eq_true hname
  obtain ⟨hcolumn,hshown,hj⟩ := serializeRow_mem hread hmember
  rw [← hname] at hcolumn hshown hj
  obtain ⟨hwritable,hstands⟩ := hwrite f hf hsend hcolumn hshown
  have hreadonly : p.1 ∉ readOnly := hname ▸ hsend.1
  have hbody : f ∈ bodyFields S := by
    refine List.mem_filter.mpr ⟨hf,decide_eq_true ?_⟩
    have hplain := hsend.2
    simp only [List.mem_cons,List.not_mem_nil,or_false,not_or] at hplain ⊢
    exact ⟨hplain.2.2.1,hplain.2.2.2⟩
  have hfind : (bodyFields S).find? (fun g => decide (g.physName = p.1)) = some f := by
    rw [← hname]
    exact Keyed.find_of_mem (Keyed.nodup_filter _ S.table.namesNodup) hbody
  have hnames : p.1 ∈ (writableFields S.session user S.table).map MetaField.physName := hname ▸ List.mem_map_of_mem hwritable
  have hunique : ∀ g ∈ S.table.fields, g.physName = p.1 → g = f :=
    fun g hg hgname => S.table.field_unique hg hf (hgname.trans hname.symm)
  by_cases hnull : row f.physName = .null
  · rw [hnull] at hj
    have hp2 : p.2 = .null := (Except.ok.inj hj).symm
    refine ⟨.null,?_,?_,fun g hg hgname henum => ?_⟩
    · simp only [deserializeItem,if_neg hreadonly,hfind,hp2]
      exact if_neg (not_not_intro hnames)
    · rw [← hname,hnull]
      exact .refl _
    · rw [← hname,hnull]
  · obtain ⟨hjnull,hjempty,w,hw,hsame,henum⟩ := hstands.readBack (hdoc _ hcolumn) hnull hj
    refine ⟨w,?_,by rw [← hname]; exact hsame,fun g hg hgname htype => ?_⟩
    · simp only [deserializeItem,if_neg hreadonly,hfind]
      rw [if_neg (not_not_intro hnames),hw]
      rfl
    · rw [← hname]
      exact henum (hunique g hg hgname ▸ htype)

/-- Where no state changes, nothing is held for an approval. -/
theorem planDiversions_same {steps : List ApprovalStep} {mt : MetaTable} {old : Row} {values : Values} {wfs : List Workflow}
    (h : ∀ wf ∈ wfs, ∀ field, mt.field wf.fieldId = some field → ∀ target, values.lookup field.physName = some target →
      target = old field.physName) : Approvals.planDiversions steps mt old wfs values = ([],values) := by
  induction wfs with
  | nil => rfl
  | cons wf wfs ih =>
    have hrest := ih fun w hw => h w (List.mem_cons_of_mem _ hw)
    rw [Approvals.planDiversions]
    split
    · exact hrest
    · rename_i field hfield
      split
      · exact hrest
      · rename_i target htarget
        rw [if_pos (Or.inl (h wf List.mem_cons_self field hfield target htarget))]
        exact hrest

theorem check_same {mt : MetaTable} {old : Row} {values : Values} {u : AppUser} {wfs : List Workflow}
    (h : ∀ wf ∈ wfs, ∀ field, mt.field wf.fieldId = some field → ∀ target, values.lookup field.physName = some target →
      target = old field.physName) : Workflow.check mt old values u wfs = .ok () := by
  induction wfs with
  | nil => rfl
  | cons wf wfs ih =>
    have hone : Workflow.checkOne mt old values u wf = .ok () := by
      rw [Workflow.checkOne]
      split
      · rfl
      · rename_i field hfield
        split
        · rfl
        · rename_i target htarget
          rw [if_pos (Or.inl (h wf List.mem_cons_self field hfield target htarget))]
    rw [Workflow.check,hone]
    exact ih fun w hw => h w (List.mem_cons_of_mem _ hw)

/-- An update writes every column that it does not derive as submitted. -/
theorem updateValues_kept {evaluate : Evaluator} {mt : MetaTable} {old : Row} {values : Values} {userId : Option ℕ} {now : ℤ}
    {column : String} (hcolumn : column ∉ derived mt) :
    (updateValues evaluate mt old values userId now).lookup column = values.lookup column := by
  simp only [derived,List.mem_append,not_or] at hcolumn
  obtain ⟨hstamp,hformula⟩ := hcolumn
  have hnone : (computeSelf evaluate mt (old.write values)).lookup column = none := by
    rw [computeSelf]
    cases hcompute : computeValues evaluate (formulaFields mt) (old.write values) with
    | none => rfl
    | some vs => exact computeValues_lookup hcompute fun g hg hname => hformula (hname ▸ List.mem_map_of_mem hg)
  have hcomputed : (if hasFormulas mt then values.update (computeSelf evaluate mt (old.write values)) else values).lookup column =
      values.lookup column := by
    split
    · rw [Values.lookup_update,hnone,Option.none_or]
    · rfl
  simp only [updateValues]
  split
  · rename_i haudit
    rw [if_pos haudit] at hstamp
    simp only [List.mem_cons,List.not_mem_nil,or_false,not_or] at hstamp
    have hby : (column == "updated_by") = false := by simpa using hstamp.1
    have hat : (column == "updated_at") = false := by simpa using hstamp.2
    rw [Values.lookup_update,hcomputed]
    simp [auditStamp,List.lookup_cons,hby,hat]
  · exact hcomputed

end Proofs

/-! ### Values that change on the way -/

theorem Same.text {s : String} {w : Value} (h : Same (.text s) w) : w = .text s := by
  cases h
  rfl

def tenDigits : PyDecimal := .finite false 12345678901234567890 (-10)

/-- The float next to the decimal. -/
def nearest : PyFloat := .finite ⟨5178153039816375,4194304,by decide,by decide⟩

def cellLib : PullLib where
  strOther := fun v => if v = .float nearest then "1234567890.1234567" else ""
  float := fun v => if v = .decimal tenDigits then some nearest else none
  int := fun s => if s = "1" then some 1 else if s = "5" then some 5 else none
  isAlnum := Char.isAlphanum
  loads := fun s => if s = "[1,2]" then .ok (.arr [.int 1,.int 2]) else .error (.valueError "Expecting value")
  isDigit := fun s => s ≠ "" ∧ s.toList.all Char.isDigit
  lowercase := lower
  decimal := fun s => if s = "1234567890.1234567" then some (.finite false 12345678901234567 (-7)) else none
  isoDate := fun _ => none
  isoTime := fun _ => none
  isoDatetime := fun s => if s = "0001-01-01T00:00:00" then some 0 else none
  strptime := fun _ _ => none
  search := fun _ _ => .ok false
  dumps := fun j => match j with
    | .arr [.int 1,.int 2] => "[1, 2]"
    | _ => ""
  repr := fun _ => ""
  complaint := fun _ _ => ""
  reprJson := fun _ => ""
  timestamp := fun _ => .ok none

def firstDay : Value → String := fun v => if v = .datetime 0 then "0001-01-01T00:00:00" else ""

def cell (t : DataType) : MetaField where
  id := 1
  physName := "cell"
  label := "Cell"
  dataType := t
  minLength := some 3

def sheet (t : DataType) : MetaTable where
  id := 1
  physName := "sheet"
  label := "Sheet"
  fields := [cell t]
  trackAudit := true
  idsNodup := List.nodup_singleton _
  namesNodup := List.nodup_singleton _
  namesFree := by
    intro f hf
    obtain rfl := List.mem_singleton.mp hf
    show "cell" ∉ managed
    decide

def designer : User := { id := 1, role := "designer", companyId := none }

/-- No record is there that a relation could name. -/
def sheetSite (t : DataType) : Site where
  table := sheet t
  session := ⟨[],[],[],[designer.toAccount],[]⟩
  workflows := []
  steps := []
  evaluate := fun _ _ => none
  lib := cellLib
  username := fun _ => none
  relation := fun _ => ⟨"record",[],[],[]⟩
  describe := fun _ => ""
  onEnum := by simp

def stored (v : Value) : Row := fun column =>
  match column with
  | "id" => .int 1
  | "cell" => v
  | "updated_by" => .int 1
  | "updated_at" => .datetime 0
  | _ => .null

def sheetData (v : Value) : Physical where
  columns := ["id","cell","updated_by","updated_at"]
  pk := "id"
  rows := [stored v]
  key := id
  admits := fun _ => true

def today : Input := ⟨.update (.int 1),.null,1,0,fun _ => 1,.int 2⟩

theorem stored_documented (text : String) : ∀ column ∈ (sheetData (.text text)).columns,
    Documented cellLib.toCoerceLib firstDay (stored (.text text) column) := by
  have hone : Documented cellLib.toCoerceLib firstDay (.int 1) := ⟨⟨by decide,by decide⟩,rfl,by decide,by decide⟩
  intro column hcolumn
  rcases List.mem_cons.mp hcolumn with rfl | hcolumn
  · exact hone
  rcases List.mem_cons.mp hcolumn with rfl | hcolumn
  · trivial
  rcases List.mem_cons.mp hcolumn with rfl | hcolumn
  · exact hone
  · obtain rfl := List.mem_singleton.mp hcolumn
    exact ⟨⟨by decide,by decide⟩,rfl⟩

/-- What an update that is accepted leaves in the cell. -/
theorem Survives.cell {t : DataType} {v w : Value} {data' : Physical} {members : List (String × Json)}
    (h : Survives (sheetSite t) designer firstDay (fun column => column ∉ derived (sheet t)) (sheetData v) (.int 1) today)
    (hread : serializeRow cellLib firstDay (sheetData v).columns (hidden (sheetSite t) designer) (stored v) = .ok members)
    (hupdate : updateRow (sheetSite t) designer (sheetData v) (.int 1) { today with body := .obj (sent (sheetSite t) members) } =
      .ok (data',.int 1)) (hcell : (data'.getRow (.int 1)).map (fun row => row "cell") = some w) (hplain : "cell" ∉ derived (sheet t)) :
    Same v w := by
  obtain ⟨row,members',hshown,hmembers,data'',row',hupdate',hrow,hsame⟩ := h
  obtain rfl : stored v = row := Option.some.inj hshown
  obtain rfl := Except.ok.inj (hread.symm.trans hmembers)
  obtain ⟨rfl,-⟩ := Prod.mk.inj (Except.ok.inj (hupdate.symm.trans hupdate'))
  rw [hrow,Option.map_some] at hcell
  have hcellSame := hsame "cell" hplain
  rwa [Option.some.inj hcell] at hcellSame

/-- An update that is refused. -/
theorem Survives.accepted {t : DataType} {v : Value} {keep : String → Prop} {members : List (String × Json)}
    (h : Survives (sheetSite t) designer firstDay keep (sheetData v) (.int 1) today)
    (hread : serializeRow cellLib firstDay (sheetData v).columns (hidden (sheetSite t) designer) (stored v) = .ok members)
    {r : Refusal} : updateRow (sheetSite t) designer (sheetData v) (.int 1) { today with body := .obj (sent (sheetSite t) members) } ≠
      .error r := by
  obtain ⟨row,members',hshown,hmembers,data'',row',hupdate',-⟩ := h
  obtain rfl : stored v = row := Option.some.inj hshown
  obtain rfl := Except.ok.inj (hread.symm.trans hmembers)
  intro hrefused
  rw [hrefused] at hupdate'
  cases hupdate'

end ApiReadBack
end Biggy
