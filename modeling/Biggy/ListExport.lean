import Biggy.Importer
import Biggy.CsvWrite
import Biggy.Outcome

/-!
# The CSV export

`list_csv` writes the rows of a list under the names of their columns; a relation shows the
label of the record it points to. Each cell is read again by `coerce_value`.
-/
namespace Biggy
namespace Importer

/-- A column of a list. -/
structure ListItem where
  column : String
  field : MetaField

/-- `label_maps`: the labels of the records by their id, for the columns that show them. -/
abbrev LabelMaps := List (String × List (Value × String))

section Export

variable (lib : CoerceLib) (labels : LabelMaps)

/-- `_cell`. -/
def listCell (item : ListItem) (value : Value) : String :=
  match labels.lookup item.column with
  | some options => if value = .null then "" else (options.lookup value).getD (lib.str value)
  | none =>
    if value = .null then ""
    else if item.field.dataType = .boolean then (if value.truthy then "yes" else "no")
    else lib.str value

/-- `list_csv`. -/
def listCsv (columns : List ListItem) (rows : List Row) : String :=
  Csv.write (columns.map ListItem.column::rows.map fun row => columns.map fun item => listCell lib labels item (row item.column))

/-- The columns of all importable fields. -/
def importableItems (mt : MetaTable) (allowed : Option (List String)) : List ListItem :=
  (importableFields mt allowed).map fun f => ⟨f.physName,f⟩

/-- What is written for a stored value of a field. -/
def exported (f : MetaField) (v : Value) : String := listCell lib labels ⟨f.physName,f⟩ v

end Export

/-! ### One value there and back -/

/-- What the cell of a type is: the text itself, a reference, a JSON text, a list of tags, or a
printed value. -/
inductive CellKind
  | verbatim | reference | json | tags | printed
  deriving DecidableEq

def kindOf : DataType → CellKind
  | .string | .text | .markdown | .enum | .email | .url | .phone | .autonumber => .verbatim
  | .user | .company | .relation => .reference
  | .json => .json
  | .tags => .tags
  | _ => .printed

/-- The cells whose column holds a text. -/
def CellKind.isText : CellKind → Bool
  | .verbatim | .json | .tags => true
  | _ => false

/-- What a column of a type holds. -/
def typed (t : DataType) : Value → Bool
  | .null => true
  | .bool _ => t ∈ [DataType.boolean,.formula]
  | .int _ => t ∈ [DataType.integer,.bigint,.user,.company,.relation,.boolean,.formula]
  | .float _ => t ∈ [DataType.float,.formula]
  | .decimal _ => t ∈ [DataType.decimal,.currency,.percent,.formula]
  | .text _ => (kindOf t).isText || t = .formula
  | .date _ => t ∈ [DataType.date,.formula]
  | .datetime _ => t ∈ [DataType.datetime,.formula]
  | .time _ => t ∈ [DataType.time,.formula]

/-- `str` and the parser of the type are inverse on a value, as documented. -/
def Printed (lib : CoerceLib) (v : Value) : Prop :=
  (∀ s, v ≠ .text s) → strip (lib.str v) = lib.str v ∧ lib.str v ≠ "" ∧
    match v with
    | .int n => lib.int (lib.str v) = some n
    | .decimal d => lib.decimal (lib.str v) = some d
    | .float x => lib.float (.text (lib.str v)) = some x
    | .date d => lib.isoDate (lib.str v) = some d
    | .datetime t => lib.isoDatetime (lib.str v) = some t
    -- the driver's times are durations, and `time.fromisoformat` may refuse what `str` makes of them
    | .time t => ∀ t', lib.isoTime (lib.str v) = some t' → t' = t
    | _ => True

/-- What the importer makes of a stored value that it reads well. -/
def readBack (f : MetaField) (v : Value) : Value := if f.dataType = .boolean ∧ v ≠ .null then .bool v.truthy else v

/-- A stored value that its cell still tells: a blank cell stands for an empty column, and in a
required one for nothing that a default could replace; a text has no white space around it; a
JSON text is as the writer formats it; a reference leads back to its record. -/
structure Kept (lib : CoerceLib) (D : Directory) (labels : LabelMaps) (f : MetaField) (v : Value) : Prop where
  blank : strip (exported lib labels f v) = "" → f.nullable = true → v = .null
  required : strip (exported lib labels f v) = "" → f.nullable = false →
    ∀ w, defaultFor lib D f = .ok w → w = .null ∨ w = v
  told : strip (exported lib labels f v) ≠ "" →
    match kindOf f.dataType with
    | .verbatim => strip (exported lib labels f v) = exported lib labels f v
    | .reference => ∀ w, coerceReference lib (resolverOf D f) (strip (exported lib labels f v)) = .ok w → w = v
    | .json => ∀ j, lib.loads (strip (exported lib labels f v)) = .ok j → lib.dumps j = exported lib labels f v
    | .tags => lib.dumps (.arr ((tagParts (strip (exported lib labels f v))).map .str)) = exported lib labels f v
    | .printed => True

section Cell

variable {lib : CoerceLib} {D : Directory} {labels : LabelMaps} {f : MetaField} {v w : Value}

theorem exported_null : exported lib labels f .null = "" := by
  simp only [exported,listCell,if_true]
  split <;> rfl

theorem ne_null_of_nonblank (h : strip (exported lib labels f v) ≠ "") : v ≠ .null := by
  rintro rfl
  rw [exported_null] at h
  exact h rfl

theorem exported_plain (hlabels : labels.lookup f.physName = none) (hbool : f.dataType ≠ .boolean) (hv : v ≠ .null) :
    exported lib labels f v = lib.str v := by
  simp [exported,listCell,hlabels,hbool,hv]

theorem exported_bool (hlabels : labels.lookup f.physName = none) (hbool : f.dataType = .boolean) (hv : v ≠ .null) :
    exported lib labels f v = if v.truthy then "yes" else "no" := by
  simp [exported,listCell,hlabels,hbool,hv]

theorem checkRange_ok (h : checkRange lib f v = .ok w) : w = v := by
  simp only [checkRange] at h
  split at h
  · cases h
  · cases hbound : checkBound lib (fun x limit => limit.lt x) "<=" f.maxValue v with
    | error e =>
      rw [hbound] at h
      cases h
    | ok u =>
      rw [hbound] at h
      exact (Except.ok.inj h).symm

/-- An accepted cell that is not blank went through the parser of its type. -/
theorem coerceValue_ok {resolver : Option Resolver} {text : String} (hblank : strip text ≠ "")
    (h : coerceValue lib f resolver (some text) = .ok w) : coerceTyped lib f resolver (strip text) = some (.ok w) := by
  have hcell : strip ((some text).getD "") = strip text := rfl
  exact (coerceValue_parsed hcell hblank).mp h

theorem coerceValue_blank {resolver : Option Resolver} {text : String} (hblank : strip text = "") :
    coerceValue lib f resolver (some text) = .ok .null := by
  simp [coerceValue,hblank]

/-- What a field makes of a cell: its value, or for a blank cell of a required field the default. -/
theorem fieldValue_cases {text : String} (h : fieldValue lib D f (some text) = .ok (.ok w)) :
    (coerceValue lib f (resolverOf D f) (some text) = .ok w ∧ (w = .null → f.nullable = true)) ∨
      (coerceValue lib f (resolverOf D f) (some text) = .ok .null ∧ f.nullable = false ∧ defaultFor lib D f = .ok w ∧
        w ≠ .null) := by
  simp only [fieldValue] at h
  cases hcoerce : coerceValue lib f (resolverOf D f) (some text) with
  | error e =>
    rw [hcoerce] at h
    cases e <;> cases h
  | ok u =>
    rw [hcoerce] at h
    by_cases hrequired : u = .null ∧ f.nullable = false
    · right
      simp only [hrequired,and_self,if_true] at h
      cases hdefault : defaultFor lib D f with
      | error e =>
        rw [hdefault] at h
        cases h
      | ok d =>
        simp only [hdefault,Except.ok.injEq] at h
        split at h
        · cases h
        · rename_i hd
          obtain rfl := Except.ok.inj h
          exact ⟨by rw [hrequired.1],hrequired.2,rfl,hd⟩
    · left
      simp only [hrequired,if_false,Except.ok.injEq] at h
      subst h
      refine ⟨rfl,fun hnull => ?_⟩
      by_contra hstrict
      exact hrequired ⟨hnull,by simpa using hstrict⟩

theorem coerceEnum_ok {raw : String} (h : coerceEnum lib f raw = .ok w) : w = .text raw := by
  have hrefused : ∀ names, notOffered names ≠ .ok w := fun names heq => by cases heq
  simp only [coerceEnum] at h
  split at h
  · cases h
  · split at h
    · exact (Except.ok.inj h).symm
    · rename_i items _ _
      cases htexts : textsOf items with
      | error e =>
        rw [htexts] at h
        cases h
      | ok names =>
        rw [htexts] at h
        exact absurd h (hrefused names)
  · split at h
    · exact (Except.ok.inj h).symm
    · exact absurd h (hrefused _)
  · split at h
    · exact (Except.ok.inj h).symm
    · exact absurd h (hrefused _)
  · cases h

theorem coerceMatch_ok {pattern message raw : String} (h : coerceMatch lib pattern message raw = .ok w) : w = .text raw := by
  simp only [coerceMatch] at h
  split at h
  · cases h
  · exact (Except.ok.inj h).symm
  · cases h

/-- A text that is accepted is the value. -/
theorem coerceTyped_verbatim {resolver : Option Resolver} {raw : String} (hkind : kindOf f.dataType = .verbatim)
    (h : coerceTyped lib f resolver raw = some (.ok w)) : w = .text raw := by
  have htext : (checkText lib f raw).map (fun _ => Value.text raw) = .ok w → w = .text raw := by
    intro hmap
    cases hcheck : checkText lib f raw with
    | error e =>
      rw [hcheck] at hmap
      cases hmap
    | ok u =>
      rw [hcheck] at hmap
      exact (Except.ok.inj hmap).symm
  cases htype : f.dataType with
  | string | text | markdown =>
    simp only [coerceTyped,htype] at h
    exact htext (Option.some.inj h)
  | enum =>
    simp only [coerceTyped,htype] at h
    exact coerceEnum_ok (Option.some.inj h)
  | email | url | phone =>
    simp only [coerceTyped,htype] at h
    exact coerceMatch_ok (Option.some.inj h)
  | autonumber =>
    simp only [coerceTyped,htype] at h
    exact (Except.ok.inj (Option.some.inj h)).symm
  | _ =>
    rw [htype] at hkind
    cases hkind

theorem coerceTyped_reference {resolver : Option Resolver} {raw : String} (hkind : kindOf f.dataType = .reference) :
    coerceTyped lib f resolver raw = some (coerceReference lib resolver raw) := by
  cases htype : f.dataType with
  | user | company | relation => simp only [coerceTyped,htype]
  | _ =>
    rw [htype] at hkind
    cases hkind

theorem dataType_json (hkind : kindOf f.dataType = .json) : f.dataType = .json := by
  cases htype : f.dataType with
  | json => rfl
  | _ =>
    rw [htype] at hkind
    cases hkind

theorem dataType_tags (hkind : kindOf f.dataType = .tags) : f.dataType = .tags := by
  cases htype : f.dataType with
  | tags => rfl
  | _ =>
    rw [htype] at hkind
    cases hkind

theorem parsed_ok {α : Type} {parser raw : String} {r : Option α} {x : α} (h : parsed lib parser raw r = .ok x) : r = some x := by
  cases r with
  | none => cases h
  | some y => rw [Except.ok.inj h]

/-- The other types have one text for each value, and read it back. -/
theorem coerceTyped_printed {resolver : Option Resolver} (htyped : typed f.dataType v = true) (hv : v ≠ .null)
    (hprinted : Printed lib v) (hbool : f.dataType ≠ .boolean) (hkind : kindOf f.dataType = .printed)
    (h : coerceTyped lib f resolver (lib.str v) = some (.ok w)) : w = v := by
  have hint : ∀ n, v = .int n → coerceInt lib (lib.str v) = .ok (.int n) := by
    rintro n rfl
    have hread := (hprinted fun s hs => by cases hs).2.2
    simp only [coerceInt,hread]
    rfl
  cases htype : f.dataType with
  | integer | bigint =>
    rw [htype] at htyped
    cases v with
    | int n =>
      simp only [coerceTyped,htype,hint n rfl] at h
      exact checkRange_ok (Option.some.inj h)
    | null => exact absurd rfl hv
    | _ => simp [typed,kindOf,CellKind.isText] at htyped
  | decimal | currency | percent =>
    rw [htype] at htyped
    cases v with
    | decimal d =>
      have hread := (hprinted fun s hs => by cases hs).2.2
      simp only [coerceTyped,htype,coerceDecimal,hread] at h
      exact checkRange_ok (Option.some.inj h)
    | null => exact absurd rfl hv
    | _ => simp [typed,kindOf,CellKind.isText] at htyped
  | float =>
    rw [htype] at htyped
    cases v with
    | float x =>
      have hread := (hprinted fun s hs => by cases hs).2.2
      simp only [coerceTyped,htype,coerceFloat,hread,parsed] at h
      exact checkRange_ok (Option.some.inj h)
    | null => exact absurd rfl hv
    | _ => simp [typed,kindOf,CellKind.isText] at htyped
  | date =>
    rw [htype] at htyped
    cases v with
    | date d =>
      have hread := (hprinted fun s hs => by cases hs).2.2
      simp only [coerceTyped,htype,hread,parsed] at h
      exact (Except.ok.inj (Option.some.inj h)).symm
    | null => exact absurd rfl hv
    | _ => simp [typed,kindOf,CellKind.isText] at htyped
  | datetime =>
    rw [htype] at htyped
    cases v with
    | datetime t =>
      have hread := (hprinted fun s hs => by cases hs).2.2
      simp only [coerceTyped,htype,parseDatetime,hread,Option.some_or] at h
      exact (Except.ok.inj (Option.some.inj h)).symm
    | null => exact absurd rfl hv
    | _ => simp [typed,kindOf,CellKind.isText] at htyped
  | time =>
    rw [htype] at htyped
    cases v with
    | time t =>
      have hread := (hprinted fun s hs => by cases hs).2.2
      simp only [coerceTyped,htype] at h
      obtain ⟨t',hparsed,rfl⟩ := Biggy.Outcome.map_ok (Option.some.inj h)
      rw [hread t' (parsed_ok hparsed)]
    | null => exact absurd rfl hv
    | _ => simp [typed,kindOf,CellKind.isText] at htyped
  | formula | file | image =>
    simp only [coerceTyped,htype] at h
    cases h
  | boolean => exact absurd htype hbool
  | _ =>
    rw [htype] at hkind
    cases hkind

theorem coerceTags_ok {raw : String} (h : coerceTags lib f raw = .ok w) :
    w = .text (lib.dumps (.arr ((tagParts raw).map .str))) := by
  simp only [coerceTags] at h
  split at h
  · cases h
  · split at h
    · cases h
    · split at h
      · cases h
      · exact (Except.ok.inj h).symm

/-- What is known of a stored value of a field: the type of its column, that labels are shown
for relations only, and how Python prints and reads such a value. -/
structure Stored (lib : CoerceLib) (labels : LabelMaps) (f : MetaField) (v : Value) : Prop where
  typed : typed f.dataType v = true
  printed : Printed lib v
  labelled : f.dataType ≠ .relation → labels.lookup f.physName = none
  words : lib.lowercase "yes" = "yes" ∧ lib.lowercase "no" = "no"

theorem ne_boolean (hkind : kindOf f.dataType ≠ .printed) : f.dataType ≠ .boolean := by
  intro htype
  rw [htype] at hkind
  exact hkind rfl

theorem ne_relation (hkind : kindOf f.dataType ≠ .reference) : f.dataType ≠ .relation := by
  intro htype
  rw [htype] at hkind
  exact hkind rfl

/-- The columns of these types hold texts, which are written as they are. -/
theorem Stored.text (hs : Stored lib labels f v) (hv : v ≠ .null) (hkind : (kindOf f.dataType).isText = true) :
    v = .text (exported lib labels f v) := by
  have htyped := hs.typed
  have hprinted : kindOf f.dataType ≠ .printed := fun heq => by rw [heq] at hkind; cases hkind
  have hreference : kindOf f.dataType ≠ .reference := fun heq => by rw [heq] at hkind; cases hkind
  rw [exported_plain (hs.labelled (ne_relation hreference)) (ne_boolean hprinted) hv]
  cases v with
  | text s => rfl
  | null => exact absurd rfl hv
  | _ =>
    simp only [Importer.typed,List.mem_cons,List.not_mem_nil,or_false,decide_eq_true_eq] at htyped
    exfalso
    revert hkind
    grind [kindOf,CellKind.isText]

/-- The columns of the other types hold no texts. -/
theorem Stored.no_text (hs : Stored lib labels f v) (hkind : (kindOf f.dataType).isText = false)
    (hformula : f.dataType ≠ .formula) (s : String) : v ≠ .text s := by
  rintro rfl
  have htyped := hs.typed
  simp [Importer.typed,hkind,hformula] at htyped

theorem Stored.nonblank_bool (hs : Stored lib labels f v) (hv : v ≠ .null) (hbool : f.dataType = .boolean) :
    strip (exported lib labels f v) = exported lib labels f v ∧ exported lib labels f v ≠ "" ∧
      ∀ u, coerceBool lib (exported lib labels f v) = .ok u → u = .bool v.truthy := by
  rw [exported_bool (hs.labelled (by rw [hbool]; decide)) hbool hv]
  cases v.truthy with
  | true =>
    refine ⟨rfl,by decide,?_⟩
    intro u h
    simp only [coerceBool,if_true,hs.words.1] at h
    exact (Except.ok.inj h).symm
  | false =>
    refine ⟨rfl,by decide,?_⟩
    intro u h
    simp only [coerceBool,Bool.false_eq_true,if_false,hs.words.2] at h
    exact (Except.ok.inj h).symm

theorem readBack_of_ne (hbool : f.dataType ≠ .boolean) : readBack f v = v := by simp [readBack,hbool]

/-- What the parsers make of the cell of a stored value. -/
inductive ReadAs (lib : CoerceLib) (D : Directory) (labels : LabelMaps) (f : MetaField) (v : Value) : Value → Prop
  | verbatim : kindOf f.dataType = .verbatim → ReadAs lib D labels f v (.text (strip (exported lib labels f v)))
  | reference {u : Value} : kindOf f.dataType = .reference →
      coerceReference lib (resolverOf D f) (strip (exported lib labels f v)) = .ok u → ReadAs lib D labels f v u
  | json {j : Json} : kindOf f.dataType = .json → lib.loads (strip (exported lib labels f v)) = .ok j →
      ReadAs lib D labels f v (.text (lib.dumps j))
  | tags : kindOf f.dataType = .tags →
      ReadAs lib D labels f v (.text (lib.dumps (.arr ((tagParts (strip (exported lib labels f v))).map .str))))
  | printed : kindOf f.dataType = .printed → ReadAs lib D labels f v (readBack f v)

theorem coerceTyped_cases (hs : Stored lib labels f v) (hv : v ≠ .null)
    (h : coerceTyped lib f (resolverOf D f) (strip (exported lib labels f v)) = some (.ok w)) :
    ReadAs lib D labels f v w := by
  cases hkind : kindOf f.dataType with
  | verbatim =>
    rw [coerceTyped_verbatim hkind h]
    exact .verbatim hkind
  | reference =>
    rw [coerceTyped_reference hkind] at h
    exact .reference hkind (Option.some.inj h)
  | json =>
    simp only [coerceTyped,dataType_json hkind] at h
    obtain ⟨j,hload,rfl⟩ := Biggy.Outcome.map_ok (Option.some.inj h)
    exact .json hkind hload
  | tags =>
    simp only [coerceTyped,dataType_tags hkind] at h
    rw [coerceTags_ok (Option.some.inj h)]
    exact .tags hkind
  | printed =>
    have hread : w = readBack f v := by
      by_cases hbool : f.dataType = .boolean
      · obtain ⟨hstrip,-,hread⟩ := hs.nonblank_bool hv hbool
        simp only [coerceTyped,hbool] at h
        rw [hstrip] at h
        rw [hread w (Option.some.inj h),readBack,if_pos ⟨hbool,hv⟩]
      by_cases hformula : f.dataType = .formula
      · simp only [coerceTyped,hformula] at h
        cases h
      have hnotext := hs.no_text (by rw [hkind]; rfl) hformula
      have hrelation : f.dataType ≠ .relation := ne_relation (by rw [hkind]; decide)
      rw [exported_plain (hs.labelled hrelation) hbool hv,(hs.printed hnotext).1] at h
      rw [readBack_of_ne hbool]
      exact coerceTyped_printed hs.typed hv hs.printed hbool hkind h
    rw [hread]
    exact .printed hkind

/-- A kept value is read back. -/
theorem ReadAs.kept (h : ReadAs lib D labels f v w) (hs : Stored lib labels f v) (hv : v ≠ .null)
    (hblank : strip (exported lib labels f v) ≠ "") (hkept : Kept lib D labels f v) : w = readBack f v := by
  have htold := hkept.told hblank
  cases h with
  | verbatim hkind =>
    simp only [hkind] at htold
    rw [readBack_of_ne (ne_boolean (by rw [hkind]; decide)),htold]
    exact (hs.text hv (by rw [hkind]; rfl)).symm
  | reference hkind hok =>
    simp only [hkind] at htold
    rw [readBack_of_ne (ne_boolean (by rw [hkind]; decide))]
    exact htold w hok
  | json hkind hload =>
    simp only [hkind] at htold
    rw [readBack_of_ne (ne_boolean (by rw [hkind]; decide)),htold _ hload]
    exact (hs.text hv (by rw [hkind]; rfl)).symm
  | tags hkind =>
    simp only [hkind] at htold
    rw [readBack_of_ne (ne_boolean (by rw [hkind]; decide)),htold]
    exact (hs.text hv (by rw [hkind]; rfl)).symm
  | printed => rfl

/-- A value that is read back unchanged is kept. -/
theorem ReadAs.to_kept (h : ReadAs lib D labels f v w) (hs : Stored lib labels f v) (hv : v ≠ .null)
    (hblank : strip (exported lib labels f v) ≠ "") (hw : kindOf f.dataType ≠ .printed → w = v) : Kept lib D labels f v := by
  refine ⟨fun hempty => absurd hempty hblank,fun hempty => absurd hempty hblank,fun _ => ?_⟩
  cases h with
  | verbatim hkind =>
    simp only [hkind]
    exact Value.text.inj ((hw (by rw [hkind]; decide)).trans (hs.text hv (by rw [hkind]; rfl)))
  | reference hkind hok =>
    simp only [hkind]
    intro u hu
    rw [← hw (by rw [hkind]; decide)]
    exact Except.ok.inj (hu.symm.trans hok)
  | json hkind hload =>
    simp only [hkind]
    intro j hj
    obtain rfl := Except.ok.inj (hj.symm.trans hload)
    exact Value.text.inj ((hw (by rw [hkind]; decide)).trans (hs.text hv (by rw [hkind]; rfl)))
  | tags hkind =>
    simp only [hkind]
    exact Value.text.inj ((hw (by rw [hkind]; decide)).trans (hs.text hv (by rw [hkind]; rfl)))
  | printed hkind => simp only [hkind]

/-- A kept value is read back from its cell, when the cell is accepted. -/
theorem fieldValue_kept (hs : Stored lib labels f v) (hkept : Kept lib D labels f v)
    (h : fieldValue lib D f (some (exported lib labels f v)) = .ok (.ok w)) : w = readBack f v := by
  by_cases hblank : strip (exported lib labels f v) = ""
  · have hback : readBack f v = v := by
      by_cases hbool : f.dataType = .boolean
      · have hnull : v = .null := by
          by_contra hv
          obtain ⟨hstrip,hne,-⟩ := hs.nonblank_bool hv hbool
          exact hne (hstrip.symm.trans hblank)
        simp [readBack,hnull]
      · exact readBack_of_ne hbool
    rw [hback]
    rcases fieldValue_cases h with ⟨hcoerce,hnull⟩ | ⟨-,hstrict,hdefault,hne⟩
    · obtain rfl := Except.ok.inj (hcoerce.symm.trans (coerceValue_blank hblank))
      exact (hkept.blank hblank (hnull rfl)).symm
    · exact (hkept.required hblank hstrict w hdefault).resolve_left hne
  · have hv : v ≠ .null := ne_null_of_nonblank hblank
    have hread : ∀ u, coerceValue lib f (resolverOf D f) (some (exported lib labels f v)) = .ok u → u = readBack f v :=
      fun u hu => (coerceTyped_cases hs hv (coerceValue_ok hblank hu)).kept hs hv hblank hkept
    rcases fieldValue_cases h with ⟨hcoerce,-⟩ | ⟨hcoerce,-⟩
    · exact hread w hcoerce
    · have hnull : readBack f v = .null := (hread .null hcoerce).symm
      simp only [readBack] at hnull
      split at hnull
      · cases hnull
      · exact absurd hnull hv

/-- The column of a field gives back the texts and references that are written to it, is empty
only when nothing is written, and no record it could refer to has an empty key. -/
structure Exact (lib : CoerceLib) (E : Engine) (D : Directory) (f : MetaField) : Prop where
  same : kindOf f.dataType ≠ .printed → ∀ u, E.adapt f.physName u = u
  null : ∀ u, E.adapt f.physName u = .null ↔ u = .null
  keyed : ∀ raw, coerceReference lib (resolverOf D f) raw ≠ .ok .null

theorem readBack_ne_null (hv : v ≠ .null) : readBack f v ≠ .null := by
  intro hnull
  simp only [readBack] at hnull
  split at hnull
  · cases hnull
  · exact hv hnull

/-- A blank cell of a stored value comes from a text or a label. -/
theorem Stored.not_printed (hs : Stored lib labels f v) (hv : v ≠ .null) (hformula : f.dataType ≠ .formula)
    (hblank : strip (exported lib labels f v) = "") : kindOf f.dataType ≠ .printed := by
  intro hkind
  by_cases hbool : f.dataType = .boolean
  · obtain ⟨hstrip,hfull,-⟩ := hs.nonblank_bool hv hbool
    exact hfull (hstrip.symm.trans hblank)
  have hrelation : f.dataType ≠ .relation := ne_relation (by rw [hkind]; decide)
  obtain ⟨hstrip,hfull,-⟩ := hs.printed (hs.no_text (by rw [hkind]; rfl) hformula)
  rw [exported_plain (hs.labelled hrelation) hbool hv] at hblank
  exact hfull (hstrip.symm.trans hblank)

theorem defaultFor_formula (hformula : f.dataType = .formula) : defaultFor lib D f = .ok .null := by
  simp only [defaultFor]
  split
  · rfl
  · rfl
  · rename_i text _ _
    by_cases hblank : strip text = ""
    · rw [coerceValue_blank hblank]
    · have hrefused : ∃ message, coerceValue lib f (resolverOf D f) (some text) = .error (.valueError message) := by
        simp [coerceValue,hblank,coerceTyped,hformula]
      obtain ⟨message,hmessage⟩ := hrefused
      rw [hmessage]

theorem kept_of_blank (hblank : strip (exported lib labels f v) = "") (hnull : f.nullable = true → v = .null)
    (hdefault : f.nullable = false → ∀ w, defaultFor lib D f = .ok w → w = .null ∨ w = v) : Kept lib D labels f v :=
  ⟨fun _ => hnull,fun _ => hdefault,fun h => absurd hblank h⟩

/-- A value whose cell is accepted and comes back from the column is kept. -/
theorem kept_of_adapt {E : Engine} (hs : Stored lib labels f v) (hexact : Exact lib E D f)
    (h : fieldValue lib D f (some (exported lib labels f v)) = .ok (.ok w)) (hw : E.adapt f.physName w = v) :
    Kept lib D labels f v := by
  have hsame : kindOf f.dataType ≠ .printed → w = v := fun hkind => (hexact.same hkind w).symm.trans hw
  by_cases hblank : strip (exported lib labels f v) = ""
  · rcases fieldValue_cases h with ⟨hcoerce,hnull⟩ | ⟨-,hstrict,hdefault,hne⟩
    · obtain rfl := Except.ok.inj (hcoerce.symm.trans (coerceValue_blank hblank))
      apply kept_of_blank hblank
      · intro _
        rw [← hw,(hexact.null .null).mpr rfl]
      · intro hstrict
        rw [hnull rfl] at hstrict
        cases hstrict
    · apply kept_of_blank hblank
      · intro hnullable
        rw [hnullable] at hstrict
        cases hstrict
      · intro _ u hu
        obtain rfl := Except.ok.inj (hu.symm.trans hdefault)
        right
        have hv : v ≠ .null := by
          rintro rfl
          exact hne ((hexact.null u).mp hw)
        apply hsame
        apply hs.not_printed hv ?_ hblank
        intro hformula
        exact hne (Except.ok.inj (hdefault.symm.trans (defaultFor_formula hformula)))
  · have hv : v ≠ .null := ne_null_of_nonblank hblank
    rcases fieldValue_cases h with ⟨hcoerce,-⟩ | ⟨hcoerce,-⟩
    · exact (coerceTyped_cases hs hv (coerceValue_ok hblank hcoerce)).to_kept hs hv hblank hsame
    · have hread := coerceTyped_cases hs hv (coerceValue_ok hblank hcoerce)
      generalize hnull : Value.null = u at hread
      exfalso
      cases hread with
      | verbatim | json | tags => cases hnull
      | reference _ hok => exact hexact.keyed _ (hnull ▸ hok)
      | printed => exact readBack_ne_null hv hnull.symm

/-- A text without white space around it is kept. -/
theorem kept_text {s : String} (hkind : kindOf f.dataType = .verbatim) (hlabels : labels.lookup f.physName = none)
    (hstrip : strip s = s) (hs : s ≠ "") : Kept lib D labels f (.text s) := by
  have hbool : f.dataType ≠ .boolean := ne_boolean (by rw [hkind]; decide)
  have htext : exported lib labels f (.text s) = s := exported_plain hlabels hbool (by simp)
  have hblank : strip (exported lib labels f (.text s)) ≠ "" := by rwa [htext,hstrip]
  refine ⟨fun hempty => absurd hempty hblank,fun hempty => absurd hempty hblank,fun _ => ?_⟩
  simp only [hkind,htext]
  exact hstrip

end Cell

end Importer
end Biggy
