import Biggy.Coerce
import Biggy.Feeds
import Mathlib.Algebra.Order.Ring.Unbundled.Rat

/-!
# The pull engine

A pull source brings the records of a peer or of a REST endpoint into a local table. Its
cursor is a field of the records, its watermark the text of the last cursor seen: a record
is new when its cursor is greater. Cursors compare by number, by time or by text.
-/
namespace Biggy

/-- What the pull engine calls besides `coerce_value`: `str` of a list or a dict, and
`datetime.fromisoformat(text).timestamp()`, which finds no time or may raise. -/
structure PullLib extends CoerceLib where
  reprJson : Json → String
  timestamp : String → Except PyError (Option PyFloat)

/-- `str(value)` of a decoded value. -/
def PullLib.strJson (lib : PullLib) : Json → String
  | .null => "None"
  | .bool b => if b then "True" else "False"
  | .int n => toString n
  | .float x => lib.strOther (.float x)
  | .str s => s
  | v => lib.reprJson v

namespace Pull

/-- `_dig`, with the path split. -/
def digPath : Json → List String → Json
  | cur, [] => cur
  | .obj members, part::parts =>
    match members.lookup part with
    | some v => digPath v parts
    | none => .null
  | _, _::_ => .null

def dig (record : Json) (path : String) : Json := digPath record (splitOn '.' path)

/-! ### Cursors -/

/-- `cursor.type`. -/
inductive CursorType
  | number | date | string
  deriving DecidableEq

/-- The tuples of `_ckey`. -/
inductive Key
  | absent
  | number (x : PyFloat)
  | text (s : String)
  deriving DecidableEq

/-- `<` of the tuples. -/
def Key.lt : Key → Key → Bool
  | .absent, .absent => false
  | .absent, _ => true
  | .number a, .number b => a.lt b
  | .number _, .text _ => true
  | .text a, .text b => decide (a < b)
  | _, _ => false

theorem float_trans {a b c : PyFloat} (hab : a.lt b = true) (hbc : b.lt c = true) : a.lt c = true := by
  cases a <;> cases b <;> simp only [PyFloat.lt,Bool.false_eq_true,decide_eq_true_eq] at hab <;>
    cases c <;> simp only [PyFloat.lt,Bool.false_eq_true,decide_eq_true_eq] at hbc ⊢
  exact lt_trans hab hbc

theorem Key.trans {a b c : Key} (hab : a.lt b = true) (hbc : b.lt c = true) : a.lt c = true := by
  cases a <;> cases b <;> simp only [Key.lt,Bool.false_eq_true,decide_eq_true_eq] at hab <;>
    cases c <;> simp only [Key.lt,Bool.false_eq_true,decide_eq_true_eq] at hbc ⊢
  · exact float_trans hab hbc
  · exact String.lt_trans hab hbc

theorem float_of_not_lt {a b c : PyFloat} (hb : b ≠ .nan) (hab : ¬a.lt b = true) (hac : a.lt c = true) :
    b.lt c = true := by
  cases a <;> cases c <;> simp only [PyFloat.lt,Bool.false_eq_true,decide_eq_true_eq] at hac <;>
    cases b <;> simp only [PyFloat.lt,ne_eq,reduceCtorEq,not_true_eq_false,decide_eq_true_eq] at hab hb ⊢
  exact lt_of_le_of_lt (le_of_not_gt hab) hac

/-- Keys other than NaN are in order. -/
theorem Key.of_not_lt {a b c : Key} (hb : b ≠ .number .nan) (hab : ¬a.lt b = true) (hac : a.lt c = true) :
    b.lt c = true := by
  cases a <;> cases c <;> simp only [Key.lt,Bool.false_eq_true,decide_eq_true_eq] at hac <;>
    cases b <;> simp only [Key.lt,ne_eq,reduceCtorEq,not_true_eq_false,not_false_eq_true,Key.number.injEq,
      decide_eq_true_eq] at hab hb ⊢
  · exact float_of_not_lt hb hab hac
  · by_contra hcb
    exact String.not_lt.mpr (String.le_trans (String.not_lt.mp hcb) (String.not_lt.mp hab)) hac

section Cursor

variable (lib : PullLib) (ctype : CursorType)

/-- `float(value)`: only an `int` that is out of range raises through. -/
def floatKey (v : Json) : Except PyError (Option PyFloat) :=
  match v with
  | .bool b => .ok (some (.finite (if b then 1 else 0)))
  | .int n => match lib.float (.int n) with | some x => .ok (some x) | none => .error .overflowError
  | .float x => .ok (some x)
  | .str s => .ok (lib.float (.text s))
  | _ => .ok none

/-- `_ckey`. -/
def ckey (v : Json) : Except PyError Key :=
  match v with
  | .null => .ok .absent
  | v =>
    let number : Except PyError (Option PyFloat) :=
      match ctype with
      | .date => lib.timestamp (lib.strJson v)
      | .string => .ok none
      | .number => floatKey lib v
    match number with
    | .error e => .error e
    | .ok (some x) => .ok (.number x)
    | .ok none => .ok (.text (lib.strJson v))

/-- `_greater`. -/
def greater (cursor : Json) (watermark : Option String) : Except PyError Bool :=
  match watermark, cursor with
  | none, _ | some "", _ => .ok true
  | some _, .null => .ok false
  | some w, c =>
    match ckey lib ctype c, ckey lib ctype (.str w) with
    | .error e, _ => .error e
    | _, .error e => .error e
    | .ok kc, .ok kw => .ok (kw.lt kc)

/-- `_advance`. -/
def advance (watermark : Option String) (cursor : Json) : Except PyError (Option String) :=
  match cursor with
  | .null => .ok watermark
  | c => (greater lib ctype c watermark).map fun newer => if newer then some (lib.strJson c) else watermark

/-- What `str` and `float` make of a decoded value: a number reads back from its text,
while the text of a boolean, a list or a dict is no number. -/
def ReadsBack : Json → Prop
  | .int n => ∀ x, lib.float (.int n) = some x → lib.float (.text (toString n)) = some x
  | .float x => lib.float (.text (lib.strOther (.float x))) = some x
  | .bool b => lib.float (.text (lib.strJson (.bool b))) = none
  | .arr items => lib.float (.text (lib.strJson (.arr items))) = none
  | .obj members => lib.float (.text (lib.strJson (.obj members))) = none
  | _ => True

variable {lib ctype}

theorem ckey_ne_null {v : Json} (hv : v ≠ .null) : ckey lib ctype v =
    match (match ctype with | .date => lib.timestamp (lib.strJson v) | .string => .ok none | .number => floatKey lib v) with
    | .error e => .error e
    | .ok (some x) => .ok (.number x)
    | .ok none => .ok (.text (lib.strJson v)) := by
  cases v <;> first | exact absurd rfl hv | rfl

/-- The text of a cursor has the key of the cursor, or, for a boolean, a greater one. -/
theorem ckey_text {v : Json} {k : Key} (hv : v ≠ .null) (hreads : ReadsBack lib v) (hk : ckey lib ctype v = .ok k) :
    ckey lib ctype (.str (lib.strJson v)) = .ok k ∨
      ∃ x s, k = .number x ∧ ckey lib ctype (.str (lib.strJson v)) = .ok (.text s) := by
  have hstr : (Json.str (lib.strJson v)) ≠ .null := by simp
  rw [ckey_ne_null hv] at hk
  rw [ckey_ne_null hstr]
  cases ctype with
  | date => exact Or.inl hk
  | string => exact Or.inl hk
  | number =>
    cases v with
    | null => exact absurd rfl hv
    | bool b =>
      right
      simp only [floatKey,Except.ok.injEq] at hk
      simp only [floatKey,show lib.float (.text (lib.strJson (.bool b))) = none from hreads]
      exact ⟨_,_,hk.symm,rfl⟩
    | int n =>
      left
      cases hfloat : lib.float (.int n) with
      | none => simp [floatKey,hfloat] at hk
      | some x =>
        have htext : lib.float (.text (lib.strJson (.int n))) = some x := hreads x hfloat
        simpa [floatKey,hfloat,htext] using hk
    | float x =>
      left
      have htext : lib.float (.text (lib.strJson (.float x))) = some x := hreads
      simpa [floatKey,htext] using hk
    | str s => exact Or.inl hk
    | arr items =>
      left
      have htext : lib.float (.text (lib.strJson (.arr items))) = none := hreads
      simp only [floatKey,htext] at hk ⊢
      exact hk
    | obj members =>
      left
      have htext : lib.float (.text (lib.strJson (.obj members))) = none := hreads
      simp only [floatKey,htext] at hk ⊢
      exact hk

/-- Without a watermark everything is newer. -/
@[simp] theorem greater_none (c : Json) : greater lib ctype c none = .ok true := rfl

@[simp] theorem greater_empty (c : Json) : greater lib ctype c (some "") = .ok true := rfl

/-- Newer than a watermark means a greater key. -/
theorem greater_eq_true {c : Json} {w : String} (hw : w ≠ "") : greater lib ctype c (some w) = .ok true ↔
    c ≠ .null ∧ ∃ kc kw, ckey lib ctype c = .ok kc ∧ ckey lib ctype (.str w) = .ok kw ∧ kw.lt kc = true := by
  cases hc : c with
  | null => simp [greater]
  | _ =>
    rw [← hc]
    have hnull : c ≠ .null := by simp [hc]
    have hgreater : greater lib ctype c (some w) =
        match ckey lib ctype c, ckey lib ctype (.str w) with
        | .error e, _ => .error e
        | _, .error e => .error e
        | .ok kc, .ok kw => .ok (kw.lt kc) := by
      rw [hc]
      simp [greater]
    rw [hgreater]
    cases ckey lib ctype c <;> cases ckey lib ctype (.str w) <;> simp [hnull]

/-- What is newer than the text of a cursor is newer than all that the cursor is newer than. -/
theorem greater_trans {c f : Json} {w : Option String} (hc : c ≠ .null) (hreads : ReadsBack lib c)
    (hblank : lib.strJson c ≠ "") (hnew : greater lib ctype c w = .ok true)
    (hf : greater lib ctype f (some (lib.strJson c)) = .ok true) : greater lib ctype f w = .ok true := by
  match w with
  | none => rfl
  | some w =>
    by_cases hw : w = ""
    · subst hw
      rfl
    · obtain ⟨-,kc,kw,hkc,hkw,hwc⟩ := (greater_eq_true hw).mp hnew
      obtain ⟨hnull,kf,kt,hkf,hkt,htf⟩ := (greater_eq_true hblank).mp hf
      refine (greater_eq_true hw).mpr ⟨hnull,kf,kw,hkf,hkw,?_⟩
      rcases ckey_text hc hreads hkc with hsame | ⟨x,s,hnumber,htext⟩
      · obtain rfl : kt = kc := Except.ok.inj (hkt.symm.trans hsame)
        exact Key.trans hwc htf
      · obtain rfl : kt = .text s := Except.ok.inj (hkt.symm.trans htext)
        subst hnumber
        have hbelow : (Key.number x).lt (.text s) = true := rfl
        exact Key.trans (Key.trans hwc hbelow) htf

end Cursor

/-! ### From a record to values -/

/-- `_TOKEN.sub` from left to right; the characters after a brace that may still turn out
to be a placeholder stand last one first. -/
def substitute (isPath : Char → Bool) (look : String → List Char) : Option (List Char) → List Char → List Char
  | none, [] => []
  | none, c::cs => if c = '{' then substitute isPath look (some []) cs else c :: substitute isPath look none cs
  | some path, [] => '{' :: path.reverse
  | some path, c::cs =>
    if c = '}' ∧ path ≠ [] then look (String.ofList path.reverse) ++ substitute isPath look none cs
    else if c = '{' then '{' :: path.reverse ++ substitute isPath look (some []) cs
    else if isPath c then substitute isPath look (some (c::path)) cs
    else '{' :: path.reverse ++ c :: substitute isPath look none cs

/-- The transform of one target: a mapping of texts and a default. -/
structure Transform where
  map : List (String × Json) := []
  default : Json := .null

/-- The columns of a pull source that the engine reads. -/
structure PullSource where
  cursorField : Option String
  watermark : Option String
  pageSize : Option ℤ := none
  fieldMap : List Feeds.Mapping := []
  transforms : List (String × Transform) := []
  cursorType : CursorType := .number

/-- `source.page_size or 100`. -/
def PullSource.perPage (source : PullSource) : ℤ :=
  match source.pageSize with
  | none => 100
  | some n => if n = 0 then 100 else n

/-- `source.cursor_field` where the code tests it. -/
def PullSource.cursor (source : PullSource) : Option String := source.cursorField.filter (· ≠ "")

section Mapping

variable (lib : PullLib)

/-- `_as_raw`. -/
def asRaw : Json → Option String
  | .null => none
  | .bool b => some (if b then "true" else "false")
  | .arr items => some (lib.dumps (.arr items))
  | .obj members => some (lib.dumps (.obj members))
  | v => some (lib.strJson v)

/-- `_render_record`. -/
def renderRecord (template : String) (record : Json) : String :=
  String.ofList (substitute (fun c => Triggers.isWord lib.toPyLib c || c == '.')
    (fun path => match dig record path with | .null => [] | v => (lib.strJson v).toList) none template.toList)

/-- The text that the source of a mapping yields. -/
def sourceText (record : Json) (source : Option String) : Option String :=
  match source with
  | some s => if s ≠ "" ∧ isIn "\x7b" s then some (renderRecord lib s record) else asRaw lib (dig record s)
  | none => asRaw lib (dig record "")

def blankJson : Json → Bool
  | .null => true
  | .str s => s == ""
  | _ => false

/-- The text after the transform of its target. -/
def transformed (tr : Transform) (raw : Option String) : Json :=
  let raw : Json := match raw with
    | none => .null
    | some s => (tr.map.lookup s).getD (.str s)
  if blankJson raw then (match tr.default with | .null => raw | v => v) else raw

/-- `_map_record`. -/
def mapRecord (record : Json) (fields : List MetaField) (transforms : List (String × Transform)) :
    List Feeds.Mapping → Except PyError Values
  | [] => .ok []
  | m::ms =>
    match m.target with
    | none => mapRecord record fields transforms ms
    | some target =>
      match Keyed.find MetaField.physName target fields with
      | none => mapRecord record fields transforms ms
      | some field =>
        let raw := transformed ((transforms.lookup target).getD {}) (sourceText lib record m.source)
        if blankJson raw then mapRecord record fields transforms ms
        else
          match Importer.coerceValue lib.toCoerceLib field none (asRaw lib raw) with
          | .error e => .error e
          | .ok v => (mapRecord record fields transforms ms).map fun values => Values.update [(target,v)] values

end Mapping

/-! ### Storing a batch -/

/-- A fetched record with what the database and the record service make of its values:
whether the lookup of a match and the write go through. -/
structure Fetched where
  record : Json
  save : Values → Bool

inductive Fate
  | stored | skipped | raised
  deriving DecidableEq

section Run

variable (lib : PullLib) (fields : List MetaField) (source : PullSource)

/-- What becomes of one record. -/
def fate (f : Fetched) : Fate :=
  match mapRecord lib f.record fields source.transforms source.fieldMap with
  | .error _ => .raised
  | .ok [] => .skipped
  | .ok values => if f.save values then .stored else .raised

/-- The watermark behind one record; an exception on the way leaves it. -/
def afterRecord (watermark : Option String) (f : Fetched) : Option String :=
  match fate lib fields source f, source.cursor with
  | .stored, some cursor =>
    match advance lib source.cursorType watermark (dig f.record cursor) with
    | .ok w => w
    | .error _ => watermark
  | _, _ => watermark

/-- The loop of `run_one` over the fetched records, with the count of the imported ones. -/
def runOne (batch : List Fetched) : PullSource × ℕ :=
  ({ source with watermark := batch.foldl (afterRecord lib fields source) source.watermark },
    batch.countP fun f => fate lib fields source f = .stored)

end Run

end Pull
end Biggy
