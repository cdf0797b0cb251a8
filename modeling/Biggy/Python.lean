import Mathlib.Data.Rat.Defs
import Mathlib.Data.List.Basic
import Mathlib.Data.List.DropRight
import Mathlib.Tactic.Common

/-!
# Python values

The values that travel through rows, request bodies and JSON columns, with the
few operations on them that the modelled functions use. A naive UTC `datetime`
counts the microseconds since the start of year 1, a `timedelta` any number of them.
-/
namespace Biggy

/-- `timedelta(seconds=n)` in microseconds. -/
def seconds (n : ℤ) : ℤ := n*1000000

/-- `timedelta(minutes=n)` in microseconds. -/
def minutes (n : ℤ) : ℤ := n*60000000

theorem seconds_mul_sixty (n : ℤ) : seconds (n*60) = minutes n := by
  simp only [seconds,minutes]
  omega

@[simp] theorem seconds_pos (n : ℤ) : 0 < seconds n ↔ 0 < n := by
  simp only [seconds]
  omega

@[simp] theorem minutes_pos (n : ℤ) : 0 < minutes n ↔ 0 < n := by
  simp only [minutes]
  omega

@[simp] theorem lt_add_seconds (t n : ℤ) : t < t + seconds n ↔ 0 < n := by
  simp only [seconds]
  omega

@[simp] theorem lt_add_minutes (t n : ℤ) : t < t + minutes n ↔ 0 < n := by
  simp only [minutes]
  omega

/-- The last `datetime`: the end of year 9999. -/
def maxDatetime : ℤ := 3652059*86400000000-1

inductive PyFloat
  | finite (q : ℚ) | posInf | negInf | nan
  deriving DecidableEq

inductive PyDecimal
  | finite (negative : Bool) (coefficient : ℕ) (exponent : ℤ)
  | infinity (negative : Bool)
  | nan (signaling : Bool)
  deriving DecidableEq

inductive Value
  | null
  | bool (b : Bool)
  | int (n : ℤ)
  | float (x : PyFloat)
  | decimal (d : PyDecimal)
  | text (s : String)
  | date (days : ℤ)
  | datetime (t : ℤ)
  | time (t : ℤ)
  deriving DecidableEq

/-- `float.__lt__`. -/
def PyFloat.lt : PyFloat → PyFloat → Bool
  | .nan, _ => false
  | _, .nan => false
  | .posInf, _ => false
  | .finite _, .posInf => true
  | .negInf, .posInf => true
  | .finite a, .finite b => decide (a < b)
  | .negInf, .finite _ => true
  | _, .negInf => false

def PyFloat.isZero : PyFloat → Bool
  | .finite q => decide (q = 0)
  | _ => false

def PyFloat.isOne : PyFloat → Bool
  | .finite q => decide (q = 1)
  | _ => false

def PyDecimal.isZero : PyDecimal → Bool
  | .finite _ coefficient _ => coefficient == 0
  | _ => false

/-- The value of a finite decimal. -/
def PyDecimal.toRat : PyDecimal → Option ℚ
  | .finite negative coefficient exponent =>
    let magnitude : ℚ := coefficient * (10:ℚ)^exponent
    some (if negative then -magnitude else magnitude)
  | _ => none

/-- `bool(value)`. -/
def Value.truthy : Value → Bool
  | .null => false
  | .bool b => b
  | .int n => n != 0
  | .float x => !x.isZero
  | .decimal d => !d.isZero
  | .text s => s != ""
  | _ => true

/-- `value == 1`. -/
def Value.eqOne : Value → Bool
  | .bool b => b
  | .int n => n == 1
  | .float x => x.isOne
  | .decimal d => decide (d.toRat = some 1)
  | _ => false

/-- `value in (False, 0)`. -/
def Value.eqZero : Value → Bool
  | .bool b => !b
  | .int n => n == 0
  | .float x => x.isZero
  | .decimal d => d.isZero
  | _ => false

/-- `value in (None, "")`. -/
def Value.blank : Value → Bool
  | .null => true
  | .text s => s == ""
  | _ => false

@[simp] theorem Value.blank_null : Value.null.blank = true := rfl
@[simp] theorem Value.blank_text (s : String) : (Value.text s).blank = (s == "") := rfl

/-- The exceptions that the modelled functions tell apart. -/
inductive PyError
  | valueError (message : String)
  | typeError
  | overflowError
  | recursionError
  | attributeError
  | invalidOperation
  | keyError
  | reError
  | csvError (message : String)
  deriving DecidableEq

/-- `str.isspace` of one character. -/
def isSpace (c : Char) : Bool :=
  let n := c.toNat
  (9 ≤ n && n ≤ 13) || (28 ≤ n && n ≤ 32) || n == 0x85 || n == 0xA0 || n == 0x1680 ||
    (0x2000 ≤ n && n ≤ 0x200A) || n == 0x2028 || n == 0x2029 || n == 0x202F ||
    n == 0x205F || n == 0x3000

/-- `str.strip()`. -/
def strip (s : String) : String :=
  String.ofList (((s.toList.dropWhile isSpace).reverse.dropWhile isSpace).reverse)

theorem dropWhile_of_prefix {α : Type*} {p : α → Bool} {xs ys : List α} (h : xs <+: ys) (hys : ys.dropWhile p = ys) :
    xs.dropWhile p = xs := by
  cases xs with
  | nil => rfl
  | cons x xs =>
    obtain ⟨rest,rfl⟩ := h
    have hx : ¬p x = true := by simpa using List.dropWhile_eq_self_iff.mp hys (by simp)
    exact List.dropWhile_cons_of_neg hx

theorem strip_strip (s : String) : strip (strip s) = strip s := by
  have htrim : ∀ s : String, strip s = String.ofList ((s.toList.dropWhile isSpace).rdropWhile isSpace) := fun s => rfl
  rw [htrim (strip s),htrim s,String.toList_ofList,
    dropWhile_of_prefix (List.rdropWhile_prefix _ _) (List.dropWhile_idempotent _ _),List.rdropWhile_idempotent]

/-- `s[:n]`. -/
def clip (n : ℕ) (s : String) : String := String.ofList (s.toList.take n)

/-- `str.split(sep)` for a one-character separator. -/
def splitOn (sep : Char) (s : String) : List String :=
  (s.toList.splitOn sep).map String.ofList

/-- What ends a line for `str.splitlines`. -/
def isLineBreak (c : Char) : Bool := [10,11,12,13,28,29,30,0x85,0x2028,0x2029].contains c.toNat

/-- The lines of what is left, with what the current line has so far, backwards; a line feed after a carriage return ends no
line of its own. -/
def linesFrom (line : List Char) (carriage : Bool) : List Char → List (List Char)
  | [] => if line = [] then [] else [line.reverse]
  | c::cs =>
    if carriage && c == '\n' then linesFrom line false cs
    else if isLineBreak c then line.reverse::linesFrom [] (c == '\r') cs
    else linesFrom (c::line) false cs

/-- `str.splitlines()`. -/
def splitlines (s : String) : List String := (linesFrom [] false s.toList).map String.ofList

/-- `sub in s`. -/
def isIn (sub s : String) : Bool :=
  s.toList.tails.any fun suffix => sub.toList.isPrefixOf suffix

/-- `str.lower()` for the letters that the modelled literals contain. -/
def lower (s : String) : String := String.ofList (s.toList.map Char.toLower)

theorem toLower_cases (c : Char) : c.toLower = c ∨ 65 ≤ c.toNat ∧ c.toNat ≤ 90 ∧ c.toLower.toNat = c.toNat+32 := by
  by_cases h : c.val ≥ 'A'.val ∧ c.val ≤ 'Z'.val
  · right
    have hlow : 65 ≤ c.toNat := h.1
    have hhigh : c.toNat ≤ 90 := h.2
    have hshift : ('a'.val- 'A'.val).toNat = 32 := by decide
    have hval : c.toLower.val = c.val+('a'.val- 'A'.val) := by
      delta Char.toLower
      rw [dif_pos h]
    refine ⟨hlow,hhigh,?_⟩
    simp only [Char.toNat] at *
    rw [hval,UInt32.toNat_add,hshift]
    omega
  · left
    delta Char.toLower
    exact dif_neg h

theorem isSpace_letter {c : Char} (hlow : 65 ≤ c.toNat) (hhigh : c.toNat ≤ 122) : isSpace c = false := by
  simp only [isSpace,Bool.or_eq_false_iff,Bool.and_eq_false_iff,decide_eq_false_iff_not,beq_eq_false_iff_ne]
  omega

theorem isSpace_toLower (c : Char) : isSpace c.toLower = isSpace c := by
  rcases toLower_cases c with hsame | ⟨hlow,hhigh,hlower⟩
  · rw [hsame]
  · rw [isSpace_letter hlow (by omega),isSpace_letter (by omega) (by omega)]

theorem isSpace_of_toLower (c d : Char) (h : c.toLower = d.toLower) : isSpace c = isSpace d := by
  rw [← isSpace_toLower c,h,isSpace_toLower]

/-- `s.startswith(prefix)`. -/
def startsWith (s start : String) : Bool := start.toList.isPrefixOf s.toList

/-- `s.endswith(suffix)`. -/
def endsWith (s ending : String) : Bool := ending.toList.isSuffixOf s.toList

/-- What `json.loads` returns; the first member of a name counts. -/
inductive Json
  | null
  | bool (b : Bool)
  | int (n : ℤ)
  | float (x : PyFloat)
  | str (s : String)
  | arr (items : List Json)
  | obj (members : List (String × Json))

def Json.truthy : Json → Bool
  | .null => false
  | .bool b => b
  | .int n => n != 0
  | .float x => !x.isZero
  | .str s => s != ""
  | .arr items => !items.isEmpty
  | .obj members => !members.isEmpty

/-- `level.get(name)`. -/
def Json.get (members : List (String × Json)) (name : String) : Json := (members.lookup name).getD .null

theorem Json.lookup_of_get {members : List (String × Json)} {key : String} {value : Json} (h : Json.get members key = value)
    (hvalue : value ≠ .null) : members.lookup key = some value := by
  cases hlookup : members.lookup key with
  | none =>
    rw [Json.get,hlookup] at h
    exact absurd h.symm hvalue
  | some found =>
    rw [Json.get,hlookup] at h
    exact congrArg some h

/-- The parts of the language that the program calls as they are: `str` of a float, a
decimal, a date or a time, `float`, `int` of a text, `str.isalnum` of a character and
`json.loads`. -/
structure PyLib where
  strOther : Value → String
  float : Value → Option PyFloat
  int : String → Option ℤ
  isAlnum : Char → Bool
  loads : String → Except PyError Json

/-- `str(value)`. -/
def PyLib.str (py : PyLib) : Value → String
  | .null => "None"
  | .bool b => if b then "True" else "False"
  | .int n => toString n
  | .text s => s
  | v => py.strOther v

/-- A Python dict from names to values; the first binding of a name counts. -/
abbrev Values := List (String × Value)

namespace Values

/-- `name in values`. -/
def has (vs : Values) (name : String) : Bool := (vs.lookup name).isSome

/-- `del values[name]`. -/
def del (vs : Values) (name : String) : Values := vs.filter fun p => p.1 != name

/-- `values.update(more)`: the bindings of `more` win. -/
def update (vs more : Values) : Values := more ++ vs

theorem lookup_filter (keep : String → Bool) (vs : Values) (name : String) :
    (vs.filter fun p => keep p.1).lookup name = if keep name then vs.lookup name else none := by
  induction vs with
  | nil => simp
  | cons p vs ih =>
    obtain ⟨key,v⟩ := p
    have hf : List.filter (fun p : String × Value => keep p.1) ((key,v)::vs) =
        if keep key then (key,v)::vs.filter (fun p => keep p.1) else vs.filter fun p => keep p.1 := by
      cases hk : keep key <;> simp [hk]
    rw [hf,List.lookup_cons]
    by_cases hn : name = key
    · subst hn
      cases hk : keep name <;> simp [hk,ih]
    · have hb : (name == key) = false := by simpa using hn
      cases hk : keep key <;> simp [List.lookup_cons,hb,ih]

theorem lookup_singleton (name other : String) (v : Value) :
    ([(name,v)] : Values).lookup other = if other = name then some v else none := by
  rw [List.lookup_cons,List.lookup_nil]
  by_cases h : other = name
  · simp [h]
  · have hb : (other == name) = false := by simpa using h
    simp [h,hb]

@[simp] theorem lookup_update (vs more : Values) (name : String) :
    (vs.update more).lookup name = (more.lookup name).or (vs.lookup name) := by
  simp [update,List.lookup_append]

end Values

/-- A stored row: the value of every column. -/
abbrev Row := String → Value

/-- Overwrite the columns bound in `vs`. -/
def Row.write (row : Row) (vs : Values) : Row := fun column => (vs.lookup column).getD (row column)

theorem Row.write_of_not_mem {row : Row} {vs : Values} {column : String}
    (h : vs.lookup column = none) : row.write vs column = row column := by simp [Row.write,h]

end Biggy
