import Biggy.Coerce
import Biggy.Csv
import Biggy.Numeral

/-!
# A table from a CSV file

`infer_schema` proposes a type for each column of a file from the cells of its first rows, and the importer turns these cells
into values of that type. `types_hold_iff` says when every cell is taken and kept as it is.
-/
namespace Biggy
namespace SchemaInference

open Numerals Importer

/-! ### Numbers in cells -/

/-- A text of the form `-?\d+(\.\d+)?`; without a point there is no fraction. -/
structure Plain where
  negative : Bool
  whole : List ℕ
  fraction : List ℕ

def takeMinus : List Char → Bool × List Char
  | '-'::cs => (true,cs)
  | cs => (false,cs)

def readPlain (digit : Char → Option ℕ) (s : String) : Option Plain :=
  let (negative,cs) := takeMinus s.toList
  let (whole,cs) := takeDigits digit cs
  if whole = [] then none
  else
    match cs with
    | [] => some ⟨negative,whole,[]⟩
    | c::cs =>
      let (fraction,rest) := takeDigits digit cs
      if c ≠ '.' ∨ fraction = [] ∨ rest ≠ [] then none else some ⟨negative,whole,fraction⟩

def Plain.toInt (p : Plain) : ℤ := if p.negative then -(natOf p.whole : ℤ) else natOf p.whole

/-- The parsers of the standard library on such texts: `\d` is a decimal digit of Unicode, `int` reads at most 4300 digits,
and `Decimal` keeps all of them. -/
structure Lib extends CoerceLib where
  digit : Char → Option ℕ
  digit_lt : ∀ c d, digit c = some d → d < 10
  int_plain : ∀ s p, readPlain digit s = some p → p.fraction = [] → int s = if p.whole.length ≤ 4300 then some p.toInt else none
  decimal_plain : ∀ s p, readPlain digit s = some p →
    decimal s = some (.finite p.negative (natOf (p.whole++p.fraction)) (-p.fraction.length))

/-! ### The proposal -/

/-- The type that is proposed for a column. -/
structure Spec where
  dataType : DataType
  length : Option ℕ := none
  precision : Option ℕ := none
  scale : Option ℕ := none

structure Column where
  header : String
  name : String
  label : String
  spec : Spec

section Inference

variable (lib : Lib)

/-- `re.fullmatch(r"-?\d+", v)`. -/
def isInteger (v : String) : Bool := (readPlain lib.digit v).any fun p => p.fraction.isEmpty

/-- `re.fullmatch(r"-?\d+(\.\d+)?", v)`. -/
def isNumber (v : String) : Bool := (readPlain lib.digit v).isSome

/-- `_parse_datetime_ok`. -/
def parseDatetimeOk (v : String) : Bool := dtFormats.any fun format => (lib.strptime v format).isSome

def longest (values : List String) : ℕ := (values.map String.length).foldr max 0

/-- `_sniff_type`. -/
def sniffType (values : List String) : Spec :=
  if values.all (isInteger lib) then { dataType := .integer }
  else if values.all (isNumber lib) then { dataType := .decimal,precision := some 12,scale := some 2 }
  else if values.all fun v => decide (lib.lowercase v ∈ trueWords++falseWords) then { dataType := .boolean }
  else if values.all fun v => (lib.isoDate v).isSome then { dataType := .date }
  else if values.all (parseDatetimeOk lib) then { dataType := .datetime }
  else if 255 < longest values then { dataType := .text }
  else { dataType := .string,length := some (max 80 (min 255 (longest values*2))) }

def specOf (cells : List String) : Spec :=
  if cells.isEmpty then { dataType := .string,length := some 120 } else sniffType lib cells

/-- The cells of a column that are looked at: those of the first 200 rows that are not blank. -/
def sampled (rows : List (List String)) (i : ℕ) : List String :=
  ((rows.take 200).map fun row => strip (row.getD i "")).filter fun v => decide (v ≠ "")

/-! ### Names of columns -/

def maxLen : ℕ := 60

def reservedPrefixes : List String := ["app_","j_"]

def reservedColumns : List String :=
  ["id","created_by","created_at","updated_by","updated_at","deleted_at","deleted_by"]

def isLower (c : Char) : Bool := decide ('a' ≤ c) && decide (c ≤ 'z')

def isDigit (c : Char) : Bool := decide ('0' ≤ c) && decide (c ≤ '9')

/-- `normalize`. -/
def normalize (name : String) : String := lib.lowercase (strip name)

/-- `re.match(r"^[a-z][a-z0-9_]*$", name)`; a line feed may stand before the end. -/
def isIdentifier (name : String) : Bool :=
  let cs := name.toList
  let cs := if cs.getLast? = some '\n' then cs.dropLast else cs
  match cs with
  | [] => false
  | c::cs => isLower c && cs.all fun c => isLower c || isDigit c || c == '_'

/-- `validate_identifier` with the kind Column. -/
def validateIdentifier (name : String) : Except PyError String :=
  let norm := normalize lib name
  if norm = "" then .error (.valueError "Column name is required.")
  else if maxLen < norm.length then .error (.valueError "Column name must be at most 60 characters.")
  else if !isIdentifier norm then
    .error (.valueError ("Column name must start with a letter and contain only " ++
      "lower-case letters, digits and underscores."))
  else if reservedPrefixes.any (startsWith norm) then
    .error (.valueError "Column name may not start with a reserved prefix (app_, j_).")
  else .ok norm

/-- `re.sub(r"[^a-z0-9]+", "_", s)`; `gap` tells that the last character has been replaced. -/
def replaceGaps (gap : Bool) : List Char → List Char
  | [] => []
  | c::cs =>
    if isLower c || isDigit c then c::replaceGaps false cs
    else if gap then replaceGaps true cs
    else '_'::replaceGaps true cs

/-- `sanitize_identifier` with the kind Column. -/
def sanitizeIdentifier (raw : String) : Except PyError String :=
  let norm := String.ofList (((replaceGaps false (normalize lib raw).toList).dropWhile (· = '_')).rdropWhile (· = '_'))
  let norm := if norm = "" then "col" else norm
  let norm := if norm.toList.head?.any isLower then norm else "c_" ++ norm
  let norm := clip maxLen norm
  let norm := if norm ∈ reservedColumns ∨ reservedPrefixes.any (startsWith norm) then clip maxLen ("x_" ++ norm) else norm
  validateIdentifier lib norm

/-- The search for a name that no column before has, as far as it is followed. -/
def uniqueName (base : String) (seen : List String) : ℕ → ℕ → String → Option String
  | 0, _, name => if name ∈ seen then none else some name
  | fuel+1, n, name => if name ∈ seen then uniqueName base seen fuel (n+1) (clip maxLen (base ++ "_" ++ toString n)) else some name

/-- `(header or name).strip()[:120] or name`. -/
def labelOf (header name : String) : String :=
  let label := clip 120 (strip (if header = "" then name else header))
  if label = "" then name else label

/-- The columns from the one with number `i` on. -/
def columnsFrom (fuel : ℕ) (rows : List (List String)) : ℕ → List String → List String → Option (Except PyError (List Column))
  | _, _, [] => some (.ok [])
  | i, seen, header::headers =>
    match sanitizeIdentifier lib (if header = "" then "col_" ++ toString (i+1) else header) with
    | .error e => some (.error e)
    | .ok base =>
      match uniqueName base seen fuel 2 base with
      | none => none
      | some name => (columnsFrom fuel rows (i+1) (name::seen) headers).map fun rest =>
          rest.map fun columns => ⟨header,name,labelOf header name,specOf lib (sampled rows i)⟩::columns

/-- `infer_schema`: the columns, the rows of the preview and the number of rows. -/
def inferSchema (fuel : ℕ) (text : String) : Option (Except PyError (List Column × List (List String) × ℕ)) :=
  match Csv.read text with
  | ([],none) => some (.error (.valueError "The file is empty."))
  | ([],some e) => some (.error (.csvError e))
  | (first::rows,stop) =>
    let headers := first.map strip
    if headers.all fun h => decide (h = "") then some (.error (.valueError "The first row must contain column headers."))
    else
      match stop with
      | some e => some (.error (.csvError e))
      | none => (columnsFrom lib fuel rows 0 [] headers).map fun found =>
          found.map fun columns =>
            (columns,(rows.take 5).map fun row => (List.range headers.length).map fun i => row.getD i "",rows.length)

/-- The rows behind the header. -/
def dataRows (text : String) : List (List String) := (Csv.read text).1.tail

end Inference

/-! ### What the column takes -/

/-- The column types that `sa_type_for_field` makes of the proposed types. -/
inductive ColumnType
  | string (length : ℕ)
  | text
  | integer
  | numeric (precision scale : ℕ)
  | boolean
  | date
  | datetime

/-- `sa_type_for_field`. -/
def saTypeForField (spec : Spec) : Option ColumnType :=
  match spec.dataType with
  | .string => some (.string (if spec.length.getD 0 = 0 then 255 else spec.length.getD 0))
  | .text | .markdown => some .text
  | .integer | .user | .company => some .integer
  | .decimal | .currency | .percent =>
    some (.numeric (if spec.precision.getD 0 = 0 then 12 else spec.precision.getD 0) (spec.scale.getD 2))
  | .boolean => some .boolean
  | .date => some .date
  | .datetime => some .datetime
  | _ => none

/-- The column keeps the value as it is. -/
def Fits : ColumnType → Value → Prop
  | .string length, .text s => s.length ≤ length
  | .text, .text _ => True
  | .integer, .int n => -2^31 ≤ n ∧ n < 2^31
  | .numeric precision scale, .decimal d => ∃ q, d.toRat = some q ∧ ∃ k : ℤ, q*10^scale = k ∧ k.natAbs < 10^precision
  | .boolean, .bool _ => True
  | .date, .date _ => True
  | .datetime, .datetime _ => True
  | _, _ => False

/-- The field that the proposal stands for. -/
def proposedField (c : Column) : MetaField := { id := 0,physName := c.name,label := c.label,dataType := c.spec.dataType }

/-- The cell is taken, and the column keeps its value as it is. -/
def Holds (lib : Lib) (c : Column) (v : String) : Prop :=
  ∃ value column, coerceValue lib.toCoerceLib (proposedField c) none (some v) = .ok value ∧
    saTypeForField c.spec = some column ∧ Fits column value

/-- Whole numbers have at most 4300 digits and fit into 32 bits; other numbers are below ten thousand millions and
have zeros only behind the second digit of the fraction. -/
def InRange (lib : Lib) (cells : List String) : Prop :=
  (cells.all (isInteger lib) = true → ∀ v ∈ cells, ∀ p, readPlain lib.digit v = some p →
    p.whole.length ≤ 4300 ∧ -2^31 ≤ p.toInt ∧ p.toInt < 2^31) ∧
  (cells.all (isInteger lib) = false → cells.all (isNumber lib) = true → ∀ v ∈ cells, ∀ p, readPlain lib.digit v = some p →
    natOf p.whole < 10^10 ∧ ∀ d ∈ p.fraction.drop 2, d = 0)

section Digits

variable {lib : Lib}

theorem takeDigits_small (cs : List Char) : ∀ d ∈ (takeDigits lib.digit cs).1, d < 10 := by
  induction cs with
  | nil => simp [takeDigits]
  | cons c cs ih =>
    rw [takeDigits]
    split
    · rename_i d hd
      intro d' hd'
      rcases List.mem_cons.mp hd' with rfl | hd'
      · exact lib.digit_lt c _ hd
      · exact ih d' hd'
    · simp

theorem readPlain_small {s : String} {p : Plain} (h : readPlain lib.digit s = some p) :
    (∀ d ∈ p.whole, d < 10) ∧ ∀ d ∈ p.fraction, d < 10 := by
  simp only [readPlain] at h
  split at h
  · cases h
  · split at h
    · obtain rfl := Option.some.inj h
      exact ⟨takeDigits_small _,by simp⟩
    · split at h
      · cases h
      · obtain rfl := Option.some.inj h
        exact ⟨takeDigits_small _,takeDigits_small _⟩

theorem natOf_eq_zero {digits : List ℕ} : natOf digits = 0 ↔ ∀ d ∈ digits, d = 0 := by
  induction digits with
  | nil => simp [natOf]
  | cons d digits ih =>
    have hpow : 10^digits.length ≠ 0 := by positivity
    rw [natOf_cons,Nat.add_eq_zero_iff,ih,Nat.mul_eq_zero,List.forall_mem_cons]
    exact and_congr_left' (or_iff_left hpow)

/-- Hundredths of a number with digits before and behind the point. -/
theorem hundredths {whole fraction : List ℕ} (hsmall : ∀ d ∈ fraction, d < 10) :
    (∃ m : ℕ, natOf (whole++fraction)*10^2 = m*10^fraction.length ∧ m < 10^12) ↔
      natOf whole < 10^10 ∧ ∀ d ∈ fraction.drop 2, d = 0 := by
  rw [← natOf_eq_zero]
  have hlength : fraction.length = (fraction.take 2).length+(fraction.drop 2).length := by
    rw [← List.length_append,List.take_append_drop]
  have hcents : natOf (fraction.take 2) < 10^(fraction.take 2).length :=
    natOf_lt fun d hd => hsmall d (List.mem_of_mem_take hd)
  have hrest : natOf (fraction.drop 2) < 10^(fraction.drop 2).length :=
    natOf_lt fun d hd => hsmall d (List.mem_of_mem_drop hd)
  have hsplit : natOf (whole++fraction) = (natOf whole*10^(fraction.take 2).length+natOf (fraction.take 2))*
      10^(fraction.drop 2).length+natOf (fraction.drop 2) := by
    conv_lhs => rw [← List.take_append_drop 2 fraction,← List.append_assoc,natOf_append,natOf_append]
  rw [hsplit,hlength,pow_add]
  generalize natOf (fraction.take 2) = cents at hcents
  generalize natOf (fraction.drop 2) = rest at hrest
  rcases Nat.lt_or_ge 2 fraction.length with hlong | hshort
  · have htwo : (fraction.take 2).length = 2 := by
      rw [List.length_take]
      omega
    rw [htwo] at hcents ⊢
    have hpos : 0 < 10^(fraction.drop 2).length := by positivity
    generalize 10^(fraction.drop 2).length = unit at hrest hpos
    constructor
    · rintro ⟨m,hm,hbound⟩
      have hsame : (natOf whole*10^2+cents)*unit+rest = m*unit := by
        have hscaled : ((natOf whole*10^2+cents)*unit+rest)*10^2 = m*unit*10^2 := by
          rw [hm]
          ring
        exact Nat.eq_of_mul_eq_mul_right (by decide) hscaled
      have hmod : rest % unit = 0 := by
        have := congrArg (· % unit) hsame
        simpa [Nat.mul_add_mod] using this
      rw [Nat.mod_eq_of_lt hrest] at hmod
      subst hmod
      have heq : natOf whole*10^2+cents = m := Nat.eq_of_mul_eq_mul_right hpos hsame
      exact ⟨by omega,rfl⟩
    · rintro ⟨hwhole,rfl⟩
      exact ⟨natOf whole*10^2+cents,by ring,by omega⟩
  · have hnone : fraction.drop 2 = [] := List.drop_eq_nil_of_le hshort
    rw [hnone,List.length_nil,pow_zero] at hrest ⊢
    obtain rfl : rest = 0 := by omega
    have hcases : (fraction.take 2).length = 0 ∨ (fraction.take 2).length = 1 ∨ (fraction.take 2).length = 2 := by
      rw [List.length_take]
      omega
    rcases hcases with h | h | h
    · rw [h] at hcents ⊢
      constructor
      · rintro ⟨m,hm,hbound⟩
        exact ⟨by omega,rfl⟩
      · rintro ⟨hwhole,-⟩
        exact ⟨natOf whole*100,by omega,by omega⟩
    · rw [h] at hcents ⊢
      constructor
      · rintro ⟨m,hm,hbound⟩
        exact ⟨by omega,rfl⟩
      · rintro ⟨hwhole,-⟩
        exact ⟨(natOf whole*10+cents)*10,by omega,by omega⟩
    · rw [h] at hcents ⊢
      constructor
      · rintro ⟨m,hm,hbound⟩
        exact ⟨by omega,rfl⟩
      · rintro ⟨hwhole,-⟩
        exact ⟨natOf whole*100+cents,by omega,by omega⟩

/-- What a column with two digits behind the point keeps. -/
theorem fits_numeric {p : Plain} (hsmall : ∀ d ∈ p.fraction, d < 10) :
    Fits (.numeric 12 2) (.decimal (.finite p.negative (natOf (p.whole++p.fraction)) (-p.fraction.length))) ↔
      natOf p.whole < 10^10 ∧ ∀ d ∈ p.fraction.drop 2, d = 0 := by
  rw [← hundredths hsmall]
  simp only [Fits,PyDecimal.toRat,Option.some.injEq,exists_eq_left']
  generalize natOf (p.whole++p.fraction) = coefficient
  have hunit : (10:ℚ)^p.fraction.length ≠ 0 := by positivity
  have hmagnitude : (coefficient:ℚ)*(10:ℚ)^(-(p.fraction.length:ℤ)) = coefficient/10^p.fraction.length := by
    rw [zpow_neg,zpow_natCast,div_eq_mul_inv]
  rw [hmagnitude]
  have hiff : ∀ m : ℕ, (coefficient:ℚ)/10^p.fraction.length*10^2 = m ↔ coefficient*10^2 = m*10^p.fraction.length := by
    intro m
    rw [div_mul_eq_mul_div,div_eq_iff hunit]
    exact_mod_cast Iff.rfl
  constructor
  · rintro ⟨k,hk,hbound⟩
    refine ⟨k.natAbs,(hiff _).mp ?_,hbound⟩
    have hnonneg : (0:ℚ) ≤ (coefficient:ℚ)/10^p.fraction.length*10^2 := by positivity
    have habs : ((k.natAbs:ℕ):ℚ) = |(k:ℚ)| := by
      rw [← Int.cast_abs,Int.abs_eq_natAbs,Int.cast_natCast]
    rw [habs,← hk]
    split
    · rw [neg_mul,abs_neg,abs_of_nonneg hnonneg]
    · rw [abs_of_nonneg hnonneg]
  · rintro ⟨m,hm,hbound⟩
    have hm' := (hiff m).mpr hm
    cases p.negative with
    | true => exact ⟨-m,by rw [if_pos rfl,neg_mul,hm']; push_cast; rfl,by simpa using hbound⟩
    | false => exact ⟨m,by rw [if_neg (by decide),hm']; push_cast; rfl,by simpa using hbound⟩

end Digits

section Cells

variable {lib : Lib} {cells : List String} {c : Column} {v : String}

/-- A cell that is looked at is coerced as it stands. -/
theorem coerce_cell (hstrip : strip v = v) (hne : v ≠ "") : coerceValue lib.toCoerceLib (proposedField c) none (some v) =
    match coerceTyped lib.toCoerceLib (proposedField c) none v with
    | none => .error (.valueError ((proposedField c).physName ++ ": unsupported type " ++ (proposedField c).dataType.name))
    | some (.ok value) => .ok value
    | some (.error e) => .error (refusal (proposedField c) v e) := by
  simp only [coerceValue,Option.getD_some,hstrip]
  exact if_neg hne

/-- Where the parser of the type takes the cell, the value decides. -/
theorem holds_of_ok {value : Value} {column : ColumnType} (hstrip : strip v = v) (hne : v ≠ "")
    (hok : coerceTyped lib.toCoerceLib (proposedField c) none v = some (.ok value)) (hcolumn : saTypeForField c.spec = some column) :
    Holds lib c v ↔ Fits column value := by
  have hcoerce := @coerce_cell lib c v hstrip hne
  rw [hok] at hcoerce
  constructor
  · rintro ⟨value',column',hvalue,hcolumn',hfits⟩
    rw [hcoerce] at hvalue
    rw [hcolumn] at hcolumn'
    rwa [Except.ok.inj hvalue,Option.some.inj hcolumn']
  · exact fun hfits => ⟨value,column,hcoerce,hcolumn,hfits⟩

theorem not_holds_of_error {e : PyError} (hstrip : strip v = v) (hne : v ≠ "")
    (herror : coerceTyped lib.toCoerceLib (proposedField c) none v = some (.error e)) : ¬Holds lib c v := by
  rintro ⟨value,column,hvalue,-⟩
  rw [coerce_cell hstrip hne,herror] at hvalue
  cases hvalue

theorem checkRange_free {value : Value} : checkRange lib.toCoerceLib (proposedField c) value = .ok value := rfl

theorem holds_integer (hstrip : strip v = v) (hne : v ≠ "") (hspec : c.spec = { dataType := .integer }) {p : Plain}
    (hp : readPlain lib.digit v = some p) (hwhole : p.fraction = []) :
    Holds lib c v ↔ p.whole.length ≤ 4300 ∧ -2^31 ≤ p.toInt ∧ p.toInt < 2^31 := by
  have htype : (proposedField c).dataType = .integer := congrArg Spec.dataType hspec
  have hint := lib.int_plain v p hp hwhole
  by_cases hshort : p.whole.length ≤ 4300
  · rw [if_pos hshort] at hint
    have hok : coerceTyped lib.toCoerceLib (proposedField c) none v = some (.ok (.int p.toInt)) := by
      simp only [coerceTyped,htype,coerceInt,hint,parsed,Except.map,Except.bind,checkRange_free]
    rw [holds_of_ok hstrip hne hok (by rw [hspec]; rfl)]
    exact (and_iff_right hshort).symm
  · rw [if_neg hshort] at hint
    refine iff_of_false (not_holds_of_error (e := .valueError (lib.complaint "int" v)) hstrip hne ?_) fun h => hshort h.1
    simp only [coerceTyped,htype,coerceInt,hint,parsed,Except.map,Except.bind]

theorem holds_decimal (hstrip : strip v = v) (hne : v ≠ "")
    (hspec : c.spec = { dataType := .decimal,precision := some 12,scale := some 2 }) {p : Plain}
    (hp : readPlain lib.digit v = some p) : Holds lib c v ↔ natOf p.whole < 10^10 ∧ ∀ d ∈ p.fraction.drop 2, d = 0 := by
  have htype : (proposedField c).dataType = .decimal := congrArg Spec.dataType hspec
  have hok : coerceTyped lib.toCoerceLib (proposedField c) none v =
      some (.ok (.decimal (.finite p.negative (natOf (p.whole++p.fraction)) (-p.fraction.length)))) := by
    simp only [coerceTyped,htype,coerceDecimal,lib.decimal_plain v p hp,checkRange_free]
  rw [holds_of_ok hstrip hne hok (by rw [hspec]; rfl)]
  exact fits_numeric (readPlain_small hp).2

theorem length_le_longest (hv : v ∈ cells) : v.length ≤ longest cells := by
  rw [longest]
  induction cells with
  | nil => cases hv
  | cons w cells ih =>
    rw [List.map_cons,List.foldr_cons]
    rcases List.mem_cons.mp hv with rfl | hv
    · exact le_max_left _ _
    · exact (ih hv).trans (le_max_right _ _)

/-- Every other type takes the cells that it is proposed for. -/
theorem holds_words (hstrip : strip v = v) (hne : v ≠ "") (hv : v ∈ cells)
    (hspec : c.spec = if cells.all fun v => decide (lib.lowercase v ∈ trueWords++falseWords) then { dataType := .boolean }
      else if cells.all fun v => (lib.isoDate v).isSome then { dataType := .date }
      else if cells.all (parseDatetimeOk lib) then { dataType := .datetime }
      else if 255 < longest cells then { dataType := .text }
      else { dataType := .string,length := some (max 80 (min 255 (longest cells*2))) }) : Holds lib c v := by
  split at hspec
  · rename_i hall
    have htype : (proposedField c).dataType = .boolean := congrArg Spec.dataType hspec
    have hword : lib.lowercase v ∈ trueWords++falseWords := of_decide_eq_true (List.all_eq_true.mp hall v hv)
    have hok : ∃ b, coerceTyped lib.toCoerceLib (proposedField c) none v = some (.ok (.bool b)) := by
      simp only [coerceTyped,htype,coerceBool]
      by_cases htrue : lib.lowercase v ∈ trueWords
      · exact ⟨true,by rw [if_pos htrue]⟩
      · exact ⟨false,by rw [if_neg htrue,if_pos ((List.mem_append.mp hword).resolve_left htrue)]⟩
    obtain ⟨b,hok⟩ := hok
    have hcolumn : saTypeForField c.spec = some .boolean := by rw [hspec]; rfl
    exact (holds_of_ok hstrip hne hok hcolumn).mpr trivial
  · split at hspec
    · rename_i hall
      have htype : (proposedField c).dataType = .date := congrArg Spec.dataType hspec
      obtain ⟨days,hdays⟩ := Option.isSome_iff_exists.mp (List.all_eq_true.mp hall v hv)
      have hok : coerceTyped lib.toCoerceLib (proposedField c) none v = some (.ok (.date days)) := by
        simp only [coerceTyped,htype,hdays,parsed,Except.map]
      have hcolumn : saTypeForField c.spec = some .date := by rw [hspec]; rfl
      exact (holds_of_ok hstrip hne hok hcolumn).mpr trivial
    · split at hspec
      · rename_i hall
        have htype : (proposedField c).dataType = .datetime := congrArg Spec.dataType hspec
        have hparse : ∃ t, parseDatetime lib.toCoerceLib v = .ok t := by
          have hany := List.any_eq_true.mp (List.all_eq_true.mp hall v hv)
          obtain ⟨format,hformat,hsome⟩ := hany
          have hfound : (dtFormats.findSome? fun format => lib.strptime v format).isSome = true := by
            rw [List.findSome?_isSome_iff]
            exact ⟨format,hformat,hsome⟩
          obtain ⟨t,ht⟩ := Option.isSome_iff_exists.mp hfound
          cases hiso : lib.isoDatetime v with
          | none => exact ⟨t,by simp only [parseDatetime,hiso,ht,Option.none_or]⟩
          | some t' => exact ⟨t',by simp only [parseDatetime,hiso,Option.some_or]⟩
        obtain ⟨t,ht⟩ := hparse
        have hok : coerceTyped lib.toCoerceLib (proposedField c) none v = some (.ok (.datetime t)) := by
          simp only [coerceTyped,htype,ht,Except.map]
        have hcolumn : saTypeForField c.spec = some .datetime := by rw [hspec]; rfl
        exact (holds_of_ok hstrip hne hok hcolumn).mpr trivial
      · split at hspec
        · have htype : (proposedField c).dataType = .text := congrArg Spec.dataType hspec
          have hok : coerceTyped lib.toCoerceLib (proposedField c) none v = some (.ok (.text v)) := by
            simp only [coerceTyped,htype]
            rfl
          have hcolumn : saTypeForField c.spec = some .text := by rw [hspec]; rfl
          exact (holds_of_ok hstrip hne hok hcolumn).mpr trivial
        · rename_i hshort
          have htype : (proposedField c).dataType = .string := congrArg Spec.dataType hspec
          have hok : coerceTyped lib.toCoerceLib (proposedField c) none v = some (.ok (.text v)) := by
            simp only [coerceTyped,htype]
            rfl
          have hcolumn : saTypeForField c.spec = some (.string (max 80 (min 255 (longest cells*2)))) := by
            rw [hspec]
            simp only [saTypeForField,Option.getD_some]
            rw [if_neg (by omega)]
          refine (holds_of_ok hstrip hne hok hcolumn).mpr ?_
          have hlength := length_le_longest hv
          simp only [Fits]
          omega

/-- The cells of a column hold exactly when its numbers are in range. -/
theorem holds_iff (hclean : ∀ v ∈ cells, strip v = v ∧ v ≠ "") (hspec : c.spec = sniffType lib cells) :
    (∀ v ∈ cells, Holds lib c v) ↔ InRange lib cells := by
  cases hinteger : cells.all (isInteger lib) with
  | true =>
    rw [sniffType,if_pos hinteger] at hspec
    have hread : ∀ v ∈ cells, ∃ p, readPlain lib.digit v = some p ∧ p.fraction = [] := by
      intro v hv
      have hv := List.all_eq_true.mp hinteger v hv
      rw [isInteger,Option.any_eq_true] at hv
      obtain ⟨p,hp,hwhole⟩ := hv
      exact ⟨p,hp,List.isEmpty_iff.mp hwhole⟩
    simp only [InRange,hinteger,true_implies,Bool.true_eq_false,false_implies,and_true]
    constructor
    · intro hholds v hv p hp
      obtain ⟨q,hq,hwhole⟩ := hread v hv
      obtain rfl := Option.some.inj (hq.symm.trans hp)
      exact (holds_integer (hclean v hv).1 (hclean v hv).2 hspec hp hwhole).mp (hholds v hv)
    · intro hrange v hv
      obtain ⟨p,hp,hwhole⟩ := hread v hv
      exact (holds_integer (hclean v hv).1 (hclean v hv).2 hspec hp hwhole).mpr (hrange v hv p hp)
  | false =>
    have hfirst : ¬cells.all (isInteger lib) = true := by simp [hinteger]
    rw [sniffType,if_neg hfirst] at hspec
    cases hnumber : cells.all (isNumber lib) with
    | true =>
      rw [if_pos hnumber] at hspec
      simp only [InRange,hinteger,hnumber,true_implies,Bool.false_eq_true,false_implies,true_and]
      constructor
      · intro hholds v hv p hp
        exact (holds_decimal (hclean v hv).1 (hclean v hv).2 hspec hp).mp (hholds v hv)
      · intro hrange v hv
        obtain ⟨p,hp⟩ := Option.isSome_iff_exists.mp (List.all_eq_true.mp hnumber v hv)
        exact (holds_decimal (hclean v hv).1 (hclean v hv).2 hspec hp).mpr (hrange v hv p hp)
    | false =>
      rw [if_neg (by simp [hnumber])] at hspec
      simp only [InRange,hinteger,hnumber,Bool.false_eq_true,false_implies,implies_true,and_self,iff_true]
      intro v hv
      obtain ⟨hstrip,hblank⟩ := hclean v hv
      exact holds_words hstrip hblank hv hspec

end Cells

/-! ### The whole file -/

section File

variable {lib : Lib} {fuel : ℕ} {text : String} {rows : List (List String)}

theorem sampled_clean {i : ℕ} : ∀ v ∈ sampled rows i, strip v = v ∧ v ≠ "" := by
  intro v hv
  obtain ⟨hv,hne⟩ := List.mem_filter.mp hv
  obtain ⟨row,-,rfl⟩ := List.mem_map.mp hv
  exact ⟨strip_strip _,of_decide_eq_true hne⟩

/-- Each column has the type that its own cells suggest. -/
theorem columnsFrom_spec {i : ℕ} {seen headers : List String} {columns : List Column}
    (h : columnsFrom lib fuel rows i seen headers = some (.ok columns)) {j : ℕ} {c : Column} (hc : columns[j]? = some c) :
    c.spec = specOf lib (sampled rows (i+j)) := by
  induction headers generalizing i seen columns j with
  | nil =>
    rw [columnsFrom,Option.some.injEq,Except.ok.injEq] at h
    rw [← h] at hc
    simp at hc
  | cons header headers ih =>
    rw [columnsFrom] at h
    split at h
    · cases h
    · split at h
      · cases h
      · obtain ⟨found,hfound,hmap⟩ := Option.map_eq_some_iff.mp h
        cases found with
        | error e => cases hmap
        | ok rest =>
          rw [Except.map,Except.ok.injEq] at hmap
          rw [← hmap] at hc
          cases j with
          | zero =>
            rw [List.getElem?_cons_zero] at hc
            rw [← Option.some.inj hc,Nat.add_zero]
          | succ j =>
            rw [List.getElem?_cons_succ] at hc
            rw [ih hfound hc,Nat.add_assoc,Nat.add_comm 1 j]

theorem spec_of_infer {columns : List Column} {samples : List (List String)} {n : ℕ}
    (h : inferSchema lib fuel text = some (.ok (columns,samples,n))) {i : ℕ} {c : Column} (hc : columns[i]? = some c) :
    c.spec = specOf lib (sampled (dataRows text) i) := by
  rw [inferSchema] at h
  split at h
  · cases h
  · cases h
  · rename_i first rows stop hread
    simp only at h
    split at h
    · cases h
    · split at h
      · cases h
      · obtain ⟨found,hfound,hmap⟩ := Option.map_eq_some_iff.mp h
        cases found with
        | error e => cases hmap
        | ok columns' =>
          rw [Except.map,Except.ok.injEq,Prod.mk.injEq] at hmap
          obtain ⟨rfl,-⟩ := hmap
          have hspec := columnsFrom_spec hfound hc
          rwa [Nat.zero_add,show rows = dataRows text by rw [dataRows,hread]; rfl] at hspec

/-- Of every file that gets a proposal: all the cells that were looked at are taken and kept by the columns proposed for
them, exactly when the numbers among them are in range. -/
theorem types_hold_iff {lib : Lib} {fuel : ℕ} {text : String} {columns : List Column} {samples : List (List String)} {n : ℕ}
    (h : inferSchema lib fuel text = some (.ok (columns,samples,n))) :
    (∀ i c, columns[i]? = some c → ∀ v ∈ sampled (dataRows text) i, Holds lib c v) ↔
      ∀ i < columns.length, InRange lib (sampled (dataRows text) i) := by
  have hcolumn : ∀ i c, columns[i]? = some c →
      ((∀ v ∈ sampled (dataRows text) i, Holds lib c v) ↔ InRange lib (sampled (dataRows text) i)) := by
    intro i c hc
    have hspec := spec_of_infer h hc
    rw [specOf] at hspec
    split at hspec
    · rename_i hempty
      rw [List.isEmpty_iff.mp hempty]
      exact iff_of_true (by simp) ⟨by simp,by simp⟩
    · exact holds_iff sampled_clean hspec
  constructor
  · intro hholds i hi
    have hc : columns[i]? = some columns[i] := List.getElem?_eq_getElem hi
    exact (hcolumn i _ hc).mp (hholds i _ hc)
  · intro hrange i c hc
    exact (hcolumn i c hc).mpr (hrange i (List.getElem?_eq_some_iff.mp hc).1)

end File

/-! ### A number that is too large -/

theorem asciiDigit_lt (c : Char) (d : ℕ) (h : asciiDigit c = some d) : d < 10 := by
  rw [asciiDigit] at h
  split at h
  · rw [← Option.some.inj h]
    omega
  · cases h

def asciiInt (s : String) : Option ℤ :=
  (readPlain asciiDigit s).bind fun p => if p.fraction = [] ∧ p.whole.length ≤ 4300 then some p.toInt else none

theorem asciiInt_plain (s : String) (p : Plain) (hp : readPlain asciiDigit s = some p) (hwhole : p.fraction = []) :
    asciiInt s = if p.whole.length ≤ 4300 then some p.toInt else none := by
  simp only [asciiInt,hp,hwhole,true_and,Option.bind_some]

def asciiDecimal (s : String) : Option PyDecimal :=
  (readPlain asciiDigit s).map fun p => .finite p.negative (natOf (p.whole++p.fraction)) (-p.fraction.length)

theorem asciiDecimal_plain (s : String) (p : Plain) (hp : readPlain asciiDigit s = some p) :
    asciiDecimal s = some (.finite p.negative (natOf (p.whole++p.fraction)) (-p.fraction.length)) := by
  rw [asciiDecimal,hp,Option.map_some]

/-- The parsers on ASCII digits. -/
def asciiLib : Lib where
  strOther := fun _ => ""
  float := fun _ => none
  int := asciiInt
  isAlnum := Char.isAlphanum
  loads := fun _ => .error (.valueError "Expecting value")
  isDigit := fun _ => false
  lowercase := lower
  decimal := asciiDecimal
  isoDate := fun _ => none
  isoTime := fun _ => none
  isoDatetime := fun _ => none
  strptime := fun _ _ => none
  search := fun _ _ => .ok false
  dumps := fun _ => ""
  repr := fun _ => ""
  complaint := fun _ _ => ""
  digit := asciiDigit
  digit_lt := asciiDigit_lt
  int_plain := asciiInt_plain
  decimal_plain := asciiDecimal_plain

def small : List Column := [⟨"n","n","n",{ dataType := .integer }⟩]

theorem small_inferred : inferSchema asciiLib 0 "n\n7" = some (.ok (small,[["7"]],1)) := rfl

theorem large_inferred : inferSchema asciiLib 0 "n\n3000000000" = some (.ok (small,[["3000000000"]],1)) := rfl

theorem types_hold_iff_small : (∀ i c, small[i]? = some c → ∀ v ∈ sampled (dataRows "n\n7") i, Holds asciiLib c v) ↔
    ∀ i < small.length, InRange asciiLib (sampled (dataRows "n\n7") i) := types_hold_iff small_inferred

/-- A number above 32 bits is proposed an integer column. -/
theorem number_too_large : ¬∀ (lib : Lib) (fuel : ℕ) (text : String) (columns : List Column) (samples : List (List String))
    (n : ℕ), inferSchema lib fuel text = some (.ok (columns,samples,n)) →
      ∀ i c, columns[i]? = some c → ∀ v ∈ sampled (dataRows text) i, Holds lib c v := by
  intro h
  have hmem : "3000000000" ∈ sampled (dataRows "n\n3000000000") 0 := by decide
  have hholds := h asciiLib 0 "n\n3000000000" small _ 1 large_inferred 0 _ rfl "3000000000" hmem
  have hplain : ∃ p, readPlain asciiLib.digit "3000000000" = some p ∧ p.fraction = [] ∧ p.toInt = 3000000000 := by
    exact ⟨_,rfl,rfl,rfl⟩
  obtain ⟨p,hp,hwhole,hvalue⟩ := hplain
  obtain ⟨-,-,hlarge⟩ := (holds_integer (by decide) (by decide) rfl hp hwhole).mp hholds
  rw [hvalue] at hlarge
  omega

end SchemaInference
end Biggy
