import Biggy.Coerce
import Biggy.Rounding
import Mathlib.Data.Rat.Floor

/-!
# The rules of a field

The importer compares a number with its bounds after a conversion of both to `float`. `accepted_obeys_iff` says when the values
that are taken keep the rules of their field in exact arithmetic.
-/
namespace Biggy

/-! ### Floats -/

/-- The first power of two that is too large for binary64. -/
@[irreducible] def PyFloat.limit : ℚ := 2^1024

/-- The binary64 number that is nearest to a rational; beyond the greatest one it is an infinity. -/
def PyFloat.round (q : ℚ) : PyFloat :=
  let x := Rounding.nearest 52 (-1022) q
  if x ≤ -PyFloat.limit then .negInf else if PyFloat.limit ≤ x then .posInf else .finite x

def PyFloat.rounded : PyFloat → PyFloat
  | .finite q => .round q
  | x => x

/-- `q <= x` in exact arithmetic. -/
def PyFloat.AtLeast (q : ℚ) : PyFloat → Prop
  | .finite x => q ≤ x
  | .posInf => True
  | .negInf | .nan => False

/-- `x <= q` in exact arithmetic. -/
def PyFloat.AtMost (q : ℚ) : PyFloat → Prop
  | .finite x => x ≤ q
  | .negInf => True
  | .posInf | .nan => False

/-- A decimal as it is, with nothing rounded. -/
def PyDecimal.exact : PyDecimal → PyFloat
  | .finite negative coefficient exponent =>
    let magnitude : ℚ := coefficient*(10:ℚ)^exponent
    .finite (if negative then -magnitude else magnitude)
  | .infinity negative => if negative then .negInf else .posInf
  | .nan _ => .nan

/-- The number that a value stands for. -/
def Value.exact : Value → Option PyFloat
  | .int n => some (.finite n)
  | .decimal d => some d.exact
  | .float x => some x
  | _ => none

section Floats

namespace PyFloat

variable {p q : ℚ} {x y : PyFloat}

theorem limit_pos : 0 < PyFloat.limit := by
  rw [PyFloat.limit]
  positivity

theorem round_ne_nan (q : ℚ) : PyFloat.round q ≠ .nan := by
  simp only [PyFloat.round]
  split_ifs <;> exact PyFloat.noConfusion

theorem round_mono (h : p ≤ q) : (PyFloat.round q).lt (.round p) = false := by
  have hmono := @Rounding.nearest_mono ℚ _ _ _ _ 52 (-1022) p q h
  have hlimit := limit_pos
  simp only [PyFloat.round]
  split_ifs <;> simp only [PyFloat.lt,decide_eq_false_iff_not,not_lt] <;> first | assumption | (exfalso; linarith)

theorem lt_trichotomous (hx : x ≠ .nan) (hy : y ≠ .nan) (hxy : x.lt y = false) (hyx : y.lt x = false) : x = y := by
  cases x <;> cases y <;> simp_all [PyFloat.lt]
  exact le_antisymm hyx hxy

theorem lt_self (x : PyFloat) : x.lt x = false := by cases x <;> simp [PyFloat.lt]

theorem round_zero : PyFloat.round 0 = .finite 0 := by
  have hnearest : Rounding.nearest 52 (-1022) (0:ℚ) = 0 := by
    rw [Rounding.nearest,if_neg (lt_irrefl 0),Rounding.nearestPos_zero]
  have hlimit := limit_pos
  simp only [PyFloat.round,hnearest]
  rw [if_neg (by linarith),if_neg (by linarith)]

/-- The comparison of the floats misses a number below a bound exactly when both round to one float. -/
theorem missed_low (hx : x ≠ .nan) (h : ¬x.AtLeast q) : x.rounded.lt (.round q) = false ↔ x.rounded = .round q := by
  cases x with
  | nan => exact absurd rfl hx
  | posInf => exact absurd trivial h
  | negInf =>
    simp only [PyFloat.rounded]
    cases hround : PyFloat.round q <;> simp [PyFloat.lt]
    exact round_ne_nan q hround
  | finite p =>
    simp only [PyFloat.AtLeast,not_le] at h
    simp only [PyFloat.rounded]
    constructor
    · exact fun hlt => lt_trichotomous (round_ne_nan p) (round_ne_nan q) hlt (round_mono h.le)
    · intro heq
      rw [heq,lt_self]

theorem missed_high (hx : x ≠ .nan) (h : ¬x.AtMost q) : (PyFloat.round q).lt x.rounded = false ↔ x.rounded = .round q := by
  cases x with
  | nan => exact absurd rfl hx
  | negInf => exact absurd trivial h
  | posInf =>
    simp only [PyFloat.rounded]
    cases hround : PyFloat.round q <;> simp [PyFloat.lt]
    exact round_ne_nan q hround
  | finite p =>
    simp only [PyFloat.AtMost,not_le] at h
    simp only [PyFloat.rounded]
    constructor
    · exact fun hlt => lt_trichotomous (round_ne_nan p) (round_ne_nan q) (round_mono h.le) hlt
    · intro heq
      rw [heq,lt_self]

end PyFloat

end Floats

/-- A float that is the whole result of a conversion; beyond the greatest one an `int` raises `OverflowError`. -/
def PyFloat.fits : PyFloat → Option PyFloat
  | .finite x => some (.finite x)
  | _ => none

/-- The conversions to `float`, which all round to the nearest; `numeral` is the number that a text spells out. -/
structure FloatLib extends CoerceLib where
  numeral : String → Option ℚ
  float_numeral : ∀ s q, numeral s = some q → float (.text s) = some (.round q)
  float_binary : ∀ s x, float (.text s) = some x → x.rounded = x
  float_int : ∀ n : ℤ, float (.int n) = (PyFloat.round n).fits
  float_decimal : ∀ d : PyDecimal, float (.decimal d) = if d = .nan true then none else some d.exact.rounded
  float_float : ∀ x : PyFloat, x.rounded = x → float (.float x) = some x
  search_empty : ∀ s, search "" s = .ok true

namespace Importer

/-! ### What the rules say -/

def textTypes : List DataType := [.string,.text,.markdown]

def numberTypes : List DataType := [.integer,.bigint,.decimal,.currency,.percent,.float]

/-- The number of a bound; an empty text sets none. -/
def boundOf (lib : FloatLib) : Option String → Option ℚ
  | none | some "" => none
  | some s => lib.numeral s

/-- Each bound that is set spells out a number. -/
def FiniteBounds (lib : FloatLib) (field : MetaField) : Prop :=
  ∀ bound ∈ [field.minValue,field.maxValue], ∀ s, bound = some s → s ≠ "" → (lib.numeral s).isSome = true

/-- The length and the pattern of a text. -/
structure KeepsText (lib : FloatLib) (field : MetaField) (s : String) : Prop where
  long : ∀ n, field.minLength = some n → n ≤ s.length
  short : ∀ n, field.maxLength = some n → s.length ≤ n
  pattern : ∀ p, field.pattern = some p → lib.search p s = .ok true

/-- The bounds of a number in exact arithmetic. -/
structure KeepsRange (lib : FloatLib) (field : MetaField) (x : PyFloat) : Prop where
  low : ∀ q, boundOf lib field.minValue = some q → x.AtLeast q
  high : ∀ q, boundOf lib field.maxValue = some q → x.AtMost q

/-- The value keeps the rules of its field. -/
structure Obeys (lib : FloatLib) (field : MetaField) (v : Value) : Prop where
  text : field.dataType ∈ textTypes → ∃ s, v = .text s ∧ KeepsText lib field s
  number : field.dataType ∈ numberTypes → ∃ x, v.exact = some x ∧ KeepsRange lib field x

/-! ### When the check sees it -/

/-- The parser of a number type. -/
def numberOf (lib : FloatLib) (field : MetaField) (raw : String) : Option Value :=
  match field.dataType with
  | .integer | .bigint => (lib.int raw).map .int
  | .decimal | .currency | .percent => (lib.decimal raw).map .decimal
  | .float => (lib.float (.text raw)).map .float
  | _ => none

/-- As floats the least value lies above the greatest. -/
def Reversed (lib : FloatLib) (field : MetaField) : Prop :=
  ∃ p q, boundOf lib field.minValue = some p ∧ boundOf lib field.maxValue = some q ∧
    (PyFloat.round q).lt (.round p) = true

/-- A number with a float is not NaN where a bound is set; and it breaks no bound that has the same float, unless no float lies
between the bounds. -/
structure Distinct (lib : FloatLib) (field : MetaField) (x : PyFloat) : Prop where
  number : x = .nan → boundOf lib field.minValue = none ∧ boundOf lib field.maxValue = none
  low : ¬Reversed lib field → ∀ q, boundOf lib field.minValue = some q → x.rounded = .round q → x.AtLeast q
  high : ¬Reversed lib field → ∀ q, boundOf lib field.maxValue = some q → x.rounded = .round q → x.AtMost q

/-- The check of the rules can tell: a greatest length of 0, which counts as none, comes with another rule that the text breaks,
and a number is not taken for its bound. -/
structure Told (lib : FloatLib) (field : MetaField) (raw : String) : Prop where
  text : field.dataType ∈ textTypes → field.maxLength = some 0 →
    ¬((∀ n, field.minLength = some n → n ≤ raw.length) ∧ ∀ p, field.pattern = some p → lib.search p raw = .ok true)
  number : ∀ v x, numberOf lib field raw = some v → v.exact = some x → (lib.float v).isSome = true → Distinct lib field x

section Checks

variable {lib : FloatLib} {field : MetaField} {raw : String} {v : Value} {x : PyFloat}

theorem toFloat_bound {bound : Option String} (h : ∀ s, bound = some s → s ≠ "" → (lib.numeral s).isSome = true) :
    toFloat lib.toCoerceLib bound = (boundOf lib bound).map .round := by
  cases bound with
  | none => rfl
  | some s =>
    by_cases hs : s = ""
    · subst hs
      rfl
    · obtain ⟨q,hq⟩ := Option.isSome_iff_exists.mp (h s rfl hs)
      rw [toFloat,boundOf,hq,lib.float_numeral s q hq]
      · rfl
      · exact hs
      · exact hs

/-- A bound lets a value pass when its float is not outside. -/
theorem checkBound_iff {outside : PyFloat → PyFloat → Bool} {symbol : String} {bound : Option String}
    (h : ∀ s, bound = some s → s ≠ "" → (lib.numeral s).isSome = true) :
    checkBound lib.toCoerceLib outside symbol bound v = .ok () ↔
      ∀ q, boundOf lib bound = some q → ∃ x, lib.float v = some x ∧ outside x (.round q) = false := by
  rw [checkBound,toFloat_bound h]
  cases hbound : boundOf lib bound with
  | none => simp
  | some q =>
    simp only [Option.map_some,Option.some.injEq,forall_eq']
    cases hfloat : lib.float v with
    | none =>
      have herror : ∃ e, floatOf lib.toCoerceLib v = .error e := by
        cases v <;> simp only [floatOf,hfloat] <;> exact ⟨_,rfl⟩
      obtain ⟨e,he⟩ := herror
      simp [he]
    | some x =>
      have hok : floatOf lib.toCoerceLib v = .ok x := by simp only [floatOf,hfloat]
      simp only [hok,Option.some.injEq,exists_eq_left']
      cases outside x (.round q) <;> simp

theorem checkRange_iff (hbounds : FiniteBounds lib field) {w : Value} :
    checkRange lib.toCoerceLib field v = .ok w ↔ w = v ∧
      (∀ q, boundOf lib field.minValue = some q → ∃ x, lib.float v = some x ∧ x.lt (.round q) = false) ∧
      ∀ q, boundOf lib field.maxValue = some q → ∃ x, lib.float v = some x ∧ (PyFloat.round q).lt x = false := by
  have hlow := @checkBound_iff lib v (fun x limit => x.lt limit) ">=" field.minValue (hbounds _ List.mem_cons_self)
  have hhigh := @checkBound_iff lib v (fun x limit => limit.lt x) "<=" field.maxValue
    (hbounds _ (List.mem_cons_of_mem _ List.mem_cons_self))
  rw [← hlow,← hhigh,checkRange]
  cases checkBound lib.toCoerceLib (fun x limit => x.lt limit) ">=" field.minValue v with
  | error e => simp
  | ok _ =>
    cases checkBound lib.toCoerceLib (fun x limit => limit.lt x) "<=" field.maxValue v with
    | error e => simp [Except.map]
    | ok _ => simp [Except.map,eq_comm]

theorem checkText_iff : checkText lib.toCoerceLib field raw = .ok () ↔
    (∀ n, field.minLength = some n → n ≤ raw.length) ∧ (∀ n, field.maxLength = some n → n ≠ 0 → raw.length ≤ n) ∧
      ∀ p, field.pattern = some p → lib.search p raw = .ok true := by
  have hlong : (∀ n, field.minLength = some n → n ≤ raw.length) ↔ ¬(field.minLength.getD 0 ≠ 0 ∧ raw.length < field.minLength.getD 0) := by
    cases field.minLength with
    | none => simp
    | some n => simp; omega
  have hshort : (∀ n, field.maxLength = some n → n ≠ 0 → raw.length ≤ n) ↔
      ¬(field.maxLength.getD 0 ≠ 0 ∧ field.maxLength.getD 0 < raw.length) := by
    cases field.maxLength with
    | none => simp
    | some n => simp
  rw [hlong,hshort,checkText]
  by_cases hmin : field.minLength.getD 0 ≠ 0 ∧ raw.length < field.minLength.getD 0
  · simp [hmin]
  by_cases hmax : field.maxLength.getD 0 ≠ 0 ∧ field.maxLength.getD 0 < raw.length
  · simp [hmin,hmax]
  simp only [hmin,hmax,if_false,not_false_eq_true,true_and]
  cases hpattern : field.pattern with
  | none => simp
  | some p =>
    by_cases hp : p = ""
    · subst hp
      simp [lib.search_empty]
    · simp only [Option.some.injEq,forall_eq']
      cases hsearch : lib.search p raw with
      | error e => simp
      | ok found => cases found <;> simp

theorem coerceTyped_text {resolver : Option Resolver} (htype : field.dataType ∈ textTypes) :
    coerceTyped lib.toCoerceLib field resolver raw = some (.ok v) ↔ v = .text raw ∧ checkText lib.toCoerceLib field raw = .ok () := by
  have hparse : coerceTyped lib.toCoerceLib field resolver raw =
      some ((checkText lib.toCoerceLib field raw).map fun _ => .text raw) := by
    simp only [textTypes,List.mem_cons,List.not_mem_nil,or_false] at htype
    rcases htype with h | h | h <;> simp only [coerceTyped,h]
  rw [hparse]
  cases checkText lib.toCoerceLib field raw with
  | error e => simp [Except.map]
  | ok _ => simp [Except.map,eq_comm]

theorem coerceTyped_number {resolver : Option Resolver} (htype : field.dataType ∈ numberTypes) :
    coerceTyped lib.toCoerceLib field resolver raw = some (.ok v) ↔
      ∃ w, numberOf lib field raw = some w ∧ checkRange lib.toCoerceLib field w = .ok v := by
  have hint : (coerceInt lib.toCoerceLib raw).bind (checkRange lib.toCoerceLib field) = .ok v ↔
      ∃ w, (lib.int raw).map .int = some w ∧ checkRange lib.toCoerceLib field w = .ok v := by
    rw [coerceInt]
    cases lib.int raw <;> simp [parsed,Except.map,Except.bind]
  have hdecimal : coerceDecimal lib.toCoerceLib field raw = .ok v ↔
      ∃ w, (lib.decimal raw).map .decimal = some w ∧ checkRange lib.toCoerceLib field w = .ok v := by
    rw [coerceDecimal]
    cases lib.decimal raw <;> simp
  have hfloat : coerceFloat lib.toCoerceLib field raw = .ok v ↔
      ∃ w, (lib.float (.text raw)).map .float = some w ∧ checkRange lib.toCoerceLib field w = .ok v := by
    rw [coerceFloat]
    cases lib.float (.text raw) <;> simp [parsed]
  simp only [numberTypes,List.mem_cons,List.not_mem_nil,or_false] at htype
  rcases htype with h | h | h | h | h | h
  · simpa only [coerceTyped,numberOf,h,Option.some.injEq] using hint
  · simpa only [coerceTyped,numberOf,h,Option.some.injEq] using hint
  · simpa only [coerceTyped,numberOf,h,Option.some.injEq] using hdecimal
  · simpa only [coerceTyped,numberOf,h,Option.some.injEq] using hdecimal
  · simpa only [coerceTyped,numberOf,h,Option.some.injEq] using hdecimal
  · simpa only [coerceTyped,numberOf,h,Option.some.injEq] using hfloat

/-- What the parsers of the number types return. -/
theorem number_cases (hv : numberOf lib field raw = some v) :
    (∃ n : ℤ, v = .int n) ∨ (∃ d, v = .decimal d) ∨ ∃ y, v = .float y ∧ lib.float (.text raw) = some y := by
  simp only [numberOf] at hv
  cases htype : field.dataType <;> simp only [htype,reduceCtorEq,Option.map_eq_some_iff] at hv <;> obtain ⟨y,hy,rfl⟩ := hv
  case integer => exact Or.inl ⟨y,rfl⟩
  case bigint => exact Or.inl ⟨y,rfl⟩
  case float => exact Or.inr (Or.inr ⟨y,rfl,hy⟩)
  all_goals exact Or.inr (Or.inl ⟨y,rfl⟩)

/-- The float of a number that has been read is the number rounded. -/
theorem float_eq (hv : numberOf lib field raw = some v) (hx : v.exact = some x) {f : PyFloat} (hf : lib.float v = some f) :
    f = x.rounded := by
  rcases number_cases hv with ⟨n,rfl⟩ | ⟨d,rfl⟩ | ⟨y,rfl,hy⟩
  · obtain rfl := Option.some.inj hx
    rw [lib.float_int] at hf
    simp only [PyFloat.rounded]
    cases hround : PyFloat.round n with
    | finite q =>
      rw [hround] at hf
      exact (Option.some.inj hf).symm
    | _ =>
      rw [hround] at hf
      cases hf
  · obtain rfl := Option.some.inj hx
    rw [lib.float_decimal] at hf
    split at hf
    · cases hf
    · exact (Option.some.inj hf).symm
  · obtain rfl := Option.some.inj hx
    have hbinary := lib.float_binary raw y hy
    rw [lib.float_float y hbinary] at hf
    rw [hbinary]
    exact (Option.some.inj hf).symm

/-- A number that is taken keeps its bounds where the check can tell. -/
theorem keepsRange_of (hbounds : FiniteBounds lib field) (hv : numberOf lib field raw = some v) (hx : v.exact = some x)
    (hdistinct : (lib.float v).isSome = true → Distinct lib field x) {w : Value}
    (hcheck : checkRange lib.toCoerceLib field v = .ok w) : KeepsRange lib field x := by
  obtain ⟨-,hlow,hhigh⟩ := (checkRange_iff hbounds).mp hcheck
  have hbetween : ∀ q, boundOf lib field.minValue = some q → x.rounded = .round q → ¬Reversed lib field := by
    rintro q hq hround ⟨p,q',hp,hq',hlt⟩
    obtain rfl := Option.some.inj (hp.symm.trans hq)
    obtain ⟨f,hf,hpass⟩ := hhigh q' hq'
    rw [float_eq hv hx hf,hround,hlt] at hpass
    cases hpass
  have hbetween' : ∀ q, boundOf lib field.maxValue = some q → x.rounded = .round q → ¬Reversed lib field := by
    rintro q hq hround ⟨p,q',hp,hq',hlt⟩
    obtain rfl := Option.some.inj (hq'.symm.trans hq)
    obtain ⟨f,hf,hpass⟩ := hlow p hp
    rw [float_eq hv hx hf,hround,hlt] at hpass
    cases hpass
  constructor
  · intro q hq
    obtain ⟨f,hf,hpass⟩ := hlow q hq
    have hd := hdistinct (by rw [hf]; rfl)
    rw [float_eq hv hx hf] at hpass
    by_contra hbreaks
    have hnumber : x ≠ .nan := fun hnan => by simp [(hd.number hnan).1] at hq
    have hround := (PyFloat.missed_low hnumber hbreaks).mp hpass
    exact hbreaks (hd.low (hbetween q hq hround) q hq hround)
  · intro q hq
    obtain ⟨f,hf,hpass⟩ := hhigh q hq
    have hd := hdistinct (by rw [hf]; rfl)
    rw [float_eq hv hx hf] at hpass
    by_contra hbreaks
    have hnumber : x ≠ .nan := fun hnan => by simp [(hd.number hnan).2] at hq
    have hround := (PyFloat.missed_high hnumber hbreaks).mp hpass
    exact hbreaks (hd.high (hbetween' q hq hround) q hq hround)

/-- Where it cannot tell, a number is taken that breaks a bound. -/
theorem distinct_of (hbounds : FiniteBounds lib field) (hv : numberOf lib field raw = some v) (hx : v.exact = some x)
    (hfloat : (lib.float v).isSome = true)
    (hkeeps : checkRange lib.toCoerceLib field v = .ok v → KeepsRange lib field x) : Distinct lib field x := by
  obtain ⟨f,hf⟩ := Option.isSome_iff_exists.mp hfloat
  have heq := float_eq hv hx hf
  rw [heq] at hf
  rw [checkRange_iff hbounds] at hkeeps
  refine ⟨fun hnan => ?_,fun hbetween q hq hround => ?_,fun hbetween q hq hround => ?_⟩
  · subst hnan
    have hpass := hkeeps ⟨rfl,fun q _ => ⟨_,hf,rfl⟩,fun q _ => ⟨_,hf,by cases PyFloat.round q <;> rfl⟩⟩
    constructor
    · exact Option.eq_none_iff_forall_ne_some.mpr fun q hq => hpass.low q hq
    · exact Option.eq_none_iff_forall_ne_some.mpr fun q hq => hpass.high q hq
  · refine (hkeeps ⟨rfl,fun p hp => ⟨_,hf,?_⟩,fun p hp => ⟨_,hf,?_⟩⟩).low q hq
    · obtain rfl := Option.some.inj (hp.symm.trans hq)
      rw [hround,PyFloat.lt_self]
    · rw [hround]
      exact Bool.eq_false_iff.mpr fun hlt => hbetween ⟨q,p,hq,hp,hlt⟩
  · refine (hkeeps ⟨rfl,fun p hp => ⟨_,hf,?_⟩,fun p hp => ⟨_,hf,?_⟩⟩).high q hq
    · rw [hround]
      exact Bool.eq_false_iff.mpr fun hlt => hbetween ⟨p,q,hp,hq,hlt⟩
    · obtain rfl := Option.some.inj (hp.symm.trans hq)
      rw [hround,PyFloat.lt_self]

theorem text_obeys_iff (resolver : Option Resolver) (htype : field.dataType ∈ textTypes) (hne : raw ≠ "") :
    (∀ v, coerceTyped lib.toCoerceLib field resolver raw = some (.ok v) → v ≠ .null → Obeys lib field v) ↔ Told lib field raw := by
  have hnumber : field.dataType ∉ numberTypes := by
    have hdisjoint : ∀ dt ∈ textTypes, dt ∉ numberTypes := by decide
    exact hdisjoint _ htype
  have hpos : 0 < raw.length := Nat.pos_of_ne_zero fun hzero => hne (String.length_eq_zero_iff.mp hzero)
  constructor
  · refine fun hobeys => ⟨fun _ hmax hrest => ?_,fun v x hv => ?_⟩
    · have htaken : checkText lib.toCoerceLib field raw = .ok () := by
        refine checkText_iff.mpr ⟨hrest.1,fun n hn hn0 => ?_,hrest.2⟩
        exact absurd (Option.some.inj (hn.symm.trans hmax)) hn0
      obtain ⟨s,hs,hkeeps⟩ := (hobeys _ ((coerceTyped_text htype).mpr ⟨rfl,htaken⟩) Value.noConfusion).text htype
      obtain rfl : raw = s := by simpa using hs
      have hshort := hkeeps.short 0 hmax
      omega
    · have hnone : numberOf lib field raw = none := by
        simp only [textTypes,List.mem_cons,List.not_mem_nil,or_false] at htype
        rcases htype with h | h | h <;> simp only [numberOf,h]
      simp [hnone] at hv
  · intro htold v hv _
    obtain ⟨rfl,htaken⟩ := (coerceTyped_text htype).mp hv
    obtain ⟨hlong,hshort,hpattern⟩ := checkText_iff.mp htaken
    refine ⟨fun _ => ⟨raw,rfl,hlong,fun n hn => ?_,hpattern⟩,fun h => absurd h hnumber⟩
    by_cases hn0 : n = 0
    · exact absurd ⟨hlong,hpattern⟩ (htold.text htype (hn0 ▸ hn))
    · exact hshort n hn hn0

theorem number_obeys_iff (resolver : Option Resolver) (hbounds : FiniteBounds lib field) (htype : field.dataType ∈ numberTypes) :
    (∀ v, coerceTyped lib.toCoerceLib field resolver raw = some (.ok v) → v ≠ .null → Obeys lib field v) ↔ Told lib field raw := by
  have htext : field.dataType ∉ textTypes := by
    have hdisjoint : ∀ dt ∈ numberTypes, dt ∉ textTypes := by decide
    exact hdisjoint _ htype
  constructor
  · refine fun hobeys => ⟨fun h => absurd h htext,fun v x hv hx hfloat => distinct_of hbounds hv hx hfloat fun hcheck => ?_⟩
    have hnull : v ≠ .null := by
      rintro rfl
      cases hx
    obtain ⟨y,hy,hkeeps⟩ := (hobeys v ((coerceTyped_number htype).mpr ⟨v,hv,hcheck⟩) hnull).number htype
    obtain rfl := Option.some.inj (hx.symm.trans hy)
    exact hkeeps
  · intro htold v hv _
    obtain ⟨w,hw,hcheck⟩ := (coerceTyped_number htype).mp hv
    obtain ⟨rfl,-⟩ := (checkRange_iff hbounds).mp hcheck
    have hexact : ∃ x, v.exact = some x := by
      rcases number_cases hw with ⟨n,rfl⟩ | ⟨d,rfl⟩ | ⟨y,rfl,-⟩ <;> exact ⟨_,rfl⟩
    obtain ⟨x,hx⟩ := hexact
    exact ⟨fun h => absurd h htext,fun _ => ⟨x,hx,keepsRange_of hbounds hw hx (htold.number v x hw hx) hcheck⟩⟩

/-- The values that are taken keep the rules exactly when the check can tell. -/
theorem accepted_obeys_iff (lib : FloatLib) (field : MetaField) (resolver : Option Resolver) (cell : Option String)
    (hbounds : FiniteBounds lib field) :
    (∀ v, coerceValue lib.toCoerceLib field resolver cell = .ok v → v ≠ .null → Obeys lib field v) ↔
      strip (cell.getD "") = "" ∨ Told lib field (strip (cell.getD "")) := by
  generalize hraw : strip (cell.getD "") = raw
  by_cases hne : raw = ""
  · refine iff_of_true (fun v hv hnull => ?_) (Or.inl hne)
    simp only [coerceValue,hraw,if_pos hne,Except.ok.injEq] at hv
    exact absurd hv.symm hnull
  rw [or_iff_right hne]
  simp only [coerceValue_parsed hraw hne]
  by_cases htext : field.dataType ∈ textTypes
  · exact text_obeys_iff resolver htext hne
  by_cases hnumber : field.dataType ∈ numberTypes
  · exact number_obeys_iff resolver hbounds hnumber
  · have hnone : numberOf lib field raw = none := by
      cases htype : field.dataType <;> simp_all [numberTypes,numberOf]
    refine iff_of_true (fun v _ _ => ⟨fun h => absurd h htext,fun h => absurd h hnumber⟩) ⟨fun h => absurd h htext,?_⟩
    exact fun v x hv => by simp [hnone] at hv

end Checks

/-! ### A value that is no number -/

/-- `float` of the texts `0` and `nan`. -/
def plainText (s : String) : Option PyFloat :=
  if s = "0" then some (.finite 0) else if s = "nan" then some .nan else none

def plainFloat : Value → Option PyFloat
  | .text s => plainText s
  | .int n => (PyFloat.round n).fits
  | .decimal d => if d = .nan true then none else some d.exact.rounded
  | .float x => some x
  | _ => none

def plainNumeral (s : String) : Option ℚ := if s = "0" then some 0 else none

theorem plainFloat_numeral (s : String) (q : ℚ) (h : plainNumeral s = some q) : plainFloat (.text s) = some (.round q) := by
  simp only [plainNumeral] at h
  split at h
  · rename_i hs
    rw [← Option.some.inj h,PyFloat.round_zero,plainFloat,plainText,if_pos hs]
  · cases h

theorem plainFloat_binary (s : String) (x : PyFloat) (h : plainFloat (.text s) = some x) : x.rounded = x := by
  simp only [plainFloat,plainText] at h
  split at h
  · rw [← Option.some.inj h,PyFloat.rounded,PyFloat.round_zero]
  · split at h
    · obtain rfl := Option.some.inj h
      rfl
    · cases h

/-- The parsers on the texts `0`, `7` and `nan`. -/
def plainFloats : FloatLib where
  strOther := fun _ => ""
  float := plainFloat
  int := fun s => if s = "7" then some 7 else none
  isAlnum := Char.isAlphanum
  loads := fun _ => .error (.valueError "Expecting value")
  isDigit := fun _ => false
  lowercase := lower
  decimal := fun s => if s = "nan" then some (.nan false) else none
  isoDate := fun _ => none
  isoTime := fun _ => none
  isoDatetime := fun _ => none
  strptime := fun _ _ => none
  search := fun _ _ => .ok true
  dumps := fun _ => ""
  repr := fun _ => ""
  complaint := fun _ _ => ""
  numeral := plainNumeral
  float_numeral := plainFloat_numeral
  float_binary := plainFloat_binary
  float_int := fun _ => rfl
  float_decimal := fun _ => rfl
  float_float := fun _ _ => rfl
  search_empty := fun _ => rfl

/-- A field whose numbers start at 0. -/
def countField (dataType : DataType) : MetaField :=
  { id := 1,physName := "count",label := "Count",dataType := dataType,minValue := some "0" }

theorem countField_bounds (dataType : DataType) : FiniteBounds plainFloats (countField dataType) := by
  intro bound hbound s hs hne
  rcases List.mem_pair.mp hbound with rfl | rfl
  · obtain rfl := Option.some.inj hs
    rfl
  · cases hs

theorem accepted_obeys_iff_seven :
    (∀ v, coerceValue plainFloats.toCoerceLib (countField .integer) none (some "7") = .ok v → v ≠ .null →
      Obeys plainFloats (countField .integer) v) ↔
    strip "7" = "" ∨ Told plainFloats (countField .integer) (strip "7") :=
  accepted_obeys_iff plainFloats (countField .integer) none (some "7") (countField_bounds .integer)

/-- NaN is taken where the least value is 0. -/
theorem nan_accepted : ¬∀ (lib : FloatLib) (field : MetaField) (resolver : Option Resolver) (cell : Option String),
    FiniteBounds lib field → ∀ v, coerceValue lib.toCoerceLib field resolver cell = .ok v → v ≠ .null → Obeys lib field v := by
  intro h
  have htaken : coerceValue plainFloats.toCoerceLib (countField .decimal) none (some "nan") = .ok (.decimal (.nan false)) := by
    rfl
  have hobeys := h plainFloats (countField .decimal) none (some "nan") (countField_bounds .decimal) _ htaken Value.noConfusion
  obtain ⟨x,hx,hkeeps⟩ := hobeys.number (by decide)
  obtain rfl := Option.some.inj hx
  exact hkeeps.low 0 rfl

end Importer
end Biggy
