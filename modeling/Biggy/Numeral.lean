import Mathlib.Algebra.Order.Field.Power
import Mathlib.Algebra.Order.Field.Rat
import Mathlib.Tactic.NormNum
import Mathlib.Tactic.Positivity
import Mathlib.Tactic.Ring

/-!
# Decimal numerals

A numeral has a sign, digits with or without a point, and an exponent. Which characters are
digits is a parameter.
-/
namespace Biggy
namespace Numerals

/-- A numeral as it is read: the digits on both sides of the point, how many of them stand
behind it, and the exponent. -/
structure Numeral where
  negative : Bool
  digits : List ℕ
  scale : ℕ
  exponent : ℤ
  deriving DecidableEq

/-- The number that a row of digits stands for. -/
def natOf (digits : List ℕ) : ℕ := digits.foldl (fun n d => 10*n+d) 0

def Numeral.magnitude (x : Numeral) : ℚ := natOf x.digits*(10:ℚ)^(x.exponent-x.scale)

def Numeral.toRat (x : Numeral) : ℚ := if x.negative then -x.magnitude else x.magnitude

/-- The ten digits of ASCII. -/
def asciiDigit (c : Char) : Option ℕ := if 48 ≤ c.toNat ∧ c.toNat ≤ 57 then some (c.toNat-48) else none

section Reading

variable (digit : Char → Option ℕ)

def takeSign : List Char → Bool × List Char
  | '+'::cs => (false,cs)
  | '-'::cs => (true,cs)
  | cs => (false,cs)

def takeDigits : List Char → List ℕ × List Char
  | [] => ([],[])
  | c::cs =>
    match digit c with
    | some d => (d::(takeDigits cs).1,(takeDigits cs).2)
    | none => ([],c::cs)

/-- The digits behind a point. -/
def takeFraction : List Char → List ℕ × List Char
  | '.'::cs => takeDigits digit cs
  | cs => ([],cs)

/-- An exponent up to the end, where there is one. -/
def readExponent : List Char → Option ℤ
  | [] => some 0
  | c::cs =>
    if c = 'e' ∨ c = 'E' then
      let (negative,cs) := takeSign cs
      let (digits,rest) := takeDigits digit cs
      if digits = [] ∨ rest ≠ [] then none else some (if negative then -(natOf digits : ℤ) else natOf digits)
    else none

/-- `[+-]? \d* (\. \d*)? (e [+-]? \d+)?` with a digit before the exponent. -/
def parse (cs : List Char) : Option Numeral :=
  let (negative,cs) := takeSign cs
  let (whole,cs) := takeDigits digit cs
  let (fraction,cs) := takeFraction digit cs
  if whole = [] ∧ fraction = [] then none
  else (readExponent digit cs).map fun exponent => ⟨negative,whole++fraction,fraction.length,exponent⟩

end Reading

/-! ### What is read -/

section Read

variable {digit digit' : Char → Option ℕ}

theorem takeDigits_lt {cs : List Char} : ∀ d ∈ (takeDigits asciiDigit cs).1, d < 10 := by
  induction cs with
  | nil => simp [takeDigits]
  | cons c cs ih =>
    cases hc : asciiDigit c with
    | none => simp [takeDigits,hc]
    | some d =>
      have hd : d < 10 := by
        simp only [asciiDigit] at hc
        split at hc
        · rename_i hrange
          have heq := Option.some.inj hc
          omega
        · cases hc
      simpa [takeDigits,hc,hd] using ih

theorem takeFraction_lt {cs : List Char} : ∀ d ∈ (takeFraction asciiDigit cs).1, d < 10 := by
  unfold takeFraction
  split
  · exact takeDigits_lt
  · simp

theorem parse_lt {cs : List Char} {x : Numeral} (h : parse asciiDigit cs = some x) : ∀ d ∈ x.digits, d < 10 := by
  simp only [parse] at h
  split at h
  · cases h
  · obtain ⟨exponent,-,rfl⟩ := Option.map_eq_some_iff.mp h
    intro d hd
    rcases List.mem_append.mp hd with hd | hd
    · exact takeDigits_lt d hd
    · exact takeFraction_lt d hd

theorem takeSign_subset (cs : List Char) : (takeSign cs).2 ⊆ cs := by
  unfold takeSign
  split <;> simp

theorem takeDigits_congr {cs : List Char} (h : ∀ c ∈ cs, digit c = digit' c) :
    takeDigits digit cs = takeDigits digit' cs ∧ (takeDigits digit' cs).2 ⊆ cs := by
  induction cs with
  | nil => simp [takeDigits]
  | cons c cs ih =>
    obtain ⟨hsame,hsub⟩ := ih fun d hd => h d (List.mem_cons_of_mem c hd)
    have hc := h c List.mem_cons_self
    cases hd : digit' c with
    | none => simp [takeDigits,hc,hd]
    | some d =>
      simp only [takeDigits,hc,hd,hsame,true_and]
      exact List.Subset.trans hsub (List.subset_cons_self c cs)

theorem takeFraction_congr {cs : List Char} (h : ∀ c ∈ cs, digit c = digit' c) :
    takeFraction digit cs = takeFraction digit' cs ∧ (takeFraction digit' cs).2 ⊆ cs := by
  cases cs with
  | nil => simp [takeFraction]
  | cons c cs =>
    by_cases hc : c = '.'
    · subst hc
      obtain ⟨hsame,hsub⟩ := takeDigits_congr fun d hd => h d (List.mem_cons_of_mem _ hd)
      exact ⟨hsame,List.Subset.trans hsub (List.subset_cons_self _ cs)⟩
    · simp [takeFraction,hc]

theorem readExponent_congr {cs : List Char} (h : ∀ c ∈ cs, digit c = digit' c) :
    readExponent digit cs = readExponent digit' cs := by
  cases cs with
  | nil => rfl
  | cons c cs =>
    have hrest : takeDigits digit (takeSign cs).2 = takeDigits digit' (takeSign cs).2 :=
      (takeDigits_congr fun d hd => h d (List.mem_cons_of_mem c (takeSign_subset cs hd))).1
    simp only [readExponent,hrest]

/-- The numerals depend on the digits of the text only. -/
theorem parse_congr {cs : List Char} (h : ∀ c ∈ cs, digit c = digit' c) : parse digit cs = parse digit' cs := by
  obtain ⟨hwhole,hsub⟩ := takeDigits_congr fun d hd => h d (takeSign_subset cs hd)
  have hrest := List.Subset.trans hsub (takeSign_subset cs)
  obtain ⟨hfraction,hsub'⟩ := takeFraction_congr fun d hd => h d (hrest hd)
  have hexponent := readExponent_congr fun d hd => h d (hrest (hsub' hd))
  simp only [parse,hwhole,hfraction,hexponent]

end Read

/-! ### Comparing digits -/

section Digits

variable {digits xs ys : List ℕ}

theorem foldl_digits (digits : List ℕ) (n : ℕ) :
    digits.foldl (fun n d => 10*n+d) n = n*10^digits.length+natOf digits := by
  induction digits generalizing n with
  | nil => simp [natOf]
  | cons d digits ih =>
    have hzero := ih (10*0+d)
    rw [natOf,List.foldl_cons,List.foldl_cons,ih,hzero,List.length_cons,pow_succ]
    ring

theorem natOf_cons (d : ℕ) : natOf (d::digits) = d*10^digits.length+natOf digits := by
  rw [natOf,List.foldl_cons,foldl_digits]
  ring

theorem natOf_append : natOf (xs++ys) = natOf xs*10^ys.length+natOf ys := by
  rw [natOf,List.foldl_append,foldl_digits]
  rfl

theorem natOf_zeros (n : ℕ) : natOf (List.replicate n 0) = 0 := by
  induction n with
  | zero => rfl
  | succ n ih => rw [List.replicate_succ,natOf_cons,ih,Nat.zero_mul]

theorem natOf_lt (h : ∀ d ∈ digits, d < 10) : natOf digits < 10^digits.length := by
  induction digits with
  | nil => simp [natOf]
  | cons d digits ih =>
    have hd := h d List.mem_cons_self
    have hrest := ih fun x hx => h x (List.mem_cons_of_mem d hx)
    rw [natOf_cons,List.length_cons,pow_succ]
    calc d*10^digits.length+natOf digits < d*10^digits.length+10^digits.length := by omega
      _ = (d+1)*10^digits.length := by ring
      _ ≤ 10*10^digits.length := Nat.mul_le_mul_right _ hd
      _ = 10^digits.length*10 := by ring

theorem natOf_dropWhile : natOf (digits.dropWhile (· = 0)) = natOf digits := by
  induction digits with
  | nil => rfl
  | cons d digits ih =>
    by_cases hd : d = 0
    · subst hd
      rw [List.dropWhile_cons_of_pos (by simp),ih,natOf_cons,Nat.zero_mul,Nat.zero_add]
    · rw [List.dropWhile_cons_of_neg (by simpa using hd)]

/-- Digits without a leading zero fill their length. -/
theorem le_natOf (hne : digits.dropWhile (· = 0) ≠ []) :
    10^((digits.dropWhile (· = 0)).length-1) ≤ natOf (digits.dropWhile (· = 0)) := by
  cases hdrop : digits.dropWhile (· = 0) with
  | nil => exact absurd hdrop hne
  | cons d rest =>
    have hd : d ≠ 0 := by
      have hhead := List.head_dropWhile_not (fun d : ℕ => decide (d = 0)) hne
      simpa [hdrop] using hhead
    rw [natOf_cons,List.length_cons,Nat.add_sub_cancel]
    calc 10^rest.length = 1*10^rest.length := (one_mul _).symm
      _ ≤ d*10^rest.length := Nat.mul_le_mul_right _ (Nat.one_le_iff_ne_zero.mpr hd)
      _ ≤ d*10^rest.length+natOf rest := Nat.le_add_right _ _

/-- Rows of digits of one length compare like their numbers. -/
theorem lt_iff_natOf (hxs : ∀ d ∈ xs, d < 10) (hys : ∀ d ∈ ys, d < 10) (hlength : xs.length = ys.length) :
    xs < ys ↔ natOf xs < natOf ys := by
  induction xs generalizing ys with
  | nil =>
    obtain rfl := List.length_eq_zero_iff.mp hlength.symm
    simp
  | cons x xs ih =>
    cases ys with
    | nil => simp at hlength
    | cons y ys =>
      have hxs' : ∀ d ∈ xs, d < 10 := fun d hd => hxs d (List.mem_cons_of_mem x hd)
      have hys' : ∀ d ∈ ys, d < 10 := fun d hd => hys d (List.mem_cons_of_mem y hd)
      have hlen : xs.length = ys.length := by simpa using hlength
      have hx := natOf_lt hxs'
      have hy := natOf_lt hys'
      rw [List.cons_lt_cons_iff,ih hxs' hys' hlen,natOf_cons,natOf_cons,hlen]
      rw [hlen] at hx
      rcases lt_trichotomy x y with hlt | rfl | hgt
      · have hstep : (x+1)*10^ys.length ≤ y*10^ys.length := Nat.mul_le_mul_right _ hlt
        have hexpand : (x+1)*10^ys.length = x*10^ys.length+10^ys.length := by ring
        exact iff_of_true (Or.inl hlt) (by omega)
      · simp
      · have hstep : (y+1)*10^ys.length ≤ x*10^ys.length := Nat.mul_le_mul_right _ hgt
        have hexpand : (y+1)*10^ys.length = y*10^ys.length+10^ys.length := by ring
        exact iff_of_false (by omega) (by omega)

end Digits

/-- Zeros behind the digits, up to a length. -/
def pad (n : ℕ) (digits : List ℕ) : List ℕ := digits++List.replicate (n-digits.length) 0

theorem length_pad {n : ℕ} {digits : List ℕ} (h : digits.length ≤ n) : (pad n digits).length = n := by
  rw [pad,List.length_append,List.length_replicate]
  omega

theorem pad_lt {n : ℕ} {digits : List ℕ} (h : ∀ d ∈ digits, d < 10) : ∀ d ∈ pad n digits, d < 10 := by
  intro d hd
  rcases List.mem_append.mp hd with hd | hd
  · exact h d hd
  · rw [List.eq_of_mem_replicate hd]
    decide

/-- The digits from the first one on that is no zero. -/
def Numeral.significant (x : Numeral) : List ℕ := x.digits.dropWhile (· = 0)

/-- Where the point stands, counted from the first significant digit. -/
def Numeral.point (x : Numeral) : ℤ := x.significant.length-x.scale+x.exponent

section Compare

variable {x y : Numeral}

theorem magnitude_pad {n : ℕ} (hn : x.significant.length ≤ n) :
    x.magnitude = natOf (pad n x.significant)*(10:ℚ)^(x.point-n) := by
  have hpad : natOf (pad n x.significant) = natOf x.digits*10^(n-x.significant.length) := by
    rw [pad,natOf_append,natOf_zeros,List.length_replicate,Nat.add_zero,Numeral.significant,natOf_dropWhile]
  have hpoint : x.exponent-x.scale = ((n-x.significant.length : ℕ) : ℤ)+(x.point-n) := by
    simp only [Numeral.point]
    omega
  have hpow : (10:ℚ)^(x.exponent-x.scale) = (10:ℚ)^(n-x.significant.length)*(10:ℚ)^(x.point-n) := by
    rw [hpoint,zpow_add₀ (by norm_num),zpow_natCast]
  rw [Numeral.magnitude,hpad,hpow]
  push_cast
  ring

theorem significant_lt (hx : ∀ d ∈ x.digits, d < 10) : ∀ d ∈ x.significant, d < 10 :=
  fun d hd => hx d ((List.dropWhile_suffix _).subset hd)

theorem magnitude_lt (hx : ∀ d ∈ x.digits, d < 10) : x.magnitude < (10:ℚ)^x.point := by
  have hlt := natOf_lt (significant_lt hx)
  have hpad := magnitude_pad (x := x) (n := x.significant.length) le_rfl
  rw [pad,Nat.sub_self,List.replicate_zero,List.append_nil] at hpad
  have hcast : (natOf x.significant : ℚ) < (10:ℚ)^x.significant.length := by exact_mod_cast hlt
  have hsplit : (10:ℚ)^x.point = (10:ℚ)^x.significant.length*(10:ℚ)^(x.point-x.significant.length) := by
    rw [← zpow_natCast,← zpow_add₀ (by norm_num)]
    congr 1
    ring
  rw [hpad,hsplit]
  exact mul_lt_mul_of_pos_right hcast (by positivity)

theorem le_magnitude (hx : x.significant ≠ []) : (10:ℚ)^(x.point-1) ≤ x.magnitude := by
  have hle := le_natOf hx
  have hlen : 1 ≤ x.significant.length := List.length_pos_iff.mpr hx
  have hpad := magnitude_pad (x := x) (n := x.significant.length) le_rfl
  rw [pad,Nat.sub_self,List.replicate_zero,List.append_nil] at hpad
  have hcast : (10:ℚ)^(x.significant.length-1) ≤ (natOf x.significant : ℚ) := by exact_mod_cast hle
  have hsplit : (10:ℚ)^(x.point-1) = (10:ℚ)^(x.significant.length-1)*(10:ℚ)^(x.point-x.significant.length) := by
    rw [← zpow_natCast,← zpow_add₀ (by norm_num)]
    congr 1
    push_cast [hlen]
    ring
  rw [hpad,hsplit]
  exact mul_le_mul_of_nonneg_right hcast (by positivity)

theorem magnitude_eq_zero (hx : x.significant = []) : x.magnitude = 0 := by
  have hpad := magnitude_pad (x := x) (n := 0) (by simp [hx])
  rw [hpad,hx]
  simp [pad,natOf]

theorem magnitude_pos (hx : x.significant ≠ []) : 0 < x.magnitude :=
  lt_of_lt_of_le (by positivity) (le_magnitude hx)

/-- A point further to the right makes the greater number. -/
theorem magnitude_lt_of_point (hx : ∀ d ∈ x.digits, d < 10) (hy : y.significant ≠ []) (h : x.point < y.point) :
    x.magnitude < y.magnitude :=
  calc x.magnitude < (10:ℚ)^x.point := magnitude_lt hx
    _ ≤ (10:ℚ)^(y.point-1) := zpow_le_zpow_right₀ (by norm_num) (by omega)
    _ ≤ y.magnitude := le_magnitude hy

/-- With the point in one place the padded digits decide. -/
theorem magnitude_lt_iff (hx : ∀ d ∈ x.digits, d < 10) (hy : ∀ d ∈ y.digits, d < 10) (h : x.point = y.point)
    {n : ℕ} (hxn : x.significant.length ≤ n) (hyn : y.significant.length ≤ n) :
    x.magnitude < y.magnitude ↔ pad n x.significant < pad n y.significant := by
  rw [lt_iff_natOf (pad_lt (significant_lt hx)) (pad_lt (significant_lt hy)) ((length_pad hxn).trans (length_pad hyn).symm),
    magnitude_pad hxn,magnitude_pad hyn,h,mul_lt_mul_iff_left₀ (by positivity)]
  exact_mod_cast Iff.rfl

end Compare

end Numerals
end Biggy
