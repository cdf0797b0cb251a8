import Biggy.FormAgree
import Mathlib.Data.Sign.Basic
import Mathlib.Tactic.FieldSimp
import Mathlib.Data.Int.Order.Basic

/-!
# Numbers in the browser

The numbers that `decimal` of `form-rules.js` accepts, as they are written and as the rationals they stand for: `compare`
gives the sign of their difference, however many digits they have.
-/
namespace Biggy
namespace FormRules

open Numerals

/-! ### Literals -/

/-- The character of a digit. -/
def digitChar (d : Fin 10) : Char := Char.ofNat (48+d)

def digitText (ds : List (Fin 10)) : List Char := ds.map digitChar

/-- A sign as it is written, `true` for a minus. -/
def signText : Option Bool → List Char
  | none => []
  | some false => ['+']
  | some true => ['-']

def signValue (sign : Option Bool) : ℤ := if sign = some true then -1 else 1

/-- The number that a row of digits is in base ten. -/
def digitValue (ds : List (Fin 10)) : ℕ := natOf (ds.map Fin.val)

/-- A written exponent. -/
structure ScriptExponent where
  capital : Bool
  sign : Option Bool
  digits : List (Fin 10)
  some_digit : digits ≠ []

def ScriptExponent.text (e : ScriptExponent) : List Char :=
  (if e.capital then 'E' else 'e')::(signText e.sign++digitText e.digits)

def ScriptExponent.value (e : ScriptExponent) : ℤ := signValue e.sign*digitValue e.digits

/-- A number as it is written: blanks, a sign, digits, a point and digits, an exponent, blanks. -/
structure ScriptLiteral where
  before : List Char
  sign : Option Bool
  whole : List (Fin 10)
  fraction : Option (List (Fin 10))
  exponent : Option ScriptExponent
  after : List Char
  before_blank : ∀ c ∈ before, isBlank c = true
  after_blank : ∀ c ∈ after, isBlank c = true
  some_digit : whole ≠ [] ∨ fraction.getD [] ≠ []

def fractionText : Option (List (Fin 10)) → List Char
  | none => []
  | some ds => '.'::digitText ds

def exponentText : Option ScriptExponent → List Char
  | none => []
  | some e => e.text

def power : Option ScriptExponent → ℤ
  | none => 0
  | some e => e.value

namespace ScriptLiteral

variable (a : ScriptLiteral)

/-- The text between the blanks. -/
def core : List Char := signText a.sign++(digitText a.whole++(fractionText a.fraction++exponentText a.exponent))

def text : String := String.ofList (a.before++(a.core++a.after))

/-- The number that is written: a sign, a whole and a fractional part, and a power of ten. -/
def value : ℚ :=
  signValue a.sign*(digitValue a.whole+digitValue (a.fraction.getD [])/(10:ℚ)^(a.fraction.getD []).length)*(10:ℚ)^power a.exponent

end ScriptLiteral

/-! ### Reading a literal -/

theorem asciiDigit_digitChar (d : Fin 10) : asciiDigit (digitChar d) = some d.val := by
  revert d
  decide

/-- What does not begin with a digit. -/
def NoDigit (cs : List Char) : Prop := ∀ c rest, cs = c::rest → asciiDigit c = none

theorem noDigit_nil : NoDigit [] := by
  intro c rest h
  cases h

theorem takeDigits_text {ds : List (Fin 10)} {cs : List Char} (h : NoDigit cs) :
    takeDigits asciiDigit (digitText ds++cs) = (ds.map Fin.val,cs) := by
  induction ds with
  | nil =>
    rcases cs with _ | ⟨c,cs⟩
    · rfl
    · simp [digitText,takeDigits,h c cs rfl]
  | cons d ds ih =>
    rw [digitText] at ih ⊢
    rw [List.map_cons,List.cons_append,takeDigits,asciiDigit_digitChar]
    simp only [ih,List.map_cons]

theorem takeSign_text {sign : Option Bool} {cs : List Char} (h : ∀ c rest, cs = c::rest → c ≠ '+' ∧ c ≠ '-') :
    takeSign (signText sign++cs) = (decide (sign = some true),cs) := by
  match sign with
  | some false => rfl
  | some true => rfl
  | none =>
    rcases cs with _ | ⟨c,cs⟩
    · rfl
    · obtain ⟨hplus,hminus⟩ := h c cs rfl
      simp [signText,takeSign,hplus,hminus]

theorem digitChar_ne (d : Fin 10) : digitChar d ≠ '+' ∧ digitChar d ≠ '-' ∧ isBlank (digitChar d) = false := by
  revert d
  decide

theorem digitText_head {ds : List (Fin 10)} {cs : List Char} (hcs : ∀ c rest, cs = c::rest → c ≠ '+' ∧ c ≠ '-') :
    ∀ c rest, digitText ds++cs = c::rest → c ≠ '+' ∧ c ≠ '-' := by
  intro c rest h
  rcases ds with _ | ⟨d,ds⟩
  · exact hcs c rest h
  · obtain ⟨rfl,-⟩ := List.cons.inj h
    exact ⟨(digitChar_ne d).1,(digitChar_ne d).2.1⟩

theorem readExponent_text (e : ScriptExponent) : readExponent asciiDigit e.text = some e.value := by
  have hsign : takeSign (signText e.sign++digitText e.digits) = (decide (e.sign = some true),digitText e.digits) :=
    takeSign_text (by simpa using @digitText_head e.digits [] (by simp))
  have hdigits : takeDigits asciiDigit (digitText e.digits) = (e.digits.map Fin.val,[]) := by
    simpa using @takeDigits_text e.digits [] noDigit_nil
  have hsome : e.digits.map Fin.val ≠ [] := by simpa using e.some_digit
  have hletter : (if e.capital then 'E' else 'e') = 'e' ∨ (if e.capital then 'E' else 'e') = 'E' := by
    cases e.capital <;> simp
  rw [ScriptExponent.text,readExponent,if_pos hletter]
  simp only [hsign,hdigits,hsome,ne_eq,not_true_eq_false,or_self,if_false,ScriptExponent.value,signValue,digitValue]
  by_cases h : e.sign = some true <;> simp [h]

theorem exponentText_head (exponent : Option ScriptExponent) (c : Char) (rest : List Char)
    (h : exponentText exponent = c::rest) : c = 'e' ∨ c = 'E' := by
  rcases exponent with _ | e
  · cases h
  · obtain ⟨rfl,-⟩ := List.cons.inj h
    cases e.capital <;> simp

theorem tail_head (fraction : Option (List (Fin 10))) (exponent : Option ScriptExponent) (c : Char) (rest : List Char)
    (h : fractionText fraction++exponentText exponent = c::rest) : c = '.' ∨ c = 'e' ∨ c = 'E' := by
  rcases fraction with _ | ds
  · exact Or.inr (exponentText_head exponent c rest h)
  · obtain ⟨rfl,-⟩ := List.cons.inj h
    exact Or.inl rfl

theorem takeFraction_text (fraction : Option (List (Fin 10))) (exponent : Option ScriptExponent) :
    takeFraction asciiDigit (fractionText fraction++exponentText exponent) =
      ((fraction.getD []).map Fin.val,exponentText exponent) := by
  have hnone : NoDigit (exponentText exponent) := by
    intro c rest h
    rcases exponentText_head exponent c rest h with rfl | rfl <;> rfl
  rcases fraction with _ | ds
  · rw [fractionText,List.nil_append]
    rcases hexponent : exponentText exponent with _ | ⟨c,rest⟩
    · rfl
    · rcases exponentText_head exponent c rest hexponent with rfl | rfl <;> rfl
  · exact takeDigits_text hnone

theorem readExponent_exponentText (exponent : Option ScriptExponent) :
    readExponent asciiDigit (exponentText exponent) = some (power exponent) := by
  rcases exponent with _ | e
  · rfl
  · exact readExponent_text e

namespace ScriptLiteral

variable (a : ScriptLiteral)

/-- The literal as the code reads it. -/
def numeral : Numeral :=
  ⟨decide (a.sign = some true),a.whole.map Fin.val++(a.fraction.getD []).map Fin.val,(a.fraction.getD []).length,power a.exponent⟩

theorem parse_core : parse asciiDigit a.core = some a.numeral := by
  have hhead : ∀ c rest, digitText a.whole++(fractionText a.fraction++exponentText a.exponent) = c::rest → c ≠ '+' ∧ c ≠ '-' := by
    refine digitText_head fun c rest h => ?_
    rcases tail_head _ _ c rest h with rfl | rfl | rfl <;> decide
  have hnone : NoDigit (fractionText a.fraction++exponentText a.exponent) := by
    intro c rest h
    rcases tail_head _ _ c rest h with rfl | rfl | rfl <;> rfl
  have hsome : ¬(a.whole.map Fin.val = [] ∧ (a.fraction.getD []).map Fin.val = []) := by
    rintro ⟨hwhole,hfraction⟩
    rcases a.some_digit with h | h
    · exact h (List.map_eq_nil_iff.mp hwhole)
    · exact h (List.map_eq_nil_iff.mp hfraction)
  simp only [parse,core,takeSign_text hhead,takeDigits_text hnone,takeFraction_text,readExponent_exponentText,Option.map_some]
  rw [if_neg hsome,List.length_map]
  rfl

theorem toRat_numeral : a.numeral.toRat = a.value := by
  have hten : (10:ℚ) ≠ 0 := by norm_num
  have hmagnitude : a.numeral.magnitude =
      (digitValue a.whole+digitValue (a.fraction.getD [])/(10:ℚ)^(a.fraction.getD []).length)*(10:ℚ)^power a.exponent := by
    rw [Numeral.magnitude]
    simp only [numeral,natOf_append,List.length_map,zpow_sub₀ hten,zpow_natCast,digitValue]
    push_cast
    field_simp
  rw [Numeral.toRat,hmagnitude,value,signValue]
  by_cases h : a.sign = some true
  · simp only [numeral,h,decide_true,if_true]
    push_cast
    ring
  · simp only [numeral,h,decide_false,if_false,Bool.false_eq_true]
    push_cast
    ring

theorem core_solid {c : Char} (h : c ∈ a.core) : isBlank c = false := by
  have hdigits (ds : List (Fin 10)) (hc : c ∈ digitText ds) : isBlank c = false := by
    obtain ⟨d,-,rfl⟩ := List.mem_map.mp hc
    exact (digitChar_ne d).2.2
  have hsigns (sign : Option Bool) (hc : c ∈ signText sign) : isBlank c = false := by
    match sign,hc with
    | some false,hc => rw [List.mem_singleton.mp hc]; decide
    | some true,hc => rw [List.mem_singleton.mp hc]; decide
  rw [core,List.mem_append,List.mem_append,List.mem_append] at h
  rcases h with h | h | h | h
  · exact hsigns _ h
  · exact hdigits _ h
  · rcases hf : a.fraction with _ | ds
    · rw [hf] at h
      cases h
    · rw [hf] at h
      rcases List.mem_cons.mp h with rfl | h
      · decide
      · exact hdigits _ h
  · rcases he : a.exponent with _ | e
    · rw [he] at h
      cases h
    · rw [he] at h
      rcases List.mem_cons.mp h with rfl | h
      · cases e.capital <;> decide
      · rcases List.mem_append.mp h with h | h
        · exact hsigns _ h
        · exact hdigits _ h

theorem core_ne_nil : a.core ≠ [] := by
  intro h
  have hparse := a.parse_core
  rw [h] at hparse
  cases hparse

end ScriptLiteral

theorem dropWhile_blanks {blanks solid : List Char} (hblank : ∀ c ∈ blanks, isBlank c = true)
    (hsolid : ∀ c ∈ solid, isBlank c = false) (hne : solid ≠ []) (rest : List Char) :
    (blanks++(solid++rest)).dropWhile isBlank = solid++rest := by
  rw [List.dropWhile_append_of_pos hblank]
  obtain ⟨c,solid,rfl⟩ := List.exists_cons_of_ne_nil hne
  rw [List.cons_append,List.dropWhile_cons_of_neg]
  rw [hsolid c List.mem_cons_self]
  decide

theorem trim_text (a : ScriptLiteral) : trim a.text = a.core := by
  have hafter : (a.core++a.after).reverse = a.after.reverse++(a.core.reverse++[]) := by
    rw [List.reverse_append,List.append_nil]
  rw [trim,ScriptLiteral.text,String.toList_ofList,
    dropWhile_blanks a.before_blank (fun c hc => a.core_solid hc) a.core_ne_nil,hafter,
    dropWhile_blanks (fun c hc => a.after_blank c (List.mem_reverse.mp hc)) (fun c hc => a.core_solid (List.mem_reverse.mp hc))
      (by simpa using a.core_ne_nil),
    List.append_nil,List.reverse_reverse]

theorem scriptDecimal_text (a : ScriptLiteral) : scriptDecimal a.text = some (ofNumeral a.numeral) := by
  rw [scriptDecimal,trim_text,a.parse_core,Option.map_some]

/-! ### Every number that is accepted -/

theorem digitChar_of_ascii {c : Char} {n : ℕ} (h : asciiDigit c = some n) : ∃ d : Fin 10, digitChar d = c ∧ d.val = n := by
  rw [asciiDigit] at h
  by_cases hrange : 48 ≤ c.toNat ∧ c.toNat ≤ 57
  · rw [if_pos hrange] at h
    have hn := Option.some.inj h
    refine ⟨⟨n,by omega⟩,?_,rfl⟩
    rw [digitChar,show 48+n = c.toNat by omega,Char.ofNat_toNat]
  · rw [if_neg hrange] at h
    cases h

theorem takeDigits_split (cs : List Char) : ∃ ds : List (Fin 10),
    cs = digitText ds++(takeDigits asciiDigit cs).2 ∧ (takeDigits asciiDigit cs).1 = ds.map Fin.val := by
  induction cs with
  | nil => exact ⟨[],rfl,rfl⟩
  | cons c cs ih =>
    rcases hc : asciiDigit c with _ | n
    · exact ⟨[],by simp [takeDigits,hc,digitText],by simp [takeDigits,hc]⟩
    · obtain ⟨ds,hcs,hds⟩ := ih
      obtain ⟨d,rfl,rfl⟩ := digitChar_of_ascii hc
      refine ⟨d::ds,?_,by simp only [takeDigits,hc,hds,List.map_cons]⟩
      simp only [takeDigits,hc]
      exact congrArg (digitChar d::·) hcs

theorem takeSign_split (cs : List Char) : ∃ sign : Option Bool, cs = signText sign++(takeSign cs).2 := by
  unfold takeSign
  split
  · exact ⟨some false,rfl⟩
  · exact ⟨some true,rfl⟩
  · exact ⟨none,rfl⟩

theorem takeFraction_split (cs : List Char) : ∃ fraction : Option (List (Fin 10)),
    cs = fractionText fraction++(takeFraction asciiDigit cs).2 ∧
      (takeFraction asciiDigit cs).1 = (fraction.getD []).map Fin.val := by
  unfold takeFraction
  split
  · rename_i rest
    obtain ⟨ds,hcs,hds⟩ := takeDigits_split rest
    exact ⟨some ds,congrArg ('.' :: ·) hcs,hds⟩
  · exact ⟨none,rfl,rfl⟩

theorem readExponent_split {cs : List Char} {e : ℤ} (h : readExponent asciiDigit cs = some e) :
    ∃ exponent : Option ScriptExponent, cs = exponentText exponent := by
  rcases cs with _ | ⟨c,cs⟩
  · exact ⟨none,rfl⟩
  · rw [readExponent] at h
    by_cases hletter : c = 'e' ∨ c = 'E'
    · rw [if_pos hletter] at h
      obtain ⟨sign,hsign⟩ := takeSign_split cs
      obtain ⟨ds,hcs,hds⟩ := takeDigits_split (takeSign cs).2
      by_cases hstop : (takeDigits asciiDigit (takeSign cs).2).1 = [] ∨ (takeDigits asciiDigit (takeSign cs).2).2 ≠ []
      · simp only [hstop,if_true] at h
        cases h
      · obtain ⟨hsome,hend⟩ := not_or.mp hstop
        have hne : ds ≠ [] := by
          rintro rfl
          exact hsome hds
        have hrest : (takeSign cs).2 = digitText ds := by
          rw [hcs,not_not.mp hend,List.append_nil]
        refine ⟨some ⟨decide (c = 'E'),sign,ds,hne⟩,?_⟩
        rw [exponentText,ScriptExponent.text,← hrest,← hsign]
        rcases hletter with rfl | rfl <;> rfl
    · rw [if_neg hletter] at h
      cases h

theorem core_of_parse {cs : List Char} {x : Numeral} (h : parse asciiDigit cs = some x) : ∃ a : ScriptLiteral, a.core = cs := by
  obtain ⟨sign,hsign⟩ := takeSign_split cs
  obtain ⟨whole,hwhole,hwholeDigits⟩ := takeDigits_split (takeSign cs).2
  obtain ⟨fraction,hfraction,hfractionDigits⟩ := takeFraction_split (takeDigits asciiDigit (takeSign cs).2).2
  simp only [parse] at h
  split at h
  · cases h
  · rename_i hsome
    obtain ⟨e,he,-⟩ := Option.map_eq_some_iff.mp h
    obtain ⟨exponent,hexponent⟩ := readExponent_split he
    have hdigit : whole ≠ [] ∨ fraction.getD [] ≠ [] := by
      by_contra hnone
      obtain ⟨hw,hf⟩ := not_or.mp hnone
      refine hsome ⟨?_,?_⟩
      · rw [hwholeDigits,not_not.mp hw,List.map_nil]
      · rw [hfractionDigits,not_not.mp hf,List.map_nil]
    refine ⟨⟨[],sign,whole,fraction,exponent,[],by simp,by simp,hdigit⟩,?_⟩
    rw [ScriptLiteral.core,← hexponent,← hfraction,← hwhole,← hsign]

theorem trim_split (s : String) : ∃ before after : List Char, s.toList = before++(trim s++after) ∧
    (∀ c ∈ before, isBlank c = true) ∧ ∀ c ∈ after, isBlank c = true := by
  refine ⟨s.toList.takeWhile isBlank,(((s.toList.dropWhile isBlank).reverse).takeWhile isBlank).reverse,?_,
    fun c hc => List.mem_takeWhile_imp hc,fun c hc => List.mem_takeWhile_imp (List.mem_reverse.mp hc)⟩
  rw [trim,← List.reverse_append,List.takeWhile_append_dropWhile,List.reverse_reverse,List.takeWhile_append_dropWhile]

/-- What `decimal` accepts are the texts of the literals. -/
theorem accepted_iff (s : String) : (scriptDecimal s).isSome = true ↔ ∃ a : ScriptLiteral, a.text = s := by
  constructor
  · intro h
    obtain ⟨x,hx⟩ := Option.isSome_iff_exists.mp h
    obtain ⟨n,hn,-⟩ := Option.map_eq_some_iff.mp hx
    obtain ⟨a,ha⟩ := core_of_parse hn
    obtain ⟨before,after,hs,hbefore,hafter⟩ := trim_split s
    refine ⟨⟨before,a.sign,a.whole,a.fraction,a.exponent,after,hbefore,hafter,a.some_digit⟩,?_⟩
    rw [ScriptLiteral.text,← String.ofList_toList (s := s),hs,← ha]
    rfl
  · rintro ⟨a,rfl⟩
    rw [scriptDecimal_text]
    rfl

/-! ### Comparing -/

theorem compareDigits_range (a b : ScriptDecimal) : compareDigits a b = -1 ∨ compareDigits a b = 0 ∨ compareDigits a b = 1 := by
  unfold compareDigits
  dsimp only
  split_ifs <;> simp

theorem compare_range (x y : Numeral) : compare (ofNumeral x) (ofNumeral y) = -1 ∨
    compare (ofNumeral x) (ofNumeral y) = 0 ∨ compare (ofNumeral x) (ofNumeral y) = 1 := by
  have hsign : (ofNumeral x).sign = -1 ∨ (ofNumeral x).sign = 0 ∨ (ofNumeral x).sign = 1 := by
    unfold ofNumeral
    split_ifs <;> simp
  rw [compare_sign]
  rcases hsign with h | h | h <;> rcases compareDigits_range (ofNumeral x) (ofNumeral y) with hd | hd | hd <;>
    rw [h,hd] <;> split_ifs <;> simp

theorem compare_numerals {x y : Numeral} (hx : ∀ d ∈ x.digits, d < 10) (hy : ∀ d ∈ y.digits, d < 10) :
    compare (ofNumeral x) (ofNumeral y) = SignType.sign (x.toRat-y.toRat) := by
  have hrange := compare_range x y
  rcases compare_cases hx hy with ⟨h,hc⟩ | ⟨h,hc⟩ | ⟨h,hc⟩
  · rw [sign_neg (sub_neg.mpr h),SignType.coe_neg_one]
    omega
  · rw [h,sub_self,sign_zero,SignType.coe_zero,hc]
  · rw [sign_pos (sub_pos.mpr h),SignType.coe_one]
    omega

/-- Two texts that `decimal` accepts are written numbers, and `compare` gives the sign of the exact difference. -/
theorem compare_exact {s t : String} {x y : ScriptDecimal} (hs : scriptDecimal s = some x) (ht : scriptDecimal t = some y) :
    (∃ a b : ScriptLiteral, a.text = s ∧ b.text = t) ∧ ∀ a b : ScriptLiteral, a.text = s → b.text = t →
      compare x y = SignType.sign (a.value-b.value) := by
  constructor
  · obtain ⟨a,ha⟩ := (accepted_iff s).mp (Option.isSome_iff_exists.mpr ⟨x,hs⟩)
    obtain ⟨b,hb⟩ := (accepted_iff t).mp (Option.isSome_iff_exists.mpr ⟨y,ht⟩)
    exact ⟨a,b,ha,hb⟩
  · rintro a b rfl rfl
    obtain rfl := Option.some.inj ((scriptDecimal_text a).symm.trans hs)
    obtain rfl := Option.some.inj ((scriptDecimal_text b).symm.trans ht)
    rw [compare_numerals (parse_lt a.parse_core) (parse_lt b.parse_core),a.toRat_numeral,b.toRat_numeral]

/-- Two whole numbers that binary64 does not tell apart. -/
theorem compare_exact_large : ∃ a b : ScriptLiteral, a.text = "9007199254740993" ∧ b.text = " +0.9007199254740992e16 " ∧
    (SignType.sign (a.value-b.value) : ℤ) = 1 := by
  have hx : scriptDecimal "9007199254740993" = some ⟨1,[9,0,0,7,1,9,9,2,5,4,7,4,0,9,9,3],16⟩ := rfl
  have hy : scriptDecimal " +0.9007199254740992e16 " = some ⟨1,[9,0,0,7,1,9,9,2,5,4,7,4,0,9,9,2],16⟩ := rfl
  obtain ⟨⟨a,b,ha,hb⟩,hsign⟩ := compare_exact hx hy
  refine ⟨a,b,ha,hb,?_⟩
  rw [← hsign a b ha hb]
  decide

end FormRules
end Biggy
