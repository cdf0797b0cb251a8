import Biggy.Formula
import Biggy.Outcome
import Biggy.FormTrust

/-!
# Where formulas crash

The evaluation of a formula raises something other than a `FormulaError` exactly where it comes
to an operation outside its domain: dates shifted by what is no number of days, a date taken
from a time, the text of a huge integer, a comparison with NaN, or a wrong number of arguments.
-/
namespace Biggy
namespace Formula

open FormRules

/-! ### The domain of an operation -/

/-- The value of an integer that has no text. -/
def TooLong (v : Val) : Prop := ∃ n : ℤ, v = .int n ∧ tooLong n = true

/-- A date stays within the years 1 to 9999 when it is shifted. -/
def InYears (n : ℤ) : Val → Prop
  | .val (.date d) => 0 ≤ d+n ∧ d+n ≤ 3652058
  | .val (.datetime t) => 0 ≤ t+n*microsPerDay ∧ t+n*microsPerDay ≤ maxDatetime
  | _ => False

/-- The amount is a number of days that the date can be shifted by. -/
def Shifts {ω : Type*} (lib : FormulaLib ω) (sign : ℤ) (value amount : Val) : Prop :=
  ∃ n, toInt lib amount = .ok n ∧ n.natAbs ≤ 999999999 ∧ InYears (sign*n) value

/-- The operations that are outside their domain; `related` says that there is a resolver. -/
inductive OutOfDomain {ω : Type*} (lib : FormulaLib ω) (related : Bool) : Operation → Prop
  | deep : OutOfDomain lib related .deep
  | text {a b : Val} : TooLong a ∨ TooLong b → OutOfDomain lib related (.binop .bitAnd a b)
  | timeMinusDate {t d : ℤ} : OutOfDomain lib related (.binop .sub (.val (.datetime t)) (.val (.date d)))
  | minus {a b : Val} : a.isTemporal = true → b.isTemporal = false → b ≠ .null → ¬Shifts lib (-1) a b →
      OutOfDomain lib related (.binop .sub a b)
  | plus {a b : Val} : a.isTemporal = true → b ≠ .null → ¬Shifts lib 1 a b → OutOfDomain lib related (.binop .add a b)
  | plusDate {a b : Val} : a.isTemporal = false → a ≠ .null → b.isTemporal = true → ¬Shifts lib 1 b a →
      OutOfDomain lib related (.binop .add a b)
  | nan {op : CmpOp} {a b : Val} : op ∈ [CmpOp.eq,.notEq,.lt,.ltE,.gt,.gtE] → signals op a b = true →
      OutOfDomain lib related (.compare op a b)
  | clock {name : String} {args : List Val} : readFunc name = some .today ∨ readFunc name = some .now → args ≠ [] →
      OutOfDomain lib related (.call name args)
  | relation {name : String} {args : List Val} : related = true → name ∈ relationFuncs →
      ¬(args.length = 2 ∨ (args.length = 3 ∧ name = "rollup")) → OutOfDomain lib related (.call name args)

/-- What is no `FormulaError`. -/
def Crash (e : EvalError) : Prop := ∃ p, e = .python p

section Domain

variable {ω : Type*} {lib : FormulaLib ω} {resolver : Option Resolver}

theorem crash_ofPython {α : Type*} {x : Except PyError α} : (∃ e, ofPython x = .error e ∧ Crash e) ↔ ∃ p, x = .error p := by
  cases x with
  | ok a => simp [ofPython]
  | error p => simp [ofPython,Crash]

theorem str_error {v : Val} : (∃ p, str lib v = .error p) ↔ TooLong v := by
  unfold str TooLong
  split
  · rename_i n
    by_cases h : tooLong n = true <;> simp [h]
  · rename_i v hv
    refine ⟨by simp,?_⟩
    rintro ⟨n,hn,-⟩
    exact absurd (Val.val.inj hn) (hv n)
  · rename_i hv
    refine ⟨by simp,?_⟩
    rintro ⟨n,hn,-⟩
    exact absurd hn (hv (.int n))

theorem asText_error {v : Val} : (∃ p, asText lib v = .error p) ↔ TooLong v := by
  unfold asText
  split
  · simp [TooLong]
  · simp [TooLong]
  · simp [TooLong]
  · exact str_error

theorem str_value {v : Val} {p : PyError} (h : str lib v = .error p) : ∃ message, p = .valueError message := by
  unfold str at h
  split at h
  · split at h
    · cases h
      exact ⟨_,rfl⟩
    · cases h
  · cases h
  · cases h

theorem asText_value {v : Val} {p : PyError} (h : asText lib v = .error p) : ∃ message, p = .valueError message := by
  unfold asText at h
  split at h
  · cases h
  · cases h
  · cases h
  · exact str_value h

theorem dec_value {v : Val} {p : PyError} (h : dec lib v = .error p) : p = .invalidOperation ∨ ∃ message, p = .valueError message := by
  unfold dec at h
  split at h
  · cases h
  · split at h
    · rename_i hstr
      cases h
      exact Or.inr (str_value hstr)
    · split at h
      · cases h
      · cases h
        exact Or.inl rfl

/-! ### Dates -/

/-- A date is shifted unless it leaves its years. -/
theorem shift_error {n : ℤ} {v : Val} (hv : v.isTemporal = true) :
    (∃ p, shift n v = .error p) ↔ ¬(n.natAbs ≤ 999999999 ∧ InYears n v) := by
  cases v with
  | val v =>
    cases v with
    | date d =>
      simp only [shift,InYears]
      split_ifs with hdays hyears
      · simp only [Except.error.injEq,exists_eq',true_iff]
        omega
      · simp only [Except.error.injEq,exists_eq',true_iff]
        omega
      · simp only [exists_false,false_iff,not_not]
        omega
    | datetime t =>
      simp only [shift,InYears]
      split_ifs with hdays hyears
      · simp only [Except.error.injEq,exists_eq',true_iff]
        omega
      · simp only [Except.error.injEq,exists_eq',true_iff]
        omega
      · simp only [exists_false,false_iff,not_not]
        omega
    | _ => cases hv
  | _ => cases hv

theorem toInt_shift {sign : ℤ} (hsign : sign = 1 ∨ sign = -1) {value amount : Val} (hv : value.isTemporal = true) :
    (∃ p, ((toInt lib amount).bind fun n => shift (sign*n) value) = .error p) ↔ ¬Shifts lib sign value amount := by
  cases hamount : toInt lib amount with
  | error p => simp [Except.bind,Shifts,hamount]
  | ok n =>
    have habs : (sign*n).natAbs = n.natAbs := by rcases hsign with rfl | rfl <;> simp
    have hshift := shift_error (n := sign*n) hv
    simp only [Except.bind,Shifts,hamount,Except.ok.injEq,exists_eq_left']
    rw [hshift,habs]

/-- A difference of dates is a number of days, unless a date is taken from a time. -/
theorem difference_error {a b : Val} (ha : a.isTemporal = true) (hb : b.isTemporal = true) :
    (∃ p, difference a b = .error p) ↔ ∃ t d, a = .val (.datetime t) ∧ b = .val (.date d) := by
  rcases a with v | _ | _ | _
  · rcases b with w | _ | _ | _
    · cases v <;> cases ha <;> cases w <;> cases hb <;> simp [difference]
    all_goals cases hb
  all_goals cases ha

/-! ### Operations -/

/-- A concatenation. -/
theorem concat_error {a b : Val} : (∃ p, ((asText lib a).bind fun x => (asText lib b).map fun y => Val.text (x++y)) = .error p) ↔
    TooLong a ∨ TooLong b := by
  rw [← @asText_error _ lib a,← @asText_error _ lib b]
  cases asText lib a with
  | error p => simp [Except.bind]
  | ok x => cases asText lib b <;> simp [Except.bind,Except.map]

theorem outOfDomain_sub {related : Bool} {a b : Val} (ha : a.isTemporal = true) (hb : b.isTemporal = false) (hne : b ≠ .null) :
    OutOfDomain lib related (.binop .sub a b) ↔ ¬Shifts lib (-1) a b := by
  constructor
  · intro h
    cases h with
    | timeMinusDate => cases hb
    | minus _ _ _ hshift => exact hshift
  · exact fun h => .minus ha hb hne h

theorem outOfDomain_difference {related : Bool} {a b : Val} (hb : b.isTemporal = true) :
    OutOfDomain lib related (.binop .sub a b) ↔ ∃ t d, a = .val (.datetime t) ∧ b = .val (.date d) := by
  constructor
  · intro h
    cases h with
    | timeMinusDate => exact ⟨_,_,rfl,rfl⟩
    | minus _ hb' => exact absurd (hb.symm.trans hb') (by decide)
  · rintro ⟨t,d,rfl,rfl⟩
    exact .timeMinusDate

theorem outOfDomain_add {related : Bool} {a b : Val} (ha : a.isTemporal = true) (hne : b ≠ .null) :
    OutOfDomain lib related (.binop .add a b) ↔ ¬Shifts lib 1 a b := by
  constructor
  · intro h
    cases h with
    | plus _ _ hshift => exact hshift
    | plusDate ha' => exact absurd (ha.symm.trans ha') (by decide)
  · exact fun h => .plus ha hne h

theorem outOfDomain_addDate {related : Bool} {a b : Val} (ha : a.isTemporal = false) (hne : a ≠ .null) (hb : b.isTemporal = true) :
    OutOfDomain lib related (.binop .add a b) ↔ ¬Shifts lib 1 b a := by
  constructor
  · intro h
    cases h with
    | plus ha' => exact absurd (ha.symm.trans ha') (by decide)
    | plusDate _ _ _ hshift => exact hshift
  · exact fun h => .plusDate ha hne hb h

/-- Date arithmetic. -/
theorem dateArith_error {related : Bool} {op : BinOp} {a b : Val} (hop : op = .add ∨ op = .sub) (ha : a ≠ .null) (hb : b ≠ .null)
    (htemporal : a.isTemporal = true ∨ b.isTemporal = true) :
    (∃ p, dateArith lib op a b = .error p) ↔ OutOfDomain lib related (.binop op a b) := by
  rcases hop with rfl | rfl
  · cases hat : a.isTemporal with
    | true =>
      rw [outOfDomain_add hat hb,← toInt_shift (Or.inl rfl) hat]
      simp [dateArith,hat]
    | false =>
      have hbt : b.isTemporal = true := htemporal.resolve_left (by simp [hat])
      rw [outOfDomain_addDate hat ha hbt,← toInt_shift (Or.inl rfl) hbt]
      simp [dateArith,hat,hbt]
  · cases hbt : b.isTemporal with
    | true =>
      rw [outOfDomain_difference hbt]
      cases hat : a.isTemporal with
      | true =>
        rw [← difference_error hat hbt]
        simp [dateArith,hat,hbt]
      | false =>
        simp only [dateArith,hat,hbt,reduceCtorEq,false_and,and_false,if_false,exists_false,false_iff,Bool.false_eq_true]
        rintro ⟨t,d,rfl,-⟩
        cases hat
    | false =>
      have hat : a.isTemporal = true := htemporal.resolve_right (by simp [hbt])
      rw [outOfDomain_sub hat hbt hb,← toInt_shift (Or.inr rfl) hat]
      simp [dateArith,hat,hbt]

/-- An operator. -/
theorem binop_crash {related : Bool} {op : BinOp} {a b : Val} :
    (∃ e, Formula.binop lib op a b = .error e ∧ Crash e) ↔ OutOfDomain lib related (.binop op a b) := by
  unfold Formula.binop
  by_cases hand : op = .bitAnd
  · subst hand
    rw [if_pos rfl,crash_ofPython,concat_error]
    constructor
    · exact .text
    · intro h
      cases h with
      | text h => exact h
  rw [if_neg hand]
  by_cases hnull : a = .null ∨ b = .null
  · rw [if_pos hnull]
    refine ⟨by simp,fun h => ?_⟩
    cases h with
    | text => exact absurd rfl hand
    | timeMinusDate => simp at hnull
    | minus ha _ hb => rcases hnull with rfl | hnull; · cases ha
                       · exact absurd hnull hb
    | plus ha hb => rcases hnull with rfl | hnull; · cases ha
                    · exact absurd hnull hb
    | plusDate _ ha hb => rcases hnull with hnull | rfl; · exact absurd hnull ha
                          · cases hb
  rw [if_neg hnull]
  rw [not_or] at hnull
  by_cases hdate : (op = .add ∨ op = .sub) ∧ (a.isTemporal = true ∨ b.isTemporal = true)
  · rw [if_pos hdate,crash_ofPython]
    exact dateArith_error hdate.1 hnull.1 hnull.2 hdate.2
  rw [if_neg hdate]
  have hin : ¬OutOfDomain lib related (.binop op a b) := by
    intro h
    cases h with
    | text => exact hand rfl
    | timeMinusDate => exact hdate ⟨Or.inr rfl,Or.inl rfl⟩
    | minus ha => exact hdate ⟨Or.inr rfl,Or.inl ha⟩
    | plus ha => exact hdate ⟨Or.inl rfl,Or.inl ha⟩
    | plusDate _ _ hb => exact hdate ⟨Or.inl rfl,Or.inr hb⟩
  split <;> simp [hin,Crash]

theorem compareRaw_signals {op : CmpOp} {a b : Val} (h : signals op a b = true) :
    compareRaw lib op a b = .error .invalidOperation := by rw [compareRaw.eq_def,if_pos h]

theorem compareRaw_error {op : CmpOp} {a b : Val} {p : PyError} (hquiet : ¬signals op a b = true)
    (h : compareRaw lib op a b = .error p) : p = .typeError := by
  rw [compareRaw.eq_def,if_neg hquiet] at h
  split at h
  · cases h
  · cases h
  · split at h <;> cases h
    rfl

/-- A comparison. -/
theorem compareValues_crash {related : Bool} {op : CmpOp} {a b : Val} :
    (∃ e, (compareValues lib op a b).map Val.bool = .error e ∧ Crash e) ↔ OutOfDomain lib related (.compare op a b) := by
  have hiff : OutOfDomain lib related (.compare op a b) ↔ op ∈ [CmpOp.eq,.notEq,.lt,.ltE,.gt,.gtE] ∧ signals op a b = true := by
    constructor
    · intro h
      cases h with
      | nan hop hsignals => exact ⟨hop,hsignals⟩
    · exact fun h => .nan h.1 h.2
  rw [hiff,compareValues]
  by_cases hop : op ∈ [CmpOp.eq,.notEq,.lt,.ltE,.gt,.gtE]
  · rw [if_pos hop]
    refine Iff.trans ?_ (and_iff_right hop).symm
    by_cases hsignals : signals op a b = true
    · rw [compareRaw_signals hsignals]
      exact ⟨fun _ => hsignals,fun _ => ⟨_,rfl,_,rfl⟩⟩
    · refine ⟨?_,fun h => absurd h hsignals⟩
      cases hraw : compareRaw lib op a b with
      | ok result =>
        rintro ⟨e,he,-⟩
        cases he
      | error p =>
        obtain rfl := compareRaw_error hsignals hraw
        rintro ⟨e,he,-⟩
        cases he
  · rw [if_neg hop]
    refine ⟨?_,fun h => absurd h.1 hop⟩
    rintro ⟨e,he,p,rfl⟩
    cases he

theorem callFunc_error {f : Func} {args : List Val} :
    (∃ p, callFunc lib f args = .error p) ↔ (f = .today ∨ f = .now) ∧ args ≠ [] := by
  by_cases hclock : f = .today ∨ f = .now
  · rcases hclock with rfl | rfl <;> cases args <;> simp [callFunc]
  · have hok : ∃ v, callFunc lib f args = .ok v := by
      cases f with
      | today => exact absurd (Or.inl rfl) hclock
      | now => exact absurd (Or.inr rfl) hclock
      | _ => exact ⟨_,rfl⟩
    obtain ⟨v,hv⟩ := hok
    simp [hv,hclock]

theorem callRelation_error {resolver : Resolver} {name : String} {args : List Val} (hname : name ∈ relationFuncs) :
    (∃ p, callRelation resolver name args = .error p) ↔ ¬(args.length = 2 ∨ (args.length = 3 ∧ name = "rollup")) := by
  have hnames : name = "lookup" ∨ name = "rollup" := by simpa [relationFuncs] using hname
  rcases args with _ | ⟨a,_ | ⟨b,_ | ⟨c,_ | ⟨d,args⟩⟩⟩⟩
  · simp [callRelation]
  · simp [callRelation]
  · simp [callRelation]
  · rcases hnames with rfl | rfl <;> simp [callRelation]
  · simp [callRelation]

theorem readFunc_relation {name : String} (h : name ∈ relationFuncs) : readFunc name = none := by
  have hnames : name = "lookup" ∨ name = "rollup" := by simpa [relationFuncs] using h
  rcases hnames with rfl | rfl <;> rfl

/-- A call. -/
theorem callNamed_crash {name : String} {args : List Val} :
    (∃ e, callNamed lib resolver name args = .error e ∧ Crash e) ↔ OutOfDomain lib resolver.isSome (.call name args) := by
  unfold callNamed
  by_cases hname : name ∈ relationFuncs
  · have hiff : OutOfDomain lib resolver.isSome (.call name args) ↔
        resolver.isSome = true ∧ ¬(args.length = 2 ∨ (args.length = 3 ∧ name = "rollup")) := by
      constructor
      · intro h
        cases h with
        | clock hclock =>
          rw [readFunc_relation hname] at hclock
          rcases hclock with hclock | hclock <;> cases hclock
        | relation hsome _ hargs => exact ⟨hsome,hargs⟩
      · exact fun h => .relation h.1 hname h.2
    rw [hiff,if_pos hname]
    cases resolver with
    | none => simp
    | some resolver =>
      dsimp only
      rw [crash_ofPython,callRelation_error hname]
      simp
  · have hiff : OutOfDomain lib resolver.isSome (.call name args) ↔
        (readFunc name = some .today ∨ readFunc name = some .now) ∧ args ≠ [] := by
      constructor
      · intro h
        cases h with
        | clock hclock hargs => exact ⟨hclock,hargs⟩
        | relation _ hin => exact absurd hin hname
      · exact fun h => .clock h.1 h.2
    rw [hiff,if_neg hname]
    cases hfunc : readFunc name with
    | none => simp [Crash]
    | some f =>
      dsimp only
      rw [crash_ofPython,callFunc_error]
      simp

/-- An operation crashes exactly outside its domain. -/
theorem run_crash {op : Operation} : (∃ e, op.run lib resolver = .error e ∧ Crash e) ↔ OutOfDomain lib resolver.isSome op := by
  cases op with
  | deep => exact ⟨fun _ => .deep,fun _ => ⟨_,rfl,_,rfl⟩⟩
  | binop op a b => exact binop_crash
  | compare op a b => exact compareValues_crash
  | call name args => exact callNamed_crash

end Domain

/-! ### Evaluations -/

section Evaluations

open Traced

variable {ω : Type*} {lib : FormulaLib ω} {resolver : Option Resolver} {context : String → Val}

theorem crashesAt_step (op : Operation) : CrashesAt Crash (OutOfDomain lib resolver.isSome) (step lib resolver op) :=
  crashesAt_perform run_crash

theorem crashesAt_formula {α : Type} (message : String) :
    CrashesAt Crash (OutOfDomain lib resolver.isSome) (fail (.formula message) : Eval α) :=
  crashesAt_fail (by rintro ⟨p,hp⟩; cases hp)

theorem crashesAt_chain {evaluation : Expr → Eval Val}
    (h : ∀ e, CrashesAt Crash (OutOfDomain lib resolver.isSome) (evaluation e)) (left : Val) (rest : List (CmpOp × Expr)) :
    CrashesAt Crash (OutOfDomain lib resolver.isSome) (chain lib resolver evaluation left rest) := by
  induction rest generalizing left with
  | nil => exact crashesAt_pure _
  | cons p rest ih =>
    obtain ⟨op,comp⟩ := p
    rw [chain]
    refine crashesAt_bind (h comp) fun right => crashesAt_bind (crashesAt_step _) fun ok => ?_
    split
    · exact ih right
    · exact crashesAt_pure _

/-- An evaluation crashes exactly where it comes to an operation outside its domain. -/
theorem crashesAt_eval (frames : ℕ) (e : Expr) :
    CrashesAt Crash (OutOfDomain lib resolver.isSome) (eval lib resolver context frames e) := by
  induction frames generalizing e with
  | zero => exact crashesAt_step .deep
  | succ frames ih =>
    cases e with
    | constant value => exact crashesAt_pure value
    | name id => exact crashesAt_pure (context id)
    | unaryOp op operand =>
      cases op with
      | invert => exact crashesAt_formula _
      | _ => exact crashesAt_bind (ih operand) fun v => crashesAt_pure _
    | binOp op left right =>
      exact crashesAt_bind (ih left) fun a => crashesAt_bind (ih right) fun b => crashesAt_step _
    | boolOp op values => exact crashesAt_bind (crashesAt_mapM fun e _ => ih e) fun vals => crashesAt_pure _
    | compare left ops comparators => exact crashesAt_bind (ih left) fun a => crashesAt_chain ih a _
    | ifExp test body orelse =>
      refine crashesAt_bind (ih test) fun t => ?_
      split
      · exact ih body
      · exact ih orelse
    | call func args keywords =>
      cases func with
      | name id =>
        cases keywords with
        | nil => exact crashesAt_bind (crashesAt_mapM fun e _ => ih e) fun vals => crashesAt_step _
        | cons => exact crashesAt_formula _
      | _ => exact crashesAt_formula _
    | other type children => exact crashesAt_formula _

theorem crashesAt_evaluate (text : String) :
    CrashesAt Crash (OutOfDomain lib resolver.isSome) (evaluate lib resolver context text) := by
  rw [evaluate]
  split
  · exact crashesAt_pure _
  · split
    · exact crashesAt_formula _
    · exact crashesAt_eval _ _

theorem coerceBody_error {v : Val} {type : ResultType} {p : PyError} (h : coerceBody lib v type = .error p) :
    p = .invalidOperation ∨ ∃ message, p = .valueError message := by
  cases type with
  | text => exact Or.inr (asText_value (Outcome.map_error h))
  | boolean => cases h
  | date =>
    simp only [coerceBody] at h
    split at h <;> cases h
  | datetime =>
    simp only [coerceBody] at h
    split at h <;> cases h
  | number =>
    simp only [coerceBody] at h
    split at h
    · cases h
    · exact dec_value (Outcome.map_error h)

/-- A computed value can always be stored. -/
theorem coerceResult_ok (v : Val) (type : ResultType) : ∃ w, coerceResult lib v type = .ok w := by
  unfold coerceResult
  split
  · exact ⟨_,rfl⟩
  · cases hbody : coerceBody lib v type with
    | ok w => exact ⟨w,rfl⟩
    | error p =>
      rcases coerceBody_error hbody with rfl | ⟨message,rfl⟩
      · exact ⟨_,rfl⟩
      · exact ⟨_,rfl⟩

theorem crashesAt_storeResult {x : Eval Val} (hx : CrashesAt Crash (OutOfDomain lib true) x) (type : ResultType) :
    CrashesAt (fun _ => True) (OutOfDomain lib true) (storeResult lib x type) := by
  obtain ⟨trace,result⟩ := x
  have hstored : ∀ v, (¬∃ w ∈ trace, OutOfDomain lib true w) →
      CrashesAt (fun _ => True) (OutOfDomain lib true) ⟨trace,coerceResult lib v type⟩ := by
    intro v hclean
    obtain ⟨w,hw⟩ := @coerceResult_ok _ lib v type
    simpa [CrashesAt,hw] using hclean
  cases result with
  | ok v =>
    refine hstored v fun h => ?_
    obtain ⟨e,he,-⟩ := hx.mpr h
    cases he
  | error e =>
    cases e with
    | formula message =>
      refine hstored .null fun h => ?_
      obtain ⟨e,he,p,rfl⟩ := hx.mpr h
      cases he
    | python p => exact ⟨fun _ => hx.mp ⟨_,rfl,p,rfl⟩,fun _ => ⟨p,rfl,trivial⟩⟩

theorem crashesAt_computeField {resolver : Resolver} (f : FormulaField) :
    CrashesAt (fun _ => True) (OutOfDomain lib true) (computeField lib resolver context f) := by
  apply crashesAt_storeResult
  rw [evaluateField]
  split
  · exact crashesAt_pure _
  · exact crashesAt_evaluate _

theorem crashesAt_computeValues {resolver : (String → Val) → Resolver} (row : String → Val) (fields : List FormulaField) :
    CrashesAt (fun _ => True) (OutOfDomain lib true) (computeValues lib resolver row fields) := by
  induction fields generalizing row with
  | nil => exact crashesAt_pure _
  | cons f fields ih =>
    exact crashesAt_bind (crashesAt_computeField f) fun v => crashesAt_bind (ih _) fun out => crashesAt_pure _

/-- A result has a value for every formula column. -/
theorem computeValues_names {resolver : (String → Val) → Resolver} {row : String → Val} {fields : List FormulaField}
    {out : List (String × Val)} (h : (computeValues lib resolver row fields).result = .ok out) :
    out.map Prod.fst = fields.map FormulaField.physName := by
  induction fields generalizing row out with
  | nil =>
    obtain rfl := Except.ok.inj h
    rfl
  | cons f fields ih =>
    obtain ⟨v,-,hbind⟩ := bind_ok h
    obtain ⟨rest,hrest,hpure⟩ := bind_ok hbind
    obtain rfl := Except.ok.inj hpure
    simp [ih hrest]

/-- A formula raises a `FormulaError` at most, unless its evaluation comes to an operation outside its domain;
then, and only then, the formula columns of the record are not computed. -/
theorem formulas_crash_iff {ω : Type*} (lib : FormulaLib ω) :
    (∀ resolver context text, (∃ p, (evaluate lib resolver context text).result = .error (.python p)) ↔
      ∃ op ∈ (evaluate lib resolver context text).trace, OutOfDomain lib resolver.isSome op) ∧
    ∀ resolver row fields, (∃ out, (computeValues lib resolver row fields).result = .ok out ∧
        out.map Prod.fst = fields.map FormulaField.physName) ↔
      ∀ op ∈ (computeValues lib resolver row fields).trace, ¬OutOfDomain lib true op := by
  constructor
  · intro resolver context text
    have hcrash := @crashesAt_evaluate _ lib resolver context text
    rw [CrashesAt] at hcrash
    rw [← hcrash]
    simp [Crash]
  · intro resolver row fields
    have hcrash := @crashesAt_computeValues _ lib resolver row fields
    constructor
    · rintro ⟨out,hout,-⟩ op hop hbad
      obtain ⟨e,he,-⟩ := hcrash.mpr ⟨op,hop,hbad⟩
      rw [hout] at he
      cases he
    · intro hall
      cases hresult : (computeValues lib resolver row fields).result with
      | ok out => exact ⟨out,rfl,computeValues_names hresult⟩
      | error e =>
        obtain ⟨op,hop,hbad⟩ := hcrash.mp ⟨e,hresult,trivial⟩
        exact absurd hbad (hall op hop)

end Evaluations

/-! ### A date taken from a time -/

/-- The hours since midnight in days, say. -/
def sinceMidnight : Expr := .binOp .sub (.call (.name "now") [] []) (.call (.name "today") [] [])

def formulaLib : FormulaLib String where
  toFormLib := plainLib
  today := 738000
  now := 738000*microsPerDay
  frames := 900
  isoText := fun _ => ""
  strConstant := fun _ => ""
  upper := id
  lowerText := lower
  floatOf := fun _ => none
  intOf := fun _ => none
  decimalOp := fun _ _ _ => none
  floatOp := fun _ _ _ => none
  signDecimal := fun _ _ => none
  roundDecimal := fun _ _ => none
  absDecimal := fun _ => none
  floatDecimal := fun _ => none
  equal := fun a b => a = b
  order := fun _ _ _ => none
  parse := fun s =>
    if s = "now() - today()" then .ok sinceMidnight
    else if s = "today()" then .ok (.call (.name "today") [] [])
    else .error "invalid syntax"

/-- An accepted formula raises `TypeError`, and the other formula of the record is not computed. -/
theorem now_minus_today : validate formulaLib "now() - today()" [] none none = none ∧
    (evaluate formulaLib none (fun _ => .null) "now() - today()").result = .error (.python .typeError) ∧
    (computeValues formulaLib (fun _ => ⟨fun _ _ => .null,fun _ _ _ => .null⟩) (fun _ => .null)
      [⟨"age",some "now() - today()",.number⟩,⟨"day",some "today()",.date⟩]).result = .error .typeError := by
  refine ⟨?_,?_,?_⟩
  · decide
  · rfl
  · rfl

end Formula
end Biggy
