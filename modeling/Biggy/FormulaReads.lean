import Biggy.Formula

/-!
# What formulas read

An evaluation depends on the columns that its expression names, and on the answers to the lookups and rollups that it
comes to. So do the computed columns of a record, each of which is also read by those after it.
-/
namespace Biggy
namespace Formula

mutual

/-- The columns that an expression names. -/
def Expr.reads : Expr → List String
  | .constant _ => []
  | .name id => [id]
  | .unaryOp _ operand => operand.reads
  | .binOp _ left right => left.reads++right.reads
  | .boolOp _ values => Expr.readsAll values
  | .compare left _ comparators => left.reads++Expr.readsAll comparators
  | .ifExp test body orelse => test.reads++(body.reads++orelse.reads)
  | .call _ args _ => Expr.readsAll args
  | .other _ _ => []

def Expr.readsAll : List Expr → List String
  | [] => []
  | e::es => e.reads++Expr.readsAll es

end

theorem mem_readsAll {n : String} {es : List Expr} : n ∈ Expr.readsAll es ↔ ∃ e ∈ es, n ∈ e.reads := by
  induction es with
  | nil => simp [Expr.readsAll]
  | cons e es ih => simp [Expr.readsAll,ih]

section Evaluation

open Traced

variable {ω : Type*} {lib : FormulaLib ω} {resolver resolver' : Option Resolver} {context context' : String → Val}

/-- The operation has the same result with either resolver. -/
def Answers (lib : FormulaLib ω) (resolver resolver' : Option Resolver) (op : Operation) : Prop :=
  op.run lib resolver = op.run lib resolver'

/-- The name and the arguments of a call. -/
def Operation.called : Operation → Option (String × List Val)
  | .call name args => some (name,args)
  | _ => none

/-- Only lookups and rollups ask the resolver. -/
theorem answers_of_called {op : Operation} (h : ∀ name args, op.called = some (name,args) → name ∈ relationFuncs →
    callNamed lib resolver name args = callNamed lib resolver' name args) : Answers lib resolver resolver' op := by
  cases op with
  | call name args =>
    by_cases hname : name ∈ relationFuncs
    · exact h name args rfl hname
    · simp only [Answers,Operation.run,callNamed,hname,if_false]
  | _ => rfl

theorem sameOn_step {ok : Operation → Prop} (hok : ∀ op, ok op → Answers lib resolver resolver' op) (op : Operation) :
    SameOn ok (step lib resolver op) (step lib resolver' op) := sameOn_perform (hok op)

theorem sameOn_chain {ok : Operation → Prop} (hok : ∀ op, ok op → Answers lib resolver resolver' op)
    {evaluation evaluation' : Expr → Eval Val} {rest : List (CmpOp × Expr)}
    (h : ∀ p ∈ rest, SameOn ok (evaluation p.2) (evaluation' p.2)) (left : Val) :
    SameOn ok (chain lib resolver evaluation left rest) (chain lib resolver' evaluation' left rest) := by
  induction rest generalizing left with
  | nil => exact sameOn_refl _
  | cons p rest ih =>
    obtain ⟨op,comp⟩ := p
    have hrest := fun right => ih (fun q hq => h q (List.mem_cons_of_mem _ hq)) right
    rw [chain,chain]
    refine sameOn_bind (h (op,comp) List.mem_cons_self) fun right => sameOn_bind (sameOn_step hok _) fun ok => ?_
    split
    · exact hrest right
    · exact sameOn_refl _

/-- An evaluation depends on the columns that its expression names, and on the answers that it gets. -/
theorem sameOn_eval {ok : Operation → Prop} (hok : ∀ op, ok op → Answers lib resolver resolver' op) (frames : ℕ) {e : Expr}
    (h : ∀ n ∈ e.reads, context n = context' n) :
    SameOn ok (eval lib resolver context frames e) (eval lib resolver' context' frames e) := by
  induction frames generalizing e with
  | zero => exact sameOn_step hok .deep
  | succ frames ih =>
    have hall : ∀ {es : List Expr}, (∀ n ∈ Expr.readsAll es, context n = context' n) → ∀ e ∈ es,
        SameOn ok (eval lib resolver context frames e) (eval lib resolver' context' frames e) :=
      fun hes e he => ih fun n hn => hes n (mem_readsAll.mpr ⟨e,he,hn⟩)
    cases e with
    | constant value => exact sameOn_refl _
    | name id =>
      rw [eval,eval,h id (by simp [Expr.reads])]
      exact sameOn_refl _
    | unaryOp op operand =>
      cases op with
      | invert => exact sameOn_refl _
      | _ => exact sameOn_bind (ih h) fun v => sameOn_refl _
    | binOp op left right =>
      simp only [Expr.reads,List.forall_mem_append] at h
      exact sameOn_bind (ih h.1) fun a => sameOn_bind (ih h.2) fun b => sameOn_step hok _
    | boolOp op values => exact sameOn_bind (sameOn_mapM (hall h)) fun vals => sameOn_refl _
    | compare left ops comparators =>
      simp only [Expr.reads,List.forall_mem_append] at h
      exact sameOn_bind (ih h.1) fun a => sameOn_chain hok (fun p hp => hall h.2 p.2 (List.of_mem_zip hp).2) a
    | ifExp test body orelse =>
      simp only [Expr.reads,List.forall_mem_append] at h
      refine sameOn_bind (ih h.1) fun t => ?_
      split
      · exact ih h.2.1
      · exact ih h.2.2
    | call func args keywords =>
      cases func with
      | name id =>
        cases keywords with
        | nil => exact sameOn_bind (sameOn_mapM (hall h)) fun vals => sameOn_step hok _
        | cons => exact sameOn_refl _
      | _ => exact sameOn_refl _
    | other type children => exact sameOn_refl _

end Evaluation

/-! ### Formula columns -/

section Columns

open Traced

variable {ω : Type*} {lib : FormulaLib ω}

/-- The columns that the formula of a field names. -/
def FormulaField.reads (lib : FormulaLib ω) (f : FormulaField) : List String :=
  match f.formula with
  | none => []
  | some text =>
    if strip text = "" then []
    else match lib.parse text with
      | .error _ => []
      | .ok tree => tree.reads

/-- The field under another name. -/
def FormulaField.renamed (ρ : String → String) (f : FormulaField) : FormulaField := { f with physName := ρ f.physName }

theorem FormulaField.renamed_id (fields : List FormulaField) : fields.map (FormulaField.renamed id) = fields :=
  List.map_id fields

theorem sameOn_evaluateField {resolver resolver' : Resolver} {ok : Operation → Prop}
    (hok : ∀ op, ok op → Answers lib (some resolver) (some resolver') op) {context context' : String → Val} {f : FormulaField}
    (h : ∀ n ∈ f.reads lib, context n = context' n) :
    SameOn ok (evaluateField lib resolver context f) (evaluateField lib resolver' context' f) := by
  unfold evaluateField
  unfold FormulaField.reads at h
  split
  · exact sameOn_refl _
  · rename_i text htext
    simp only [htext] at h
    unfold evaluate
    split
    · exact sameOn_refl _
    · rename_i hblank
      rw [if_neg hblank] at h
      split
      · exact sameOn_refl _
      · rename_i tree htree
        rw [htree] at h
        exact sameOn_eval hok _ h

theorem sameOn_computeField {resolver resolver' : Resolver} {ok : Operation → Prop}
    (hok : ∀ op, ok op → Answers lib (some resolver) (some resolver') op) {context context' : String → Val} {f : FormulaField}
    (h : ∀ n ∈ f.reads lib, context n = context' n) :
    SameOn ok (computeField lib resolver context f) (computeField lib resolver' context' f) := by
  intro htrace
  have hstored : (computeField lib resolver context f).trace = (evaluateField lib resolver context f).trace := by
    unfold computeField storeResult
    split <;> rfl
  rw [hstored] at htrace
  rw [computeField,computeField,sameOn_evaluateField hok h htrace]

/-- Two computations of formula columns agree when each column has what it reads in both contexts, and the answers that it
gets. -/
theorem sameOn_computeValues {resolver resolver' : (String → Val) → Resolver} {ok : Operation → Prop} {ρ : String → String}
    {Related : List FormulaField → (String → Val) → (String → Val) → Prop}
    (hok : ∀ fields row row', Related fields row row' → ∀ op, ok op →
      Answers lib (some (resolver row)) (some (resolver' row')) op)
    (hreads : ∀ f fields row row', Related (f::fields) row row' → ∀ n ∈ f.reads lib, row n = row' n)
    (hnext : ∀ f fields row row' v, Related (f::fields) row row' →
      Related fields (Function.update row f.physName v) (Function.update row' (ρ f.physName) v))
    {fields : List FormulaField} {row row' : String → Val} (h : Related fields row row')
    (htrace : ∀ op ∈ (computeValues lib resolver row fields).trace, ok op) :
    (computeValues lib resolver' row' (fields.map (FormulaField.renamed ρ))).result =
      (computeValues lib resolver row fields).result.map fun out => out.map fun p => (ρ p.1,p.2) := by
  induction fields generalizing row row' with
  | nil => rfl
  | cons f fields ih =>
    have hfield : SameOn ok (computeField lib (resolver row) row f) (computeField lib (resolver' row') row' (f.renamed ρ)) :=
      sameOn_computeField (hok _ row row' h) (hreads f fields row row' h)
    simp only [List.map_cons,computeValues,bind_def] at htrace ⊢
    cases hresult : (computeField lib (resolver row) row f).result with
    | error e =>
      simp only [hresult] at htrace
      rw [← hfield htrace,hresult]
      rfl
    | ok v =>
      simp only [hresult,List.mem_append] at htrace
      have hrest := ih (hnext f fields row row' v h) fun op hop => htrace op (Or.inr ?_)
      · rw [← hfield fun op hop => htrace op (Or.inl hop),hresult]
        simp only [FormulaField.renamed] at hrest ⊢
        rw [hrest]
        cases (computeValues lib resolver (Function.update row f.physName v) fields).result <;> rfl
      · cases hout : (computeValues lib resolver (Function.update row f.physName v) fields).result with
        | error e => exact hop
        | ok out => simpa [pure_def] using hop

end Columns

end Formula
end Biggy
