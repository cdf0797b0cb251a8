import Biggy.Paired
import Biggy.Related

/-!
# Formulas over related records stay up to date

A rollup is stale after a write exactly when the ripple does not come to its record. Every operation leaves at most
the records stale that the ripple then recomputes, unless a child leaves a parent, or a parent leaves its children.
-/
namespace Biggy
namespace Related

open Formula FormRules Run

section Spec

variable {ω : Type*} (lib : FormulaLib ω) (d : Design)

/-! ### What the formulas are to hold -/

def textConstant (s : String) : Expr := .constant (.text s)

/-- The formula is one rollup of the children. -/
def SingleRollup (f : FormulaField) (op col : String) : Prop :=
  ∃ text, f.formula = some text ∧ strip text ≠ "" ∧
    (lib.parse text = .ok (.call (.name "rollup") [textConstant d.relName,textConstant col,textConstant op] []) ∨
      op = "count" ∧ lib.parse text = .ok (.call (.name "rollup") [textConstant d.relName,textConstant col] []))

/-- The formula is one lookup in the parent. -/
def SingleLookup (f : FormulaField) (col : String) : Prop :=
  ∃ text, f.formula = some text ∧ strip text ≠ "" ∧ col ≠ "" ∧
    lib.parse text = .ok (.call (.name "lookup") [textConstant d.fk,textConstant col] [])

/-- The value that a column holds in the parent with a key, `None` without one. -/
def current (ts : Tables) (k : Value) (col : String) : Val :=
  match (ts .parent).find? fun p => decide (p (d.pkCol .parent) = k) with
  | some p => .val (p col)
  | none => .null

/-- The column of a formula holds a value, in the type of its result. -/
def Holds (s : Side) (f : FormulaField) (v : Val) (row : Row) : Prop :=
  ∃ w, coerceResult lib v f.resultType = .ok w ∧ row f.physName = d.keep s f.physName w

/-- A record holds the aggregates of its children, or the values of its parent. -/
def RowFresh (ts : Tables) : Side → Row → Prop
  | .parent, row => ∀ f ∈ (d.table .parent).formulas, ∀ op col, SingleRollup lib d f op col →
    Holds lib d .parent f (d.aggregateValue (opName lib (.text op)) col (d.cells ts (row (d.pkCol .parent)) col)) row
  | .child, row => ∀ f ∈ (d.table .child).formulas, ∀ col, SingleLookup lib d f col →
    Holds lib d .child f (current d ts (row d.fk) col) row

/-- Every stored rollup is the aggregate of the children, every stored lookup the value in the parent. -/
def UpToDate (ts : Tables) : Prop := ∀ s, ∀ row ∈ ts s, RowFresh lib d ts s row

/-! ### The condition -/

/-- A column that a rollup or a lookup reads in the other table. -/
def Reads : Side → String → Prop
  | .child, col => ∃ f ∈ (d.table .parent).formulas, ∃ op, SingleRollup lib d f op col
  | .parent, col => ∃ f ∈ (d.table .child).formulas, SingleLookup lib d f col

/-- A column of a field that is no formula, and not the key. -/
def Plain (s : Side) (col : String) : Prop :=
  col ∈ (d.table s).columns ∧ col ≠ d.pkCol s ∧
    ∃ field ∈ (d.table s).mt.fields, field.dataType ≠ .formula ∧ field.physName = col

/-- What is computed for a column depends on the plain columns of the record alone; nothing is for one that is
no formula. -/
def Settled (s : Side) (col : String) : Prop :=
  ∀ ts ts' row row' vs vs', (∀ c, Plain d s c → row c = row' c) → compute lib d s ts row = .ok vs →
    compute lib d s ts' row' = .ok vs' → vs.lookup col = vs'.lookup col

/-- No lookup or rollup reads a column that itself depends on another record. -/
def Unchained : Prop := ∀ s col, Reads lib d s col → Settled lib d s col

/-- The rows are those of the other tables but for the columns of formulas. -/
def SameData (ts ts' : Tables) : Prop :=
  ∀ s, List.Forall₂ (fun row row' => ∀ c, c ∉ (d.table s).names → row c = row' c) (ts s) (ts' s)

/-- Whatever the columns of the formulas hold, no formula raises and the database has nothing against them. -/
def Quiet (ts : Tables) : Prop :=
  ∀ ts', SameData d ts ts' → d.admits ts' = d.admits ts ∧ ∀ s, ∀ row ∈ ts' s, ∃ vs, compute lib d s ts' row = .ok vs

/-- The tables with what an operation writes itself, without the computed columns. -/
def target (ts : Tables) : Op → Tables
  | .create s values generated userId now => added s (newRow d s (stamped d s values [] (createStamp userId now)) generated) ts
  | .update s pk values userId now => rewritten d s pk (stamped d s values [] (RecordService.auditStamp userId now)) ts
  | .remove s pk userId now => if (d.table s).mt.softDelete then
      rewritten d s pk (deleteStamp userId now) (dissociated d s pk ts)
    else deleted d s pk ts

/-- A key that points nowhere or at a record of the ripple. -/
def Ripples (k : Value) : Prop := k = .null ∨ k.truthy = true

/-- What the ripple can mend: no child leaves a parent, no parent leaves its children. -/
def Reached (ts : Tables) : Op → Prop
  | .create s values _ _ _ =>
    (∃ vs, compute lib d s ts (rowOf values) = .ok vs) ∧ (s = .child → Ripples (rowOf values d.fk))
  | .update s pk values _ _ => ∀ row, (d.physical ts s).getRow pk = some row →
    (∃ vs, compute lib d s ts (row.write values) = .ok vs) ∧ row.write values (d.pkCol s) = row (d.pkCol s) ∧
      (s = .child → row.write values d.fk = row d.fk ∨ row d.fk = .null ∧ Ripples (row.write values d.fk)) ∧
      (s = .parent → (d.pointing ts (row (d.pkCol .parent))).length ≤ maxRows)
  | .remove s pk _ _ => s = .parent → d.pointing ts ((d.table .parent).key pk) = [] ∨
      (d.table .parent).mt.softDelete = false ∧ d.onDelete ≠ .setNull

def Mild (ts : Tables) (op : Op) : Prop := Reached lib d ts op ∧ Quiet lib d (target d ts op)

end Spec

/-! ### What is computed -/

section Computed

variable {ω : Type*} {lib : FormulaLib ω} {d : Design}

theorem eval_call {resolver : Option Resolver} {row : String → Val} {name : String} {args : List Val} {n : ℕ} :
    (eval lib resolver row n (.call (.name name) (args.map Expr.constant) [])).result = callNamed lib resolver name args ∨
      (∃ p, (eval lib resolver row n (.call (.name name) (args.map Expr.constant) [])).result = .error (.python p)) ∨
      args = [] := by
  rcases n with _ | _ | n
  · exact Or.inr (Or.inl ⟨_,rfl⟩)
  · rcases args with _ | ⟨a,args⟩
    · exact Or.inr (Or.inr rfl)
    · refine Or.inr (Or.inl ⟨.recursionError,?_⟩)
      simp only [eval,List.map_cons,List.mapM_cons]
      rfl
  · left
    have hargs : (args.map Expr.constant).mapM (eval lib resolver row (n+1)) = pure args := by
      rw [List.mapM_map]
      exact (List.mapM_pure (f := id)).trans (by rw [List.map_id])
    simp only [eval,hargs]
    rfl

theorem computeField_call {resolver : Resolver} {row : String → Val} {f : FormulaField} {text name : String}
    {args : List Val} {v w : Val} (h : (computeField lib resolver row f).result = .ok w) (htext : f.formula = some text)
    (hstrip : strip text ≠ "") (hparse : lib.parse text = .ok (.call (.name name) (args.map Expr.constant) []))
    (hargs : args ≠ []) (hcall : callNamed lib (some resolver) name args = .ok v) :
    coerceResult lib v f.resultType = .ok w := by
  have heval : evaluateField lib resolver row f =
      eval lib (some resolver) row lib.frames (.call (.name name) (args.map Expr.constant) []) := by
    simp only [evaluateField,htext,evaluate,hstrip,if_false,hparse]
  rw [computeField,heval,storeResult] at h
  rcases @eval_call _ lib (some resolver) row name args lib.frames with hresult | ⟨p,hresult⟩ | hnil
  · rw [hresult,hcall] at h
    exact h
  · rw [hresult] at h
    cases h
  · exact absurd hnil hargs

theorem computeValues_field {resolver : (String → Val) → Resolver} {row : String → Val} {fields : List FormulaField}
    {out : List (String × Val)} (h : (computeValues lib resolver row fields).result = .ok out)
    (hnodup : (fields.map FormulaField.physName).Nodup) {f : FormulaField} (hf : f ∈ fields) :
    ∃ row' w, (∀ c, c ∉ fields.map FormulaField.physName → row' c = row c) ∧
      (computeField lib (resolver row') row' f).result = .ok w ∧ out.lookup f.physName = some w := by
  induction fields generalizing row out with
  | nil => cases hf
  | cons g fields ih =>
    obtain ⟨v,hv,hbind⟩ := Traced.bind_ok h
    obtain ⟨rest,hrest,hpure⟩ := Traced.bind_ok hbind
    obtain rfl := Except.ok.inj hpure
    obtain ⟨hnotin,hnodup⟩ := List.nodup_cons.mp hnodup
    rcases List.mem_cons.mp hf with rfl | hf
    · exact ⟨row,v,fun _ _ => rfl,hv,by simp⟩
    · obtain ⟨row',w,hrow',hw,hlookup⟩ := ih hrest hnodup hf
      have hne : f.physName ≠ g.physName := fun hsame => hnotin (hsame ▸ List.mem_map_of_mem hf)
      refine ⟨row',w,fun c hc => ?_,hw,?_⟩
      · simp only [List.map_cons,List.mem_cons,not_or] at hc
        rw [hrow' c hc.2,Function.update_of_ne hc.1]
      · rw [List.lookup_cons,beq_false_of_ne hne]
        exact hlookup

theorem lookup_keep (s : Side) (vs : List (String × Val)) (name : String) :
    (vs.map fun p => (p.1,d.keep s p.1 p.2)).lookup name = (vs.lookup name).map (d.keep s name) := by
  induction vs with
  | nil => rfl
  | cons p vs ih =>
    rw [List.map_cons,List.lookup_cons,List.lookup_cons]
    by_cases h : name = p.1
    · simp [h]
    · rw [beq_false_of_ne h]
      exact ih

theorem compute_ok {s : Side} {ts : Tables} {row : Row} {vs : Values} (h : compute lib d s ts row = .ok vs) :
    ∃ out, (computeValues lib (resolver lib d ts s) (fun c => .val (row c)) (d.table s).formulas).result = .ok out ∧
      vs = out.map fun p => (p.1,d.keep s p.1 p.2) := by
  rw [compute] at h
  cases hresult : (computeValues lib (resolver lib d ts s) (fun c => .val (row c)) (d.table s).formulas).result with
  | error e =>
    rw [hresult] at h
    cases h
  | ok out =>
    rw [hresult] at h
    exact ⟨out,rfl,(Except.ok.inj h).symm⟩

theorem compute_field {s : Side} {ts : Tables} {row : Row} {vs : Values} (h : compute lib d s ts row = .ok vs)
    {f : FormulaField} (hf : f ∈ (d.table s).formulas) :
    ∃ row' w, (∀ c, c ∉ (d.table s).names → row' c = .val (row c)) ∧
      (computeField lib (resolver lib d ts s row') row' f).result = .ok w ∧
      vs.lookup f.physName = some (d.keep s f.physName w) := by
  obtain ⟨out,hout,rfl⟩ := compute_ok h
  obtain ⟨row',w,hrow',hw,hlookup⟩ := computeValues_field hout (d.table s).formulasNodup hf
  exact ⟨row',w,hrow',hw,by rw [lookup_keep,hlookup]; rfl⟩

/-- Nothing is computed for a column that is no formula. -/
theorem compute_other {s : Side} {ts : Tables} {row : Row} {vs : Values} (h : compute lib d s ts row = .ok vs)
    {c : String} (hc : c ∉ (d.table s).names) : vs.lookup c = none := by
  obtain ⟨out,hout,rfl⟩ := compute_ok h
  rw [lookup_keep,List.lookup_eq_none_iff.mpr]
  · rfl
  · intro p hp
    refine bne_iff_ne.mpr fun hsame => hc ?_
    rw [FormulaTable.names,← computeValues_names hout,hsame]
    exact List.mem_map_of_mem hp

theorem computed_name {s : Side} {ts : Tables} {row : Row} {vs : Values} (h : compute lib d s ts row = .ok vs)
    {c : String} {v : Value} (hv : vs.lookup c = some v) : c ∈ (d.table s).names := by
  by_contra hc
  rw [compute_other h hc] at hv
  cases hv

theorem name_held {s : Side} {c : String} (hc : c ∈ (d.table s).names) : c ∈ (d.table s).columns ∧ c ≠ d.pkCol s := by
  obtain ⟨f,hf,rfl⟩ := List.mem_map.mp hc
  exact (d.table s).formulasHeld f hf

theorem pk_plain (s : Side) : d.pkCol s ∉ (d.table s).names := fun h => (name_held h).2 rfl

theorem fk_plain : d.fk ∉ (d.table .child).names := by
  intro h
  obtain ⟨f,hf,hname⟩ := List.mem_map.mp h
  obtain ⟨field,hfield,htype,hfieldname⟩ := (d.table .child).formulasOf f hf
  obtain ⟨field',hfield',htype',hfieldname'⟩ := d.fkField
  obtain rfl := (d.table .child).mt.field_unique hfield hfield' (by rw [hfieldname,hfieldname',hname])
  rw [htype] at htype'
  cases htype'

theorem managed_plain {s : Side} {c : String} (hc : c ∈ managed) : c ∉ (d.table s).names := by
  intro h
  obtain ⟨f,hf,rfl⟩ := List.mem_map.mp h
  obtain ⟨field,hfield,-,hname⟩ := (d.table s).formulasOf f hf
  exact (d.table s).mt.namesFree field hfield (hname ▸ hc)

/-- A computed rollup is that of the children of the record. -/
theorem compute_rollup {ts : Tables} {row : Row} {vs : Values} (h : compute lib d .parent ts row = .ok vs)
    {f : FormulaField} (hf : f ∈ (d.table .parent).formulas) {op col : String} (hsingle : SingleRollup lib d f op col) :
    ∃ w, coerceResult lib (d.rollup ts (.val (row (d.pkCol .parent))) (opName lib (.text op)) col) f.resultType = .ok w ∧
      vs.lookup f.physName = some (d.keep .parent f.physName w) := by
  obtain ⟨row',w,hrow',hw,hlookup⟩ := compute_field h hf
  obtain ⟨text,htext,hstrip,hparse⟩ := hsingle
  refine ⟨w,?_,hlookup⟩
  rw [← hrow' _ (pk_plain .parent)]
  rcases hparse with hparse | ⟨rfl,hparse⟩
  · refine @computeField_call _ lib _ _ f text "rollup" [.text d.relName,.text col,.text op] _ w hw htext hstrip hparse (by simp) ?_
    simp [callNamed,relationFuncs,callRelation,resolver,ofPython,columnName]
  · refine @computeField_call _ lib _ _ f text "rollup" [.text d.relName,.text col] _ w hw htext hstrip hparse (by simp) ?_
    simp [callNamed,relationFuncs,callRelation,resolver,ofPython,columnName]

/-- A computed lookup is that in the parent of the record. -/
theorem compute_lookup {ts : Tables} {row : Row} {vs : Values} (h : compute lib d .child ts row = .ok vs)
    {f : FormulaField} (hf : f ∈ (d.table .child).formulas) {col : String} (hsingle : SingleLookup lib d f col) :
    ∃ w, coerceResult lib (d.lookup ts (.val (row d.fk)) col) f.resultType = .ok w ∧
      vs.lookup f.physName = some (d.keep .child f.physName w) := by
  obtain ⟨row',w,hrow',hw,hlookup⟩ := compute_field h hf
  obtain ⟨text,htext,hstrip,-,hparse⟩ := hsingle
  refine ⟨w,?_,hlookup⟩
  rw [← hrow' _ fk_plain]
  refine @computeField_call _ lib _ _ f text "lookup" [.text d.fk,.text col] _ w hw htext hstrip hparse (by simp) ?_
  simp [callNamed,relationFuncs,callRelation,resolver,ofPython,columnName]

end Computed

/-! ### What is read of another record -/

section Views

variable {ω : Type*} {lib : FormulaLib ω} {d : Design}

theorem zero_eq (op col : String) : Design.zero op = d.aggregateValue op col [] := by
  simp only [Design.zero,Design.aggregateValue]
  split_ifs <;> rfl

/-- A rollup is the aggregate of the rows that point at the record. -/
theorem rollup_eq {ts : Tables} {k : Value} (hnull : k ≠ .null) (hempty : k = .text "" → d.pointing ts k = [])
    (op col : String) : d.rollup ts (.val k) op col = d.aggregateValue op col (d.cells ts k col) := by
  by_cases h : k = .text ""
  · simp only [Design.rollup,h,or_true,if_true,Design.cells]
    rw [← h,hempty h]
    exact zero_eq op col
  · simp [Design.rollup,hnull,h]

theorem current_eq (ts : Tables) (k : Value) (col : String) :
    current d ts k col = (((ts .parent).find? fun p => decide (p (d.pkCol .parent) = k)).map fun p => Val.val (p col)).getD .null := by
  simp only [current]
  cases (ts .parent).find? fun p => decide (p (d.pkCol .parent) = k) <;> rfl

theorem getRow_eq {s : Side} {ts : Tables} {k : Value} :
    (d.physical ts s).getRow k = (ts s).find? fun p => decide (p (d.pkCol s) = (d.table s).key k) := rfl

/-- A lookup is the value in the record that the key points at. -/
theorem lookup_eq {ts : Tables} {k : Value} (hkeys : ∀ p ∈ ts .parent, p (d.pkCol .parent) ≠ .null)
    (hk : Ripples k) (hkey : k = .null ∨ (d.table .parent).key k = k) {col : String} (hcol : col ≠ "") :
    d.lookup ts (.val k) col = current d ts k col := by
  by_cases hnull : k = .null
  · have hnone : (ts .parent).find? (fun p => decide (p (d.pkCol .parent) = k)) = none := by
      simpa [List.find?_eq_none,hnull] using hkeys
    simp [Design.lookup,current,hnull ▸ hnone,hnull]
  · have hempty : k ≠ .text "" := by
      rintro rfl
      rcases hk with hk | hk <;> cases hk
    simp only [Design.lookup,hnull,hempty,hcol,or_self,if_false,getRow_eq,hkey.resolve_left hnull]
    rfl

/-- The columns that a recomputation of the record leaves alone. -/
def Kept (lib : FormulaLib ω) (d : Design) (s : Side) (c : String) : Prop := c ∉ (d.table s).names ∨ Reads lib d s c

/-- The rows are those of the other tables but for formulas that nothing reads. -/
def Alike (lib : FormulaLib ω) (d : Design) (ts ts' : Tables) : Prop :=
  ∀ s, List.Forall₂ (fun row row' => ∀ c, Kept lib d s c → row c = row' c) (ts s) (ts' s)

theorem plain_kept {s : Side} {c : String} (h : Plain d s c) : c ∉ (d.table s).names := by
  obtain ⟨-,-,field,hfield,htype,rfl⟩ := h
  intro hname
  obtain ⟨f,hf,hsame⟩ := List.mem_map.mp hname
  obtain ⟨field',hfield',htype',hname'⟩ := (d.table s).formulasOf f hf
  exact htype ((d.table s).mt.field_unique hfield hfield' (by rw [hname',hsame]) ▸ htype')

theorem Alike.cells {ts ts' : Tables} (h : Alike lib d ts ts') {col : String} (hcol : Reads lib d .child col) (k : Value) :
    d.cells ts k col = d.cells ts' k col := by
  have hpointing : List.Forall₂ (fun row row' => ∀ c, Kept lib d .child c → row c = row' c) (d.pointing ts k)
      (d.pointing ts' k) := Paired.filter (fun row row' hrow => by rw [hrow d.fk (Or.inl fk_plain)]) (h .child)
  exact Paired.map_eq (fun row row' hrow => hrow col (Or.inr hcol)) hpointing

theorem Alike.current {ts ts' : Tables} (h : Alike lib d ts ts') {col : String} (hcol : Reads lib d .parent col)
    (k : Value) : current d ts k col = current d ts' k col := by
  rw [current_eq,current_eq]
  refine congrArg (Option.getD · Val.null) (Paired.find ?_ ?_ (h .parent))
  · exact fun row row' hrow => by rw [hrow (d.pkCol .parent) (Or.inl (pk_plain .parent))]
  · exact fun row row' hrow => congrArg Val.val (hrow col (Or.inr hcol))

theorem RowFresh.alike {ts ts' : Tables} (h : Alike lib d ts ts') {s : Side} {row : Row}
    (hfresh : RowFresh lib d ts s row) : RowFresh lib d ts' s row := by
  cases s with
  | parent =>
    intro f hf op col hsingle
    rw [← h.cells ⟨f,hf,op,hsingle⟩]
    exact hfresh f hf op col hsingle
  | child =>
    intro f hf col hsingle
    rw [← h.current ⟨f,hf,hsingle⟩]
    exact hfresh f hf col hsingle

end Views

/-! ### Recomputation -/

section Recompute

variable {ω : Type*} {lib : FormulaLib ω} {d : Design}

/-- Recomputing the record would not change what the other table reads of it. -/
def Steady (lib : FormulaLib ω) (d : Design) (s : Side) (row : Row) : Prop :=
  ∀ col, Reads lib d s col → ∀ ts row' vs v, (∀ c, Plain d s c → row' c = row c) → compute lib d s ts row' = .ok vs →
    vs.lookup col = some v → row col = v

theorem Steady.congr {s : Side} {row row' : Row} (h : Steady lib d s row)
    (hrow : ∀ c, Kept lib d s c → row c = row' c) : Steady lib d s row' := by
  intro col hcol ts row₁ vs v hplain hcompute hv
  rw [← hrow col (Or.inr hcol)]
  exact h col hcol ts row₁ vs v (fun c hc => (hplain c hc).trans (hrow c (Or.inl (plain_kept hc))).symm) hcompute hv

/-- A record with its computed values is steady. -/
theorem steady_of_compute (hchain : Unchained lib d) {s : Side} {ts : Tables} {context row : Row} {vs : Values}
    (hcompute : compute lib d s ts context = .ok vs) (hplain : ∀ c, Plain d s c → context c = row c)
    (hrow : ∀ c v, vs.lookup c = some v → row c = v) : Steady lib d s row := by
  intro col hcol ts' row' vs' v hplain' hcompute' hv
  refine hrow col v ?_
  rw [hchain s col hcol ts ts' context row' vs vs' (fun c hc => (hplain c hc).trans (hplain' c hc).symm) hcompute hcompute']
  exact hv

theorem SameData.refl (d : Design) (ts : Tables) : SameData d ts ts := fun _ => List.forall₂_same.mpr fun _ _ _ _ => rfl

theorem SameData.trans {ts ts' ts'' : Tables} (h : SameData d ts ts') (h' : SameData d ts' ts'') : SameData d ts ts'' := by
  intro s
  exact Paired.trans (fun _ _ _ h₁ h₂ c hc => (h₁ c hc).trans (h₂ c hc)) (h s) (h' s)

theorem Quiet.of_sameData {ts ts' : Tables} (h : Quiet lib d ts) (hsame : SameData d ts ts') : Quiet lib d ts' := by
  intro ts'' hsame'
  obtain ⟨hadmits,hcompute⟩ := h ts'' (hsame.trans hsame')
  exact ⟨hadmits.trans (h ts' hsame).1.symm,hcompute⟩

/-- The tables keep the invariants, and only the records said to be stale are not up to date. -/
structure Standing (lib : FormulaLib ω) (d : Design) (stale : Side → Value → Prop) (ts : Tables) : Prop where
  admitted : d.admits ts = true
  ripples : ∀ row ∈ ts .child, Ripples (row d.fk)
  steady : ∀ s, ∀ row ∈ ts s, Steady lib d s row
  fresh : ∀ s, ∀ row ∈ ts s, ¬stale s (row (d.pkCol s)) → RowFresh lib d ts s row

theorem Standing.mono {stale stale' : Side → Value → Prop} {ts : Tables} (h : Standing lib d stale ts)
    (hstale : ∀ s, ∀ row ∈ ts s, stale s (row (d.pkCol s)) → stale' s (row (d.pkCol s))) : Standing lib d stale' ts :=
  { h with fresh := fun s row hrow hnot => h.fresh s row hrow fun hs => hnot (hstale s row hrow hs) }

theorem Standing.pointing_empty {stale : Side → Value → Prop} {ts : Tables} (h : Standing lib d stale ts) :
    d.pointing ts (.text "") = [] := by
  refine List.filter_eq_nil_iff.mpr fun row hrow hk => ?_
  rcases h.ripples row hrow with hnull | htruthy
  · rw [of_decide_eq_true hk] at hnull
    cases hnull
  · rw [of_decide_eq_true hk] at htruthy
    cases htruthy

theorem mem_rewritten {s s' : Side} {ts : Tables} {pk : Value} {vs : Values} {row : Row}
    (h : row ∈ rewritten d s pk vs ts s') : row ∈ ts s' ∧ (s' = s → row (d.pkCol s) ≠ (d.table s).key pk) ∨
      s' = s ∧ ∃ old ∈ ts s, old (d.pkCol s) = (d.table s).key pk ∧ row = old.write ((d.physical ts s).clean vs) := by
  by_cases hs : s' = s
  · subst hs
    rw [rewritten,Function.update_self] at h
    obtain ⟨old,hold,rfl⟩ := List.mem_map.mp h
    split
    · rename_i hkey
      exact Or.inr ⟨rfl,old,hold,hkey,rfl⟩
    · rename_i hkey
      exact Or.inl ⟨hold,fun _ => hkey⟩
  · rw [rewritten,Function.update_of_ne hs] at h
    exact Or.inl ⟨h,fun h' => absurd h' hs⟩

/-- How the rows after a rewriting are related to those before it. -/
theorem forall₂_rewritten {s : Side} {ts : Tables} {pk : Value} {vs : Values} {R : Side → Row → Row → Prop}
    (hrefl : ∀ s' row, R s' row row)
    (h : ∀ row ∈ ts s, row (d.pkCol s) = (d.table s).key pk → R s row (row.write ((d.physical ts s).clean vs))) (s' : Side) :
    List.Forall₂ (R s') (ts s') (rewritten d s pk vs ts s') := by
  by_cases hs : s' = s
  · subst hs
    rw [rewritten,Function.update_self]
    refine List.forall₂_map_right_iff.mpr (List.forall₂_same.mpr fun row hrow => ?_)
    split
    · rename_i hkey
      exact h row hrow hkey
    · exact hrefl s' row
  · rw [rewritten,Function.update_of_ne hs]
    exact List.forall₂_same.mpr fun row _ => hrefl s' row

theorem write_computed {s : Side} {ts ts' : Tables} {context row : Row} {vs : Values}
    (h : compute lib d s ts context = .ok vs) {c : String} {v : Value} (hv : vs.lookup c = some v) :
    row.write ((d.physical ts' s).clean vs) c = v := by
  obtain ⟨hcolumn,hpk⟩ := name_held (computed_name h hv)
  simp only [Row.write,Physical.lookup_clean]
  simp [Design.physical,hcolumn,hpk,hv]

theorem write_other {s : Side} {ts : Tables} {row : Row} {vs : Values} {c : String} (h : vs.lookup c = none) :
    row.write ((d.physical ts s).clean vs) c = row c :=
  Row.write_of_not_mem (by rw [Physical.lookup_clean,h,ite_self])

/-- A record that holds what was computed for it is up to date. -/
theorem rowFresh_of_compute {s : Side} {ts ts' : Tables} {context row : Row} {vs : Values}
    (hcompute : compute lib d s ts context = .ok vs) (hrow : ∀ c v, vs.lookup c = some v → row c = v)
    (hparent : s = .parent → ∀ op col, Reads lib d .child col → d.rollup ts (.val (context (d.pkCol .parent))) op col =
      d.aggregateValue op col (d.cells ts' (row (d.pkCol .parent)) col))
    (hchild : s = .child → ∀ col, Reads lib d .parent col → col ≠ "" →
      d.lookup ts (.val (context d.fk)) col = current d ts' (row d.fk) col) : RowFresh lib d ts' s row := by
  cases s with
  | parent =>
    intro f hf op col hsingle
    obtain ⟨w,hw,hlookup⟩ := compute_rollup hcompute hf hsingle
    rw [hparent rfl _ col ⟨f,hf,op,hsingle⟩] at hw
    exact ⟨w,hw,hrow _ _ hlookup⟩
  | child =>
    intro f hf col hsingle
    obtain ⟨w,hw,hlookup⟩ := compute_lookup hcompute hf hsingle
    have hcol : col ≠ "" := by
      obtain ⟨-,-,-,hcol,-⟩ := hsingle
      exact hcol
    rw [hchild rfl col ⟨f,hf,hsingle⟩ hcol] at hw
    exact ⟨w,hw,hrow _ _ hlookup⟩

theorem rowFresh_of_no_formulas {s : Side} (h : (d.table s).formulas = []) (ts : Tables) (row : Row) :
    RowFresh lib d ts s row := by
  cases s with
  | parent => exact fun f hf => by simp [h] at hf
  | child => exact fun f hf => by simp [h] at hf

theorem Standing.unique {stale : Side → Value → Prop} {ts : Tables} (h : Standing lib d stale ts) {s : Side} {row row' : Row}
    (hrow : row ∈ ts s) (hrow' : row' ∈ ts s) (hpk : row (d.pkCol s) = row' (d.pkCol s)) : row = row' :=
  List.inj_on_of_nodup_map ((d.sound ts h.admitted).nodup s) hrow hrow' hpk

theorem Standing.point {stale : Side → Value → Prop} {ts : Tables} (h : Standing lib d stale ts) {row : Row}
    (hrow : row ∈ ts .child) : row d.fk = .null ∨ (d.table .parent).key (row d.fk) = row d.fk := by
  rcases (d.sound ts h.admitted).references row hrow with hnull | ⟨p,hp,hpk⟩
  · exact Or.inl hnull
  · exact Or.inr (hpk ▸ ((d.sound ts h.admitted).keys .parent p hp).2)

theorem Standing.rollup {stale : Side → Value → Prop} {ts : Tables} (h : Standing lib d stale ts) {row : Row}
    (hrow : row ∈ ts .parent) (op col : String) : d.rollup ts (.val (row (d.pkCol .parent))) op col =
      d.aggregateValue op col (d.cells ts (row (d.pkCol .parent)) col) :=
  rollup_eq ((d.sound ts h.admitted).keys .parent row hrow).1 (fun hempty => hempty ▸ h.pointing_empty) op col

theorem Standing.lookup {stale : Side → Value → Prop} {ts : Tables} (h : Standing lib d stale ts) {row : Row}
    (hrow : row ∈ ts .child) {col : String} (hcol : col ≠ "") :
    d.lookup ts (.val (row d.fk)) col = current d ts (row d.fk) col :=
  lookup_eq (fun p hp => ((d.sound ts h.admitted).keys .parent p hp).1) (h.ripples row hrow) (h.point hrow) hcol

/-- A recomputation brings its record up to date and no other out of it. -/
theorem recompute_ok {stale : Side → Value → Prop} {ts : Tables} {s : Side} {row : Row} (hquiet : Quiet lib d ts)
    (hstand : Standing lib d stale ts) (hrow : row ∈ ts s) :
    ∃ ts', recomputeRow lib d s row ts = some ts' ∧ Quiet lib d ts' ∧
      Standing lib d (fun s' k => stale s' k ∧ ¬(s' = s ∧ k = row (d.pkCol s))) ts' ∧
      ∀ other ∈ ts s, other (d.pkCol s) ≠ row (d.pkCol s) → other ∈ ts' s := by
  obtain ⟨hnull,hkey⟩ := (d.sound ts hstand.admitted).keys s row hrow
  by_cases hnone : (d.table s).formulas = []
  · refine ⟨ts,if_pos (Or.inr hnone),hquiet,⟨hstand.admitted,hstand.ripples,hstand.steady,?_⟩,fun other hother _ => hother⟩
    intro s' row' hrow' hstale
    by_cases hs : s' = s
    · subst hs
      exact rowFresh_of_no_formulas hnone ts row'
    · exact hstand.fresh s' row' hrow' fun h => hstale ⟨h,fun h' => hs h'.1⟩
  obtain ⟨vs,hcompute⟩ := (hquiet ts (SameData.refl d ts)).2 s row hrow
  have hvs : vs ≠ [] := by
    rintro rfl
    obtain ⟨f,hf⟩ := List.exists_mem_of_ne_nil _ hnone
    obtain ⟨_,_,_,_,hlookup⟩ := compute_field hcompute hf
    cases hlookup
  have hone : ∀ old ∈ ts s, old (d.pkCol s) = (d.table s).key (row (d.pkCol s)) → old = row := fun old hold hpk =>
    hstand.unique hold hrow (hpk.trans hkey)
  have hother : ∀ c, c ∉ (d.table s).names → row.write ((d.physical ts s).clean vs) c = row c := fun c hc =>
    write_other (compute_other hcompute hc)
  have hkept : ∀ c, Kept lib d s c → row c = row.write ((d.physical ts s).clean vs) c := by
    intro c hc
    cases hv : vs.lookup c with
    | none => exact (write_other hv).symm
    | some v =>
      rw [write_computed hcompute hv]
      rcases hc with hc | hc
      · rw [compute_other hcompute hc] at hv
        cases hv
      · exact hstand.steady s row hrow c hc ts row vs v (fun _ _ => rfl) hcompute hv
  have hsame : SameData d ts (rewritten d s (row (d.pkCol s)) vs ts) := by
    refine forall₂_rewritten (fun _ _ _ _ => rfl) fun old hold hpk c hc => ?_
    rw [hone old hold hpk,hother c hc]
  have halike : Alike lib d ts (rewritten d s (row (d.pkCol s)) vs ts) := by
    refine forall₂_rewritten (fun _ _ _ _ => rfl) fun old hold hpk c hc => ?_
    rw [hone old hold hpk,hkept c hc]
  have hadmitted : d.admits (rewritten d s (row (d.pkCol s)) vs ts) = true := (hquiet _ hsame).1.trans hstand.admitted
  refine ⟨_,?_,hquiet.of_sameData hsame,⟨hadmitted,?_,?_,?_⟩,?_⟩
  · have hstart : ¬(row (d.pkCol s) = .null ∨ (d.table s).formulas = []) := not_or.mpr ⟨hnull,hnone⟩
    simp only [recomputeRow,hstart,if_false,hcompute,hvs,updateRow,hadmitted,if_true]
  · intro row' hrow'
    obtain ⟨old,hold,hagree⟩ := Paired.mem_left (halike .child) hrow'
    rw [← hagree d.fk (Or.inl fk_plain)]
    exact hstand.ripples old hold
  · intro s' row' hrow'
    obtain ⟨old,hold,hagree⟩ := Paired.mem_left (halike s') hrow'
    exact (hstand.steady s' old hold).congr hagree
  · intro s' row' hrow' hstale
    rcases mem_rewritten hrow' with ⟨hold,hpk⟩ | ⟨rfl,old,hold,hpk,rfl⟩
    · refine (hstand.fresh s' row' hold fun h => hstale ⟨h,?_⟩).alike halike
      rintro ⟨rfl,h⟩
      exact hpk rfl (h.trans hkey.symm)
    · obtain rfl := hone old hold hpk
      refine rowFresh_of_compute hcompute (fun c v => write_computed hcompute) ?_ ?_
      · rintro rfl op col hcol
        rw [hstand.rollup hold,hother _ (pk_plain .parent),halike.cells hcol]
      · rintro rfl col hcol hne
        rw [hstand.lookup hold hne,hother _ fk_plain,halike.current hcol]
  · intro other hmem hpk
    rw [rewritten,Function.update_self]
    exact List.mem_map.mpr ⟨other,hmem,if_neg fun h => hpk (h.trans hkey)⟩

/-- No record is stale. -/
def noneStale : Side → Value → Prop := fun _ _ => False

/-- The loop brings all its records up to date. -/
theorem recomputeRows_ok {s : Side} {rows : List Row} {ts : Tables} (hquiet : Quiet lib d ts)
    (hnodup : (rows.map fun row => row (d.pkCol s)).Nodup) (hrows : ∀ row ∈ rows, row ∈ ts s)
    (hstand : Standing lib d (fun s' k => s' = s ∧ k ∈ rows.map fun row => row (d.pkCol s)) ts) :
    Standing lib d noneStale (recomputeRows lib d s rows ts) := by
  have hdone := @mendAll_good _ _ (recomputeRow lib d s) (fun rows ts => Quiet lib d ts ∧
    (rows.map fun row => row (d.pkCol s)).Nodup ∧ (∀ row ∈ rows, row ∈ ts s) ∧
    Standing lib d (fun s' k => s' = s ∧ k ∈ rows.map fun row => row (d.pkCol s)) ts) ?_ rows ts
    ⟨hquiet,hnodup,hrows,hstand⟩
  · exact hdone.2.2.2.mono fun s' row _ h => by simp at h
  · rintro row rows ts ⟨hquiet,hnodup,hrows,hstand⟩
    obtain ⟨ts',hts',hquiet',hstand',hothers⟩ := recompute_ok hquiet hstand (hrows row List.mem_cons_self)
    obtain ⟨hnotin,hnodup⟩ := List.nodup_cons.mp hnodup
    refine ⟨ts',hts',hquiet',hnodup,fun other hother => ?_,hstand'.mono fun s' row' _ h => ?_⟩
    · refine hothers other (hrows other (List.mem_cons_of_mem row hother)) fun hpk => hnotin ?_
      exact List.mem_map.mpr ⟨other,hother,hpk⟩
    · obtain ⟨⟨hs,hmem⟩,hne⟩ := h
      rcases List.mem_cons.mp hmem with hpk | hmem
      · exact absurd ⟨hs,hpk⟩ hne
      · exact ⟨hs,hmem⟩

theorem readers_sublist (ts : Tables) (rid : Value) : (readers d ts rid).Sublist (ts .child) := by
  rw [readers]
  refine (List.take_sublist _ _).trans ?_
  split
  · exact List.Sublist.refl _
  · exact List.filter_sublist

/-- A ripple does no harm. -/
theorem ripple_idle {ts : Tables} (hquiet : Quiet lib d ts) (hstand : Standing lib d noneStale ts) (s : Side) (row : Row) :
    Standing lib d noneStale (ripple lib d s row ts) := by
  cases s with
  | child =>
    rw [ripple]
    split
    · split
      · rename_i p hfound
        have hp : p ∈ ts .parent := Keyed.mem_of_find hfound
        exact recomputeRows_ok hquiet (List.nodup_singleton _) (by simpa using hp) (hstand.mono fun _ _ _ h => h.elim)
      · exact hstand
    · exact hstand
  | parent =>
    rw [ripple]
    split
    · exact hstand
    · have hsub := readers_sublist (d := d) ts (row (d.pkCol .parent))
      exact recomputeRows_ok hquiet ((hsub.map _).nodup ((d.sound ts hstand.admitted).nodup .child))
        (fun c hc => hsub.subset hc) (hstand.mono fun _ _ _ h => h.elim)

theorem getRow_some {s : Side} {ts : Tables} {pk : Value} {row : Row} (h : (d.physical ts s).getRow pk = some row) :
    row ∈ ts s ∧ row (d.pkCol s) = (d.table s).key pk := by
  have hkey : (d.physical ts s).keyOf row = (d.table s).key pk := Keyed.key_of_find h
  exact ⟨Keyed.mem_of_find h,hkey⟩

theorem Standing.getRow {stale : Side → Value → Prop} {ts : Tables} (h : Standing lib d stale ts) {s : Side} {row : Row}
    (hrow : row ∈ ts s) {pk : Value} (hpk : row (d.pkCol s) = (d.table s).key pk) :
    (d.physical ts s).getRow pk = some row := by
  have hfind := Keyed.find_of_mem ((d.sound ts h.admitted).nodup s) hrow
  refine Eq.trans ?_ hfind
  exact congrArg (fun k => Keyed.find _ k (ts s)) hpk.symm

/-- After a child is written, the ripple recomputes the parent that it points at. -/
theorem ripple_child {ts : Tables} {row : Row} (hquiet : Quiet lib d ts)
    (hstand : Standing lib d (fun s k => s = .parent ∧ k = row d.fk) ts)
    (hreached : ∀ p ∈ ts .parent, p (d.pkCol .parent) = row d.fk → (row d.fk).truthy = true) :
    Standing lib d noneStale (ripple lib d .child row ts) := by
  by_cases hstale : ∃ p ∈ ts .parent, p (d.pkCol .parent) = row d.fk
  · obtain ⟨p,hp,hpk⟩ := hstale
    by_cases hnone : (d.table .parent).formulas = []
    · have hskip : ripple lib d .child row ts = ts := if_neg fun h => h.2 hnone
      rw [hskip]
      refine ⟨hstand.admitted,hstand.ripples,hstand.steady,fun s row' hrow' _ => ?_⟩
      cases s with
      | parent => exact rowFresh_of_no_formulas hnone ts row'
      | child => exact hstand.fresh .child row' hrow' fun h => by cases h.1
    · have hkey : (d.table .parent).key (row d.fk) = row d.fk := hpk ▸ ((d.sound ts hstand.admitted).keys .parent p hp).2
      have hdo : ripple lib d .child row ts = recomputeRows lib d .parent [p] ts := by
        rw [ripple,if_pos ⟨hreached p hp hpk,hnone⟩,hstand.getRow hp (hpk.trans hkey.symm)]
      rw [hdo]
      refine recomputeRows_ok hquiet (List.nodup_singleton _) (by simpa using hp) (hstand.mono fun s row' _ h => ?_)
      simpa [hpk] using h
  · refine ripple_idle hquiet (hstand.mono ?_) .child row
    rintro s row' hrow' ⟨rfl,hpk⟩
    exact hstale ⟨row',hrow',hpk⟩

/-- After a parent is written, the ripple recomputes the children that point at it. -/
theorem ripple_parent {ts : Tables} {row : Row} (hquiet : Quiet lib d ts)
    (hstand : Standing lib d (fun s k => s = .child ∧ row (d.pkCol .parent) ≠ .null ∧
      k ∈ (d.pointing ts (row (d.pkCol .parent))).map fun c => c (d.pkCol .child)) ts)
    (hfew : (d.pointing ts (row (d.pkCol .parent))).length ≤ maxRows) :
    Standing lib d noneStale (ripple lib d .parent row ts) := by
  rw [ripple]
  split
  · rename_i hskip
    refine ⟨hstand.admitted,hstand.ripples,hstand.steady,fun s row' hrow' _ => ?_⟩
    rcases hskip with hnull | hnone
    · exact hstand.fresh s row' hrow' fun h => h.2.1 hnull
    · cases s with
      | parent => exact hstand.fresh .parent row' hrow' fun h => by cases h.1
      | child => exact rowFresh_of_no_formulas hnone ts row'
  · have hsub := readers_sublist (d := d) ts (row (d.pkCol .parent))
    refine recomputeRows_ok hquiet ((hsub.map _).nodup ((d.sound ts hstand.admitted).nodup .child))
      (fun c hc => hsub.subset hc) (hstand.mono fun s row' _ h => ⟨h.1,?_⟩)
    have hpointing : d.pointing ts (row (d.pkCol .parent)) ⊆ readers d ts (row (d.pkCol .parent)) := by
      by_cases hempty : row (d.pkCol .parent) = .text ""
      · rw [hempty,hstand.pointing_empty]
        exact List.nil_subset _
      · rw [readers,if_neg hempty,List.take_of_length_le hfew]
        exact List.Subset.refl _
    exact List.map_subset _ hpointing h.2.2

end Recompute

end Related
end Biggy
