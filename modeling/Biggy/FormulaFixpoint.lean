import Biggy.FormulaReads
import Biggy.RelatedRun

/-!
# Formula columns reach a fixpoint

Formula columns are computed in the order of their positions, so that a later formula may use an earlier one. Where no
formula names a column that is computed after it, the values that `create` and `update` store are those that are computed
of the stored record; a formula that names a later column stores a value without it.
-/
namespace Biggy
namespace Related

open Formula FormRules Run

section Order

variable {ω : Type*} (lib : FormulaLib ω)

/-- The formula columns can be ranked so that every formula names lower ones only. -/
def Acyclic (fields : List FormulaField) : Prop := ∃ rank : String → ℕ,
  ∀ f ∈ fields, ∀ n ∈ f.reads lib, n ∈ fields.map FormulaField.physName → rank n < rank f.physName

/-- Every formula names only formula columns before its own. -/
def Ordered : List FormulaField → Prop
  | [] => True
  | f::fields => (∀ n ∈ f.reads lib, n ∉ (f::fields).map FormulaField.physName) ∧ Ordered fields

variable {lib}

theorem Ordered.acyclic {fields : List FormulaField} (h : Ordered lib fields)
    (hnodup : (fields.map FormulaField.physName).Nodup) : Acyclic lib fields := by
  induction fields with
  | nil => exact ⟨fun _ => 0,List.forall_mem_nil _⟩
  | cons f fields ih =>
    obtain ⟨hnotin,hnodup⟩ := List.nodup_cons.mp hnodup
    obtain ⟨rank,hrank⟩ := ih h.2 hnodup
    refine ⟨fun n => if n = f.physName then 0 else rank n+1,fun g hg n hn hmem => ?_⟩
    rcases List.mem_cons.mp hg with rfl | hg
    · exact absurd hmem (h.1 n hn)
    · have hne : g.physName ≠ f.physName := fun hsame => hnotin (hsame ▸ List.mem_map_of_mem hg)
      simp only [hne,if_false]
      split
      · exact Nat.succ_pos _
      · rename_i hn'
        exact Nat.succ_lt_succ (hrank g hg n hn ((List.mem_cons.mp hmem).resolve_left hn'))

end Order

section Fixpoint

variable {ω : Type*} (lib : FormulaLib ω) (d : Design)

/-- What is computed of a stored record is what its formula columns hold. -/
def Fixpoint (ts : Tables) (s : Side) (row : Row) : Prop :=
  ∀ c v, (computeSelf lib d s ts row).lookup c = some v → row c = v

/-- An operation stores a record, of whose dictionary its formulas are computed. -/
inductive Stores (ts : Tables) : Op → Side → Row → Row → Prop
  | create {s : Side} {values : Values} {generated : Value} {userId : Option ℕ} {now : ℤ}
      (h : d.admits (added s (newRow d s (stamped d s values (computeSelf lib d s ts (rowOf values))
        (createStamp userId now)) generated) ts) = true) :
      Stores ts (.create s values generated userId now) s (rowOf values)
        (newRow d s (stamped d s values (computeSelf lib d s ts (rowOf values)) (createStamp userId now)) generated)
  | update {s : Side} {pk : Value} {values : Values} {userId : Option ℕ} {now : ℤ} {old : Row} {ts' : Tables}
      (hold : (d.physical ts s).getRow pk = some old)
      (h : updateRow d s pk (stamped d s values (computeSelf lib d s ts (old.write values))
        (RecordService.auditStamp userId now)) ts = some ts') :
      Stores ts (.update s pk values userId now) s (old.write values)
        (old.write ((d.physical ts s).clean (stamped d s values (computeSelf lib d s ts (old.write values))
          (RecordService.auditStamp userId now))))

/-- A column that an operation stores as its dictionary has it. -/
def Given : Op → String → Prop
  | .create s values _ _ _, n => n ∉ managed ∧ n ≠ d.pkCol s ∧ (n ∈ (d.table s).columns ∨ values.lookup n = none)
  | .update s _ values _ _, n => n ∉ managed ∧ (n ∈ (d.table s).columns ∧ n ≠ d.pkCol s ∨ values.lookup n = none)
  | .remove _ _ _ _, _ => True

/-- A dictionary has what a record has outside the formula columns. -/
def Knows (s : Side) (row : Row) (known : String → Val) : Prop := ∀ c, c ∉ (d.table s).names → known c = .val (row c)

/-- The lookups and rollups that were performed give the same of the stored record. -/
def Persists (s : Side) (ts ts' : Tables) (context row : Row) : Prop :=
  ∀ op ∈ (computeValues lib (resolver lib d ts s) (fun c => .val (context c)) (d.table s).formulas).trace,
    ∀ known known', Knows d s context known → Knows d s row known' →
      Answers lib (some (resolver lib d ts s known)) (some (resolver lib d ts' s known')) op

variable {lib d}

/-- The same is computed of two rows that agree on what the formulas name besides earlier formula columns. -/
theorem compute_same {s : Side} {ts ts' : Tables} {context row : Row} (hordered : Ordered lib (d.table s).formulas)
    (hgiven : ∀ f ∈ (d.table s).formulas, ∀ n ∈ f.reads lib, n ∉ (d.table s).names → context n = row n)
    (hpersists : Persists lib d s ts ts' context row) : compute lib d s ts' row = compute lib d s ts context := by
  have hvalues := @sameOn_computeValues _ lib (resolver lib d ts s) (resolver lib d ts' s)
    (fun op => ∀ known known', Knows d s context known → Knows d s row known' →
      Answers lib (some (resolver lib d ts s known)) (some (resolver lib d ts' s known')) op) id
    (fun fields known known' => Ordered lib fields ∧ (∀ f ∈ fields, f.physName ∈ (d.table s).names) ∧
      Knows d s context known ∧ Knows d s row known' ∧
      ∀ f ∈ fields, ∀ n ∈ f.reads lib, n ∉ fields.map FormulaField.physName → known n = known' n)
    (fun fields known known' h op hop => hop known known' h.2.2.1 h.2.2.2.1)
    (fun f fields known known' h n hn => h.2.2.2.2 f List.mem_cons_self n hn (h.1.1 n hn)) ?_
    (d.table s).formulas (fun c => .val (context c)) (fun c => .val (row c)) ?_ hpersists
  · rw [FormulaField.renamed_id] at hvalues
    rw [compute,compute,hvalues]
    cases (computeValues lib (resolver lib d ts s) (fun c => .val (context c)) (d.table s).formulas).result with
    | error e => rfl
    | ok out => simp [Except.map]
  · rintro f fields known known' v ⟨hrest,hnames,hknown,hknown',hagree⟩
    have hupdate : ∀ {row : Row} {known : String → Val}, Knows d s row known →
        Knows d s row (Function.update known f.physName v) := by
      intro row known hknown c hc
      have hne : c ≠ f.physName := fun hsame => hc (hsame ▸ hnames f List.mem_cons_self)
      rw [Function.update_of_ne hne]
      exact hknown c hc
    refine ⟨hrest.2,fun g hg => hnames g (List.mem_cons_of_mem f hg),hupdate hknown,hupdate hknown',fun g hg n hn hlater => ?_⟩
    by_cases hself : n = f.physName
    · rw [hself,id,Function.update_self,Function.update_self]
    · rw [id,Function.update_of_ne hself,Function.update_of_ne hself]
      exact hagree g (List.mem_cons_of_mem f hg) n hn (by simp [hself,List.mem_map.not.mp hlater])
  · exact ⟨hordered,fun f hf => List.mem_map_of_mem hf,fun _ _ => rfl,fun _ _ => rfl,
      fun f hf n hn hname => congrArg Val.val (hgiven f hf n hn hname)⟩

theorem computeSelf_same {s : Side} {ts ts' : Tables} {context row : Row} (hordered : Ordered lib (d.table s).formulas)
    (hgiven : ∀ f ∈ (d.table s).formulas, ∀ n ∈ f.reads lib, n ∉ (d.table s).names → context n = row n)
    (hpersists : Persists lib d s ts ts' context row) : computeSelf lib d s ts' row = computeSelf lib d s ts context := by
  rw [computeSelf,computeSelf,compute_same hordered hgiven hpersists]

theorem computeSelf_name {s : Side} {ts : Tables} {row : Row} {c : String} {v : Value}
    (h : (computeSelf lib d s ts row).lookup c = some v) : c ∈ (d.table s).names := by
  rw [computeSelf] at h
  split at h
  · rename_i hcompute
    exact computed_name hcompute h
  · cases h

theorem computeSelf_other {s : Side} {ts : Tables} {row : Row} {c : String} (hc : c ∉ (d.table s).names) :
    (computeSelf lib d s ts row).lookup c = none := by
  cases hv : (computeSelf lib d s ts row).lookup c with
  | none => rfl
  | some v => exact absurd (computeSelf_name hv) hc

/-! ### What is stored -/

section Stored

variable {ts : Tables} {op : Op} {s : Side} {context row : Row}

/-- The computed values are stored. -/
theorem Stores.computed (h : Stores lib d ts op s context row) {c : String} {v : Value}
    (hv : (computeSelf lib d s ts context).lookup c = some v) : row c = v := by
  have hname := computeSelf_name hv
  obtain ⟨hcolumn,hpk⟩ := name_held hname
  have hfree : c ∉ managed := fun hc => managed_plain hc hname
  cases h with
  | create => simp only [newRow,hcolumn,hpk,if_true,if_false,stamped_computed hv (createStamp_unmanaged hfree),Option.getD_some]
  | update =>
    simp only [Row.write,Physical.lookup_clean,stamped_computed hv (auditStamp_unmanaged hfree)]
    simp [Design.physical,hcolumn,hpk]

/-- So is what the dictionary gives. -/
theorem Stores.given (h : Stores lib d ts op s context row) {n : String} (hname : n ∉ (d.table s).names)
    (hgiven : Given d op n) : context n = row n := by
  cases h with
  | @create _ values =>
    obtain ⟨hfree,hpk,hcolumn⟩ := hgiven
    simp only [newRow,hpk,if_false,rowOf,Row.write,stamped_submitted (computeSelf_other hname) (createStamp_unmanaged hfree)]
    split
    · rfl
    · rename_i hmissing
      rw [hcolumn.resolve_left hmissing]
      rfl
  | @update _ _ values =>
    obtain ⟨hfree,hcolumn⟩ := hgiven
    simp only [Row.write,Physical.lookup_clean,stamped_submitted (computeSelf_other hname) (auditStamp_unmanaged hfree)]
    rcases hcolumn with ⟨hcolumn,hpk⟩ | hnone
    · simp [Design.physical,hcolumn,hpk]
    · rw [hnone,ite_self]

theorem updateRow_some {pk : Value} {vs : Values} {ts' : Tables} (h : updateRow d s pk vs ts = some ts') :
    ts' = rewritten d s pk vs ts := by
  rw [updateRow] at h
  split at h
  · exact (Option.some.inj h).symm
  · cases h

theorem recomputeRow_frame {s s' : Side} (hs : s' ≠ s) {r : Row} {ts ts' : Tables} (h : recomputeRow lib d s r ts = some ts') :
    ts' s' = ts s' := by
  unfold recomputeRow at h
  split at h
  · rw [← Option.some.inj h]
  · split at h
    · cases h
    · split at h
      · rw [← Option.some.inj h]
      · rw [updateRow_some h]
        exact Function.update_of_ne hs _ _

theorem recomputeRows_frame {s s' : Side} (hs : s' ≠ s) (rows : List Row) (ts : Tables) :
    recomputeRows lib d s rows ts s' = ts s' :=
  mendAll_invariant (fun after => after s' = ts s') (fun _ _ _ h hsame => (recomputeRow_frame hs h).trans hsame) rfl

/-- A ripple leaves the table alone whose record was written. -/
theorem ripple_frame (s : Side) (r : Row) (ts : Tables) : ripple lib d s r ts s = ts s := by
  cases s with
  | child =>
    rw [ripple]
    split
    · cases (d.physical ts .parent).getRow (r d.fk) with
      | some p => exact recomputeRows_frame (by decide) [p] ts
      | none => rfl
    · rfl
  | parent =>
    rw [ripple]
    split
    · rfl
    · exact recomputeRows_frame (by decide) _ _

/-- The record is there when the operation is done. -/
theorem Stores.mem (h : Stores lib d ts op s context row) : row ∈ step lib d ts op s := by
  cases h with
  | create hadmits =>
    simp only [step,Related.create]
    rw [if_pos hadmits,ripple_frame]
    exact added_self s _ ts
  | @update _ pk values userId now old ts' hold hupdate =>
    have hrow : old.write ((d.physical ts s).clean (stamped d s values (computeSelf lib d s ts (old.write values))
        (RecordService.auditStamp userId now))) ∈ ts' s := by
      rw [updateRow_some hupdate,rewritten,Function.update_self]
      obtain ⟨hmem,hkey⟩ := getRow_some hold
      exact List.mem_map.mpr ⟨old,hmem,if_pos hkey⟩
    simp only [step,Related.update,hold,Related.context,hupdate]
    cases (d.physical ts' s).getRow pk with
    | some r =>
      simp only [ripple_frame]
      exact hrow
    | none =>
      dsimp only
      split
      · rw [ripple_frame]
        exact hrow
      · exact hrow

end Stored

end Fixpoint

/-! ### Accounts that are due -/

def dueText : String := "due"

def totalText : String := "lookup('account_id', 'n_orders')"

def dueLib : FormulaLib String := { formulaLib with
  parse := fun s =>
    if s = dueText then .ok (.name "due")
    else if s = "today()" then .ok (.call (.name "today") [] [])
    else if s = ordersText then .ok (.call (.name "rollup") [textConstant "Orders",textConstant "",textConstant "count"] [])
    else if s = totalText then .ok (.call (.name "lookup") [textConstant "account_id",textConstant "n_orders"] [])
    else .error "invalid syntax" }

/-- The formula columns of an account; `late` names `due`, and stands before or behind it. -/
def dueFormulas (before : Bool) : List FormulaField :=
  if before then [⟨"late",some dueText,.date⟩,⟨"due",some "today()",.date⟩,⟨"n_orders",some ordersText,.number⟩]
  else [⟨"due",some "today()",.date⟩,⟨"late",some dueText,.date⟩,⟨"n_orders",some ordersText,.number⟩]

def dueTables (before : Bool) : Side → FormulaTable
  | .parent => {
    mt := {
      id := 1
      physName := "account"
      label := "Account"
      fields := [⟨1,"late","Late",.formula,true,none,none,none,none,none,none,none,none⟩,
        ⟨2,"due","Due",.formula,true,none,none,none,none,none,none,none,none⟩,
        ⟨3,"n_orders","Orders",.formula,true,none,none,none,none,none,none,none,none⟩]
      idsNodup := by decide
      namesNodup := by decide
      namesFree := by decide }
    columns := ["id","late","due","n_orders"]
    key := id
    formulas := dueFormulas before
    formulasNodup := by cases before <;> decide
    formulasOf := by cases before <;> simp [dueFormulas]
    formulasHeld := by cases before <;> decide
    pkFree := by decide }
  | .child => {
    mt := {
      id := 2
      physName := "ordr"
      label := "Order"
      fields := [⟨4,"account_id","Account",.relation,true,none,none,some 1,none,none,none,none,none⟩,
        ⟨5,"repeated","Repeated",.formula,true,none,none,none,none,none,none,none,none⟩]
      idsNodup := by decide
      namesNodup := by decide
      namesFree := by decide }
    columns := ["id","account_id","repeated"]
    key := id
    formulas := [⟨"repeated",some totalText,.boolean⟩]
    formulasNodup := by decide
    formulasOf := by simp
    formulasHeld := by decide
    pkFree := by decide }

def dueShop (before : Bool) : Design where
  table := dueTables before
  relName := "Orders"
  fk := "account_id"
  fkField := ⟨_,List.mem_cons_self,rfl,rfl⟩
  fkHeld := by cases before <;> decide
  nullable := true
  onDelete := .setNull
  elsewhere _ _ := ⟨fun _ _ => .null,fun _ _ _ => .null⟩
  keep _ _ v := match v with
    | .val v => v
    | _ => .null
  aggregate _ _ := .null
  admits := checkKeys (dueTables before) "account_id"
  sound := checkKeys_sound
  admitsNone := by cases before <;> decide

/-- An account without a submitted value. -/
def newAccount : Op := .create .parent [] (.int 1) none 0

/-- An order of that account. -/
def newOrder : Op := .create .child [("account_id",.int 1)] (.int 1) none 0

end Related
end Biggy
