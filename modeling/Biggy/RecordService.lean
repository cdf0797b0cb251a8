import Biggy.Metadata

/-!
# record_service: what an update writes

`update` extends the submitted values by the computed formula columns and the
audit stamps before it hands them to the physical table. No field of the table
other than a formula is touched by what it adds.
-/
namespace Biggy
namespace RecordService

/-- A formula evaluated in the context of a record and coerced to its result type;
`none` is an exception other than the formula's own error. -/
abbrev Evaluator := MetaField → Row → Option Value

def formulaFields (mt : MetaTable) : List MetaField := mt.fields.filter fun f => decide (f.dataType = .formula)

def hasFormulas (mt : MetaTable) : Bool := mt.fields.any fun f => decide (f.dataType = .formula)

def hasAuditCols (mt : MetaTable) : Bool := mt.trackAudit || mt.rowOwned

/-- `formula.compute_values`: a later formula may use an earlier one. -/
def computeValues (evaluate : Evaluator) : List MetaField → Row → Option Values
  | [], _ => some []
  | f::fs, row =>
    match evaluate f row with
    | none => none
    | some v => (computeValues evaluate fs (row.write [(f.physName,v)])).map ((f.physName,v) :: ·)

/-- `_compute_self`: a formula never breaks the write. -/
def computeSelf (evaluate : Evaluator) (mt : MetaTable) (context : Row) : Values :=
  (computeValues evaluate (formulaFields mt) context).getD []

def userValue : Option ℕ → Value
  | none => .null
  | some id => .int id

/-- `values.update(updated_by=user_id, updated_at=_now())`. -/
def auditStamp (userId : Option ℕ) (now : ℤ) : Values :=
  [("updated_by",userValue userId),("updated_at",.datetime now)]

/-- The values that `update` hands to `data_service.update_row`. -/
def updateValues (evaluate : Evaluator) (mt : MetaTable) (old : Row) (values : Values)
    (userId : Option ℕ) (now : ℤ) : Values :=
  let computed := if hasFormulas mt then values.update (computeSelf evaluate mt (old.write values)) else values
  if hasAuditCols mt then computed.update (auditStamp userId now) else computed

/-- `data_service.get_row(...) or {}`. -/
def oldRow (data : Physical) (pk : Value) : Row := (data.getRow pk).getD fun _ => .null

def update (evaluate : Evaluator) (mt : MetaTable) (data : Physical) (pk : Value) (values : Values)
    (userId : Option ℕ) (now : ℤ) : Except String Physical :=
  data.updateRow pk (updateValues evaluate mt (oldRow data pk) values userId now)

theorem computeValues_lookup {evaluate : Evaluator} {fs : List MetaField} {row : Row} {vs : Values}
    (h : computeValues evaluate fs row = some vs) {name : String}
    (hname : ∀ f ∈ fs, f.physName ≠ name) : vs.lookup name = none := by
  induction fs generalizing row vs with
  | nil =>
    cases h
    rfl
  | cons f fs ih =>
    simp only [computeValues] at h
    split at h
    · cases h
    · obtain ⟨rest,hrest,rfl⟩ := Option.map_eq_some_iff.mp h
      have hne : (name == f.physName) = false := by simpa using (hname f List.mem_cons_self).symm
      rw [List.lookup_cons,hne]
      exact ih hrest fun g hg => hname g (List.mem_cons_of_mem f hg)

/-- The formula columns of a table are not the columns of its other fields. -/
theorem computeSelf_lookup {evaluate : Evaluator} {mt : MetaTable} {context : Row} {field : MetaField}
    (hf : field ∈ mt.fields) (hplain : field.dataType ≠ .formula) :
    (computeSelf evaluate mt context).lookup field.physName = none := by
  simp only [computeSelf]
  cases h : computeValues evaluate (formulaFields mt) context with
  | none => rfl
  | some vs =>
    refine computeValues_lookup h fun g hg hname => hplain ?_
    obtain ⟨hg,htype⟩ := List.mem_filter.mp hg
    rw [← mt.field_unique hg hf hname]
    simpa using htype

theorem auditStamp_lookup {mt : MetaTable} {field : MetaField} (hf : field ∈ mt.fields)
    (userId : Option ℕ) (now : ℤ) : (auditStamp userId now).lookup field.physName = none := by
  have hfree := mt.namesFree field hf
  simp only [managed,List.mem_cons,not_or] at hfree
  have h₁ : (field.physName == "updated_by") = false := by simpa using hfree.2.2.1
  have h₂ : (field.physName == "updated_at") = false := by simpa using hfree.2.2.2.1
  simp [auditStamp,List.lookup_cons,h₁,h₂]

/-- An update writes a field that is not a formula exactly as submitted. -/
theorem updateValues_lookup {evaluate : Evaluator} {mt : MetaTable} {old : Row} {values : Values}
    {userId : Option ℕ} {now : ℤ} {field : MetaField} (hf : field ∈ mt.fields)
    (hplain : field.dataType ≠ .formula) :
    (updateValues evaluate mt old values userId now).lookup field.physName =
      values.lookup field.physName := by
  have hcomputed : (if hasFormulas mt then values.update (computeSelf evaluate mt (old.write values))
      else values).lookup field.physName = values.lookup field.physName := by
    split
    · simp [computeSelf_lookup hf hplain]
    · rfl
  simp only [updateValues]
  split
  · simp [auditStamp_lookup hf,hcomputed]
  · exact hcomputed

/-- What an accepted update does to one such column of every record. -/
theorem update_ok {evaluate : Evaluator} {mt : MetaTable} {data data' : Physical} {pk : Value}
    {values : Values} {userId : Option ℕ} {now : ℤ}
    (h : update evaluate mt data pk values userId now = .ok data') {field : MetaField}
    (hf : field ∈ mt.fields) (hplain : field.dataType ≠ .formula) {k : Value} {row' : Row}
    (hrow' : data'.rowAt k = some row') :
    ∃ row, data.rowAt k = some row ∧ (row' field.physName = row field.physName ∨
      k = data.key pk ∧ values.lookup field.physName = some (row' field.physName)) := by
  rw [Physical.rowAt_updateRow h] at hrow'
  split at hrow'
  · rename_i hk
    obtain ⟨row,hrow,rfl⟩ := Option.map_eq_some_iff.mp hrow'
    refine ⟨row,hrow,?_⟩
    simp only [Row.write,Physical.lookup_clean]
    split
    · rw [updateValues_lookup hf hplain]
      cases hv : values.lookup field.physName with
      | none => exact Or.inl rfl
      | some v => exact Or.inr ⟨hk,rfl⟩
    · exact Or.inl rfl
  · exact ⟨row',hrow',Or.inl rfl⟩

end RecordService
end Biggy
