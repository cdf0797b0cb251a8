import Biggy.RowScope
import Biggy.Run

/-!
# What the user mode changes

The edits look the record up as the user sees it; the routes that delete, restore and destroy hand the submitted ids on
as they are. `mutations_guarded_iff` says when a run of them changes readable records only.
-/
namespace Biggy
namespace Mutations

open Companies RowScope RecordService

/-- What a form or a list does to a record. -/
inductive Operation
  | delete | restore | destroy
  | edit (values : Values)

/-- A table with what its operations depend on; `blocks` says of a key that other tables do not let it go. -/
structure Site where
  table : MetaTable
  evaluate : Evaluator
  accounts : List Account
  companies : List Company
  blocks : Value → Bool

/-- One record of a request, and when it is dealt with. -/
structure Input where
  operation : Operation
  pk : Value
  now : ℤ

section Step

variable (S : Site) (caller : Caller)

/-- `row_readable` of a stored row for the user. -/
def readable (allowDeleted : Bool) (row : Row) : Bool :=
  rowReadable S.table caller allowDeleted (companyScope S.accounts S.companies S.table caller) row

/-- `data_service.delete_row`. -/
def deleteRow (data : Physical) (pk : Value) : Except String Physical :=
  let rows := data.rows.filter fun row => decide (data.keyOf row ≠ data.key pk)
  if S.blocks (data.key pk) then .error "IntegrityError"
  else if data.admits rows then .ok { data with rows := rows }
  else .error "IntegrityError"

/-- `record_service.remove`, as far as the record itself is concerned. -/
def remove (data : Physical) (pk : Value) (now : ℤ) : Except String Physical :=
  if S.table.softDelete then
    if S.blocks (data.key pk) then .error "IntegrityError"
    else data.updateRow pk [("deleted_at",.datetime now),("deleted_by",userValue caller.userId)]
  else deleteRow S data pk

/-- `record_service.restore`. -/
def restore (data : Physical) (pk : Value) : Except String Physical :=
  data.updateRow pk [("deleted_at",.null),("deleted_by",.null)]

/-- `record_service.destroy`. -/
def destroy (data : Physical) (pk : Value) : Except String Physical := deleteRow S data pk

/-- The write of an edit, after the record is looked up. -/
def edit (data : Physical) (pk : Value) (values : Values) (now : ℤ) : Except String Physical :=
  match getRecord S.accounts S.companies S.table caller data pk false with
  | none => .error "Record not found."
  | some _ => RecordService.update S.evaluate S.table data pk values caller.userId now

def perform (data : Physical) (i : Input) : Except String Physical :=
  match i.operation with
  | .delete => remove S caller data i.pk i.now
  | .restore => restore data i.pk
  | .destroy => destroy S data i.pk
  | .edit values => edit S caller data i.pk values i.now

/-- The table after one record of a request; an operation that raises leaves the record as it is. -/
def step (data : Physical) (i : Input) : Physical :=
  match perform S caller data i with
  | .ok data' => data'
  | .error _ => data

/-- The trash is allowed for what is done in the trash. -/
def allowsTrash : Operation → Bool
  | .restore | .destroy => true
  | _ => false

/-- The stored record changes only if it is readable. -/
def Guarded (data : Physical) (i : Input) : Prop :=
  ∀ row, data.getRow i.pk = some row → (step S caller data i).getRow i.pk ≠ some row →
    readable S caller (allowsTrash i.operation) row = true

/-- The columns that an operation writes into a record; `none` stands for its removal. -/
def marks (i : Input) : Option Values :=
  match i.operation with
  | .delete =>
    if S.table.softDelete then some [("deleted_at",.datetime i.now),("deleted_by",userValue caller.userId)] else none
  | .restore => some [("deleted_at",.null),("deleted_by",.null)]
  | _ => none

/-- The database does not let the operation through. -/
def refused (data : Physical) (i : Input) : Bool :=
  (i.operation matches .delete | .destroy) && S.blocks (data.key i.pk) ||
    match marks S caller i with
    | none => !data.admits (data.rows.filter fun row => decide (data.keyOf row ≠ data.key i.pk))
    | some vs => !data.admits (data.writeRow i.pk vs)

/-- An operation of the trash, or a deletion, names a record that is readable, that carries the marks of the operation
already or that the database keeps as it is. -/
def Spares (data : Physical) (i : Input) : Prop :=
  match i.operation with
  | .edit _ => True
  | operation => ∀ row, data.getRow i.pk = some row → readable S caller (allowsTrash operation) row = true ∨
      (∃ vs, marks S caller i = some vs ∧ row.write (data.clean vs) = row) ∨ refused S caller data i = true

end Step

section Proofs

variable {S : Site} {caller : Caller}

theorem getRow_updateRow {data data' : Physical} {pk : Value} {vs : Values} (h : data.updateRow pk vs = .ok data') :
    data'.getRow pk = (data.getRow pk).map fun row => row.write (data.clean vs) := by
  have hkey : data'.key = data.key := by rw [Physical.updateRow_ok h]
  rw [Physical.getRow,hkey,Physical.rowAt_updateRow h,if_pos rfl]
  rfl

theorem getRow_removed (data : Physical) (pk : Value) :
    ({ data with rows := data.rows.filter fun row => decide (data.keyOf row ≠ data.key pk) } : Physical).getRow pk = none := by
  refine Keyed.find_eq_none.mpr fun row hrow => ?_
  exact of_decide_eq_true (List.mem_filter.mp hrow).2

/-- A write of marks that goes through writes them into the record, and one that does not leaves it. -/
theorem getRow_marked {data : Physical} {pk : Value} {vs : Values} {row : Row} (hrow : data.getRow pk = some row) :
    (match data.updateRow pk vs with | .ok data' => data' | .error _ => data).getRow pk =
      if data.admits (data.writeRow pk vs) then some (row.write (data.clean vs)) else some row := by
  by_cases hadmits : data.admits (data.writeRow pk vs) = true
  · have hwrite : data.updateRow pk vs = .ok { data with rows := data.writeRow pk vs } := by
      rw [Physical.updateRow,if_pos hadmits]
    rw [hwrite,if_pos hadmits]
    exact (getRow_updateRow hwrite).trans (by rw [hrow]; rfl)
  · rw [Physical.updateRow,if_neg hadmits,if_neg hadmits]
    exact hrow

theorem getRow_deleted {data : Physical} {pk : Value} {row : Row} (hrow : data.getRow pk = some row) :
    (match deleteRow S data pk with | .ok data' => data' | .error _ => data).getRow pk =
      if S.blocks (data.key pk) || !data.admits (data.rows.filter fun row => decide (data.keyOf row ≠ data.key pk))
        then some row else none := by
  rw [deleteRow]
  cases hblocks : S.blocks (data.key pk) with
  | true => exact hrow
  | false =>
    cases hadmits : data.admits (data.rows.filter fun row => decide (data.keyOf row ≠ data.key pk)) with
    | false => exact hrow
    | true => exact getRow_removed data pk

/-- What is stored of a record after an operation of the trash or a deletion. -/
theorem getRow_step {data : Physical} {i : Input} {row : Row} (hrow : data.getRow i.pk = some row)
    (hplain : ∀ values, i.operation ≠ .edit values) :
    (step S caller data i).getRow i.pk = if refused S caller data i then some row
      else (marks S caller i).map fun vs => row.write (data.clean vs) := by
  obtain ⟨operation,pk,now⟩ := i
  cases operation with
  | edit values => exact absurd rfl (hplain values)
  | restore =>
    refine (getRow_marked hrow).trans ?_
    simp only [refused,marks]
    by_cases hadmits : data.admits (data.writeRow pk [("deleted_at",.null),("deleted_by",.null)]) = true <;> simp [hadmits]
  | destroy =>
    refine (getRow_deleted hrow).trans ?_
    simp only [refused,marks]
    by_cases hblocks : S.blocks (data.key pk) = true <;> simp [hblocks]
  | delete =>
    simp only [step,perform,remove,refused,marks]
    cases hsoft : S.table.softDelete with
    | false =>
      refine (getRow_deleted hrow).trans ?_
      by_cases hblocks : S.blocks (data.key pk) = true <;> simp [hblocks]
    | true =>
      cases hblocks : S.blocks (data.key pk) with
      | true => simpa using hrow
      | false =>
        refine (getRow_marked hrow).trans ?_
        by_cases hadmits : data.admits
          (data.writeRow pk [("deleted_at",.datetime now),("deleted_by",userValue caller.userId)]) = true <;> simp [hadmits]

/-- An edit changes nothing that the user does not see. -/
theorem edit_guarded {data : Physical} {pk : Value} {values : Values} {now : ℤ} :
    Guarded S caller data ⟨.edit values,pk,now⟩ := by
  intro row hrow hchanged
  by_contra hhidden
  refine hchanged ?_
  have hnone : getRecord S.accounts S.companies S.table caller data pk false = none := by
    simp only [getRecord,hrow]
    rw [if_neg]
    exact hhidden
  simp only [step,perform,edit,hnone]
  exact hrow

theorem guarded_iff (data : Physical) (i : Input) : Guarded S caller data i ↔ Spares S caller data i := by
  by_cases hedit : ∃ values, i.operation = .edit values
  · obtain ⟨operation,pk,now⟩ := i
    obtain ⟨values,rfl⟩ := hedit
    exact ⟨fun _ => trivial,fun _ => edit_guarded⟩
  · have hplain : ∀ values, i.operation ≠ .edit values := fun values h => hedit ⟨values,h⟩
    have hspares : Spares S caller data i ↔ ∀ row, data.getRow i.pk = some row →
        readable S caller (allowsTrash i.operation) row = true ∨
          (∃ vs, marks S caller i = some vs ∧ row.write (data.clean vs) = row) ∨ refused S caller data i = true := by
      rw [Spares]
      cases hop : i.operation with
      | edit values => exact absurd hop (hplain values)
      | _ => rfl
    rw [hspares]
    refine forall_congr' fun row => forall_congr' fun hrow => ?_
    have hkept : (step S caller data i).getRow i.pk = some row ↔
        (∃ vs, marks S caller i = some vs ∧ row.write (data.clean vs) = row) ∨ refused S caller data i = true := by
      rw [getRow_step hrow hplain]
      cases refused S caller data i <;> simp
    rw [ne_eq,hkept]
    exact or_iff_not_imp_right.symm

/-- A run of operations changes readable records only, exactly when every deletion and every operation of the trash
spares the others. -/
theorem mutations_guarded_iff (S : Site) (caller : Caller) (data : Physical) (inputs : List Input) :
    Run.Meets (step S caller) (Guarded S caller) data inputs ↔ Run.Meets (step S caller) (Spares S caller) data inputs :=
  Run.meets_congr (fun _ => True) (fun _ _ _ => trivial) (fun s i _ => guarded_iff s i) trivial inputs

end Proofs

/-! ### Another user's note -/

/-- The notes of the user 1, without a trash. -/
def notesSite : Site where
  table := notes
  evaluate := fun _ _ => none
  accounts := []
  companies := []
  blocks := fun _ => false

/-- The user 2 deletes the note of the user 1. -/
theorem foreign_note_deleted : ¬∀ (S : Site) (caller : Caller) (data : Physical) (inputs : List Input),
    Run.Meets (step S caller) (Guarded S caller) data inputs := by
  intro h
  have hguarded := (h notesSite ⟨some 2,false⟩ storedNotes.data [⟨.delete,.int 1,0⟩]).1
  have hgone : (step notesSite ⟨some 2,false⟩ storedNotes.data ⟨.delete,.int 1,0⟩).getRow (.int 1) = none := rfl
  have hreadable := hguarded note rfl (by rw [hgone]; exact nofun)
  revert hreadable
  decide

end Mutations
end Biggy
