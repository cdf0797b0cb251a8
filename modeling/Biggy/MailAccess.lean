import Biggy.Access

/-!
# Whose mail reaches a record

`_can_access` lets a mail into the conversation of a record by the scope of the row alone. `mail_within_ui` says for
which accounts and tables this is what the pages would let them open.
-/
namespace Biggy
namespace MailAccess

open Companies RowScope Access

section Walls

variable (session : Session) (user : User) (mt : MetaTable) (data : Physical)

/-- The `members` of `_can_access`. -/
def members : Finset ℕ :=
  match user.companyId with
  | none => {user.id}
  | some company =>
    if company = 0 then {user.id}
    else {user.id} ∪ ((session.accounts.filter fun a => decide (a.companyId.any (· ∈ subtreeIds session.companies company) ∧
      isPortal a.toAppUser = true)).map fun a : Account => a.id).toFinset

/-- `_can_access`. -/
def canAccess (pk : Value) : Bool :=
  if isPortal user.toAppUser then
    match getRecord session.accounts session.companies mt ⟨some user.id,true⟩ data pk false with
    | none => false
    | some row => inCompanies (members session user) (row "created_by")
  else (getRecord session.accounts session.companies mt (ctx user) data pk false).isSome

/-- The pages would open the record: those of the portal for its accounts, those of the user mode for the others. -/
def opensInUi (pk : Value) : Bool :=
  if isPortal user.toAppUser then catalogTable session mt && (portalRecord session user mt data pk).isSome
  else tableReadable session user mt && (getRecord session.accounts session.companies mt (ctx user) data pk false).isSome

/-- The table is open to the account. -/
def tableOpen : Bool :=
  if isPortal user.toAppUser then catalogTable session mt else tableReadable session user mt

/-- A stored row is in the scope of the account. -/
def inScope (row : Row) : Bool :=
  if isPortal user.toAppUser then
    rowReadable mt ⟨some user.id,true⟩ false none row && inCompanies (portalMembers session user) (row "created_by")
  else rowReadable mt (ctx user) false (companyScope session.accounts session.companies mt (ctx user)) row

end Walls

variable {session : Session} {user : User} {mt : MetaTable}

theorem members_eq : members session user = portalMembers session user := by
  simp only [members,portalMembers]
  cases user.companyId with
  | none => rfl
  | some company =>
    by_cases hzero : company = 0
    · simp [hzero]
    · simp only [if_neg hzero]
      exact Finset.union_comm _ _

theorem isDesigner_of_portal (h : isPortal user.toAppUser = true) : user.isDesigner = false := by
  simp only [isPortal,beq_iff_eq] at h
  simp [AppUser.isDesigner,h]

theorem opensInUi_eq (data : Physical) (pk : Value) :
    opensInUi session user mt data pk = (tableOpen session user mt && canAccess session user mt data pk) := by
  simp only [opensInUi,tableOpen,canAccess]
  by_cases hportal : isPortal user.toAppUser = true
  · have hdesigner := isDesigner_of_portal hportal
    have hrecord : (portalRecord session user mt data pk).isSome =
        (match getRecord session.accounts session.companies mt ⟨some user.id,true⟩ data pk false with
          | none => false
          | some row => inCompanies (members session user) (row "created_by")) := by
      simp only [portalRecord,members_eq,hdesigner]
      cases getRecord session.accounts session.companies mt ⟨some user.id,true⟩ data pk false with
      | none => rfl
      | some row =>
        cases hin : inCompanies (portalMembers session user) (row "created_by") <;> simp [hin]
    rw [if_pos hportal,if_pos hportal,if_pos hportal,hrecord]
  · rw [if_neg hportal,if_neg hportal,if_neg hportal]

/-- An account reaches some record of the table by mail exactly when a stored row is in its scope. -/
theorem exists_canAccess (t : Stored mt) :
    (∃ pk, canAccess session user mt t.data pk = true) ↔ ∃ row ∈ t.data.rows, inScope session user mt row = true := by
  simp only [canAccess,inScope]
  by_cases hportal : isPortal user.toAppUser = true
  · have hscope : companyScope session.accounts session.companies mt ⟨some user.id,true⟩ = none := by simp [companyScope]
    simp only [if_pos hportal,members_eq,Bool.and_eq_true]
    constructor
    · rintro ⟨pk,hpk⟩
      split at hpk
      · cases hpk
      · rename_i row hrow
        obtain ⟨hmem,hreadable⟩ := (getRecord_eq_some row).mp ⟨pk,hrow⟩
        rw [hscope] at hreadable
        exact ⟨row,hmem,hreadable,hpk⟩
    · rintro ⟨row,hmem,hreadable,hin⟩
      obtain ⟨pk,hpk⟩ := (@getRecord_eq_some session.accounts session.companies mt ⟨some user.id,true⟩ t row).mpr
        ⟨hmem,by rw [hscope]; exact hreadable⟩
      exact ⟨pk,by rw [hpk]; exact hin⟩
  · simp only [if_neg hportal,Option.isSome_iff_exists]
    constructor
    · rintro ⟨pk,row,hrow⟩
      exact ⟨row,(getRecord_eq_some row).mp ⟨pk,hrow⟩⟩
    · rintro ⟨row,hrow⟩
      obtain ⟨pk,hpk⟩ := (@getRecord_eq_some session.accounts session.companies mt (ctx user) t row).mpr hrow
      exact ⟨pk,row,hpk⟩

/-- Mail reaches no record that the pages keep from the account exactly when the table is open to the account, or none
of its stored rows is in the account's scope. -/
theorem mail_within_ui (session : Session) (user : User) {mt : MetaTable} (t : Stored mt) :
    (∀ pk, canAccess session user mt t.data pk = true → opensInUi session user mt t.data pk = true) ↔
      (tableOpen session user mt = true ∨ ∀ row ∈ t.data.rows, inScope session user mt row = false) := by
  constructor
  · intro h
    by_cases hopen : tableOpen session user mt = true
    · exact Or.inl hopen
    · refine Or.inr fun row hrow => ?_
      by_contra hin
      obtain ⟨pk,hpk⟩ := (@exists_canAccess session user mt t).mpr ⟨row,hrow,by simpa using hin⟩
      have hui := h pk hpk
      rw [opensInUi_eq,Bool.and_eq_true] at hui
      exact hopen hui.1
  · rintro (hopen | hnone) pk hpk
    · rw [opensInUi_eq,hopen,hpk]
      rfl
    · obtain ⟨row,hrow,hin⟩ := (exists_canAccess t).mp ⟨pk,hpk⟩
      rw [hnone row hrow] at hin
      cases hin

/-! ### A colleague without the form -/

/-- The form of the notes is closed to the role of the user 2. -/
def closedForm : Session where
  forms := [{ id := 1, tableId := 2 }]
  permissions := [⟨"user",1,.none⟩]
  fieldPermissions := []
  accounts := []
  companies := []

/-- Memos that everybody with a form may read. -/
def memos : MetaTable where
  id := 2
  physName := "memos"
  label := "Memos"
  fields := []
  idsNodup := List.nodup_nil
  namesNodup := List.nodup_nil
  namesFree := unmanaged_fields

def memo : Row := Row.write (fun _ => .null) [("id",.int 1)]

def memosData : Physical := ⟨["id"],"id",[memo],id,fun _ => true⟩

def colleague : User := { id := 2, role := "user" }

/-- The mail of a colleague whose role has no access to the form reaches the record. -/
theorem mail_of_closed_form : ¬∀ (session : Session) (user : User) (mt : MetaTable) (data : Physical) (pk : Value),
    canAccess session user mt data pk = true → opensInUi session user mt data pk = true := by
  intro h
  have hopen := h closedForm colleague memos memosData (.int 1) (by decide)
  revert hopen
  decide

end MailAccess
end Biggy
