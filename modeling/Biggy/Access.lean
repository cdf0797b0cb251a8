import Biggy.RowScope

/-!
# Access policies

Who may read or write a form, a table, a field or a record, and which records an account of the portal sees.
-/
namespace Biggy
namespace Access

open Companies RowScope

inductive Level
  | none | read | write | full
  deriving DecidableEq

inductive Purpose
  | data | view
  deriving DecidableEq

structure MetaForm where
  id : ℕ
  tableId : ℕ
  purpose : Purpose := .data
  inCatalog : Bool := false
  deriving DecidableEq

structure MetaPermission where
  role : String
  formId : ℕ
  access : Level

structure MetaFieldPermission where
  role : String
  fieldId : ℕ
  access : Level

/-- An account that is signed in; an inactive account is not authenticated. -/
structure User extends Account where
  active : Bool := true

def isPortal (user : AppUser) : Bool := user.role == "portal"

/-- The metadata rows that the policies read, the forms in the order of their ids. -/
structure Session where
  forms : List MetaForm
  permissions : List MetaPermission
  fieldPermissions : List MetaFieldPermission
  accounts : List Account
  companies : List Company

section Policies

variable (session : Session) (user : User)

/-- `not user or not user.is_authenticated or user.is_portal`. -/
def outside : Bool := !user.active || isPortal user.toAppUser

/-- `form_access`. -/
def formAccess (formId : ℕ) : Level :=
  if outside user then .none
  else if user.isDesigner then .full
  else ((session.permissions.find? fun p => decide (p.role = user.role ∧ p.formId = formId)).map
    MetaPermission.access).getD .write

def canRead (access : Level) : Bool := access ∈ [Level.full,.write,.read]
def canWrite (access : Level) : Bool := access ∈ [Level.full,.write]

def formsOf (mt : MetaTable) : List MetaForm := session.forms.filter fun f => decide (f.tableId = mt.id)

def tableReadable (mt : MetaTable) : Bool :=
  if outside user then false
  else user.isDesigner || (formsOf session mt).any fun f => canRead (formAccess session user f.id)

def tableWritable (mt : MetaTable) : Bool :=
  if outside user then false
  else user.isDesigner || (formsOf session mt).any fun f => canWrite (formAccess session user f.id)

/-- `_field_perm_map`, of one field; a field without a permission is writable. -/
def fieldPerm (fieldId : ℕ) : Level :=
  ((session.fieldPermissions.reverse.find? fun p => decide (p.role = user.role ∧ p.fieldId = fieldId)).map
    MetaFieldPermission.access).getD .write

/-- The fields of `readable_fields`. -/
def readableFields (mt : MetaTable) : List MetaField :=
  if outside user then []
  else if user.isDesigner then mt.fields
  else mt.fields.filter fun f => decide (fieldPerm session user f.id ∈ [Level.write,.read])

/-- The fields of `writable_fields`. -/
def writableFields (mt : MetaTable) : List MetaField :=
  if outside user then []
  else if user.isDesigner then mt.fields
  else mt.fields.filter fun f => decide (fieldPerm session user f.id = .write)

/-- `table_view_form`. -/
def tableViewForm (mt : MetaTable) : Option MetaForm := (formsOf session mt).find? fun f => decide (f.purpose = .view)

def canView (mt : MetaTable) : Bool := (tableViewForm session mt).any fun f => canRead (formAccess session user f.id)

/-- The caller that `_ctx` makes of the user. -/
def ctx : Caller := ⟨some user.id,user.isDesigner⟩

/-! ### The portal -/

/-- `portal_members`: the portal accounts of the user's company and of those below it. -/
def portalMembers : Finset ℕ :=
  match user.companyId with
  | none => {user.id}
  | some company =>
    if company = 0 then {user.id}
    else ((session.accounts.filter fun a => decide (a.companyId.any (· ∈ subtreeIds session.companies company) ∧
      isPortal a.toAppUser = true)).map fun a : Account => a.id).toFinset ∪ {user.id}

/-- `portal_record`. -/
def portalRecord (mt : MetaTable) (data : Physical) (pk : Value) : Option Row :=
  match getRecord session.accounts session.companies mt ⟨some user.id,true⟩ data pk false with
  | none => none
  | some row =>
    if !user.isDesigner && !inCompanies (portalMembers session user) (row "created_by") then none else some row

/-- A form of the table is usable in the portal: the forms of `_catalog_forms`. -/
def catalogTable (mt : MetaTable) : Bool :=
  (formsOf session mt).any fun f => f.inCatalog && decide (f.purpose ≠ .view) && (mt.trackAudit || mt.rowOwned)

end Policies

end Access
end Biggy
