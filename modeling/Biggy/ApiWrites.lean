import Biggy.Access
import Biggy.Approvals
import Biggy.Outcome
import Biggy.Pull
import Biggy.Run

/-!
# Creates and updates through the API

A request body becomes values by `deserialize`; a new record gets generated values, defaults and its
creator's company, a stored one gets what is submitted. `writes_isolated_iff` says when the records
that a company-scoped user writes stay within the companies the user may see.
-/
namespace Biggy
namespace ApiWrites

open Companies RowScope Access RecordService Importer

/-- A table of the API with the metadata that a write reads. Workflows are attached to enum fields. -/
structure Site where
  table : MetaTable
  session : Session
  workflows : List Workflow
  steps : List ApprovalStep
  evaluate : Evaluator
  lib : PullLib
  username : ℕ → Option String
  relation : MetaField → Resolver
  describe : PyError → String
  onEnum : ∀ wf ∈ workflows, ∀ field, table.field wf.fieldId = some field → field.dataType = .enum

inductive Request
  | create
  | update (pk : Value)

/-- A request with its body and what the write takes from outside: the clock, the next numbers of the
autonumber fields and the key that the database generates. -/
structure Input where
  request : Request
  body : Json
  now : ℤ
  today : ℤ
  next : ℕ → ℕ
  newKey : Value

inductive Refusal
  | status (code : ℕ) (message : String)
  | raised (e : PyError)

section Api

variable (S : Site) (user : User)

/-! ### From the body to values -/

/-- `_MANAGED` of the serialization. -/
def readOnly : List String := "id"::managed

/-- The fields of a table that a body may name. -/
def bodyFields : List MetaField := S.table.fields.filter fun f => decide (f.dataType ∉ [DataType.file,.image])

/-- One member of the body. -/
def deserializeItem (p : String × Json) : Except PyError (String × Value) :=
  if p.1 ∈ readOnly then .error (.valueError ("'" ++ p.1 ++ "' is read-only."))
  else
    match (bodyFields S).find? fun f => decide (f.physName = p.1) with
    | none => .error (.valueError ("Unknown field '" ++ p.1 ++ "'."))
    | some f =>
      if p.1 ∉ (writableFields S.session user S.table).map MetaField.physName then
        .error (.valueError ("'" ++ p.1 ++ "' is read-only for your role."))
      else
        match p.2 with
        | .null | .str "" => .ok (p.1,.null)
        | val =>
          (coerceValue S.lib.toCoerceLib f (if f.dataType = .relation then some (S.relation f) else none)
            (some (S.lib.strJson val))).map fun v => (p.1,v)

/-- A required field that a new record does not get. -/
def missing (values : Values) (f : MetaField) : Bool :=
  !f.nullable && (f.defaultValue.getD "" == "") && decide ((values.lookup f.physName).getD .null = .null)

def deserialize (body : Json) (isPartial : Bool) : Except PyError Values :=
  match body with
  | .obj members =>
    match members.mapM (deserializeItem S user) with
    | .error e => .error e
    | .ok values =>
      match if isPartial then none else (bodyFields S).find? (missing values) with
      | some f => .error (.valueError ("'" ++ f.physName ++ "' is required."))
      | none => .ok values
  | _ => .error (.valueError "Request body must be a JSON object.")

/-! ### What a new record gets -/

/-- `values.get(name) not in (None, "")`. -/
def filled (values : Values) (name : String) : Bool := (values.lookup name).any fun v => !v.blank

def defaultTokens : List String := ["now","today","current_user","me"]

/-- `(field.default_value or "").strip().lower()`. -/
def token (f : MetaField) : String := S.lib.lowercase (strip (f.defaultValue.getD ""))

/-- `_eval_default_token`; `none` where it returns None. -/
def evalDefaultToken (i : Input) (f : MetaField) : Option Value :=
  if token S f = "now" then some (.datetime i.now)
  else if token S f = "today" then some (.date i.today)
  else if f.dataType = .user then some (userValue (some user.id))
  else if user.id = 0 then none
  else (S.username user.id).map .text

/-- The digits of a number, with zeros in front up to four. -/
def fourDigits (n : ℕ) : String := String.ofList (List.replicate (4 - (toString n).length) '0') ++ toString n

/-- The body of the loop of `_apply_generated`. -/
def generate (i : Input) (values : Values) (f : MetaField) : Except PyError Values :=
  if filled values f.physName then .ok values
  else if f.dataType = .autonumber then
    .ok (values.update [(f.physName,.text (f.defaultValue.getD "" ++ fourDigits (i.next f.id)))])
  else if token S f ∈ defaultTokens then
    .ok (values.update ((evalDefaultToken S user i f).toList.map fun v => (f.physName,v)))
  else if values.lookup f.physName = none ∧ f.defaultValue.getD "" ≠ "" ∧ f.dataType ∉ [DataType.file,.image,.formula] then
    (coerceValue S.lib.toCoerceLib f none f.defaultValue).map fun v => values.update [(f.physName,v)]
  else .ok values

/-- `_apply_generated`. -/
def applyGenerated (i : Input) (values : Values) : Except PyError Values := S.table.fields.foldlM (generate S user i) values

/-- The first company field. -/
def companyField : Option MetaField := S.table.fields.find? fun f => decide (f.dataType = .company)

/-- The company of the creator's account. -/
def creatorCompany : Option ℕ :=
  if user.id = 0 then none
  else ((Keyed.find (fun a : Account => a.id) user.id S.session.accounts).bind Account.companyId).filter (· ≠ 0)

/-- `_apply_company_default`. -/
def applyCompanyDefault (values : Values) : Values :=
  match companyField S with
  | none => values
  | some cf =>
    if filled values cf.physName then values
    else values.update ((creatorCompany S user).toList.map fun company : ℕ => (cf.physName,.int company))

/-- The values that `create` hands to `insert_row`. -/
def createValues (i : Input) (values : Values) : Values :=
  let computed := if hasFormulas S.table then
    values.update (computeSelf S.evaluate S.table (Row.write (fun _ => .null) values)) else values
  if hasAuditCols S.table then
    computed.update [("created_by",userValue (some user.id)),("created_at",.datetime i.now),
      ("updated_by",userValue (some user.id)),("updated_at",.datetime i.now)]
  else computed

/-- The row that is stored for new values under a key. -/
def newRow (data : Physical) (clean : Values) (pk : Value) : Row :=
  (Row.write (fun _ => .null) clean).write [(data.pk,data.key pk)]

/-- `data_service.insert_row`: a supplied key, else the generated one. -/
def insertRow (data : Physical) (values : Values) (newKey : Value) : Except String (Physical × Value) :=
  let clean := values.filter fun p => data.columns.contains p.1
  let pk := (clean.lookup data.pk).getD newKey
  let rows := data.rows ++ [newRow data clean pk]
  if data.admits rows then .ok ({ data with rows := rows },pk) else .error "IntegrityError"

/-- `record_service.create`. -/
def create (data : Physical) (values : Values) (i : Input) : Except String (Physical × Value) :=
  match applyGenerated S user i values with
  | .error e => .error (S.describe e)
  | .ok generated => insertRow data (createValues S user i (applyCompanyDefault S user generated)) i.newKey

/-! ### The routes -/

/-- The answer to a body that does not deserialize. -/
def refuseBody : PyError → Refusal
  | .valueError message => .status 400 message
  | e => .raised e

def createRow (data : Physical) (i : Input) : Except Refusal (Physical × Value) :=
  if !tableWritable S.session user S.table then .error (.status 403 "No write access to this table.")
  else
    match deserialize S user i.body false with
    | .error e => .error (refuseBody e)
    | .ok values => (create S user data values i).mapError fun message => .status 409 ("Could not create: " ++ message)

/-- The record as the user sees it. -/
def shown (data : Physical) (pk : Value) : Option Row :=
  getRecord S.session.accounts S.session.companies S.table (ctx user) data pk false

def updateRow (data : Physical) (pk : Value) (i : Input) : Except Refusal (Physical × Value) :=
  if !tableWritable S.session user S.table then .error (.status 403 "No write access to this table.")
  else
    match shown S user data pk with
    | none => .error (.status 404 "Record not found.")
    | some old =>
      match deserialize S user i.body true with
      | .error e => .error (refuseBody e)
      | .ok values =>
        let direct := (Approvals.planDiversions S.steps S.table old S.workflows values).2
        match Workflow.check S.table old direct user.toAppUser S.workflows with
        | .error e => .error (.status 409 (e.message S.lib.str))
        | .ok _ =>
          if direct = [] then .ok (data,pk)
          else
            match RecordService.update S.evaluate S.table data pk direct (some user.id) i.now with
            | .error message => .error (.status 409 ("Could not update: " ++ message))
            | .ok data' => .ok (data',pk)

def perform (data : Physical) (i : Input) : Except Refusal (Physical × Value) :=
  match i.request with
  | .create => createRow S user data i
  | .update pk => updateRow S user data pk i

/-- The table after a request; a refused one changes nothing. -/
def step (data : Physical) (i : Input) : Physical :=
  match perform S user data i with
  | .ok (data',_) => data'
  | .error _ => data

/-! ### Isolation -/

/-- The companies that the user may see on the table. -/
def scope : Option (String × Finset ℕ) := companyScope S.session.accounts S.session.companies S.table (ctx user)

/-- The record that a request writes is one of the user's companies, and the user sees it. -/
def Isolated (data : Physical) (i : Input) : Prop :=
  ∀ data' pk, perform S user data i = .ok (data',pk) → ∀ sc, scope S user = some sc →
    ∀ row, data'.getRow pk = some row → inCompanies sc.2 (row sc.1) = true ∧ shown S user data' pk = some row

/-- What the default of a field says, when no value is submitted. -/
def defaultOf (i : Input) (submitted : Option Value) (f : MetaField) : Option Value :=
  if token S f ∈ defaultTokens then evalDefaultToken S user i f
  else if submitted = none ∧ f.defaultValue.getD "" ≠ "" then (coerceValue S.lib.toCoerceLib f none f.defaultValue).toOption
  else none

/-- The value that is submitted for a field, or else the one that its default says. -/
def given (i : Input) (submitted : Option Value) (f : MetaField) : Option Value :=
  (submitted.filter fun v => !v.blank).or (defaultOf S user i submitted f)

/-- The columns that keep a record in sight are there. -/
def Kept (data : Physical) (column : String) : Prop :=
  column ∈ data.columns ∧ (S.table.rowOwned = true → "created_by" ∈ data.columns)

/-- A request that is carried out names no other company: neither in its body nor, for a new record, by a default. -/
def Fits (data : Physical) (i : Input) : Prop :=
  (∃ r, perform S user data i = .ok r) → ∀ sc, scope S user = some sc → ∀ cf, companyField S = some cf →
    match i.request with
    | .create => Kept S data cf.physName ∧ ∀ values, deserialize S user i.body false = .ok values →
        ∀ v, given S user i (values.lookup cf.physName) cf = some v → v.blank = true ∨ inCompanies sc.2 v = true
    | .update _ => cf.physName ∈ data.columns → ∀ values, deserialize S user i.body true = .ok values →
        ∀ v, values.lookup cf.physName = some v → inCompanies sc.2 v = true

/-- The database keeps the keys apart, and the key is neither a company nor a column of the program's. -/
structure Sound (data : Physical) : Prop where
  unique : ∀ rows, data.admits rows = true → (rows.map data.keyOf).Nodup
  keyFree : data.pk ∉ managed
  keyPlain : ∀ f ∈ S.table.fields, f.dataType = .company → f.physName ≠ data.pk

structure Store where
  data : Physical
  sound : Sound S data

end Api

section Proofs

variable {S : Site} {user : User}

/-! ### The scope and the creator's company -/

theorem scope_some {sc : String × Finset ℕ} (h : scope S user = some sc) :
    ∃ cf, companyField S = some cf ∧ cf.physName = sc.1 ∧ ∃ company, creatorCompany S user = some company ∧ company ∈ sc.2 := by
  simp only [scope,companyScope] at h
  split at h
  · cases h
  · split at h
    · cases h
    · rename_i cf hcf
      obtain ⟨allowed,hallowed,rfl⟩ := Option.map_eq_some_iff.mp h
      refine ⟨cf,hcf,rfl,?_⟩
      have hid : user.id ≠ 0 := by
        intro hzero
        simp [allowedForUser,ctx,noId,hzero] at hallowed
      simp only [allowedForUser,ctx,noId,beq_eq_false_iff_ne.mpr hid,Bool.false_eq_true,if_false,Option.bind_some] at hallowed
      split at hallowed
      · cases hallowed
      · rename_i account haccount
        split at hallowed
        · cases hallowed
        · rename_i company hcompany
          split at hallowed
          · cases hallowed
          · rename_i hne
            obtain rfl := Option.some.inj hallowed
            exact ⟨company,by simp [creatorCompany,hid,haccount,hcompany,hne],root_mem_subtreeIds _ _⟩

theorem companyField_mem {cf : MetaField} (h : companyField S = some cf) : cf ∈ S.table.fields ∧ cf.dataType = .company :=
  ⟨List.mem_of_find?_eq_some h,by simpa using List.find?_some h⟩

/-! ### The values of a body -/

theorem deserialize_mem {body : Json} {isPartial : Bool} {values : Values} (h : deserialize S user body isPartial = .ok values)
    {p : String × Value} (hp : p ∈ values) : ∃ member, deserializeItem S user member = .ok p := by
  simp only [deserialize] at h
  split at h
  · split at h
    · cases h
    · rename_i items hitems
      split at h
      · cases h
      · obtain rfl := Except.ok.inj h
        obtain ⟨member,-,hmember⟩ := Outcome.mapM_from hitems hp
        exact ⟨member,hmember⟩
  · cases h

theorem mem_of_lookup {values : Values} {name : String} {v : Value} (h : values.lookup name = some v) : (name,v) ∈ values := by
  induction values with
  | nil => cases h
  | cons p values ih =>
    rw [List.lookup_cons] at h
    split at h
    · rename_i hname
      obtain rfl := Option.some.inj h
      rw [beq_iff_eq.mp hname]
      exact List.mem_cons_self
    · exact List.mem_cons_of_mem p (ih h)

/-- A body names no column of the program's. -/
theorem deserialize_managed {body : Json} {isPartial : Bool} {values : Values}
    (h : deserialize S user body isPartial = .ok values) {name : String} (hname : name ∈ managed) :
    values.lookup name = none := by
  by_contra hne
  obtain ⟨v,hv⟩ := Option.ne_none_iff_exists'.mp hne
  obtain ⟨member,hmember⟩ := deserialize_mem h (mem_of_lookup hv)
  simp only [deserializeItem] at hmember
  split at hmember
  · cases hmember
  · rename_i hfree
    have hsame : member.1 = name := by
      split at hmember
      · cases hmember
      · split at hmember
        · cases hmember
        · split at hmember
          · exact congrArg Prod.fst (Except.ok.inj hmember)
          · exact congrArg Prod.fst (Except.ok.inj hmember)
          · obtain ⟨w,-,hw⟩ := Outcome.map_ok hmember
            exact congrArg Prod.fst hw
    rw [hsame] at hfree
    exact hfree (List.mem_cons_of_mem "id" hname)

theorem coerceValue_company {lib : CoerceLib} {f : MetaField} (hf : f.dataType = .company) {raw : Option String} {v : Value}
    (h : coerceValue lib f none raw = .ok v) : v = .null ∨ ∃ n, v = .int n := by
  simp only [coerceValue,coerceTyped,hf,coerceReference] at h
  split at h
  · exact Or.inl (Except.ok.inj h).symm
  · right
    cases hint : coerceInt lib (strip (raw.getD "")) with
    | error e =>
      rw [hint] at h
      cases h
    | ok w =>
      rw [hint] at h
      obtain rfl := Except.ok.inj h
      obtain ⟨n,-,hn⟩ := Outcome.map_ok hint
      exact ⟨n,hn.symm⟩

/-- A submitted company is a number or nothing. -/
theorem deserialize_company {body : Json} {isPartial : Bool} {values : Values}
    (h : deserialize S user body isPartial = .ok values) {cf : MetaField} (hcf : companyField S = some cf) {v : Value}
    (hv : values.lookup cf.physName = some v) : v = .null ∨ ∃ n, v = .int n := by
  obtain ⟨hmem,htype⟩ := companyField_mem hcf
  obtain ⟨member,hmember⟩ := deserialize_mem h (mem_of_lookup hv)
  simp only [deserializeItem] at hmember
  split at hmember
  · cases hmember
  · split at hmember
    · cases hmember
    · rename_i f hf
      split at hmember
      · cases hmember
      · split at hmember
        · exact Or.inl (congrArg Prod.snd (Except.ok.inj hmember)).symm
        · exact Or.inl (congrArg Prod.snd (Except.ok.inj hmember)).symm
        · obtain ⟨w,hw,hpair⟩ := Outcome.map_ok hmember
          have hnamed : f.physName = member.1 := by simpa using List.find?_some hf
          have hname : f.physName = cf.physName := hnamed.trans (congrArg Prod.fst hpair)
          have hfmem := (List.mem_filter.mp (List.mem_of_find?_eq_some hf)).1
          obtain rfl := S.table.field_unique hfmem hmem hname
          rw [if_neg (by rw [htype]; decide)] at hw
          obtain rfl : w = v := congrArg Prod.snd hpair
          exact coerceValue_company htype hw

/-! ### The values of a new record -/

/-- A loop over fields whose turns write their own columns only leaves the other columns alone. -/
theorem fold_other {g : Values → MetaField → Except PyError Values}
    (hother : ∀ vs vs' f name, g vs f = .ok vs' → name ≠ f.physName → vs'.lookup name = vs.lookup name) {fs : List MetaField}
    {values values' : Values} (h : fs.foldlM g values = .ok values') {name : String} (hname : ∀ f ∈ fs, f.physName ≠ name) :
    values'.lookup name = values.lookup name :=
  Outcome.foldlM_invariant (fun vs : Values => vs.lookup name = values.lookup name)
    (fun _ _ f hf hs hstep => (hother _ _ _ _ hstep (hname f hf).symm).trans hs) rfl h

/-- What a column has after such a loop is what the turn of its field leaves there. -/
theorem fold_turn {g : Values → MetaField → Except PyError Values}
    (hother : ∀ vs vs' f name, g vs f = .ok vs' → name ≠ f.physName → vs'.lookup name = vs.lookup name) {fs : List MetaField}
    (hnodup : (fs.map MetaField.physName).Nodup) {values values' : Values} (h : fs.foldlM g values = .ok values') {f : MetaField}
    (hf : f ∈ fs) : ∃ vs vs', g vs f = .ok vs' ∧ vs.lookup f.physName = values.lookup f.physName ∧
      values'.lookup f.physName = vs'.lookup f.physName := by
  induction fs generalizing values with
  | nil => cases hf
  | cons f' fs ih =>
    obtain ⟨hhead,htail⟩ := List.nodup_cons.mp hnodup
    rw [Outcome.foldlM_cons] at h
    obtain ⟨ws,hstep,hrest⟩ := Outcome.bind_ok h
    rcases List.mem_cons.mp hf with rfl | hf
    · refine ⟨values,ws,hstep,rfl,fold_other hother hrest fun f' hf' hsame => hhead ?_⟩
      rw [← hsame]
      exact List.mem_map_of_mem hf'
    · obtain ⟨vs,vs',hturn,hvs,hvs'⟩ := ih htail hrest hf
      refine ⟨vs,vs',hturn,hvs.trans (hother _ _ _ _ hstep fun hsame => hhead ?_),hvs'⟩
      rw [← hsame]
      exact List.mem_map_of_mem hf

theorem generate_other {i : Input} {values values' : Values} {f : MetaField} (h : generate S user i values f = .ok values')
    {name : String} (hname : name ≠ f.physName) : values'.lookup name = values.lookup name := by
  have hsingle : ∀ v : Value, (values.update [(f.physName,v)]).lookup name = values.lookup name := by
    intro v
    rw [Values.lookup_update,Values.lookup_singleton,if_neg hname,Option.none_or]
  simp only [generate] at h
  split at h
  · rw [← Except.ok.inj h]
  · split at h
    · rw [← Except.ok.inj h]
      exact hsingle _
    · split at h
      · rw [← Except.ok.inj h]
        cases evalDefaultToken S user i f with
        | none => rfl
        | some v => exact hsingle v
      · split at h
        · obtain ⟨v,-,rfl⟩ := Outcome.map_ok h
          exact hsingle v
        · rw [← Except.ok.inj h]

theorem generateAll_other {i : Input} {fs : List MetaField} {values values' : Values}
    (h : fs.foldlM (generate S user i) values = .ok values') {name : String} (hname : ∀ f ∈ fs, f.physName ≠ name) :
    values'.lookup name = values.lookup name :=
  fold_other (fun _ _ _ _ hstep hne => generate_other hstep hne) h hname

/-- What a field has after the loop is what its own turn leaves there. -/
theorem generateAll_field {i : Input} {fs : List MetaField} (hnodup : (fs.map MetaField.physName).Nodup) {values values' : Values}
    (h : fs.foldlM (generate S user i) values = .ok values') {f : MetaField} (hf : f ∈ fs) :
    ∃ vs vs', generate S user i vs f = .ok vs' ∧ vs.lookup f.physName = values.lookup f.physName ∧
      values'.lookup f.physName = vs'.lookup f.physName :=
  fold_turn (fun _ _ _ _ hstep hne => generate_other hstep hne) hnodup h hf

/-- The turn of a company field fills it with the company that is given, if there is one. -/
theorem generate_company {i : Input} {values values' : Values} {f : MetaField} (h : generate S user i values f = .ok values')
    (hf : f.dataType = .company) :
    (filled values' f.physName = true → given S user i (values.lookup f.physName) f = values'.lookup f.physName) ∧
      (filled values' f.physName = false → ∀ v, given S user i (values.lookup f.physName) f = some v → v.blank = true) := by
  have hsingle : ∀ v : Value, (values.update [(f.physName,v)]).lookup f.physName = some v := by
    intro v
    rw [Values.lookup_update,Values.lookup_singleton,if_pos rfl,Option.some_or]
  simp only [generate] at h
  split at h
  · rename_i hfilled
    obtain rfl := Except.ok.inj h
    refine ⟨fun _ => ?_,fun hempty => absurd hfilled (by simp [hempty])⟩
    obtain ⟨v,hv,hnonblank⟩ := (Option.any_eq_true _ _).mp hfilled
    simp [given,hv,Option.filter,hnonblank]
  · rename_i hempty
    have hgiven : given S user i (values.lookup f.physName) f = defaultOf S user i (values.lookup f.physName) f := by
      have hfilter : ((values.lookup f.physName).filter fun v => !v.blank) = none := by
        rw [Option.filter_eq_none_iff]
        intro v hv hnonblank
        exact hempty (by simp [filled,hv,hnonblank])
      rw [given,hfilter,Option.none_or]
    rw [hgiven,defaultOf]
    rw [if_neg (by rw [hf]; decide)] at h
    split at h
    · rename_i htoken
      rw [if_pos htoken]
      obtain rfl := Except.ok.inj h
      cases evalDefaultToken S user i f with
      | none => exact ⟨fun hfilled => absurd hfilled hempty,fun _ v hv => by cases hv⟩
      | some v =>
        refine ⟨fun _ => (hsingle v).symm,fun hblank w hw => ?_⟩
        obtain rfl := Option.some.inj hw
        have hlookup := hsingle v
        simpa [filled,hlookup] using hblank
    · rename_i htoken
      rw [if_neg htoken]
      split at h
      · rename_i hstatic
        rw [if_pos ⟨hstatic.1,hstatic.2.1⟩]
        obtain ⟨v,hv,rfl⟩ := Outcome.map_ok h
        rw [hv]
        refine ⟨fun _ => (hsingle v).symm,fun hblank w hw => ?_⟩
        obtain rfl := Option.some.inj hw
        have hlookup := hsingle v
        simpa [filled,hlookup] using hblank
      · rename_i hstatic
        obtain rfl := Except.ok.inj h
        rw [if_neg fun hboth => hstatic ⟨hboth.1,hboth.2,by rw [hf]; decide⟩]
        exact ⟨fun hfilled => absurd hfilled hempty,fun _ v hv => by cases hv⟩

/-- A new record gets the company that is given, or else its creator's. -/
theorem company_stamped {i : Input} {values generated : Values} (h : applyGenerated S user i values = .ok generated)
    {cf : MetaField} (hcf : companyField S = some cf) {company : ℕ} (hcompany : creatorCompany S user = some company) :
    ∃ v, (applyCompanyDefault S user generated).lookup cf.physName = some v ∧
      ((given S user i (values.lookup cf.physName) cf = some v ∧ v.blank = false) ∨
        (v = .int company ∧ ∀ w, given S user i (values.lookup cf.physName) cf = some w → w.blank = true)) := by
  obtain ⟨hmem,htype⟩ := companyField_mem hcf
  obtain ⟨vs,vs',hgen,hvs,hvs'⟩ := generateAll_field S.table.namesNodup h hmem
  obtain ⟨hfull,hempty⟩ := generate_company hgen htype
  rw [hvs] at hfull hempty
  have hsame : filled generated cf.physName = filled vs' cf.physName := by rw [filled,filled,hvs']
  simp only [applyCompanyDefault,hcf]
  cases hfilled : filled vs' cf.physName with
  | true =>
    rw [if_pos (hsame.trans hfilled),hvs']
    obtain ⟨v,hv,hnonblank⟩ := (Option.any_eq_true _ _).mp hfilled
    exact ⟨v,hv,Or.inl ⟨(hfull hfilled).trans hv,by simpa using hnonblank⟩⟩
  | false =>
    rw [if_neg (by simp [hsame,hfilled]),hcompany]
    refine ⟨.int company,?_,Or.inr ⟨rfl,hempty hfilled⟩⟩
    rw [Values.lookup_update,Option.toList_some,List.map_singleton,Values.lookup_singleton,if_pos rfl,Option.some_or]

/-- The generated values and the stamp leave the program's columns alone. -/
theorem stamped_managed {i : Input} {values generated : Values} (h : applyGenerated S user i values = .ok generated)
    {name : String} (hname : name ∈ managed) :
    (applyCompanyDefault S user generated).lookup name = values.lookup name := by
  have hfree : ∀ f ∈ S.table.fields, f.physName ≠ name := fun f hf hsame => S.table.namesFree f hf (hsame ▸ hname)
  rw [← generateAll_other h hfree]
  simp only [applyCompanyDefault]
  split
  · rfl
  · rename_i cf hcf
    split
    · rfl
    · have hne : name ≠ cf.physName := (hfree cf (companyField_mem hcf).1).symm
      cases creatorCompany S user with
      | none => rfl
      | some company =>
        rw [Option.toList_some,List.map_singleton,Values.lookup_update,Values.lookup_singleton,if_neg hne,Option.none_or]

theorem computeSelf_managed {context : Row} {name : String} (hname : name ∈ managed) :
    (computeSelf S.evaluate S.table context).lookup name = none := by
  simp only [computeSelf]
  cases hvalues : computeValues S.evaluate (formulaFields S.table) context with
  | none => rfl
  | some vs =>
    refine computeValues_lookup hvalues fun f hf hsame => ?_
    exact S.table.namesFree f (List.mem_filter.mp hf).1 (hsame ▸ hname)

theorem createValues_field {i : Input} {values : Values} {cf : MetaField} (hcf : companyField S = some cf) :
    (createValues S user i values).lookup cf.physName = values.lookup cf.physName := by
  obtain ⟨hmem,htype⟩ := companyField_mem hcf
  have hcomputed : (if hasFormulas S.table then
      values.update (computeSelf S.evaluate S.table (Row.write (fun _ => .null) values)) else values).lookup cf.physName =
        values.lookup cf.physName := by
    split
    · rw [Values.lookup_update,computeSelf_lookup hmem (by rw [htype]; decide),Option.none_or]
    · rfl
  have hfree := S.table.namesFree cf hmem
  simp only [managed,List.mem_cons,not_or] at hfree
  have h₁ : (cf.physName == "created_by") = false := by simpa using hfree.1
  have h₂ : (cf.physName == "created_at") = false := by simpa using hfree.2.1
  have h₃ : (cf.physName == "updated_by") = false := by simpa using hfree.2.2.1
  have h₄ : (cf.physName == "updated_at") = false := by simpa using hfree.2.2.2.1
  simp only [createValues]
  split
  · rw [Values.lookup_update,hcomputed]
    simp [List.lookup_cons,h₁,h₂,h₃,h₄]
  · exact hcomputed

theorem createValues_deleted {i : Input} {values : Values} :
    (createValues S user i values).lookup "deleted_at" = values.lookup "deleted_at" := by
  have hcomputed : (if hasFormulas S.table then
      values.update (computeSelf S.evaluate S.table (Row.write (fun _ => .null) values)) else values).lookup "deleted_at" =
        values.lookup "deleted_at" := by
    split
    · rw [Values.lookup_update,computeSelf_managed (by decide),Option.none_or]
    · rfl
  simp only [createValues]
  split
  · rw [Values.lookup_update,hcomputed]
    simp [List.lookup_cons]
  · exact hcomputed

theorem createValues_owner {i : Input} {values : Values} (howned : S.table.rowOwned = true) :
    (createValues S user i values).lookup "created_by" = some (userValue (some user.id)) := by
  have haudit : hasAuditCols S.table = true := by simp [hasAuditCols,howned]
  simp only [createValues,haudit,if_true]
  rw [Values.lookup_update,List.lookup_cons_self,Option.some_or]

/-! ### What a write stores -/

/-- An inserted record is found under its key, with the values of the columns that the table has. -/
theorem insertRow_ok {data data' : Physical} {values : Values} {newKey pk : Value} (hdata : Sound S data)
    (h : insertRow data values newKey = .ok (data',pk)) : (∃ rows, data' = { data with rows := rows }) ∧
      ∃ row, data'.getRow pk = some row ∧ ∀ column, column ≠ data.pk →
        row column = if column ∈ data.columns then (values.lookup column).getD .null else .null := by
  simp only [insertRow] at h
  split at h
  · rename_i hadmits
    obtain ⟨rfl,rfl⟩ := Prod.mk.inj (Except.ok.inj h)
    refine ⟨⟨_,rfl⟩,newRow data (values.filter fun p => data.columns.contains p.1)
      (((values.filter fun p => data.columns.contains p.1).lookup data.pk).getD newKey),?_,?_⟩
    · have hfind := Keyed.find_of_mem (hdata.unique _ hadmits) (List.mem_append_right data.rows (List.mem_singleton_self _))
      have hkey : ∀ clean pk, data.keyOf (newRow data clean pk) = data.key pk := by
        intro clean pk
        simp [Physical.keyOf,newRow,Row.write]
      rw [hkey] at hfind
      exact hfind
    · intro column hcolumn
      have hne : (column == data.pk) = false := by simpa using hcolumn
      have hclean := Values.lookup_filter (fun name => data.columns.contains name) values column
      rw [newRow,Row.write_of_not_mem (by simp [List.lookup_cons,hne]),Row.write,hclean]
      by_cases hmem : column ∈ data.columns <;> simp [hmem]
  · cases h

/-- Who sees a row whose marks are known. -/
theorem shown_iff {data : Physical} {pk : Value} {row : Row} (hrow : data.getRow pk = some row) {sc : String × Finset ℕ}
    (hsc : scope S user = some sc) (hdeleted : row "deleted_at" = .null ∨ S.table.softDelete = false) :
    shown S user data pk = some row ↔
      (S.table.rowOwned = true → row "created_by" = userValue (some user.id)) ∧ inCompanies sc.2 (row sc.1) = true := by
  have hdesigner : (ctx user).isDesigner = false := by
    cases hd : (ctx user).isDesigner with
    | false => rfl
    | true => simp [scope,companyScope,hd] at hsc
  have hscope : companyScope S.session.accounts S.session.companies S.table (ctx user) = some sc := hsc
  simp only [shown,getRecord,hrow,rowReadable,hscope,hdesigner]
  have htrash : (S.table.softDelete && !false && decide (row "deleted_at" ≠ .null)) = false := by
    rcases hdeleted with hnull | hoff
    · simp [hnull]
    · simp [hoff]
  simp only [htrash]
  cases howned : S.table.rowOwned with
  | false => simp
  | true => by_cases howner : row "created_by" = userValue (some user.id) <;> simp [ctx,howner]

/-! ### Creates -/

theorem createRow_ok {data : Physical} {i : Input} {r : Physical × Value} (h : createRow S user data i = .ok r) :
    ∃ values generated, deserialize S user i.body false = .ok values ∧ applyGenerated S user i values = .ok generated ∧
      insertRow data (createValues S user i (applyCompanyDefault S user generated)) i.newKey = .ok r := by
  simp only [createRow] at h
  split at h
  · cases h
  · split at h
    · cases h
    · rename_i values hvalues
      simp only [create] at h
      split at h
      · cases h
      · rename_i generated hgenerated
        refine ⟨values,generated,hvalues,hgenerated,?_⟩
        cases hinsert : insertRow data (createValues S user i (applyCompanyDefault S user generated)) i.newKey with
        | error e =>
          rw [hinsert] at h
          cases h
        | ok r' =>
          rw [hinsert] at h
          exact congrArg Except.ok (Except.ok.inj h)

/-- The row that a create stores. -/
theorem created_row {data data' : Physical} {i : Input} {pk : Value} (hdata : Sound S data)
    (h : createRow S user data i = .ok (data',pk)) {cf : MetaField} (hcf : companyField S = some cf) {company : ℕ}
    (hcompany : creatorCompany S user = some company) : ∃ values row v,
      deserialize S user i.body false = .ok values ∧ data'.getRow pk = some row ∧ row "deleted_at" = .null ∧
      (S.table.rowOwned = true → row "created_by" = if "created_by" ∈ data.columns then userValue (some user.id) else .null) ∧
      row cf.physName = (if cf.physName ∈ data.columns then v else .null) ∧
      ((given S user i (values.lookup cf.physName) cf = some v ∧ v.blank = false) ∨
        (v = .int company ∧ ∀ w, given S user i (values.lookup cf.physName) cf = some w → w.blank = true)) := by
  obtain ⟨values,generated,hvalues,hgenerated,hinsert⟩ := createRow_ok h
  obtain ⟨-,row,hrow,hcolumns⟩ := insertRow_ok hdata hinsert
  obtain ⟨v,hv,horigin⟩ := company_stamped hgenerated hcf hcompany
  obtain ⟨hmem,htype⟩ := companyField_mem hcf
  refine ⟨values,row,v,hvalues,hrow,?_,?_,?_,horigin⟩
  · rw [hcolumns _ fun hpk => hdata.keyFree (hpk ▸ by decide),createValues_deleted,
      stamped_managed hgenerated (by decide),deserialize_managed hvalues (by decide)]
    exact ite_self _
  · intro howned
    rw [hcolumns _ fun hpk => hdata.keyFree (hpk ▸ by decide),createValues_owner howned,Option.getD_some]
  · rw [hcolumns _ (hdata.keyPlain cf hmem htype),createValues_field hcf,hv,Option.getD_some]

theorem create_isolated {data : Physical} {i : Input} (hi : i.request = .create) (hdata : Sound S data) :
    Isolated S user data i ↔ Fits S user data i := by
  have hperform : perform S user data i = createRow S user data i := by rw [perform,hi]
  have hcase : ∀ data' pk, createRow S user data i = .ok (data',pk) → ∀ sc, scope S user = some sc → ∀ cf,
      companyField S = some cf →
      ((∀ row, data'.getRow pk = some row → inCompanies sc.2 (row sc.1) = true ∧ shown S user data' pk = some row) ↔
        Kept S data cf.physName ∧ ∀ values, deserialize S user i.body false = .ok values →
          ∀ v, given S user i (values.lookup cf.physName) cf = some v → v.blank = true ∨ inCompanies sc.2 v = true) := by
    intro data' pk hok sc hsc cf hcf
    obtain ⟨cf',hcf',hname,company,hcompany,hin⟩ := scope_some hsc
    obtain rfl : cf = cf' := Option.some.inj (hcf.symm.trans hcf')
    obtain ⟨values,row,v,hvalues,hrow,hdeleted,howner,hcolumn,horigin⟩ := created_row hdata hok hcf hcompany
    have hlanding : inCompanies sc.2 v = true ↔ ∀ w, given S user i (values.lookup cf.physName) cf = some w →
        w.blank = true ∨ inCompanies sc.2 w = true := by
      rcases horigin with ⟨hgiven,hnonblank⟩ | ⟨rfl,hblank⟩
      · rw [hgiven]
        simp [hnonblank]
      · have hown : inCompanies sc.2 (.int company) = true := by simp [inCompanies,hin]
        exact ⟨fun _ w hw => Or.inl (hblank w hw),fun _ => hown⟩
    have hvisible := shown_iff hrow hsc (Or.inl hdeleted)
    constructor
    · intro h
      obtain ⟨hinside,hshown⟩ := h row hrow
      rw [← hname,hcolumn] at hinside
      by_cases hmem : cf.physName ∈ data.columns
      · rw [if_pos hmem] at hinside
        refine ⟨⟨hmem,fun howned => ?_⟩,fun values' hvalues' => ?_⟩
        · have hcreator := (hvisible.mp hshown).1 howned
          rw [howner howned] at hcreator
          by_contra hmissing
          rw [if_neg hmissing] at hcreator
          cases hcreator
        · obtain rfl := Except.ok.inj (hvalues.symm.trans hvalues')
          exact hlanding.mp hinside
      · rw [if_neg hmem] at hinside
        cases hinside
    · rintro ⟨⟨hmem,hstamp⟩,hgiven⟩ row' hrow'
      obtain rfl := Option.some.inj (hrow.symm.trans hrow')
      have hinside : inCompanies sc.2 (row sc.1) = true := by
        rw [← hname,hcolumn,if_pos hmem]
        exact hlanding.mpr (hgiven values hvalues)
      exact ⟨hinside,hvisible.mpr ⟨fun howned => by rw [howner howned,if_pos (hstamp howned)],hinside⟩⟩
  simp only [Isolated,Fits,hi,hperform]
  constructor
  · rintro h ⟨⟨data',pk⟩,hok⟩ sc hsc cf hcf
    exact (hcase data' pk hok sc hsc cf hcf).mp (h data' pk hok sc hsc)
  · intro h data' pk hok sc hsc
    obtain ⟨cf,hcf,-⟩ := scope_some hsc
    exact (hcase data' pk hok sc hsc cf hcf).mpr (h ⟨_,hok⟩ sc hsc cf hcf)

/-! ### Updates -/

/-- A column that no workflow is attached to is written as submitted. -/
theorem planDiversions_keeps {steps : List ApprovalStep} {mt : MetaTable} {old : Row} {wfs : List Workflow} {values : Values}
    {name : String} (hname : ∀ wf ∈ wfs, ∀ field, mt.field wf.fieldId = some field → field.physName ≠ name) :
    (Approvals.planDiversions steps mt old wfs values).2.lookup name = values.lookup name := by
  induction wfs generalizing values with
  | nil => rfl
  | cons wf wfs ih =>
    have hrest : ∀ vs : Values, (Approvals.planDiversions steps mt old wfs vs).2.lookup name = vs.lookup name :=
      fun _ => ih fun w hw => hname w (List.mem_cons_of_mem wf hw)
    simp only [Approvals.planDiversions]
    split
    · exact hrest values
    · rename_i field hfield
      split
      · exact hrest values
      · split
        · exact hrest values
        · split
          · have hne : (name != field.physName) = true := by
              simpa using (hname wf List.mem_cons_self field hfield).symm
            have hdel := Values.lookup_filter (fun key => key != field.physName) values name
            rw [if_pos hne] at hdel
            exact (hrest _).trans hdel
          · exact hrest values

theorem updateValues_managed {old : Row} {values : Values} {now : ℤ} {name : String} (hname : name ∈ managed)
    (hcreated : name ≠ "updated_by" ∧ name ≠ "updated_at") :
    (updateValues S.evaluate S.table old values (some user.id) now).lookup name = values.lookup name := by
  have hcomputed : (if hasFormulas S.table then values.update (computeSelf S.evaluate S.table (old.write values))
      else values).lookup name = values.lookup name := by
    split
    · rw [Values.lookup_update,computeSelf_managed hname,Option.none_or]
    · rfl
  have h₁ : (name == "updated_by") = false := by simpa using hcreated.1
  have h₂ : (name == "updated_at") = false := by simpa using hcreated.2
  simp only [updateValues]
  split
  · rw [Values.lookup_update,hcomputed]
    simp [auditStamp,List.lookup_cons,h₁,h₂]
  · exact hcomputed

theorem shown_readable {data : Physical} {pk : Value} {row : Row} (h : shown S user data pk = some row) :
    data.getRow pk = some row ∧ rowReadable S.table (ctx user) false (scope S user) row = true := by
  simp only [shown,getRecord] at h
  split at h
  · cases h
  · rename_i stored hstored
    split at h
    · rename_i hreadable
      obtain rfl := Option.some.inj h
      exact ⟨hstored,hreadable⟩
    · cases h

/-- The row that an update leaves: every column that is no formula and no stamp as submitted, or as it was. -/
theorem updated_row {data data' : Physical} {i : Input} {pk pk' : Value} (h : updateRow S user data pk i = .ok (data',pk')) :
    pk' = pk ∧ (∃ rows, data' = { data with rows := rows }) ∧ ∃ values old row, deserialize S user i.body true = .ok values ∧
      shown S user data pk = some old ∧ data'.getRow pk = some row ∧ row "deleted_at" = old "deleted_at" ∧
      row "created_by" = old "created_by" ∧ ∀ cf, companyField S = some cf → cf.physName ≠ data.pk → row cf.physName =
        if cf.physName ∈ data.columns then (values.lookup cf.physName).getD (old cf.physName) else old cf.physName := by
  simp only [updateRow] at h
  split at h
  · cases h
  · split at h
    · cases h
    · rename_i old hold
      split at h
      · cases h
      · rename_i values hvalues
        have hstored := (shown_readable hold).1
        have hmanaged : ∀ name ∈ managed,
            (Approvals.planDiversions S.steps S.table old S.workflows values).2.lookup name = none := by
          intro name hname
          rw [planDiversions_keeps fun wf hwf field hfield hsame =>
            S.table.namesFree field (Keyed.mem_of_find hfield) (hsame ▸ hname)]
          exact deserialize_managed hvalues hname
        have hcompany : ∀ cf, companyField S = some cf →
            (Approvals.planDiversions S.steps S.table old S.workflows values).2.lookup cf.physName =
              values.lookup cf.physName := by
          intro cf hcf
          obtain ⟨hmem,htype⟩ := companyField_mem hcf
          refine planDiversions_keeps fun wf hwf field hfield hsame => ?_
          have henum := S.onEnum wf hwf field hfield
          rw [S.table.field_unique (Keyed.mem_of_find hfield) hmem hsame,htype] at henum
          cases henum
        split at h
        · cases h
        · split at h
          · rename_i hempty
            obtain ⟨rfl,rfl⟩ := Prod.mk.inj (Except.ok.inj h)
            refine ⟨rfl,⟨_,rfl⟩,values,old,old,hvalues,hold,hstored,rfl,rfl,fun cf hcf _ => ?_⟩
            rw [← hcompany cf hcf,hempty]
            exact (ite_self _).symm
          · split at h
            · cases h
            · rename_i data'' hupdate
              obtain ⟨rfl,rfl⟩ := Prod.mk.inj (Except.ok.inj h)
              have hrows : data'' = { data with rows := data''.rows } := by
                rw [RecordService.update] at hupdate
                rw [Physical.updateRow_ok hupdate]
              refine ⟨rfl,⟨_,hrows⟩,values,old,old.write (data.clean (updateValues S.evaluate S.table (oldRow data pk)
                (Approvals.planDiversions S.steps S.table old S.workflows values).2 (some user.id) i.now)),
                hvalues,hold,?_,?_,?_,fun cf hcf hkey => ?_⟩
              · have hkey : data''.key = data.key := by rw [hrows]
                rw [Physical.getRow,hkey,Physical.rowAt_updateRow hupdate,if_pos rfl]
                exact congrArg (Option.map _) hstored
              · refine Row.write_of_not_mem ?_
                rw [Physical.lookup_clean,updateValues_managed (by decide) (by decide),hmanaged _ (by decide)]
                exact ite_self _
              · refine Row.write_of_not_mem ?_
                rw [Physical.lookup_clean,updateValues_managed (by decide) (by decide),hmanaged _ (by decide)]
                exact ite_self _
              · obtain ⟨hmem,htype⟩ := companyField_mem hcf
                rw [Row.write,Physical.lookup_clean,updateValues_lookup hmem (by rw [htype]; decide),hcompany cf hcf]
                by_cases hcolumn : cf.physName ∈ data.columns <;> simp [hcolumn,hkey]

theorem update_isolated {data : Physical} {i : Input} {pk : Value} (hi : i.request = .update pk) (hdata : Sound S data) :
    Isolated S user data i ↔ Fits S user data i := by
  have hperform : perform S user data i = updateRow S user data pk i := by rw [perform,hi]
  have hcase : ∀ data' pk', updateRow S user data pk i = .ok (data',pk') → ∀ sc, scope S user = some sc → ∀ cf,
      companyField S = some cf →
      ((∀ row, data'.getRow pk' = some row → inCompanies sc.2 (row sc.1) = true ∧ shown S user data' pk' = some row) ↔
        (cf.physName ∈ data.columns → ∀ values, deserialize S user i.body true = .ok values →
          ∀ v, values.lookup cf.physName = some v → inCompanies sc.2 v = true)) := by
    intro data' pk' hok sc hsc cf hcf
    obtain ⟨cf',hcf',hname,-⟩ := scope_some hsc
    obtain rfl : cf = cf' := Option.some.inj (hcf.symm.trans hcf')
    obtain ⟨hmem,htype⟩ := companyField_mem hcf
    obtain ⟨rfl,-,values,old,row,hvalues,hold,hrow,hdeleted,howner,hcolumn⟩ := updated_row hok
    have hrowcf := hcolumn cf hcf (hdata.keyPlain cf hmem htype)
    obtain ⟨hstored,hreadable⟩ := shown_readable hold
    have hlive : old "deleted_at" = .null ∨ S.table.softDelete = false := by
      simp only [rowReadable] at hreadable
      by_cases hnull : old "deleted_at" = .null
      · exact Or.inl hnull
      · right
        cases hsoft : S.table.softDelete with
        | false => rfl
        | true => simp [hsoft,hnull] at hreadable
    obtain ⟨hcreator,hinold⟩ := (shown_iff hstored hsc hlive).mp hold
    have hvisible := shown_iff hrow hsc (hlive.imp_left hdeleted.trans)
    rw [howner] at hvisible
    constructor
    · intro h hmember values' hvalues' v hv
      obtain rfl := Except.ok.inj (hvalues.symm.trans hvalues')
      have hinside := (h row hrow).1
      rwa [← hname,hrowcf,if_pos hmember,hv] at hinside
    · intro h row' hrow'
      obtain rfl := Option.some.inj (hrow.symm.trans hrow')
      have hinside : inCompanies sc.2 (row sc.1) = true := by
        rw [← hname,hrowcf]
        split
        · rename_i hmember
          cases hv : values.lookup cf.physName with
          | none => rwa [Option.getD_none,hname]
          | some v => exact h hmember values hvalues v hv
        · rwa [hname]
      exact ⟨hinside,hvisible.mpr ⟨hcreator,hinside⟩⟩
  simp only [Isolated,Fits,hi,hperform]
  constructor
  · rintro h ⟨⟨data',pk'⟩,hok⟩ sc hsc cf hcf
    exact (hcase data' pk' hok sc hsc cf hcf).mp (h data' pk' hok sc hsc)
  · intro h data' pk' hok sc hsc
    obtain ⟨cf,hcf,-⟩ := scope_some hsc
    exact (hcase data' pk' hok sc hsc cf hcf).mpr (h ⟨_,hok⟩ sc hsc cf hcf)

/-! ### Runs -/

theorem isolated_fits {data : Physical} (hdata : Sound S data) (i : Input) : Isolated S user data i ↔ Fits S user data i := by
  cases hi : i.request with
  | create => exact create_isolated hi hdata
  | update pk => exact update_isolated hi hdata

theorem step_sound {data : Physical} (hdata : Sound S data) (i : Input) : Sound S (step S user data i) := by
  have hrows : ∀ r, perform S user data i = .ok r → ∃ rows, r.1 = { data with rows := rows } := by
    intro r hr
    rw [perform] at hr
    split at hr
    · obtain ⟨values,generated,-,-,hinsert⟩ := createRow_ok hr
      exact (insertRow_ok hdata hinsert).1
    · exact (updated_row hr).2.1
  rw [step]
  split
  · rename_i data' pk hok
    obtain ⟨rows,hdata'⟩ := hrows _ hok
    obtain rfl : data' = { data with rows := rows } := hdata'
    exact ⟨hdata.unique,hdata.keyFree,hdata.keyPlain⟩
  · exact hdata

/-- The records that a run of creates and updates writes stay within the user's companies, and in sight, exactly when no
request of it that is carried out names another company. -/
theorem writes_isolated_iff (S : Site) (user : User) (store : Store S) (inputs : List Input) :
    Run.Meets (step S user) (Isolated S user) store.data inputs ↔ Run.Meets (step S user) (Fits S user) store.data inputs :=
  Run.meets_congr (Sound S) (fun _ i hdata => step_sound hdata i) (fun _ i hdata => isolated_fits hdata i) store.sound inputs

end Proofs

/-! ### Another company's order -/

def customer : MetaField where
  id := 1
  physName := "customer"
  label := "Customer"
  dataType := .company

def orders : MetaTable where
  id := 1
  physName := "orders"
  label := "Orders"
  fields := [customer]
  idsNodup := by decide
  namesNodup := by decide
  namesFree := by decide

def digitLib : PullLib where
  strOther := fun _ => ""
  float := fun _ => none
  int := fun s => if s = "2" then some 2 else none
  isAlnum := Char.isAlphanum
  loads := fun _ => .error (.valueError "Expecting value")
  isDigit := fun s => s == "2"
  lowercase := lower
  decimal := fun _ => none
  isoDate := fun _ => none
  isoTime := fun _ => none
  isoDatetime := fun _ => none
  strptime := fun _ _ => none
  search := fun _ _ => .ok false
  dumps := fun _ => ""
  repr := fun _ => ""
  complaint := fun _ _ => ""
  reprJson := fun _ => ""
  timestamp := fun _ => .ok none

/-- The user 7 belongs to the company 1. -/
def clerk : User := { id := 7, role := "user", companyId := some 1 }

/-- Two companies, neither below the other. -/
def ordersSite : Site where
  table := orders
  session := ⟨[⟨1,1,.data,false⟩],[],[],[clerk.toAccount],[⟨1,none⟩,⟨2,none⟩]⟩
  workflows := []
  steps := []
  evaluate := fun _ _ => none
  lib := digitLib
  username := fun _ => none
  relation := fun _ => ⟨"",[],[],[]⟩
  describe := fun _ => ""
  onEnum := by simp

def noOrders : Store ordersSite where
  data := ⟨["id","customer"],"id",[],id,fun rows => decide ((rows.map fun row => row "id").Nodup)⟩
  sound := ⟨fun _ hrows => of_decide_eq_true hrows,by decide,by decide⟩

/-- The user 7 creates an order of the company 2. -/
def foreignOrder : Input := ⟨.create,.obj [("customer",.int 2)],0,0,fun _ => 1,.int 1⟩

theorem foreign_company_written : ¬∀ (S : Site) (user : User) (store : Store S) (inputs : List Input),
    Run.Meets (step S user) (Isolated S user) store.data inputs := by
  intro h
  have hisolated := (h ordersSite clerk noOrders [foreignOrder]).1
  have hwritten : perform ordersSite clerk noOrders.data foreignOrder =
      .ok ({ noOrders.data with rows := [newRow noOrders.data [("customer",.int 2)] (.int 1)] },.int 1) := rfl
  have hscope : scope ordersSite clerk = some ("customer",{1}) := by decide
  have hinside := (hisolated _ _ hwritten _ hscope _ rfl).1
  revert hinside
  decide

end ApiWrites
end Biggy
