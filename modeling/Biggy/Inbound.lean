import Biggy.ApiWrites
import Biggy.DatabaseFrame
import Biggy.Importer

/-!
# Records from outside

A webhook maps the payload that it receives onto a record, a pull source each record that it fetches. Both look for the record
that the upsert key names, and write it through `record_service`.
-/
namespace Biggy
namespace Inbound

open Commits Commits.Prog Database Importer Pull
open ApiWrites (filled defaultTokens fourDigits)

inductive Mode
  | create | upsert
  deriving DecidableEq

/-- A pull source may transform what it fetches. -/
inductive Kind
  | webhook
  | pull (transforms : List (String × Transform))

/-- The columns of a webhook or a pull source that say what becomes of a record. -/
structure Source where
  kind : Kind
  fieldMap : List Feeds.Mapping
  mode : Mode
  matchField : Option String
  userId : Option ℕ

/-- The databases, and what the receivers call besides. -/
structure Hub where
  site : Site
  engine : Engine
  lib : PullLib
  username : ℕ → Option String
  company : ℕ → Option ℕ

/-- What a write takes from outside: the clock, the next numbers of the autonumber fields and the key that the database
generates. -/
structure Moment where
  now : ℤ
  today : ℤ
  next : ℕ → ℕ
  newKey : Value

/-- Where a delivery fails. -/
inductive Trouble
  | mapping (e : PyError)
  | empty
  | lookup (message : String)
  | write (e : Stop)

inductive Reply
  | saved (status : ℕ) (id : Value) (action : Action)
  | error (status : ℕ) (message : String)
  | raised (e : PyError)

/-! ### From a payload to values -/

/-- The loop of `receive` over the field map. -/
def mapPayload (lib : PullLib) (payload : Json) (fields : List MetaField) : List Feeds.Mapping → Except PyError Values
  | [] => .ok []
  | m::ms =>
    match m.target.bind fun target => Keyed.find MetaField.physName target fields with
    | none => mapPayload lib payload fields ms
    | some field =>
      match asRaw lib (dig payload (m.source.getD "")) with
      | none => mapPayload lib payload fields ms
      | some raw =>
        match coerceValue lib.toCoerceLib field none (some raw) with
        | .error e => .error e
        | .ok v => (mapPayload lib payload fields ms).map fun values => Values.update [(field.physName,v)] values

section Delivery

variable (H : Hub) (t : MetaTable)

/-- The values that a source makes of a payload. -/
def mapped (s : Source) (payload : Json) : Except PyError Values :=
  match s.kind with
  | .webhook => mapPayload H.lib payload t.fields s.fieldMap
  | .pull transforms => mapRecord H.lib payload t.fields transforms s.fieldMap

/-! ### What a new record gets -/

/-- `(field.default_value or "").strip().lower()`. -/
def token (f : MetaField) : String := H.lib.lowercase (strip (f.defaultValue.getD ""))

/-- `_eval_default_token`. -/
def evalDefaultToken (userId : Option ℕ) (i : Moment) (f : MetaField) : Option Value :=
  if token H f = "now" then some (.datetime i.now)
  else if token H f = "today" then some (.date i.today)
  else if f.dataType = .user then userId.map fun id => .int id
  else ((userId.filter (· ≠ 0)).bind H.username).map .text

/-- The body of the loop of `_apply_generated`. -/
def generate (userId : Option ℕ) (i : Moment) (values : Values) (f : MetaField) : Except PyError Values :=
  if filled values f.physName then .ok values
  else if f.dataType = .autonumber then
    .ok (values.update [(f.physName,.text (f.defaultValue.getD "" ++ fourDigits (i.next f.id)))])
  else if token H f ∈ defaultTokens then
    .ok (values.update ((evalDefaultToken H userId i f).toList.map fun v => (f.physName,v)))
  else if values.lookup f.physName = none ∧ f.defaultValue.getD "" ≠ "" ∧ f.dataType ∉ [DataType.file,.image,.formula] then
    (coerceValue H.lib.toCoerceLib f none f.defaultValue).map fun v => values.update [(f.physName,v)]
  else .ok values

/-- `_apply_generated`. -/
def applyGenerated (userId : Option ℕ) (i : Moment) (values : Values) : Except PyError Values :=
  t.fields.foldlM (generate H userId i) values

/-- The first company field. -/
def companyField : Option MetaField := t.fields.find? fun f => decide (f.dataType = .company)

/-- The company of the creator. -/
def creatorCompany (userId : Option ℕ) : Option Value :=
  (((userId.filter (· ≠ 0)).bind H.company).filter (· ≠ 0)).map fun company => .int company

/-- `_apply_company_default`. -/
def applyCompanyDefault (userId : Option ℕ) (values : Values) : Values :=
  match companyField t with
  | none => values
  | some cf =>
    if filled values cf.physName then values
    else values.update ((creatorCompany H userId).toList.map fun company => (cf.physName,company))

/-- The values of a new record. -/
def generated (userId : Option ℕ) (i : Moment) (values : Values) : Except PyError Values :=
  (applyGenerated H t userId i values).map (applyCompanyDefault H t userId)

/-! ### Finding the record and writing it -/

/-- The table as `data_service` reflects it. -/
def view (db : Tables) : Physical where
  columns := H.site.columns t.physName
  pk := t.pkCol
  rows := db t.physName
  key := H.site.key t
  admits := fun rows => H.site.admits (Function.update db t.physName rows)

/-- The record that the upsert key names. -/
def existing (s : Source) (values : Values) (db : Tables) : Except String (Option Value) :=
  if s.mode = .upsert ∧ s.matchField.getD "" ≠ "" then
    findIdByKey H.lib.toCoerceLib H.engine (view H t db) (s.matchField.getD "") values
  else .ok none

def store (userId : Option ℕ) (i : Moment) (values : Values) : Option Value → Site.Service (Action × Value)
  | some pk => do
    H.site.update t pk values userId i.now
    pure (.update,pk)
  | none =>
    match generated H t userId i values with
    | .error e => raise (.python e)
    | .ok vs => do
      let pk ← H.site.create t vs i.newKey userId i.now
      pure (.create,pk)

/-- `receive` of a payload, and the body of the loop of `run_one` for a fetched record: the tables behind it, and the record that
it has written. -/
def deliver (s : Source) (payload : Json) (i : Moment) (db : Tables) : Tables × Except Trouble (Action × Value) :=
  match mapped H t s payload with
  | .error e => (db,.error (.mapping e))
  | .ok [] => (db,.error .empty)
  | .ok values =>
    match existing H t s values db with
    | .error message => (db,.error (.lookup message))
    | .ok found =>
      let ending := store H t s.userId i values found db
      (ending.state,ending.result.mapError .write)

/-- The answer of `receive`. -/
def answer (describe : Stop → String) : Except Trouble (Action × Value) → Reply
  | .ok (action,pk) => .saved (if action = .update then 200 else 201) pk action
  | .error (.mapping (.valueError message)) => .error 400 message
  | .error (.mapping e) => .raised e
  | .error .empty => .error 400 "Payload mapped no fields."
  | .error (.lookup message) => .error 400 message
  | .error (.write e) => .error 409 ("Could not save: " ++ describe e)

variable {H} {t} {s : Source} {payload : Json} {values : Values} {i : Moment} {db : Tables}

theorem deliver_eq (hmapped : mapped H t s payload = .ok values) (hne : values ≠ []) {found : Option Value}
    (hfound : existing H t s values db = .ok found) : deliver H t s payload i db =
      ((store H t s.userId i values found db).state,(store H t s.userId i values found db).result.mapError .write) := by
  cases values with
  | nil => exact absurd rfl hne
  | cons p values => simp only [deliver,hmapped,hfound]

/-- A delivery fails before it writes, or it writes what it has mapped. -/
theorem deliver_cases (H : Hub) (t : MetaTable) (s : Source) (payload : Json) (i : Moment) (db : Tables) :
    (∃ trouble, deliver H t s payload i db = (db,.error trouble)) ∨
      ∃ values found, mapped H t s payload = .ok values ∧ existing H t s values db = .ok found ∧ deliver H t s payload i db =
        ((store H t s.userId i values found db).state,(store H t s.userId i values found db).result.mapError .write) := by
  cases hmapped : mapped H t s payload with
  | error e => exact Or.inl ⟨.mapping e,by simp only [deliver,hmapped]⟩
  | ok values =>
    cases values with
    | nil => exact Or.inl ⟨.empty,by simp only [deliver,hmapped]⟩
    | cons p values =>
      cases hfound : existing H t s (p::values) db with
      | error message => exact Or.inl ⟨.lookup message,by simp only [deliver,hmapped,hfound]⟩
      | ok found => exact Or.inr ⟨p::values,found,rfl,hfound,deliver_eq hmapped (List.cons_ne_nil _ _) hfound⟩

/-- A payload that is answered with the status 400 leaves the tables as they were. -/
theorem deliver_rejected {describe : Stop → String} {message : String}
    (h : answer describe (deliver H t s payload i db).2 = .error 400 message) : (deliver H t s payload i db).1 = db := by
  rcases deliver_cases H t s payload i db with ⟨trouble,hfail⟩ | ⟨values,found,-,-,hwrite⟩
  · rw [hfail]
  · rw [hwrite] at h
    cases hresult : (store H t s.userId i values found db).result with
    | error e =>
      rw [hresult] at h
      exact absurd (Reply.error.inj h).1 (by decide)
    | ok r =>
      rw [hresult] at h
      cases h

end Delivery

end Inbound
end Biggy
