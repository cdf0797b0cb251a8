import Biggy.Coerce
import Biggy.Csv

/-!
# The CSV import

`import_rows` reads every row of the file into values, an error or a match with a stored
record, and only then writes: the new rows in one statement, then the matched rows one by
one up to the first that the database refuses.
-/
namespace Biggy
namespace Importer

/-- What the importer meets of the database beside the rows: how `=` and
`lower(trim(column))` compare, what a column gives back for a written value, and what an
insert puts into columns it does not name. -/
structure Engine where
  eq : Value → Value → Bool
  lowerTrim : Value → Value
  adapt : String → Value → Value
  blankRow : Row
  nextKey : List Row → Value

/-- The accounts, the companies and, for a relation field, the label and the options of its table. -/
structure Directory where
  users : List (ℤ × String)
  companies : List (ℤ × String)
  related : MetaField → Option (String × List (Value × String))

inductive Mode
  | insert | upsert
  deriving DecidableEq

/-- What becomes of one row of the file. -/
inductive Outcome
  | insert (values : Values)
  | update (pk : Value) (values : Values)
  | invalid (message : String)

structure Result where
  total : ℕ
  imported : ℕ := 0
  updated : ℕ := 0
  errors : List (ℕ × String)
  ignoredHeaders : List String

/-- One call: the permitted columns are `none` for a designer. -/
structure Call where
  fileText : String
  skipInvalid : Bool
  mode : Mode := .insert
  keyField : Option String := none
  allowed : Option (List String) := none

/-- `importable_fields`. -/
def importableFields (mt : MetaTable) (allowed : Option (List String)) : List MetaField :=
  mt.fields.filter fun f => f.dataType != .file && f.dataType != .image &&
    match allowed with
    | none => true
    | some names => names.contains f.physName

/-! ### One row of the file -/

section Rows

variable (lib : CoerceLib) (E : Engine) (D : Directory)

/-- A relation field whose table is gone has no resolver to build. -/
def unresolvable (fields : List MetaField) : Bool :=
  fields.any fun f => decide (f.dataType = .relation) && (D.related f).isNone

/-- `resolvers.get(f.phys_name)`. -/
def resolverOf (f : MetaField) : Option Resolver :=
  match f.dataType with
  | .relation => (D.related f).map fun p => relationResolver p.1 p.2
  | .user => some (userResolver D.users)
  | .company => some (companyResolver D.companies)
  | _ => none

/-- The value of the default, where a `ValueError` counts as none. -/
def defaultFor (f : MetaField) : Except PyError Value :=
  match f.defaultValue with
  | none | some "" => .ok .null
  | some text =>
    match coerceValue lib f (resolverOf D f) (some text) with
    | .error (.valueError _) => .ok .null
    | r => r

/-- The value of one field of a row, or the message of the row error. -/
def fieldValue (f : MetaField) (cell : Option String) : Except PyError (Except String Value) :=
  match coerceValue lib f (resolverOf D f) cell with
  | .error (.valueError message) => .ok (.error message)
  | .error e => .error e
  | .ok v =>
    if v = .null ∧ f.nullable = false then
      match defaultFor lib D f with
      | .error e => .error e
      | .ok v => .ok (if v = .null then .error (f.physName ++ ": required") else .ok v)
    else .ok (.ok v)

/-- The values of a row and its errors. -/
def readRow (cell : String → Option String) : List MetaField → Except PyError (Values × List String)
  | [] => .ok ([],[])
  | f::fs =>
    match fieldValue lib D f (cell f.physName), readRow cell fs with
    | .error e, _ => .error e
    | _, .error e => .error e
    | .ok (.ok v), .ok (values,messages) => .ok ((f.physName,v)::values,messages)
    | .ok (.error message), .ok (values,messages) => .ok (values,message::messages)

/-! ### The stored record of a row -/

/-- `_match_clause`. -/
def matchClause (normalize : Bool) (row : Row) (part : String × Value) : Bool :=
  match normalize, part.2 with
  | true, .text s => E.eq (E.lowerTrim (row part.1)) (.text (lib.lowercase (strip s)))
  | _, v => E.eq (row part.1) v

/-- `find_id_by`, with its value and its columns as an error shows them. -/
def findIdBy (t : Physical) (parts : List (String × Value)) (normalize : Bool) (value columns : String) :
    Except String (Option Value) :=
  match parts.find? fun part => !t.columns.contains part.1 with
  | some part => .error ("unknown column '" ++ part.1 ++ "'")
  | none =>
    match (t.rows.filter fun row => parts.all (matchClause lib E normalize row)).map t.keyOf with
    | [] => .ok none
    | [pk] => .ok (some pk)
    | _ => .error ("'" ++ value ++ "' matches multiple rows on " ++ columns)

/-- `find_id_by_key` with its default normalisation. -/
def findIdByKey (t : Physical) (keySpec : String) (values : Values) : Except String (Option Value) :=
  let keys := ((splitOn ',' keySpec).map strip).filter (· ≠ "")
  let value := fun key => (values.lookup key).getD .null
  if keys = [] ∨ keys.any (fun key => (value key).blank) then .ok none
  else findIdBy lib E t (keys.map fun key => (key,value key)) true (lib.repr (keys.map value))
    (lib.repr (keys.map .text))

/-- `_resolve_key`. -/
def resolveKey (t : Physical) (keyField : String) (cell : String → Option String) (values : Values) :
    Except String (Option Value) :=
  if keyField = "id" then
    let raw := strip ((cell "id").getD "")
    if lib.isDigit (lstripMinus raw) then
      match lib.int raw with
      | none => .error (lib.complaint "int" raw)
      | some n => findIdBy lib E t [("id",.int n)] false (toString n) "id"
    else .ok none
  else findIdByKey lib E t keyField values

def readOutcome (t : Physical) (fields : List MetaField) (keyField : Option String)
    (cell : String → Option String) : Except PyError Outcome :=
  match readRow lib D cell fields, keyField with
  | .error e, _ => .error e
  | .ok (values,[]), none => .ok (.insert values)
  | .ok (values,[]), some key =>
    match resolveKey lib E t key cell values with
    | .error message => .ok (.invalid message)
    | .ok none => .ok (.insert values)
    | .ok (some pk) => .ok (.update pk values)
  | .ok (_,messages), _ => .ok (.invalid ("; ".intercalate messages))

/-- The loop over the rows of the file. -/
def readAll (t : Physical) (fields : List MetaField) (keyField : Option String) (header : List String) :
    List (List String) → Except PyError (List Outcome)
  | [] => .ok []
  | row::rows =>
    match readOutcome lib E D t fields keyField (Csv.cell header row) with
    | .error e => .error e
    | .ok outcome => (readAll t fields keyField header rows).map (outcome :: ·)

/-- `key_field` where the mode makes use of it. -/
def Call.upsertKey (call : Call) : Option String :=
  if call.mode = .upsert then call.keyField.filter (· ≠ "") else none

/-- The header and what becomes of the rows; blank lines are no rows. -/
def plan (mt : MetaTable) (t : Physical) (call : Call) : Except PyError (List String × List Outcome) :=
  let fields := importableFields mt call.allowed
  match Csv.read call.fileText with
  | ([],some fault) => .error (.csvError fault)
  | ([],none) => if unresolvable D fields then .error .attributeError else .ok ([],[])
  | (header::rows,fault) =>
    if unresolvable D fields then .error .attributeError
    else
      match readAll lib E D t fields call.upsertKey header (rows.filter (· ≠ [])), fault with
      | .error e, _ => .error e
      | .ok _, some fault => .error (.csvError fault)
      | .ok outcomes, none => .ok (header,outcomes)

end Rows

/-! ### Writing -/

def inserts (outcomes : List Outcome) : List Values :=
  outcomes.filterMap fun outcome => match outcome with | .insert values => some values | _ => none

def updates (outcomes : List Outcome) : List (Value × Values) :=
  outcomes.filterMap fun outcome => match outcome with | .update pk values => some (pk,values) | _ => none

/-- The errors with their line numbers; the header is line 1. -/
def errors (outcomes : List Outcome) : List (ℕ × String) :=
  (outcomes.zipIdx 2).filterMap fun p => match p.1 with | .invalid message => some (p.2,message) | _ => none

section Writing

variable (E : Engine)

/-- The values as the columns give them back. -/
def adapted (values : Values) : Values := values.map fun p => (p.1,E.adapt p.1 p.2)

def newRow (t : Physical) (rows : List Row) (values : Values) : Row :=
  (E.blankRow.write [(t.pk,E.nextKey rows)]).write (adapted E (values.filter fun p => t.columns.contains p.1))

/-- `insert_many`: one statement for all rows. -/
def insertMany (t : Physical) (new : List Values) : Except String Physical :=
  let rows := new.foldl (fun rows values => rows ++ [newRow E t rows values]) t.rows
  if new = [] then .ok t
  else if t.admits rows then .ok { t with rows := rows }
  else .error "IntegrityError"

/-- `update_row`; a statement that sets no column is refused. -/
def updateOne (t : Physical) (pk : Value) (values : Values) : Except String Physical :=
  if t.clean values = [] then .error "OperationalError" else t.updateRow pk (adapted E values)

/-- The loop over the matched rows, with the number written and what ended it early. -/
def updateMany (t : Physical) : List (Value × Values) → Physical × ℕ × Option String
  | [] => (t,0,none)
  | (pk,values)::rest =>
    match updateOne E t pk values with
    | .error e => (t,0,some e)
    | .ok t' =>
      let later := updateMany t' rest
      (later.1,later.2.1+1,later.2.2)

/-- The writing half of `import_rows`. -/
def load (t : Physical) (skipInvalid : Bool) (outcomes : List Outcome) (ignored : List String) :
    Physical × Result :=
  let result : Result := { total := outcomes.length, errors := errors outcomes, ignoredHeaders := ignored }
  let failed := fun e => result.errors ++ [(0,"Database error during import: " ++ e)]
  if result.errors ≠ [] ∧ skipInvalid = false then (t,result)
  else
    match insertMany E t (inserts outcomes) with
    | .error e => (t,{ result with errors := failed e })
    | .ok t' =>
      let done := updateMany E t' (updates outcomes)
      (done.1,
        { result with
          imported := (inserts outcomes).length
          updated := done.2.1
          errors := match done.2.2 with | none => result.errors | some e => failed e })

end Writing

/-- `import_rows`: an exception other than a `ValueError` leaves it before anything is written. -/
def importRows (lib : CoerceLib) (E : Engine) (D : Directory) (mt : MetaTable) (t : Physical) (call : Call) :
    Except PyError (Physical × Result) :=
  match plan lib E D mt t call with
  | .error e => .error e
  | .ok (header,outcomes) =>
    let known := (importableFields mt call.allowed).map MetaField.physName ++
      (if call.upsertKey = some "id" then ["id"] else [])
    .ok (load E t call.skipInvalid outcomes (header.filter fun h => h ≠ "" ∧ h ∉ known))

end Importer
end Biggy
