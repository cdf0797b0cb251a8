import Biggy.Metadata

/-!
# From a cell to a value

`coerce_value` turns the text of one cell into the value of a field, type by type, with
the field's rules and, for users, companies and relations, a resolver. Only `ValueError`
and `InvalidOperation` become a message; every other exception goes through.
-/
namespace Biggy

/-- The parsers, the regular expressions and the JSON writer of the standard library;
`complaint` is the message of the `ValueError` that a parser raises on a text. -/
structure CoerceLib extends PyLib where
  isDigit : String → Bool
  lowercase : String → String
  decimal : String → Option PyDecimal
  isoDate : String → Option ℤ
  isoTime : String → Option ℤ
  isoDatetime : String → Option ℤ
  strptime : String → String → Option ℤ
  search : String → String → Except PyError Bool
  dumps : Json → String
  repr : List Value → String
  complaint : String → String → String

def DataType.name : DataType → String
  | .string => "string" | .text => "text" | .markdown => "markdown" | .integer => "integer"
  | .bigint => "bigint" | .decimal => "decimal" | .float => "float" | .boolean => "boolean"
  | .date => "date" | .datetime => "datetime" | .time => "time" | .enum => "enum" | .tags => "tags"
  | .user => "user" | .company => "company" | .email => "email" | .url => "url" | .phone => "phone"
  | .currency => "currency" | .percent => "percent" | .json => "json" | .autonumber => "autonumber"
  | .formula => "formula" | .image => "image" | .file => "file" | .relation => "relation"

namespace Importer

variable (lib : CoerceLib)

/-- The result of a parser, or its `ValueError`. -/
def parsed {α : Type} (parser raw : String) : Option α → Except PyError α
  | some x => .ok x
  | none => .error (.valueError (lib.complaint parser raw))

/-- `raw.lstrip("-")`. -/
def lstripMinus (raw : String) : String := String.ofList (raw.toList.dropWhile (· = '-'))

/-! ### Rules -/

/-- `_to_float`. -/
def toFloat (value : Option String) : Option PyFloat :=
  match value with
  | none | some "" => none
  | some s => lib.float (.text s)

/-- `float(value)` of a parsed number. -/
def floatOf (value : Value) : Except PyError PyFloat :=
  match lib.float value, value with
  | some x, _ => .ok x
  | none, .int _ => .error .overflowError
  | none, v => .error (.valueError (lib.complaint "float" (lib.str v)))

/-- The rules of a text. -/
def checkText (field : MetaField) (value : String) : Except PyError Unit :=
  let minlen := field.minLength.getD 0
  let maxlen := field.maxLength.getD 0
  if minlen ≠ 0 ∧ value.length < minlen then
    .error (.valueError ("must be at least " ++ toString minlen ++ " characters"))
  else if maxlen ≠ 0 ∧ maxlen < value.length then
    .error (.valueError ("must be at most " ++ toString maxlen ++ " characters"))
  else
    match field.pattern with
    | none | some "" => .ok ()
    | some pattern =>
      match lib.search pattern value with
      | .error e => .error e
      | .ok true => .ok ()
      | .ok false => .error (.valueError "does not match the required format")

/-- One of the two bounds of a number. -/
def checkBound (outside : PyFloat → PyFloat → Bool) (symbol : String) (bound : Option String) (value : Value) :
    Except PyError Unit :=
  match toFloat lib bound with
  | none => .ok ()
  | some limit =>
    match floatOf lib value with
    | .error e => .error e
    | .ok x => if outside x limit then .error (.valueError ("must be " ++ symbol ++ " " ++ bound.getD "")) else .ok ()

/-- The rules of a number. -/
def checkRange (field : MetaField) (value : Value) : Except PyError Value :=
  match checkBound lib (fun x limit => x.lt limit) ">=" field.minValue value with
  | .error e => .error e
  | .ok _ => (checkBound lib (fun x limit => limit.lt x) "<=" field.maxValue value).map fun _ => value

/-! ### Resolvers -/

/-- `_UserResolver`, `_CompanyResolver` and `_RelationResolver`; `dups` is empty for the first two. -/
structure Resolver where
  label : String
  ids : List Value
  byName : List (String × Value)
  dups : List String := []

/-- A dict comprehension over ids and names, where the last id of a name counts. -/
def accountResolver (label : String) (accounts : List (ℤ × String)) : Resolver where
  label := label
  ids := accounts.map fun p => .int p.1
  byName := (accounts.map fun p => (p.2,.int p.1)).reverse

def userResolver : List (ℤ × String) → Resolver := accountResolver "user"

def companyResolver : List (ℤ × String) → Resolver := accountResolver "company"

/-- The labels that occur again behind their first occurrence. -/
def repeated : List String → List String
  | [] => []
  | l::ls => if l ∈ ls then l::repeated ls else repeated ls

def relationResolver (label : String) (options : List (Value × String)) : Resolver where
  label := label
  ids := options.map Prod.fst
  byName := options.map fun p => (p.2,p.1)
  dups := repeated (options.map Prod.snd)

def Resolver.named (r : Resolver) (raw : String) : Except PyError Value :=
  if raw ∈ r.dups then .error (.valueError ("'" ++ raw ++ "' matches multiple " ++ r.label ++ " records"))
  else
    match r.byName.lookup raw with
    | some id => .ok id
    | none => .error (.valueError ("no " ++ r.label ++ " matching '" ++ raw ++ "'"))

def Resolver.resolve (r : Resolver) (raw : String) : Except PyError Value :=
  if lib.isDigit (lstripMinus raw) then
    match lib.int raw with
    | none => .error (.valueError (lib.complaint "int" raw))
    | some n => if .int n ∈ r.ids then .ok (.int n) else r.named raw
  else r.named raw

/-! ### One parser for each type -/

def coerceInt (raw : String) : Except PyError Value := (parsed lib "int" raw (lib.int raw)).map .int

/-- `resolver.resolve(raw)`, or the number itself without a resolver. -/
def coerceReference (resolver : Option Resolver) (raw : String) : Except PyError Value :=
  match resolver with
  | some r => r.resolve lib raw
  | none => coerceInt lib raw

def coerceDecimal (field : MetaField) (raw : String) : Except PyError Value :=
  match lib.decimal raw with
  | none => .error .invalidOperation
  | some d => checkRange lib field (.decimal d)

def coerceFloat (field : MetaField) (raw : String) : Except PyError Value :=
  match parsed lib "float" raw (lib.float (.text raw)) with
  | .error e => .error e
  | .ok x => checkRange lib field (.float x)

def trueWords : List String := ["1","true","yes","y","t","on"]

def falseWords : List String := ["0","false","no","n","f","off"]

def coerceBool (raw : String) : Except PyError Value :=
  let low := lib.lowercase raw
  if low ∈ trueWords then .ok (.bool true)
  else if low ∈ falseWords then .ok (.bool false)
  else .error (.valueError "expected yes/no")

def dtFormats : List String := ["%Y-%m-%d %H:%M:%S","%Y-%m-%d %H:%M","%Y-%m-%dT%H:%M:%S","%Y-%m-%dT%H:%M"]

/-- `_parse_datetime`. -/
def parseDatetime (raw : String) : Except PyError ℤ :=
  match (lib.isoDatetime raw).or (dtFormats.findSome? fun format => lib.strptime raw format) with
  | some t => .ok t
  | none => .error (.valueError "expected a date/time")

/-- `json.loads(field.enum_options or "[]")`. -/
def loadOptions (field : MetaField) : Except PyError Json :=
  lib.loads ((field.enumOptions.filter (· ≠ "")).getD "[]")

def isText (s : String) : Json → Bool
  | .str t => t == s
  | _ => false

/-- The texts of a list, when it holds nothing else. -/
def textsOf : List Json → Except PyError (List String)
  | [] => .ok []
  | .str s::items => (textsOf items).map (s :: ·)
  | _::_ => .error .typeError

def notOffered (names : List String) : Except PyError Value :=
  .error (.valueError ("expected one of " ++ ", ".intercalate names))

/-- `raw in opts`; what is loaded may also be a dict or a text. -/
def coerceEnum (field : MetaField) (raw : String) : Except PyError Value :=
  match loadOptions lib field with
  | .error e => .error e
  | .ok (.arr items) =>
    if items.any (isText raw) then .ok (.text raw) else (textsOf items).bind notOffered
  | .ok (.obj members) =>
    if raw ∈ members.map Prod.fst then .ok (.text raw) else notOffered (members.map Prod.fst)
  | .ok (.str s) =>
    if isIn raw s then .ok (.text raw) else notOffered (s.toList.map fun c => String.ofList [c])
  | .ok _ => .error .typeError

/-- `set(opts)`, as a test of a text. -/
def optionSet : Json → Except PyError (String → Bool)
  | .arr items =>
    if items.any (fun item => match item with | .arr _ | .obj _ => true | _ => false) then .error .typeError
    else .ok fun s => items.any (isText s)
  | .obj members => .ok fun s => members.any fun p => p.1 == s
  | .str t => .ok fun s => t.toList.any fun c => String.ofList [c] == s
  | _ => .error .typeError

/-- The parts of a tags cell. -/
def tagParts (raw : String) : List String :=
  ((raw.toList.splitOnP fun c => c = '|' ∨ c = ',' ∨ c = ';').map fun part => strip (String.ofList part)).filter (· ≠ "")

def coerceTags (field : MetaField) (raw : String) : Except PyError Value :=
  match loadOptions lib field with
  | .error e => .error e
  | .ok options =>
    match optionSet options with
    | .error e => .error e
    | .ok known =>
      let unknown := (tagParts raw).filter fun part => !known part
      if unknown ≠ [] then .error (.valueError ("unknown tag(s): " ++ ", ".intercalate unknown))
      else .ok (.text (lib.dumps (.arr ((tagParts raw).map .str))))

/-- A text that must match a regular expression. -/
def coerceMatch (pattern message raw : String) : Except PyError Value :=
  match lib.search pattern raw with
  | .error e => .error e
  | .ok true => .ok (.text raw)
  | .ok false => .error (.valueError message)

def coerceEmail : String → Except PyError Value :=
  coerceMatch lib "^[^@\\s]+@[^@\\s]+\\.[^@\\s]+$" "invalid email address"

def coerceUrl : String → Except PyError Value :=
  coerceMatch lib "^https?://\\S+$" "invalid URL (http/https)"

def coercePhone : String → Except PyError Value :=
  coerceMatch lib "^[+(]?[\\d][\\d\\s().-]\x7b4,\x7d$" "invalid phone number"

/-- `json.dumps(json.loads(raw))`. -/
def coerceJson (raw : String) : Except PyError Value := (lib.loads raw).map fun v => .text (lib.dumps v)

/-- The body of the `try` of `coerce_value`, which a text of some length reaches; `none`
where no branch takes the type. -/
def coerceTyped (field : MetaField) (resolver : Option Resolver) (raw : String) : Option (Except PyError Value) :=
  match field.dataType with
  | .string | .text | .markdown => some ((checkText lib field raw).map fun _ => .text raw)
  | .integer | .bigint => some ((coerceInt lib raw).bind (checkRange lib field))
  | .user | .company | .relation => some (coerceReference lib resolver raw)
  | .decimal | .currency | .percent => some (coerceDecimal lib field raw)
  | .float => some (coerceFloat lib field raw)
  | .boolean => some (coerceBool lib raw)
  | .date => some ((parsed lib "date" raw (lib.isoDate raw)).map .date)
  | .datetime => some ((parseDatetime lib raw).map .datetime)
  | .time => some ((parsed lib "time" raw (lib.isoTime raw)).map .time)
  | .enum => some (coerceEnum lib field raw)
  | .email => some (coerceEmail lib raw)
  | .url => some (coerceUrl lib raw)
  | .phone => some (coercePhone lib raw)
  | .autonumber => some (.ok (.text raw))
  | .json => some (coerceJson lib raw)
  | .tags => some (coerceTags lib field raw)
  | .formula | .image | .file => none

/-- The message that `coerce_value` makes of an exception. -/
def refusal (field : MetaField) (raw : String) : PyError → PyError
  | .valueError message =>
    .valueError (field.physName ++ ": " ++ (if message = "" then "invalid value" else message) ++ " ('" ++ raw ++ "')")
  | .invalidOperation =>
    .valueError (field.physName ++ ": [<class 'decimal.ConversionSyntax'>] ('" ++ raw ++ "')")
  | e => e

def coerceValue (field : MetaField) (resolver : Option Resolver) (raw : Option String) : Except PyError Value :=
  let raw := strip (raw.getD "")
  if raw = "" then .ok .null
  else
    match coerceTyped lib field resolver raw with
    | none => .error (.valueError (field.physName ++ ": unsupported type " ++ field.dataType.name))
    | some (.ok v) => .ok v
    | some (.error e) => .error (refusal field raw e)

/-- A missing cell is an empty one. -/
@[simp] theorem coerceValue_none (field : MetaField) (resolver : Option Resolver) :
    coerceValue lib field resolver none = .ok .null := by
  have hempty : strip "" = "" := rfl
  simp [coerceValue,hempty]

/-- A cell that is not blank is accepted when the parser of its type takes it. -/
theorem coerceValue_parsed {lib : CoerceLib} {field : MetaField} {resolver : Option Resolver} {cell : Option String} {raw : String}
    {v : Value} (hcell : strip (cell.getD "") = raw) (hne : raw ≠ "") :
    coerceValue lib field resolver cell = .ok v ↔ coerceTyped lib field resolver raw = some (.ok v) := by
  simp only [coerceValue,hcell,if_neg hne]
  cases coerceTyped lib field resolver raw with
  | none => simp
  | some result => cases result <;> simp

end Importer
end Biggy
