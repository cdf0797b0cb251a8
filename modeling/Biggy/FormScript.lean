import Biggy.FormRules
import Biggy.Utf16

/-!
# The form rules in the browser

`form-rules.js` evaluates the rules of a form again. Its texts are rows of UTF-16 units, its
numbers are compared by their digits, and its objects are looked up with what they inherit.
-/
namespace Biggy
namespace FormRules

open Numerals Dependency

/-- What the script calls: `String` of a number of the configuration and of an inherited
property. -/
structure ScriptLib where
  ofInt : ℤ → String
  ofFloat : PyFloat → String
  ofProperty : String → String

/-- The properties that a plain object inherits. -/
def inherited : List String :=
  ["constructor","toString","toLocaleString","valueOf","hasOwnProperty","isPrototypeOf","propertyIsEnumerable",
    "__proto__","__defineGetter__","__defineSetter__","__lookupGetter__","__lookupSetter__"]

/-- `name in object`. -/
def inObject {α : Type*} (object : String → Option α) (name : String) : Bool :=
  (object name).isSome || decide (name ∈ inherited)

/-- `object[name]`; `none` stands for `null` and for `undefined`, other data for an inherited
property. -/
def property (object : String → Option (FieldData String)) (name : String) : FieldData String :=
  match object name with
  | some data => data
  | none => if name ∈ inherited then .other name else .none

section Text

variable (js : ScriptLib)

/-- `text` of the script. -/
def scriptText : FieldData String → String
  | .none => ""
  | .bool b => if b then "true" else "false"
  | .text s => s
  | .other name => js.ofProperty name

/-- `text` of a condition's value. -/
def scriptLiteral : Literal → String
  | .text s => s
  | .int n => js.ofInt n
  | .float x => js.ofFloat x
  | .bool b => if b then "true" else "false"

end Text

/-! ### Decimals -/

/-- The white space that `trim` takes off. -/
def isBlank (c : Char) : Bool :=
  let n := c.toNat
  (9 ≤ n && n ≤ 13) || n == 32 || n == 0xA0 || n == 0x1680 || (0x2000 ≤ n && n ≤ 0x200A) || n == 0x2028 ||
    n == 0x2029 || n == 0x202F || n == 0x205F || n == 0x3000 || n == 0xFEFF

/-- `s.trim()`. -/
def trim (s : String) : List Char := ((s.toList.dropWhile isBlank).reverse.dropWhile isBlank).reverse

/-- The objects that `decimal` returns. -/
structure ScriptDecimal where
  sign : ℤ
  digits : List ℕ
  magnitude : ℤ

def ofNumeral (x : Numeral) : ScriptDecimal where
  sign := if x.significant = [] then 0 else if x.negative then -1 else 1
  digits := x.significant
  magnitude := x.significant.length-x.scale+x.exponent

/-- `decimal` of the script. -/
def scriptDecimal (value : String) : Option ScriptDecimal := (parse asciiDigit (trim value)).map ofNumeral

/-- `compare` of the script. -/
def compare (a b : ScriptDecimal) : ℤ :=
  if a.sign ≠ b.sign then if b.sign < a.sign then 1 else -1
  else if a.sign = 0 then 0
  else if a.magnitude ≠ b.magnitude then (if b.magnitude < a.magnitude then 1 else -1)*a.sign
  else
    let n := max a.digits.length b.digits.length
    let x := pad n a.digits
    let y := pad n b.digits
    (if x = y then 0 else if y < x then 1 else -1)*a.sign

/-! ### Matching -/

/-- `a.includes(b)`. -/
def includes (a b : String) : Bool :=
  (Utf16.encode a.toList).tails.any fun suffix => (Utf16.encode b.toList).isPrefixOf suffix

/-- A condition on the text of one field. -/
def scriptTest (isNumeric : Bool) (op : Op) (a b : String) : Bool :=
  match op with
  | .empty => a = ""
  | .notEmpty => a ≠ ""
  | .contains => includes a b
  | op =>
    if isNumeric then
      if a = "" ∨ b = "" then false
      else
        match scriptDecimal a, scriptDecimal b with
        | some a, some b => op.test (compare a b) 0
        | _, _ => false
    else op.test (Utf16.encode a.toList) (Utf16.encode b.toList)

section Script

variable (js : ScriptLib) (arrangement : Arrangement) (config : FormConfig)

/-- `match` of a leaf. -/
def scriptLeaf (types : String → Bool) (values : String → Option (FieldData String)) (leaf : Leaf) : Bool :=
  if inObject values leaf.field then
    scriptTest (types leaf.field) leaf.op (scriptText js (property values leaf.field)) (scriptLiteral js leaf.value)
  else false

/-- The state of one field in the script. -/
def scriptState (name : String) (values : String → Option (FieldData String)) : FieldState :=
  (config.item name).state (scriptLeaf js config.numericNames values)

/-- `trusted[name]`, as it is stored among the values. -/
def scriptStored (trusted : String → Option (FieldData String)) (name : String) : Option (FieldData String) :=
  some (property trusted name)

def scriptRules (trusted : String → Option (FieldData String)) : System String (Option (FieldData String)) FieldState :=
  stateSystem (scriptState js config) (scriptStored trusted)

/-- The references of a field that `config` has, inherited properties included. -/
def FormConfig.scriptDependencies (config : FormConfig) (name : String) : List String :=
  ((config.item name).rules.trees.flatMap references).filter fun d => decide (d ∈ config.names ∨ d ∈ inherited)

/-- `visit` of the script on the values and the results; `result[name]` is set for what is
done and for inherited properties. -/
def scriptVisit (trusted : String → Option (FieldData String)) (fuel : ℕ) (visiting : List String)
    (s : (String → Option (FieldData String)) × List (String × FieldState)) (name : String) :
    Except Trouble ((String → Option (FieldData String)) × List (String × FieldState)) :=
  if (s.2.lookup name).isSome ∨ name ∈ inherited then .ok s
  else if name ∈ visiting then .error .cycle
  else
    match fuel with
    | 0 => .error .depth
    | fuel+1 =>
      ((arrangement.arrange (config.scriptDependencies name)).foldlM
        (scriptVisit trusted fuel (name::visiting)) s).map fun s => (scriptRules js config trusted).step s name

/-- `states` of the script. -/
def scriptStates (values trusted : String → Option (FieldData String)) : Except Trouble (List (String × FieldState)) :=
  (config.names.foldlM (scriptVisit js arrangement config trusted (config.names.length+1) [])
    (withLocked config (scriptStored trusted) values,[])).map Prod.snd

end Script

end FormRules
end Biggy
