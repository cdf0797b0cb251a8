import Biggy.FormRules
import Biggy.Traced

/-!
# Formulas

A formula is an expression over the columns of a record and, with `lookup` and `rollup`, of
related ones. `validate` checks its nodes, `eval` walks it; arithmetic and built-in functions
are best-effort, date arithmetic, texts of numbers and comparisons are not.
-/
namespace Biggy
namespace Formula

open FormRules Numerals

/-! ### Expressions -/

/-- A value of an expression: that of a column or of another constant. -/
inductive Val
  | val (v : Value)
  | complex (re im : PyFloat)
  | bytes (data : List ℕ)
  | ellipsis
  deriving DecidableEq

namespace Val

abbrev null : Val := .val .null
abbrev bool (b : Bool) : Val := .val (.bool b)
abbrev int (n : ℤ) : Val := .val (.int n)
abbrev text (s : String) : Val := .val (.text s)
abbrev decimal (d : PyDecimal) : Val := .val (.decimal d)

/-- `bool(value)`. -/
def truthy : Val → Bool
  | .val v => v.truthy
  | .complex re im => !re.isZero || !im.isZero
  | .bytes data => !data.isEmpty
  | .ellipsis => true

/-- `_is_temporal`. -/
def isTemporal : Val → Bool
  | .val (.date _) => true
  | .val (.datetime _) => true
  | _ => false

end Val

inductive UnaryOp
  | uAdd | uSub | not | invert
  deriving DecidableEq

inductive BinOp
  | add | sub | mult | div | floorDiv | mod | pow | bitAnd | bitOr | bitXor | lShift | rShift | matMult
  deriving DecidableEq

inductive BoolOp
  | and | or
  deriving DecidableEq

inductive CmpOp
  | eq | notEq | lt | ltE | gt | gtE | is | isNot | in_ | notIn
  deriving DecidableEq

/-- The syntax tree of an expression; `other` is a node of any other type with its children. -/
inductive Expr
  | constant (value : Val)
  | name (id : String)
  | unaryOp (op : UnaryOp) (operand : Expr)
  | binOp (op : BinOp) (left right : Expr)
  | boolOp (op : BoolOp) (values : List Expr)
  | compare (left : Expr) (ops : List CmpOp) (comparators : List Expr)
  | ifExp (test body orelse : Expr)
  | call (func : Expr) (args keywords : List Expr)
  | other (type : String) (children : List Expr)

mutual

/-- The levels of nodes below an expression. -/
def Expr.depth : Expr → ℕ
  | .constant _ => 1
  | .name _ => 2
  | .unaryOp _ operand => operand.depth+2
  | .binOp _ left right => max left.depth right.depth+2
  | .boolOp _ values => Expr.depths values+2
  | .compare left _ comparators => max left.depth (Expr.depths comparators)+2
  | .ifExp test body orelse => max test.depth (max body.depth orelse.depth)+1
  | .call func args keywords => max func.depth (max (Expr.depths args) (Expr.depths keywords+1))+1
  | .other _ children => Expr.depths children+1

def Expr.depths : List Expr → ℕ
  | [] => 0
  | e::es => max e.depth (Expr.depths es)

end

/-! ### Validation -/

/-- A node of the tree; an operator, the `Load` of a name and a keyword are nodes of their own. -/
inductive Node
  | expr (e : Expr)
  | operator (type : String)
  | keyword (value : Expr)

def UnaryOp.type : UnaryOp → String
  | .uAdd => "UAdd" | .uSub => "USub" | .not => "Not" | .invert => "Invert"

def BinOp.type : BinOp → String
  | .add => "Add" | .sub => "Sub" | .mult => "Mult" | .div => "Div" | .floorDiv => "FloorDiv" | .mod => "Mod"
  | .pow => "Pow" | .bitAnd => "BitAnd" | .bitOr => "BitOr" | .bitXor => "BitXor" | .lShift => "LShift"
  | .rShift => "RShift" | .matMult => "MatMult"

def BoolOp.type : BoolOp → String
  | .and => "And" | .or => "Or"

def CmpOp.type : CmpOp → String
  | .eq => "Eq" | .notEq => "NotEq" | .lt => "Lt" | .ltE => "LtE" | .gt => "Gt" | .gtE => "GtE" | .is => "Is"
  | .isNot => "IsNot" | .in_ => "In" | .notIn => "NotIn"

/-- `iter_child_nodes`. -/
def Node.children : Node → List Node
  | .expr (.constant _) => []
  | .expr (.name _) => [.operator "Load"]
  | .expr (.unaryOp op operand) => [.operator op.type,.expr operand]
  | .expr (.binOp op left right) => [.expr left,.operator op.type,.expr right]
  | .expr (.boolOp op values) => .operator op.type::values.map Node.expr
  | .expr (.compare left ops comparators) =>
    .expr left::(ops.map fun op => .operator op.type)++comparators.map Node.expr
  | .expr (.ifExp test body orelse) => [.expr test,.expr body,.expr orelse]
  | .expr (.call func args keywords) => .expr func::(args.map Node.expr++keywords.map Node.keyword)
  | .expr (.other _ children) => children.map Node.expr
  | .operator _ => []
  | .keyword value => [.expr value]

/-- `ast.walk`: the nodes level by level. -/
def walk : ℕ → List Node → List Node
  | 0, _ => []
  | levels+1, nodes => nodes++walk levels (nodes.flatMap Node.children)

/-- The names of `_FUNCS`, but for those of the relations. -/
inductive Func
  | today | now | round | abs | min | max | len | upper | lower | trim | str | int | float | coalesce | contains
  deriving DecidableEq

def readFunc : String → Option Func
  | "today" => some .today | "now" => some .now | "round" => some .round | "abs" => some .abs | "min" => some .min
  | "max" => some .max | "len" => some .len | "upper" => some .upper | "lower" => some .lower | "trim" => some .trim
  | "str" => some .str | "int" => some .int | "float" => some .float | "coalesce" => some .coalesce
  | "contains" => some .contains | _ => none

def relationFuncs : List String := ["lookup","rollup"]

/-- The operators of `_ALLOWED_NODES`. -/
def allowedOperators : List String :=
  ["Load","Add","Sub","Mult","Div","FloorDiv","Mod","Pow","BitAnd","USub","UAdd","Not","And","Or","Eq","NotEq","Lt",
    "LtE","Gt","GtE"]

/-- `_check_ref`. -/
def checkRef (args : List Expr) (allowed : Option (List String)) (kind : String) : Option String :=
  match args with
  | .constant (.val (.text name))::_ =>
    if allowed.any fun names => name ∉ names then
      some (kind++"(): unknown "++(if kind = "rollup" then "relation" else "link field")++" '"++name++"'.")
    else none
  | _ => some (kind++"(): the first argument must be a name in quotes.")

/-- The first loop of `validate` on one node. -/
def checkNode (lookupFields rollupRels : Option (List String)) : Node → Option String
  | .operator type => if type ∈ allowedOperators then none else some ("Not allowed here: "++type++".")
  | .keyword _ => some "Not allowed here: keyword."
  | .expr (.other type _) => some ("Not allowed here: "++type++".")
  | .expr (.call func args keywords) =>
    match func with
    | .name id =>
      if (readFunc id).isNone ∧ id ∉ relationFuncs then some "Unknown or disallowed function."
      else if keywords ≠ [] then some "Keyword arguments are not allowed."
      else if id = "lookup" then checkRef args lookupFields "lookup"
      else if id = "rollup" then checkRef args rollupRels "rollup"
      else none
    | _ => some "Unknown or disallowed function."
  | .expr _ => none

/-- `func_names`. -/
def funcNames (nodes : List Node) : List String :=
  nodes.filterMap fun node => match node with
    | .expr (.call (.name id) _ _) => some id
    | _ => none

def checkName (columns funcs : List String) : Node → Option String
  | .expr (.name id) => if id ∉ funcs ∧ id ∉ columns then some ("Unknown field: "++id++".") else none
  | _ => none

/-! ### What the evaluation calls -/

/-- The arithmetic and the texts of Python's numbers and dates, the clock, and `ast.parse`. Of an arithmetic
operation `none` is a signal or an exception of the number type; of a comparison it is `TypeError`. -/
structure FormulaLib (ω : Type*) extends FormLib ω where
  today : ℤ
  now : ℤ
  frames : ℕ
  isoText : Value → String
  strConstant : Val → String
  upper : String → String
  lowerText : String → String
  floatOf : Val → Option PyFloat
  intOf : Val → Option ℤ
  decimalOp : BinOp → PyDecimal → PyDecimal → Option PyDecimal
  floatOp : BinOp → PyFloat → PyFloat → Option Val
  signDecimal : UnaryOp → PyDecimal → Option PyDecimal
  roundDecimal : PyDecimal → ℤ → Option PyDecimal
  absDecimal : PyDecimal → Option PyDecimal
  floatDecimal : PyDecimal → Option PyFloat
  equal : Val → Val → Bool
  order : CmpOp → Val → Val → Option Bool
  parse : String → Except String Expr

/-- What backs `lookup` and `rollup`. -/
structure Resolver where
  lookup : Val → Val → Val
  rollup : Val → Val → Val → Val

/-- Why an evaluation ends early. -/
inductive EvalError
  | formula (message : String)
  | python (e : PyError)

section Values

variable {ω : Type*} (lib : FormulaLib ω)

/-- `sys.get_int_max_str_digits()`. -/
def maxStrDigits : ℕ := 4300

/-- The integer has more digits than `str` writes. -/
def tooLong (n : ℤ) : Bool := 10^maxStrDigits ≤ n.natAbs

/-- `str(value)`. -/
def str : Val → Except PyError String
  | .val (.int n) =>
    if tooLong n then .error (.valueError "Exceeds the limit (4300 digits) for integer string conversion")
    else .ok (toString n)
  | .val v => .ok (lib.toPyLib.str v)
  | v => .ok (lib.strConstant v)

/-- `_as_text`. -/
def asText : Val → Except PyError String
  | .val .null => .ok ""
  | .val (.datetime t) => .ok (lib.isoText (.datetime t))
  | .val (.date d) => .ok (lib.isoText (.date d))
  | v => str lib v

/-- `_dec`. -/
def dec : Val → Except PyError PyDecimal
  | .val (.bool b) => .ok (.finite false (if b then 1 else 0) 0)
  | v =>
    match str lib v with
    | .error e => .error e
    | .ok s =>
      match decimal lib.toFormLib s with
      | some d => .ok d
      | none => .error .invalidOperation

/-- `int` of a decimal. -/
def truncate : PyDecimal → Except PyError ℤ
  | .finite negative coefficient exponent =>
    let magnitude : ℕ := if 0 ≤ exponent then coefficient*10^exponent.toNat else coefficient/10^(-exponent).toNat
    .ok (if negative then -(magnitude : ℤ) else magnitude)
  | .infinity _ => .error .overflowError
  | .nan _ => .error (.valueError "cannot convert NaN to integer")

/-- `_to_int`. -/
def toInt (v : Val) : Except PyError ℤ := (dec lib v).bind truncate

/-! ### Date arithmetic -/

def microsPerDay : ℤ := 86400000000

/-- The days of a `timedelta`. -/
def days (micros : ℤ) : ℤ := micros/microsPerDay

/-- `value + timedelta(days=n)`. -/
def shift (n : ℤ) : Val → Except PyError Val
  | .val (.date d) =>
    if 999999999 < n.natAbs then .error .overflowError
    else if d+n < 0 ∨ 3652058 < d+n then .error .overflowError
    else .ok (.val (.date (d+n)))
  | .val (.datetime t) =>
    if 999999999 < n.natAbs then .error .overflowError
    else if t+n*microsPerDay < 0 ∨ maxDatetime < t+n*microsPerDay then .error .overflowError
    else .ok (.val (.datetime (t+n*microsPerDay)))
  | _ => .error .typeError

/-- The difference of two dates or times; `-` does not take a date from a time. -/
def difference : Val → Val → Except PyError Val
  | .val (.date a), .val (.date b) => .ok (.int (a-b))
  | .val (.datetime a), .val (.datetime b) => .ok (.int (days (a-b)))
  | .val (.date a), .val (.datetime b) => .ok (.int (days (a*microsPerDay-b)))
  | _, _ => .error .typeError

/-- `_date_arith`. -/
def dateArith (op : BinOp) (a b : Val) : Except PyError Val :=
  if op = .sub ∧ a.isTemporal ∧ b.isTemporal then difference a b
  else if op = .sub ∧ a.isTemporal then (toInt lib b).bind fun n => shift (-n) a
  else if op = .add ∧ a.isTemporal then (toInt lib b).bind fun n => shift n a
  else if op = .add ∧ b.isTemporal then (toInt lib a).bind fun n => shift n b
  else .ok .null

/-! ### Operators -/

/-- The operators of `_BINOPS`. -/
def arithmetic : BinOp → Bool
  | .add | .sub | .mult | .div | .floorDiv | .mod | .pow => true
  | _ => false

/-- The float attempt of `_binop`. -/
def floatAttempt (op : BinOp) (a b : Val) : Val :=
  ((lib.floatOf a).bind fun x => (lib.floatOf b).bind fun y => lib.floatOp op x y).getD .null

/-- The arithmetic of `_binop`: with decimals, else with floats. -/
def bestEffort (op : BinOp) (a b : Val) : Val :=
  match dec lib a, dec lib b with
  | .ok x, .ok y =>
    match lib.decimalOp op x y with
    | some d => .decimal d
    | none => floatAttempt lib op a b
  | _, _ => floatAttempt lib op a b

def ofPython {α : Type*} : Except PyError α → Except EvalError α
  | .ok a => .ok a
  | .error e => .error (.python e)

/-- `_binop`. -/
def binop (op : BinOp) (a b : Val) : Except EvalError Val :=
  if op = .bitAnd then ofPython ((asText lib a).bind fun x => (asText lib b).map fun y => .text (x++y))
  else if a = .null ∨ b = .null then .ok .null
  else if (op = .add ∨ op = .sub) ∧ (a.isTemporal ∨ b.isTemporal) then ofPython (dateArith lib op a b)
  else if !arithmetic op then .error (.formula "operator not allowed")
  else .ok (bestEffort lib op a b)

/-- `fn(_dec(v))` of a sign, `None` when it fails. -/
def signed (op : UnaryOp) (v : Val) : Val :=
  match dec lib v with
  | .ok d => ((lib.signDecimal op d).map Val.decimal).getD .null
  | .error _ => .null

def isDecimal : Val → Bool
  | .val (.decimal _) => true
  | _ => false

def isSignaling : Val → Bool
  | .val (.decimal (.nan signaling)) => signaling
  | _ => false

def isNan : Val → Bool
  | .val (.decimal (.nan _)) => true
  | .val (.float .nan) => true
  | _ => false

/-- The operators that order. -/
def CmpOp.orders : CmpOp → Bool
  | .lt | .ltE | .gt | .gtE => true
  | _ => false

/-- What is compared with a decimal as a number. -/
def comparable (op : CmpOp) : Val → Bool
  | .val (.bool _) | .val (.int _) | .val (.float _) | .val (.decimal _) => true
  | .complex _ im => !op.orders && im.isZero
  | _ => false

/-- A decimal is compared with a signaling NaN, or ordered with any NaN. -/
def signals (op : CmpOp) (a b : Val) : Bool :=
  (isDecimal a || isDecimal b) && comparable op a && comparable op b &&
    (isSignaling a || isSignaling b || (op.orders && (isNan a || isNan b)))

/-- `fn(left, right)` of a comparison. -/
def compareRaw (op : CmpOp) (a b : Val) : Except PyError Bool :=
  if signals op a b then .error .invalidOperation
  else
    match op with
    | .eq => .ok (lib.equal a b)
    | .notEq => .ok (!lib.equal a b)
    | _ => match lib.order op a b with
      | some ok => .ok ok
      | none => .error .typeError

/-- One comparison of a chain; `TypeError` is false. -/
def compareValues (op : CmpOp) (a b : Val) : Except EvalError Bool :=
  if op ∈ [CmpOp.eq,.notEq,.lt,.ltE,.gt,.gtE] then
    match compareRaw lib op a b with
    | .error .typeError => .ok false
    | result => ofPython result
  else .error (.formula "comparison not allowed")

/-! ### Functions -/

/-- `_coalesce`. -/
def coalesce (args : List Val) : Val := (args.find? fun a => a ≠ .null ∧ a ≠ .text "").getD .null

/-- `min` or `max` of values. -/
def extreme (op : CmpOp) : List Val → Except PyError Val
  | [] => .ok .null
  | v::vs => vs.foldlM (fun best w => (compareRaw lib op w best).map fun better => if better then w else best) v

def optional (v : Option Val) : Except PyError Val :=
  match v with
  | some v => .ok v
  | none => .error .invalidOperation

/-- A function of the text of an argument, `None` of `None`. -/
def textFunction (f : String → Val) (v : Val) : Except PyError Val :=
  if v = .null then .ok .null else (asText lib v).map f

/-- The body of a function that `_safe` wraps. -/
def body : Func → List Val → Except PyError Val
  | .round, [x] => if x = .null then .ok .null else
      (dec lib x).bind fun d => optional ((lib.roundDecimal d 0).map Val.decimal)
  | .round, [x,n] => if x = .null then .ok .null else
      (dec lib x).bind fun d => optional ((lib.intOf n).bind fun n => (lib.roundDecimal d n).map Val.decimal)
  | .abs, [x] => if x = .null then .ok .null else
      (dec lib x).bind fun d => optional ((lib.absDecimal d).map Val.decimal)
  | .min, args => extreme lib .lt (args.filter (· ≠ .null))
  | .max, args => extreme lib .gt (args.filter (· ≠ .null))
  | .len, [.val .null] => .ok (.int 0)
  | .len, [.val (.text s)] => .ok (.int s.length)
  | .len, [.bytes data] => .ok (.int data.length)
  | .upper, [v] => textFunction lib (fun s => .text (lib.upper s)) v
  | .lower, [v] => textFunction lib (fun s => .text (lib.lowerText s)) v
  | .trim, [v] => textFunction lib (fun s => .text (strip s)) v
  | .str, [v] => (asText lib v).map Val.text
  | .int, [x] => if x = .null ∨ x = .text "" then .ok .null else (toInt lib x).map Val.int
  | .float, [x] => if x = .null ∨ x = .text "" then .ok .null else
      (dec lib x).bind fun d => optional ((lib.floatDecimal d).map fun x => .val (.float x))
  | .contains, [s,sub] => (asText lib s).bind fun s => (asText lib sub).map fun sub => .bool (isIn sub s)
  | _, _ => .error .typeError

/-- `_safe`. -/
def safe : Except PyError Val → Val
  | .ok v => v
  | .error _ => .null

/-- `fn(*args)` of `_FUNCS`. -/
def callFunc : Func → List Val → Except PyError Val
  | .today, [] => .ok (.val (.date lib.today))
  | .today, _ => .error .typeError
  | .now, [] => .ok (.val (.datetime lib.now))
  | .now, _ => .error .typeError
  | .coalesce, args => .ok (coalesce args)
  | f, args => .ok (safe (body lib f args))

/-- `getattr(resolver, name)(*args)`. -/
def callRelation (resolver : Resolver) (name : String) (args : List Val) : Except PyError Val :=
  match args with
  | [a,b] => .ok (if name = "lookup" then resolver.lookup a b else resolver.rollup a b (.text "count"))
  | [a,b,c] => if name = "lookup" then .error .typeError else .ok (resolver.rollup a b c)
  | _ => .error .typeError

/-- What `_eval_call` does with its arguments. -/
def callNamed (resolver : Option Resolver) (name : String) (args : List Val) : Except EvalError Val :=
  if name ∈ relationFuncs then
    match resolver with
    | none => .ok .null
    | some resolver => ofPython (callRelation resolver name args)
  else
    match readFunc name with
    | none => .error (.formula ("unknown function: "++name))
    | some f => ofPython (callFunc lib f args)

end Values

/-! ### Evaluation -/

/-- What an evaluation performs that may raise: `deep` is a level that the stack has no frame for. -/
inductive Operation
  | deep
  | binop (op : BinOp) (a b : Val)
  | compare (op : CmpOp) (a b : Val)
  | call (name : String) (args : List Val)

section Evaluation

variable {ω : Type*} (lib : FormulaLib ω) (resolver : Option Resolver)

def Operation.run : Operation → Except EvalError Val
  | .deep => .error (.python .recursionError)
  | .binop op a b => Formula.binop lib op a b
  | .compare op a b => (compareValues lib op a b).map Val.bool
  | .call name args => callNamed lib resolver name args

/-- A computation of the evaluation. -/
abbrev Eval (α : Type) := Traced Operation EvalError α

def step (op : Operation) : Eval Val := Traced.perform (Operation.run lib resolver) op

/-- `and` is its first false operand, `or` its first true one, or else the last. -/
def BoolOp.pick (op : BoolOp) (vals : List Val) : Val :=
  match vals.find? fun v => if op = .and then !v.truthy else v.truthy with
  | some v => v
  | none => vals.getLastD .null

/-- The comparisons of a chain. -/
def chain (eval : Expr → Eval Val) : Val → List (CmpOp × Expr) → Eval Val
  | _, [] => pure (.bool true)
  | left, (op,comp)::rest => do
    let right ← eval comp
    let ok ← step lib resolver (.compare op left right)
    if ok.truthy then chain eval right rest else pure (.bool false)

/-- `_eval`, with the frames that the stack has left. -/
def eval (context : String → Val) : ℕ → Expr → Eval Val
  | 0, _ => step lib resolver .deep
  | _+1, .constant value => pure value
  | _+1, .name id => pure (context id)
  | _+1, .unaryOp .invert _ => Traced.fail (.formula "unary operator not allowed")
  | frames+1, .unaryOp .not operand => do
    let v ← eval context frames operand
    pure (.bool !v.truthy)
  | frames+1, .unaryOp op operand => do
    let v ← eval context frames operand
    pure (if v = .null then .null else signed lib op v)
  | frames+1, .binOp op left right => do
    let a ← eval context frames left
    let b ← eval context frames right
    step lib resolver (.binop op a b)
  | frames+1, .boolOp op values => do
    let vals ← values.mapM (eval context frames)
    pure (op.pick vals)
  | frames+1, .compare left ops comparators => do
    let a ← eval context frames left
    chain lib resolver (eval context frames) a (ops.zip comparators)
  | frames+1, .ifExp test body orelse => do
    let t ← eval context frames test
    if t.truthy then eval context frames body else eval context frames orelse
  | frames+1, .call (.name id) args [] => do
    let vals ← args.mapM (eval context frames)
    step lib resolver (.call id vals)
  | _+1, .call _ _ _ => Traced.fail (.formula "only simple named function calls are allowed")
  | _+1, .other type _ => Traced.fail (.formula ("unsupported expression: "++type))

/-- `evaluate`. -/
def evaluate (context : String → Val) (text : String) : Eval Val :=
  if strip text = "" then pure .null
  else
    match lib.parse text with
    | .error message => Traced.fail (.formula ("syntax error: "++message))
    | .ok tree => eval lib resolver context lib.frames tree

/-- `validate`: what is wrong with a formula. -/
def validate (text : String) (columns : List String) (lookupFields rollupRels : Option (List String)) : Option String :=
  if strip text = "" then some "Formula is empty."
  else
    match lib.parse text with
    | .error message => some ("Syntax error: "++message)
    | .ok tree =>
      let nodes := walk tree.depth [.expr tree]
      match nodes.findSome? (checkNode lookupFields rollupRels) with
      | some message => some message
      | none => nodes.findSome? (checkName columns (funcNames nodes))

end Evaluation

/-! ### Formula columns -/

inductive ResultType
  | number | text | boolean | date | datetime
  deriving DecidableEq

/-- A formula field of a table. -/
structure FormulaField where
  physName : String
  formula : Option String
  resultType : ResultType := .number
  deriving DecidableEq

section Columns

variable {ω : Type*} (lib : FormulaLib ω)

/-- The body of `coerce_result`. -/
def coerceBody (v : Val) : ResultType → Except PyError Val
  | .text => (asText lib v).map Val.text
  | .boolean => .ok (.bool v.truthy)
  | .date => match v with
    | .val (.datetime t) => .ok (.val (.date (days t)))
    | .val (.date d) => .ok (.val (.date d))
    | _ => .ok .null
  | .datetime => match v with
    | .val (.datetime t) => .ok (.val (.datetime t))
    | .val (.date d) => .ok (.val (.datetime (d*microsPerDay)))
    | _ => .ok .null
  | .number => if v.isTemporal then .ok .null else (dec lib v).map Val.decimal

/-- `coerce_result`, which catches `InvalidOperation`, `ValueError` and `TypeError`. -/
def coerceResult (v : Val) (type : ResultType) : Except PyError Val :=
  if v = .null then .ok .null
  else
    match coerceBody lib v type with
    | .error .invalidOperation => .ok .null
    | .error (.valueError _) => .ok .null
    | .error .typeError => .ok .null
    | result => result

/-- `evaluate` of the formula of a field, which may be absent. -/
def evaluateField (resolver : Resolver) (context : String → Val) (f : FormulaField) : Eval Val :=
  match f.formula with
  | none => pure .null
  | some text => evaluate lib (some resolver) context text

/-- The value to store: a `FormulaError` has none. -/
def storeResult (x : Eval Val) (type : ResultType) : Traced Operation PyError Val :=
  match x.result with
  | .ok v => ⟨x.trace,coerceResult lib v type⟩
  | .error (.formula _) => ⟨x.trace,coerceResult lib .null type⟩
  | .error (.python e) => ⟨x.trace,.error e⟩

def computeField (resolver : Resolver) (context : String → Val) (f : FormulaField) : Traced Operation PyError Val :=
  storeResult lib (evaluateField lib resolver context f) f.resultType

/-- `compute_values`, of the formula fields in their order: each one sees the values before it. -/
def computeValues (resolver : (String → Val) → Resolver) :
    (String → Val) → List FormulaField → Traced Operation PyError (List (String × Val))
  | _, [] => pure []
  | row, f::fields => do
    let v ← computeField lib (resolver row) row f
    let out ← computeValues resolver (Function.update row f.physName v) fields
    pure ((f.physName,v)::out)

end Columns

end Formula
end Biggy
