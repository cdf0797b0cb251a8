import Biggy.Metadata
import Biggy.Numeral
import Biggy.Dependency
import Biggy.Outcome

/-!
# Form rules

A field of a form can be shown, required or made read-only by a condition on other fields.
`states` evaluates the rules along the references, where a hidden or locked field counts
with its stored value.
-/
namespace Biggy
namespace FormRules

open Numerals Dependency

/-- The data of a form field; what is neither `None`, a boolean nor a text has a text. -/
inductive FieldData (ω : Type*)
  | none
  | bool (b : Bool)
  | text (s : String)
  | other (o : ω)

/-- What the rules call: `str` of other data and of a float, the decimal digits of Unicode,
and which coefficient and exponent a `Decimal` can hold. -/
structure FormLib (ω : Type*) extends PyLib where
  strData : ω → String
  digit : Char → Option ℕ
  fits : ℕ → ℤ → Bool

/-- A scalar in a condition. -/
inductive Literal
  | text (s : String)
  | int (n : ℤ)
  | float (x : PyFloat)
  | bool (b : Bool)

/-- `OPS`. -/
inductive Op
  | eq | ne | empty | notEmpty | contains | gt | gte | lt | lte
  deriving DecidableEq

/-- A condition on one field; an absent value is the empty text. -/
structure Leaf where
  field : String
  op : Op
  value : Literal

inductive Node
  | all (children : List Node)
  | any (children : List Node)
  | leaf (l : Leaf)

mutual

/-- A condition by a test of its leaves. -/
def Node.holds (test : Leaf → Bool) : Node → Bool
  | .all children => Node.allHold test children
  | .any children => Node.anyHolds test children
  | .leaf l => test l

def Node.allHold (test : Leaf → Bool) : List Node → Bool
  | [] => true
  | c::cs => c.holds test && Node.allHold test cs

def Node.anyHolds (test : Leaf → Bool) : List Node → Bool
  | [] => false
  | c::cs => c.holds test || Node.anyHolds test cs

end

mutual

def Node.leaves : Node → List Leaf
  | .all children => Node.leavesOf children
  | .any children => Node.leavesOf children
  | .leaf l => [l]

def Node.leavesOf : List Node → List Leaf
  | [] => []
  | c::cs => c.leaves++Node.leavesOf cs

end

/-- `references`. -/
def references (node : Node) : List String := node.leaves.map Leaf.field

structure Rules where
  shown : Option Node := none
  require : Option Node := none
  readonly : Option Node := none

/-- `rules.values()`. -/
def Rules.trees (rules : Rules) : List Node :=
  rules.shown.toList++rules.require.toList++rules.readonly.toList

/-- `NUMERIC`. -/
def numeric : DataType → Bool
  | .integer | .bigint | .float | .decimal | .currency | .percent => true
  | _ => false

section Values

variable {ω : Type*} (lib : FormLib ω)

/-- `text` of field data. -/
def dataText : FieldData ω → String
  | .none => ""
  | .bool b => if b then "true" else "false"
  | .text s => s
  | .other o => lib.strData o

/-- `str(value)` of a condition's value. -/
def strLiteral : Literal → String
  | .text s => s
  | .int n => toString n
  | .float x => lib.strOther (.float x)
  | .bool b => if b then "True" else "False"

/-- `text` of a condition's value. -/
def literalText : Literal → String
  | .bool b => if b then "true" else "false"
  | v => strLiteral lib v

/-- The special values that `Decimal` reads. -/
def special (negative : Bool) (body : String) : Option PyDecimal :=
  if body = "inf" ∨ body = "infinity" then some (.infinity negative)
  else
    let rest := if startsWith body "s" then body.toList.drop 1 else body.toList
    if rest.take 3 = "nan".toList ∧ (rest.drop 3).all (fun c => (lib.digit c).isSome) then
      some (.nan (startsWith body "s"))
    else none

/-- `Decimal(s)`; `none` is `InvalidOperation`. -/
def decimal (s : String) : Option PyDecimal :=
  let cs := (strip s).toList.filter (· ≠ '_')
  match special lib (takeSign cs).1 (lower (String.ofList (takeSign cs).2)) with
  | some d => some d
  | none =>
    match parse lib.digit cs with
    | none => none
    | some x =>
      if lib.fits (natOf x.digits) (x.exponent-x.scale) then
        some (.finite x.negative (natOf x.digits) (x.exponent-x.scale))
      else none

/-- The number of a text, when it is a finite one. -/
def number (s : String) : Option ℚ := (decimal lib s).bind PyDecimal.toRat

end Values

/-! ### Validation -/

section Validation

variable {ω : Type*} (lib : FormLib ω)

/-- `parse`; an absent or empty value has no rules. -/
def parseRules (value : Json) : Except PyError (List (String × Json)) :=
  let bad : Except PyError (List (String × Json)) :=
    .error (.valueError "Rules must contain only show, require or readonly conditions.")
  let decoded : Except PyError Json := match value with
    | .str s => if s = "" then .ok (.obj []) else lib.loads s
    | v => .ok (if v.truthy then v else .obj [])
  match decoded with
  | .error e => .error e
  | .ok (.obj members) => if members.all fun p => p.1 ∈ ["show","require","readonly"] then .ok members else bad
  | .ok _ => bad

def readOp : String → Option Op
  | "eq" => some .eq | "ne" => some .ne | "empty" => some .empty | "not_empty" => some .notEmpty
  | "contains" => some .contains | "gt" => some .gt | "gte" => some .gte | "lt" => some .lt
  | "lte" => some .lte | _ => none

/-- `isinstance(value, (str, int, float, bool))`. -/
def readLiteral : Json → Option Literal
  | .str s => some (.text s)
  | .int n => some (.int n)
  | .float x => some (.float x)
  | .bool b => some (.bool b)
  | _ => none

/-- A name or an operator that is no text is in no set, and cannot be looked up when it is a
list or a dict. -/
def readName : Json → Except PyError (Option String)
  | .str s => .ok (some s)
  | .arr _ | .obj _ => .error .typeError
  | _ => .ok none

theorem readName_some {value : Json} {name : String} (h : readName value = .ok (some name)) : value = .str name := by
  cases value <;> simp only [readName] at h <;> cases h
  rfl

def ordering (op : Op) : Bool := op ∈ [Op.gt,.gte,.lt,.lte]

/-- The types that cannot control a condition. -/
def uncontrolled (t : DataType) : Bool := t ∈ [DataType.file,.image,.formula,.autonumber,.json,.tags]

/-- The types that `contains` takes. -/
def textual (t : DataType) : Bool := t ∈ [DataType.string,.text,.markdown,.email,.url,.phone]

/-- The leaf of a condition. -/
def readLeaf (fields : List MetaField) (target : String) (node : List (String × Json)) : Except PyError Node :=
  let choose : PyError := .valueError "Choose another field on this form and a supported operator."
  match readName (Json.get node "field") with
  | .error e => .error e
  | .ok name =>
    match name.bind fun n => Keyed.find MetaField.physName n fields with
    | none => .error choose
    | some field =>
      if field.physName = target then .error choose
      else
        match readName (Json.get node "op") with
        | .error e => .error e
        | .ok opName =>
          match opName.bind readOp with
          | none => .error choose
          | some op =>
            if uncontrolled field.dataType then .error (.valueError "This field type cannot control a condition.")
            else if ordering op ∧ ¬numeric field.dataType then
              .error (.valueError "Numeric comparisons require a numeric field.")
            else if op = .contains ∧ ¬textual field.dataType then .error (.valueError "Contains requires a text field.")
            else
              match readLiteral ((node.lookup "value").getD (.str "")) with
              | none => .error (.valueError "Condition values must be short scalar values.")
              | some value =>
                if 1000 < (strLiteral lib value).length then
                  .error (.valueError "Condition values must be short scalar values.")
                else if ¬(op = .empty ∨ op = .notEmpty) ∧ numeric field.dataType then
                  match decimal lib (strLiteral lib value) with
                  | none => .error (.valueError "Use a numeric condition value.")
                  | some d => if d.toRat.isSome then .ok (.leaf ⟨field.physName,op,value⟩) else
                      .error (.valueError "Use a finite number.")
                else .ok (.leaf ⟨field.physName,op,value⟩)

/-- The children of a group, when nothing else is in its node. -/
def readGroup (key : String) (node : List (String × Json)) : Except PyError (List Json) :=
  let bad : Except PyError (List Json) := .error (.valueError "Each AND/OR group needs 1–20 conditions.")
  match node.lookup key with
  | some (.arr children) =>
    if (node.all fun p => p.1 = key) ∧ 1 ≤ children.length ∧ children.length ≤ 20 then .ok children else bad
  | _ => bad

theorem readGroup_ok {key : String} {node : List (String × Json)} {children : List Json} (h : readGroup key node = .ok children) :
    node.lookup key = some (.arr children) ∧ ∀ other, other ≠ key → node.lookup other = none := by
  rw [readGroup] at h
  split at h
  · rename_i items hitems
    split_ifs at h with hgroup
    obtain rfl := Except.ok.inj h
    refine ⟨hitems,fun other hother => List.lookup_eq_none_iff.mpr fun p hp => ?_⟩
    have hkey : p.1 = key := of_decide_eq_true (List.all_eq_true.mp hgroup.1 p hp)
    rw [hkey]
    exact bne_iff_ne.mpr hother
  · cases h

/-- `visit` of `validate`, with the levels that are left. -/
def readNode (fields : List MetaField) (target : String) : ℕ → Json → Except PyError Node
  | levels+1, .obj node =>
    if (node.lookup "all").isSome then
      match readGroup "all" node with
      | .error e => .error e
      | .ok children => (children.mapM (readNode fields target levels)).map Node.all
    else if (node.lookup "any").isSome then
      match readGroup "any" node with
      | .error e => .error e
      | .ok children => (children.mapM (readNode fields target levels)).map Node.any
    else readLeaf lib fields target node
  | _, _ => .error (.valueError "Condition groups may be nested at most five levels.")

/-- An accepted node is a group of accepted nodes or a leaf. -/
theorem readNode_cases {lib : FormLib ω} {fields : List MetaField} {target : String} {levels : ℕ} {json : Json} {node : Node}
    (h : readNode lib fields target (levels+1) json = .ok node) : ∃ members, json = .obj members ∧
      ((∃ children nodes, readGroup "all" members = .ok children ∧
          children.mapM (readNode lib fields target levels) = .ok nodes ∧ node = .all nodes) ∨
        (members.lookup "all" = none ∧ ∃ children nodes, readGroup "any" members = .ok children ∧
          children.mapM (readNode lib fields target levels) = .ok nodes ∧ node = .any nodes) ∨
        (members.lookup "all" = none ∧ members.lookup "any" = none ∧ readLeaf lib fields target members = .ok node)) := by
  cases json with
  | obj members =>
    refine ⟨members,rfl,?_⟩
    rw [readNode] at h
    split_ifs at h with hall hany
    · split at h
      · cases h
      rename_i children hgroup
      obtain ⟨nodes,hnodes,rfl⟩ := Outcome.map_ok h
      exact Or.inl ⟨children,nodes,hgroup,hnodes,rfl⟩
    · split at h
      · cases h
      rename_i children hgroup
      obtain ⟨nodes,hnodes,rfl⟩ := Outcome.map_ok h
      exact Or.inr (Or.inl ⟨Option.not_isSome_iff_eq_none.mp hall,children,nodes,hgroup,hnodes,rfl⟩)
    · exact Or.inr (Or.inr ⟨Option.not_isSome_iff_eq_none.mp hall,Option.not_isSome_iff_eq_none.mp hany,h⟩)
  | _ =>
    rw [readNode.eq_def] at h
    cases h

/-- `validate`: the rules that it accepts. -/
def validate (rules : Json) (fields : List MetaField) (target : String) : Except PyError Rules :=
  match parseRules lib rules with
  | .error e => .error e
  | .ok members =>
    let keys := (members.map Prod.fst).eraseDups
    (keys.mapM fun key => (readNode lib fields target 6 (Json.get members key)).map fun node => (key,node)).map
      fun trees => ⟨trees.lookup "show",trees.lookup "require",trees.lookup "readonly"⟩

end Validation

/-! ### Matching -/

section Matching

variable {ω : Type*} (lib : FormLib ω)

/-- A comparison of two values of an order. -/
def Op.test {α : Type*} [LT α] [DecidableLT α] [DecidableEq α] (op : Op) (left right : α) : Bool :=
  match op with
  | .eq => left = right
  | .ne => left ≠ right
  | .gt => right < left
  | .gte => ¬left < right
  | .lt => left < right
  | .lte => ¬right < left
  | _ => false

/-- A comparison of two numbers, which fails where one is missing. -/
def Op.testNumbers (op : Op) : Option ℚ → Option ℚ → Bool
  | some left, some right => op.test left right
  | _, _ => false

/-- A condition on the text of one field. -/
def testLeaf (isNumeric : Bool) (op : Op) (left right : String) : Bool :=
  match op with
  | .empty => left = ""
  | .notEmpty => left ≠ ""
  | .contains => isIn right left
  | op =>
    if isNumeric then op.testNumbers (number lib left) (number lib right)
    else op.test left right

/-- `matches` of a leaf; what is hidden by permissions has no value. -/
def leafMatches (types : String → Bool) (values : String → Option (FieldData ω)) (leaf : Leaf) : Bool :=
  match values leaf.field with
  | none => false
  | some data => testLeaf lib (types leaf.field) leaf.op (dataText lib data) (literalText lib leaf.value)

end Matching

/-! ### States -/

/-- What the form knows of a field. -/
structure Item where
  rules : Rules := {}
  type : DataType := .string
  locked : Bool := false
  required : Bool := false

/-- The fields of a form by name. -/
structure FormConfig where
  items : List (String × Item)
  nodup : (items.map Prod.fst).Nodup

def FormConfig.names (config : FormConfig) : List String := config.items.map Prod.fst

/-- The order in which the references of a field are gone through: Python leaves it open for
a set. -/
structure Arrangement where
  arrange : List String → List String
  mem_arrange : ∀ names name, name ∈ arrange names ↔ name ∈ names

structure FieldState where
  visible : Bool
  readonly : Bool
  required : Bool
  deriving DecidableEq

/-- `not visible or locked`. -/
def FieldState.kept (state : FieldState) : Bool := !state.visible || state.readonly

section States

variable {ω : Type*} (arrangement : Arrangement) (lib : FormLib ω) (config : FormConfig)

def FormConfig.item (config : FormConfig) (name : String) : Item := (config.items.lookup name).getD {}

/-- The fields of the form that the rules of a field refer to. -/
def FormConfig.dependencies (config : FormConfig) (name : String) : List String :=
  ((config.item name).rules.trees.flatMap references).filter (· ∈ config.names)

/-- `order`. -/
def order : Except PyError (List String) :=
  match config.names.foldlM
      (visit (fun name => arrangement.arrange (config.dependencies name)) (config.names.length+1) []) [] with
  | .ok names => .ok names
  | .error .cycle => .error (.valueError "Conditional rules form a cycle.")
  | .error .depth => .error .recursionError

/-- The search never runs out of levels: what it reports is a cycle. -/
theorem order_error {arrangement : Arrangement} {config : FormConfig} {e : PyError} (h : order arrangement config = .error e) :
    e = .valueError "Conditional rules form a cycle." := by
  rw [order] at h
  split at h
  · cases h
  · cases h
    rfl
  · rename_i hdepth
    obtain ⟨done,name,hname,hvisit⟩ := Outcome.foldlM_error hdepth
    refine absurd hvisit (visit_depth ?_ hname List.nodup_nil (List.nil_subset _) ?_)
    · intro n _ d hd
      rw [arrangement.mem_arrange] at hd
      simpa using (List.mem_filter.mp hd).2
    · rw [List.length_nil]
      omega

/-- The types that compare as numbers. -/
def FormConfig.numericNames (config : FormConfig) (name : String) : Bool :=
  match config.items.lookup name with
  | some item => numeric item.type
  | none => false

/-- The state of a field by a test of the leaves of its rules. -/
def Item.state (item : Item) (test : Leaf → Bool) : FieldState :=
  let visible := item.rules.shown.elim true (Node.holds test)
  let locked := item.locked || item.rules.readonly.elim false (Node.holds test)
  let required := item.required || item.rules.require.elim false (Node.holds test)
  ⟨visible,locked,required && visible && !locked⟩

/-- The state of one field in `states`. -/
def fieldState (name : String) (values : String → Option (FieldData ω)) : FieldState :=
  (config.item name).state (leafMatches lib config.numericNames values)

/-- `values[name] = trusted.get(name)`. -/
def stored (trusted : String → Option (FieldData ω)) (name : String) : Option (FieldData ω) :=
  some ((trusted name).getD .none)

/-- A hidden or locked field counts with its stored value. -/
def stateSystem (eval : String → (String → Option (FieldData ω)) → FieldState)
    (store : String → Option (FieldData ω)) : System String (Option (FieldData ω)) FieldState where
  eval := eval
  settle name state value := if state.kept then store name else value

/-- The values of a submission with those of the locked fields replaced. -/
def withLocked (store values : String → Option (FieldData ω)) : String → Option (FieldData ω) :=
  config.items.foldl (fun vs p => if p.2.locked then Function.update vs p.1 (store p.1) else vs) values

def rules (trusted : String → Option (FieldData ω)) : System String (Option (FieldData ω)) FieldState :=
  stateSystem (fieldState lib config) (stored trusted)

/-- `states`. -/
def states (values trusted : String → Option (FieldData ω)) : Except PyError (List (String × FieldState)) :=
  (order arrangement config).map fun names =>
    ((rules lib config trusted).run names (withLocked config (stored trusted) values)).2

end States

end FormRules
end Biggy
