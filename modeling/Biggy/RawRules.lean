import Biggy.FormRules

/-!
# Rules as they are stored

`references` and `matches` work on what `json.loads` made of the rules and raise on trees of another shape. On the trees of
rules that `validate` accepts they do what they do on conditions, and only `str` of a value can raise.
-/
namespace Biggy
namespace FormRules
namespace Raw

/-- What the rules call, with a `str` that can raise. -/
structure Lib (ω : Type*) extends PyLib where
  strData : ω → Except PyError String
  strJson : Json → Except PyError String
  digit : Char → Option ℕ
  fits : ℕ → ℤ → Bool

/-- How many digits of an integer the interpreter converts. -/
@[irreducible] def strDigits : ℕ := 4300

/-- The first number that has more. -/
def strBound : ℕ := 10^strDigits

/-- `str` of an integer. -/
def strInt (n : ℤ) : Except PyError String :=
  if strBound ≤ n.natAbs then
    .error (.valueError "Exceeds the limit (4300 digits) for integer string conversion; use sys.set_int_max_str_digits() to increase the limit")
  else .ok (toString n)

variable {ω : Type*} (lib : Lib ω)

/-- The library of the conditions: a text that cannot be had is empty. -/
def Lib.form : FormLib ω where
  toPyLib := lib.toPyLib
  strData o := (lib.strData o).toOption.getD ""
  digit := lib.digit
  fits := lib.fits

/-! ### References -/

/-- `references` of a text: what is not empty has no `get`, and no text as its index. -/
def referencesText (s : String) : Except PyError (List Json) :=
  if s = "" then .ok [] else if isIn "field" s then .error .typeError else .error .attributeError

/-- `set().union(*sets)`. -/
def union : List (Except PyError (List Json)) → Except PyError (List Json)
  | [] => .ok []
  | .error e::_ => .error e
  | .ok names::rest => (union rest).map (names++·)

/-- `{value}`. -/
def single : Json → Except PyError (List Json)
  | .arr _ => .error .typeError
  | .obj _ => .error .typeError
  | value => .ok [value]

/-- `value == s`. -/
def isText (s : String) : Json → Bool
  | .str t => t = s
  | _ => false

mutual

/-- `references`. -/
def references : Json → Except PyError (List Json)
  | .obj members =>
    match members.lookup "field" with
    | some field => single field
    | none => ((referencesUnder "all" members).or (referencesUnder "any" members)).getD (.ok [])
  | .arr items =>
    if items.isEmpty then .ok [] else if items.any (isText "field") then .error .typeError else .error .attributeError
  | .str s => referencesText s
  | node => if node.truthy then .error .typeError else .ok []

/-- The references of what a node holds under a key. -/
def referencesUnder (key : String) : List (String × Json) → Option (Except PyError (List Json))
  | [] => none
  | (name,children)::members =>
    if name = key then some (referencesIn children) else referencesUnder key members

/-- The references of what is gone through. -/
def referencesIn : Json → Except PyError (List Json)
  | .arr items => union (referencesEach items)
  | .obj members => union (members.map fun p => referencesText p.1)
  | .str s => union (s.toList.map fun c => referencesText (String.singleton c))
  | _ => .error .typeError

def referencesEach : List Json → List (Except PyError (List Json))
  | [] => []
  | item::items => references item::referencesEach items

end

/-! ### Matching -/

/-- `text` of a value. -/
def dataText : FieldData ω → Except PyError String
  | .none => .ok ""
  | .bool b => .ok (if b then "true" else "false")
  | .text s => .ok s
  | .other o => lib.strData o

/-- `text` of what a condition compares with. -/
def jsonText : Json → Except PyError String
  | .null => .ok ""
  | .bool b => .ok (if b then "true" else "false")
  | .str s => .ok s
  | .int n => strInt n
  | .float x => .ok (lib.strOther (.float x))
  | value => lib.strJson value

/-- The comparison that an operator stands for. -/
def operator : Json → Except PyError Op
  | .str s =>
    match readOp s with
    | some op => .ok op
    | none => .error .keyError
  | .arr _ => .error .typeError
  | .obj _ => .error .typeError
  | _ => .error .keyError

/-- The comparison at the end of `matches`. -/
def compareTexts (isNumeric : Bool) (op : Json) (left right : String) : Except PyError Bool :=
  if isText "empty" op then .ok (left = "")
  else if isText "not_empty" op then .ok (left ≠ "")
  else if isText "contains" op then .ok (isIn right left)
  else if isNumeric then
    match number lib.form left, number lib.form right with
    | some left, some right => (operator op).map fun op => op.test left right
    | _, _ => .ok false
  else (operator op).map fun op => op.test left right

section Matches

variable (types : String → Bool) (values : String → Option (FieldData ω))

/-- `matches` of a leaf. -/
def leafMatches (node : List (String × Json)) : Except PyError Bool :=
  match node.lookup "field", node.lookup "op" with
  | some name, some op =>
    match name with
    | .arr _ => .error .typeError
    | .obj _ => .error .typeError
    | .str name =>
      match values name with
      | none => .ok false
      | some data =>
        match dataText lib data with
        | .error e => .error e
        | .ok left =>
          match jsonText lib ((node.lookup "value").getD (.str "")) with
          | .error e => .error e
          | .ok right => compareTexts lib (types name) op left right
    | _ => .ok false
  | _, _ => .error .keyError

/-- `all` or `any` of what is gone through. -/
def quantify (universal : Bool) : List (Except PyError Bool) → Except PyError Bool
  | [] => .ok universal
  | .error e::_ => .error e
  | .ok b::rest => if b = universal then quantify universal rest else .ok b

mutual

/-- `matches`. -/
def nodeMatches : Json → Except PyError Bool
  | .obj members =>
    ((matchesUnder "all" true members).or (matchesUnder "any" false members)).getD (leafMatches lib types values members)
  | _ => .error .typeError

/-- The conditions that a node holds under a key. -/
def matchesUnder (key : String) (universal : Bool) : List (String × Json) → Option (Except PyError Bool)
  | [] => none
  | (name,children)::members =>
    if name = key then some (matchesIn universal children) else matchesUnder key universal members

/-- The conditions of what is gone through; a text is none. -/
def matchesIn (universal : Bool) : Json → Except PyError Bool
  | .arr items => quantify universal (matchesEach items)
  | .obj members => if members.isEmpty then .ok universal else .error .typeError
  | .str s => if s = "" then .ok universal else .error .typeError
  | _ => .error .typeError

def matchesEach : List Json → List (Except PyError Bool)
  | [] => []
  | item::items => nodeMatches item::matchesEach items

end

end Matches

/-! ### What is accepted -/

section Accepted

variable {lib : Lib ω} {fields : List MetaField} {target : String}

/-- The members of a leaf that is accepted. -/
structure LeafShape (lib : Lib ω) (members : List (String × Json)) (l : Leaf) : Prop where
  field : members.lookup "field" = some (.str l.field)
  op : ∃ s, members.lookup "op" = some (.str s) ∧ readOp s = some l.op
  value : readLiteral ((members.lookup "value").getD (.str "")) = some l.value
  short : (strLiteral lib.form l.value).length ≤ 1000

theorem readLeaf_shape {members : List (String × Json)} {node : Node}
    (h : readLeaf lib.form fields target members = .ok node) : ∃ l, node = .leaf l ∧ LeafShape lib members l := by
  rw [readLeaf] at h
  split at h
  · cases h
  rename_i name hname
  split at h
  · cases h
  rename_i field hfield
  obtain ⟨s,rfl,hfind⟩ := Option.bind_eq_some_iff.mp hfield
  have hs : field.physName = s := by simpa using List.find?_some hfind
  split at h
  · cases h
  split at h
  · cases h
  rename_i opName hop
  split at h
  · cases h
  rename_i op hread
  obtain ⟨o,rfl,hread⟩ := Option.bind_eq_some_iff.mp hread
  split at h
  · cases h
  split at h
  · cases h
  split at h
  · cases h
  split at h
  · cases h
  rename_i value hvalue
  split at h
  · cases h
  rename_i hshort
  have hshape : LeafShape lib members ⟨field.physName,op,value⟩ :=
    ⟨by rw [hs]; exact Json.lookup_of_get (readName_some hname) (by simp),
      ⟨o,Json.lookup_of_get (readName_some hop) (by simp),hread⟩,hvalue,
      not_lt.mp hshort⟩
  have hnode : node = .leaf ⟨field.physName,op,value⟩ := by
    split at h
    · split at h
      · cases h
      · split at h
        · exact (Except.ok.inj h).symm
        · cases h
    · exact (Except.ok.inj h).symm
  exact ⟨_,hnode,hshape⟩

/-- The shapes of an accepted node: a group of accepted nodes and nothing else, or a leaf. -/
inductive Shape (lib : Lib ω) (accepts : Json → Node → Prop) : Json → Node → Prop
  | all {members children nodes} : members.lookup "field" = none → members.lookup "all" = some (.arr children) →
    List.Forall₂ accepts children nodes → Shape lib accepts (.obj members) (.all nodes)
  | any {members children nodes} : members.lookup "field" = none → members.lookup "all" = none →
    members.lookup "any" = some (.arr children) → List.Forall₂ accepts children nodes →
    Shape lib accepts (.obj members) (.any nodes)
  | leaf {members l} : members.lookup "all" = none → members.lookup "any" = none → LeafShape lib members l →
    Shape lib accepts (.obj members) (.leaf l)

theorem readNode_shape {levels : ℕ} {json : Json} {node : Node}
    (h : readNode lib.form fields target (levels+1) json = .ok node) :
    Shape lib (fun json node => readNode lib.form fields target levels json = .ok node) json node := by
  obtain ⟨members,rfl,⟨children,nodes,hgroup,hnodes,rfl⟩ | ⟨hall,children,nodes,hgroup,hnodes,rfl⟩ | ⟨hall,hany,hleaf⟩⟩ :=
    readNode_cases h
  · obtain ⟨hchildren,honly⟩ := readGroup_ok hgroup
    exact .all (honly "field" (by decide)) hchildren (Outcome.mapM_ok hnodes)
  · obtain ⟨hchildren,honly⟩ := readGroup_ok hgroup
    exact .any (honly "field" (by decide)) hall hchildren (Outcome.mapM_ok hnodes)
  · obtain ⟨l,rfl,hshape⟩ := readLeaf_shape hleaf
    exact .leaf hall hany hshape

/-! ### References of what is accepted -/

theorem referencesUnder_eq (key : String) (members : List (String × Json)) :
    referencesUnder key members = (members.lookup key).map referencesIn := by
  induction members with
  | nil => rw [referencesUnder,List.lookup_nil,Option.map_none]
  | cons p members ih =>
    obtain ⟨name,children⟩ := p
    rw [referencesUnder,List.lookup_cons,ih]
    by_cases hname : name = key
    · simp [hname]
    · have hbeq : (key == name) = false := by simpa using Ne.symm hname
      simp [hname,hbeq]

theorem referencesEach_eq (items : List Json) : referencesEach items = items.map references := by
  induction items with
  | nil => rw [referencesEach,List.map_nil]
  | cons item items ih => rw [referencesEach,ih,List.map_cons]

theorem union_pairs {children : List Json} {nodes : List Node}
    (h : List.Forall₂ (fun json node => references json = .ok ((FormRules.references node).map Json.str)) children nodes) :
    union (children.map references) = .ok (((Node.leavesOf nodes).map Leaf.field).map Json.str) := by
  induction h with
  | nil => rw [Node.leavesOf]; rfl
  | cons hnode _ ih =>
    rw [List.map_cons,hnode,union,ih,Node.leavesOf]
    simp only [Except.map,FormRules.references,List.map_append]

/-- The references of an accepted tree are the fields of its conditions. -/
theorem references_accepted {levels : ℕ} {json : Json} {node : Node}
    (h : readNode lib.form fields target levels json = .ok node) :
    references json = .ok ((FormRules.references node).map Json.str) := by
  induction levels generalizing json node with
  | zero =>
    rw [readNode.eq_def] at h
    cases h
  | succ levels ih =>
    cases readNode_shape h with
    | all hfield hall hchildren =>
      rw [references,hfield,referencesUnder_eq,hall]
      dsimp only [Option.map_some,Option.some_or,Option.getD_some]
      rw [referencesIn,referencesEach_eq,union_pairs (hchildren.imp fun _ _ => ih),FormRules.references,Node.leaves]
    | any hfield hall hany hchildren =>
      rw [references,hfield,referencesUnder_eq,referencesUnder_eq,hall,hany]
      dsimp only [Option.map_some,Option.map_none,Option.none_or,Option.getD_some]
      rw [referencesIn,referencesEach_eq,union_pairs (hchildren.imp fun _ _ => ih),FormRules.references,Node.leaves]
    | leaf hall hany hleaf =>
      rw [references,hleaf.field,FormRules.references,Node.leaves]
      rfl

/-! ### Matching what is accepted -/

variable {types : String → Bool} {values : String → Option (FieldData ω)}

theorem matchesUnder_eq (key : String) (universal : Bool) (members : List (String × Json)) :
    matchesUnder lib types values key universal members = (members.lookup key).map (matchesIn lib types values universal) := by
  induction members with
  | nil => rw [matchesUnder,List.lookup_nil,Option.map_none]
  | cons p members ih =>
    obtain ⟨name,children⟩ := p
    rw [matchesUnder,List.lookup_cons,ih]
    by_cases hname : name = key
    · simp [hname]
    · have hbeq : (key == name) = false := by simpa using Ne.symm hname
      simp [hname,hbeq]

theorem matchesEach_eq (items : List Json) : matchesEach lib types values items = items.map (nodeMatches lib types values) := by
  induction items with
  | nil => rw [matchesEach,List.map_nil]
  | cons item items ih => rw [matchesEach,ih,List.map_cons]

/-- A short text stands for a small integer. -/
theorem natAbs_of_length {n : ℤ} {k : ℕ} (hk : 0 < k) (h : (toString n).length ≤ k) : n.natAbs < 10^k := by
  cases n with
  | ofNat m =>
    have htext : toString (Int.ofNat m) = Nat.repr m := rfl
    rw [htext] at h
    exact (Nat.length_repr_le_iff hk).mp h
  | negSucc m =>
    have htext : toString (Int.negSucc m) = "-"++Nat.repr (m+1) := rfl
    rw [htext,String.length_append] at h
    have hlength : (Nat.repr (m+1)).length ≤ k := by omega
    exact (Nat.length_repr_le_iff hk).mp hlength

theorem strInt_short {n : ℤ} (h : (toString n).length ≤ 1000) : strInt n = .ok (toString n) := by
  have hpos : 0 < strDigits := by
    rw [strDigits]
    decide
  have hdigits : (toString n).length ≤ strDigits := by
    rw [strDigits]
    exact h.trans (by decide)
  have hbound : n.natAbs < strBound := natAbs_of_length hpos hdigits
  rw [strInt,if_neg (not_le.mpr hbound)]

theorem jsonText_accepted {members : List (String × Json)} {l : Leaf} (h : LeafShape lib members l) :
    jsonText lib ((members.lookup "value").getD (.str "")) = .ok (literalText lib.form l.value) := by
  have hvalue := h.value
  have hshort := h.short
  revert hvalue
  cases (members.lookup "value").getD (.str "") with
  | str s => exact fun hvalue => by rw [← Option.some.inj hvalue]; rfl
  | bool b => exact fun hvalue => by rw [← Option.some.inj hvalue]; rfl
  | float x => exact fun hvalue => by rw [← Option.some.inj hvalue]; rfl
  | int n =>
    intro hvalue
    rw [← Option.some.inj hvalue] at hshort ⊢
    exact strInt_short hshort
  | _ => exact fun hvalue => by cases hvalue

/-- A comparison by its operator, which fails where a number is missing. -/
theorem compareTexts_compared {json : Json} {op : Op} (h : operator json = .ok op)
    (hplain : ∀ s ∈ ["empty","not_empty","contains"], isText s json = false) (isNumeric : Bool) (left right : String) :
    compareTexts lib isNumeric json left right =
      .ok (if isNumeric then op.testNumbers (number lib.form left) (number lib.form right) else op.test left right) := by
  have hempty := hplain "empty" (by simp)
  have hfull := hplain "not_empty" (by simp)
  have hcontains := hplain "contains" (by simp)
  simp only [compareTexts,hempty,hfull,hcontains,h,Except.map,Bool.false_eq_true,if_false]
  cases isNumeric with
  | false => rfl
  | true => cases number lib.form left <;> cases number lib.form right <;> rfl

/-- An operator as it is written. -/
def opName : Op → String
  | .eq => "eq" | .ne => "ne" | .empty => "empty" | .notEmpty => "not_empty" | .contains => "contains"
  | .gt => "gt" | .gte => "gte" | .lt => "lt" | .lte => "lte"

theorem readOp_name {s : String} {op : Op} (h : readOp s = some op) : s = opName op := by
  unfold readOp at h
  split at h
  case h_10 => cases h
  all_goals
    obtain rfl := Option.some.inj h
    rfl

theorem compareTexts_accepted {s : String} {op : Op} (h : readOp s = some op) (isNumeric : Bool) (left right : String) :
    compareTexts lib isNumeric (.str s) left right = .ok (testLeaf lib.form isNumeric op left right) := by
  rw [readOp_name h]
  cases op with
  | empty => rfl
  | notEmpty => rfl
  | contains => rfl
  | eq => exact compareTexts_compared rfl (by decide) isNumeric left right
  | ne => exact compareTexts_compared rfl (by decide) isNumeric left right
  | gt => exact compareTexts_compared rfl (by decide) isNumeric left right
  | gte => exact compareTexts_compared rfl (by decide) isNumeric left right
  | lt => exact compareTexts_compared rfl (by decide) isNumeric left right
  | lte => exact compareTexts_compared rfl (by decide) isNumeric left right

/-- `str` of the value of a field that the conditions of a node read raises. -/
def Raises (lib : Lib ω) (values : String → Option (FieldData ω)) (node : Node) (e : PyError) : Prop :=
  ∃ l ∈ node.leaves, ∃ o, values l.field = some (.other o) ∧ lib.strData o = .error e

theorem leafMatches_accepted {members : List (String × Json)} {l : Leaf} (h : LeafShape lib members l) :
    leafMatches lib types values members = .ok (FormRules.leafMatches lib.form types values l) ∨
      ∃ e, leafMatches lib types values members = .error e ∧ Raises lib values (.leaf l) e := by
  obtain ⟨s,hop,hread⟩ := h.op
  have hright := jsonText_accepted h
  rw [leafMatches,h.field,hop,FormRules.leafMatches]
  dsimp only
  cases hdata : values l.field with
  | none => exact Or.inl rfl
  | some data =>
    dsimp only
    cases htext : dataText lib data with
    | error e =>
      refine Or.inr ⟨e,rfl,l,by simp [Node.leaves],?_⟩
      cases data with
      | other o => exact ⟨o,hdata,htext⟩
      | _ => cases htext
    | ok left =>
      have hleft : FormRules.dataText lib.form data = left := by
        cases data with
        | other o => simp only [FormRules.dataText,Lib.form,show lib.strData o = .ok left from htext,Except.toOption,Option.getD_some]
        | _ => exact Except.ok.inj htext
      rw [hright,hleft]
      exact Or.inl (compareTexts_accepted hread _ _ _)

/-- The results of accepted nodes, one after the other. -/
theorem quantify_accepted {universal : Bool} {results : List (Except PyError Bool)} {nodes : List Node} {test : Leaf → Bool}
    (h : List.Forall₂ (fun result node => result = .ok (node.holds test) ∨ ∃ e, result = .error e ∧ Raises lib values node e)
      results nodes) :
    quantify universal results = .ok (if universal then Node.allHold test nodes else Node.anyHolds test nodes) ∨
      ∃ e, quantify universal results = .error e ∧ ∃ node ∈ nodes, Raises lib values node e := by
  induction h with
  | nil =>
    rw [quantify,Node.allHold,Node.anyHolds]
    cases universal <;> exact Or.inl rfl
  | @cons result node results nodes hnode _ ih =>
    rcases hnode with rfl | ⟨e,rfl,hraises⟩
    · rw [quantify,Node.allHold,Node.anyHolds]
      by_cases hsame : node.holds test = universal
      · rw [if_pos hsame,hsame]
        rcases ih with hok | ⟨e,herror,child,hchild,hraises⟩
        · rw [hok]
          cases universal <;> exact Or.inl rfl
        · exact Or.inr ⟨e,herror,child,List.mem_cons_of_mem _ hchild,hraises⟩
      · rw [if_neg hsame]
        rw [← Bool.not_eq_not,not_not] at hsame
        rw [hsame]
        cases universal <;> exact Or.inl rfl
    · exact Or.inr ⟨e,rfl,node,List.mem_cons_self,hraises⟩

theorem raises_child {nodes : List Node} {node : Node} {e : PyError} (hnode : node ∈ nodes) (h : Raises lib values node e) :
    ∃ l ∈ Node.leavesOf nodes, ∃ o, values l.field = some (.other o) ∧ lib.strData o = .error e := by
  obtain ⟨l,hl,ho⟩ := h
  refine ⟨l,?_,ho⟩
  clear ho
  induction nodes with
  | nil => cases hnode
  | cons first nodes ih =>
    rw [Node.leavesOf]
    rcases List.mem_cons.mp hnode with rfl | hnode
    · exact List.mem_append_left _ hl
    · exact List.mem_append_right _ (ih hnode)

variable (types values) in
/-- An accepted tree matches as its conditions hold, or `str` of a value that they read raises. -/
theorem nodeMatches_accepted {levels : ℕ} {json : Json} {node : Node}
    (h : readNode lib.form fields target levels json = .ok node) :
    nodeMatches lib types values json = .ok (node.holds (FormRules.leafMatches lib.form types values)) ∨
      ∃ e, nodeMatches lib types values json = .error e ∧ Raises lib values node e := by
  induction levels generalizing json node with
  | zero =>
    rw [readNode.eq_def] at h
    cases h
  | succ levels ih =>
    have hresults {children : List Json} {nodes : List Node}
        (hchildren : List.Forall₂ (fun json node => readNode lib.form fields target levels json = .ok node) children nodes)
        (universal : Bool) := @quantify_accepted ω lib values universal _ nodes (FormRules.leafMatches lib.form types values)
          (List.forall₂_map_left_iff.mpr (hchildren.imp fun _ _ => ih))
    cases readNode_shape h with
    | all hfield hall hchildren =>
      rw [nodeMatches,matchesUnder_eq,hall]
      dsimp only [Option.map_some,Option.some_or,Option.getD_some]
      rw [matchesIn,matchesEach_eq,Node.holds]
      rcases hresults hchildren true with hok | ⟨e,herror,child,hchild,hraises⟩
      · exact Or.inl hok
      · exact Or.inr ⟨e,herror,by rw [Raises,Node.leaves]; exact raises_child hchild hraises⟩
    | any hfield hall hany hchildren =>
      rw [nodeMatches,matchesUnder_eq,matchesUnder_eq,hall,hany]
      dsimp only [Option.map_some,Option.map_none,Option.none_or,Option.getD_some]
      rw [matchesIn,matchesEach_eq,Node.holds]
      rcases hresults hchildren false with hok | ⟨e,herror,child,hchild,hraises⟩
      · exact Or.inl hok
      · exact Or.inr ⟨e,herror,by rw [Raises,Node.leaves]; exact raises_child hchild hraises⟩
    | leaf hall hany hleaf =>
      rw [nodeMatches,matchesUnder_eq,matchesUnder_eq,hall,hany,Node.holds]
      exact leafMatches_accepted hleaf

theorem validate_reads {rules : Json} {accepted : Rules} (h : validate lib.form rules fields target = .ok accepted) :
    ∃ members, parseRules lib.form rules = .ok members ∧ ∀ key tree, members.lookup key = some tree →
      ∃ node, readNode lib.form fields target 6 tree = .ok node := by
  rw [validate] at h
  split at h
  · cases h
  · rename_i members hmembers
    refine ⟨members,hmembers,fun key tree htree => ?_⟩
    obtain ⟨trees,htrees,-⟩ := Outcome.map_ok h
    have hkey : key ∈ (members.map Prod.fst).eraseDups := by
      obtain ⟨before,after,hsplit,-⟩ := List.lookup_eq_some_iff.mp htree
      rw [List.mem_eraseDups,hsplit]
      simp
    obtain ⟨pair,-,hpair⟩ := Outcome.mapM_into htrees hkey
    obtain ⟨node,hnode,-⟩ := Outcome.map_ok hpair
    rw [Json.get,htree,Option.getD_some] at hnode
    exact ⟨node,hnode⟩

end Accepted

/-- On the trees of accepted rules `references` never raises, and `matches` raises only what `str` raises on the value of
a field that the tree refers to. -/
theorem accepted_raises {ω : Type*} (lib : Lib ω) {rules : Json} {fields : List MetaField} {target : String} {accepted : Rules}
    (h : validate lib.form rules fields target = .ok accepted) :
    ∃ members, parseRules lib.form rules = .ok members ∧ ∀ key tree, members.lookup key = some tree →
      ∃ names, references tree = .ok names ∧
        ∀ (types : String → Bool) (values : String → Option (FieldData ω)) (e : PyError),
          nodeMatches lib types values tree = .error e →
            ∃ name o, Json.str name ∈ names ∧ values name = some (.other o) ∧ lib.strData o = .error e := by
  obtain ⟨members,hmembers,htrees⟩ := validate_reads h
  refine ⟨members,hmembers,fun key tree htree => ?_⟩
  obtain ⟨node,hnode⟩ := htrees key tree htree
  refine ⟨_,references_accepted hnode,fun types values e herror => ?_⟩
  rcases nodeMatches_accepted types values hnode with hok | ⟨e',herror',l,hl,o,hvalue,hstr⟩
  · rw [hok] at herror
    cases herror
  · obtain rfl := Except.error.inj (herror'.symm.trans herror)
    exact ⟨l.field,o,List.mem_map_of_mem (List.mem_map_of_mem hl),hvalue,hstr⟩

/-! ### A long integer -/

/-- Data of integers. -/
def intLib : Lib ℤ where
  strOther _ := ""
  float _ := none
  int _ := none
  isAlnum := Char.isAlphanum
  loads _ := .error (.valueError "Expecting value")
  strData := strInt
  strJson _ := .ok ""
  digit := Numerals.asciiDigit
  fits _ _ := true

/-- The condition that `n` is one. -/
def oneTree : Json := .obj [("field",.str "n"),("op",.str "eq"),("value",.str "1")]

def numberField : MetaField where
  id := 1
  physName := "n"
  label := "Number"
  dataType := .integer

def oneRules : Rules where
  shown := some (.leaf ⟨"n",.eq,.text "1"⟩)

theorem validate_oneTree : validate intLib.form (.obj [("show",oneTree)]) [numberField] "b" = .ok oneRules := rfl

theorem dataText_int (n : ℤ) : dataText intLib (.other n) = strInt n := rfl

theorem strInt_bound : strInt (strBound : ℤ) =
    .error (.valueError "Exceeds the limit (4300 digits) for integer string conversion; use sys.set_int_max_str_digits() to increase the limit") := by
  rw [strInt,if_pos]
  rw [Int.natAbs_natCast]

/-- An accepted condition is compared with an integer of 4301 digits. -/
theorem oneTree_raises : validate intLib.form (.obj [("show",oneTree)]) [numberField] "b" = .ok oneRules ∧
    nodeMatches intLib (fun name => name = "n") (fun name => if name = "n" then some (.other (strBound : ℤ)) else none) oneTree =
      .error (.valueError "Exceeds the limit (4300 digits) for integer string conversion; use sys.set_int_max_str_digits() to increase the limit") := by
  refine ⟨validate_oneTree,?_⟩
  simp [nodeMatches,oneTree,matchesUnder_eq,leafMatches,List.lookup_cons,dataText_int,strInt_bound]

/-- A shorter integer raises nothing. -/
theorem oneTree_silent : ∃ members, parseRules intLib.form (.obj [("show",oneTree)]) = .ok members ∧
    ∀ tree, members.lookup "show" = some tree →
      ∀ e, nodeMatches intLib (fun name => name = "n") (fun _ => some (.other 1)) tree ≠ .error e := by
  obtain ⟨members,hmembers,htrees⟩ := accepted_raises intLib validate_oneTree
  refine ⟨members,hmembers,fun tree htree e herror => ?_⟩
  obtain ⟨names,-,hraises⟩ := htrees "show" tree htree
  obtain ⟨name,o,-,hvalue,hstr⟩ := hraises _ _ e herror
  obtain rfl := FieldData.other.inj (Option.some.inj hvalue)
  rw [show intLib.strData 1 = .ok (toString (1:ℤ)) from strInt_short (by decide)] at hstr
  cases hstr

end Raw
end FormRules
end Biggy
