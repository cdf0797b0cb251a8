import Biggy.RuleMapping
import Biggy.TemplateTrip

/-!
# Conditions on other fields

`remap` puts the fields that were chosen in the places of a template's own. A condition that is accepted on the chosen fields
is the template's condition, accepted on its own fields, with the names exchanged.
-/
namespace Biggy
namespace FormTemplates

open FormRules FormDesign

/-! ### Leaves -/

section Leaf

variable {ω : Type*} {lib : FormLib ω}

/-- The operator and the value of a leaf on a field of a type. -/
def readTest (lib : FormLib ω) (t : DataType) (node : Members) : Except PyError (Op × Literal) :=
  match readName (Json.get node "op") with
  | .error e => .error e
  | .ok opName =>
    match opName.bind readOp with
    | none => .error (.valueError "Choose another field on this form and a supported operator.")
    | some op =>
      if uncontrolled t then .error (.valueError "This field type cannot control a condition.")
      else if ordering op ∧ ¬numeric t then .error (.valueError "Numeric comparisons require a numeric field.")
      else if op = .contains ∧ ¬textual t then .error (.valueError "Contains requires a text field.")
      else
        match readLiteral ((node.lookup "value").getD (.str "")) with
        | none => .error (.valueError "Condition values must be short scalar values.")
        | some value =>
          if 1000 < (strLiteral lib value).length then
            .error (.valueError "Condition values must be short scalar values.")
          else if ¬(op = .empty ∨ op = .notEmpty) ∧ numeric t then
            match decimal lib (strLiteral lib value) with
            | none => .error (.valueError "Use a numeric condition value.")
            | some d => if d.toRat.isSome then .ok (op,value) else .error (.valueError "Use a finite number.")
          else .ok (op,value)

theorem readLeaf_found {fields : List MetaField} {target name : String} {node : Members} {f : MetaField}
    (hname : Json.get node "field" = .str name) (hfind : Keyed.find MetaField.physName name fields = some f)
    (htarget : f.physName ≠ target) : readLeaf lib fields target node =
      (readTest lib f.dataType node).map fun test => .leaf ⟨f.physName,test.1,test.2⟩ := by
  have hread : readName (.str name) = .ok (some name) := rfl
  rw [readLeaf,hname,hread]
  dsimp only [Option.bind_some]
  rw [hfind]
  dsimp only
  rw [if_neg htarget,readTest]
  cases readName (Json.get node "op") with
  | error e => rfl
  | ok opName =>
    dsimp only
    cases opName.bind readOp with
    | none => rfl
    | some op =>
      dsimp only
      by_cases huncontrolled : uncontrolled f.dataType = true
      · rw [if_pos huncontrolled,if_pos huncontrolled]
        rfl
      rw [if_neg huncontrolled,if_neg huncontrolled]
      by_cases hordering : ordering op = true ∧ ¬numeric f.dataType = true
      · rw [if_pos hordering,if_pos hordering]
        rfl
      rw [if_neg hordering,if_neg hordering]
      by_cases hcontains : op = .contains ∧ ¬textual f.dataType = true
      · rw [if_pos hcontains,if_pos hcontains]
        rfl
      rw [if_neg hcontains,if_neg hcontains]
      cases readLiteral ((node.lookup "value").getD (.str "")) with
      | none => rfl
      | some value =>
        dsimp only
        by_cases hlong : 1000 < (strLiteral lib value).length
        · rw [if_pos hlong,if_pos hlong]
          rfl
        rw [if_neg hlong,if_neg hlong]
        by_cases hnumber : ¬(op = .empty ∨ op = .notEmpty) ∧ numeric f.dataType = true
        · rw [if_pos hnumber,if_pos hnumber]
          cases decimal lib (strLiteral lib value) with
          | none => rfl
          | some d =>
            dsimp only
            split_ifs <;> rfl
        · rw [if_neg hnumber,if_neg hnumber]
          rfl

/-- A leaf is accepted for a field of the form that is another one than the target. -/
theorem readLeaf_iff {fields : List MetaField} {target : String} {node : Members} {n : Node} :
    readLeaf lib fields target node = .ok n ↔ ∃ name f test, Json.get node "field" = .str name ∧
      Keyed.find MetaField.physName name fields = some f ∧ f.physName ≠ target ∧ readTest lib f.dataType node = .ok test ∧
        n = .leaf ⟨f.physName,test.1,test.2⟩ := by
  constructor
  · intro h
    have hshape := h
    rw [readLeaf] at hshape
    split at hshape
    · cases hshape
    rename_i name hname
    split at hshape
    · cases hshape
    rename_i f hf
    obtain ⟨text,rfl,hfind⟩ := Option.bind_eq_some_iff.mp hf
    have hget := readName_some hname
    by_cases htarget : f.physName = target
    · rw [if_pos htarget] at hshape
      cases hshape
    · rw [readLeaf_found hget hfind htarget] at h
      obtain ⟨test,htest,rfl⟩ := Outcome.map_ok h
      exact ⟨text,f,test,hget,hfind,htarget,htest,rfl⟩
  · rintro ⟨name,f,test,hget,hfind,htarget,htest,rfl⟩
    rw [readLeaf_found hget hfind htarget,htest]
    rfl

theorem lookup_set_self (members : Members) (key : String) (value : Json) :
    (FormDesign.set members key value).lookup key = some value := Keyed.lookup_put_self key value members

theorem lookup_set_other {key other : String} (hne : other ≠ key) (members : Members) (value : Json) :
    (FormDesign.set members key value).lookup other = members.lookup other := Keyed.lookup_put_other hne value members

theorem readTest_set {t : DataType} {node : Members} {value : Json} :
    readTest lib t (FormDesign.set node "field" value) = readTest lib t node := by
  have hop : Json.get (FormDesign.set node "field" value) "op" = Json.get node "op" := get_set_other (by decide) _ _
  have hvalue : (FormDesign.set node "field" value).lookup "value" = node.lookup "value" := lookup_set_other (by decide) _ _
  rw [readTest,readTest,hop,hvalue]

end Leaf

/-! ### Nodes -/

/-- The name of the field that is chosen for a field of the template. -/
def chosenName (mapped : List (String × MetaField)) (name : String) : String :=
  ((mapped.lookup name).map MetaField.physName).getD name

/-- A chosen field that is on the form was chosen for a field of the template, of its type. -/
def Corresponds (mapped : List (String × MetaField)) (used used' : List MetaField) : Prop :=
  ∀ name f g, mapped.lookup name = some f → Keyed.find MetaField.physName f.physName used' = some g →
    ∃ s, Keyed.find MetaField.physName name used = some s ∧ s.dataType = g.dataType

section Nodes

variable {ω : Type*} {lib : FormLib ω} {mapped : List (String × MetaField)} {used used' : List MetaField} {target : String}

theorem chosenName_eq {name : String} {f : MetaField} (h : mapped.lookup name = some f) : chosenName mapped name = f.physName := by
  rw [chosenName,h]
  rfl

/-- The leaf of a chosen field is a leaf of the template. -/
theorem readLeaf_chosen (hused : Corresponds mapped used used') {members : Members} {name : String} {f : MetaField} {n : Node}
    (hname : Json.get members "field" = .str name) (hf : mapped.lookup name = some f)
    (h : readLeaf lib used' (chosenName mapped target) (FormDesign.set members "field" (.str f.physName)) = .ok n) :
    ∃ m, readLeaf lib used target members = .ok m ∧ n = m.mapFields (chosenName mapped) := by
  obtain ⟨name',g,test,hget,hfind,htarget,htest,rfl⟩ := readLeaf_iff.mp h
  rw [get_set_self] at hget
  obtain rfl := Json.str.inj hget
  obtain ⟨s,hs,htype⟩ := hused name f g hf hfind
  have hg : g.physName = f.physName := Keyed.key_of_find hfind
  have hsname : s.physName = name := Keyed.key_of_find hs
  rw [readTest_set,← htype] at htest
  refine ⟨.leaf ⟨s.physName,test.1,test.2⟩,readLeaf_iff.mpr ⟨name,s,test,hname,hs,?_,htest,rfl⟩,?_⟩
  · rw [hsname]
    rintro rfl
    exact htarget (hg.trans (chosenName_eq hf).symm)
  · rw [Node.mapFields,Leaf.mapField,hsname,chosenName_eq hf,hg]

theorem remapItems_pairs {items items' : List Json} (h : remapItems mapped items = .ok items') :
    List.Forall₂ (fun item item' => remap mapped item = .ok item') items items' := by
  induction items generalizing items' with
  | nil =>
    rw [remapItems] at h
    obtain rfl := Except.ok.inj h
    exact .nil
  | cons item items ih =>
    rw [remapItems] at h
    cases hitem : remap mapped item with
    | error e =>
      rw [hitem] at h
      cases h
    | ok first =>
      cases hitems : remapItems mapped items with
      | error e =>
        rw [hitem,hitems] at h
        cases h
      | ok rest =>
        rw [hitem,hitems] at h
        obtain rfl := Except.ok.inj h
        exact .cons hitem (ih hitems)

/-- Children that are a list afterwards were one before. -/
theorem remapChildren_list {value : Json} {items' : List Json} (h : remapChildren mapped value = .ok (.arr items')) :
    ∃ items, value = .arr items ∧ List.Forall₂ (fun item item' => remap mapped item = .ok item') items items' := by
  cases value with
  | arr items =>
    rw [remapChildren] at h
    obtain ⟨mappedItems,hitems,harr⟩ := Outcome.map_ok h
    obtain rfl := Json.arr.inj harr
    exact ⟨items,rfl,remapItems_pairs hitems⟩
  | obj members =>
    cases members with
    | nil =>
      rw [remapChildren] at h
      cases Except.ok.inj h
    | cons p members =>
      rw [remapChildren] at h
      cases h
  | str s =>
    rw [remapChildren] at h
    split_ifs at h
    cases Except.ok.inj h
  | _ =>
    rw [remapChildren] at h
    · cases h
    all_goals simp

/-- What stands under the other keys stays. -/
theorem remapMember_lookup {key : String} {members members' : Members} (h : remapMember mapped key members = .ok members') :
    (∀ other, other ≠ key → members'.lookup other = members.lookup other) ∧
      (members'.lookup key).isSome = (members.lookup key).isSome ∧
      ∀ value', members'.lookup key = some value' →
        ∃ value, members.lookup key = some value ∧ remapChildren mapped value = .ok value' := by
  induction members generalizing members' with
  | nil =>
    rw [remapMember] at h
    obtain rfl := Except.ok.inj h
    exact ⟨fun _ _ => rfl,rfl,fun value' hvalue => by cases hvalue⟩
  | cons p members ih =>
    obtain ⟨name,value⟩ := p
    rw [remapMember] at h
    by_cases hname : name = key
    · rw [if_pos hname] at h
      obtain ⟨value',hvalue,rfl⟩ := Outcome.map_ok h
      subst hname
      refine ⟨fun other hother => ?_,?_,fun found hfound => ?_⟩
      · have hbeq : (other == name) = false := by simpa using hother
        rw [List.lookup_cons,List.lookup_cons,hbeq]
      · rw [List.lookup_cons,List.lookup_cons,beq_self_eq_true]
        rfl
      · rw [List.lookup_cons,beq_self_eq_true] at hfound
        obtain rfl := Option.some.inj hfound
        exact ⟨value,by rw [List.lookup_cons,beq_self_eq_true],hvalue⟩
    · rw [if_neg hname] at h
      obtain ⟨rest,hrest,rfl⟩ := Outcome.map_ok h
      obtain ⟨hsame,hkept,hfound⟩ := ih hrest
      have hbeq : (key == name) = false := by simpa using Ne.symm hname
      refine ⟨fun other hother => ?_,?_,fun value' hvalue => ?_⟩
      · rw [List.lookup_cons,List.lookup_cons,hsame other hother]
      · rw [List.lookup_cons,List.lookup_cons,hbeq]
        exact hkept
      · rw [List.lookup_cons,hbeq] at hvalue ⊢
        exact hfound value' hvalue

theorem readGroup_of {key : String} {node : Members} {children : List Json} (hlookup : node.lookup key = some (.arr children))
    (honly : ∀ name, (node.lookup name).isSome = true → name = key) (hfew : 1 ≤ children.length ∧ children.length ≤ 20) :
    readGroup key node = .ok children := by
  rw [readGroup,hlookup]
  dsimp only
  rw [if_pos ⟨only_iff.mpr honly,hfew⟩]

theorem readGroup_few {key : String} {node : Members} {children : List Json} (h : readGroup key node = .ok children) :
    1 ≤ children.length ∧ children.length ≤ 20 := by
  rw [readGroup] at h
  split at h
  · split_ifs at h with hgroup
    obtain rfl := Except.ok.inj h
    exact hgroup.2
  · cases h

/-- A group of the chosen fields is a group of the template with the children that were mapped. -/
theorem readGroup_chosen {key : String} {members members' : Members} {children' : List Json}
    (hmember : remapMember mapped key members = .ok members') (hgroup : readGroup key members' = .ok children') :
    ∃ children, readGroup key members = .ok children ∧
      List.Forall₂ (fun item item' => remap mapped item = .ok item') children children' := by
  obtain ⟨hlookup',honly'⟩ := readGroup_ok hgroup
  obtain ⟨hsame,-,hfound⟩ := remapMember_lookup hmember
  obtain ⟨value,hvalue,hchildren⟩ := hfound _ hlookup'
  obtain ⟨children,rfl,hpairs⟩ := remapChildren_list hchildren
  refine ⟨children,readGroup_of hvalue (fun name hname => ?_) ?_,hpairs⟩
  · by_contra hne
    rw [← hsame name hne,honly' name hne] at hname
    cases hname
  · rw [hpairs.length_eq]
    exact readGroup_few hgroup

/-- The children that were mapped are read one by one. -/
theorem mapM_chosen {levels : ℕ} {children children' : List Json} {nodes : List Node}
    (hpairs : List.Forall₂ (fun item item' => remap mapped item = .ok item') children children')
    (hread : children'.mapM (readNode lib used' (chosenName mapped target) levels) = .ok nodes)
    (ih : ∀ {tree tree' : Json} {n : Node}, remap mapped tree = .ok tree' →
      readNode lib used' (chosenName mapped target) levels tree' = .ok n →
        ∃ m, readNode lib used target levels tree = .ok m ∧ n = m.mapFields (chosenName mapped)) :
    ∃ sources, children.mapM (readNode lib used target levels) = .ok sources ∧
      nodes = Node.mapFieldsOf (chosenName mapped) sources := by
  induction hpairs generalizing nodes with
  | nil =>
    obtain rfl := Except.ok.inj hread
    exact ⟨[],rfl,rfl⟩
  | cons hitem _ ihrest =>
    rw [List.mapM_cons] at hread
    obtain ⟨n,hn,hrest⟩ := Outcome.bind_ok hread
    obtain ⟨rest,hmap,hpure⟩ := Outcome.bind_ok hrest
    obtain rfl := Except.ok.inj hpure
    obtain ⟨m,hm,rfl⟩ := ih hitem hn
    obtain ⟨sources,hsources,rfl⟩ := ihrest hmap
    refine ⟨m::sources,?_,by rw [Node.mapFieldsOf]⟩
    rw [List.mapM_cons,hm,hsources]
    rfl

/-- A mapped condition has the name of a field changed, or what stands under the key of its group. -/
theorem remap_cases {tree tree' : Json} (h : remap mapped tree = .ok tree') : ∃ members, tree = .obj members ∧
    ((∃ name f, Json.get members "field" = .str name ∧ mapped.lookup name = some f ∧
        tree' = .obj (FormDesign.set members "field" (.str f.physName))) ∨
      (members.lookup "field" = none ∧ ∃ members', tree' = .obj members' ∧
        ((members.lookup "all").isSome = true ∧ remapMember mapped "all" members = .ok members' ∨
          members.lookup "all" = none ∧ remapMember mapped "any" members = .ok members'))) := by
  cases tree with
  | obj members =>
    refine ⟨members,rfl,?_⟩
    rw [remap] at h
    split_ifs at h with hfield hall
    · split at h
      · cases h
      rename_i found hname
      split at h
      · cases h
      rename_i f hf
      obtain ⟨name,rfl,hlookup⟩ := Option.bind_eq_some_iff.mp hf
      exact Or.inl ⟨name,f,readName_some hname,hlookup,(Except.ok.inj h).symm⟩
    · obtain ⟨members',hmember,rfl⟩ := Outcome.map_ok h
      exact Or.inr ⟨Option.not_isSome_iff_eq_none.mp hfield,members',rfl,Or.inl ⟨hall,hmember⟩⟩
    · obtain ⟨members',hmember,rfl⟩ := Outcome.map_ok h
      exact Or.inr ⟨Option.not_isSome_iff_eq_none.mp hfield,members',rfl,
        Or.inr ⟨Option.not_isSome_iff_eq_none.mp hall,hmember⟩⟩
  | _ =>
    rw [remap] at h
    · cases h
    all_goals simp

/-- A mapped condition that is accepted on the chosen fields is the template's own, accepted on its fields. -/
theorem readNode_chosen (hused : Corresponds mapped used used') {levels : ℕ} {tree tree' : Json} {n : Node}
    (hremap : remap mapped tree = .ok tree') (h : readNode lib used' (chosenName mapped target) levels tree' = .ok n) :
    ∃ m, readNode lib used target levels tree = .ok m ∧ n = m.mapFields (chosenName mapped) := by
  induction levels generalizing tree tree' n with
  | zero =>
    rw [readNode.eq_def] at h
    cases h
  | succ levels ih =>
    have hgroup {key : String} {members members' : Members} {children' : List Json} {nodes : List Node}
        (hmember : remapMember mapped key members = .ok members') (hread : readGroup key members' = .ok children')
        (hnodes : children'.mapM (readNode lib used' (chosenName mapped target) levels) = .ok nodes) :
        ∃ children sources, readGroup key members = .ok children ∧
          children.mapM (readNode lib used target levels) = .ok sources ∧ nodes = Node.mapFieldsOf (chosenName mapped) sources := by
      obtain ⟨children,hchildren,hpairs⟩ := readGroup_chosen hmember hread
      obtain ⟨sources,hsources,hmapped⟩ := mapM_chosen hpairs hnodes fun hr hn => ih hr hn
      exact ⟨children,sources,hchildren,hsources,hmapped⟩
    obtain ⟨members,rfl,⟨name,f,hname,hlookup,rfl⟩ | ⟨hfield,members',rfl,⟨hall,hmember⟩ | ⟨hall,hmember⟩⟩⟩ :=
      remap_cases hremap
    · have hset : ((FormDesign.set members "field" (.str f.physName)).lookup "field").isSome = true := by
        rw [lookup_set_self]
        rfl
      -- what names a field is no group
      have hnot : ∀ key, key ≠ "field" → ∀ children,
          readGroup key (FormDesign.set members "field" (.str f.physName)) ≠ .ok children :=
        fun key hkey children hread => absurd ((readGroup_ok hread).2 "field" hkey.symm) (Option.isSome_iff_ne_none.mp hset)
      obtain ⟨_,⟨⟩,⟨children,nodes,hread,-⟩ | ⟨-,children,nodes,hread,-⟩ | ⟨hall,hany,hleaf⟩⟩ := readNode_cases h
      · exact absurd hread (hnot "all" (by decide) _)
      · exact absurd hread (hnot "any" (by decide) _)
      · rw [lookup_set_other (by decide)] at hall hany
        rw [readNode,hall,hany]
        exact readLeaf_chosen hused hname hlookup hleaf
    · have hkept : members'.lookup "all" ≠ none := Option.isSome_iff_ne_none.mp ((remapMember_lookup hmember).2.1.trans hall)
      obtain ⟨_,⟨⟩,⟨children',nodes,hread,hnodes,rfl⟩ | ⟨hnone,-⟩ | ⟨hnone,-⟩⟩ := readNode_cases h
      · obtain ⟨children,sources,hchildren,hsources,rfl⟩ := hgroup hmember hread hnodes
        rw [readNode,if_pos hall,hchildren]
        dsimp only
        rw [hsources]
        exact ⟨.all sources,rfl,by rw [Node.mapFields]⟩
      · exact absurd hnone hkept
      · exact absurd hnone hkept
    · obtain ⟨hsame,hkept,-⟩ := remapMember_lookup hmember
      obtain ⟨_,⟨⟩,⟨children,nodes,hread,-⟩ | ⟨-,children',nodes,hread,hnodes,rfl⟩ | ⟨-,-,hleaf⟩⟩ := readNode_cases h
      · cases (readGroup_ok hread).1.symm.trans ((hsame "all" (by decide)).trans hall)
      · obtain ⟨children,sources,hchildren,hsources,rfl⟩ := hgroup hmember hread hnodes
        have hany : (members.lookup "any").isSome = true := by rw [← hkept,(readGroup_ok hread).1]; rfl
        rw [readNode,hall,if_neg (by decide),if_pos hany,hchildren]
        dsimp only
        rw [hsources]
        exact ⟨.any sources,rfl,by rw [Node.mapFields]⟩
      · -- no leaf without a field is accepted
        obtain ⟨name,f,test,hget,-⟩ := readLeaf_iff.mp hleaf
        rw [Json.get,hsame "field" (by decide),hfield] at hget
        cases hget

/-- Accepted conditions refer to fields of the form. -/
theorem references_read {fields : List MetaField} {levels : ℕ} {tree : Json} {n : Node}
    (h : readNode lib fields target levels tree = .ok n) : ∀ d ∈ references n, ∃ f ∈ fields, f.physName = d := by
  induction levels generalizing tree n with
  | zero =>
    rw [readNode.eq_def] at h
    cases h
  | succ levels ih =>
    have hchildren {children : List Json} {nodes : List Node} (hread : children.mapM (readNode lib fields target levels) = .ok nodes) :
        ∀ d ∈ (Node.leavesOf nodes).map Leaf.field, ∃ f ∈ fields, f.physName = d := by
      have hpairs := Outcome.mapM_ok hread
      clear hread
      induction hpairs with
      | nil =>
        intro d hd
        simp [Node.leavesOf] at hd
      | cons hnode _ ihrest =>
        intro d hd
        rw [Node.leavesOf,List.map_append] at hd
        rcases List.mem_append.mp hd with hd | hd
        · exact ih hnode d hd
        · exact ihrest d hd
    obtain ⟨members,rfl,⟨children,nodes,-,hnodes,rfl⟩ | ⟨-,children,nodes,-,hnodes,rfl⟩ | ⟨-,-,hleaf⟩⟩ := readNode_cases h
    · intro d hd
      rw [references,Node.leaves] at hd
      exact hchildren hnodes d hd
    · intro d hd
      rw [references,Node.leaves] at hd
      exact hchildren hnodes d hd
    · obtain ⟨name,f,test,-,hfind,-,-,rfl⟩ := readLeaf_iff.mp hleaf
      intro d hd
      rw [references,Node.leaves] at hd
      obtain rfl : d = f.physName := by simpa using hd
      exact ⟨f,Keyed.mem_of_find hfind,rfl⟩

end Nodes

/-! ### Rules -/

section Rules

variable {ω : Type*} {lib : DesignLib ω} {mapped : List (String × MetaField)} {used used' : List MetaField} {target : String}

/-- The rules keep their names, and each tree is mapped. -/
theorem remapRules_lookup {seen : List String} {rules rules' : Members} (h : remapRules mapped seen rules = .ok rules') :
    rules'.map Prod.fst = rules.map Prod.fst ∧ ∀ key, key ∉ seen → ∀ tree, rules.lookup key = some tree →
      ∃ tree', remap mapped tree = .ok tree' ∧ rules'.lookup key = some tree' := by
  induction rules generalizing seen rules' with
  | nil =>
    obtain rfl := Except.ok.inj h
    exact ⟨rfl,fun _ _ tree htree => by cases htree⟩
  | cons p rules ih =>
    obtain ⟨name,tree⟩ := p
    rw [remapRules] at h
    by_cases hseen : name ∈ seen
    · rw [if_pos hseen] at h
      obtain ⟨rest,hrest,rfl⟩ := Outcome.map_ok h
      obtain ⟨hnames,hfound⟩ := ih hrest
      refine ⟨by rw [List.map_cons,List.map_cons,hnames],fun key hkey tree' htree => ?_⟩
      have hbeq : (key == name) = false := beq_false_of_ne fun heq => hkey (heq ▸ hseen)
      rw [List.lookup_cons,hbeq] at htree ⊢
      exact hfound key hkey tree' htree
    · rw [if_neg hseen] at h
      cases htree : remap mapped tree with
      | error e =>
        rw [htree] at h
        cases h
      | ok first =>
        cases hrest : remapRules mapped (name::seen) rules with
        | error e =>
          rw [htree,hrest] at h
          cases h
        | ok rest =>
          rw [htree,hrest] at h
          obtain rfl := Except.ok.inj h
          obtain ⟨hnames,hfound⟩ := ih hrest
          refine ⟨by rw [List.map_cons,List.map_cons,hnames],fun key hkey tree' htree' => ?_⟩
          rw [List.lookup_cons] at htree' ⊢
          cases hbeq : key == name with
          | true =>
            rw [hbeq] at htree'
            obtain rfl := Option.some.inj htree'
            exact ⟨first,htree,rfl⟩
          | false =>
            rw [hbeq] at htree'
            have hne : key ≠ name := fun heq => by rw [heq,beq_self_eq_true] at hbeq; cases hbeq
            exact hfound key (fun hmem => (List.mem_cons.mp hmem).elim hne hkey) tree' htree'

theorem remapRules_isSome {rules rules' : Members} (h : remapRules mapped [] rules = .ok rules') (key : String) :
    (rules'.lookup key).isSome = (rules.lookup key).isSome := by
  rw [Bool.eq_iff_iff,lookup_isSome,lookup_isSome,(remapRules_lookup h).1]

theorem remapRules_keys {rules rules' : Members} (hkeys : ∀ p ∈ rules, p.1 ∈ ["show","require","readonly"])
    (hremap : remapRules mapped [] rules = .ok rules') : ∀ p ∈ rules', p.1 ∈ ["show","require","readonly"] := by
  intro p hp
  have hmem : p.1 ∈ rules'.map Prod.fst := List.mem_map_of_mem hp
  rw [(remapRules_lookup hremap).1] at hmem
  obtain ⟨q,hq,hname⟩ := List.mem_map.mp hmem
  exact hname ▸ hkeys q hq

/-- Mapped rules that are accepted on the chosen fields are the template's own, accepted on its fields. -/
theorem validate_chosen (hused : Corresponds mapped used used') {rules rules' : Members}
    (hkeys : ∀ p ∈ rules, p.1 ∈ ["show","require","readonly"]) (hremap : remapRules mapped [] rules = .ok rules')
    {result' : Rules} (h : validate lib.toFormLib (.obj rules') used' (chosenName mapped target) = .ok result') :
    ∃ result, validate lib.toFormLib (.obj rules) used target = .ok result ∧ result' = result.mapFields (chosenName mapped) ∧
      ∀ tree ∈ result.trees, ∀ d ∈ references tree, ∃ f ∈ used, f.physName = d := by
  have hkeys' := remapRules_keys hkeys hremap
  obtain ⟨hall,rfl⟩ := (validate_iff hkeys').mp h
  have htree (key : String) (hkey : (rules.lookup key).isSome = true) : ∃ m,
      treeAt lib.toFormLib used target rules key = .ok m ∧
        treeAt lib.toFormLib used' (chosenName mapped target) rules' key = .ok (m.mapFields (chosenName mapped)) := by
    obtain ⟨tree,htree⟩ := Option.isSome_iff_exists.mp hkey
    obtain ⟨tree',hmapped,htree'⟩ := (remapRules_lookup hremap).2 key List.not_mem_nil tree htree
    obtain ⟨n,hn⟩ := hall key (by rw [remapRules_isSome hremap]; exact hkey)
    have hn' := hn
    rw [treeAt,Json.get,htree',Option.getD_some] at hn'
    obtain ⟨m,hm,rfl⟩ := readNode_chosen hused hmapped hn'
    refine ⟨m,?_,hn⟩
    rw [treeAt,Json.get,htree,Option.getD_some]
    exact hm
  have hof (key : String) : treeOf lib.toFormLib used' (chosenName mapped target) rules' key =
      (treeOf lib.toFormLib used target rules key).map (Node.mapFields (chosenName mapped)) := by
    rw [treeOf,treeOf,remapRules_isSome hremap]
    split_ifs with hkey
    · obtain ⟨m,hm,hm'⟩ := htree key hkey
      rw [hm,hm']
      rfl
    · rfl
  refine ⟨_,(validate_iff hkeys).mpr ⟨fun key hkey => ?_,rfl⟩,?_,fun tree hmem d hd => ?_⟩
  · obtain ⟨m,hm,-⟩ := htree key hkey
    exact ⟨m,hm⟩
  · simp only [Rules.mapFields,hof]
  · have hread (key : String) (htree : treeOf lib.toFormLib used target rules key = some tree) :
        ∃ f ∈ used, f.physName = d := by
      rw [treeOf] at htree
      split_ifs at htree
      cases hnode : treeAt lib.toFormLib used target rules key with
      | error e =>
        rw [hnode] at htree
        cases htree
      | ok m =>
        rw [hnode] at htree
        obtain rfl := Option.some.inj htree
        exact references_read hnode d hd
    simp only [Rules.trees,List.mem_append,Option.mem_toList] at hmem
    rcases hmem with (hmem | hmem) | hmem
    · exact hread "show" hmem
    · exact hread "require" hmem
    · exact hread "readonly" hmem

end Rules

end FormTemplates
end Biggy
