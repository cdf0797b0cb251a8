import Biggy.RuleOrder

/-!
# Form rules over other fields

The rules of a form are put on other fields by a mapping of their names. Where the mapping keeps the fields apart and the
rules refer to fields of the form only, the states of the new fields are those of the old ones.
-/
namespace Biggy
namespace FormRules

open Dependency

/-! ### Renaming -/

def Leaf.mapField (σ : String → String) (l : Leaf) : Leaf := { l with field := σ l.field }

mutual

/-- A condition over the mapped fields. -/
def Node.mapFields (σ : String → String) : Node → Node
  | .all children => .all (Node.mapFieldsOf σ children)
  | .any children => .any (Node.mapFieldsOf σ children)
  | .leaf l => .leaf (l.mapField σ)

def Node.mapFieldsOf (σ : String → String) : List Node → List Node
  | [] => []
  | c::cs => c.mapFields σ::Node.mapFieldsOf σ cs

end

def Rules.mapFields (σ : String → String) (rules : Rules) : Rules where
  shown := rules.shown.map (Node.mapFields σ)
  require := rules.require.map (Node.mapFields σ)
  readonly := rules.readonly.map (Node.mapFields σ)

def Item.mapFields (σ : String → String) (item : Item) : Item := { item with rules := item.rules.mapFields σ }

section Renaming

variable {σ : String → String} {test : Leaf → Bool}

mutual

theorem holds_mapFields : ∀ node : Node, (node.mapFields σ).holds test = node.holds fun l => test (l.mapField σ)
  | .all children => by
    simp only [Node.mapFields,Node.holds]
    exact allHold_mapFields children
  | .any children => by
    simp only [Node.mapFields,Node.holds]
    exact anyHolds_mapFields children
  | .leaf l => by simp only [Node.mapFields,Node.holds]

theorem allHold_mapFields : ∀ nodes : List Node,
    Node.allHold test (Node.mapFieldsOf σ nodes) = Node.allHold (fun l => test (l.mapField σ)) nodes
  | [] => by simp only [Node.mapFieldsOf,Node.allHold]
  | c::cs => by simp only [Node.mapFieldsOf,Node.allHold,holds_mapFields c,allHold_mapFields cs]

theorem anyHolds_mapFields : ∀ nodes : List Node,
    Node.anyHolds test (Node.mapFieldsOf σ nodes) = Node.anyHolds (fun l => test (l.mapField σ)) nodes
  | [] => by simp only [Node.mapFieldsOf,Node.anyHolds]
  | c::cs => by simp only [Node.mapFieldsOf,Node.anyHolds,holds_mapFields c,anyHolds_mapFields cs]

end

mutual

theorem leaves_mapFields : ∀ node : Node, (node.mapFields σ).leaves = node.leaves.map (Leaf.mapField σ)
  | .all children => by
    simp only [Node.mapFields,Node.leaves]
    exact leavesOf_mapFields children
  | .any children => by
    simp only [Node.mapFields,Node.leaves]
    exact leavesOf_mapFields children
  | .leaf l => by simp only [Node.mapFields,Node.leaves,List.map_cons,List.map_nil]

theorem leavesOf_mapFields : ∀ nodes : List Node,
    Node.leavesOf (Node.mapFieldsOf σ nodes) = (Node.leavesOf nodes).map (Leaf.mapField σ)
  | [] => by simp only [Node.mapFieldsOf,Node.leavesOf,List.map_nil]
  | c::cs => by simp only [Node.mapFieldsOf,Node.leavesOf,leaves_mapFields c,leavesOf_mapFields cs,List.map_append]

end

theorem references_mapFields (node : Node) : references (node.mapFields σ) = (references node).map σ := by
  rw [references,references,leaves_mapFields,List.map_map,List.map_map]
  rfl

theorem trees_mapFields (rules : Rules) : (rules.mapFields σ).trees = rules.trees.map (Node.mapFields σ) := by
  simp only [Rules.trees,Rules.mapFields,List.map_append,Option.toList_map]

theorem state_mapFields (item : Item) : (item.mapFields σ).state test = item.state fun l => test (l.mapField σ) := by
  have htree (tree : Option Node) (absent : Bool) :
      (tree.map (Node.mapFields σ)).elim absent (Node.holds test) =
        tree.elim absent (Node.holds fun l => test (l.mapField σ)) := by
    cases tree with
    | none => rfl
    | some node => exact holds_mapFields node
  simp only [Item.state,Item.mapFields,Rules.mapFields,htree]

end Renaming

/-! ### Forms -/

/-- The rules of a form on the mapped fields: apart from one another, and over fields of the form. -/
structure Mapped (σ : String → String) (config target : FormConfig) : Prop where
  items : target.items = config.items.map fun p => (σ p.1,p.2.mapFields σ)
  injective : ∀ a ∈ config.names, ∀ b ∈ config.names, σ a = σ b → a = b
  closed : ∀ p ∈ config.items, ∀ tree ∈ p.2.rules.trees, ∀ d ∈ references tree, d ∈ config.names

section Mapped

variable {σ : String → String} {config target : FormConfig}

theorem Mapped.names (h : Mapped σ config target) : target.names = config.names.map σ := by
  rw [FormConfig.names,h.items,FormConfig.names,List.map_map,List.map_map]
  rfl

theorem Mapped.lookup (h : Mapped σ config target) {name : String} (hname : name ∈ config.names) :
    target.items.lookup (σ name) = (config.items.lookup name).map (Item.mapFields σ) := by
  obtain ⟨p,hp,rfl⟩ := List.mem_map.mp hname
  have hmem : (σ p.1,p.2.mapFields σ) ∈ target.items := by
    rw [h.items]
    exact List.mem_map_of_mem hp
  rw [lookup_of_mem hmem,lookup_of_mem hp,Option.map_some]

theorem Mapped.item (h : Mapped σ config target) {name : String} (hname : name ∈ config.names) :
    target.item (σ name) = (config.item name).mapFields σ := by
  rw [FormConfig.item,FormConfig.item,h.lookup hname]
  cases config.items.lookup name <;> rfl

theorem Mapped.references_mem (h : Mapped σ config target) {name d : String} {tree : Node}
    (htree : tree ∈ (config.item name).rules.trees) (hd : d ∈ references tree) : d ∈ config.names :=
  h.closed (name,config.item name) (mem_items_of_tree htree) tree htree d hd

theorem Mapped.mentions (h : Mapped σ config target) (a b : String) (hedge : config.Mentions a b) :
    target.Mentions (σ a) (σ b) := by
  obtain ⟨hb,tree,htree,hmention⟩ := hedge
  have ha : a ∈ config.names := List.mem_map_of_mem (mem_items_of_tree htree)
  refine ⟨?_,tree.mapFields σ,?_,?_⟩
  · rw [h.names]
    exact List.mem_map_of_mem hb
  · rw [h.item ha,Item.mapFields,trees_mapFields]
    exact List.mem_map_of_mem htree
  · rw [references_mapFields]
    exact List.mem_map_of_mem hmention

/-- A circle of the form's rules is one of the mapped rules. -/
theorem Mapped.circular (h : Mapped σ config target) (hcircular : config.Circular) : target.Circular := by
  obtain ⟨name,hpath⟩ := hcircular
  have hedge : ∀ a b, config.Mentions a b → target.Mentions (σ a) (σ b) := h.mentions
  exact ⟨σ name,Relation.TransGen.lift σ hedge _ _ hpath⟩

/-- The form with the types of its fields and with what is locked and required of itself. -/
def FormConfig.dressed (config : FormConfig) (typeOf : String → DataType) (locked required : String → Bool) : FormConfig where
  items := config.items.map fun p =>
    (p.1,{ p.2 with type := typeOf p.1, locked := locked p.1, required := required p.1 })
  nodup := by
    rw [List.map_map]
    exact config.nodup

section Dressed

variable {typeOf typeOf' : String → DataType} {locked required locked' required' : String → Bool}

theorem dressed_names : (config.dressed typeOf locked required).names = config.names := by
  rw [FormConfig.names,FormConfig.dressed,List.map_map]
  rfl

theorem dressed_rules (name : String) : ((config.dressed typeOf locked required).item name).rules = (config.item name).rules := by
  cases hlookup : config.items.lookup name with
  | none =>
    have hnone : (config.dressed typeOf locked required).items.lookup name = none := by
      rw [List.lookup_eq_none_iff] at hlookup ⊢
      intro p hp
      obtain ⟨q,hq,rfl⟩ := List.mem_map.mp hp
      exact hlookup q hq
    simp [FormConfig.item,hlookup,hnone]
  | some item =>
    obtain ⟨before,after,hitems,-⟩ := List.lookup_eq_some_iff.mp hlookup
    have hmem : (name,{ item with type := typeOf name, locked := locked name, required := required name }) ∈
        (config.dressed typeOf locked required).items := List.mem_map.mpr ⟨(name,item),by simp [hitems],rfl⟩
    rw [item_of_mem hmem,item_of_mem (show (name,item) ∈ config.items by simp [hitems])]

theorem dressed_circular : (config.dressed typeOf locked required).Circular ↔ config.Circular := by
  have hsame : (config.dressed typeOf locked required).Mentions = config.Mentions := by
    funext a b
    rw [FormConfig.Mentions,FormConfig.Mentions,dressed_names,dressed_rules]
  rw [FormConfig.Circular,FormConfig.Circular,hsame]

theorem Mapped.dressed (h : Mapped σ config target) (htype : ∀ name ∈ config.names, typeOf' (σ name) = typeOf name)
    (hlocked : ∀ name ∈ config.names, locked' (σ name) = locked name)
    (hrequired : ∀ name ∈ config.names, required' (σ name) = required name) :
    Mapped σ (config.dressed typeOf locked required) (target.dressed typeOf' locked' required') := by
  refine ⟨?_,by rw [dressed_names]; exact h.injective,fun p hp tree htree d hd => ?_⟩
  · show target.items.map _ = (config.items.map _).map _
    rw [h.items,List.map_map,List.map_map]
    refine List.map_congr_left fun p hp => ?_
    have hname : p.1 ∈ config.names := List.mem_map_of_mem hp
    simp only [Function.comp_apply,Item.mapFields,htype p.1 hname,hlocked p.1 hname,hrequired p.1 hname]
  · obtain ⟨q,hq,rfl⟩ := List.mem_map.mp hp
    rw [dressed_names]
    exact h.closed q hq tree htree d hd

end Dressed

variable {ω : Type*} {lib : FormLib ω} {values trusted env : String → Option (FieldData ω)}

/-- The values of the form's fields are those of the mapped fields. -/
def pulled (σ : String → String) (config : FormConfig) (values env : String → Option (FieldData ω)) (name : String) :
    Option (FieldData ω) := if name ∈ config.names then env (σ name) else values name

variable (values) in
theorem Mapped.state (h : Mapped σ config target) {name : String} (hname : name ∈ config.names) :
    fieldState lib target (σ name) env = fieldState lib config name (pulled σ config values env) := by
  rw [fieldState,fieldState,h.item hname,state_mapFields]
  refine state_congr fun tree htree l hl => ?_
  have hfield : l.field ∈ config.names := h.references_mem htree (List.mem_map_of_mem hl)
  have htype : target.numericNames (σ l.field) = config.numericNames l.field := by
    rw [FormConfig.numericNames,FormConfig.numericNames,h.lookup hfield]
    cases config.items.lookup l.field <;> rfl
  simp only [leafMatches,Leaf.mapField,pulled,if_pos hfield,htype]

end Mapped

/-- The mapped fields have the states of the fields that they are mapped from. -/
theorem states_mapped {ω : Type*} (lib : FormLib ω) {σ : String → String} {config target : FormConfig}
    (h : Mapped σ config target) (hcircular : ¬target.Circular) (first second : Arrangement)
    {values trusted values' trusted' : String → Option (FieldData ω)}
    (hvalues : ∀ name ∈ config.names, values' (σ name) = values name)
    (htrusted : ∀ name ∈ config.names, trusted' (σ name) = trusted name) :
    ∃ result result', states first lib config values trusted = .ok result ∧
      states second lib target values' trusted' = .ok result' ∧ ∀ name ∈ config.names,
        (result.lookup name).isSome = true ∧ result'.lookup (σ name) = result.lookup name := by
  have hacyclic : target.Acyclic := not_not.mp (circular_iff.not.mp hcircular)
  have hopen : config.Acyclic := not_not.mp (circular_iff.not.mp fun hc => hcircular (h.circular hc))
  obtain ⟨result,env,hresult,hsolves,hlookup⟩ := states_solved first lib hopen values trusted
  obtain ⟨result',env',hresult',hsolves',hlookup'⟩ := states_solved second lib hacyclic values' trusted'
  have hmem {name : String} (hname : name ∈ config.names) : σ name ∈ target.names := by
    rw [h.names]
    exact List.mem_map_of_mem hname
  -- pulled back along the mapping, the solution of the mapped rules solves the rules of the form
  have hpulled : (testSystem config (leafMatches lib config.numericNames) (stored trusted)).Solves config.names values
      (pulled σ config values env') := by
    constructor
    · intro name hname
      have hvalue : env' (σ name) = if (fieldState lib target (σ name) env').kept then stored trusted' (σ name) else
          values' (σ name) := solves_inside hsolves' (hmem hname)
      show pulled σ config values env' name = if (fieldState lib config name (pulled σ config values env')).kept then
        stored trusted name else values name
      rw [h.state values hname,hvalues name hname,stored,htrusted name hname] at hvalue
      rw [pulled,if_pos hname,hvalue]
      rfl
    · intro name hname
      rw [pulled,if_neg hname]
  have henv : env = pulled σ config values env' := solution_unique leafMatches_reads hopen hsolves hpulled
  refine ⟨result,result',hresult,hresult',fun name hname => ⟨?_,?_⟩⟩
  · rw [hlookup,if_pos hname]
    rfl
  · rw [hlookup,hlookup',if_pos hname,if_pos (hmem hname),henv,h.state values hname]

end FormRules
end Biggy
