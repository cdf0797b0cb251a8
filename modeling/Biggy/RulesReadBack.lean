import Biggy.ConfigCheck

/-!
# Rules that are written and read again

JSON that is written and read again is the same value, but the members of an object may stand in another order. Rules are
validated alike in every order of their members.
-/
namespace Biggy
namespace FormRules

/-- The same value: lists element by element, objects name by name. -/
inductive Same : Json → Json → Prop
  | null : Same .null .null
  | bool (b : Bool) : Same (.bool b) (.bool b)
  | int (n : ℤ) : Same (.int n) (.int n)
  | float (x : PyFloat) : Same (.float x) (.float x)
  | str (s : String) : Same (.str s) (.str s)
  | arr {items items' : List Json} : List.Forall₂ Same items items' → Same (.arr items) (.arr items')
  | obj {members members' : List (String × Json)} :
    (∀ key, (members.lookup key).isSome = (members'.lookup key).isSome) →
    (∀ key, Same (Json.get members key) (Json.get members' key)) → Same (.obj members) (.obj members')

mutual

theorem same_refl : ∀ value : Json, Same value value
  | .null => .null
  | .bool b => .bool b
  | .int n => .int n
  | .float x => .float x
  | .str s => .str s
  | .arr items => .arr (same_items items)
  | .obj members => .obj (fun _ => rfl) (same_members members)

theorem same_items : ∀ items : List Json, List.Forall₂ Same items items
  | [] => .nil
  | item::items => .cons (same_refl item) (same_items items)

theorem same_members : ∀ (members : List (String × Json)) (key : String), Same (Json.get members key) (Json.get members key)
  | [], _ => .null
  | (name,value)::members, key => by
    rw [Json.get,List.lookup_cons]
    split
    · exact same_refl value
    · exact same_members members key

end

section Members

variable {node node' : List (String × Json)} {key : String}

theorem same_get (h : Same (.obj node) (.obj node')) (key : String) : Same (Json.get node key) (Json.get node' key) := by
  cases h with
  | obj _ hvalues => exact hvalues key

theorem same_isSome (h : Same (.obj node) (.obj node')) (key : String) : (node.lookup key).isSome = (node'.lookup key).isSome := by
  cases h with
  | obj hkeys _ => exact hkeys key

theorem same_lookup (h : Same (.obj node) (.obj node')) (key : String) :
    node.lookup key = none ∧ node'.lookup key = none ∨
      ∃ value value', node.lookup key = some value ∧ node'.lookup key = some value' ∧ Same value value' := by
  have hkeys := same_isSome h key
  have hvalues := same_get h key
  cases hvalue : node.lookup key with
  | none =>
    rw [hvalue,Option.isSome_none] at hkeys
    exact Or.inl ⟨rfl,Option.not_isSome_iff_eq_none.mp (by rw [← hkeys]; decide)⟩
  | some value =>
    rw [hvalue,Option.isSome_some] at hkeys
    obtain ⟨value',hvalue'⟩ := Option.isSome_iff_exists.mp hkeys.symm
    rw [Json.get,Json.get,hvalue,hvalue'] at hvalues
    exact Or.inr ⟨value,value',rfl,hvalue',hvalues⟩

theorem lookup_isSome {κ β : Type*} [BEq κ] [LawfulBEq κ] {members : List (κ × β)} {key : κ} :
    (members.lookup key).isSome = true ↔ key ∈ members.map Prod.fst := by
  rw [List.lookup_isSome_iff,List.mem_map]
  exact exists_congr fun p => and_congr_right fun _ => by rw [beq_iff_eq,eq_comm]

theorem only_iff : (node.all fun p => p.1 = key) = true ↔ ∀ name, (node.lookup name).isSome = true → name = key := by
  rw [List.all_eq_true]
  constructor
  · intro h name hname
    obtain ⟨p,hp,rfl⟩ := List.mem_map.mp (lookup_isSome.mp hname)
    exact of_decide_eq_true (h p hp)
  · intro h p hp
    exact decide_eq_true (h p.1 (lookup_isSome.mpr (List.mem_map_of_mem hp)))

theorem same_only (h : Same (.obj node) (.obj node')) (key : String) :
    (node.all fun p => p.1 = key) = node'.all fun p => p.1 = key := by
  rw [Bool.eq_iff_iff,only_iff,only_iff]
  simp only [same_isSome h]

end Members

/-! ### Validation -/

section Validation

variable {ω : Type*} {lib : FormLib ω} {fields : List MetaField} {target : String}

theorem readName_same {value value' : Json} (h : Same value value') : readName value = readName value' := by
  cases h <;> rfl

theorem readLiteral_same {value value' : Json} (h : Same value value') : readLiteral value = readLiteral value' := by
  cases h <;> rfl

theorem readLeaf_same {node node' : List (String × Json)} (h : Same (.obj node) (.obj node')) :
    readLeaf lib fields target node = readLeaf lib fields target node' := by
  have hliteral : readLiteral ((node.lookup "value").getD (.str "")) = readLiteral ((node'.lookup "value").getD (.str "")) := by
    rcases same_lookup h "value" with ⟨hnone,hnone'⟩ | ⟨value,value',hvalue,hvalue',hsame⟩
    · rw [hnone,hnone']
    · rw [hvalue,hvalue']
      exact readLiteral_same hsame
  rw [readLeaf,readLeaf,readName_same (same_get h "field"),readName_same (same_get h "op"),hliteral]

theorem mapM_pairs {α β ε : Type*} {f : α → Except ε β} {xs xs' : List α} (h : List.Forall₂ (fun x x' => f x = f x') xs xs') :
    xs.mapM f = xs'.mapM f := by
  induction h with
  | nil => rfl
  | cons hx _ ih => rw [List.mapM_cons,List.mapM_cons,hx,ih]

/-- The children of the same groups are the same. -/
theorem readGroup_same {node node' : List (String × Json)} (h : Same (.obj node) (.obj node')) (key : String) :
    (∃ e, readGroup key node = .error e ∧ readGroup key node' = .error e) ∨
      ∃ children children', readGroup key node = .ok children ∧ readGroup key node' = .ok children' ∧
        List.Forall₂ Same children children' := by
  rcases same_lookup h key with ⟨hnone,hnone'⟩ | ⟨value,value',hvalue,hvalue',hsame⟩
  · rw [readGroup,readGroup,hnone,hnone']
    exact Or.inl ⟨_,rfl,rfl⟩
  · rw [readGroup,readGroup,hvalue,hvalue']
    cases hsame with
    | arr hitems =>
      dsimp only
      rw [same_only h,hitems.length_eq]
      split
      · exact Or.inr ⟨_,_,rfl,rfl,hitems⟩
      · exact Or.inl ⟨_,rfl,rfl⟩
    | _ => exact Or.inl ⟨_,rfl,rfl⟩

theorem readNode_same {levels : ℕ} {node node' : Json} (h : Same node node') :
    readNode lib fields target levels node = readNode lib fields target levels node' := by
  induction levels generalizing node node' with
  | zero => rw [readNode.eq_def,readNode.eq_def]
  | succ levels ih =>
    have hchildren : ∀ {children children' : List Json}, List.Forall₂ Same children children' →
        children.mapM (readNode lib fields target levels) = children'.mapM (readNode lib fields target levels) :=
      fun hsame => mapM_pairs (hsame.imp fun _ _ => ih)
    cases h with
    | obj hkeys hvalues =>
      rename_i members members'
      have hobj : Same (.obj members) (.obj members') := .obj hkeys hvalues
      rw [readNode,readNode,hkeys "all",hkeys "any",readLeaf_same hobj]
      split
      · rcases readGroup_same hobj "all" with ⟨e,hread,hread'⟩ | ⟨children,children',hread,hread',hsame⟩
        · rw [hread,hread']
        · rw [hread,hread']
          dsimp only
          rw [hchildren hsame]
      · split
        · rcases readGroup_same hobj "any" with ⟨e,hread,hread'⟩ | ⟨children,children',hread,hread',hsame⟩
          · rw [hread,hread']
          · rw [hread,hread']
            dsimp only
            rw [hchildren hsame]
        · rfl
    | _ => rfl

/-! ### The trees of rules -/

/-- The condition under a name. -/
def treeAt (lib : FormLib ω) (fields : List MetaField) (target : String) (rules : List (String × Json)) (key : String) :
    Except PyError Node := readNode lib fields target 6 (Json.get rules key)

theorem mapM_keyed {f : String → Except PyError Node} {keys : List String} {trees : List (String × Node)}
    (h : keys.mapM (fun key => (f key).map fun node => (key,node)) = .ok trees) (key : String) :
    trees.lookup key = if key ∈ keys then (f key).toOption else none := by
  induction keys generalizing trees with
  | nil =>
    obtain rfl := Except.ok.inj h
    rfl
  | cons name keys ih =>
    rw [List.mapM_cons] at h
    obtain ⟨p,hp,hrest⟩ := Outcome.bind_ok h
    obtain ⟨rest,hmap,hpure⟩ := Outcome.bind_ok hrest
    obtain rfl := Except.ok.inj hpure
    obtain ⟨node,hnode,rfl⟩ := Outcome.map_ok hp
    rw [List.lookup_cons,ih hmap]
    by_cases hkey : key = name
    · subst hkey
      simp [hnode,Except.toOption]
    · have hbeq : (key == name) = false := by simpa using hkey
      simp [hbeq,hkey]

theorem mem_keys {rules : List (String × Json)} {key : String} :
    key ∈ (rules.map Prod.fst).eraseDups ↔ (rules.lookup key).isSome = true := by
  rw [List.mem_eraseDups,lookup_isSome]

/-- The condition under a name, if there is one. -/
def treeOf (lib : FormLib ω) (fields : List MetaField) (target : String) (rules : List (String × Json)) (key : String) :
    Option Node := if (rules.lookup key).isSome then (treeAt lib fields target rules key).toOption else none

end Validation

section Accepted

variable {ω : Type*} {lib : FormDesign.DesignLib ω} {fields : List MetaField} {target : String}

/-- Rules are accepted when each condition is. -/
theorem validate_iff {rules : List (String × Json)} (hkeys : ∀ p ∈ rules, p.1 ∈ ["show","require","readonly"]) {result : Rules} :
    validate lib.toFormLib (.obj rules) fields target = .ok result ↔
      (∀ key, (rules.lookup key).isSome = true → ∃ node, treeAt lib.toFormLib fields target rules key = .ok node) ∧
      result = ⟨treeOf lib.toFormLib fields target rules "show",treeOf lib.toFormLib fields target rules "require",
        treeOf lib.toFormLib fields target rules "readonly"⟩ := by
  rw [validate,FormDesign.parseRules_obj hkeys]
  have hlookup : ∀ {trees : List (String × Node)}, ((rules.map Prod.fst).eraseDups.mapM fun key =>
      (readNode lib.toFormLib fields target 6 (Json.get rules key)).map fun node => (key,node)) = .ok trees →
      ∀ key, trees.lookup key = treeOf lib.toFormLib fields target rules key := by
    intro trees htrees key
    rw [mapM_keyed htrees key,treeOf]
    simp only [mem_keys]
    rfl
  constructor
  · intro h
    obtain ⟨trees,htrees,hresult⟩ := Outcome.map_ok h
    refine ⟨fun key hkey => ?_,?_⟩
    · obtain ⟨p,hp⟩ := Outcome.mapM_mem htrees (mem_keys.mpr hkey)
      obtain ⟨node,hnode,-⟩ := Outcome.map_ok hp
      exact ⟨node,hnode⟩
    · rw [← hresult,hlookup htrees,hlookup htrees,hlookup htrees]
  · rintro ⟨hall,rfl⟩
    obtain ⟨trees,htrees⟩ : ∃ trees, ((rules.map Prod.fst).eraseDups.mapM fun key =>
        (readNode lib.toFormLib fields target 6 (Json.get rules key)).map fun node => (key,node)) = .ok trees := by
      refine Outcome.mapM_total fun key hkey => ?_
      obtain ⟨node,hnode⟩ := hall key (mem_keys.mp hkey)
      exact ⟨(key,node),by rw [show readNode lib.toFormLib fields target 6 (Json.get rules key) = .ok node from hnode]; rfl⟩
    dsimp only
    rw [htrees]
    simp only [Except.map,hlookup htrees]

/-- The same rules are accepted alike. -/
theorem validate_same {rules rules' : List (String × Json)} (hkeys : ∀ p ∈ rules, p.1 ∈ ["show","require","readonly"])
    (hkeys' : ∀ p ∈ rules', p.1 ∈ ["show","require","readonly"]) (h : Same (.obj rules) (.obj rules')) {result : Rules} :
    validate lib.toFormLib (.obj rules) fields target = .ok result ↔ validate lib.toFormLib (.obj rules') fields target = .ok result := by
  have htree : ∀ key, treeAt lib.toFormLib fields target rules key = treeAt lib.toFormLib fields target rules' key :=
    fun key => readNode_same (same_get h key)
  rw [validate_iff hkeys,validate_iff hkeys']
  simp only [treeOf,htree,same_isSome h]

end Accepted

end FormRules
end Biggy
