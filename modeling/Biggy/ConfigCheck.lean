import Biggy.FormDesign

/-!
# What the validation of a form configuration leaves

A configuration that is accepted is normalised, and its values fit the columns of the form.
One that is refused is refused with an error that the request handlers catch, unless the
text of its rules cannot be read at all.
-/
namespace Biggy
namespace FormDesign

open FormRules

/-! ### Members -/

theorem get_set_self (members : Members) (key : String) (value : Json) : Json.get (set members key value) key = value := by
  induction members with
  | nil => simp [set,Keyed.put,Json.get]
  | cons p members ih =>
    obtain ⟨name,old⟩ := p
    by_cases hname : name = key
    · simp [set,Keyed.put,Json.get,hname]
    · have hne : (key == name) = false := by simpa using Ne.symm hname
      simpa [set,Keyed.put,Json.get,hname,List.lookup_cons,hne] using ih

theorem get_set_other {key other : String} (hne : other ≠ key) (members : Members) (value : Json) :
    Json.get (set members key value) other = Json.get members other := by
  have hbeq : (other == key) = false := by simpa using hne
  induction members with
  | nil => simp [set,Keyed.put,Json.get,List.lookup_cons,hbeq]
  | cons p members ih =>
    obtain ⟨name,old⟩ := p
    by_cases hname : name = key
    · simp [set,Keyed.put,Json.get,hname,List.lookup_cons,hbeq]
    · cases hother : other == name with
      | true => simp [set,Keyed.put,Json.get,hname,List.lookup_cons,hother]
      | false => simpa [set,Keyed.put,Json.get,hname,List.lookup_cons,hother] using ih

@[simp] theorem entry_obj (members : Members) (key : String) : entry (.obj members) key = Json.get members key := rfl

/-! ### Errors -/

/-- The exceptions that the request handlers turn into an answer. -/
def caught : PyError → Bool
  | .valueError _ => true
  | .typeError => true
  | .keyError => true
  | _ => false

theorem readName_caught {value : Json} {e : PyError} (h : readName value = .error e) : caught e := by
  cases value <;> simp only [readName] at h <;> cases h <;> rfl

section Errors

variable {ω : Type*} {lib : DesignLib ω} {site : Site}

theorem readLeaf_caught {fields : List MetaField} {target : String} {node : Members} {e : PyError}
    (h : readLeaf lib.toFormLib fields target node = .error e) : caught e := by
  rw [readLeaf] at h
  split at h
  · rename_i hname
    cases h
    exact readName_caught hname
  split at h
  · cases h
    rfl
  split at h
  · cases h
    rfl
  split at h
  · rename_i hop
    cases h
    exact readName_caught hop
  split at h
  · cases h
    rfl
  split at h
  · cases h
    rfl
  split at h
  · cases h
    rfl
  split at h
  · cases h
    rfl
  split at h
  · cases h
    rfl
  split at h
  · cases h
    rfl
  split at h
  · split at h
    · cases h
      rfl
    · split_ifs at h
      cases h
      rfl
  · cases h

theorem readGroup_caught {key : String} {node : Members} {e : PyError} (h : readGroup key node = .error e) : caught e := by
  rw [readGroup] at h
  split at h
  · split_ifs at h
    cases h
    rfl
  · cases h
    rfl

theorem readNode_caught {fields : List MetaField} {target : String} {levels : ℕ} {node : Json} {e : PyError}
    (h : readNode lib.toFormLib fields target levels node = .error e) : caught e := by
  induction levels generalizing node e with
  | zero =>
    rw [readNode.eq_def] at h
    cases h
    rfl
  | succ levels ih =>
    have hchildren : ∀ {children : List Json} {make : List Node → Node},
        (children.mapM (readNode lib.toFormLib fields target levels)).map make = .error e → caught e := by
      intro children make hmap
      obtain ⟨child,-,hchild⟩ := Outcome.mapM_error (Outcome.map_error hmap)
      exact ih hchild
    cases node with
    | obj members =>
      rw [readNode] at h
      split_ifs at h
      · split at h
        · rename_i hgroup
          cases h
          exact readGroup_caught hgroup
        · exact hchildren h
      · split at h
        · rename_i hgroup
          cases h
          exact readGroup_caught hgroup
        · exact hchildren h
      · exact readLeaf_caught h
    | _ =>
      simp only [readNode] at h
      cases h
      rfl

/-- Rules in place need not be read. -/
theorem parseRules_obj {rules : Members} (hkeys : ∀ p ∈ rules, p.1 ∈ ["show","require","readonly"]) :
    parseRules lib.toFormLib (.obj rules) = .ok rules := by
  have hall : (rules.all fun p => p.1 ∈ ["show","require","readonly"]) = true := by
    rw [List.all_eq_true]
    exact fun p hp => decide_eq_true (hkeys p hp)
  cases rules with
  | nil => rfl
  | cons p rules =>
    simp only [parseRules,Json.truthy,List.isEmpty_cons,Bool.not_false,if_true]
    rw [if_pos hall]

theorem validate_caught {fields : List MetaField} {target : String} {rules : Members} {e : PyError}
    (hkeys : ∀ p ∈ rules, p.1 ∈ ["show","require","readonly"])
    (h : FormRules.validate lib.toFormLib (.obj rules) fields target = .error e) : caught e := by
  rw [FormRules.validate,parseRules_obj hkeys] at h
  obtain ⟨key,-,hkey⟩ := Outcome.mapM_error (Outcome.map_error h)
  exact readNode_caught (Outcome.map_error hkey)

theorem checkFieldRules_caught {used : List MetaField} {rules : Members} {field : MetaField} {e : PyError}
    (hkeys : ∀ p ∈ rules, p.1 ∈ ["show","require","readonly"])
    (h : checkFieldRules lib used rules field = .error e) : caught e := by
  rw [checkFieldRules] at h
  split at h
  · rename_i hvalidate
    cases h
    exact validate_caught hkeys hvalidate
  · split_ifs at h <;> cases h <;> rfl

theorem order_caught {config : FormConfig} {e : PyError} (h : order lib.arrangement config = .error e) : caught e := by
  rw [order_error h]
  rfl

/-- The rules of every item can be read, or are refused with an error that is caught. -/
def Readable (lib : DesignLib ω) (config : Json) : Prop :=
  ∀ item ∈ itemsOf config, ∀ e, parseRules lib.toFormLib (entry item "rules_json") = .error e → caught e

theorem checkSettings_caught {config : Members} {e : PyError} (h : checkSettings config = .error e) : caught e := by
  rw [checkSettings] at h
  split at h
  · cases h
    rfl
  split_ifs at h
  · cases h
    rfl
  · split at h
    · rename_i hname
      cases h
      exact readName_caught hname
    · split_ifs at h
      cases h
      rfl

theorem checkShape_caught {item : Json} {e : PyError} (h : checkShape item = .error e) : caught e := by
  cases item with
  | obj members =>
    rw [checkShape] at h
    split at h
    · cases h
      rfl
    split at h
    · rename_i hname
      cases h
      exact readName_caught hname
    split at h
    · cases h
      rfl
    split at h
    · cases h
      rfl
    split at h
    · cases h
      rfl
    split at h <;> cases h
    rfl
  | _ =>
    cases h
    rfl

theorem checkItem_caught {used : List MetaField} {item : Json} {e : PyError} (h : checkItem site used item = .error e) :
    caught e := by
  rw [checkItem] at h
  split at h
  · rename_i hshape
    cases h
    exact checkShape_caught hshape
  · rw [checkTarget] at h
    split_ifs at h
    · split at h
      · cases h
        rfl
      · split_ifs at h
        cases h
        rfl
    · split at h
      · cases h
        rfl
      · split_ifs at h
        cases h
        rfl
    · cases h
      rfl

/-- What is parsed has the three keys only. -/
theorem parseRules_keys {value : Json} {rules : Members} (h : parseRules lib.toFormLib value = .ok rules) :
    ∀ p ∈ rules, p.1 ∈ ["show","require","readonly"] := by
  simp only [parseRules] at h
  split at h
  · cases h
  · split_ifs at h with hall
    obtain rfl := Except.ok.inj h
    exact fun p hp => of_decide_eq_true (List.all_eq_true.mp hall p hp)
  · cases h

theorem checkRules_caught {used : List MetaField} {item : Json} {e : PyError}
    (hread : ∀ e, parseRules lib.toFormLib (entry item "rules_json") = .error e → caught e)
    (h : checkRules lib site used item = .error e) : caught e := by
  cases item with
  | obj members =>
    rw [checkRules] at h
    split at h
    · rename_i hparse
      cases h
      exact hread _ hparse
    rename_i hparse
    split at h
    · split at h
      · cases h
      · cases h
        rfl
    split at h
    · cases h
      rfl
    · exact checkFieldRules_caught (parseRules_keys hparse) (Outcome.map_error h)
  | _ =>
    cases h
    rfl

/-- A configuration whose rules can be read is refused with an error that is caught. -/
theorem validateConfig_caught {config : Json} {e : PyError} (hread : Readable lib config)
    (h : validateConfig lib site config = .error e) : caught e := by
  cases config with
  | obj members =>
    rw [validateConfig] at h
    split at h
    · cases h
      rfl
    split at h
    · rename_i hsettings
      cases h
      exact checkSettings_caught hsettings
    split at h
    · rename_i items hitems
      split at h
      · cases h
        rfl
      have hchecked := Outcome.map_error h
      rw [checkItems] at hchecked
      split at hchecked
      · rename_i hfold
        cases hchecked
        obtain ⟨used,item,-,hitem⟩ := Outcome.foldlM_error hfold
        exact checkItem_caught hitem
      split at hchecked
      · rename_i hmap
        cases hchecked
        obtain ⟨item,hmem,hitem⟩ := Outcome.mapM_error hmap
        have hin : item ∈ itemsOf (.obj members) := by simpa [itemsOf,membersOf,hitems] using hmem
        exact checkRules_caught (hread item hin) hitem
      · exact order_caught (Outcome.map_error hchecked)
    · cases h
      rfl
  | _ =>
    cases h
    rfl

end Errors

/-! ### Normalisation -/

section Normalise

variable {ω : Type*} (lib : DesignLib ω)

theorem itemsOf_normalise (config : Json) : itemsOf (normalise lib config) = (itemsOf config).map (normalItem lib) := by
  cases config with
  | obj members =>
    cases hitems : Json.get members "items" <;> simp [normalise,itemsOf,membersOf,hitems,get_set_self]
  | _ => rfl

theorem entry_normalise {key : String} (hkey : key ≠ "items") (config : Json) :
    entry (normalise lib config) key = entry config key := by
  cases config with
  | obj members =>
    cases hitems : Json.get members "items" <;> simp [normalise,hitems,get_set_other hkey]
  | _ => rfl

theorem get_normalRules {key : String} (hkey : key ≠ "rules_json") (item : Members) :
    Json.get (normalRules lib item) key = Json.get item key := by
  rw [normalRules]
  split
  · exact get_set_other hkey _ _
  · rfl

theorem get_normalFlags {key : String} (hrequired : key ≠ "required") (hreadonly : key ≠ "readonly") (item : Members) :
    Json.get (normalFlags item) key = Json.get item key := by
  rw [normalFlags,get_set_other hreadonly,get_set_other hrequired]

theorem entry_normalItem {key : String} (hrequired : key ≠ "required") (hreadonly : key ≠ "readonly")
    (hrules : key ≠ "rules_json") (item : Json) : entry (normalItem lib item) key = entry item key := by
  cases item with
  | obj members =>
    simp only [normalItem,entry_obj]
    split
    · rw [get_normalRules lib hrules,get_normalFlags hrequired hreadonly]
    · exact get_normalFlags hrequired hreadonly members
  | _ => rfl

theorem entry_normalItem_flag {key : String} (hkey : key = "required" ∨ key = "readonly") (members : Members) :
    entry (normalItem lib (.obj members)) key = .bool (Json.get members key).truthy := by
  have hflags : Json.get (normalFlags members) key = .bool (Json.get members key).truthy := by
    rcases hkey with rfl | rfl
    · rw [normalFlags,get_set_other (by decide),get_set_self]
    · rw [normalFlags,get_set_self]
  simp only [normalItem,entry_obj]
  split
  · rw [get_normalRules lib (by rcases hkey with rfl | rfl <;> decide)]
    exact hflags
  · exact hflags

/-- The rules of a field item are stored as their text. -/
theorem entry_normalItem_rules {members : Members} {rules : Members} (hfield : isField members = true)
    (hparse : parseRules lib.toFormLib (Json.get members "rules_json") = .ok rules) :
    entry (normalItem lib (.obj members)) "rules_json" =
      if rules.isEmpty then .null else .str (lib.dump (.obj rules)) := by
  simp only [normalItem,hfield,if_true,entry_obj]
  rw [normalRules,get_normalFlags (by decide) (by decide),hparse]
  exact get_set_self _ _ _

theorem entry_normalItem_unruled {members : Members} (hfield : isField members = false) :
    entry (normalItem lib (.obj members)) "rules_json" = Json.get members "rules_json" := by
  simp only [normalItem,hfield,entry_obj]
  exact get_normalFlags (by decide) (by decide) members

/-- The text of rules reads back as rules with the same text. -/
theorem parseRules_dump {rules : Members} (hkeys : ∀ p ∈ rules, p.1 ∈ ["show","require","readonly"]) :
    ∃ rules', parseRules lib.toFormLib (if rules.isEmpty then .null else .str (lib.dump (.obj rules))) = .ok rules' ∧
      rules'.isEmpty = rules.isEmpty ∧ lib.dump (.obj rules') = lib.dump (.obj rules) := by
  cases rules with
  | nil => exact ⟨[],rfl,rfl,rfl⟩
  | cons p rules =>
    obtain ⟨htext,rules',hloads,hne,hkeys',hdump⟩ := lib.dump_rules (p::rules) (List.cons_ne_nil _ _) hkeys
    refine ⟨rules',?_,?_,hdump⟩
    · simp only [List.isEmpty_cons,if_false,Bool.false_eq_true,parseRules,if_neg htext,hloads]
      rw [if_pos (List.all_eq_true.mpr fun q hq => decide_eq_true (hkeys' q hq))]
    · simpa using hne

theorem isField_congr {item item' : Members} (h : Json.get item "kind" = Json.get item' "kind") :
    isField item = isField item' := by rw [isField,isField,h]

theorem keys_set {members : Members} {key : String} {value : Json} (hkey : key ∈ itemKeys)
    (h : (members.all fun p => p.1 ∈ itemKeys) = true) :
    ((set members key value).all fun p => p.1 ∈ itemKeys) = true := by
  rw [List.all_eq_true] at h ⊢
  intro p hp
  rcases Keyed.mem_put hp with rfl | hp
  · exact decide_eq_true hkey
  · exact h p hp

theorem keys_normal {members : Members} (h : (members.all fun p => p.1 ∈ itemKeys) = true) :
    ((membersOf (normalItem lib (.obj members))).all fun p => p.1 ∈ itemKeys) = true := by
  have hflags : ((normalFlags members).all fun p => p.1 ∈ itemKeys) = true := keys_set (by decide) (keys_set (by decide) h)
  rw [normalItem,membersOf]
  split_ifs
  · rw [normalRules]
    split
    · exact keys_set (by decide) hflags
    · exact hflags
  · exact hflags

/-- To normalise an item again changes nothing. -/
theorem entry_normalItem_twice (item : Json) (key : String) :
    entry (normalItem lib (normalItem lib item)) key = entry (normalItem lib item) key := by
  cases item with
  | obj members =>
    obtain ⟨once,honce⟩ : ∃ once, normalItem lib (.obj members) = .obj once := ⟨_,rfl⟩
    have hget : ∀ name, Json.get once name = entry (normalItem lib (.obj members)) name := fun name => by rw [honce,entry_obj]
    have hkind : isField once = isField members :=
      isField_congr (by rw [hget]; exact entry_normalItem lib (by decide) (by decide) (by decide) _)
    rw [honce,entry_obj]
    by_cases hflag : key = "required" ∨ key = "readonly"
    · rw [entry_normalItem_flag lib hflag,hget,entry_normalItem_flag lib hflag]
      rfl
    rw [not_or] at hflag
    by_cases hrules : key = "rules_json"
    · subst hrules
      cases hfield : isField members with
      | false => exact entry_normalItem_unruled lib (hkind.trans hfield)
      | true =>
        cases hparse : parseRules lib.toFormLib (Json.get members "rules_json") with
        | ok rules =>
          obtain ⟨rules',hparse',hempty,hdump⟩ := parseRules_dump lib (parseRules_keys hparse)
          have hrules := entry_normalItem_rules lib hfield hparse
          rw [entry_normalItem_rules lib (hkind.trans hfield) (by rw [hget,hrules]; exact hparse'),hget,hrules,hempty,hdump]
        | error e =>
          have hsame : Json.get once "rules_json" = Json.get members "rules_json" := by
            rw [hget]
            simp only [normalItem,hfield,if_true,entry_obj,normalRules,
              get_normalFlags (show "rules_json" ≠ "required" by decide) (by decide),hparse]
          have hparse' : parseRules lib.toFormLib (Json.get (normalFlags once) "rules_json") = .error e := by
            rw [get_normalFlags (by decide) (by decide),hsame]
            exact hparse
          simp only [normalItem,hkind,hfield,if_true,entry_obj,normalRules,hparse']
          exact get_normalFlags (by decide) (by decide) once
    · exact entry_normalItem lib hflag.1 hflag.2 hrules (.obj once)
  | _ => rfl

/-- Configurations with the same entries are completed to the same. -/
theorem complete_congr {config config' : Json} (hsettings : ∀ key ∈ formKeys, entry config key = entry config' key)
    (hitems : (itemsOf config).map (fun item => itemKeys.map (entry item)) =
      (itemsOf config').map fun item => itemKeys.map (entry item)) : complete config = complete config' := by
  have hobjects : ∀ items : List Json, (items.map fun item => Json.obj (itemKeys.map fun key => (key,entry item key))) =
      (items.map fun item => itemKeys.map (entry item)).map fun values => .obj (itemKeys.zip values) := by
    intro items
    rw [List.map_map]
    exact List.map_congr_left fun item _ => rfl
  rw [complete,complete,hobjects,hobjects,hitems,List.map_congr_left fun key hkey => by rw [hsettings key hkey]]

/-- The content of a configuration is not changed by normalising it. -/
theorem content_normalise (config : Json) : content lib (normalise lib config) = content lib config := by
  apply complete_congr
  · intro key hkey
    exact entry_normalise lib (by rintro rfl; exact absurd hkey (by decide)) _
  · rw [itemsOf_normalise,itemsOf_normalise,List.map_map,List.map_map,List.map_map]
    refine List.map_congr_left fun item _ => List.map_congr_left fun key _ => ?_
    exact entry_normalItem_twice lib item key

end Normalise

/-! ### Accepted configurations -/

section Accepted

variable {ω : Type*} {lib : DesignLib ω} {site : Site} {config config' : Json} {issues : List Issue}

/-- What the checks say of an accepted item. -/
structure ItemChecked (lib : DesignLib ω) (item : Json) : Prop where
  object : item = .obj (membersOf item)
  kind : ∃ kind, entry item "kind" = .str kind
  ids : ∀ key ∈ ["field_id","relation_id","parent_field_id","filter_field_id"], validId (entry item key)
  texts : ∀ p ∈ [("label_override",160),("help_text",255),("widget",30)], shortText p.2 (entry item p.1)
  rules : ∃ rules, parseRules lib.toFormLib (entry item "rules_json") = .ok rules

/-- What the checks say of an accepted configuration. -/
structure Checked (lib : DesignLib ω) (site : Site) (config : Json) : Prop where
  texts : ∀ p ∈ [("title",160),("description",10000),("catalog_group",80)], shortText p.2 (entry config p.1)
  purpose : ∃ purpose, entry config "purpose" = .str purpose
  catalog : isBool (entry config "in_catalog")
  items : ∀ item ∈ itemsOf config, ItemChecked lib item

theorem checkShape_ok {item : Json} {members : Members} {kind : String} (h : checkShape item = .ok (members,kind)) :
    item = .obj members ∧ Json.get members "kind" = .str kind ∧
      (∀ key ∈ ["field_id","relation_id","parent_field_id","filter_field_id"], validId (Json.get members key)) ∧
      ∀ p ∈ [("label_override",160),("help_text",255),("widget",30)], shortText p.2 (Json.get members p.1) := by
  cases item with
  | obj m =>
    rw [checkShape] at h
    split at h
    · cases h
    split at h
    · cases h
    rename_i name hname
    split at h
    · cases h
    rename_i k hfilter
    split at h
    · cases h
    rename_i hids
    split at h
    · cases h
    split at h
    · cases h
    rename_i htexts
    cases h
    obtain ⟨rfl,-⟩ := Option.filter_eq_some_iff.mp hfilter
    refine ⟨rfl,readName_some hname,?_,?_⟩
    · rw [Bool.not_eq_true',Bool.not_eq_false] at hids
      exact List.all_eq_true.mp hids
    · intro p hp
      simpa using List.find?_eq_none.mp htexts p hp
  | _ => cases h

theorem checkShape_keys {item : Json} {members : Members} {kind : String} (h : checkShape item = .ok (members,kind)) :
    (members.all fun p => p.1 ∈ itemKeys) = true := by
  cases item with
  | obj m =>
    rw [checkShape] at h
    split at h
    · cases h
    rename_i hkeys
    split at h
    · cases h
    split at h
    · cases h
    split at h
    · cases h
    split at h
    · cases h
    split at h
    · cases h
    cases h
    rwa [Bool.not_eq_true',Bool.not_eq_false] at hkeys
  | _ => cases h

theorem checkItem_ok {used used' used'' : List MetaField} {item : Json} {entries : List (String × FormRules.Item)}
    (hitem : checkItem site used item = .ok used') (hrules : checkRules lib site used'' item = .ok entries) :
    ItemChecked lib item := by
  rw [checkItem] at hitem
  split at hitem
  · cases hitem
  rename_i members kind hshape
  obtain ⟨rfl,hkind,hids,htexts⟩ := checkShape_ok hshape
  refine ⟨rfl,⟨kind,hkind⟩,hids,htexts,?_⟩
  rw [checkRules] at hrules
  split at hrules
  · cases hrules
  · rename_i rules hparse
    exact ⟨rules,hparse⟩

theorem checkItems_passes {items : List Json} (h : checkItems lib site items = .ok ()) :
    ∃ used entries, items.foldlM (checkItem site) [] = .ok used ∧ items.mapM (checkRules lib site used) = .ok entries ∧
      ∃ names, order lib.arrangement (rulesConfig entries.flatten) = .ok names := by
  rw [checkItems] at h
  split at h
  · cases h
  rename_i used hfold
  split at h
  · cases h
  rename_i entries hrules
  obtain ⟨names,hnames,-⟩ := Outcome.map_ok h
  exact ⟨used,entries,hfold,hrules,names,hnames⟩

theorem checkItems_ok {items : List Json} (h : checkItems lib site items = .ok ()) : ∀ item ∈ items, ItemChecked lib item := by
  intro item hitem
  obtain ⟨used,entries,hfold,hmap,-⟩ := checkItems_passes h
  obtain ⟨before,after,hchecked⟩ := Outcome.foldlM_mem hfold hitem
  obtain ⟨rules,hrules⟩ := Outcome.mapM_mem hmap hitem
  exact checkItem_ok hchecked hrules

theorem checkSettings_iff {config : Members} : checkSettings config = .ok () ↔
    shortText 160 (Json.get config "title") = true ∧ shortText 10000 (Json.get config "description") = true ∧
      shortText 80 (Json.get config "catalog_group") = true ∧ (Json.get config "title").truthy = true ∧
      (Json.get config "purpose" = .str "data" ∨ Json.get config "purpose" = .str "view") ∧
      isBool (Json.get config "in_catalog") = true := by
  have htexts : [("title",160),("description",10000),("catalog_group",80)].find?
      (fun p => !shortText p.2 (Json.get config p.1)) = none ↔ shortText 160 (Json.get config "title") = true ∧
        shortText 10000 (Json.get config "description") = true ∧ shortText 80 (Json.get config "catalog_group") = true := by
    rw [List.find?_eq_none]
    simp
  have hpurpose : ∀ purpose, readName (Json.get config "purpose") = .ok purpose →
      ((purpose ∈ [some "data",some "view"]) ↔ Json.get config "purpose" = .str "data" ∨ Json.get config "purpose" = .str "view") := by
    intro purpose hread
    cases hvalue : Json.get config "purpose" <;> rw [hvalue] at hread <;> simp only [readName] at hread <;> cases hread <;> simp
  rw [checkSettings]
  split
  · rename_i hfound
    rw [← and_assoc,← and_assoc,and_assoc (a := shortText 160 _ = true),← htexts,hfound]
    simp
  · rename_i hnone
    obtain ⟨h₁,h₂,h₃⟩ := htexts.mp hnone
    simp only [h₁,h₂,h₃,true_and]
    split
    · rename_i hfalse
      rw [Bool.not_eq_true'] at hfalse
      simp [hfalse]
    · rename_i htitle
      rw [Bool.not_eq_true',Bool.not_eq_false] at htitle
      simp only [htitle,true_and]
      split
      · rename_i e hread
        have hbad : ¬(Json.get config "purpose" = .str "data" ∨ Json.get config "purpose" = .str "view") := by
          rintro (hvalue | hvalue) <;> rw [hvalue] at hread <;> cases hread
        simp [hbad]
      · rename_i purpose hread
        rw [← hpurpose purpose hread]
        split_ifs with hchoice
        · exact ⟨fun _ => ⟨hchoice.1,hchoice.2⟩,fun _ => rfl⟩
        · exact ⟨fun h => (by cases h),fun h => absurd h hchoice⟩

/-- What an accepted configuration has passed, and the answer. -/
theorem validateConfig_passes {result : Json × List Issue} (h : validateConfig lib site config = .ok result) :
    result = (normalise lib config,site.check (normalise lib config)) ∧ checkSettings (membersOf config) = .ok () ∧
      Json.get (membersOf config) "items" = .arr (itemsOf config) ∧ (itemsOf config).length ≤ 200 ∧
      checkItems lib site (itemsOf config) = .ok () := by
  cases config with
  | obj members =>
    rw [validateConfig] at h
    split at h
    · cases h
    split at h
    · cases h
    rename_i hsettings
    split at h
    · rename_i items hitems
      split at h
      · cases h
      rename_i hfew
      obtain ⟨⟨⟩,hchecked,rfl⟩ := Outcome.map_ok h
      have hof : itemsOf (.obj members) = items := by simp [itemsOf,membersOf,hitems]
      rw [hof]
      exact ⟨rfl,hsettings,hitems,not_lt.mp hfew,hchecked⟩
    · cases h
  | _ => cases h

/-- An accepted configuration is left normalised, with what `check_form` finds then. -/
theorem validateConfig_ok (h : validateConfig lib site config = .ok (config',issues)) :
    config' = normalise lib config ∧ issues = site.check (normalise lib config) ∧ Checked lib site config := by
  obtain ⟨hresult,hsettings,-,-,hchecked⟩ := validateConfig_passes h
  obtain ⟨rfl,rfl⟩ := Prod.mk.inj hresult
  obtain ⟨htitle,hdescription,hgroup,-,hpurpose,hcatalog⟩ := checkSettings_iff.mp hsettings
  refine ⟨rfl,rfl,?_,?_,hcatalog,checkItems_ok hchecked⟩
  · intro p hp
    simp only [List.mem_cons,List.not_mem_nil,or_false] at hp
    rcases hp with rfl | rfl | rfl
    · exact htitle
    · exact hdescription
    · exact hgroup
  · rcases hpurpose with hdata | hview
    · exact ⟨"data",hdata⟩
    · exact ⟨"view",hview⟩

/-- The rules of a normalised configuration can be read. -/
theorem readable_normalise (h : Checked lib site config) : Readable lib (normalise lib config) := by
  intro item hitem e herror
  rw [itemsOf_normalise] at hitem
  obtain ⟨source,hsource,rfl⟩ := List.mem_map.mp hitem
  obtain ⟨hobject,-,-,-,rules,hparse⟩ := h.items source hsource
  rw [hobject] at herror
  cases hfield : isField (membersOf source) with
  | true =>
    obtain ⟨rules',hparse',-⟩ := parseRules_dump lib (parseRules_keys hparse)
    rw [entry_normalItem_rules lib hfield hparse,hparse'] at herror
    cases herror
  | false =>
    rw [entry_normalItem_unruled lib hfield] at herror
    exact absurd (herror.symm.trans hparse) (by simp)

theorem readable_of_checked (h : Checked lib site config) : Readable lib config := by
  intro item hitem e herror
  obtain ⟨-,-,-,-,rules,hparse⟩ := h.items item hitem
  cases herror.symm.trans hparse

/-- Outside the fields the rules are absent or a text. -/
def TextRules (config : Json) : Prop :=
  ∀ item ∈ itemsOf config, isField (membersOf item) = false → fitsColumn .text (entry item "rules_json")

theorem fits_text {limit : ℕ} {value : Json} (h : shortText limit value = true) : fitsColumn .text value = true := by
  cases value <;> first | rfl | cases h

theorem fits_id {value : Json} (h : validId value = true) : fitsColumn .integer value = true := by
  cases value <;> first | rfl | cases h

theorem fits_bool {value : Json} (h : isBool value = true) : fitsColumn .boolean value = true := by
  cases value <;> first | rfl | cases h

/-- The settings that are accepted fit the columns of the form. -/
theorem settings_fit (h : Checked lib site config) {key : String} (hkey : key ∈ formKeys) :
    fitsColumn (columnType key) (entry (normalise lib config) key) = true := by
  rw [entry_normalise lib (by rintro rfl; exact absurd hkey (by decide))]
  simp only [formKeys,List.mem_cons,List.not_mem_nil,or_false] at hkey
  rcases hkey with rfl | rfl | rfl | rfl | rfl
  · exact fits_text (h.texts ("title",160) (by simp))
  · exact fits_text (h.texts ("description",10000) (by simp))
  · obtain ⟨purpose,hpurpose⟩ := h.purpose
    rw [hpurpose]
    rfl
  · exact fits_bool h.catalog
  · exact fits_text (h.texts ("catalog_group",80) (by simp))

/-- So do the items, once their rules are texts. -/
theorem items_fit (h : Checked lib site config) (htext : TextRules config) {item : Json}
    (hitem : item ∈ itemsOf (normalise lib config)) {key : String} (hkey : key ∈ itemKeys) :
    fitsColumn (columnType key) (entry item key) = true := by
  rw [itemsOf_normalise] at hitem
  obtain ⟨source,hsource,rfl⟩ := List.mem_map.mp hitem
  obtain ⟨hobject,⟨kind,hkind⟩,hids,htexts,rules,hparse⟩ := h.items source hsource
  have hflag : ∀ name, name = "required" ∨ name = "readonly" →
      fitsColumn .boolean (entry (normalItem lib source) name) = true := by
    intro name hname
    rw [hobject,entry_normalItem_flag lib hname]
    rfl
  by_cases hrequired : key = "required"
  · subst hrequired
    exact hflag _ (Or.inl rfl)
  by_cases hreadonly : key = "readonly"
  · subst hreadonly
    exact hflag _ (Or.inr rfl)
  by_cases hrules : key = "rules_json"
  · subst hrules
    cases hfield : isField (membersOf source) with
    | true =>
      rw [hobject,entry_normalItem_rules lib hfield hparse]
      split <;> rfl
    | false =>
      rw [hobject,entry_normalItem_unruled lib hfield]
      exact htext source hsource hfield
  rw [entry_normalItem lib hrequired hreadonly hrules]
  simp only [itemKeys,List.mem_cons,List.not_mem_nil,or_false,hrequired,hreadonly,hrules,false_or] at hkey
  rcases hkey with rfl | rfl | rfl | rfl | rfl | rfl | rfl | rfl
  · rw [hkind]
    rfl
  · exact fits_id (hids "field_id" (by simp))
  · exact fits_id (hids "relation_id" (by simp))
  · exact fits_id (hids "parent_field_id" (by simp))
  · exact fits_id (hids "filter_field_id" (by simp))
  · exact fits_text (htexts ("label_override",160) (by simp))
  · exact fits_text (htexts ("help_text",255) (by simp))
  · exact fits_text (htexts ("widget",30) (by simp))

end Accepted

end FormDesign
end Biggy
