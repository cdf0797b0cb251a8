import Biggy.TemplateCapture

/-!
# Items that are accepted alike

The check of a configuration accepts items that mirror accepted ones: the same settings, the same target and the same rules
from their text.
-/
namespace Biggy
namespace FormTemplates

open FormRules FormDesign

section Accepted

variable {ω : Type*} {lib : DesignLib ω} {S : Schema}

/-! ### Accepted configurations -/

/-- What the checks of a configuration go through. -/
structure Accepted (lib : DesignLib ω) (S : Schema) (items : List Json) (used : List MetaField)
    (entries : List (List (String × FormRules.Item))) : Prop where
  few : items.length ≤ 200
  fold : items.foldlM (checkItem S.toSite) [] = .ok used
  rules : items.mapM (checkRules lib S.toSite used) = .ok entries
  ordered : ∃ names, order lib.arrangement (rulesConfig entries.flatten) = .ok names

theorem accepted_of_validate {config : Json} {result : Json × List Issue} (h : validateConfig lib S.toSite config = .ok result) :
    result.1 = normalise lib config ∧ checkSettings (membersOf config) = .ok () ∧
      ∃ used entries, Accepted lib S (itemsOf config) used entries := by
  obtain ⟨rfl,hsettings,-,hfew,hchecked⟩ := validateConfig_passes h
  obtain ⟨used,entries,hfold,hrules,hordered⟩ := checkItems_passes hchecked
  exact ⟨rfl,hsettings,used,entries,hfew,hfold,hrules,hordered⟩

theorem validate_of_accepted {members : Members} {items : List Json} {used : List MetaField}
    {entries : List (List (String × FormRules.Item))} (hkeys : hasKeys members = true) (hsettings : checkSettings members = .ok ())
    (hitems : Json.get members "items" = .arr items) (h : Accepted lib S items used entries) :
    validateConfig lib S.toSite (.obj members) =
      .ok (normalise lib (.obj members),S.check (normalise lib (.obj members))) := by
  obtain ⟨hfew,hfold,hrules,names,hnames⟩ := h
  have hchecked : checkItems lib S.toSite items = .ok () := by
    rw [checkItems,hfold]
    dsimp only
    rw [hrules]
    dsimp only
    rw [hnames]
    rfl
  rw [validateConfig,hkeys,hsettings,hitems]
  simp only [Bool.not_true,Bool.false_eq_true,if_false]
  rw [if_neg (not_lt.mpr hfew),hchecked]
  rfl

/-! ### Accepted items -/

/-- The rules of an item as a text. -/
def storedRules (lib : DesignLib ω) (item : Json) : Json :=
  match parseRules lib.toFormLib (entry item "rules_json") with
  | .ok rules => if rules.isEmpty then .null else .str (lib.dump (.obj rules))
  | .error _ => .null

/-- The rules of an item are read from their text as they were written. -/
def ReadsBack (lib : DesignLib ω) (item : Json) : Prop :=
  ∀ rules rules', rules ≠ [] → parseRules lib.toFormLib (entry item "rules_json") = .ok rules →
    lib.loads (lib.dump (.obj rules)) = .ok (.obj rules') → Same (.obj rules) (.obj rules')

/-- An item with the settings, the target and the rules of another one. -/
structure Mirrors (lib : DesignLib ω) (item : Json) (members : Members) : Prop where
  keys : (members.all fun p => p.1 ∈ itemKeys) = true
  plain : ∀ key ∈ ["kind","label_override","help_text","widget"], Json.get members key = entry item key
  flags : ∀ key ∈ ["required","readonly"], Json.get members key = .bool (entry item key).truthy
  rules : Json.get members "rules_json" = storedRules lib item
  field : isField (membersOf item) = true → Json.get members "field_id" = entry item "field_id"
  relation : isRelation (membersOf item) = true → Json.get members "relation_id" = entry item "relation_id"
  ids : ∀ key ∈ ["field_id","relation_id","parent_field_id","filter_field_id"], validId (Json.get members key) = true

theorem checkShape_kind {item : Json} {members : Members} {kind : String} (h : checkShape item = .ok (members,kind)) :
    kind ∈ ["field","relation","section"] := by
  cases item with
  | obj m =>
    rw [checkShape] at h
    split at h
    · cases h
    split at h
    · cases h
    split at h
    · cases h
    rename_i k hfilter
    split at h
    · cases h
    split at h
    · cases h
    split at h
    · cases h
    cases h
    exact of_decide_eq_true (Option.filter_eq_some_iff.mp hfilter).2
  | _ => cases h

theorem isBool_iff {value : Json} : isBool value = true ↔ ∃ b, value = .bool b := by
  cases value <;> simp [isBool]

theorem checkShape_of {members : Members} {kind : String} (hkeys : (members.all fun p => p.1 ∈ itemKeys) = true)
    (hkind : Json.get members "kind" = .str kind) (hmem : kind ∈ ["field","relation","section"])
    (hids : ∀ key ∈ ["field_id","relation_id","parent_field_id","filter_field_id"], validId (Json.get members key) = true)
    (hflags : ∀ key ∈ ["required","readonly"], isBool (Json.get members key) = true)
    (htexts : ∀ p ∈ [("label_override",160),("help_text",255),("widget",30)], shortText p.2 (Json.get members p.1) = true) :
    checkShape (.obj members) = .ok (members,kind) := by
  obtain ⟨required,hrequired⟩ : ∃ b, Json.get members "required" = .bool b := isBool_iff.mp (hflags "required" (by decide))
  obtain ⟨readonly,hreadonly⟩ : ∃ b, Json.get members "readonly" = .bool b := isBool_iff.mp (hflags "readonly" (by decide))
  have hid : (["field_id","relation_id","parent_field_id","filter_field_id"].all fun key => validId (Json.get members key)) = true :=
    List.all_eq_true.mpr hids
  have htext : [("label_override",160),("help_text",255),("widget",30)].find? (fun p => !shortText p.2 (Json.get members p.1)) = none := by
    rw [List.find?_eq_none]
    intro p hp
    rw [htexts p hp]
    decide
  have hfilter : (some kind).filter (· ∈ ["field","relation","section"]) = some kind := by
    rw [Option.filter_some,if_pos (decide_eq_true hmem)]
  rw [checkShape,hkeys,hkind]
  simp only [readName,Bool.not_true,Bool.false_eq_true,if_false]
  rw [hfilter,hid,htext]
  simp only [List.all_cons,List.all_nil,hrequired,hreadonly]
  rfl

theorem isField_kind {members : Members} {kind : String} (h : Json.get members "kind" = .str kind) :
    (isField members = true ↔ kind = "field") ∧ (isRelation members = true ↔ kind = "relation") := by
  rw [isField,isRelation,h]
  exact ⟨decide_eq_true_iff,decide_eq_true_iff⟩

theorem checkItem_mirrors {item : Json} {members : Members} {used used' : List MetaField} (hmirror : Mirrors lib item members)
    (h : checkItem S.toSite used item = .ok used') : checkItem S.toSite used (.obj members) = .ok used' := by
  rw [checkItem] at h
  split at h
  · cases h
  rename_i source kind hshape
  obtain ⟨rfl,hkind,hids,htexts⟩ := checkShape_ok hshape
  have hplain := hmirror.plain
  simp only [entry_obj] at hplain
  have hkind' : Json.get members "kind" = .str kind := (hplain "kind" (by decide)).trans hkind
  have hshape' : checkShape (.obj members) = .ok (members,kind) := by
    refine checkShape_of hmirror.keys hkind' (checkShape_kind hshape) hmirror.ids (fun key hkey => ?_) fun p hp => ?_
    · rw [hmirror.flags key hkey]
      rfl
    · have hkey : p.1 ∈ ["kind","label_override","help_text","widget"] := by
        simp only [List.mem_cons,List.not_mem_nil,or_false] at hp
        rcases hp with rfl | rfl | rfl <;> decide
      rw [hplain p.1 hkey]
      exact htexts p hp
  rw [checkItem,hshape']
  dsimp only
  rw [checkTarget] at h ⊢
  by_cases hfield : kind = "field"
  · rw [if_pos hfield] at h ⊢
    rw [hmirror.field ((isField_kind hkind).1.mpr hfield)]
    exact h
  · rw [if_neg hfield] at h ⊢
    by_cases hrelation : kind = "relation"
    · rw [if_pos hrelation] at h ⊢
      rw [hmirror.relation ((isField_kind hkind).2.mpr hrelation)]
      exact h
    · rw [if_neg hrelation] at h ⊢
      rw [hplain "label_override" (by decide)]
      exact h

/-- The text of rules is read as the same rules. -/
theorem parse_stored {item : Json} (hreads : ReadsBack lib item) {rules : Members}
    (hparse : parseRules lib.toFormLib (entry item "rules_json") = .ok rules) : ∃ rules',
      parseRules lib.toFormLib (storedRules lib item) = .ok rules' ∧ Same (.obj rules) (.obj rules') ∧
      (if rules'.isEmpty then .null else .str (lib.dump (.obj rules'))) = storedRules lib item := by
  have hstored : storedRules lib item = if rules.isEmpty then .null else .str (lib.dump (.obj rules)) := by
    rw [storedRules,hparse]
  rw [hstored]
  cases rules with
  | nil =>
    refine ⟨[],rfl,.obj (fun _ => rfl) (fun key => ?_),rfl⟩
    exact .null
  | cons p rules =>
    obtain ⟨htext,rules',hloads,hne,hkeys',hdump⟩ := lib.dump_rules (p::rules) (List.cons_ne_nil _ _) (parseRules_keys hparse)
    obtain ⟨q,rest,rfl⟩ := List.exists_cons_of_ne_nil hne
    refine ⟨q::rest,?_,hreads _ _ (List.cons_ne_nil _ _) hparse hloads,?_⟩
    · simp only [List.isEmpty_cons,Bool.false_eq_true,if_false,parseRules,if_neg htext,hloads]
      rw [if_pos (List.all_eq_true.mpr fun q hq => decide_eq_true (hkeys' q hq))]
    · simp only [List.isEmpty_cons,Bool.false_eq_true,if_false,hdump]

theorem isEmpty_same {rules rules' : Members} (h : Same (.obj rules) (.obj rules')) : rules.isEmpty = rules'.isEmpty := by
  cases rules with
  | nil =>
    cases rules' with
    | nil => rfl
    | cons p rules' =>
      have hkey := same_isSome h p.1
      rw [List.lookup_cons,beq_self_eq_true] at hkey
      cases hkey
  | cons p rules =>
    cases rules' with
    | nil =>
      have hkey := same_isSome h p.1
      rw [List.lookup_cons,beq_self_eq_true] at hkey
      cases hkey
    | cons => rfl

theorem checkFieldRules_same {used : List MetaField} {rules rules' : Members} {f : MetaField} {e : String × FormRules.Item}
    (hkeys : ∀ p ∈ rules, p.1 ∈ ["show","require","readonly"]) (hkeys' : ∀ p ∈ rules', p.1 ∈ ["show","require","readonly"])
    (hsame : Same (.obj rules) (.obj rules')) (h : checkFieldRules lib used rules f = .ok e) :
    checkFieldRules lib used rules' f = .ok e := by
  rw [checkFieldRules] at h ⊢
  split at h
  · cases h
  rename_i trees hvalid
  rw [(validate_same hkeys hkeys' hsame).mp hvalid,← isEmpty_same hsame,← same_isSome hsame,← same_isSome hsame]
  exact h

theorem checkRules_mirrors {item : Json} {members : Members} {used : List MetaField} {e : List (String × FormRules.Item)}
    (hmirror : Mirrors lib item members) (hreads : ReadsBack lib item) (h : checkRules lib S.toSite used item = .ok e) :
    checkRules lib S.toSite used (.obj members) = .ok e := by
  cases item with
  | obj source =>
    rw [checkRules] at h
    split at h
    · cases h
    rename_i rules hparse
    obtain ⟨rules',hparse',hsame,-⟩ := parse_stored hreads hparse
    have hkind : isField members = isField source := isField_congr (hmirror.plain "kind" (by decide))
    rw [checkRules,hmirror.rules,hparse']
    dsimp only
    rw [hkind,← isEmpty_same hsame]
    by_cases hfield : isField source = true
    · rw [hfield,Bool.not_true,if_neg (by decide)] at h ⊢
      rw [hmirror.field hfield]
      rw [entry_obj]
      split at h
      · cases h
      · obtain ⟨pair,hpair,rfl⟩ := Outcome.map_ok h
        rw [checkFieldRules_same (parseRules_keys hparse) (parseRules_keys hparse') hsame hpair]
        rfl
    · rw [Bool.not_eq_true] at hfield
      rw [hfield,Bool.not_false,if_pos rfl] at h ⊢
      exact h
  | _ => cases h

/-- Items that mirror accepted ones are accepted. -/
theorem accepted_mirrors {items : List Json} {mirrored : List Members} {used : List MetaField}
    {entries : List (List (String × FormRules.Item))} (h : Accepted lib S items used entries)
    (hmirrors : List.Forall₂ (fun item members => Mirrors lib item members ∧ ReadsBack lib item) items mirrored) :
    Accepted lib S (mirrored.map .obj) used entries := by
  obtain ⟨hfew,hfold,hrules,hnames⟩ := h
  refine ⟨by rwa [List.length_map,← hmirrors.length_eq],?_,?_,hnames⟩
  · clear hrules hnames hfew
    generalize ([] : List MetaField) = start at hfold
    induction hmirrors generalizing start with
    | nil => exact hfold
    | cons hm _ ih =>
      rw [Outcome.foldlM_cons] at hfold
      obtain ⟨t,ht,hrest⟩ := Outcome.bind_ok hfold
      rw [List.map_cons,Outcome.foldlM_cons,checkItem_mirrors hm.1 ht]
      exact ih _ hrest
  · clear hfold hnames hfew
    induction hmirrors generalizing entries with
    | nil => exact hrules
    | cons hm _ ih =>
      rw [List.mapM_cons] at hrules
      obtain ⟨e,he,hrest⟩ := Outcome.bind_ok hrules
      obtain ⟨es,hes,hpure⟩ := Outcome.bind_ok hrest
      rw [List.map_cons,List.mapM_cons,checkRules_mirrors hm.1 hm.2 he,ih hes]
      exact hpure

end Accepted

end FormTemplates
end Biggy
