import Biggy.TemplateConditions

/-!
# The rules of a template

A template that is set up on a form brings its rules with it: the states of the chosen fields are the states that the
template's own rules give to its fields.
-/
namespace Biggy
namespace FormTemplates

open FormRules FormDesign

section Reading

variable {ω : Type*} (lib : DesignLib ω)

/-- A field of a template as the rules see it. -/
def specField (name : String) (spec : FieldSpec) : MetaField where
  id := 0
  physName := name
  label := spec.label
  dataType := spec.type

/-- The field that an item of a template shows. -/
def shownName (source : TemplateItem) : Option String := if isField source.columns then source.field else none

/-- The fields of a template that its items show. -/
def shownFields (template : Template) : List MetaField :=
  (template.items.filterMap shownName).filterMap fun name => (template.fields.lookup name).map (specField name)

/-- The rules of an item of a template, on its own fields. -/
def sourceRules (template : Template) (source : TemplateItem) : Except PyError (List (String × FormRules.Item)) :=
  if isField source.columns then
    match source.field with
    | none => .error .keyError
    | some name =>
      match parseRules lib.toFormLib (Json.get source.columns "rules_json") with
      | .error e => .error e
      | .ok rules =>
        (validate lib.toFormLib (.obj rules) (shownFields template) name).map fun trees => [(name,{ rules := trees })]
  else .ok []

/-- The rules of a template by its fields. -/
def templateRules (template : Template) : Except PyError (List (String × FormRules.Item)) :=
  (template.items.mapM (sourceRules lib template)).map List.flatten

/-- The rules of a configuration by the fields of its form. -/
def configRules (site : Site) (config : Json) : Except PyError (List (String × FormRules.Item)) :=
  match (itemsOf config).foldlM (checkItem site) [] with
  | .error e => .error e
  | .ok used => ((itemsOf config).mapM (checkRules lib site used)).map List.flatten

end Reading

/-- The type of a field of a template. -/
def specType (template : Template) (name : String) : DataType :=
  ((template.fields.lookup name).map FieldSpec.type).getD .string

/-- The type of a field of the form's table. -/
def fieldType (S : Schema) (name : String) : DataType :=
  ((Keyed.find MetaField.physName name S.table.fields).map MetaField.dataType).getD .string

section Setup

variable {ω : Type*} {lib : DesignLib ω} {S : Schema} {template : Template} {mapped : List (String × MetaField)}
  {relationMapping filters : Members}

/-! ### The chosen fields -/

/-- Fields of the table that were chosen one by one, each of the type that the template has for it. -/
structure Chosen (S : Schema) (template : Template) (mapped : List (String × MetaField)) : Prop where
  ids : (mapped.map fun p => p.2.id).Nodup
  own : ∀ name f, mapped.lookup name = some f → f ∈ S.table.fields
  spec : ∀ name f, mapped.lookup name = some f → ∃ spec, template.fields.lookup name = some spec ∧ spec.type = f.dataType

theorem compatible_type {spec : FieldSpec} {f : MetaField} (h : compatible lib spec f = .ok true) : spec.type = f.dataType := by
  by_contra hne
  rw [compatible,if_pos hne] at h
  cases h

theorem mapField_ok {fieldMapping : Members} {p : String × FieldSpec} {q : String × MetaField}
    (h : mapField lib S fieldMapping p = .ok q) : q.1 = p.1 ∧ q.2 ∈ S.table.fields ∧ p.2.type = q.2.dataType := by
  rw [mapField] at h
  split at h
  · cases h
  rename_i f hf
  split at h
  · cases h
  rename_i fits hfits
  split_ifs at h with hyes
  obtain rfl := Except.ok.inj h
  subst hyes
  exact ⟨rfl,field_mem hf,compatible_type hfits⟩

theorem chosen_of_mapM {fieldMapping : Members} (h : template.fields.mapM (mapField lib S fieldMapping) = .ok mapped)
    (hids : (mapped.map fun p => p.2.id).Nodup) : Chosen S template mapped := by
  have hpairs := Outcome.mapM_ok h
  have hfound : ∀ {fields : List (String × FieldSpec)} {chosen : List (String × MetaField)},
      List.Forall₂ (fun p q => mapField lib S fieldMapping p = .ok q) fields chosen → ∀ name f, chosen.lookup name = some f →
        f ∈ S.table.fields ∧ ∃ spec, fields.lookup name = some spec ∧ spec.type = f.dataType := by
    intro fields chosen hpairs
    induction hpairs with
    | nil => exact fun name f hf => by cases hf
    | @cons p q fields chosen hpq _ ih =>
      intro name f hf
      obtain ⟨hname,hmem,htype⟩ := mapField_ok hpq
      obtain ⟨key,spec⟩ := p
      obtain ⟨key',g⟩ := q
      obtain rfl : key' = key := hname
      rw [List.lookup_cons] at hf ⊢
      cases hbeq : name == key' with
      | true =>
        rw [hbeq] at hf
        obtain rfl := Option.some.inj hf
        exact ⟨hmem,spec,rfl,htype⟩
      | false =>
        rw [hbeq] at hf
        exact ih name f hf
  exact ⟨hids,fun name f hf => (hfound hpairs name f hf).1,fun name f hf => (hfound hpairs name f hf).2⟩

theorem Chosen.injective (h : Chosen S template mapped) {a b : String} {f g : MetaField} (ha : mapped.lookup a = some f)
    (hb : mapped.lookup b = some g) (hname : f.physName = g.physName) : a = b := by
  have hsame : f = g := List.inj_on_of_nodup_map S.table.namesNodup (h.own a f ha) (h.own b g hb) hname
  obtain ⟨before,after,hsplit,-⟩ := List.lookup_eq_some_iff.mp ha
  obtain ⟨before',after',hsplit',-⟩ := List.lookup_eq_some_iff.mp hb
  have hfirst : (a,f) ∈ mapped := by simp [hsplit]
  have hsecond : (b,g) ∈ mapped := by simp [hsplit']
  have hpair : (a,f) = (b,g) := List.inj_on_of_nodup_map h.ids hfirst hsecond (by simp [hsame])
  exact congrArg Prod.fst hpair

theorem forall₂_mem {α β : Type*} {R : α → β → Prop} {xs : List α} {ys : List β} (h : List.Forall₂ R xs ys) {y : β} (hy : y ∈ ys) :
    ∃ x ∈ xs, R x y := by
  induction h with
  | nil => cases hy
  | cons hxy _ ih =>
    rcases List.mem_cons.mp hy with rfl | hy
    · exact ⟨_,List.mem_cons_self,hxy⟩
    · obtain ⟨x,hx,hr⟩ := ih hy
      exact ⟨x,List.mem_cons_of_mem _ hx,hr⟩

/-- The fields that the items show were chosen for the fields that the template shows. -/
theorem Chosen.corresponds (h : Chosen S template mapped) {used : List MetaField}
    (hused : List.Forall₂ (fun name f => mapped.lookup name = some f) (template.items.filterMap shownName) used) :
    Corresponds mapped (shownFields template) used := by
  intro name f g hf hfind
  have hname : g.physName = f.physName := Keyed.key_of_find hfind
  obtain ⟨other,hother,hlookup⟩ := forall₂_mem hused (Keyed.mem_of_find hfind)
  obtain rfl := h.injective hf hlookup hname.symm
  obtain rfl := Option.some.inj (hf.symm.trans hlookup)
  obtain ⟨spec,hspec,htype⟩ := h.spec name f hf
  have hmem : specField name spec ∈ shownFields template :=
    List.mem_filterMap.mpr ⟨name,hother,by rw [hspec]; rfl⟩
  cases hshown : Keyed.find MetaField.physName name (shownFields template) with
  | none => exact absurd rfl (Keyed.find_eq_none.mp hshown _ hmem)
  | some s =>
    refine ⟨s,rfl,?_⟩
    obtain ⟨other,-,hs⟩ := List.mem_filterMap.mp (Keyed.mem_of_find hshown)
    obtain ⟨spec',hspec',rfl⟩ := Option.map_eq_some_iff.mp hs
    obtain rfl : other = name := Keyed.key_of_find hshown
    obtain rfl := Option.some.inj (hspec.symm.trans hspec')
    exact htype

/-! ### The items that are set up -/

/-- The item that is set up for an item of the template: a field with its rules on the chosen fields, or no rules. -/
inductive SetUp (lib : DesignLib ω) (mapped : List (String × MetaField)) (source : TemplateItem) (members : Members) : Prop
  | field (name : String) (f : MetaField) (rules rules' : Members) : isField source.columns = true → source.field = some name →
    mapped.lookup name = some f → parseRules lib.toFormLib (Json.get source.columns "rules_json") = .ok rules →
    remapRules mapped [] rules = .ok rules' → isField members = true → Json.get members "field_id" = .int f.id →
    Json.get members "rules_json" = (if rules'.isEmpty then .null else .str (lib.dump (.obj rules'))) →
    SetUp lib mapped source members
  | other : isField source.columns = false → isField members = false → Json.get members "rules_json" = .null →
    SetUp lib mapped source members

theorem isField_plain {source : TemplateItem} : isField (plainItem source) = isField source.columns := by
  refine isField_congr ?_
  rw [get_plainItem (by decide)]
  rfl

theorem setUp_of_mapItem {source : TemplateItem} {item : Json} (h : mapItem lib S mapped relationMapping filters source = .ok item) :
    ∃ members, item = .obj members ∧ SetUp lib mapped source members := by
  rw [mapItem] at h
  split_ifs at h with hfield hrelation
  · obtain ⟨members,hmembers,rfl⟩ := Outcome.map_ok h
    refine ⟨members,rfl,?_⟩
    rw [mapFieldItem] at hmembers
    split at hmembers
    · cases hmembers
    rename_i name f hchosen
    obtain ⟨name',hname,hmap⟩ := Option.bind_eq_some_iff.mp hchosen
    obtain ⟨f',hf,hpair⟩ := Option.map_eq_some_iff.mp hmap
    obtain ⟨rfl,rfl⟩ := Prod.mk.inj hpair
    split at hmembers
    · cases hmembers
    rename_i rules hparse
    split at hmembers
    · cases hmembers
    rename_i rules' hremap
    have hsame (key : String) (hparent : key ≠ "parent_field_id") (hfilter : key ≠ "filter_field_id") :
        Json.get members key = Json.get (FormDesign.set (FormDesign.set (plainItem source) "field_id" (.int f'.id)) "rules_json"
          (if rules'.isEmpty then .null else .str (lib.dump (.obj rules')))) key := by
      rw [mapDropdown] at hmembers
      split at hmembers
      · obtain rfl := Except.ok.inj hmembers
        rfl
      split at hmembers
      · cases hmembers
      obtain ⟨id,-,rfl⟩ := Outcome.map_ok hmembers
      rw [get_set_other hfilter,get_set_other hparent]
    refine .field name' f' rules rules' hfield hname hf hparse hremap ?_ ?_ ?_
    · rw [← hfield,← isField_plain]
      refine isField_congr ?_
      rw [hsame "kind" (by decide) (by decide),get_set_other (by decide),get_set_other (by decide)]
    · rw [hsame "field_id" (by decide) (by decide),get_set_other (by decide),get_set_self]
    · rw [hsame "rules_json" (by decide) (by decide),get_set_self]
  · split at h
    · cases h
    obtain rfl := Except.ok.inj h
    have hplain : isField source.columns = false := Bool.eq_false_iff.mpr hfield
    refine ⟨_,rfl,.other hplain ?_ ?_⟩
    · rw [← hplain,← isField_plain]
      refine isField_congr ?_
      rw [get_set_other (by decide)]
    · rw [get_set_other (by decide),get_plainItem (by decide)]
      rfl
  · obtain rfl := Except.ok.inj h
    have hplain : isField source.columns = false := Bool.eq_false_iff.mpr hfield
    refine ⟨_,rfl,.other hplain ?_ ?_⟩
    · rw [isField_plain]
      exact hplain
    · rw [get_plainItem (by decide)]
      rfl

/-! ### The rules of the items -/

/-- The rules on the chosen fields are read from their text as they were written. -/
def RemapReadsBack (lib : DesignLib ω) (mapped : List (String × MetaField)) (source : TemplateItem) : Prop :=
  ∀ rules rules' read, parseRules lib.toFormLib (Json.get source.columns "rules_json") = .ok rules →
    remapRules mapped [] rules = .ok rules' → rules' ≠ [] → lib.loads (lib.dump (.obj rules')) = .ok (.obj read) →
      Same (.obj rules') (.obj read)

/-- The text of the rules on the chosen fields is read as the same rules. -/
theorem parse_remapped {source : TemplateItem} {rules rules' : Members} (hreads : RemapReadsBack lib mapped source)
    (hparse : parseRules lib.toFormLib (Json.get source.columns "rules_json") = .ok rules)
    (hremap : remapRules mapped [] rules = .ok rules') : ∃ read,
      parseRules lib.toFormLib (if rules'.isEmpty then .null else .str (lib.dump (.obj rules'))) = .ok read ∧
        Same (.obj rules') (.obj read) := by
  have hkeys := remapRules_keys (parseRules_keys hparse) hremap
  cases rules' with
  | nil =>
    refine ⟨[],rfl,.obj (fun _ => rfl) fun key => ?_⟩
    exact .null
  | cons p rest =>
    obtain ⟨htext,read,hloads,hne,hkeys',-⟩ := lib.dump_rules (p::rest) (List.cons_ne_nil _ _) hkeys
    refine ⟨read,?_,hreads _ _ _ hparse hremap (List.cons_ne_nil _ _) hloads⟩
    simp only [List.isEmpty_cons,Bool.false_eq_true,if_false,parseRules,if_neg htext,hloads]
    rw [if_pos (List.all_eq_true.mpr fun q hq => decide_eq_true (hkeys' q hq))]

/-- An entry of the rules with the fields that were chosen. -/
def mapEntry (mapped : List (String × MetaField)) (p : String × FormRules.Item) : String × FormRules.Item :=
  (chosenName mapped p.1,p.2.mapFields (chosenName mapped))

/-- The rules of an item that is set up are the template's rules on the chosen fields. -/
theorem SetUp.rules (hchosen : Chosen S template mapped) {used : List MetaField} (hused : Corresponds mapped (shownFields template) used)
    {source : TemplateItem} {members : Members} (h : SetUp lib mapped source members) (hreads : RemapReadsBack lib mapped source)
    {e : List (String × FormRules.Item)} (hrules : checkRules lib S.toSite used (.obj members) = .ok e) :
    ∃ own, sourceRules lib template source = .ok own ∧ e = own.map (mapEntry mapped) ∧
      own.map Prod.fst = (shownName source).toList ∧ ∀ p ∈ own, ∀ tree ∈ p.2.rules.trees, ∀ d ∈ references tree,
        ∃ s ∈ shownFields template, s.physName = d := by
  rw [checkRules] at hrules
  cases h with
  | field name f rules rules' hfield hname hlookup hparse hremap hkind hid htext =>
    obtain ⟨read,hread,hsame⟩ := parse_remapped hreads hparse hremap
    have hkeys := parseRules_keys hparse
    have hkeys' := remapRules_keys hkeys hremap
    have hfound : S.toSite.field (Json.get members "field_id") = some f := by
      rw [hid]
      exact field_id (hchosen.own name f hlookup)
    rw [htext,hread] at hrules
    dsimp only at hrules
    rw [hkind,hfound,Bool.not_true,if_neg (by decide)] at hrules
    obtain ⟨pair,hpair,rfl⟩ := Outcome.map_ok hrules
    rw [checkFieldRules] at hpair
    split at hpair
    · cases hpair
    rename_i trees hvalid
    split_ifs at hpair
    obtain rfl := Except.ok.inj hpair
    have htarget : f.physName = chosenName mapped name := (chosenName_eq hlookup).symm
    rw [htarget] at hvalid
    obtain ⟨result,hresult,rfl,hrefs⟩ := validate_chosen hused hkeys hremap ((validate_same hkeys' (parseRules_keys hread) hsame).mpr hvalid)
    refine ⟨[(name,{ rules := result })],?_,?_,?_,?_⟩
    · rw [sourceRules,if_pos hfield,hname]
      dsimp only
      rw [hparse]
      dsimp only
      rw [hresult]
      rfl
    · rw [List.map_singleton,mapEntry,htarget]
      rfl
    · rw [shownName,if_pos hfield,hname]
      rfl
    · intro p hp tree htree
      obtain rfl := List.mem_singleton.mp hp
      exact hrefs tree htree
  | other hfield hkind hnull =>
    have hnone : parseRules lib.toFormLib .null = .ok [] := rfl
    rw [hnull,hnone] at hrules
    dsimp only at hrules
    rw [hkind,Bool.not_false,if_pos rfl,if_pos List.isEmpty_nil] at hrules
    obtain rfl := Except.ok.inj hrules
    refine ⟨[],?_,rfl,?_,fun p hp => by cases hp⟩
    · rw [sourceRules,hfield]
      exact if_neg (by decide)
    · rw [shownName,hfield]
      rfl

/-- The fields of the items that are set up are those chosen for the fields that the template shows, each once. -/
theorem used_of_setUp (hchosen : Chosen S template mapped) {sources : List TemplateItem} {results : List Members}
    (h : List.Forall₂ (SetUp lib mapped) sources results) {start used : List MetaField} (hstart : start.Nodup)
    (hfold : (results.map Json.obj).foldlM (checkItem S.toSite) start = .ok used) : used.Nodup ∧ ∃ shown, used = start++shown ∧
      List.Forall₂ (fun name f => mapped.lookup name = some f) (sources.filterMap shownName) shown := by
  induction h generalizing start with
  | nil =>
    obtain rfl := Except.ok.inj hfold
    exact ⟨hstart,[],(List.append_nil _).symm,.nil⟩
  | @cons source members sources results hset _ ih =>
    rw [List.map_cons,Outcome.foldlM_cons] at hfold
    obtain ⟨next,hnext,hrest⟩ := Outcome.bind_ok hfold
    rw [checkItem] at hnext
    split at hnext
    · cases hnext
    rename_i members' kind hshape
    obtain ⟨heq,hkind,-,-⟩ := checkShape_ok hshape
    obtain rfl := Json.obj.inj heq
    rw [checkTarget] at hnext
    cases hset with
    | field name f rules rules' hfield hname hlookup hparse hremap hfielded hid htext =>
      have hfound : S.toSite.field (Json.get members "field_id") = some f := by
        rw [hid]
        exact field_id (hchosen.own name f hlookup)
      rw [if_pos ((isField_kind hkind).1.mp hfielded),hfound] at hnext
      dsimp only at hnext
      split_ifs at hnext with hused
      obtain rfl := Except.ok.inj hnext
      have hnext : (start++[f]).Nodup := List.nodup_append.mpr ⟨hstart,List.nodup_singleton f,fun g hg g' hg' => by
        obtain rfl := List.mem_singleton.mp hg'
        rintro rfl
        exact hused hg⟩
      obtain ⟨hnodup,shown,rfl,hshown⟩ := ih hnext hrest
      have hsource : shownName source = some name := by rw [shownName,if_pos hfield,hname]
      refine ⟨hnodup,f::shown,by rw [List.append_assoc]; rfl,?_⟩
      rw [List.filterMap_cons_some hsource]
      exact .cons hlookup hshown
    | other hfield hplain hnull =>
      have hkept : next = start := by
        rw [if_neg fun hk => by rw [(isField_kind hkind).1.mpr hk] at hplain; cases hplain] at hnext
        split_ifs at hnext
        · split at hnext
          · cases hnext
          split_ifs at hnext
          exact (Except.ok.inj hnext).symm
        · exact (Except.ok.inj hnext).symm
      subst hkept
      obtain ⟨hnodup,shown,rfl,hshown⟩ := ih hstart hrest
      have hsource : shownName source = none := by
        rw [shownName,hfield]
        rfl
      refine ⟨hnodup,shown,rfl,?_⟩
      rw [List.filterMap_cons_none hsource]
      exact hshown

/-! ### The configuration that is set up -/

/-- Normalising an accepted item keeps its settings, its target and its rules. -/
theorem mirrors_normal {members : Members} {used used' : List MetaField} (hnull : isField members = false → Json.get members "rules_json" = .null)
    (hitem : checkItem S.toSite used (.obj members) = .ok used') (hchecked : ItemChecked lib (.obj members)) :
    Mirrors lib (.obj members) (membersOf (normalItem lib (.obj members))) := by
  have hentry (key : String) : Json.get (membersOf (normalItem lib (.obj members))) key = entry (normalItem lib (.obj members)) key := rfl
  refine ⟨?_,fun key hkey => ?_,fun key hkey => ?_,?_,fun _ => ?_,fun _ => ?_,fun key hkey => ?_⟩
  · rw [checkItem] at hitem
    split at hitem
    · cases hitem
    rename_i members' kind hshape
    obtain ⟨heq,-,-,-⟩ := checkShape_ok hshape
    obtain rfl := Json.obj.inj heq
    exact keys_normal lib (checkShape_keys hshape)
  · rw [hentry]
    refine entry_normalItem lib ?_ ?_ ?_ _ <;>
      · rintro rfl
        revert hkey
        decide
  · have hflag : key = "required" ∨ key = "readonly" := by simpa using hkey
    rw [hentry,entry_normalItem_flag lib hflag]
    rfl
  · obtain ⟨rules,hparse⟩ := hchecked.rules
    rw [hentry,storedRules,hparse]
    cases hfield : isField members with
    | true => exact entry_normalItem_rules lib hfield hparse
    | false =>
      rw [entry_obj,hnull hfield] at hparse
      obtain rfl := Except.ok.inj hparse
      rw [entry_normalItem_unruled lib hfield,hnull hfield]
      rfl
  · rw [hentry]
    exact entry_normal (by decide) _
  · rw [hentry]
    exact entry_normal (by decide) _
  · rw [hentry,entry_normal (List.mem_cons_of_mem _ hkey)]
    exact hchecked.ids key hkey

/-- What was written for rules is read as rules with the same text. -/
theorem reads_of_text {members rules : Members} (hkeys : ∀ p ∈ rules, p.1 ∈ ["show","require","readonly"])
    (htext : Json.get members "rules_json" = if rules.isEmpty then .null else .str (lib.dump (.obj rules))) :
    ReadsBack lib (.obj members) := by
  intro read read' hne hparse hloads
  rw [entry_obj,htext] at hparse
  cases rules with
  | nil => exact absurd (Except.ok.inj hparse).symm hne
  | cons p rest =>
    obtain ⟨hdumped,written,hwritten,-,hkeys',hdump⟩ := lib.dump_rules (p::rest) (List.cons_ne_nil _ _) hkeys
    simp only [List.isEmpty_cons,Bool.false_eq_true,if_false,parseRules,if_neg hdumped,hwritten] at hparse
    rw [if_pos (List.all_eq_true.mpr fun q hq => decide_eq_true (hkeys' q hq))] at hparse
    obtain rfl := Except.ok.inj hparse
    rw [hdump,hwritten] at hloads
    obtain rfl := Json.obj.inj (Except.ok.inj hloads)
    exact same_refl _

theorem SetUp.reads {source : TemplateItem} {members : Members} (h : SetUp lib mapped source members) : ReadsBack lib (.obj members) := by
  cases h with
  | field name f rules rules' hfield hname hlookup hparse hremap hkind hid htext =>
    exact reads_of_text (remapRules_keys (parseRules_keys hparse) hremap) htext
  | other hfield hkind hnull =>
    exact @reads_of_text _ lib members [] (List.forall_mem_nil _) hnull

theorem SetUp.unruled {source : TemplateItem} {members : Members} (h : SetUp lib mapped source members)
    (hfield : isField members = false) : Json.get members "rules_json" = .null := by
  cases h with
  | field name f rules rules' hsource hname hlookup hparse hremap hkind hid htext => cases hfield.symm.trans hkind
  | other _ _ hnull => exact hnull

/-- The rules of the items that are set up, item by item. -/
theorem rules_of_setUp (hchosen : Chosen S template mapped) {used : List MetaField} (hused : Corresponds mapped (shownFields template) used)
    {sources : List TemplateItem} {results : List Members} (h : List.Forall₂ (SetUp lib mapped) sources results)
    (hreads : ∀ source ∈ sources, RemapReadsBack lib mapped source) {entries : List (List (String × FormRules.Item))}
    (hrules : (results.map Json.obj).mapM (checkRules lib S.toSite used) = .ok entries) :
    ∃ own, sources.mapM (sourceRules lib template) = .ok own ∧ entries.flatten = own.flatten.map (mapEntry mapped) ∧
      own.flatten.map Prod.fst = sources.filterMap shownName ∧ ∀ p ∈ own.flatten, ∀ tree ∈ p.2.rules.trees,
        ∀ d ∈ references tree, ∃ s ∈ shownFields template, s.physName = d := by
  induction h generalizing entries with
  | nil =>
    obtain rfl := Except.ok.inj hrules
    exact ⟨[],rfl,rfl,rfl,fun p hp => by cases hp⟩
  | @cons source members sources results hset _ ih =>
    rw [List.map_cons,List.mapM_cons] at hrules
    obtain ⟨e,he,hrest⟩ := Outcome.bind_ok hrules
    obtain ⟨es,hes,hpure⟩ := Outcome.bind_ok hrest
    obtain rfl := Except.ok.inj hpure
    obtain ⟨own,hown,rfl,hname,hrefs⟩ := hset.rules hchosen hused (hreads source List.mem_cons_self) he
    obtain ⟨owns,howns,hflat,hnames,hall⟩ := ih (fun source hsource => hreads source (List.mem_cons_of_mem _ hsource)) hes
    refine ⟨own::owns,?_,?_,?_,fun p hp => ?_⟩
    · rw [List.mapM_cons,hown,howns]
      rfl
    · rw [List.flatten_cons,List.flatten_cons,hflat,List.map_append]
    · rw [List.flatten_cons,List.map_append,hname,hnames]
      cases hshown : shownName source with
      | none => rw [List.filterMap_cons_none hshown,Option.toList_none,List.nil_append]
      | some name => rw [List.filterMap_cons_some hshown,Option.toList_some,List.singleton_append]
    · rw [List.flatten_cons] at hp
      rcases List.mem_append.mp hp with hp | hp
      · exact hrefs p hp
      · exact hall p hp

theorem puts_of_nodup {β : Type*} {xs : List (String × β)} (h : (xs.map Prod.fst).Nodup) : Keyed.puts Prod.fst xs = xs := by
  have hfold : ∀ (out : List (String × β)), ((out++xs).map Prod.fst).Nodup →
      xs.foldl (fun out x => Keyed.put Prod.fst x out) out = out++xs := by
    clear h
    induction xs with
    | nil => exact fun out _ => (List.append_nil out).symm
    | cons x xs ih =>
      intro out hnodup
      have hfresh : ∀ y ∈ out, y.1 ≠ x.1 := by
        rw [List.map_append,List.nodup_append] at hnodup
        exact fun y hy => hnodup.2.2 y.1 (List.mem_map_of_mem hy) x.1 List.mem_cons_self
      rw [List.foldl_cons,put_fresh hfresh,ih _ (by rwa [List.append_assoc,List.singleton_append]),List.append_assoc,
        List.singleton_append]
  exact hfold [] h

/-- The rules of a configuration that was set up are the template's rules on the chosen fields, which refer to shown fields. -/
structure Renames (mapped : List (String × MetaField)) (rules rules' : List (String × FormRules.Item)) : Prop where
  entries : rules' = rules.map (mapEntry mapped)
  nodup : (rules.map Prod.fst).Nodup
  chosen : ∀ name ∈ rules.map Prod.fst, ∃ f, mapped.lookup name = some f
  closed : ∀ p ∈ rules, ∀ tree ∈ p.2.rules.trees, ∀ d ∈ references tree, d ∈ rules.map Prod.fst

theorem Renames.names {rules rules' : List (String × FormRules.Item)} (h : Renames mapped rules rules') :
    rules'.map Prod.fst = (rules.map Prod.fst).map (chosenName mapped) := by
  rw [h.entries,List.map_map,List.map_map]
  rfl

theorem Renames.toMapped {rules rules' : List (String × FormRules.Item)} (h : Renames mapped rules rules')
    (hchosen : Chosen S template mapped) : Mapped (chosenName mapped) (rulesConfig rules) (rulesConfig rules') := by
  have hinjective : ∀ a ∈ rules.map Prod.fst, ∀ b ∈ rules.map Prod.fst, chosenName mapped a = chosenName mapped b → a = b := by
    intro a ha b hb heq
    obtain ⟨f,hf⟩ := h.chosen a ha
    obtain ⟨g,hg⟩ := h.chosen b hb
    rw [chosenName_eq hf,chosenName_eq hg] at heq
    exact hchosen.injective hf hg heq
  have hitems : (rulesConfig rules).items = rules := puts_of_nodup h.nodup
  have hnodup : (rules'.map Prod.fst).Nodup := by
    rw [h.names]
    exact List.Nodup.map_on hinjective h.nodup
  have hitems' : (rulesConfig rules').items = rules' := puts_of_nodup hnodup
  refine ⟨?_,?_,?_⟩
  · rw [hitems,hitems',h.entries]
    rfl
  · rw [FormConfig.names,hitems]
    exact hinjective
  · rw [FormConfig.names,hitems]
    exact h.closed

/-- The steps of a mapping that is accepted. -/
theorem mapConfig_ok {form : MetaForm} {fieldMapping relationMapping filters : Json} {result : Json × List Issue}
    (h : mapConfig lib S form template fieldMapping relationMapping filters = .ok result) :
    ∃ mapped results, template.fields.mapM (mapField lib S (membersOf fieldMapping)) = .ok mapped ∧
      (mapped.map fun p => p.2.id).Nodup ∧
      template.items.mapM (mapItem lib S mapped (membersOf relationMapping) (membersOf filters)) = .ok results ∧
      validateConfig lib S.toSite (.obj (settled form template results)) = .ok result := by
  rw [mapConfig.eq_def] at h
  split_ifs at h
  split at h
  · rw [mapMembers] at h
    split at h
    · cases h
    split at h
    · cases h
    rename_i mapped hmapped
    split_ifs at h with hids
    split at h
    · cases h
    split at h
    · cases h
    rename_i results hresults
    exact ⟨mapped,results,hmapped,hids,hresults,h⟩
  · cases h

theorem setUp_of_mapM {sources : List TemplateItem} {results : List Json}
    (h : sources.mapM (mapItem lib S mapped relationMapping filters) = .ok results) :
    ∃ members : List Members, results = members.map .obj ∧ List.Forall₂ (SetUp lib mapped) sources members := by
  have hpairs := Outcome.mapM_ok h
  clear h
  induction hpairs with
  | nil => exact ⟨[],rfl,.nil⟩
  | cons hitem _ ih =>
    obtain ⟨first,rfl,hset⟩ := setUp_of_mapItem hitem
    obtain ⟨rest,rfl,hrest⟩ := ih
    exact ⟨first::rest,rfl,.cons hset hrest⟩

theorem map_lookup {names : List String} {shown : List MetaField}
    (h : List.Forall₂ (fun name f => mapped.lookup name = some f) names shown) :
    names.map (fun name => mapped.lookup name) = shown.map some := by
  induction h with
  | nil => rfl
  | cons hname _ ih => rw [List.map_cons,List.map_cons,hname,ih]

/-- The rules of a configuration that is set up are those of the template on the chosen fields. -/
theorem renames_of_mapConfig {form : MetaForm} {fieldMapping relationMapping filters config : Json} {issues : List Issue}
    (h : mapConfig lib S form template fieldMapping relationMapping filters = .ok (config,issues))
    (hmapped : template.fields.mapM (mapField lib S (membersOf fieldMapping)) = .ok mapped)
    (hreads : ∀ source ∈ template.items, RemapReadsBack lib mapped source) :
    Chosen S template mapped ∧ ∃ rules rules', templateRules lib template = .ok rules ∧ configRules lib S.toSite config = .ok rules' ∧
      Renames mapped rules rules' ∧ ∃ names, order lib.arrangement (rulesConfig rules') = .ok names := by
  obtain ⟨mapped',results,hmapped',hids,hresults,hvalid⟩ := mapConfig_ok h
  obtain rfl := Except.ok.inj (hmapped.symm.trans hmapped')
  have hchosen := chosen_of_mapM hmapped hids
  obtain ⟨members,rfl,hset⟩ := setUp_of_mapM hresults
  obtain ⟨hconfig,-,used,entries,haccepted⟩ := accepted_of_validate hvalid
  dsimp only at hconfig
  subst hconfig
  have hitems : itemsOf (.obj (settled form template (members.map .obj))) = members.map .obj := rfl
  rw [hitems] at haccepted
  obtain ⟨hnodup,shown,hused,hshown⟩ := used_of_setUp hchosen hset List.nodup_nil haccepted.fold
  rw [List.nil_append] at hused
  subst hused
  obtain ⟨own,hown,hflat,hnames,hrefs⟩ := rules_of_setUp hchosen (hchosen.corresponds hshown) hset hreads haccepted.rules
  refine ⟨hchosen,own.flatten,entries.flatten,by rw [templateRules,hown]; rfl,?_,⟨hflat,?_,?_,?_⟩,haccepted.ordered⟩
  · have hnormal : itemsOf (normalise lib (.obj (settled form template (members.map .obj)))) =
        (members.map fun m => membersOf (normalItem lib (.obj m))).map .obj := by
      rw [itemsOf_settled,List.map_map,List.map_map]
      rfl
    have hmirrors : List.Forall₂ (fun item mirror => Mirrors lib item mirror ∧ ReadsBack lib item) (members.map .obj)
        (members.map fun m => membersOf (normalItem lib (.obj m))) := by
      rw [List.forall₂_map_left_iff,List.forall₂_map_right_iff,List.forall₂_same]
      intro m hm
      obtain ⟨source,-,hsource⟩ := forall₂_mem hset hm
      obtain ⟨t,t',hchecked⟩ := Outcome.foldlM_mem haccepted.fold (List.mem_map_of_mem hm)
      obtain ⟨e,he⟩ := Outcome.mapM_mem haccepted.rules (List.mem_map_of_mem hm)
      exact ⟨mirrors_normal hsource.unruled hchecked (checkItem_ok hchecked he),hsource.reads⟩
    have hmirrored := accepted_mirrors haccepted hmirrors
    rw [configRules,hnormal,hmirrored.fold]
    dsimp only
    rw [hmirrored.rules]
    rfl
  · rw [hnames]
    refine List.Nodup.of_map (fun name => mapped.lookup name) ?_
    rw [map_lookup hshown]
    exact hnodup.map (Option.some_injective _)
  · rw [hnames]
    intro name hname
    obtain ⟨f,-,hf⟩ := forall₂_mem hshown.flip hname
    exact ⟨f,hf⟩
  · intro p hp tree htree d hd
    obtain ⟨s,hs,rfl⟩ := hrefs p hp tree htree d hd
    obtain ⟨name,hname,hspec⟩ := List.mem_filterMap.mp hs
    obtain ⟨spec,-,rfl⟩ := Option.map_eq_some_iff.mp hspec
    rw [hnames]
    exact hname

theorem type_of_chosen (hchosen : Chosen S template mapped) {name : String} {f : MetaField} (hf : mapped.lookup name = some f) :
    fieldType S (chosenName mapped name) = specType template name := by
  obtain ⟨spec,hspec,htype⟩ := hchosen.spec name f hf
  have hfind : Keyed.find MetaField.physName f.physName S.table.fields = some f :=
    Keyed.find_of_mem S.table.namesNodup (hchosen.own name f hf)
  rw [chosenName_eq hf,fieldType,hfind,specType,hspec]
  exact htype.symm

/-- What is locked, required, entered and stored of the chosen fields is what is so of the template's fields. -/
structure Carried {ω : Type*} (σ : String → String) (names : List String) (locked required locked' required' : String → Bool)
    (values trusted values' trusted' : String → Option (FieldData ω)) : Prop where
  locked : ∀ name ∈ names, locked' (σ name) = locked name
  required : ∀ name ∈ names, required' (σ name) = required name
  values : ∀ name ∈ names, values' (σ name) = values name
  trusted : ∀ name ∈ names, trusted' (σ name) = trusted name

/-- The chosen fields of a form that a template is set up on have the states of the template's fields, whatever the values
are and in whatever order references are gone through. -/
theorem states_setUp (lib : DesignLib ω) (S : Schema) (form : MetaForm) (template : Template)
    (fieldMapping relationMapping filters config : Json) (issues : List Issue) (mapped : List (String × MetaField))
    (hmap : mapConfig lib S form template fieldMapping relationMapping filters = .ok (config,issues))
    (hmapped : template.fields.mapM (mapField lib S (membersOf fieldMapping)) = .ok mapped)
    (hreads : ∀ source ∈ template.items, RemapReadsBack lib mapped source) :
    ∃ rules rules', templateRules lib template = .ok rules ∧ configRules lib S.toSite config = .ok rules' ∧
      rules'.map Prod.fst = (rules.map Prod.fst).map (chosenName mapped) ∧
      ∀ (first second : Arrangement) (locked required locked' required' : String → Bool)
        (values trusted values' trusted' : String → Option (FieldData ω)),
        Carried (chosenName mapped) (rules.map Prod.fst) locked required locked' required' values trusted values' trusted' →
        ∃ result result',
          states first lib.toFormLib ((rulesConfig rules).dressed (specType template) locked required) values trusted = .ok result ∧
          states second lib.toFormLib ((rulesConfig rules').dressed (fieldType S) locked' required') values' trusted' = .ok result' ∧
          ∀ name ∈ rules.map Prod.fst, (result.lookup name).isSome = true ∧
            result'.lookup (chosenName mapped name) = result.lookup name := by
  obtain ⟨hchosen,rules,rules',hrules,hrules',hrenames,names,horder⟩ := renames_of_mapConfig hmap hmapped hreads
  refine ⟨rules,rules',hrules,hrules',hrenames.names,?_⟩
  intro first second locked required locked' required' values trusted values' trusted' hcarried
  have hnames : (rulesConfig rules).names = rules.map Prod.fst := congrArg (List.map Prod.fst) (puts_of_nodup hrenames.nodup)
  have hdressed : Mapped (chosenName mapped) ((rulesConfig rules).dressed (specType template) locked required)
      ((rulesConfig rules').dressed (fieldType S) locked' required') := by
    refine (hrenames.toMapped hchosen).dressed (fun name hname => ?_) ?_ ?_
    · obtain ⟨f,hf⟩ := hrenames.chosen name (hnames ▸ hname)
      exact type_of_chosen hchosen hf
    · rw [hnames]
      exact hcarried.locked
    · rw [hnames]
      exact hcarried.required
  have hcircular : ¬((rulesConfig rules').dressed (fieldType S) locked' required').Circular := by
    rw [dressed_circular,circular_iff,not_not]
    exact acyclic_of_order horder
  have hstates := states_mapped lib.toFormLib hdressed hcircular first second
    (by rw [dressed_names,hnames]; exact hcarried.values) (by rw [dressed_names,hnames]; exact hcarried.trusted)
  rwa [dressed_names,hnames] at hstates

end Setup

/-! ### A choice that becomes an answer -/

/-- The rules of the template on the chosen fields. -/
def answerRule : Members := [("require",.obj [("field",.str "answer"),("op",.str "eq"),("value",.str "yes")])]

def answerText : String := "\x7b\"require\":\x7b\"field\":\"answer\",\"op\":\"eq\",\"value\":\"yes\"\x7d\x7d"

theorem answerText_ne : answerText ≠ "" := by decide

theorem answerRule_ne : answerRule ≠ [] := List.cons_ne_nil _ _

theorem answerRule_tops : ∀ p ∈ answerRule, p.1 ∈ ["show","require","readonly"] := by decide

def answerLib : DesignLib String where
  toFormLib := { plainLib with
    loads := fun s =>
      if s = ruleText then .ok (.obj oneRule)
      else if s = answerText then .ok (.obj answerRule)
      else .error (.valueError "Expecting value") }
  dump := fun _ => answerText
  digest := fun _ => ""
  arrangement := ⟨id,mem_listed⟩
  dump_rules := fun _ _ _ => ⟨answerText_ne,answerRule,rfl,answerRule_ne,answerRule_tops,rfl⟩

def answer : MetaField where
  id := 1
  physName := "answer"
  label := "Answer"
  dataType := .string

def note : MetaField where
  id := 2
  physName := "note"
  label := "Note"
  dataType := .string

def answerTable : MetaTable where
  id := 1
  physName := "template_target"
  label := "Target"
  fields := [answer,note]
  idsNodup := by decide
  namesNodup := by decide
  namesFree := by decide

def answerSchema : Schema where
  table := answerTable
  tableColumns := .null
  schema := .null
  relation := fun _ => none
  check := fun _ => []
  tableAt := fun id => if id = 1 then some answerTable else none
  relationName := fun _ => ""
  idsPositive := by
    intro id t ht
    split_ifs at ht
    obtain rfl := Option.some.inj ht
    decide

/-- A choice, and a detail that is required for one answer. -/
def answerTemplate : Template where
  description := .null
  purpose := .str "data"
  fields := [("choice",⟨"Choice",.string,.arr []⟩),("detail",⟨"Detail",.string,.arr []⟩)]
  relations := []
  items := [
    { columns := [("kind",.str "field"),("rules_json",.null)], field := some "choice" },
    { columns := [("kind",.str "field"),("rules_json",.str ruleText)], field := some "detail" }]

theorem reads_answer : ∀ source ∈ answerTemplate.items, RemapReadsBack answerLib [("choice",answer),("detail",note)] source := by
  refine List.forall_mem_cons.mpr ⟨?_,List.forall_mem_singleton.mpr ?_⟩
  · intro rules rules' read hparse hremap hne
    obtain rfl : [] = rules := Except.ok.inj hparse
    exact absurd (Except.ok.inj hremap).symm hne
  · intro rules rules' read hparse hremap _ hloads
    obtain rfl : oneRule = rules := Except.ok.inj hparse
    obtain rfl : answerRule = rules' := Except.ok.inj hremap
    obtain rfl : answerRule = read := Json.obj.inj (Except.ok.inj hloads)
    exact same_refl _

/-- The note is required where the detail is: for the same answer. -/
theorem states_setUp_answer : ∃ config rules rules', mapConfig answerLib answerSchema sourceForm answerTemplate
      (.obj [("choice",.int 1),("detail",.int 2)]) (.obj []) (.obj []) = .ok (config,[]) ∧
    templateRules answerLib answerTemplate = .ok rules ∧ configRules answerLib answerSchema.toSite config = .ok rules' ∧
    ∀ values : String → Option (FieldData String), ∃ result result',
      states answerLib.arrangement answerLib.toFormLib ((rulesConfig rules).dressed (specType answerTemplate) (fun _ => false) fun _ => false)
        (fun name => values (chosenName [("choice",answer),("detail",note)] name)) (fun _ => none) = .ok result ∧
      states answerLib.arrangement answerLib.toFormLib ((rulesConfig rules').dressed (fieldType answerSchema) (fun _ => false) fun _ => false)
        values (fun _ => none) = .ok result' ∧
      ∀ name ∈ rules.map Prod.fst, (result.lookup name).isSome = true ∧
        result'.lookup (chosenName [("choice",answer),("detail",note)] name) = result.lookup name := by
  obtain ⟨config,hmap⟩ : ∃ config, mapConfig answerLib answerSchema sourceForm answerTemplate
      (.obj [("choice",.int 1),("detail",.int 2)]) (.obj []) (.obj []) = .ok (config,[]) := ⟨_,rfl⟩
  obtain ⟨rules,rules',hrules,hrules',-,hstates⟩ := states_setUp answerLib answerSchema sourceForm answerTemplate
    (.obj [("choice",.int 1),("detail",.int 2)]) (.obj []) (.obj []) config [] [("choice",answer),("detail",note)] hmap rfl reads_answer
  refine ⟨config,rules,rules',hmap,hrules,hrules',fun values => ?_⟩
  exact hstates _ _ _ _ _ _ _ _ _ _ ⟨fun _ _ => rfl,fun _ _ => rfl,fun _ _ => rfl,fun _ _ => rfl⟩

end FormTemplates
end Biggy
