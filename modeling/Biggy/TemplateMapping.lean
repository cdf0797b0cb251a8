import Biggy.TemplateItems

/-!
# The items that a template gives back

With every field and every relation in its own place the row of an item gives back the settings and the rules of the item.
Its references come back where the item is `Portable`.
-/
namespace Biggy
namespace FormTemplates

open FormRules FormDesign

section Items

variable {ω : Type*} {lib : DesignLib ω} {S : Schema}

/-! ### The same items -/

/-- The same item: its kind, its targets, its texts, its rules and its match field, which may have been left open. -/
structure SameItem (lib : DesignLib ω) (item item' : Json) : Prop where
  columns : ∀ key ∈ ["kind","field_id","relation_id","parent_field_id","label_override","help_text","widget"],
    entry item' key = entry item key
  flags : ∀ key ∈ ["required","readonly"], entry item' key = .bool (entry item key).truthy
  rules : entry item' "rules_json" = storedRules lib item
  filter : entry item' "filter_field_id" = entry item "filter_field_id" ∨
    entry item "filter_field_id" = .null ∧ entry item "parent_field_id" ≠ .null

/-- The references of an item are those of another one. -/
structure SameRefs (item : Json) (members : Members) : Prop where
  refs : ∀ key ∈ ["field_id","relation_id","parent_field_id"], Json.get members key = entry item key
  filter : Json.get members "filter_field_id" = entry item "filter_field_id" ∨
    entry item "filter_field_id" = .null ∧ entry item "parent_field_id" ≠ .null

/-- An item that mirrors another one is the same item when its references are. -/
theorem same_iff_refs {item : Json} {members : Members} (hmirror : Mirrors lib item members) (hreads : ReadsBack lib item)
    (hparse : ∃ rules, parseRules lib.toFormLib (entry item "rules_json") = .ok rules) :
    SameItem lib item (normalItem lib (.obj members)) ↔ SameRefs item members := by
  have hother : ∀ key, key ≠ "required" → key ≠ "readonly" → key ≠ "rules_json" →
      entry (normalItem lib (.obj members)) key = Json.get members key :=
    fun key hrequired hreadonly hrules => entry_normalItem lib hrequired hreadonly hrules _
  constructor
  · intro h
    refine ⟨fun key hkey => ?_,?_⟩
    · simp only [List.mem_cons,List.not_mem_nil,or_false] at hkey
      rcases hkey with rfl | rfl | rfl <;>
        · rw [← hother _ (by decide) (by decide) (by decide)]
          exact h.columns _ (by decide)
    · rw [← hother _ (by decide) (by decide) (by decide)]
      exact h.filter
  · intro h
    refine ⟨fun key hkey => ?_,fun key hkey => ?_,?_,?_⟩
    · by_cases hplain : key ∈ ["kind","label_override","help_text","widget"]
      · rw [hother key (by rintro rfl; revert hplain; decide) (by rintro rfl; revert hplain; decide)
          (by rintro rfl; revert hplain; decide)]
        exact hmirror.plain key hplain
      · have href : key ∈ ["field_id","relation_id","parent_field_id"] := by
          simp only [List.mem_cons,List.not_mem_nil,or_false] at hkey hplain ⊢
          tauto
        rw [hother key (by rintro rfl; revert href; decide) (by rintro rfl; revert href; decide)
          (by rintro rfl; revert href; decide)]
        exact h.refs key href
    · have hflag : key = "required" ∨ key = "readonly" := by simpa using hkey
      rw [entry_normalItem_flag lib hflag,hmirror.flags key hkey]
      rfl
    · obtain ⟨rules,hrules⟩ := hparse
      obtain ⟨rules',hparse',-,htext⟩ := parse_stored hreads hrules
      cases hfield : isField members with
      | true =>
        rw [← hmirror.rules] at hparse'
        rw [entry_normalItem_rules lib hfield hparse',htext]
      | false => rw [entry_normalItem_unruled lib hfield,hmirror.rules]
    · rw [hother _ (by decide) (by decide) (by decide)]
      exact h.filter

/-! ### Portable items -/

/-- The dependent dropdown has its parent on the form and one match field, which is the captured one if there is one. -/
structure DropdownFits (S : Schema) (items : List Json) (item : Json) (f parent : MetaField) : Prop where
  named : parent.physName ≠ ""
  onForm : OnForm S items parent
  only : entry item "filter_field_id" = .null → ∃ g, candidates S f parent = [g]
  chosen : ∀ n, entry item "filter_field_id" = .int n → n ∈ (candidates S f parent).map fun g => (g.id : ℤ)

/-- An item refers only to what its kind uses, and its dropdown fits. -/
structure Portable (S : Schema) (items : List Json) (item : Json) : Prop where
  unfielded : isField (membersOf item) = false → entry item "field_id" = .null ∧ entry item "parent_field_id" = .null ∧
    entry item "filter_field_id" = .null
  unrelated : isRelation (membersOf item) = false → entry item "relation_id" = .null
  unparented : isField (membersOf item) = true → entry item "parent_field_id" = .null → entry item "filter_field_id" = .null
  dropdown : isField (membersOf item) = true → ∀ f parent, S.field (entry item "field_id") = some f →
    S.field (entry item "parent_field_id") = some parent → DropdownFits S items item f parent

/-! ### The items that a template gives -/

theorem columns_fieldRow (item : Json) (f : MetaField) : (fieldRow S item f).columns = columnsOf item := by
  rw [fieldRow]
  split <;> rfl

theorem get_columnsOf {item : Json} {key : String} (h : key ∈ copied) : Json.get (columnsOf item) key = entry item key := by
  rw [Json.get,columnsOf,lookup_table (entry item) h,Option.getD_some]

theorem get_plainItem {row : TemplateItem} {key : String} (h : key ∈ itemKeys) : Json.get (plainItem row) key =
    if key ∈ copied ∧ key ≠ "rules_json" then Json.get row.columns key else .null := by
  rw [Json.get,plainItem,lookup_table (fun key => if key ∈ copied ∧ key ≠ "rules_json" then Json.get row.columns key else Json.null) h,
    Option.getD_some]

theorem keys_plainItem (row : TemplateItem) : ((plainItem row).all fun p => p.1 ∈ itemKeys) = true := by
  rw [plainItem,List.all_map,List.all_eq_true]
  exact fun key hkey => decide_eq_true hkey

/-- The columns of a row as the item of the template has them. -/
theorem plain_normalItem {item : Json} {row : TemplateItem} (hobject : item = .obj (membersOf item))
    (hcolumns : row.columns = columnsOf (normalItem lib item)) :
    (∀ key ∈ ["kind","label_override","help_text","widget"], Json.get (plainItem row) key = entry item key) ∧
      (∀ key ∈ ["required","readonly"], Json.get (plainItem row) key = .bool (entry item key).truthy) ∧
      ∀ key ∈ ["field_id","relation_id","parent_field_id","filter_field_id","rules_json"], Json.get (plainItem row) key = .null := by
  refine ⟨fun key hkey => ?_,fun key hkey => ?_,fun key hkey => ?_⟩
  · simp only [List.mem_cons,List.not_mem_nil,or_false] at hkey
    rcases hkey with rfl | rfl | rfl | rfl <;>
      · rw [get_plainItem (by decide),if_pos (by decide),hcolumns,get_columnsOf (by decide)]
        exact entry_normalItem lib (by decide) (by decide) (by decide) _
  · have hflag : key = "required" ∨ key = "readonly" := by simpa using hkey
    have hcopied : key ∈ itemKeys ∧ key ∈ copied ∧ key ≠ "rules_json" := by rcases hflag with rfl | rfl <;> decide
    rw [get_plainItem hcopied.1,if_pos hcopied.2,hcolumns,get_columnsOf hcopied.2.1,hobject,entry_normalItem_flag lib hflag]
    rfl
  · simp only [List.mem_cons,List.not_mem_nil,or_false] at hkey
    rcases hkey with rfl | rfl | rfl | rfl | rfl <;> rw [get_plainItem (by decide),if_neg (by decide)]

/-! ### The match field -/

theorem filter_unique {xs : List MetaField} (hnodup : (xs.map MetaField.physName).Nodup) {x : MetaField} (hx : x ∈ xs) :
    xs.filter (fun f => decide (some f.physName = some x.physName)) = [x] := by
  refine Keyed.filter_unique hnodup.of_map hx fun y hy => ?_
  rw [decide_eq_true_eq,Option.some_inj]
  constructor
  · exact List.inj_on_of_nodup_map hnodup hy hx
  · rintro rfl
    rfl

theorem mem_candidates {f parent g : MetaField} (h : g ∈ candidates S f parent) :
    ∃ target, S.related f = some target ∧ g ∈ target.fields := by
  rw [candidates] at h
  split at h
  · cases h
  · rename_i target htarget
    exact ⟨target,htarget,(List.mem_filter.mp h).1⟩

/-- The match field is one of the candidates. -/
theorem matchField_mem {f parent : MetaField} {captured : Option String} {n : ℤ}
    (h : matchField S f parent captured .null = .ok n) : ∃ g ∈ candidates S f parent, n = g.id := by
  rw [matchField] at h
  split at h
  · rename_i g hg
    obtain rfl := Except.ok.inj h
    have hmem : g ∈ (candidates S f parent).filter fun f => decide (some f.physName = captured) := by
      rw [hg]
      exact List.mem_singleton_self g
    exact ⟨g,(List.mem_filter.mp hmem).1,rfl⟩
  · split at h
    · rename_i g hg
      obtain rfl := Except.ok.inj h
      exact ⟨g,by rw [hg]; exact List.mem_singleton_self g,rfl⟩
    · cases h

/-- A captured candidate is found again by its name. -/
theorem matchField_chosen {f parent : MetaField} {n : ℤ} (h : n ∈ (candidates S f parent).map fun g => (g.id : ℤ)) :
    matchField S f parent (((S.related f).bind fun target => fieldIn target (.int n)).map MetaField.physName) .null = .ok n := by
  obtain ⟨g,hg,rfl⟩ := List.mem_map.mp h
  obtain ⟨target,htarget,hmem⟩ := mem_candidates hg
  have hfind : fieldIn target (.int g.id) = some g := by
    simp only [fieldIn,Nat.cast_inj]
    exact Keyed.find_of_mem target.idsNodup hmem
  have hnames : ((candidates S f parent).map MetaField.physName).Nodup := by
    rw [candidates,htarget]
    exact Keyed.nodup_filter _ target.namesNodup
  rw [htarget,Option.bind_some,hfind,Option.map_some,matchField,filter_unique hnames hg]

/-- The only candidate is taken where the match field was left open. -/
theorem matchField_only {f parent g : MetaField} (h : candidates S f parent = [g]) :
    matchField S f parent none .null = .ok g.id := by
  rw [matchField,h]
  rfl

theorem matchField_open {f parent : MetaField} {n : ℤ} (h : matchField S f parent none .null = .ok n) :
    ∃ g, candidates S f parent = [g] := by
  have hnone : (candidates S f parent).filter (fun f => decide (some f.physName = none)) = [] := by
    rw [List.filter_eq_nil_iff]
    intro g _ hg
    cases of_decide_eq_true hg
  rw [matchField,hnone] at h
  dsimp only at h
  split at h
  · rename_i g hg
    exact ⟨g,hg⟩
  · cases h

/-! ### One item -/

/-- What the checks say of an item that they accept. -/
structure ItemOk (lib : DesignLib ω) (S : Schema) (used : List MetaField) (item : Json) : Prop where
  checked : ItemChecked lib item
  rules : ∃ entries, checkRules lib S.toSite used item = .ok entries
  reads : ReadsBack lib item

theorem stored_unruled {used : List MetaField} {item : Json} (h : ItemOk lib S used item)
    (hfield : isField (membersOf item) = false) : storedRules lib item = .null := by
  obtain ⟨entries,hentries⟩ := h.rules
  rw [h.checked.object,checkRules] at hentries
  obtain ⟨rules,hparse⟩ := h.checked.rules
  have hparse' : parseRules lib.toFormLib (Json.get (membersOf item) "rules_json") = .ok rules := hparse
  rw [hparse',hfield] at hentries
  rw [storedRules,hparse]
  simp only [Bool.not_false,if_true] at hentries
  split_ifs at hentries with hempty
  simp only [hempty,if_true]

theorem entry_normal {key : String} (h : key ∈ ["kind","field_id","relation_id","parent_field_id","filter_field_id"]) (item : Json) :
    entry (normalItem lib item) key = entry item key := by
  refine entry_normalItem lib ?_ ?_ ?_ item <;>
    · rintro rfl
      revert h
      decide

theorem isField_row {item : Json} {row : TemplateItem} (hcolumns : row.columns = columnsOf (normalItem lib item)) :
    isField row.columns = isField (membersOf item) ∧ isRelation row.columns = isRelation (membersOf item) := by
  have hkind : Json.get row.columns "kind" = Json.get (membersOf item) "kind" := by
    rw [hcolumns,get_columnsOf (by decide)]
    exact entry_normal (by decide) item
  rw [isField,isField,isRelation,isRelation,hkind]
  exact ⟨rfl,rfl⟩

theorem isField_normal (item : Json) : isField (membersOf (normalItem lib item)) = isField (membersOf item) ∧
    isRelation (membersOf (normalItem lib item)) = isRelation (membersOf item) := by
  have hkind : Json.get (membersOf (normalItem lib item)) "kind" = Json.get (membersOf item) "kind" :=
    @entry_normal _ lib "kind" (by decide) item
  rw [isField,isField,isRelation,isRelation,hkind]
  exact ⟨rfl,rfl⟩

variable {items : List Json} {used : List MetaField} {item : Json} {row : TemplateItem} {mapped : List (String × MetaField)}
  {relationMapping : Members}

/-- A section has its own settings and no references. -/
theorem plain_mirrors (hitem : ItemOk lib S used item) (hcolumns : row.columns = columnsOf (normalItem lib item))
    (hfield : isField (membersOf item) = false) (hrelation : isRelation (membersOf item) = false) :
    Mirrors lib item (plainItem row) ∧ (SameRefs item (plainItem row) ↔ Portable S items item) := by
  obtain ⟨hplain,hflags,hnull⟩ := plain_normalItem hitem.checked.object hcolumns
  have hids : ∀ key ∈ ["field_id","relation_id","parent_field_id","filter_field_id"], Json.get (plainItem row) key = .null :=
    fun key hkey => hnull key (by revert hkey; simp; tauto)
  refine ⟨⟨keys_plainItem row,hplain,hflags,?_,fun h => ?_,fun h => ?_,fun key hkey => ?_⟩,?_⟩
  · rw [hnull "rules_json" (by decide),stored_unruled hitem hfield]
  · rw [hfield] at h
    cases h
  · rw [hrelation] at h
    cases h
  · rw [hids key hkey]
    rfl
  · constructor
    · intro h
      have href := fun key hkey => (hids key (by revert hkey; simp; tauto)).symm.trans (h.refs key hkey)
      refine ⟨fun _ => ⟨(href "field_id" (by decide)).symm,(href "parent_field_id" (by decide)).symm,?_⟩,
        fun _ => (href "relation_id" (by decide)).symm,fun h' => ?_,fun h' => ?_⟩
      · rcases h.filter with heq | ⟨hopen,-⟩
        · rw [← heq,hids _ (by decide)]
        · exact hopen
      · rw [hfield] at h'
        cases h'
      · rw [hfield] at h'
        cases h'
    · intro h
      obtain ⟨hid,hparent,hfilter⟩ := h.unfielded hfield
      refine ⟨fun key hkey => ?_,Or.inl ?_⟩
      · rw [hids key (by revert hkey; simp; tauto)]
        simp only [List.mem_cons,List.not_mem_nil,or_false] at hkey
        rcases hkey with rfl | rfl | rfl
        · exact hid.symm
        · exact (h.unrelated hrelation).symm
        · exact hparent.symm
      · rw [hids _ (by decide),hfilter]

theorem relation_mirrors (hitem : ItemOk lib S used item) (hcolumns : row.columns = columnsOf (normalItem lib item))
    (hfield : isField (membersOf item) = false) (hrelation : isRelation (membersOf item) = true) :
    Mirrors lib item (FormDesign.set (plainItem row) "relation_id" (entry item "relation_id")) ∧
      (SameRefs item (FormDesign.set (plainItem row) "relation_id" (entry item "relation_id")) ↔ Portable S items item) := by
  obtain ⟨hplain,hflags,hnull⟩ := plain_normalItem hitem.checked.object hcolumns
  have hother : ∀ key, key ≠ "relation_id" → Json.get (FormDesign.set (plainItem row) "relation_id" (entry item "relation_id")) key =
      Json.get (plainItem row) key := fun key hkey => get_set_other hkey _ _
  have hown : Json.get (FormDesign.set (plainItem row) "relation_id" (entry item "relation_id")) "relation_id" =
      entry item "relation_id" := get_set_self _ _ _
  have hids : ∀ key ∈ ["field_id","parent_field_id","filter_field_id"],
      Json.get (FormDesign.set (plainItem row) "relation_id" (entry item "relation_id")) key = .null := by
    intro key hkey
    rw [hother key (by rintro rfl; revert hkey; decide)]
    exact hnull key (by revert hkey; simp; tauto)
  refine ⟨⟨keys_set (by decide) (keys_plainItem row),fun key hkey => ?_,fun key hkey => ?_,?_,fun h => ?_,fun _ => hown,
    fun key hkey => ?_⟩,?_⟩
  · rw [hother key (by rintro rfl; revert hkey; decide)]
    exact hplain key hkey
  · rw [hother key (by rintro rfl; revert hkey; decide)]
    exact hflags key hkey
  · rw [hother _ (by decide),hnull "rules_json" (by decide),stored_unruled hitem hfield]
  · rw [hfield] at h
    cases h
  · by_cases hkind : key = "relation_id"
    · subst hkind
      rw [hown]
      exact hitem.checked.ids "relation_id" (by decide)
    · rw [hids key (by revert hkey; simp [hkind])]
      rfl
  · constructor
    · intro h
      have hfieldId := h.refs "field_id" (by decide)
      have hparentId := h.refs "parent_field_id" (by decide)
      rw [hids _ (by decide)] at hfieldId hparentId
      refine ⟨fun _ => ⟨hfieldId.symm,hparentId.symm,?_⟩,fun h' => ?_,fun h' => ?_,fun h' => ?_⟩
      · rcases h.filter with heq | ⟨hopen,-⟩
        · rw [← heq,hids _ (by decide)]
        · exact hopen
      · rw [hrelation] at h'
        cases h'
      · rw [hfield] at h'
        cases h'
      · rw [hfield] at h'
        cases h'
    · intro h
      obtain ⟨hid,hparent,hfilter⟩ := h.unfielded hfield
      refine ⟨fun key hkey => ?_,Or.inl ?_⟩
      · simp only [List.mem_cons,List.not_mem_nil,or_false] at hkey
        rcases hkey with rfl | rfl | rfl
        · rw [hids _ (by decide),hid]
        · exact hown
        · rw [hids _ (by decide),hparent]
      · rw [hids _ (by decide),hfilter]

/-! ### The item of a field -/

/-- The item of a field before its dropdown. -/
def fieldItem (lib : DesignLib ω) (row : TemplateItem) (item : Json) (f : MetaField) : Members :=
  FormDesign.set (FormDesign.set (plainItem row) "field_id" (.int f.id)) "rules_json" (storedRules lib item)

theorem get_fieldItem (hobject : item = .obj (membersOf item)) (hcolumns : row.columns = columnsOf (normalItem lib item))
    {f : MetaField} : (∀ key ∈ ["kind","label_override","help_text","widget"], Json.get (fieldItem lib row item f) key = entry item key) ∧
      (∀ key ∈ ["required","readonly"], Json.get (fieldItem lib row item f) key = .bool (entry item key).truthy) ∧
      Json.get (fieldItem lib row item f) "field_id" = .int f.id ∧
      Json.get (fieldItem lib row item f) "rules_json" = storedRules lib item ∧
      ∀ key ∈ ["relation_id","parent_field_id","filter_field_id"], Json.get (fieldItem lib row item f) key = .null := by
  obtain ⟨hplain,hflags,hnull⟩ := plain_normalItem hobject hcolumns
  have hother : ∀ key, key ≠ "field_id" → key ≠ "rules_json" →
      Json.get (fieldItem lib row item f) key = Json.get (plainItem row) key := by
    intro key hid hrules
    rw [fieldItem,get_set_other hrules,get_set_other hid]
  refine ⟨fun key hkey => ?_,fun key hkey => ?_,?_,get_set_self _ _ _,fun key hkey => ?_⟩
  · rw [hother key (by rintro rfl; revert hkey; decide) (by rintro rfl; revert hkey; decide)]
    exact hplain key hkey
  · rw [hother key (by rintro rfl; revert hkey; decide) (by rintro rfl; revert hkey; decide)]
    exact hflags key hkey
  · rw [fieldItem,get_set_other (by decide),get_set_self]
  · rw [hother key (by rintro rfl; revert hkey; decide) (by rintro rfl; revert hkey; decide)]
    exact hnull key (by revert hkey; simp; tauto)

theorem fieldItem_mirrors (hitem : ItemOk lib S used item) (hcolumns : row.columns = columnsOf (normalItem lib item))
    (hfield : isField (membersOf item) = true) {f : MetaField} (hf : S.field (entry item "field_id") = some f) :
    Mirrors lib item (fieldItem lib row item f) := by
  obtain ⟨hplain,hflags,hid,hrules,hnull⟩ := get_fieldItem (f := f) hitem.checked.object hcolumns
  have hown : Json.get (fieldItem lib row item f) "field_id" = entry item "field_id" := hid.trans (id_of_field hf).symm
  refine ⟨keys_set (by decide) (keys_set (by decide) (keys_plainItem row)),hplain,hflags,hrules,fun _ => hown,fun h => ?_,
    fun key hkey => ?_⟩
  · rw [kinds_exclude hfield] at h
    cases h
  · by_cases hkind : key = "field_id"
    · subst hkind
      rw [hown]
      exact hitem.checked.ids "field_id" (by decide)
    · rw [hnull key (by revert hkey; simp [hkind])]
      rfl

theorem mirrors_set {members : Members} (h : Mirrors lib item members) {key : String} {value : Json}
    (hkey : key = "parent_field_id" ∨ key = "filter_field_id") (hvalue : validId value = true) :
    Mirrors lib item (FormDesign.set members key value) := by
  have hother : ∀ other, other ≠ "parent_field_id" → other ≠ "filter_field_id" →
      Json.get (FormDesign.set members key value) other = Json.get members other := by
    intro other hparent hfilter
    exact get_set_other (by rcases hkey with rfl | rfl <;> assumption) _ _
  refine ⟨keys_set (by rcases hkey with rfl | rfl <;> decide) h.keys,fun other ho => ?_,fun other ho => ?_,?_,fun hf => ?_,
    fun hr => ?_,fun other ho => ?_⟩
  · rw [hother other (by rintro rfl; revert ho; decide) (by rintro rfl; revert ho; decide)]
    exact h.plain other ho
  · rw [hother other (by rintro rfl; revert ho; decide) (by rintro rfl; revert ho; decide)]
    exact h.flags other ho
  · rw [hother _ (by decide) (by decide)]
    exact h.rules
  · rw [hother _ (by decide) (by decide)]
    exact h.field hf
  · rw [hother _ (by decide) (by decide)]
    exact h.relation hr
  · by_cases heq : other = key
    · subst heq
      rw [get_set_self]
      exact hvalue
    · rw [get_set_other heq]
      exact h.ids other ho

/-- The rules of a field that is accepted. -/
theorem field_validated (hitem : ItemOk lib S used item) (hfield : isField (membersOf item) = true) {f : MetaField}
    (hf : S.field (entry item "field_id") = some f) : ∃ rules result,
      parseRules lib.toFormLib (entry item "rules_json") = .ok rules ∧
      validate lib.toFormLib (.obj rules) used f.physName = .ok result := by
  obtain ⟨entries,hentries⟩ := hitem.rules
  rw [hitem.checked.object,checkRules] at hentries
  obtain ⟨rules,hparse⟩ := hitem.checked.rules
  have hparse' : parseRules lib.toFormLib (Json.get (membersOf item) "rules_json") = .ok rules := hparse
  have hf' : S.toSite.field (Json.get (membersOf item) "field_id") = some f := hf
  rw [hparse',hfield,hf'] at hentries
  obtain ⟨pair,hpair,-⟩ := Outcome.map_ok hentries
  rw [checkFieldRules] at hpair
  split at hpair
  · cases hpair
  · rename_i result hresult
    exact ⟨rules,result,hparse,hresult⟩

/-- The rules of a field are mapped to themselves. -/
theorem mapItem_field (hitem : ItemOk lib S used item) (hfield : isField (membersOf item) = true) {f : MetaField}
    (hf : S.field (entry item "field_id") = some f) (hmapped : ∀ g ∈ used, mapped.lookup g.physName = some g)
    (hown : mapped.lookup f.physName = some f) :
    mapItem lib S mapped relationMapping [] (fieldRow S (normalItem lib item) f) =
      (mapDropdown S mapped [] (fieldRow S (normalItem lib item) f) f.physName f
        (fieldItem lib (fieldRow S (normalItem lib item) f) item f)).map .obj := by
  obtain ⟨rules,result,hparse,hvalid⟩ := field_validated hitem hfield hf
  obtain ⟨rules',hparse',hsame,htext⟩ := parse_stored hitem.reads hparse
  have hcolumns := columns_fieldRow (S:=S) (normalItem lib item) f
  have hname : (fieldRow S (normalItem lib item) f).field = some f.physName := by
    rw [fieldRow]
    split <;> rfl
  have hstored : entry (normalItem lib item) "rules_json" = storedRules lib item := by
    rw [hitem.checked.object,entry_normalItem_rules lib hfield hparse,storedRules,← hitem.checked.object,hparse]
  have hread : parseRules lib.toFormLib (Json.get (fieldRow S (normalItem lib item) f).columns "rules_json") = .ok rules' := by
    rw [hcolumns,get_columnsOf (by decide),hstored,hparse']
  have hremap : remapRules mapped [] rules' = .ok rules' :=
    remapRules_valid (parseRules_keys hparse')
      ((validate_same (parseRules_keys hparse) (parseRules_keys hparse') hsame).mp hvalid) hmapped
  rw [mapItem,(isField_row hcolumns).1,if_pos hfield,mapFieldItem,hname,Option.bind_some,hown,Option.map_some]
  dsimp only
  rw [hread]
  dsimp only
  rw [hremap]
  dsimp only
  rw [htext]
  rfl

/-- What the mapping makes of the row of an item. -/
structure Maps (lib : DesignLib ω) (S : Schema) (mapped : List (String × MetaField)) (relationMapping : Members)
    (items : List Json) (item : Json) (row : TemplateItem) : Prop where
  mirrors : ∀ result, mapItem lib S mapped relationMapping [] row = .ok result →
    ∃ members, result = .obj members ∧ Mirrors lib item members ∧ (SameRefs item members → Portable S items item)
  returns : Portable S items item →
    ∃ members, mapItem lib S mapped relationMapping [] row = .ok (.obj members) ∧ SameRefs item members

theorem dropdown_absent (hparent : entry item "parent_field_id" = .null) (f : MetaField) {members : Members} :
    mapDropdown S mapped [] (fieldRow S (normalItem lib item) f) f.physName f members = .ok members := by
  have hnone : (fieldRow S (normalItem lib item) f).parent = none := by
    rw [fieldRow,entry_normal (by decide),hparent,if_neg (by decide)]
  rw [mapDropdown,hnone]
  rfl

theorem dropdown_some {parent : MetaField} (htruthy : (entry item "parent_field_id").truthy = true)
    (hparent : S.field (entry item "parent_field_id") = some parent) (f : MetaField) :
    (fieldRow S (normalItem lib item) f).parent = some parent.physName ∧
      (fieldRow S (normalItem lib item) f).filter =
        ((S.related f).bind fun target => fieldIn target (entry item "filter_field_id")).map MetaField.physName := by
  rw [fieldRow,entry_normal (by decide),if_pos htruthy,hparent,entry_normal (by decide)]
  exact ⟨rfl,rfl⟩

theorem validId_cases {value : Json} (h : validId value = true) : value = .null ∨ ∃ n : ℤ, 1 ≤ n ∧ value = .int n := by
  cases value with
  | null => exact Or.inl rfl
  | int n => exact Or.inr ⟨n,of_decide_eq_true h,rfl⟩
  | _ => cases h

theorem candidate_valid {f parent g : MetaField} (h : g ∈ candidates S f parent) : validId (.int g.id) = true := by
  obtain ⟨target,htarget,hg⟩ := mem_candidates h
  obtain ⟨id,-,hid⟩ := Option.bind_eq_some_iff.mp htarget
  have hpos := S.idsPositive id target hid g hg
  exact decide_eq_true (by exact_mod_cast hpos)

/-- The references of an item with a parent and a match field. -/
theorem refs_dropdown (hobject : item = .obj (membersOf item)) (hcolumns : row.columns = columnsOf (normalItem lib item)) {f : MetaField}
    (hf : S.field (entry item "field_id") = some f) {parent : MetaField}
    (hparent : S.field (entry item "parent_field_id") = some parent) {n : ℤ} :
    SameRefs item (FormDesign.set (FormDesign.set (fieldItem lib row item f) "parent_field_id" (.int parent.id))
      "filter_field_id" (.int n)) ↔ entry item "relation_id" = .null ∧
        (entry item "filter_field_id" = .int n ∨ entry item "filter_field_id" = .null) := by
  obtain ⟨-,-,hid,-,hnull⟩ := get_fieldItem (f := f) hobject hcolumns
  have hparentId := id_of_field hparent
  have hown : Json.get (FormDesign.set (FormDesign.set (fieldItem lib row item f) "parent_field_id" (.int parent.id))
      "filter_field_id" (.int n)) "filter_field_id" = .int n := get_set_self _ _ _
  have hrelation : Json.get (FormDesign.set (FormDesign.set (fieldItem lib row item f) "parent_field_id" (.int parent.id))
      "filter_field_id" (.int n)) "relation_id" = .null := by
    rw [get_set_other (by decide),get_set_other (by decide),hnull _ (by decide)]
  constructor
  · intro h
    refine ⟨(h.refs "relation_id" (by decide)).symm.trans hrelation,?_⟩
    rcases h.filter with heq | ⟨hopen,-⟩
    · exact Or.inl (heq.symm.trans hown)
    · exact Or.inr hopen
  · rintro ⟨hnone,hfilter⟩
    refine ⟨fun key hkey => ?_,?_⟩
    · simp only [List.mem_cons,List.not_mem_nil,or_false] at hkey
      rcases hkey with rfl | rfl | rfl
      · rw [get_set_other (by decide),get_set_other (by decide),hid,id_of_field hf]
      · rw [hrelation,hnone]
      · rw [get_set_other (by decide),get_set_self,hparentId]
    · rcases hfilter with heq | hopen
      · exact Or.inl (hown.trans heq.symm)
      · exact Or.inr ⟨hopen,by rw [hparentId]; exact fun h => by cases h⟩

/-- The references of an item without a parent. -/
theorem refs_alone (hobject : item = .obj (membersOf item)) (hcolumns : row.columns = columnsOf (normalItem lib item)) {f : MetaField}
    (hf : S.field (entry item "field_id") = some f) : SameRefs item (fieldItem lib row item f) ↔
      entry item "relation_id" = .null ∧ entry item "parent_field_id" = .null ∧ entry item "filter_field_id" = .null := by
  obtain ⟨-,-,hid,-,hnull⟩ := get_fieldItem (f := f) hobject hcolumns
  constructor
  · intro h
    have href : ∀ key ∈ ["relation_id","parent_field_id"], entry item key = .null := fun key hkey =>
      (h.refs key (by revert hkey; simp; tauto)).symm.trans (hnull key (by revert hkey; simp; tauto))
    refine ⟨href _ (by decide),href _ (by decide),?_⟩
    rcases h.filter with heq | ⟨hopen,-⟩
    · rw [← heq,hnull _ (by decide)]
    · exact hopen
  · rintro ⟨hrelation,hparent,hfilter⟩
    refine ⟨fun key hkey => ?_,Or.inl ?_⟩
    · simp only [List.mem_cons,List.not_mem_nil,or_false] at hkey
      rcases hkey with rfl | rfl | rfl
      · rw [hid,id_of_field hf]
      · rw [hnull _ (by decide),hrelation]
      · rw [hnull _ (by decide),hparent]
    · rw [hnull _ (by decide),hfilter]

theorem not_field (hfield : isField (membersOf item) = true) : isField (membersOf item) = false →
    entry item "field_id" = .null ∧ entry item "parent_field_id" = .null ∧ entry item "filter_field_id" = .null := by
  intro h
  rw [hfield] at h
  cases h

/-- Without a parent the item is given back when it names no match field either. -/
theorem maps_alone (hitem : ItemOk lib S used item) (hfield : isField (membersOf item) = true) {f : MetaField}
    (hf : S.field (entry item "field_id") = some f) (hnull : entry item "parent_field_id" = .null)
    (hmap : mapItem lib S mapped relationMapping [] (fieldRow S (normalItem lib item) f) =
      .ok (.obj (fieldItem lib (fieldRow S (normalItem lib item) f) item f))) :
    Maps lib S mapped relationMapping items item (fieldRow S (normalItem lib item) f) := by
  have hcolumns := columns_fieldRow (S:=S) (normalItem lib item) f
  have hrefs := refs_alone hitem.checked.object hcolumns hf
  constructor
  · intro result hresult
    obtain rfl := Except.ok.inj (hmap.symm.trans hresult)
    refine ⟨_,rfl,fieldItem_mirrors hitem hcolumns hfield hf,fun hsame => ?_⟩
    obtain ⟨hrelation,-,hfilter⟩ := hrefs.mp hsame
    refine ⟨not_field hfield,fun _ => hrelation,fun _ _ => hfilter,fun _ g parent _ hp => ?_⟩
    rw [hnull] at hp
    cases hp
  · intro h
    exact ⟨_,hmap,hrefs.mpr ⟨h.unrelated (kinds_exclude hfield),hnull,h.unparented hfield hnull⟩⟩

/-- With a parent on the form the item is given back when the match field is. -/
theorem maps_dropdown (hitem : ItemOk lib S used item) (hfield : isField (membersOf item) = true) {f parent : MetaField}
    (hf : S.field (entry item "field_id") = some f) (hp : S.field (entry item "parent_field_id") = some parent)
    (hnamed : parent.physName ≠ "") (hon : OnForm S items parent)
    (hmap : mapItem lib S mapped relationMapping [] (fieldRow S (normalItem lib item) f) =
      ((matchField S f parent (((S.related f).bind fun target => fieldIn target (entry item "filter_field_id")).map
        MetaField.physName) .null).map fun n => FormDesign.set (FormDesign.set (fieldItem lib
          (fieldRow S (normalItem lib item) f) item f) "parent_field_id" (.int parent.id)) "filter_field_id" (.int n)).map .obj) :
    Maps lib S mapped relationMapping items item (fieldRow S (normalItem lib item) f) := by
  have hcolumns := columns_fieldRow (S:=S) (normalItem lib item) f
  have hrefs := fun n => refs_dropdown (n:=n) hitem.checked.object hcolumns hf hp
  have hparent := id_of_field hp
  have hopened : entry item "filter_field_id" = .null →
      ((S.related f).bind fun target => fieldIn target (entry item "filter_field_id")).map MetaField.physName = none := by
    intro hopen
    rw [hopen]
    cases S.related f <;> rfl
  constructor
  · intro result hresult
    rw [hmap] at hresult
    obtain ⟨members,hmembers,rfl⟩ := Outcome.map_ok hresult
    obtain ⟨n,hn,rfl⟩ := Outcome.map_ok hmembers
    obtain ⟨g,hg,rfl⟩ := matchField_mem hn
    have hmirrors := fieldItem_mirrors hitem hcolumns hfield hf
    refine ⟨_,rfl,mirrors_set (mirrors_set hmirrors (Or.inl rfl) ?_) (Or.inr rfl) (candidate_valid hg),fun hsame => ?_⟩
    · rw [← hparent]
      exact hitem.checked.ids "parent_field_id" (by decide)
    obtain ⟨hrelation,hfilter⟩ := (hrefs _).mp hsame
    refine ⟨not_field hfield,fun _ => hrelation,fun _ hnull => ?_,fun _ f' parent' hf' hp' => ?_⟩
    · rw [hparent] at hnull
      cases hnull
    obtain rfl := Option.some.inj (hf.symm.trans hf')
    obtain rfl := Option.some.inj (hp.symm.trans hp')
    refine ⟨hnamed,hon,fun hopen => ?_,fun n hchosen => ?_⟩
    · rw [hopened hopen] at hn
      exact matchField_open hn
    · rcases hfilter with heq | hopen
      · obtain rfl := Json.int.inj (hchosen.symm.trans heq)
        exact List.mem_map_of_mem hg
      · rw [hopen] at hchosen
        cases hchosen
  · intro h
    have hfits := h.dropdown hfield f parent hf hp
    have hrelation := h.unrelated (kinds_exclude hfield)
    rcases validId_cases (hitem.checked.ids "filter_field_id" (by decide)) with hopen | ⟨n,-,hchosen⟩
    · obtain ⟨g,hg⟩ := hfits.only hopen
      refine ⟨_,?_,(hrefs g.id).mpr ⟨hrelation,Or.inr hopen⟩⟩
      rw [hmap,hopened hopen,matchField_only hg]
      rfl
    · refine ⟨_,?_,(hrefs n).mpr ⟨hrelation,Or.inl hchosen⟩⟩
      rw [hmap,hchosen,matchField_chosen (hfits.chosen n hchosen)]
      rfl

theorem maps_field (hitem : ItemOk lib S used item) (hfield : isField (membersOf item) = true) {f : MetaField}
    (hf : S.field (entry item "field_id") = some f)
    (hparent : (entry item "parent_field_id").truthy = true → ∃ parent, S.field (entry item "parent_field_id") = some parent)
    (hidentity : Identity S items mapped) (hmapped : ∀ g ∈ used, mapped.lookup g.physName = some g) (hon : OnForm S items f) :
    Maps lib S mapped relationMapping items item (fieldRow S (normalItem lib item) f) := by
  have hown := (hidentity.lookup_iff (field_mem hf)).mpr hon
  have hmap : mapItem lib S mapped relationMapping [] (fieldRow S (normalItem lib item) f) = _ :=
    mapItem_field hitem hfield hf hmapped hown
  rcases validId_cases (hitem.checked.ids "parent_field_id" (by decide)) with hnull | ⟨k,hk,hint⟩
  · rw [dropdown_absent hnull] at hmap
    exact maps_alone hitem hfield hf hnull hmap
  have htruthy : (entry item "parent_field_id").truthy = true := by
    rw [hint]
    exact bne_iff_ne.mpr (by omega)
  obtain ⟨parent,hp⟩ := hparent htruthy
  obtain ⟨hname,hcaptured⟩ := @dropdown_some _ lib S item parent htruthy hp f
  rw [mapDropdown,hname,hcaptured] at hmap
  by_cases hempty : parent.physName = ""
  · -- a parent without a name is no parent to the mapping
    rw [hempty,Option.filter_some,if_neg (by decide)] at hmap
    have hcolumns := columns_fieldRow (S:=S) (normalItem lib item) f
    refine ⟨fun result hresult => ?_,fun h => absurd hempty (h.dropdown hfield f parent hf hp).named⟩
    obtain rfl := Except.ok.inj (hmap.symm.trans hresult)
    refine ⟨_,rfl,fieldItem_mirrors hitem hcolumns hfield hf,fun hsame => ?_⟩
    have hnull := ((refs_alone hitem.checked.object hcolumns hf).mp hsame).2.1
    rw [hint] at hnull
    cases hnull
  rw [Option.filter_some,if_pos (decide_eq_true hempty)] at hmap
  dsimp only at hmap
  by_cases honParent : OnForm S items parent
  · rw [(hidentity.lookup_iff (field_mem hp)).mpr honParent] at hmap
    exact maps_dropdown hitem hfield hf hp hempty honParent hmap
  · rw [hidentity.lookup_none (field_mem hp) honParent] at hmap
    refine ⟨fun result hresult => ?_,fun h => absurd (h.dropdown hfield f parent hf hp).onForm honParent⟩
    rw [hmap] at hresult
    cases hresult

/-- The row of an item gives the item back exactly when it is portable. -/
theorem maps_row (hitem : ItemOk lib S used item) (hmem : item ∈ items) (hidentity : Identity S items mapped)
    (hmapped : ∀ g ∈ used, mapped.lookup g.physName = some g) {ids : List Json}
    (hrelations : ∀ n, relationMapping.lookup (relationKey n) = ids[n]?) {row : TemplateItem}
    (h : Row S ids (normalItem lib item) row) : Maps lib S mapped relationMapping items item row := by
  cases h with
  | field f hfield hf hparent =>
    rw [(isField_normal item).1] at hfield
    rw [entry_normal (by decide)] at hf
    rw [entry_normal (by decide)] at hparent
    exact maps_field hitem hfield hf hparent hidentity hmapped ⟨item,hmem,hfield,hf⟩
  | relation n hfield hrelation hid =>
    rw [(isField_normal item).1] at hfield
    rw [(isField_normal item).2] at hrelation
    rw [entry_normal (by decide)] at hid
    have hcolumns : TemplateItem.columns { columns := columnsOf (normalItem lib item), relation := some (relationKey n) } =
        columnsOf (normalItem lib item) := rfl
    obtain ⟨hmirrors,hrefs⟩ := @relation_mirrors _ lib S items used item _ hitem hcolumns hfield hrelation
    have hmap : mapItem lib S mapped relationMapping []
        { columns := columnsOf (normalItem lib item), relation := some (relationKey n) } =
        .ok (.obj (FormDesign.set (plainItem
          { columns := columnsOf (normalItem lib item), relation := some (relationKey n) }) "relation_id" (entry item "relation_id"))) := by
      rw [mapItem,(isField_row hcolumns).1,(isField_row hcolumns).2,hfield,hrelation,if_neg (by decide),if_pos rfl,Option.bind_some,
        hrelations n,hid]
    refine ⟨fun result hresult => ?_,fun hportable => ⟨_,hmap,hrefs.mpr hportable⟩⟩
    obtain rfl := Except.ok.inj (hmap.symm.trans hresult)
    exact ⟨_,rfl,hmirrors,hrefs.mp⟩
  | plain hfield hrelation =>
    rw [(isField_normal item).1] at hfield
    rw [(isField_normal item).2] at hrelation
    have hcolumns : TemplateItem.columns { columns := columnsOf (normalItem lib item) } = columnsOf (normalItem lib item) := rfl
    obtain ⟨hmirrors,hrefs⟩ := @plain_mirrors _ lib S items used item _ hitem hcolumns hfield hrelation
    have hmap : mapItem lib S mapped relationMapping [] { columns := columnsOf (normalItem lib item) } =
        .ok (.obj (plainItem { columns := columnsOf (normalItem lib item) })) := by
      rw [mapItem,(isField_row hcolumns).1,(isField_row hcolumns).2,hfield,hrelation,if_neg (by decide),if_neg (by decide)]
    refine ⟨fun result hresult => ?_,fun hportable => ⟨_,hmap,hrefs.mpr hportable⟩⟩
    obtain rfl := Except.ok.inj (hmap.symm.trans hresult)
    exact ⟨_,rfl,hmirrors,hrefs.mp⟩

end Items

end FormTemplates
end Biggy
