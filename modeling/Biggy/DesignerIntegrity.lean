import Biggy.DesignerDeletes
import Biggy.Integrity

/-!
# What deletions leave dangling

A deletion leaves a reference dangling exactly when a row that stays refers to something that goes. A rule whose
condition is on a field that stays decides as before; one whose field goes fires for every record.
-/
namespace Biggy
namespace Designer

open Run Integrity

namespace Design

variable {d : Design} {c : Cut} {ref : Ref}

/-! ### What a deletion takes away -/

theorem unlabel_id (mt : TableRow) : (c.unlabel mt).id = mt.id := by
  by_cases h : c.label mt <;> simp [Cut.unlabel,h]

theorem has_cut_table {mt : TableRow} (hmt : mt ∈ d.tables) : (d.cut c).Has (.table mt.id) ↔ c.table mt = false := by
  have hkept := Keyed.exists_filter_iff d.tableIds hmt fun t => !c.table t
  rw [Bool.not_eq_true'] at hkept
  rw [← hkept]
  constructor
  · rintro ⟨t,ht,hsame⟩
    obtain ⟨t',ht',rfl⟩ := List.mem_map.mp ht
    exact ⟨t',ht',(unlabel_id t').symm.trans hsame⟩
  · rintro ⟨t,ht,hsame⟩
    exact ⟨c.unlabel t,List.mem_map_of_mem ht,(unlabel_id t).trans hsame⟩

theorem has_cut_field {f : FieldRow} (hf : f ∈ d.fields) : (d.cut c).Has (.field f.id) ↔ c.field f = false := by
  rw [← Bool.not_eq_true']
  exact Keyed.exists_filter_iff d.fieldIds hf fun f => !c.field f

theorem has_cut_named {f : FieldRow} (hf : f ∈ d.fields) :
    (d.cut c).Has (.named f.tableId f.physName) ↔ c.field f = false := by
  rw [← Bool.not_eq_true',← Keyed.exists_filter_iff d.fieldNames hf fun f => !c.field f]
  exact exists_congr fun g => and_congr_right fun _ => Prod.mk_inj.symm

theorem has_cut_relation {rel : RelationRow} (hrel : rel ∈ d.relations) :
    (d.cut c).Has (.relation rel.id) ↔ c.relation rel = false := by
  rw [← Bool.not_eq_true']
  exact Keyed.exists_filter_iff d.relationIds hrel fun rel => !c.relation rel

/-- The references of the rows that a deletion leaves. -/
def staying (d : Design) (c : Cut) : List Ref :=
  d.formRefs (fun form item => !c.form form && !c.item form item)++d.ruleRefs (fun id => !c.rulesOf id)++
    d.labelRefs (fun rel => !c.relation rel) (fun mt => !c.table mt && !c.label mt)

theorem mem_formRefs_cut : ref ∈ (d.cut c).formRefs (fun _ _ => true) ↔
    ref ∈ d.formRefs (fun form item => !c.form form && !c.item form item) := by
  simp only [formRefs,cut,List.mem_flatMap,List.mem_map,List.mem_filter]
  constructor
  · rintro ⟨_,⟨form,⟨hform,hstay⟩,rfl⟩,item,⟨hitem,-⟩,href⟩
    obtain ⟨hitem,hkept⟩ := List.mem_filter.mp hitem
    exact ⟨form,hform,item,⟨hitem,by simp_all⟩,href⟩
  · rintro ⟨form,hform,item,⟨hitem,hkept⟩,href⟩
    rw [Bool.and_eq_true] at hkept
    exact ⟨_,⟨form,⟨hform,hkept.1⟩,rfl⟩,item,⟨List.mem_filter.mpr ⟨hitem,hkept.2⟩,trivial⟩,href⟩

theorem ruleRefs_cut : (d.cut c).ruleRefs (fun _ => true) = d.ruleRefs (fun id => !c.rulesOf id) := by
  simp [ruleRefs,cut]

theorem mem_labelRefs_cut : ref ∈ (d.cut c).labelRefs (fun _ => true) (fun _ => true) ↔
    ref ∈ d.labelRefs (fun rel => !c.relation rel) (fun mt => !c.table mt && !c.label mt) := by
  have htables : ref ∈ (d.cut c).tables.flatMap TableRow.refs ↔
      ref ∈ (d.tables.filter fun mt => !c.table mt && !c.label mt).flatMap TableRow.refs := by
    simp only [cut,List.mem_flatMap,List.mem_map,List.mem_filter]
    constructor
    · rintro ⟨_,⟨mt,⟨hmt,hstay⟩,rfl⟩,href⟩
      by_cases hlabel : c.label mt
      · simp [Cut.unlabel,hlabel,TableRow.refs] at href
      · exact ⟨mt,⟨hmt,by simp_all⟩,by simpa [Cut.unlabel,hlabel] using href⟩
    · rintro ⟨mt,⟨hmt,hstay⟩,href⟩
      rw [Bool.and_eq_true] at hstay
      exact ⟨_,⟨mt,⟨hmt,hstay.1⟩,rfl⟩,by simp_all [Cut.unlabel]⟩
  simp only [labelRefs,List.mem_append,List.filter_true,htables]
  rfl

theorem mem_refs_cut : ref ∈ (d.cut c).refs ↔ ref ∈ d.staying c := by
  simp only [refs,staying,List.mem_append,mem_formRefs_cut,ruleRefs_cut,mem_labelRefs_cut]

/-- The things that a deletion takes away and the rows it leaves have nothing to do with each other. -/
def Spares (d : Design) (c : Cut) : Prop :=
  (∀ mt ∈ d.tables, c.table mt = true → .table mt.id ∉ d.staying c) ∧
  (∀ f ∈ d.fields, c.field f = true →
    .field f.id ∉ d.staying c ∧ .named f.tableId f.physName ∉ d.staying c) ∧
  ∀ rel ∈ d.relations, c.relation rel = true → .relation rel.id ∉ d.staying c

theorem has_table {mt : TableRow} (h : mt ∈ d.tables) : d.Has (.table mt.id) := ⟨mt,h,rfl⟩

theorem has_field {f : FieldRow} (h : f ∈ d.fields) : d.Has (.field f.id) := ⟨f,h,rfl⟩

theorem has_named {f : FieldRow} (h : f ∈ d.fields) : d.Has (.named f.tableId f.physName) := ⟨f,h,rfl,rfl⟩

theorem has_relation {rel : RelationRow} (h : rel ∈ d.relations) : d.Has (.relation rel.id) := ⟨rel,h,rfl⟩

/-- Whether one reference stays good, for a thing that goes or not. -/
theorem kept_iff {gone : Bool} (hhas : d.Has ref) (hiff : (d.cut c).Has ref ↔ gone = false) :
    (ref ∈ (d.cut c).refs → d.Has ref → (d.cut c).Has ref) ↔ (gone = true → ref ∉ d.staying c) := by
  rw [mem_refs_cut,hiff]
  cases gone <;> simp [hhas]

theorem keeps_cut_iff : Keeps (fun d ref => ref ∈ refs d) Has d (d.cut c) ↔ d.Spares c := by
  constructor
  · intro h
    refine ⟨fun mt hmt => ?_,fun f hf hgone => ⟨?_,?_⟩,fun rel hrel => ?_⟩
    · exact (kept_iff (has_table hmt) (has_cut_table hmt)).mp (h _)
    · exact (kept_iff (has_field hf) (has_cut_field hf)).mp (h _) hgone
    · exact (kept_iff (has_named hf) (has_cut_named hf)).mp (h _) hgone
    · exact (kept_iff (has_relation hrel) (has_cut_relation hrel)).mp (h _)
  · rintro ⟨htables,hfields,hrelations⟩ ref href hhas
    cases ref with
    | table id =>
      obtain ⟨mt,hmt,rfl⟩ := hhas
      exact (kept_iff (has_table hmt) (has_cut_table hmt)).mpr (htables mt hmt) href (has_table hmt)
    | field id =>
      obtain ⟨f,hf,rfl⟩ := hhas
      exact (kept_iff (has_field hf) (has_cut_field hf)).mpr (fun hgone => (hfields f hf hgone).1) href (has_field hf)
    | relation id =>
      obtain ⟨rel,hrel,rfl⟩ := hhas
      exact (kept_iff (has_relation hrel) (has_cut_relation hrel)).mpr (hrelations rel hrel) href (has_relation hrel)
    | named tableId name =>
      obtain ⟨f,hf,rfl,rfl⟩ := hhas
      exact (kept_iff (has_named hf) (has_cut_named hf)).mpr (fun hgone => (hfields f hf hgone).2) href (has_named hf)

/-! ### A deletion only takes away -/

/-- `e` is what deletions leave of `d`. -/
structure Within (d e : Design) : Prop where
  shrinks : Shrinks (fun d ref => ref ∈ refs d) Has d e
  fields : e.fields.Sublist d.fields
  conditions : e.conditions ⊆ d.conditions

theorem Within.refl : d.Within d := ⟨Shrinks.refl,List.Sublist.refl _,List.Subset.refl _⟩

theorem Within.trans {e e' : Design} (h : d.Within e) (h' : e.Within e') : d.Within e' :=
  ⟨h.shrinks.trans h'.shrinks,h'.fields.trans h.fields,List.Subset.trans h'.conditions h.conditions⟩

theorem filter_flatMap_subset {α : Type} (keep : α → Bool) (rows : List α) (f : α → List Ref) :
    (rows.filter keep).flatMap f ⊆ rows.flatMap f := (List.filter_sublist.flatMap f).subset

theorem staying_subset : d.staying c ⊆ d.refs := by
  intro ref href
  simp only [staying,refs,formRefs,ruleRefs,labelRefs,List.mem_append,List.filter_true] at href ⊢
  rcases href with (hform | ((htrigger | hfeed) | hpolicy) | hunique) | hrelation | htable
  · obtain ⟨form,hform,hitem⟩ := List.mem_flatMap.mp hform
    exact .inl (.inl (List.mem_flatMap.mpr ⟨form,hform,filter_flatMap_subset _ _ _ hitem⟩))
  · exact .inl (.inr (.inl (.inl (.inl (filter_flatMap_subset _ _ _ htrigger)))))
  · exact .inl (.inr (.inl (.inl (.inr (filter_flatMap_subset _ _ _ hfeed)))))
  · exact .inl (.inr (.inl (.inr (filter_flatMap_subset _ _ _ hpolicy))))
  · exact .inl (.inr (.inr (filter_flatMap_subset _ _ _ hunique)))
  · exact .inr (.inl (filter_flatMap_subset _ _ _ hrelation))
  · exact .inr (.inr (filter_flatMap_subset _ _ _ htable))

theorem has_of_has_cut (h : (d.cut c).Has ref) : d.Has ref := by
  cases ref with
  | table id =>
    obtain ⟨t,ht,rfl⟩ := h
    obtain ⟨mt,hmt,rfl⟩ := List.mem_map.mp ht
    exact ⟨mt,(List.mem_filter.mp hmt).1,(unlabel_id mt).symm⟩
  | field id =>
    obtain ⟨f,hf,hid⟩ := h
    exact ⟨f,(List.mem_filter.mp hf).1,hid⟩
  | relation id =>
    obtain ⟨rel,hrel,hid⟩ := h
    exact ⟨rel,(List.mem_filter.mp hrel).1,hid⟩
  | named tableId name =>
    obtain ⟨f,hf,hname⟩ := h
    exact ⟨f,(List.mem_filter.mp hf).1,hname⟩

theorem within_cut : d.Within (d.cut c) := by
  refine ⟨⟨fun ref href => staying_subset (mem_refs_cut.mp href),fun _ => has_of_has_cut⟩,List.filter_sublist,?_⟩
  intro rule hrule
  simp only [conditions,cut,List.mem_append,List.mem_map,List.mem_filter] at hrule ⊢
  rcases hrule with (⟨row,⟨hrow,-⟩,hcond⟩ | ⟨row,⟨hrow,-⟩,hcond⟩) | ⟨row,⟨hrow,-⟩,hcond⟩
  · exact .inl (.inl ⟨row,hrow,hcond⟩)
  · exact .inl (.inr ⟨row,hrow,hcond⟩)
  · exact .inr ⟨row,hrow,hcond⟩

/-! ### When a deletion leaves nothing dangling -/

/-- The references that stay when a field is deleted: the label of the table of the request is cleared, and the
relation of the field goes with its labels. -/
def fieldRest (d : Design) (tableId fieldId : ℕ) : List Ref :=
  d.formRefs (fun _ _ => true)++d.ruleRefs (fun _ => true)++
    d.labelRefs (fun r => !(d.relationFrom fieldId).any fun rel => r.id = rel.id)
      (fun t => !(t.id = tableId && t.displayFieldId = some fieldId))

/-- The references that stay when a table is deleted with its forms. -/
def tableRest (d : Design) (tableId : ℕ) (enforced : Bool) : List Ref :=
  d.formRefs (fun form _ => !(form.tableId = tableId))++d.ruleRefs (fun id => !(enforced && id = tableId))++
    d.labelRefs (fun _ => true) (fun t => !(t.id = tableId))

/-- The references that stay when a relation is deleted with the form items that show it. -/
def relationRest (d : Design) (relationId : ℕ) : List Ref :=
  d.formRefs (fun _ item => !(item.relationId = some relationId))++d.ruleRefs (fun _ => true)++
    d.labelRefs (fun r => !(r.id = relationId)) (fun _ => true)

/-- The request is refused, or nothing that stays refers to the field, the fields of the table or the relation that it
deletes. -/
def Clear (d : Design) : Action → Prop
  | .fieldDelete tableId fieldId dropped => ∀ field mt, d.field fieldId = some field → d.table tableId = some mt →
      mt.managed = true → (FormSave.isFile field.dataType || dropped) = true →
      .field fieldId ∉ d.fieldRest tableId fieldId ∧
        .named field.tableId field.physName ∉ d.fieldRest tableId fieldId ∧
        ∀ rel, d.relationFrom fieldId = some rel → .relation rel.id ∉ d.fieldRest tableId fieldId
  | .tableDelete tableId enforced => (∃ mt, d.table tableId = some mt) →
      (∀ rel ∈ d.relations, rel.fromTableId ≠ tableId ∧ rel.toTableId ≠ tableId) →
      .table tableId ∉ d.tableRest tableId enforced ∧
        ∀ f ∈ d.fields, f.tableId = tableId → .field f.id ∉ d.tableRest tableId enforced
  | .relationDelete relationId dropped => ∀ rel field, d.relation relationId = some rel →
      d.relationField rel = some field → (d.dropsOf rel = true → dropped = true) →
      .field field.id ∉ d.relationRest relationId ∧
        .named field.tableId field.physName ∉ d.relationRest relationId

theorem field_mem {id : ℕ} {f : FieldRow} (h : d.field id = some f) : f ∈ d.fields ∧ f.id = id :=
  ⟨Keyed.mem_of_find h,@Keyed.key_of_find FieldRow ℕ _ (fun f => f.id) id d.fields f h⟩

theorem table_mem {id : ℕ} {mt : TableRow} (h : d.table id = some mt) : mt ∈ d.tables ∧ mt.id = id :=
  ⟨Keyed.mem_of_find h,Keyed.key_of_find h⟩

theorem relation_mem {id : ℕ} {rel : RelationRow} (h : d.relation id = some rel) : rel ∈ d.relations ∧ rel.id = id :=
  ⟨Keyed.mem_of_find h,Keyed.key_of_find h⟩

theorem relationField_mem {rel : RelationRow} {field : FieldRow} (h : d.relationField rel = some field) :
    field ∈ d.fields := by
  rcases hkind : rel.kind with _ | _
  · simp only [relationField,hkind] at h
    obtain ⟨id,-,hfound⟩ := Option.bind_eq_some_iff.mp h
    split at hfound
    · cases hfound
    · exact (field_mem hfound).1
  · simp [relationField,hkind] at h

theorem field_ext {f g : FieldRow} (hf : f ∈ d.fields) (hg : g ∈ d.fields) (h : f.id = g.id) : f = g :=
  List.inj_on_of_nodup_map d.fieldIds hf hg h

theorem fieldDelete_keeps_iff (tableId fieldId : ℕ) (dropped : Bool) :
    Keeps (fun d ref => ref ∈ refs d) Has d (d.fieldDelete tableId fieldId dropped) ↔
      d.Clear (.fieldDelete tableId fieldId dropped) := by
  simp only [fieldDelete,Clear]
  rcases hfield : d.field fieldId with _ | field
  · exact iff_of_true Keeps.refl (by simp)
  rcases htable : d.table tableId with _ | mt
  · exact iff_of_true Keeps.refl (by simp)
  obtain ⟨hmem,rfl⟩ := field_mem hfield
  obtain ⟨-,rfl⟩ := table_mem htable
  by_cases hmanaged : mt.managed
  swap
  · simp only [hmanaged]
    exact iff_of_true Keeps.refl (by simp_all)
  by_cases hdrop : FormSave.isFile field.dataType || dropped
  swap
  · simp only [hmanaged,hdrop]
    exact iff_of_true Keeps.refl (by simp_all)
  simp only [hmanaged,hdrop,Bool.not_true,Bool.false_eq_true,if_false,if_true]
  rw [keeps_cut_iff]
  constructor
  · rintro ⟨-,hfields,hrelations⟩ field' mt' hfield' hmt' - -
    obtain rfl := Option.some.inj hfield'
    obtain rfl := Option.some.inj hmt'
    obtain ⟨hid,hname⟩ := hfields field hmem (by simp)
    refine ⟨hid,hname,fun rel hrel => ?_⟩
    exact hrelations rel (List.mem_of_find?_eq_some hrel) (by simp [hrel])
  · intro h
    obtain ⟨hid,hname,hrelations⟩ := h field mt rfl rfl hmanaged hdrop
    refine ⟨fun _ _ hgone => (by cases hgone),fun f hf hgone => ?_,fun r hr hgone => ?_⟩
    · obtain rfl := field_ext hf hmem (by simpa using hgone)
      exact ⟨hid,hname⟩
    · obtain ⟨rel,hrel,hsame⟩ : ∃ rel, d.relationFrom field.id = some rel ∧ r.id = rel.id := by
        simpa [Option.any_eq_true] using hgone
      rw [hsame]
      exact hrelations rel hrel

/-- Rules, keys and labels refer to tables and fields by their ids; every other reference is one of a form item. -/
theorem item_ref {keep : Form → FormItem → Bool} {rules : ℕ → Bool} {labels : RelationRow → Bool}
    {tables : TableRow → Bool} (hid : ∀ id, ref ≠ .table id ∧ ref ≠ .field id)
    (h : ref ∈ d.formRefs keep++d.ruleRefs rules++d.labelRefs labels tables) :
    ∃ form ∈ d.forms, ∃ item ∈ form.items, keep form item = true ∧ ref ∈ item.refs form.tableId := by
  simp only [formRefs,ruleRefs,labelRefs,List.mem_append,List.mem_flatMap,List.mem_filter] at h
  cases ref with
  | table id => exact absurd rfl (hid id).1
  | field id => exact absurd rfl (hid id).2
  | _ =>
    rcases h with (⟨form,hform,item,⟨hitem,hkeep⟩,href⟩ |
      ((⟨_,-,href⟩ | ⟨_,-,href⟩) | ⟨_,-,href⟩) | ⟨_,-,href⟩) | ⟨_,-,href⟩ | ⟨_,-,href⟩
    · exact ⟨form,hform,item,hitem,hkeep,href⟩
    · simp [TriggerRule.refs] at href
    · simp [Feed.refs] at href
    · simp [policyRefs] at href
    · simp [CompositeUnique.refs] at href
    · simp [RelationRow.refs] at href
    · simp [TableRow.refs] at href

theorem relation_mem_refs {item : FormItem} {tableId id : ℕ} (h : .relation id ∈ item.refs tableId) :
    item.relationId = some id := by
  simpa [FormItem.refs] using h

theorem named_mem_refs {item : FormItem} {tableId tableId' : ℕ} {name : String}
    (h : .named tableId' name ∈ item.refs tableId) : tableId = tableId' := by
  obtain ⟨-,hsame⟩ : (∃ tree ∈ item.rules.trees, name ∈ FormRules.references tree) ∧ tableId = tableId' := by
    simpa [FormItem.refs] using h
  exact hsame

theorem tableDelete_keeps_iff (tableId : ℕ) (enforced : Bool) :
    Keeps (fun d ref => ref ∈ refs d) Has d (d.tableDelete tableId enforced) ↔
      d.Clear (.tableDelete tableId enforced) := by
  simp only [tableDelete,Clear]
  rcases htable : d.table tableId with _ | mt
  · exact iff_of_true Keeps.refl (by simp)
  obtain ⟨hmem,rfl⟩ := table_mem htable
  by_cases hused : d.relations.any fun rel => rel.fromTableId = mt.id || rel.toTableId = mt.id
  · simp only [hused]
    refine iff_of_true Keeps.refl fun _ hfree => ?_
    obtain ⟨rel,hrel,hends⟩ := List.any_eq_true.mp hused
    simp [hfree rel hrel] at hends
  simp only [hused]
  have hfree : ∀ rel ∈ d.relations, rel.fromTableId ≠ mt.id ∧ rel.toTableId ≠ mt.id := by simpa using hused
  have hrest : d.staying
      { table := fun t => t.id = mt.id
        field := fun f => f.tableId = mt.id
        form := fun form => form.tableId = mt.id
        rulesOf := fun id => enforced && id = mt.id } = d.tableRest mt.id enforced := by
    simp [staying,tableRest]
  refine Iff.trans keeps_cut_iff ?_
  rw [Spares,hrest]
  constructor
  · rintro ⟨htables,hfields,-⟩ - -
    exact ⟨htables mt hmem (by simp),fun f hf hown => (hfields f hf (by simp [hown])).1⟩
  · intro h
    obtain ⟨hid,hfields⟩ := h ⟨mt,rfl⟩ hfree
    refine ⟨fun t _ hgone => ?_,fun f hf hgone => ?_,fun _ _ hgone => (by cases hgone)⟩
    · have hsame : t.id = mt.id := by simpa using hgone
      rw [hsame]
      exact hid
    · have hown : f.tableId = mt.id := by simpa using hgone
      refine ⟨hfields f hf hown,fun href => ?_⟩
      obtain ⟨form,-,item,-,hkeep,href⟩ := item_ref (by simp) href
      simp [named_mem_refs href,hown] at hkeep

theorem relationDelete_keeps_iff (relationId : ℕ) (dropped : Bool) :
    Keeps (fun d ref => ref ∈ refs d) Has d (d.relationDelete relationId dropped) ↔
      d.Clear (.relationDelete relationId dropped) := by
  simp only [relationDelete,Clear]
  rcases hrelation : d.relation relationId with _ | rel
  · exact iff_of_true Keeps.refl (by simp)
  obtain ⟨hmem,rfl⟩ := relation_mem hrelation
  by_cases hrefused : d.dropsOf rel && !dropped
  · simp only [hrefused]
    refine iff_of_true Keeps.refl ?_
    rintro rel' field hrel' - hdrop
    obtain rfl := Option.some.inj hrel'
    simp_all
  simp only [hrefused]
  have hdrop : d.dropsOf rel = true → dropped = true := by
    intro hddl
    simpa [hddl] using hrefused
  refine Iff.trans keeps_cut_iff ?_
  constructor
  · rintro ⟨-,hfields,-⟩ rel' field hrel' hfield -
    obtain rfl := Option.some.inj hrel'
    exact hfields field (relationField_mem hfield) (by simp [hfield])
  · intro h
    refine ⟨fun _ _ hgone => (by cases hgone),fun f hf hgone => ?_,fun r _ hgone href => ?_⟩
    · obtain ⟨field,hfield,hsame⟩ : ∃ field, d.relationField rel = some field ∧ f.id = field.id := by
        simpa [Option.any_eq_true] using hgone
      obtain rfl := field_ext hf (relationField_mem hfield) hsame
      exact h rel f rfl hfield hdrop
    · have hsame : r.id = rel.id := by simpa using hgone
      obtain ⟨form,-,item,-,hkeep,href⟩ := item_ref (by simp) href
      simp [relation_mem_refs href,hsame] at hkeep

/-! ### Rules -/

theorem fieldOf_eq_some {tableId id : ℕ} {f : MetaField} : d.fieldOf tableId id = some f ↔
    ∃ row ∈ d.fields, row.tableId = tableId ∧ row.id = id ∧ row.toMetaField = f := by
  simp only [fieldOf,Option.map_eq_some_iff]
  constructor
  · rintro ⟨row,hrow,rfl⟩
    obtain ⟨hmem,hown⟩ := List.mem_filter.mp (Keyed.mem_of_find hrow)
    exact ⟨row,hmem,by simpa using hown,@Keyed.key_of_find FieldRow ℕ _ (fun f => f.id) id _ row hrow,rfl⟩
  · rintro ⟨row,hrow,hown,rfl,rfl⟩
    have hnodup : ((d.fields.filter fun f => f.tableId = tableId).map fun f => f.id).Nodup :=
      d.fieldIds.sublist (List.filter_sublist.map _)
    exact ⟨row,Keyed.find_of_mem hnodup (List.mem_filter.mpr ⟨hrow,by simp [hown]⟩),rfl⟩

/-- The field of a condition is one of the references. -/
theorem condition_refs {rule : Condition} {id : ℕ} (hrule : rule ∈ d.conditions) (hid : rule.condFieldId = some id) :
    .field id ∈ d.refs := by
  simp only [conditions,List.mem_append,List.mem_map] at hrule
  simp only [refs,ruleRefs,List.mem_append,List.mem_flatMap,List.filter_true]
  rcases hrule with (⟨row,hrow,rfl⟩ | ⟨row,hrow,rfl⟩) | ⟨row,hrow,rfl⟩
  · have hcond : row.condFieldId = some id := hid
    exact .inl (.inr (.inl (.inl (.inl ⟨row,hrow,by simp [TriggerRule.refs,hcond]⟩))))
  · have hcond : row.condFieldId = some id := hid
    exact .inl (.inr (.inl (.inl (.inr ⟨row,hrow,by simp [Feed.refs,hcond]⟩))))
  · have hcond : row.condFieldId = some id := hid
    exact .inl (.inr (.inl (.inr ⟨row,hrow,by simp [policyRefs,hcond]⟩)))

end Design

theorem Condition.test_eq_some {fields : ℕ → Option MetaField} {rule : Condition} {f : MetaField} {op : String} :
    rule.test fields = some (f,op) ↔
      ∃ id, rule.condFieldId = some id ∧ rule.condOp = some op ∧ id ≠ 0 ∧ op ≠ "" ∧ fields id = some f := by
  rcases hid : rule.condFieldId with _ | id
  · simp [test,hid]
  rcases hop : rule.condOp with _ | op'
  · simp [test,hid,hop]
  by_cases hnone : id = 0 ∨ op' = ""
  · simp only [test,hid,hop,if_pos hnone]
    constructor
    · intro h
      cases h
    · rintro ⟨id',hid',hop',hzero,hempty,-⟩
      cases hid'
      cases hop'
      exact absurd hnone (by simp [hzero,hempty])
  · simp only [test,hid,hop,if_neg hnone,Option.map_eq_some_iff,Prod.mk.injEq,Option.some.injEq]
    push Not at hnone
    constructor
    · rintro ⟨g,hg,rfl,rfl⟩
      exact ⟨id,rfl,rfl,hnone.1,hnone.2,hg⟩
    · rintro ⟨_,rfl,rfl,-,-,hg⟩
      exact ⟨f,hg,rfl,rfl⟩

/-- Everything that `e` refers to and `d` had is there, and a rule that had a condition still has it and decides as
before. -/
structure Intact (d e : Design) : Prop where
  refs : ∀ ref ∈ e.refs, d.Has ref → e.Has ref
  rules : ∀ rule ∈ e.conditions, (rule.test (d.fieldOf rule.tableId)).isSome →
    (rule.test (e.fieldOf rule.tableId)).isSome ∧ ∀ py row,
      conditionOk py (e.fieldOf rule.tableId) rule row = conditionOk py (d.fieldOf rule.tableId) rule row

/-- A rule whose field is still there decides as before. -/
theorem intact_iff_keeps {d e : Design} (hwithin : d.Within e) :
    Intact d e ↔ Keeps (fun d ref => ref ∈ Design.refs d) Design.Has d e := by
  refine ⟨fun h => h.refs,fun h => ⟨h,fun rule hrule hsome => ?_⟩⟩
  obtain ⟨⟨f,op⟩,htest⟩ := Option.isSome_iff_exists.mp hsome
  obtain ⟨id,hid,hop,hzero,hempty,hfield⟩ := Condition.test_eq_some.mp htest
  obtain ⟨row,hrow,hown,rfl,rfl⟩ := Design.fieldOf_eq_some.mp hfield
  obtain ⟨g,hg,hsame⟩ : e.Has (.field row.id) := h _ (Design.condition_refs hrule hid) (Design.has_field hrow)
  have hstay : row ∈ e.fields := by
    rw [← Design.field_ext (hwithin.fields.subset hg) hrow hsame]
    exact hg
  have hkept : rule.test (e.fieldOf rule.tableId) = some (row.toMetaField,op) :=
    Condition.test_eq_some.mpr ⟨row.id,hid,hop,hzero,hempty,Design.fieldOf_eq_some.mpr ⟨row,hstay,hown,rfl,rfl⟩⟩
  exact ⟨by simp [hkept],fun py row => by simp only [conditionOk,hkept,htest]⟩

/-! ### Runs -/

theorem step_within (d : Design) (a : Action) : d.Within (step d a) := by
  cases a with
  | fieldDelete tableId fieldId dropped =>
    simp only [step,Design.fieldDelete]
    split
    · split
      · exact Design.Within.refl
      · split
        · exact Design.within_cut
        · exact Design.Within.refl
    · exact Design.Within.refl
  | tableDelete tableId enforced =>
    simp only [step,Design.tableDelete]
    split
    · exact Design.Within.refl
    · split
      · exact Design.Within.refl
      · exact Design.within_cut
  | relationDelete relationId dropped =>
    simp only [step,Design.relationDelete]
    split
    · exact Design.Within.refl
    · split
      · exact Design.Within.refl
      · exact Design.within_cut

theorem exec_within (d : Design) (actions : List Action) : d.Within (exec step d actions) := by
  induction actions generalizing d with
  | nil => exact Design.Within.refl
  | cons a actions ih => exact (step_within d a).trans (ih (step d a))

/-- One deletion leaves nothing dangling exactly when it is clear. -/
theorem step_keeps_iff (d : Design) (a : Action) :
    Keeps (fun d ref => ref ∈ Design.refs d) Design.Has d (step d a) ↔ d.Clear a := by
  cases a with
  | fieldDelete tableId fieldId dropped => exact Design.fieldDelete_keeps_iff tableId fieldId dropped
  | tableDelete tableId enforced => exact Design.tableDelete_keeps_iff tableId enforced
  | relationDelete relationId dropped => exact Design.relationDelete_keeps_iff relationId dropped

theorem keeps_iff_clear (d : Design) (actions : List Action) : (∀ before, before <+: actions →
    Keeps (fun d ref => ref ∈ Design.refs d) Design.Has d (exec step d before)) ↔ Meets step Design.Clear d actions := by
  rw [keeps_iff_meets (fun d a => (step_within d a).shrinks)]
  exact meets_congr (fun _ => True) (fun _ _ _ => trivial) (fun d a _ => step_keeps_iff d a) trivial actions

/-- Along any sequence of deletions, every state is intact exactly when each deletion is refused or takes away nothing
that a remaining row refers to. -/
theorem intact_iff_clear (d : Design) (actions : List Action) :
    (∀ before, before <+: actions → Intact d (exec step d before)) ↔ Meets step Design.Clear d actions := by
  rw [← keeps_iff_clear]
  exact forall₂_congr fun before _ => intact_iff_keeps (exec_within d before)

/-- Clear deletions leave a design without dangling references without them. -/
theorem sound_of_clear {d : Design} {actions : List Action} (hsound : ∀ ref ∈ d.refs, d.Has ref)
    (hrun : Meets step Design.Clear d actions) : ∀ ref ∈ (exec step d actions).refs, (exec step d actions).Has ref := by
  intro ref href
  have hkeeps := (keeps_iff_clear d actions).mpr hrun actions (List.prefix_refl actions)
  exact hkeeps ref href (hsound ref ((exec_within d actions).shrinks.refs ref href))

/-- A rule on tickets of high priority. -/
def urgent : TriggerRule :=
  { id := 1
    tableId := 1
    condFieldId := some 5
    condOp := some "eq"
    condValue := some "high" }

def tickets : Design :=
  { tables := [{ id := 1 }]
    fields := [{ id := 5, physName := "priority", label := "Priority", dataType := .string, tableId := 1 }]
    relations := []
    forms := []
    triggers := [urgent]
    feeds := []
    policies := []
    uniques := []
    tableIds := by decide
    fieldIds := by decide
    relationIds := by decide
    fieldNames := by decide }

/-- Without its field the rule refers to nothing and fires for tickets of any priority. -/
theorem rule_fires_unconditionally : ¬Intact tickets (exec step tickets [.fieldDelete 1 5 true]) ∧
    .field 5 ∈ (exec step tickets [.fieldDelete 1 5 true]).refs ∧ tickets.Has (.field 5) ∧
    ¬(exec step tickets [.fieldDelete 1 5 true]).Has (.field 5) ∧
    ∀ py, conditionOk py (tickets.fieldOf 1) urgent.condition (fun _ => .null) = false ∧
      conditionOk py ((exec step tickets [.fieldDelete 1 5 true]).fieldOf 1) urgent.condition (fun _ => .null) = true := by
  have href : .field 5 ∈ (exec step tickets [.fieldDelete 1 5 true]).refs := by decide
  have hhas : tickets.Has (.field 5) := ⟨_,List.mem_singleton_self _,rfl⟩
  have hlost : ¬(exec step tickets [.fieldDelete 1 5 true]).Has (.field 5) := by
    rintro ⟨f,hf,-⟩
    exact absurd hf List.not_mem_nil
  exact ⟨fun h => hlost (h.refs _ href hhas),href,hhas,hlost,fun py => ⟨rfl,rfl⟩⟩

end Designer
end Biggy
