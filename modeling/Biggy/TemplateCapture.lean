import Biggy.FormTemplates

/-!
# What a template has of a form

Every item of a captured form has a row in the template, and the fields and relations that the rows name are the template's
own. With the fields of the form in their own places the conditions are mapped to themselves.
-/
namespace Biggy
namespace FormTemplates

open FormRules FormDesign

section Capture

variable {ω : Type*} {lib : DesignLib ω} {S : Schema}

/-- A field that an item shows. -/
def OnForm (S : Schema) (items : List Json) (f : MetaField) : Prop :=
  ∃ item ∈ items, isField (membersOf item) = true ∧ S.field (entry item "field_id") = some f

/-- The relations of the items, in their order. -/
def relationIds (items : List Json) : List Json :=
  (items.filter fun item => isRelation (membersOf item)).map fun item => entry item "relation_id"

/-- The columns that a template has of an item. -/
def columnsOf (item : Json) : Members := copied.map fun key => (key,entry item key)

/-- The row of a field. -/
def fieldRow (S : Schema) (item : Json) (f : MetaField) : TemplateItem :=
  if (entry item "parent_field_id").truthy then
    { columns := columnsOf item
      field := some f.physName
      parent := (S.field (entry item "parent_field_id")).map MetaField.physName
      filter := ((S.related f).bind fun target => fieldIn target (entry item "filter_field_id")).map MetaField.physName }
  else { columns := columnsOf item, field := some f.physName }

/-- The row that a template has for an item, with the relations of the form by their places. -/
inductive Row (S : Schema) (ids : List Json) (item : Json) : TemplateItem → Prop
  | field (f : MetaField) : isField (membersOf item) = true → S.field (entry item "field_id") = some f →
    ((entry item "parent_field_id").truthy = true → ∃ parent, S.field (entry item "parent_field_id") = some parent) →
    Row S ids item (fieldRow S item f)
  | relation (n : ℕ) : isField (membersOf item) = false → isRelation (membersOf item) = true →
    ids[n]? = some (entry item "relation_id") → Row S ids item { columns := columnsOf item, relation := some (relationKey n) }
  | plain : isField (membersOf item) = false → isRelation (membersOf item) = false →
    Row S ids item { columns := columnsOf item }

/-- What a template says of a field. -/
def Describes (lib : DesignLib ω) (p : String × FieldSpec) (f : MetaField) : Prop :=
  p.1 = f.physName ∧ p.2.type = f.dataType ∧ specChoices lib f = .ok p.2.choices

/-- One item adds its row, its field or its relation. -/
inductive Adds (lib : DesignLib ω) (S : Schema) (c : Captured) (item : Json) : Captured → Prop
  | field (f : MetaField) (spec : FieldSpec) : isField (membersOf item) = true → S.field (entry item "field_id") = some f →
    ((entry item "parent_field_id").truthy = true → ∃ parent, S.field (entry item "parent_field_id") = some parent) →
    Describes lib (f.physName,spec) f →
    Adds lib S c item { c with fields := Keyed.put Prod.fst (f.physName,spec) c.fields, items := c.items++[fieldRow S item f] }
  | relation (name : String) : isField (membersOf item) = false → isRelation (membersOf item) = true →
    Adds lib S c item { c with
      relations := Keyed.put Prod.fst (relationKey c.relations.length,name) c.relations
      items := c.items++[{ columns := columnsOf item, relation := some (relationKey c.relations.length) }] }
  | plain : isField (membersOf item) = false → isRelation (membersOf item) = false →
    Adds lib S c item { c with items := c.items++[{ columns := columnsOf item }] }

theorem captureField_adds {c c' : Captured} {members : Members} (hfield : isField members = true)
    (h : captureField lib S c members { columns := columnsOf (.obj members) } = .ok c') : Adds lib S c (.obj members) c' := by
  rw [captureField] at h
  split at h
  · cases h
  rename_i f hf
  split at h
  · cases h
  rename_i choices hchoices
  have hdescribes : Describes lib (f.physName,⟨f.label,f.dataType,choices⟩) f := ⟨rfl,rfl,hchoices⟩
  dsimp only at h
  split at h
  · rename_i htruthy
    split at h
    · cases h
    rename_i parent hparent
    obtain rfl := Except.ok.inj h
    have hrow : fieldRow S (.obj members) f = {
        columns := columnsOf (.obj members)
        field := some f.physName
        parent := some parent.physName
        filter := ((S.related f).bind fun target => fieldIn target (Json.get members "filter_field_id")).map MetaField.physName } := by
      rw [fieldRow,entry_obj,if_pos htruthy,hparent]
      rfl
    rw [← hrow]
    exact .field f _ hfield hf (fun _ => ⟨parent,hparent⟩) hdescribes
  · rename_i htruthy
    obtain rfl := Except.ok.inj h
    have hrow : fieldRow S (.obj members) f = { columns := columnsOf (.obj members), field := some f.physName } := by
      rw [fieldRow,entry_obj,if_neg htruthy]
    rw [← hrow]
    exact .field f _ hfield hf (fun hyes => absurd hyes htruthy) hdescribes

theorem captureItem_adds {c c' : Captured} {item : Json} (h : captureItem lib S c item = .ok c') : Adds lib S c item c' := by
  cases item with
  | obj members =>
    rw [captureItem] at h
    split at h
    · rename_i hfield
      exact captureField_adds hfield h
    rename_i hfield
    rw [Bool.not_eq_true] at hfield
    split at h
    · rename_i hrelation
      rw [captureRelation] at h
      split at h
      · obtain rfl := Except.ok.inj h
        exact .relation _ hfield hrelation
      · cases h
    · rename_i hrelation
      obtain rfl := Except.ok.inj h
      exact .plain hfield (Bool.not_eq_true _ ▸ hrelation)
  | _ => cases h

theorem put_fresh {α κ : Type*} [DecidableEq κ] {key : α → κ} {x : α} {xs : List α} (h : ∀ y ∈ xs, key y ≠ key x) :
    Keyed.put key x xs = xs++[x] := by
  induction xs with
  | nil => rfl
  | cons y ys ih =>
    rw [Keyed.put,if_neg (h y List.mem_cons_self),ih fun z hz => h z (List.mem_cons_of_mem _ hz)]
    rfl

theorem relationKey_injective {m n : ℕ} (h : relationKey m = relationKey n) : m = n := by
  have hdigits := congrArg String.toList h
  simp only [relationKey,String.toList_append,Nat.toString_eq_ofList_toDigits,String.toList_ofList] at hdigits
  have hread := congrArg (fun digits => Nat.ofDigitChars 10 digits 0) (List.append_cancel_left hdigits)
  simpa only [Nat.ofDigitChars_toDigits (show 1 < 10 by decide) (show 10 ≤ 10 by decide)] using hread

/-- The relations have the keys up to their number. -/
def Numbered (c : Captured) : Prop := c.relations.map Prod.fst = (List.range c.relations.length).map relationKey

theorem numbered_put {c : Captured} (h : Numbered c) (name : String) :
    Keyed.put Prod.fst (relationKey c.relations.length,name) c.relations =
      c.relations++[(relationKey c.relations.length,name)] := by
  refine put_fresh fun p hp hkey => ?_
  have hmem : p.1 ∈ (List.range c.relations.length).map relationKey := h ▸ List.mem_map_of_mem hp
  obtain ⟨n,hn,hname⟩ := List.mem_map.mp hmem
  have hsame := relationKey_injective (hname.trans hkey)
  rw [hsame] at hn
  exact absurd (List.mem_range.mp hn) (lt_irrefl _)

theorem kinds_exclude {members : Members} (h : isField members = true) : isRelation members = false := by
  cases hkind : Json.get members "kind" with
  | str kind =>
    simp only [isField,hkind] at h
    obtain rfl := of_decide_eq_true h
    simp only [isRelation,hkind]
    rfl
  | _ => simp [isField,hkind] at h

/-- Every item has its row in the template, and every relation its key. -/
theorem rows_of_fold (before : List Json) {items : List Json} {c c' : Captured} (h : items.foldlM (captureItem lib S) c = .ok c')
    (hnumbered : Numbered c) (hlength : c.relations.length = before.length) :
    (∃ rows, c'.items = c.items++rows ∧ List.Forall₂ (Row S (before++relationIds items)) items rows) ∧
      Numbered c' ∧ c'.relations.length = (before++relationIds items).length := by
  induction items generalizing c before with
  | nil =>
    obtain rfl := Except.ok.inj h
    refine ⟨⟨[],(List.append_nil _).symm,.nil⟩,hnumbered,?_⟩
    rw [hlength,relationIds,List.filter_nil,List.map_nil,List.append_nil]
  | cons item items ih =>
    rw [Outcome.foldlM_cons] at h
    obtain ⟨d,hd,hrest⟩ := Outcome.bind_ok h
    have hskip : isRelation (membersOf item) = false → relationIds (item::items) = relationIds items := by
      intro hrelation
      simp only [relationIds,List.filter_cons,hrelation,Bool.false_eq_true,if_false]
    cases captureItem_adds hd with
    | field f spec hfield hf hparent hspec =>
      have hrelation : isRelation (membersOf item) = false := kinds_exclude hfield
      obtain ⟨⟨rows,hrows,hall⟩,hkeys,hcount⟩ := ih before hrest hnumbered hlength
      rw [hskip hrelation]
      refine ⟨⟨fieldRow S item f::rows,?_,.cons (.field f hfield hf hparent) hall⟩,hkeys,hcount⟩
      rw [hrows,List.append_assoc]
      rfl
    | relation name hfield hrelation =>
      have hput := numbered_put hnumbered name
      have hids : relationIds (item::items) = entry item "relation_id"::relationIds items := by
        simp only [relationIds,List.filter_cons,hrelation,if_true,List.map_cons]
      have hwhole : (before++[entry item "relation_id"])++relationIds items = before++relationIds (item::items) := by
        rw [hids,List.append_assoc]
        rfl
      rw [hput] at hrest
      obtain ⟨⟨rows,hrows,hall⟩,hkeys,hcount⟩ := ih (before++[entry item "relation_id"]) hrest
        (by
          have hmap : c.relations.map Prod.fst = (List.range c.relations.length).map relationKey := hnumbered
          simp only [Numbered,List.map_append,List.length_append,List.length_singleton,List.range_succ,hmap]
          rfl)
        (by simp only [List.length_append,List.length_singleton,hlength])
      rw [hwhole] at hall hcount
      refine ⟨⟨_::rows,?_,.cons (.relation c.relations.length hfield hrelation ?_) hall⟩,hkeys,hcount⟩
      · rw [hrows,List.append_assoc]
        rfl
      · rw [hids,hlength,List.getElem?_append_right (le_refl _),Nat.sub_self]
        rfl
    | plain hfield hrelation =>
      obtain ⟨⟨rows,hrows,hall⟩,hkeys,hcount⟩ := ih before hrest hnumbered hlength
      rw [hskip hrelation]
      refine ⟨⟨_::rows,?_,.cons (.plain hfield hrelation) hall⟩,hkeys,hcount⟩
      rw [hrows,List.append_assoc]
      rfl

/-- The template describes the fields of the form. -/
theorem fields_of_fold {items : List Json} {c : Captured} (h : items.foldlM (captureItem lib S) {} = .ok c) :
    (c.fields.map Prod.fst).Nodup ∧ ∀ p ∈ c.fields, ∃ f, OnForm S items f ∧ Describes lib p f := by
  refine Outcome.foldlM_invariant (fun c => (c.fields.map Prod.fst).Nodup ∧ ∀ p ∈ c.fields, ∃ f, OnForm S items f ∧ Describes lib p f)
    (fun c d item hitem hc hd => ?_) ⟨List.nodup_nil,fun p hp => by cases hp⟩ h
  cases captureItem_adds hd with
  | field f spec hfield hf hparent hspec =>
    refine ⟨Keyed.nodup_put _ hc.1,fun p hp => ?_⟩
    rcases Keyed.mem_put hp with rfl | hp
    · exact ⟨f,⟨item,hitem,hfield,hf⟩,hspec⟩
    · exact hc.2 p hp
  | relation | plain => exact hc

theorem fields_kept {items : List Json} {c c' : Captured} (h : items.foldlM (captureItem lib S) c = .ok c') {name : String}
    (hname : name ∈ c.fields.map Prod.fst) : name ∈ c'.fields.map Prod.fst := by
  refine Outcome.foldlM_invariant (fun c => name ∈ c.fields.map Prod.fst) (fun c d item _ hc hd => ?_) hname h
  cases captureItem_adds hd with
  | field f spec =>
    obtain ⟨p,hp,rfl⟩ := List.mem_map.mp hc
    obtain ⟨q,hq,hkey⟩ := @Keyed.exists_mem_put _ _ _ Prod.fst p.1 (f.physName,spec) c.fields (Or.inr ⟨p,hp,rfl⟩)
    exact List.mem_map.mpr ⟨q,hq,hkey⟩
  | relation | plain => exact hc

theorem fields_cover {items : List Json} {c c' : Captured} (h : items.foldlM (captureItem lib S) c = .ok c') {f : MetaField}
    (hf : OnForm S items f) : f.physName ∈ c'.fields.map Prod.fst := by
  induction items generalizing c with
  | nil =>
    obtain ⟨item,hitem,-⟩ := hf
    cases hitem
  | cons item items ih =>
    rw [Outcome.foldlM_cons] at h
    obtain ⟨d,hd,hrest⟩ := Outcome.bind_ok h
    obtain ⟨item',hitem',hfield',hf'⟩ := hf
    rcases List.mem_cons.mp hitem' with rfl | hitem'
    · refine fields_kept hrest ?_
      cases captureItem_adds hd with
      | field g spec hfield hg =>
        obtain rfl := Option.some.inj (hf'.symm.trans hg)
        obtain ⟨q,hq,hkey⟩ := @Keyed.exists_mem_put _ _ _ Prod.fst f.physName (f.physName,spec) c.fields (Or.inl rfl)
        exact List.mem_map.mpr ⟨q,hq,hkey⟩
      | relation name hfield => rw [hfield'] at hfield; cases hfield
      | plain hfield => rw [hfield'] at hfield; cases hfield
    · exact ih hrest ⟨item',hitem',hfield',hf'⟩

end Capture

/-! ### The identity mapping -/

section Identity

variable {ω : Type*} {lib : DesignLib ω} {S : Schema}

/-- The id of the field of a name. -/
def idOf (S : Schema) (name : String) : Json :=
  match Keyed.find MetaField.physName name S.table.fields with
  | some f => .int f.id
  | none => .null

/-- Every field of the template is the field of that name. -/
def identityFields (S : Schema) (template : Template) : Members := template.fields.map fun p => (p.1,idOf S p.1)

/-- Every relation of the template is the one that was captured under its key. -/
def identityRelations (items : List Json) : Members :=
  (relationIds items).zipIdx.map fun p => (relationKey p.2,p.1)

/-- The options of an enumeration are a set, and a subset of themselves. -/
def Comparable (lib : DesignLib ω) (f : MetaField) : Prop :=
  f.dataType = .enum → ∃ options, enumOptions lib f = .ok options ∧ issubset options options = .ok true

theorem field_mem {id : Json} {f : MetaField} (h : S.field id = some f) : f ∈ S.table.fields := by
  cases id with
  | int n => exact List.mem_of_find?_eq_some h
  | _ => cases h

theorem field_id {f : MetaField} (hf : f ∈ S.table.fields) : S.field (.int f.id) = some f := by
  have hfind := Keyed.find_of_mem S.table.idsNodup hf
  simp only [Site.field,Nat.cast_inj]
  exact hfind

theorem id_of_field {id : Json} {f : MetaField} (h : S.field id = some f) : id = .int f.id := by
  cases id with
  | int n =>
    have htest := List.find?_some h
    rw [of_decide_eq_true htest]
  | _ => cases h

theorem compatible_own {p : String × FieldSpec} {f : MetaField} (h : Describes lib p f) :
    compatible lib p.2 f = .ok true ↔ Comparable lib f := by
  obtain ⟨-,htype,hchoices⟩ := h
  unfold specChoices at hchoices
  by_cases henum : f.dataType = .enum
  · rw [if_pos henum] at hchoices
    have hsame : compatible lib p.2 f = issubset p.2.choices p.2.choices := by
      rw [compatible,if_neg (not_not.mpr htype),if_pos henum,hchoices]
      cases hset : setOf p.2.choices with
      | error e => simp [issubset,hset]
      | ok xs => rfl
    rw [hsame]
    constructor
    · exact fun hsubset _ => ⟨_,hchoices,hsubset⟩
    · intro h
      obtain ⟨options,hoptions,hsubset⟩ := h henum
      obtain rfl := Except.ok.inj (hchoices.symm.trans hoptions)
      exact hsubset
  · rw [compatible,if_neg (not_not.mpr htype),if_neg henum]
    exact ⟨fun _ h => absurd h henum,fun _ => rfl⟩

theorem lookup_table {γ : Type*} (g : String → γ) {keys : List String} {key : String} (h : key ∈ keys) :
    (keys.map fun key => (key,g key)).lookup key = some (g key) := by
  induction keys with
  | nil => cases h
  | cons name keys ih =>
    rw [List.map_cons,List.lookup_cons]
    cases hkey : key == name with
    | true => rw [eq_of_beq hkey]
    | false =>
      rw [List.mem_cons] at h
      exact ih (h.resolve_left fun heq => absurd heq (by simpa using hkey))

theorem lookup_keyed {β γ : Type*} (g : String → γ) {xs : List (String × β)} {key : String} (h : key ∈ xs.map Prod.fst) :
    (xs.map fun p => (p.1,g p.1)).lookup key = some (g key) := by
  have htable := lookup_table g h
  rwa [List.map_map] at htable

theorem mapField_identity {template : Template} {p : String × FieldSpec} (hp : p ∈ template.fields) {f : MetaField}
    (hf : f ∈ S.table.fields) (h : Describes lib p f) {q : String × MetaField} :
    mapField lib S (identityFields S template) p = .ok q ↔ q = (f.physName,f) ∧ Comparable lib f := by
  have hget : Json.get (identityFields S template) p.1 = .int f.id := by
    have hfind : Keyed.find MetaField.physName p.1 S.table.fields = some f := by
      rw [h.1]
      exact Keyed.find_of_mem S.table.namesNodup hf
    rw [Json.get,identityFields,lookup_keyed (idOf S) (List.mem_map_of_mem hp),Option.getD_some,idOf,hfind]
  rw [mapField,hget,field_id hf,← compatible_own h]
  dsimp only
  cases hfits : compatible lib p.2 f with
  | error e => simp
  | ok fits =>
    cases fits with
    | true =>
      simp only [if_true,Except.ok.injEq,and_true,h.1]
      exact eq_comm
    | false => simp

/-- The fields of the form under their own names. -/
structure Identity (S : Schema) (items : List Json) (mapped : List (String × MetaField)) : Prop where
  nodup : (mapped.map Prod.fst).Nodup
  own : ∀ q ∈ mapped, q.1 = q.2.physName ∧ OnForm S items q.2
  cover : ∀ f, OnForm S items f → f.physName ∈ mapped.map Prod.fst

theorem onForm_mem {items : List Json} {f : MetaField} (h : OnForm S items f) : f ∈ S.table.fields := by
  obtain ⟨item,-,-,hf⟩ := h
  exact field_mem hf

theorem identity_of_fold {items : List Json} {c : Captured} (h : items.foldlM (captureItem lib S) {} = .ok c) {template : Template}
    (hfields : template.fields = c.fields) {mapped : List (String × MetaField)}
    (hmapped : template.fields.mapM (mapField lib S (identityFields S template)) = .ok mapped) : Identity S items mapped := by
  obtain ⟨hnodup,hdescribed⟩ := fields_of_fold h
  have hpairs := Outcome.mapM_ok hmapped
  have hown : ∀ p ∈ template.fields, ∀ q, mapField lib S (identityFields S template) p = .ok q →
      q.1 = p.1 ∧ q.1 = q.2.physName ∧ OnForm S items q.2 := by
    intro p hp q hq
    obtain ⟨f,hon,hdescribes⟩ := hdescribed p (hfields ▸ hp)
    obtain ⟨rfl,-⟩ := (mapField_identity hp (onForm_mem hon) hdescribes).mp hq
    exact ⟨hdescribes.1.symm,rfl,hon⟩
  have hkeys : mapped.map Prod.fst = c.fields.map Prod.fst := by
    rw [← hfields]
    clear hmapped hfields
    generalize template.fields = fields at hpairs hown
    induction hpairs with
    | nil => rfl
    | cons hq _ ih =>
      rw [List.map_cons,List.map_cons,(hown _ List.mem_cons_self _ hq).1,ih fun p hp => hown p (List.mem_cons_of_mem _ hp)]
  refine ⟨hkeys ▸ hnodup,fun q hq => ?_,fun f hf => hkeys ▸ fields_cover h hf⟩
  obtain ⟨p,hp,hpq⟩ := Outcome.mapM_from hmapped hq
  exact (hown p hp q hpq).2

namespace Identity

variable {items : List Json} {mapped : List (String × MetaField)}

theorem lookup_some (h : Identity S items mapped) {name : String} {f : MetaField} (hlookup : mapped.lookup name = some f) :
    name = f.physName ∧ OnForm S items f := by
  obtain ⟨before,after,rfl,-⟩ := List.lookup_eq_some_iff.mp hlookup
  exact h.own (name,f) (List.mem_append_right _ List.mem_cons_self)

theorem lookup_iff (h : Identity S items mapped) {f : MetaField} (hf : f ∈ S.table.fields) :
    mapped.lookup f.physName = some f ↔ OnForm S items f := by
  refine ⟨fun hlookup => (h.lookup_some hlookup).2,fun hon => ?_⟩
  obtain ⟨g,hg⟩ := Option.isSome_iff_exists.mp (lookup_isSome.mpr (h.cover f hon))
  obtain ⟨hname,hong⟩ := h.lookup_some hg
  rw [hg,S.table.field_unique hf (onForm_mem hong) hname]

theorem lookup_none (h : Identity S items mapped) {f : MetaField} (hf : f ∈ S.table.fields) (hoff : ¬OnForm S items f) :
    mapped.lookup f.physName = none := by
  cases hlookup : mapped.lookup f.physName with
  | none => rfl
  | some g =>
    obtain ⟨hname,hon⟩ := h.lookup_some hlookup
    rw [S.table.field_unique hf (onForm_mem hon) hname] at hoff
    exact absurd hon hoff

theorem ids_nodup (h : Identity S items mapped) : (mapped.map fun q => q.2.id).Nodup := by
  refine List.Nodup.map_on (fun p hp q hq hid => ?_) (List.Nodup.of_map _ h.nodup)
  obtain ⟨hname,hon⟩ := h.own p hp
  obtain ⟨hname',hon'⟩ := h.own q hq
  have hsame : p.2 = q.2 := List.inj_on_of_nodup_map S.table.idsNodup (onForm_mem hon) (onForm_mem hon') hid
  exact Prod.ext (by rw [hname,hname',hsame]) hsame

end Identity

/-! ### Conditions under the identity mapping -/

theorem set_same {members : Members} {key : String} {value : Json} (h : members.lookup key = some value) :
    FormDesign.set members key value = members := by
  induction members with
  | nil => cases h
  | cons p members ih =>
    obtain ⟨name,old⟩ := p
    rw [List.lookup_cons] at h
    by_cases hname : name = key
    · subst hname
      rw [beq_self_eq_true] at h
      obtain rfl := Option.some.inj h
      simp [FormDesign.set,Keyed.put]
    · have hbeq : (key == name) = false := by simpa using Ne.symm hname
      rw [hbeq] at h
      have hrest := ih h
      rw [FormDesign.set] at hrest
      rw [FormDesign.set,Keyed.put,if_neg hname,hrest]

variable {mapped : List (String × MetaField)}

theorem remapMember_same {key : String} {members : Members} {value : Json} (hvalue : members.lookup key = some value)
    (h : remapChildren mapped value = .ok value) : remapMember mapped key members = .ok members := by
  induction members with
  | nil => rfl
  | cons p members ih =>
    obtain ⟨name,old⟩ := p
    rw [List.lookup_cons] at hvalue
    rw [remapMember]
    by_cases hname : name = key
    · subst hname
      rw [beq_self_eq_true] at hvalue
      obtain rfl := Option.some.inj hvalue
      rw [if_pos rfl,h]
      rfl
    · have hbeq : (key == name) = false := by simpa using Ne.symm hname
      rw [hbeq] at hvalue
      rw [if_neg hname,ih hvalue]
      rfl

theorem remapItems_same {items : List Json} (h : ∀ item ∈ items, remap mapped item = .ok item) :
    remapItems mapped items = .ok items := by
  induction items with
  | nil => rfl
  | cons item items ih =>
    rw [remapItems,h item List.mem_cons_self,ih fun other hother => h other (List.mem_cons_of_mem _ hother)]

/-- A leaf names a field of the form. -/
theorem readLeaf_field {lib : FormLib ω} {fields : List MetaField} {target : String} {node : Members} {n : Node}
    (h : readLeaf lib fields target node = .ok n) : ∃ f ∈ fields, node.lookup "field" = some (.str f.physName) := by
  rw [readLeaf] at h
  split at h
  · cases h
  rename_i name hname
  split at h
  · cases h
  rename_i f hf
  obtain ⟨text,rfl,hfind⟩ := Option.bind_eq_some_iff.mp hf
  refine ⟨f,Keyed.mem_of_find hfind,?_⟩
  rw [Keyed.key_of_find hfind]
  exact Json.lookup_of_get (readName_some hname) (by simp)

/-- A condition on fields that are mapped to themselves is mapped to itself. -/
theorem remap_same {lib : FormLib ω} {fields : List MetaField} {target : String}
    (hmapped : ∀ f ∈ fields, mapped.lookup f.physName = some f) {levels : ℕ} {node : Json} {n : Node}
    (h : readNode lib fields target levels node = .ok n) : remap mapped node = .ok node := by
  induction levels generalizing node n with
  | zero =>
    rw [readNode.eq_def] at h
    cases h
  | succ levels ih =>
    have hsame : ∀ {key : String} {members : Members} {children : List Json} {nodes : List Node}, key ≠ "field" →
        readGroup key members = .ok children → children.mapM (readNode lib fields target levels) = .ok nodes →
        members.lookup "field" = none ∧ (members.lookup key).isSome = true ∧ remapMember mapped key members = .ok members := by
      intro key members children nodes hkey hread hnodes
      obtain ⟨hlookup,honly⟩ := readGroup_ok hread
      refine ⟨honly "field" hkey.symm,by rw [hlookup]; rfl,remapMember_same hlookup ?_⟩
      rw [remapChildren,remapItems_same fun child hchild => ?_]
      · rfl
      · obtain ⟨m,hm⟩ := Outcome.mapM_mem hnodes hchild
        exact ih hm
    obtain ⟨members,rfl,⟨children,nodes,hread,hnodes,-⟩ | ⟨hall,children,nodes,hread,hnodes,-⟩ | ⟨-,-,hleaf⟩⟩ :=
      readNode_cases h
    · obtain ⟨hnone,hall,hmember⟩ := hsame (by decide) hread hnodes
      rw [remap,hnone,if_neg (by decide),if_pos hall,hmember]
      rfl
    · obtain ⟨hnone,-,hmember⟩ := hsame (by decide) hread hnodes
      rw [remap,hnone,if_neg (by decide),hall,if_neg (by decide),hmember]
      rfl
    · obtain ⟨f,hf,hlookup⟩ := readLeaf_field hleaf
      have hget : Json.get members "field" = .str f.physName := by rw [Json.get,hlookup,Option.getD_some]
      rw [remap,hlookup,Option.isSome_some,if_pos rfl,hget]
      simp only [readName,Option.bind_some,hmapped f hf,set_same hlookup]

theorem remapRules_same {rules : Members} {seen : List String}
    (h : ∀ key, key ∉ seen → ∀ tree, rules.lookup key = some tree → remap mapped tree = .ok tree) :
    remapRules mapped seen rules = .ok rules := by
  induction rules generalizing seen with
  | nil => rfl
  | cons p rules ih =>
    obtain ⟨name,tree⟩ := p
    have hother : ∀ key, key ≠ name → ((name,tree)::rules).lookup key = rules.lookup key := by
      intro key hkey
      have hbeq : (key == name) = false := by simpa using hkey
      rw [List.lookup_cons,hbeq]
    rw [remapRules]
    by_cases hseen : name ∈ seen
    · have hrest : remapRules mapped seen rules = .ok rules := by
        refine ih fun key hkey tree' htree' => h key hkey tree' ?_
        rw [hother key (by rintro rfl; exact hkey hseen)]
        exact htree'
      rw [if_pos hseen,hrest]
      rfl
    · have htree : remap mapped tree = .ok tree := by
        refine h name hseen tree ?_
        rw [List.lookup_cons,beq_self_eq_true]
      have hrest : remapRules mapped (name::seen) rules = .ok rules := by
        refine ih fun key hkey tree' htree' => h key (fun hin => hkey (List.mem_cons_of_mem _ hin)) tree' ?_
        rw [hother key (by rintro rfl; exact hkey List.mem_cons_self)]
        exact htree'
      rw [if_neg hseen,htree,hrest]

/-- Accepted rules on fields of the form are mapped to themselves. -/
theorem remapRules_valid {rules : Members} (hkeys : ∀ p ∈ rules, p.1 ∈ ["show","require","readonly"]) {used : List MetaField}
    {target : String} {result : Rules} (hvalid : validate lib.toFormLib (.obj rules) used target = .ok result)
    (hmapped : ∀ f ∈ used, mapped.lookup f.physName = some f) : remapRules mapped [] rules = .ok rules := by
  obtain ⟨hall,-⟩ := (validate_iff hkeys).mp hvalid
  refine remapRules_same fun key _ tree htree => ?_
  obtain ⟨node,hnode⟩ := hall key (by rw [htree]; rfl)
  rw [treeAt,Json.get,htree] at hnode
  exact remap_same hmapped hnode

end Identity

end FormTemplates
end Biggy
