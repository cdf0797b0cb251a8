import Biggy.Access
import Biggy.TemplateTrip
import Biggy.GraphLoop

/-!
# What is wrong with a form

`check_form` looks at the items of a form one by one, at their rules together, and follows the links between dependent
dropdowns. Of the items that show one field only the last link is followed: `cycle_report_iff` says when a cycle is missed.
-/
namespace Biggy
namespace FormCheck

open FormRules FormDesign GraphLoop Forest

/-! ### The form and what it is checked against -/

structure Role where
  name : String
  label : String

/-- The rows that `check_form` reads. -/
structure Setup where
  tables : List MetaTable
  relations : List (ℤ × MetaRelation)
  roles : List Role
  session : Access.Session

structure FormItem where
  id : Option ℕ
  kind : String
  fieldId : Option ℤ := none
  relationId : Option ℤ := none
  parentFieldId : Option ℤ := none
  filterFieldId : Option ℤ := none
  required : Bool := false
  readonly : Bool := false
  rulesJson : Json := .null

structure Form where
  id : ℕ
  table : MetaTable
  purpose : String
  inCatalog : Bool
  items : List FormItem

structure Issue where
  message : String
  level : String
  formId : ℕ
  itemId : Option ℕ

section Check

variable {ω : Type*} (lib : DesignLib ω) (setup : Setup) (form : Form)

/-- `session.get(MetaTable, id)`. -/
def Setup.table (id : ℕ) : Option MetaTable := Keyed.find MetaTable.id id setup.tables

/-- `issue`. -/
def Form.issue (message : String) (item : Option FormItem) : Issue := ⟨message,"error",form.id,item.bind FormItem.id⟩

/-- `fields.get(id)`. -/
def Form.field (id : Option ℤ) : Option MetaField :=
  id.bind fun n => form.table.fields.find? fun f => decide ((f.id : ℤ) = n)

/-- `present`. -/
def Form.present : List (Option ℤ) := (form.items.filter fun item => item.kind = "field").map FormItem.fieldId

def Form.shows (f : MetaField) : Bool := some (f.id : ℤ) ∈ form.present

/-- An id that is set. -/
def given (id : Option ℤ) : Option ℤ := id.filter fun n => n ≠ 0

/-- `field_access`. -/
def fieldAccess (user : Access.User) (field : MetaField) : Access.Level :=
  if !user.active then .none
  else if user.isDesigner then .full
  else ((setup.session.fieldPermissions.find? fun p => decide (p.role = user.role ∧ p.fieldId = field.id)).map
    Access.MetaFieldPermission.access).getD .write

def hasDefault (field : MetaField) : Bool := field.defaultValue.getD "" ≠ ""

/-! ### One item -/

def missingIssues (item : FormItem) : List Issue :=
  if item.kind = "field" ∧ form.field item.fieldId = none then
    [form.issue "A form item refers to a missing field." (some item)]
  else []

def relationIssues (item : FormItem) : List Issue :=
  let unrelated := [form.issue "A many-to-many item has a missing or unrelated relationship." (some item)]
  if item.kind = "relation" then
    match item.relationId.bind fun id => setup.relations.lookup id with
    | none => unrelated
    | some relation => if form.table.id ∈ [relation.fromTableId,relation.toTableId] then [] else unrelated
  else []

/-- The fields of the field's table that link to the table of the controlling field. -/
def matching (field : MetaField) (parent : Option MetaField) : List MetaField :=
  match (field.relatedTableId.filter (· ≠ 0)).bind setup.table, parent with
  | some target, some parent =>
    target.fields.filter fun f => decide (f.relatedTableId = parent.relatedTableId ∧ f.dataType = .relation)
  | _, _ => []

/-- The controlling field is a relationship on the form. -/
def controls : Option MetaField → Bool
  | none => false
  | some parent => form.shows parent && decide (parent.dataType = .relation)

def parentIssues (item : FormItem) (field : MetaField) : List Issue :=
  if given item.parentFieldId = none then []
  else
    let parent := form.field item.parentFieldId
    if !controls form parent then
      [form.issue (field.label++": its controlling field must be a relationship on this form.") (some item)]
    else
      match given item.filterFieldId with
      | some id =>
        if (matching setup field parent).any fun f => decide ((f.id : ℤ) = id) then []
        else [form.issue (field.label++": the match field does not link to the controlling table.") (some item)]
      | none =>
        if (matching setup field parent).length = 1 then []
        else [form.issue (field.label++": choose a match field; automatic matching is ambiguous or unavailable.") (some item)]

def targetIssues (item : FormItem) (field : MetaField) : List Issue :=
  if field.dataType = .relation ∧ (field.relatedTableId.bind setup.table).isNone = true then
    [form.issue (field.label++": the related table is missing.") (some item)]
  else []

/-- A role that can write the form and not the field. -/
def barred (field : MetaField) (role : Role) : Bool :=
  let user : Access.User := { id := 0, role := role.name }
  let writable := if role.name = "portal" then form.inCatalog
    else Access.canWrite (Access.formAccess setup.session user form.id)
  decide (role.name ≠ "designer") && writable && !Access.canWrite (fieldAccess setup user field) && !hasDefault field

def requiredIssues (item : FormItem) (field : MetaField) : List Issue :=
  if form.purpose ≠ "view" ∧ (item.required = true ∨ field.nullable = false) then
    (if item.readonly = true ∧ hasDefault field = false ∧ field.dataType ∉ [DataType.formula,.autonumber] then
      [form.issue (field.label++" is required but read-only, with no default.") (some item)]
    else [])++
    (setup.roles.filter (barred setup form field)).map fun role =>
      form.issue (field.label++" is required but unavailable to role “"++role.label++"”.") (some item)
  else []

/-- The first loop, for one item. -/
def itemIssues (item : FormItem) : List Issue :=
  missingIssues form item++relationIssues setup form item++
    match form.field item.fieldId with
    | none => []
    | some field => parentIssues setup form item field++targetIssues setup form item field++requiredIssues setup form item field

/-- The binding that an item makes in `edges`: its field and the controlling one. -/
def Form.link (item : FormItem) : Option (ℤ × ℤ) :=
  match form.field item.fieldId, given item.parentFieldId with
  | some field, some parent => some ((field.id : ℤ),parent)
  | _, _ => none

def Form.links : List (ℤ × ℤ) := form.items.filterMap form.link

/-- `edges`. -/
def Form.edges : List (ℤ × ℤ) := Keyed.puts Prod.fst form.links

/-! ### The rules -/

/-- `rule_fields`. -/
def ruleFields : List MetaField := form.table.fields.filter form.shows

/-- The rules of an item, or the issue that they make. -/
def itemRules (item : FormItem) : Except PyError (List Issue × List (String × FormRules.Item)) :=
  match form.field item.fieldId with
  | none => .ok ([],[])
  | some field =>
    if item.kind ≠ "field" then .ok ([],[])
    else
      match (parseRules lib.toFormLib item.rulesJson).bind fun rules =>
          FormRules.validate lib.toFormLib (.obj rules) (ruleFields form) field.physName with
      | .ok trees => .ok ([],[(field.physName,{ rules := trees })])
      | .error e =>
        if caught e then
          .ok ([form.issue
            (field.label++": conditional rules refer to an unavailable field or contain invalid conditions.") (some item)],[])
        else .error e

def orderIssues (entries : List (String × FormRules.Item)) : Except PyError (List Issue) :=
  match order lib.arrangement (rulesConfig entries) with
  | .ok _ => .ok []
  | .error (.valueError _) => .ok [form.issue "Conditional rules form a cycle. Remove a circular dependency." none]
  | .error e => .error e

/-! ### The form as a whole -/

def cycleMessage : String := "Dependent dropdowns form a cycle. Each chain must end at an independent field."

theorem lookup_keys (edges : List (ℤ × ℤ)) (a b : ℤ) (h : edges.lookup a = some b) : a ∈ (edges.map Prod.fst).toFinset := by
  obtain ⟨before,after,rfl,-⟩ := List.lookup_eq_some_iff.mp h
  simp

/-- The walk along the links from a field. -/
def chain (edges : List (ℤ × ℤ)) : Loop (Step ℤ) Bool :=
  walkLoop (edges.lookup ·) (edges.map Prod.fst).toFinset (lookup_keys edges)

def cycleIssues : List Issue :=
  ((form.edges.map Prod.fst).filter fun start => (chain form.edges).run ⟨∅,start⟩).map fun _ => form.issue cycleMessage none

def catalogIssues : List Issue :=
  if form.inCatalog = true ∧ ¬(form.table.trackAudit = true ∨ form.table.rowOwned = true) then
    [form.issue "This catalog form needs audit or ownership tracking before portal customers can use it." none]
  else []

/-- A field that a row of the table needs and the form does not show. -/
def absent (field : MetaField) : Bool :=
  decide (form.purpose ≠ "view") && !field.nullable && !form.shows field && !hasDefault field &&
    decide (field.dataType ∉ [DataType.autonumber,.formula]) && decide (field.physName ≠ form.table.pkCol)

def absentIssues : List Issue := (form.table.fields.filter (absent form)).map fun field =>
  form.issue ("Required field “"++field.label++"” is missing from the form.") none

/-- `check_form`. -/
def checkForm : Except PyError (List Issue) :=
  (form.items.mapM (itemRules lib form)).bind fun rules =>
    (orderIssues lib form (rules.flatMap Prod.snd)).map fun ordered =>
      form.items.flatMap (itemIssues setup form)++rules.flatMap Prod.fst++ordered++cycleIssues form++catalogIssues form++
        absentIssues form

end Check

/-! ### Which cycles are reported -/

section Cycles

variable {ω : Type*} {lib : DesignLib ω} {setup : Setup} {form : Form} {issues : List Issue}

/-- Following the links from some field returns to it. -/
def Circular (links : ℤ → ℤ → Prop) : Prop := ∃ a, Relation.TransGen links a a

/-- An item of a field names its controlling field. -/
def Linked (form : Form) (a b : ℤ) : Prop := (a,b) ∈ form.links

/-- The last link of a field. -/
def LastLinked (form : Form) (a b : ℤ) : Prop := ∃ before after, form.links = before++(a,b)::after ∧ ∀ p ∈ after, p.1 ≠ a

def ReportsCycle (issues : List Issue) : Prop := ∃ i ∈ issues, i.message = cycleMessage

theorem lastLinked_iff {a b : ℤ} : form.edges.lookup a = some b ↔ LastLinked form a b := Keyed.lookup_puts_iff

theorem LastLinked.linked {a b : ℤ} (h : LastLinked form a b) : Linked form a b := by
  obtain ⟨before,after,hlinks,-⟩ := h
  rw [Linked,hlinks]
  exact List.mem_append_right _ List.mem_cons_self

theorem circular_linked (h : Circular (LastLinked form)) : Circular (Linked form) := by
  obtain ⟨a,hcycle⟩ := h
  exact ⟨a,Relation.TransGen.mono (fun _ _ hlink => LastLinked.linked hlink) a a hcycle⟩

/-- Some walk comes to a field again exactly where the last links have a cycle. -/
theorem exists_cycleIssue_iff : (∃ i, i ∈ cycleIssues form) ↔ Circular (LastLinked form) := by
  have hlink : Link (form.edges.lookup ·) = LastLinked form := by
    funext a b
    exact propext lastLinked_iff
  have hwalk : ∀ start, (chain form.edges).run ⟨∅,start⟩ = true ↔
      ∃ b, Above (form.edges.lookup ·) start b ∧ Relation.TransGen (LastLinked form) b b := by
    intro start
    rw [← hlink]
    exact walk_iff ((chain form.edges).run_leaves ⟨∅,start⟩)
  constructor
  · rintro ⟨i,hi⟩
    obtain ⟨start,hstart,-⟩ := List.mem_map.mp hi
    obtain ⟨b,-,hcycle⟩ := (hwalk start).mp (List.mem_filter.mp hstart).2
    exact ⟨b,hcycle⟩
  · rintro ⟨a,hcycle⟩
    obtain ⟨b,hab,-⟩ := Relation.TransGen.head'_iff.mp hcycle
    have hkey : a ∈ form.edges.map Prod.fst := List.mem_toFinset.mp (lookup_keys _ a b (lastLinked_iff.mpr hab))
    exact ⟨_,List.mem_map.mpr ⟨a,List.mem_filter.mpr ⟨hkey,(hwalk a).mpr ⟨a,.refl,hcycle⟩⟩,rfl⟩⟩

/-! #### The other messages -/

theorem cycleMessage_end : cycleMessage.toList.reverse[1]? = some 'd' := by decide

/-- A message that ends in another way, which its last but one character shows. -/
theorem append_ne {label ending : String} (h : ending.toList.reverse[1]?.any (· ≠ 'd')) : label++ending ≠ cycleMessage := by
  intro heq
  have hlast : (ending.toList.reverse++label.toList.reverse)[1]? = some 'd' := by
    rw [← List.reverse_append,← String.toList_append,heq]
    exact cycleMessage_end
  cases hend : ending.toList.reverse[1]? with
  | none =>
    rw [hend] at h
    cases h
  | some c =>
    rw [List.getElem?_append_left (List.getElem?_eq_some_iff.mp hend).1,hend] at hlast
    rw [hend,hlast] at h
    cases h

theorem issue_other {message : String} {item : Option FormItem} (h : message ≠ cycleMessage) :
    (form.issue message item).message ≠ cycleMessage := h

theorem single_other {message : String} {item : Option FormItem} {i : Issue} (hmessage : message ≠ cycleMessage)
    (h : i ∈ [form.issue message item]) : i.message ≠ cycleMessage := by
  rw [List.mem_singleton.mp h]
  exact hmessage

theorem missing_other {item : FormItem} {i : Issue} (h : i ∈ missingIssues form item) : i.message ≠ cycleMessage := by
  rw [missingIssues] at h
  split_ifs at h
  · exact single_other (by decide) h
  · cases h

theorem relation_other {item : FormItem} {i : Issue} (h : i ∈ relationIssues setup form item) : i.message ≠ cycleMessage := by
  have hunrelated : i ∈ [form.issue "A many-to-many item has a missing or unrelated relationship." (some item)] →
      i.message ≠ cycleMessage := by
    intro hi
    exact single_other (by decide) hi
  rw [relationIssues] at h
  split_ifs at h
  · split at h
    · exact hunrelated h
    · split_ifs at h
      · cases h
      · exact hunrelated h
  · cases h

theorem parent_other {item : FormItem} {field : MetaField} {i : Issue} (h : i ∈ parentIssues setup form item field) :
    i.message ≠ cycleMessage := by
  rw [parentIssues] at h
  dsimp only at h
  split at h
  · cases h
  split at h
  · exact single_other (append_ne (by decide)) h
  split at h
  · split_ifs at h
    · cases h
    · exact single_other (append_ne (by decide)) h
  · split_ifs at h
    · cases h
    · exact single_other (append_ne (by decide)) h

theorem required_other {item : FormItem} {field : MetaField} {i : Issue} (h : i ∈ requiredIssues setup form item field) :
    i.message ≠ cycleMessage := by
  rw [requiredIssues] at h
  split_ifs at h
  · rcases List.mem_append.mp h with h | h
    · exact single_other (append_ne (by decide)) h
    · obtain ⟨role,-,rfl⟩ := List.mem_map.mp h
      exact issue_other (append_ne (by decide))
  · rw [List.nil_append] at h
    obtain ⟨role,-,rfl⟩ := List.mem_map.mp h
    exact issue_other (append_ne (by decide))
  · cases h

theorem item_other {item : FormItem} {i : Issue} (h : i ∈ itemIssues setup form item) : i.message ≠ cycleMessage := by
  rw [itemIssues] at h
  rcases List.mem_append.mp h with h | h
  · exact (List.mem_append.mp h).elim missing_other relation_other
  · split at h
    · cases h
    · rcases List.mem_append.mp h with h | h
      · rcases List.mem_append.mp h with h | h
        · exact parent_other h
        · rw [targetIssues] at h
          split_ifs at h
          · exact single_other (append_ne (by decide)) h
          · cases h
      · exact required_other h

theorem rules_other {item : FormItem} {result : List Issue × List (String × FormRules.Item)}
    (h : itemRules lib form item = .ok result) : ∀ i ∈ result.1, i.message ≠ cycleMessage := by
  intro i hi
  rw [itemRules] at h
  split at h
  · obtain rfl := Except.ok.inj h
    cases hi
  · split_ifs at h
    · obtain rfl := Except.ok.inj h
      cases hi
    · split at h
      · obtain rfl := Except.ok.inj h
        cases hi
      · split_ifs at h
        obtain rfl := Except.ok.inj h
        exact single_other (append_ne (by decide)) hi

theorem order_other {entries : List (String × FormRules.Item)} {ordered : List Issue}
    (h : orderIssues lib form entries = .ok ordered) : ∀ i ∈ ordered, i.message ≠ cycleMessage := by
  intro i hi
  rw [orderIssues] at h
  split at h
  · obtain rfl := Except.ok.inj h
    cases hi
  · obtain rfl := Except.ok.inj h
    exact single_other (by decide) hi
  · cases h

theorem whole_other {i : Issue} (h : i ∈ catalogIssues form ∨ i ∈ absentIssues form) : i.message ≠ cycleMessage := by
  rcases h with h | h
  · rw [catalogIssues] at h
    split_ifs at h
    · exact single_other (by decide) h
    · cases h
  · obtain ⟨field,-,rfl⟩ := List.mem_map.mp h
    exact issue_other (append_ne (by decide))

/-- A cycle is reported where the last links have one. -/
theorem reportsCycle_iff (h : checkForm lib setup form = .ok issues) : ReportsCycle issues ↔ Circular (LastLinked form) := by
  rw [← exists_cycleIssue_iff]
  obtain ⟨rules,hrules,hrest⟩ := Outcome.bind_ok h
  obtain ⟨ordered,hordered,rfl⟩ := Outcome.map_ok hrest
  constructor
  · rintro ⟨i,hi,hmessage⟩
    simp only [List.mem_append,List.mem_flatMap] at hi
    rcases hi with ((((⟨item,-,hitem⟩ | ⟨result,hresult,hrule⟩) | horder) | hcycle) | hcatalog) | habsent
    · exact absurd hmessage (item_other hitem)
    · obtain ⟨item,-,hread⟩ := Outcome.mapM_from hrules hresult
      exact absurd hmessage (rules_other hread i hrule)
    · exact absurd hmessage (order_other hordered i horder)
    · exact ⟨i,hcycle⟩
    · exact absurd hmessage (whole_other (Or.inl hcatalog))
    · exact absurd hmessage (whole_other (Or.inr habsent))
  · rintro ⟨i,hi⟩
    refine ⟨i,?_,?_⟩
    · simp only [List.mem_append]
      exact Or.inl (Or.inl (Or.inr hi))
    · obtain ⟨start,-,rfl⟩ := List.mem_map.mp hi
      rfl

/-- The walks end, and a cycle is reported exactly where there is one, unless all cycles go over a link that a later one of
the same field has taken the place of. -/
theorem cycle_report_iff (lib : DesignLib ω) (setup : Setup) (form : Form) :
    (∀ start, ∃ found, Loop.Leaves (walkRound (form.edges.lookup ·)) ⟨∅,start⟩ found) ∧
      ∀ issues, checkForm lib setup form = .ok issues →
        ((ReportsCycle issues ↔ Circular (Linked form)) ↔ (Circular (Linked form) → Circular (LastLinked form))) := by
  refine ⟨fun start => ⟨_,(chain form.edges).run_leaves ⟨∅,start⟩⟩,fun issues h => ?_⟩
  rw [reportsCycle_iff h]
  exact ⟨fun hexact => hexact.mpr,fun hlast => ⟨circular_linked,hlast⟩⟩

/-- Where no field has two controlling fields, all links are last ones. -/
theorem circular_single (hsingle : ∀ a b c, Linked form a b → Linked form a c → b = c) (h : Circular (Linked form)) :
    Circular (LastLinked form) := by
  have hlast : ∀ a b, Linked form a b → LastLinked form a b := by
    intro a b hab
    have hkey : a ∈ form.links.reverse.map Prod.fst := List.mem_map_of_mem (List.mem_reverse.mpr hab)
    obtain ⟨c,hc⟩ := Option.isSome_iff_exists.mp (lookup_isSome.mpr hkey)
    rw [← Keyed.lookup_puts] at hc
    have hac : LastLinked form a c := lastLinked_iff.mp hc
    rwa [hsingle a b c hab hac.linked]
  obtain ⟨a,hcycle⟩ := h
  exact ⟨a,Relation.TransGen.mono hlast a a hcycle⟩

/-- Only a text of rules that cannot be read keeps `check_form` from an answer. -/
theorem checkForm_returns (h : ∀ item ∈ form.items, ∀ e, parseRules lib.toFormLib item.rulesJson = .error e → caught e) :
    ∃ issues, checkForm lib setup form = .ok issues := by
  have hrules : ∀ item ∈ form.items, ∃ result, itemRules lib form item = .ok result := by
    intro item hitem
    rw [itemRules]
    split
    · exact ⟨_,rfl⟩
    · split_ifs
      · exact ⟨_,rfl⟩
      · split
        · exact ⟨_,rfl⟩
        · rename_i field _ e herror
          have hcaught : caught e := by
            cases hparse : parseRules lib.toFormLib item.rulesJson with
            | error e' =>
              rw [hparse] at herror
              obtain rfl := Except.error.inj herror
              exact h item hitem e' hparse
            | ok rules =>
              rw [hparse] at herror
              exact validate_caught (parseRules_keys hparse) herror
          rw [if_pos hcaught]
          exact ⟨_,rfl⟩
  obtain ⟨rules,hmap⟩ := Outcome.mapM_total hrules
  have horder : ∃ ordered, orderIssues lib form (rules.flatMap Prod.snd) = .ok ordered := by
    rw [orderIssues]
    cases hvisit : order lib.arrangement (rulesConfig (rules.flatMap Prod.snd)) with
    | ok names => exact ⟨_,rfl⟩
    | error e =>
      rw [order_error hvisit]
      exact ⟨_,rfl⟩
  obtain ⟨ordered,hordered⟩ := horder
  simp only [checkForm,hmap,hordered,Except.bind,Except.map]
  exact ⟨_,rfl⟩

end Cycles

/-! ### The form of a draft -/

section Draft

variable {ω : Type*} (lib : DesignLib ω) (setup : Setup) (id : ℕ) (table : MetaTable)

def idOf : Json → Option ℤ
  | .int n => some n
  | _ => none

def textOf : Json → String
  | .str s => s
  | _ => ""

def virtualItem (item : Json) : FormItem where
  id := none
  kind := textOf (entry item "kind")
  fieldId := idOf (entry item "field_id")
  relationId := idOf (entry item "relation_id")
  parentFieldId := idOf (entry item "parent_field_id")
  filterFieldId := idOf (entry item "filter_field_id")
  required := (entry item "required").truthy
  readonly := (entry item "readonly").truthy
  rulesJson := entry item "rules_json"

/-- `virtual`. -/
def virtual (config : Json) : Form where
  id := id
  table := table
  purpose := textOf (entry config "purpose")
  inCatalog := (entry config "in_catalog").truthy
  items := (itemsOf config).map virtualItem

/-- The findings of `check_form` for a draft. -/
def draftIssues (config : Json) : List FormDesign.Issue :=
  match checkForm lib setup (virtual id table config) with
  | .ok issues => issues.map fun i => ⟨i.level,i.message⟩
  | .error _ => []

/-- What a draft of the form is validated against. -/
def draftSite (tableColumns schema : Json) : Site where
  table := table
  tableColumns := tableColumns
  schema := schema
  relation := (setup.relations.lookup ·)
  check := draftIssues lib setup id table

variable {lib setup id table}

/-- What `validate_config` accepts is checked to the end. -/
theorem checkForm_draft {site : Site} {config config' : Json} {issues : List FormDesign.Issue}
    (h : validateConfig lib site config = .ok (config',issues)) :
    ∃ found, checkForm lib setup (virtual id table config') = .ok found := by
  obtain ⟨rfl,-,hchecked⟩ := validateConfig_ok h
  apply checkForm_returns
  intro item hitem e herror
  obtain ⟨source,hsource,rfl⟩ := List.mem_map.mp hitem
  exact readable_normalise hchecked source hsource e herror

end Draft

/-! ### A cycle that is not reported -/

def linkField (id : ℕ) (physName label : String) : MetaField where
  id := id
  physName := physName
  label := label
  dataType := .relation
  relatedTableId := some 2

/-- Places, each in another one. -/
def placeTable : MetaTable where
  id := 2
  physName := "place"
  label := "Places"
  fields := [linkField 9 "inside" "Inside"]
  idsNodup := by decide
  namesNodup := by decide
  namesFree := by decide

def requestTable : MetaTable where
  id := 1
  physName := "request"
  label := "Requests"
  fields := [linkField 1 "country" "Country",linkField 2 "city" "City",linkField 3 "site" "Site"]
  idsNodup := by decide
  namesNodup := by decide
  namesFree := by decide

def requestSetup : Setup where
  tables := [requestTable,placeTable]
  relations := []
  roles := [⟨"designer","Designer"⟩,⟨"user","User"⟩]
  session := ⟨[],[],[],[],[]⟩

/-- An item of a draft, with the field that controls it. -/
def draftItem (kind : String) (fieldId : ℤ) (parent heading : Json) : Json :=
  .obj [("kind",.str kind),("field_id",.int fieldId),("relation_id",.null),("parent_field_id",parent),("filter_field_id",.null),
    ("label_override",heading),("help_text",.null),("required",.bool false),("readonly",.bool false),("rules_json",.null),
    ("widget",.null)]

/-- A country by its city and a city by its country, and a heading that has the field of the country. -/
def requestConfig : Json :=
  .obj [("title",.str "Request"),("description",.null),("purpose",.str "data"),("in_catalog",.bool false),("catalog_group",.null),
    ("items",.arr [draftItem "field" 1 (.int 2) .null,draftItem "field" 2 (.int 1) .null,draftItem "field" 3 .null .null,
      draftItem "section" 1 (.int 3) (.str "Details")])]

def requestForm : Form := virtual 1 requestTable requestConfig

theorem request_passes : checkForm FormTemplates.templateLib requestSetup requestForm = .ok [] := rfl

/-- The draft can be saved and published. -/
theorem request_accepted :
    validateConfig FormTemplates.templateLib (draftSite FormTemplates.templateLib requestSetup 1 requestTable .null .null)
      requestConfig = .ok (requestConfig,[]) := rfl

theorem request_circular : Circular (Linked requestForm) := by
  have hout : Linked requestForm 1 2 := List.mem_of_getElem? (i:=0) rfl
  have hback : Linked requestForm 2 1 := List.mem_of_getElem? (i:=1) rfl
  exact ⟨1,.tail (.single hout) hback⟩

theorem request_report : checkForm FormTemplates.templateLib requestSetup requestForm = .ok [] ∧
    ((ReportsCycle [] ↔ Circular (Linked requestForm)) ↔
      (Circular (Linked requestForm) → Circular (LastLinked requestForm))) :=
  ⟨request_passes,(cycle_report_iff FormTemplates.templateLib requestSetup requestForm).2 [] request_passes⟩

/-- In a draft that is accepted, the link of the heading takes the place of the country's, and the cycle is not reported. -/
theorem cycle_hidden : ¬∀ (lib : DesignLib String) (setup : Setup) (id : ℕ) (table : MetaTable)
    (tableColumns schema config config' : Json) (issues : List FormDesign.Issue) (found : List Issue),
    validateConfig lib (draftSite lib setup id table tableColumns schema) config = .ok (config',issues) →
      checkForm lib setup (virtual id table config') = .ok found →
        (ReportsCycle found ↔ Circular (Linked (virtual id table config'))) := by
  intro h
  have hreport : ReportsCycle [] ↔ Circular (Linked requestForm) :=
    h FormTemplates.templateLib requestSetup 1 requestTable .null .null requestConfig requestConfig [] [] request_accepted
      request_passes
  obtain ⟨i,hi,-⟩ := hreport.mpr request_circular
  cases hi

end FormCheck
end Biggy
