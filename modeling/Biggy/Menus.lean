import Biggy.Companies
import Biggy.Forest
import Biggy.Run
import Mathlib.Data.List.Sort

/-!
# The menu

Menu items hang below each other by their parent ids; the menu and the menu editor show the items without
a parent and what hangs below them. The form of an item offers every group but the item itself as the
parent, and deleting an item deletes everything below it.
-/
namespace Biggy
namespace Menus

open Forest Run

inductive MenuKind
  | group | form | list | dashboard
  deriving DecidableEq

structure MetaMenu where
  id : ℕ
  parentId : Option ℕ
  label : String
  kind : MenuKind
  targetFormId : Option ℕ := none
  targetTableId : Option ℕ := none
  targetDashboardId : Option ℕ := none
  position : ℤ := 0
  icon : Option String := none

/-- What is submitted for a field that is to become a value: nothing or a blank, something that is read as a
value, or something that is not. -/
inductive Entry (α : Type)
  | blank
  | value (a : α)
  | unread

/-- A `SelectField` with `Optional`: a blank keeps the stored choice, and a choice must be offered. -/
def select (choices : List ℕ) (stored : Option ℕ) : Entry ℕ → Option (Option ℕ)
  | .blank => some stored
  | .value n => if n ∈ choices then some (some n) else none
  | .unread => none

/-- `data or None`. -/
def orNone : Option ℕ → Option ℕ
  | some 0 => none
  | data => data

/-- The submitted form; a field that is missing in the request is none. -/
structure MenuForm where
  label : Option String
  kind : Option (Option MenuKind)
  parentId : Entry ℕ
  targetFormId : Entry ℕ := .blank
  targetTableId : Entry ℕ := .blank
  targetDashboardId : Entry ℕ := .blank
  position : Option (Entry ℤ) := none
  icon : Option String := none

/-- The ids of the forms, the tables and the dashboards without an owner. -/
structure Targets where
  forms : List ℕ := []
  tables : List ℕ := []
  dashboards : List ℕ := []

section Form

variable (items : List MetaMenu)

/-- `form.parent_id.choices`. -/
def parentChoices (menuId : Option ℕ) : List ℕ :=
  0 :: ((items.filter fun g => decide (g.kind = .group ∧ some g.id ≠ menuId)).map MetaMenu.id)

/-- `DataRequired` and `Length(max=120)` of the label. -/
def labelData (stored submitted : Option String) : Option String :=
  match submitted.or stored with
  | none => none
  | some label => if strip label ≠ "" ∧ label.length ≤ 120 then some label else none

def kindData (stored : Option MenuKind) : Option (Option MenuKind) → Option MenuKind
  | none => stored
  | some submitted => submitted

def positionData (stored : Option ℤ) : Option (Entry ℤ) → Option ℤ
  | none => some (stored.getD 0)
  | some .blank => some 0
  | some (.value n) => some n
  | some .unread => none

def iconData (stored submitted : Option String) : Option String :=
  match submitted.or stored with
  | some icon => if icon = "" then none else some icon
  | none => none

/-- The item as the form leaves it, when `validate_on_submit` accepts the form. -/
def validated (T : Targets) (menuId : Option ℕ) (item : Option MetaMenu) (id : ℕ) (form : MenuForm) : Option MetaMenu :=
  (labelData (item.map MetaMenu.label) form.label).bind fun label =>
  (kindData (item.map MetaMenu.kind) form.kind).bind fun kind =>
  (select (parentChoices items menuId) (item.bind MetaMenu.parentId) form.parentId).bind fun parent =>
  (select (0::T.forms) (item.bind MetaMenu.targetFormId) form.targetFormId).bind fun targetForm =>
  (select (0::T.tables) (item.bind MetaMenu.targetTableId) form.targetTableId).bind fun targetTable =>
  (select (0::T.dashboards) (item.bind MetaMenu.targetDashboardId) form.targetDashboardId).bind fun targetDashboard =>
  (positionData (item.map MetaMenu.position) form.position).map fun position =>
    { id := id, parentId := orNone parent, label := label, kind := kind, targetFormId := orNone targetForm,
      targetTableId := orNone targetTable, targetDashboardId := orNone targetDashboard, position := position,
      icon := iconData (item.bind MetaMenu.icon) form.icon }

end Form

/-- `session.get(MetaMenu, menu_id) if menu_id else None`. -/
def getItem (items : List MetaMenu) (menuId : Option ℕ) : Option MetaMenu :=
  (orNone menuId).bind fun id => Keyed.find MetaMenu.id id items

/-- `_menu_form`; the database gives a new item an id that is free. -/
def menuForm (items : List MetaMenu) (T : Targets) (menuId : Option ℕ) (newId : ℕ) (form : MenuForm) : List MetaMenu :=
  match getItem items menuId with
  | some item =>
    match validated items T menuId (some item) item.id form with
    | some saved => items.map fun m => if m.id = item.id then saved else m
    | none => items
  | none =>
    match validated items T menuId none newId form with
    | some saved => if newId ∈ items.map MetaMenu.id then items else items ++ [saved]
    | none => items

/-- The items that the children relation leads to from one of them, itself included. -/
def withChildren (items : List MetaMenu) (id : ℕ) : Finset ℕ :=
  Companies.subtreeIds (items.map fun m => ⟨m.id,m.parentId⟩) id

/-- `menu_delete`; the children relation cascades. -/
def menuDelete (items : List MetaMenu) (menuId : ℕ) : List MetaMenu :=
  match Keyed.find MetaMenu.id menuId items with
  | none => items
  | some item => items.filter fun m => decide (m.id ∉ withChildren items item.id)

inductive Op
  /-- `menu_new` and `menu_edit`. -/
  | save (T : Targets) (menuId : Option ℕ) (newId : ℕ) (form : MenuForm)
  | delete (menuId : ℕ)

def step (items : List MetaMenu) : Op → List MetaMenu
  | .save T menuId newId form => menuForm items T menuId newId form
  | .delete menuId => menuDelete items menuId

/-! ### What is shown -/

def byPosition (items : List MetaMenu) : List MetaMenu := items.mergeSort fun a b => decide (a.position ≤ b.position)

/-- `menu_tree`, which the menu editor reads as well. -/
def menuTree (items : List MetaMenu) : List MetaMenu := byPosition (items.filter fun m => m.parentId.isNone)

/-- `MetaMenu.children`. -/
def children (items : List MetaMenu) (m : MetaMenu) : List MetaMenu := byPosition (items.filter fun c => decide (c.parentId = some m.id))

/-- An item that is a root or hangs below one. -/
def Shown (items : List MetaMenu) (m : MetaMenu) : Prop :=
  ∃ root ∈ menuTree items, Relation.ReflTransGen (fun a b => b ∈ children items a) root m

/-- No item disappears. -/
def AllShown (items : List MetaMenu) : Prop := ∀ m ∈ items, Shown items m

/-- An item that is edited does not go below itself. -/
def NotBelow (items : List MetaMenu) : Op → Prop
  | .save T menuId _ form => ∀ item, getItem items menuId = some item → ∀ saved, validated items T menuId (some item) item.id form = some saved →
      ∀ p, saved.parentId = some p → p ∉ withChildren items item.id
  | .delete _ => True

/-- The parent links of the items. -/
def up (items : List MetaMenu) : ℕ → Option ℕ := upOf MetaMenu.id MetaMenu.parentId items

/-- The ids are distinct, and a parent is an item. -/
structure Linked (items : List MetaMenu) : Prop where
  nodup : (items.map MetaMenu.id).Nodup
  parents : ∀ m ∈ items, ∀ p, m.parentId = some p → p ∈ items.map MetaMenu.id

/-- All parent links end. -/
def Grounded (items : List MetaMenu) : Prop := ∀ id, Ends (up items) id

section Shows

variable {items : List MetaMenu}

theorem mem_menuTree {m : MetaMenu} : m ∈ menuTree items ↔ m ∈ items ∧ m.parentId = none := by
  simp [menuTree,byPosition]

theorem mem_children {m c : MetaMenu} : c ∈ children items m ↔ c ∈ items ∧ c.parentId = some m.id := by
  simp [children,byPosition]

theorem Linked.mem_withChildren (h : Linked items) {id x : ℕ} : x ∈ withChildren items id ↔ Above (up items) x id := by
  have hnodup : ((items.map fun m => (⟨m.id,m.parentId⟩ : Companies.Company)).map Companies.Company.id).Nodup := by
    simpa [Function.comp_def] using h.nodup
  rw [withChildren,Companies.mem_subtreeIds_iff hnodup]
  have hup : upOf Companies.Company.id Companies.Company.parentId (items.map fun m => ⟨m.id,m.parentId⟩) = up items :=
    funext fun k => upOf_map (fun m : MetaMenu => (⟨m.id,m.parentId⟩ : Companies.Company)) items k
  rw [hup]

/-- What is above an item is an item. -/
theorem Linked.above_mem (h : Linked items) {a b : ℕ} (habove : Above (up items) a b) (ha : a ∈ items.map MetaMenu.id) :
    b ∈ items.map MetaMenu.id := by
  induction habove with
  | refl => exact ha
  | tail _ hlink ih =>
    obtain ⟨m,hm,-,hp⟩ := (upOf_iff h.nodup).mp hlink
    exact h.parents m hm _ hp

theorem Linked.shown_ends (h : Linked items) {m : MetaMenu} (hm : Shown items m) : Ends (up items) m.id := by
  obtain ⟨root,hroot,hbelow⟩ := hm
  obtain ⟨hmem,hparent⟩ := mem_menuTree.mp hroot
  induction hbelow with
  | refl => exact .top ((upOf_mem h.nodup hmem).trans hparent)
  | tail _ hchild ih =>
    obtain ⟨hc,hparent⟩ := mem_children.mp hchild
    exact .step ((upOf_mem h.nodup hc).trans hparent) ih

theorem Linked.ends_shown (h : Linked items) {id : ℕ} (hends : Ends (up items) id) {m : MetaMenu} (hm : m ∈ items)
    (hid : m.id = id) : Shown items m := by
  induction hends generalizing m with
  | top htop =>
    obtain rfl := hid
    exact ⟨m,mem_menuTree.mpr ⟨hm,(upOf_mem h.nodup hm).symm.trans htop⟩,.refl⟩
  | step hlink _ ih =>
    obtain rfl := hid
    have hparent := (upOf_mem h.nodup hm).symm.trans hlink
    obtain ⟨g,hg,hgid⟩ := List.mem_map.mp (h.parents m hm _ hparent)
    obtain ⟨root,hroot,hbelow⟩ := ih hg hgid
    exact ⟨root,hroot,hbelow.tail (mem_children.mpr ⟨hm,hgid ▸ hparent⟩)⟩

/-- Everything is shown exactly when all parent links end. -/
theorem Linked.allShown_iff (h : Linked items) : AllShown items ↔ Grounded items := by
  constructor
  · intro hshown id
    rcases Classical.em (∃ m ∈ items, m.id = id) with ⟨m,hm,rfl⟩ | hmissing
    · exact h.shown_ends (hshown m hm)
    · exact .top (upOf_missing fun m hm hid => hmissing ⟨m,hm,hid⟩)
  · exact fun hends m hm => h.ends_shown (hends m.id) hm rfl

end Shows

section Steps

variable {items : List MetaMenu}

/-- The saved item keeps its id, and its parent is the stored one or an item. -/
theorem validated_spec {T : Targets} {menuId : Option ℕ} {item : Option MetaMenu} {id : ℕ} {form : MenuForm} {saved : MetaMenu}
    (h : validated items T menuId item id form = some saved) : saved.id = id ∧
      ∀ p, saved.parentId = some p → item.bind MetaMenu.parentId = some p ∨ p ∈ items.map MetaMenu.id := by
  obtain ⟨label,-,h⟩ := Option.bind_eq_some_iff.mp h
  obtain ⟨kind,-,h⟩ := Option.bind_eq_some_iff.mp h
  obtain ⟨parent,hparent,h⟩ := Option.bind_eq_some_iff.mp h
  obtain ⟨targetForm,-,h⟩ := Option.bind_eq_some_iff.mp h
  obtain ⟨targetTable,-,h⟩ := Option.bind_eq_some_iff.mp h
  obtain ⟨targetDashboard,-,h⟩ := Option.bind_eq_some_iff.mp h
  obtain ⟨position,-,rfl⟩ := Option.map_eq_some_iff.mp h
  refine ⟨rfl,fun p hp => ?_⟩
  have hdata : parent = some p ∧ p ≠ 0 := by
    rcases parent with _ | _ | n
    · cases hp
    · cases hp
    · exact ⟨hp,fun h0 => by rw [h0] at hp; cases hp⟩
  obtain ⟨rfl,hzero⟩ := hdata
  cases hentry : form.parentId with
  | blank =>
    rw [hentry] at hparent
    exact Or.inl (Option.some.inj hparent)
  | unread =>
    rw [hentry] at hparent
    cases hparent
  | value n =>
    rw [hentry] at hparent
    simp only [select] at hparent
    split at hparent
    · rename_i hoffered
      obtain rfl := Option.some.inj (Option.some.inj hparent)
      rcases List.mem_cons.mp hoffered with hroot | hgroup
      · exact absurd hroot hzero
      · obtain ⟨g,hg,rfl⟩ := List.mem_map.mp hgroup
        exact Or.inr (List.mem_map_of_mem (List.mem_filter.mp hg).1)
    · cases hparent

/-- What a step does: nothing, an item put in its place, a new item, or one item deleted with what hangs below it. -/
theorem step_cases (items : List MetaMenu) (op : Op) : step items op = items ∨
    (∃ T menuId newId form item saved, op = .save T menuId newId form ∧ getItem items menuId = some item ∧
      validated items T menuId (some item) item.id form = some saved ∧
      step items op = items.map fun m => if m.id = item.id then saved else m) ∨
    (∃ T menuId newId form saved, validated items T menuId none newId form = some saved ∧ newId ∉ items.map MetaMenu.id ∧
      step items op = items ++ [saved]) ∨
    ∃ id, step items op = items.filter fun m => decide (m.id ∉ withChildren items id) := by
  cases op with
  | save T menuId newId form =>
    simp only [step,menuForm]
    cases hitem : getItem items menuId with
    | some item =>
      cases hsaved : validated items T menuId (some item) item.id form with
      | none => exact Or.inl (by simp only [hsaved])
      | some saved => exact Or.inr (Or.inl ⟨T,menuId,newId,form,item,saved,rfl,hitem,hsaved,by simp only [hsaved]⟩)
    | none =>
      cases hsaved : validated items T menuId none newId form with
      | none => exact Or.inl rfl
      | some saved =>
        dsimp only
        split
        · exact Or.inl rfl
        · rename_i hfree
          exact Or.inr (Or.inr (Or.inl ⟨T,menuId,newId,form,saved,hsaved,hfree,rfl⟩))
  | delete menuId =>
    simp only [step,menuDelete]
    cases hitem : Keyed.find MetaMenu.id menuId items with
    | none => exact Or.inl rfl
    | some item => exact Or.inr (Or.inr (Or.inr ⟨item.id,rfl⟩))

theorem getItem_mem {menuId : Option ℕ} {item : MetaMenu} (h : getItem items menuId = some item) : item ∈ items := by
  obtain ⟨id,-,hfind⟩ := Option.bind_eq_some_iff.mp h
  exact Keyed.mem_of_find hfind

theorem put_id {item saved : MetaMenu} (hid : saved.id = item.id) (m : MetaMenu) :
    (if m.id = item.id then saved else m).id = m.id := by
  split <;> rename_i hm
  · exact hid.trans hm.symm
  · rfl

theorem linked_step (h : Linked items) (op : Op) : Linked (step items op) := by
  rcases step_cases items op with hsame | ⟨T,menuId,newId,form,item,saved,-,hitem,hsaved,hput⟩ |
    ⟨T,menuId,newId,form,saved,hsaved,hfree,hnew⟩ | ⟨id,hdelete⟩
  · rwa [hsame]
  · obtain ⟨hid,hparent⟩ := validated_spec hsaved
    have hids := Keyed.map_key_map (put_id hid) items
    rw [hput]
    refine ⟨hids ▸ h.nodup,fun m hm p hp => ?_⟩
    rw [hids]
    obtain ⟨old,hold,rfl⟩ := List.mem_map.mp hm
    split at hp
    · rcases hparent p hp with hstored | hgroup
      · exact h.parents item (getItem_mem hitem) p hstored
      · exact hgroup
    · exact h.parents old hold p hp
  · obtain ⟨rfl,hparent⟩ := validated_spec hsaved
    rw [hnew]
    refine ⟨?_,fun m hm p hp => ?_⟩
    · rw [List.map_append,List.map_singleton]
      refine List.nodup_append.mpr ⟨h.nodup,List.nodup_singleton _,fun a ha b hb heq => hfree ?_⟩
      rwa [← List.mem_singleton.mp hb,← heq]
    · rw [List.map_append]
      refine List.mem_append_left _ ?_
      rcases List.mem_append.mp hm with hold | hlast
      · exact h.parents m hold p hp
      · rw [List.mem_singleton.mp hlast] at hp
        exact (hparent p hp).resolve_left (fun hnone => by cases hnone)
  · rw [hdelete]
    refine ⟨Keyed.nodup_filter _ h.nodup,fun m hm p hp => ?_⟩
    obtain ⟨hold,hkept⟩ := List.mem_filter.mp hm
    obtain ⟨g,hg,rfl⟩ := List.mem_map.mp (h.parents m hold p hp)
    refine List.mem_map_of_mem (List.mem_filter.mpr ⟨hg,decide_eq_true fun hgone => of_decide_eq_true hkept ?_⟩)
    exact h.mem_withChildren.mpr (.head ((upOf_mem h.nodup hold).trans hp) (h.mem_withChildren.mp hgone))

theorem up_put {item saved : MetaMenu} (hid : saved.id = item.id) (x : ℕ) :
    up (items.map fun m => if m.id = item.id then saved else m) x =
      if x = item.id then (Keyed.find MetaMenu.id x items).bind fun _ => saved.parentId else up items x :=
  upOf_change (put_id hid) (fun m hm => by simp [hm]) (fun m hm => by simp [hm]) items x

theorem up_put_self (h : Linked items) {item saved : MetaMenu} (hitem : item ∈ items) (hid : saved.id = item.id) :
    up (items.map fun m => if m.id = item.id then saved else m) item.id = saved.parentId := by
  rw [up_put hid,if_pos rfl,Keyed.find_of_mem h.nodup hitem]
  rfl

theorem grounded_step (h : Linked items) (hends : Grounded items) {op : Op} (hop : NotBelow items op) : Grounded (step items op) := by
  rcases step_cases items op with hsame | ⟨T,menuId,newId,form,item,saved,rfl,hitem,hsaved,hput⟩ |
    ⟨T,menuId,newId,form,saved,hsaved,hfree,hnew⟩ | ⟨id,hdelete⟩
  · rwa [hsame]
  · have hid := (validated_spec hsaved).1
    have hself := up_put_self h (getItem_mem hitem) hid
    rw [hput]
    refine ends_move (fun y hy => (up_put hid y).trans (if_neg hy)) hends fun p hp habove => ?_
    exact hop item hitem saved hsaved p (hself.symm.trans hp) (h.mem_withChildren.mpr habove)
  · obtain ⟨rfl,hparent⟩ := validated_spec hsaved
    have hself : up (items ++ [saved]) saved.id = saved.parentId :=
      upOf_append_self fun m hm heq => hfree (heq ▸ List.mem_map_of_mem hm)
    have hother : ∀ x, x ≠ saved.id → up (items ++ [saved]) x = up items x := fun x hx => upOf_append_other hx
    rw [hnew]
    refine ends_move hother hends fun p hp habove => ?_
    have hitem : p ∈ items.map MetaMenu.id := (hparent p (hself.symm.trans hp)).resolve_left (fun hnone => by cases hnone)
    exact hfree (h.above_mem habove hitem)
  · rw [hdelete]
    exact ends_filter (fun j => decide (j ∉ withChildren items id)) hends

/-- An item that goes below itself is in a cycle. -/
theorem cyclic_step (h : Linked items) {T : Targets} {menuId : Option ℕ} {newId : ℕ} {form : MenuForm} {item saved : MetaMenu} {p : ℕ}
    (hitem : getItem items menuId = some item) (hsaved : validated items T menuId (some item) item.id form = some saved)
    (hparent : saved.parentId = some p) (hbelow : p ∈ withChildren items item.id) :
    Cyclic (up (step items (.save T menuId newId form))) item.id := by
  have hid := (validated_spec hsaved).1
  have hstep : step items (.save T menuId newId form) = items.map fun m => if m.id = item.id then saved else m := by
    simp only [step,menuForm,hitem,hsaved]
  have hself := up_put_self h (getItem_mem hitem) hid
  rw [hstep]
  exact cyclic_relink (fun y hy => (up_put hid y).trans (if_neg hy)) (hself.trans hparent) (h.mem_withChildren.mp hbelow)

end Steps

/-- Every item is shown in all states of a run exactly when no edit puts an item below itself. -/
theorem allShown_run_iff (ops : List Op) :
    (∀ before, before <+: ops → AllShown (exec step [] before)) ↔ Meets step NotBelow [] ops := by
  have hstart : Linked [] := ⟨List.nodup_nil,List.forall_mem_nil _⟩
  have hlinked : ∀ before, Linked (exec step [] before) := fun before =>
    Run.invariant_all Linked (fun items op hs => linked_step hs op) hstart before
  constructor
  · intro h
    refine meets_iff_splits.mpr fun before op after hsplit => ?_
    cases op with
    | delete => trivial
    | save T menuId newId form =>
      intro item hitem saved hsaved p hparent hbelow
      have hshown := h (before++[.save T menuId newId form]) ⟨after,by simp [hsplit]⟩
      have hends := (hlinked (before++[.save T menuId newId form])).allShown_iff.mp hshown
      rw [exec_append] at hends
      exact (hends item.id).not_cyclic (cyclic_step (hlinked before) hitem hsaved hparent hbelow)
  · rintro hrun before ⟨after,rfl⟩
    have hmeets := ((meets_append _ _ _ before after).mp hrun).1
    have hgrounded := Run.invariant (fun items => Linked items ∧ Grounded items)
      (fun items op hs hop => ⟨linked_step hs.1 op,grounded_step hs.1 hs.2 hop⟩) ⟨hstart,fun _ => .top rfl⟩ hmeets
    exact (hlinked before).allShown_iff.mpr hgrounded.2

/-- Two groups that are put below each other. -/
def swapped : List Op :=
  [.save {} none 1 { label := some "A", kind := some (some .group), parentId := .value 0 },
   .save {} none 2 { label := some "B", kind := some (some .group), parentId := .value 1 },
   .save {} (some 1) 0 { label := some "A", kind := some (some .group), parentId := .value 2 }]

theorem groups_disappear : ¬∀ ops, AllShown (exec step [] ops) := by
  intro h
  have hlinks : (exec step [] swapped).map (fun m => (m.id,m.parentId)) = [(1,some 2),(2,some 1)] := by decide
  have hparents : ∀ m ∈ exec step [] swapped, m.parentId ≠ none := by
    intro m hm
    have hlink := List.mem_map_of_mem (f := fun m : MetaMenu => (m.id,m.parentId)) hm
    rw [hlinks] at hlink
    intro hnone
    simp [hnone] at hlink
  obtain ⟨m,hm,-⟩ := List.mem_map.mp (hlinks ▸ List.mem_cons_self : (1,some 2) ∈ (exec step [] swapped).map fun m => (m.id,m.parentId))
  obtain ⟨root,hroot,-⟩ := h swapped m hm
  exact hparents root (mem_menuTree.mp hroot).1 (mem_menuTree.mp hroot).2

end Menus
end Biggy
