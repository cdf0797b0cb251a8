import Biggy.TableDesign
import Biggy.Run

/-!
# The metadata and the tables agree

What the metadata say of a table has to be in its database: the key, a column for every field, the columns that the flags ask
for, and the junction of every relation.
-/
namespace Biggy
namespace TableDesign

open Ddl SchemaInference Relations Run

/-! ### Agreement -/

/-- The field of a table has its column, of its own type where the program has made the table. -/
def Carried (env : Env) (t : TableRow) (p : Ddl.Table ColumnType) (f : FieldRow) : Prop :=
  isFile f.dataType = true ∨
    if t.managed = true ∧ f.dataType ≠ .relation then ∃ type, saType env f = some type ∧ p.type f.physName = some type
    else p.has f.physName = true

/-- A table of the database is what a table of the metadata says. -/
structure Holds (env : Env) (d : Design) (t : TableRow) (p : Ddl.Table ColumnType) : Prop where
  key : p.key = some t.pkCol
  fields : ∀ f ∈ d.fields, f.tableId = t.id → Carried env t p f
  record : ∀ c ∈ recordColumns t, p.has c.1 = true

structure Mapped (env : Env) (s : State) : Prop where
  owned : ∀ f ∈ s.design.fields, ∃ t ∈ s.design.tables, t.id = f.tableId
  linked : ∀ r ∈ s.design.relations, (∃ t ∈ s.design.tables, t.id = r.fromTableId) ∧ ∃ t ∈ s.design.tables, t.id = r.toTableId
  tables : ∀ t ∈ s.design.tables, ∃ p, find (s.dbs (engineOf env t)) t.physName = some p ∧ Holds env s.design t p
  junctions : ∀ r ∈ s.design.relations, ∀ j, r.junctionPhysName = some j → ∀ t ∈ s.design.tables, t.id = r.fromTableId →
    hasTable (s.dbs (engineOf env t)) j = true

/-- The names that the designer gives: fields are not named after columns that the program keeps, and junctions are apart from
the tables. -/
structure Sound (d : Design) : Prop where
  fields : ∀ t ∈ d.tables, t.managed = true → ∀ f ∈ d.fields, f.tableId = t.id → f.physName ∈ reservedColumns → f.physName = t.pkCol
  tables : ∀ t ∈ d.tables, t.managed = true → reservedPrefixes.any (startsWith t.physName) = false
  junctions : ∀ r ∈ d.relations, ∀ j, r.junctionPhysName = some j → startsWith j "j_" = true

variable {env : Env} {a : Answers} {s : State} {d d' : Design} {dbs dbs' : ℕ → Database ColumnType} {t mt : TableRow}
  {p p' : Ddl.Table ColumnType} {f field : FieldRow}

/-! ### More tables and columns -/

theorem Carried.extends (h : Carried env t p f) (hext : p.Extends p') : Carried env t p' f := by
  refine h.imp id fun h => ?_
  split
  · rename_i hmanaged
    rw [if_pos hmanaged] at h
    obtain ⟨type,hsa,htype⟩ := h
    exact ⟨type,hsa,hext.type _ _ htype⟩
  · rename_i hmanaged
    rw [if_neg hmanaged] at h
    exact hext.has h

theorem Holds.extends (h : Holds env d t p) (hext : p.Extends p') : Holds env d t p' where
  key := hext.key.trans h.key
  fields := fun f hf hid => (h.fields f hf hid).extends hext
  record := fun c hc => hext.has (h.record c hc)

theorem Mapped.extends (h : Mapped env ⟨d,dbs⟩) (hext : ∀ n, Extends (dbs n) (dbs' n)) : Mapped env ⟨d,dbs'⟩ where
  owned := h.owned
  linked := h.linked
  tables := by
    intro t ht
    obtain ⟨p,hfind,hholds⟩ := h.tables t ht
    obtain ⟨p',hfind',hmore⟩ := hext _ _ _ hfind
    exact ⟨p',hfind',hholds.extends hmore⟩
  junctions := fun r hr j hj t ht hid => (hext _).hasTable (h.junctions r hr j hj t ht hid)

theorem extends_update {n : ℕ} {db : Database ColumnType} (h : Extends (dbs n) db) (m : ℕ) :
    Extends (dbs m) (Function.update dbs n db m) := by
  by_cases hm : m = n
  · subst hm
    rwa [Function.update_self]
  · rw [Function.update_of_ne hm]
    exact .refl _

theorem addScalarColumn_extends {ddl : ℕ → Bool} {db : Database ColumnType} (tablePhys : String) (field : FieldRow) :
    Extends db (addScalarColumn env ddl db tablePhys field).1 := by
  unfold addScalarColumn
  split
  · exact .refl _
  · rename_i db' h
    obtain ⟨type,-,halter⟩ := Option.bind_eq_some_iff.mp h
    exact alter_extends (fun _ _ h => add_name h) (fun _ _ h => add_extends h) halter

theorem addMissing_extends {ddl : ℕ → Bool} (physName : String) (cs : List (String × ColumnType)) (n : ℕ)
    (db : Database ColumnType) :
    Extends db (addMissing ddl physName n cs db).1 := by
  induction cs generalizing n db with
  | nil => exact .refl _
  | cons c cs ih =>
    unfold addMissing
    split
    · exact .refl _
    · split
      · exact ih n db
      · split
        · exact .refl _
        · rename_i db' h
          exact (alter_extends (fun _ _ h => add_name h) (fun _ _ h => add_extends h) h).trans (ih (n+1) db')

theorem addRelationColumn_extends {ddl : ℕ → Bool} {transactional : Bool} {db : Database ColumnType} (fromTable : String)
    (field : FieldRow)
    (toTable : String) : Extends db (addRelationColumn ddl transactional db fromTable field toTable).1 := by
  unfold addRelationColumn
  split
  · exact .refl _
  · split
    · exact .refl _
    · rename_i db' h
      have hadd : Extends db db' := alter_extends (fun _ _ h => add_name h) (fun _ _ h => add_extends h) h
      split
      · cases transactional
        · exact hadd
        · exact .refl _
      · rename_i db'' h'
        exact hadd.trans (alter_extends (fun _ _ h => (refer_some h).1) (fun _ _ h => refer_extends h) h')

/-! ### New rows -/

theorem insertTable_some (h : d.insertTable mt = some d') : (∀ t ∈ d.tables, t.id ≠ mt.id ∧ t.physName ≠ mt.physName) ∧
    d'.tables = d.tables++[mt] ∧ d'.fields = d.fields ∧ d'.relations = d.relations := by
  unfold Design.insertTable at h
  split at h
  · rename_i hfresh
    cases h
    exact ⟨hfresh,rfl,rfl,rfl⟩
  · cases h

theorem insertField_some (h : d.insertField field = some d') : d'.tables = d.tables ∧ d'.fields = d.fields++[field] ∧
    d'.relations = d.relations := by
  unfold Design.insertField at h
  split at h
  · cases h
    exact ⟨rfl,rfl,rfl⟩
  · cases h

theorem insertFields_some {fs : List FieldRow} (h : Design.insertFields fs d = some d') : d'.tables = d.tables ∧
    d'.fields = d.fields++fs ∧ d'.relations = d.relations := by
  induction fs generalizing d with
  | nil =>
    cases h
    exact ⟨rfl,(List.append_nil _).symm,rfl⟩
  | cons f fs ih =>
    obtain ⟨d₁,hfirst,hrest⟩ := Option.bind_eq_some_iff.mp h
    obtain ⟨htables,hfields,hrelations⟩ := insertField_some hfirst
    obtain ⟨htables',hfields',hrelations'⟩ := ih hrest
    exact ⟨htables'.trans htables,by rw [hfields',hfields,List.append_assoc]; rfl,hrelations'.trans hrelations⟩

theorem insertRelation_some {rel : RelationRow} (h : d.insertRelation rel = some d') : d'.tables = d.tables ∧
    d'.fields = d.fields ∧
    d'.relations = d.relations++[rel] := by
  unfold Design.insertRelation at h
  split at h
  · cases h
    exact ⟨rfl,rfl,rfl⟩
  · cases h

/-- A table with all its columns is added with its fields. -/
theorem Mapped.insertTable {d₁ : Design} {fs : List FieldRow} (h : Mapped env ⟨d,dbs⟩) (htable : d.insertTable mt = some d₁)
    (hfields : Design.insertFields fs d₁ = some d') (hown : ∀ f ∈ fs, f.tableId = mt.id)
    (hfind : find (dbs (engineOf env mt)) mt.physName = some p) (hkey : p.key = some mt.pkCol)
    (hcarried : ∀ f ∈ fs, Carried env mt p f) (hrecord : ∀ c ∈ recordColumns mt, p.has c.1 = true) : Mapped env ⟨d',dbs⟩ := by
  obtain ⟨hfresh,htables₁,hfields₁,hrelations₁⟩ := insertTable_some htable
  obtain ⟨htables₂,hfields₂,hrelations₂⟩ := insertFields_some hfields
  have htables : d'.tables = d.tables++[mt] := htables₂.trans htables₁
  have hall : d'.fields = d.fields++fs := by rw [hfields₂,hfields₁]
  have hrelations : d'.relations = d.relations := hrelations₂.trans hrelations₁
  have hmem : ∀ t ∈ d.tables, t ∈ d'.tables := fun t ht => by rw [htables]; exact List.mem_append_left _ ht
  constructor
  · intro f hf
    rw [hall] at hf
    rcases List.mem_append.mp hf with hf | hf
    · obtain ⟨t,ht,hid⟩ := h.owned f hf
      exact ⟨t,hmem t ht,hid⟩
    · exact ⟨mt,by rw [htables]; exact List.mem_append_right _ (List.mem_singleton_self _),(hown f hf).symm⟩
  · intro r hr
    rw [hrelations] at hr
    obtain ⟨⟨t,ht,hid⟩,⟨u,hu,hid'⟩⟩ := h.linked r hr
    exact ⟨⟨t,hmem t ht,hid⟩,⟨u,hmem u hu,hid'⟩⟩
  · intro t ht
    rw [htables] at ht
    rcases List.mem_append.mp ht with ht | ht
    · obtain ⟨p,hfind,hholds⟩ := h.tables t ht
      refine ⟨p,hfind,hholds.key,fun f hf hid => ?_,hholds.record⟩
      rw [hall] at hf
      rcases List.mem_append.mp hf with hf | hf
      · exact hholds.fields f hf hid
      · exact absurd (hid.symm.trans (hown f hf)) (hfresh t ht).1
    · obtain rfl := List.mem_singleton.mp ht
      refine ⟨p,hfind,hkey,fun f hf hid => ?_,hrecord⟩
      rw [hall] at hf
      rcases List.mem_append.mp hf with hf | hf
      · obtain ⟨u,hu,huid⟩ := h.owned f hf
        exact absurd (huid.trans hid) (hfresh u hu).1
      · exact hcarried f hf
  · intro r hr j hj t ht hid
    rw [hrelations] at hr
    rw [htables] at ht
    rcases List.mem_append.mp ht with ht | ht
    · exact h.junctions r hr j hj t ht hid
    · obtain rfl := List.mem_singleton.mp ht
      obtain ⟨⟨u,hu,huid⟩,-⟩ := h.linked r hr
      exact absurd (huid.trans hid.symm) (hfresh u hu).1

/-- A field whose column is there is added. -/
theorem Mapped.insertField (h : Mapped env ⟨d,dbs⟩) (hinsert : d.insertField field = some d') (hmt : mt ∈ d.tables)
    (hown : field.tableId = mt.id) (hcarried : ∀ p, find (dbs (engineOf env mt)) mt.physName = some p → Carried env mt p field) :
    Mapped env ⟨d',dbs⟩ := by
  obtain ⟨htables,hfields,hrelations⟩ := insertField_some hinsert
  constructor
  · intro f hf
    rw [hfields] at hf
    rw [htables]
    rcases List.mem_append.mp hf with hf | hf
    · exact h.owned f hf
    · obtain rfl := List.mem_singleton.mp hf
      exact ⟨mt,hmt,hown.symm⟩
  · intro r hr
    rw [hrelations] at hr
    rw [htables]
    exact h.linked r hr
  · intro t ht
    rw [htables] at ht
    obtain ⟨p,hfind,hholds⟩ := h.tables t ht
    refine ⟨p,hfind,hholds.key,fun f hf hid => ?_,hholds.record⟩
    rw [hfields] at hf
    rcases List.mem_append.mp hf with hf | hf
    · exact hholds.fields f hf hid
    · obtain rfl := List.mem_singleton.mp hf
      have hsame : t = mt := List.inj_on_of_nodup_map d.tableIds ht hmt (hid.symm.trans hown)
      subst hsame
      exact hcarried p hfind
  · intro r hr j hj t ht hid
    rw [hrelations] at hr
    rw [htables] at ht
    exact h.junctions r hr j hj t ht hid

/-- A relation between two tables is added, with its junction if it has one. -/
theorem Mapped.insertRelation {rel : RelationRow} (h : Mapped env ⟨d,dbs⟩) (hinsert : d.insertRelation rel = some d')
    (hfrom : ∃ t ∈ d.tables, t.id = rel.fromTableId) (hto : ∃ t ∈ d.tables, t.id = rel.toTableId)
    (hjunction : ∀ j, rel.junctionPhysName = some j → ∀ t ∈ d.tables, t.id = rel.fromTableId →
      hasTable (dbs (engineOf env t)) j = true) : Mapped env ⟨d',dbs⟩ := by
  obtain ⟨htables,hfields,hrelations⟩ := insertRelation_some hinsert
  constructor
  · intro f hf
    rw [hfields] at hf
    rw [htables]
    exact h.owned f hf
  · intro r hr
    rw [hrelations] at hr
    rw [htables]
    rcases List.mem_append.mp hr with hr | hr
    · exact h.linked r hr
    · obtain rfl := List.mem_singleton.mp hr
      exact ⟨hfrom,hto⟩
  · intro t ht
    rw [htables] at ht
    obtain ⟨p,hfind,hholds⟩ := h.tables t ht
    refine ⟨p,hfind,hholds.key,fun f hf hid => ?_,hholds.record⟩
    rw [hfields] at hf
    exact hholds.fields f hf hid
  · intro r hr j hj t ht hid
    rw [hrelations] at hr
    rw [htables] at ht
    rcases List.mem_append.mp hr with hr | hr
    · exact h.junctions r hr j hj t ht hid
    · obtain rfl := List.mem_singleton.mp hr
      exact hjunction j hj t ht hid

/-! ### Rows that go -/

theorem Mapped.deleteField (h : Mapped env ⟨d,dbs⟩) (id : ℕ) : Mapped env ⟨d.deleteField id,dbs⟩ where
  owned := fun f hf => h.owned f (List.mem_of_mem_filter hf)
  linked := h.linked
  tables := by
    intro t ht
    obtain ⟨p,hfind,hholds⟩ := h.tables t ht
    exact ⟨p,hfind,hholds.key,fun f hf hid => hholds.fields f (List.mem_of_mem_filter hf) hid,hholds.record⟩
  junctions := h.junctions

theorem Mapped.deleteRelation (h : Mapped env ⟨d,dbs⟩) (id : ℕ) : Mapped env ⟨d.deleteRelation id,dbs⟩ where
  owned := h.owned
  linked := fun r hr => h.linked r (List.mem_of_mem_filter hr)
  tables := by
    intro t ht
    obtain ⟨p,hfind,hholds⟩ := h.tables t ht
    exact ⟨p,hfind,hholds.key,hholds.fields,hholds.record⟩
  junctions := fun r hr => h.junctions r (List.mem_of_mem_filter hr)

/-- A table that no relation starts or ends at goes with its fields. -/
theorem Mapped.deleteTable (h : Mapped env ⟨d,dbs⟩) {id : ℕ} (hfree : ∀ r ∈ d.relations, r.fromTableId ≠ id ∧ r.toTableId ≠ id) :
    Mapped env ⟨d.deleteTable id,dbs⟩ where
  owned := by
    intro f hf
    obtain ⟨hf,hid⟩ := List.mem_filter.mp hf
    obtain ⟨t,ht,hown⟩ := h.owned f hf
    refine ⟨t,List.mem_filter.mpr ⟨ht,?_⟩,hown⟩
    rw [hown]
    exact hid
  linked := by
    intro r hr
    obtain ⟨⟨t,ht,hid⟩,⟨u,hu,hid'⟩⟩ := h.linked r hr
    refine ⟨⟨t,List.mem_filter.mpr ⟨ht,?_⟩,hid⟩,⟨u,List.mem_filter.mpr ⟨hu,?_⟩,hid'⟩⟩
    · simpa [hid] using (hfree r hr).1
    · simpa [hid'] using (hfree r hr).2
  tables := by
    intro t ht
    obtain ⟨p,hfind,hholds⟩ := h.tables t (List.mem_of_mem_filter ht)
    exact ⟨p,hfind,hholds.key,fun f hf hid => hholds.fields f (List.mem_of_mem_filter hf) hid,hholds.record⟩
  junctions := fun r hr j hj t ht => h.junctions r hr j hj t (List.mem_of_mem_filter ht)

/-! ### Flags -/

theorem flag_engineOf (id : ℕ) (x y z : Bool) (t : TableRow) : engineOf env (Design.flag id x y z t) = engineOf env t := by
  unfold Design.flag
  split <;> rfl

theorem flag_managed (id : ℕ) (x y z : Bool) (t : TableRow) : (Design.flag id x y z t).managed = t.managed := by
  unfold Design.flag
  split <;> rfl

theorem flag_pkCol (id : ℕ) (x y z : Bool) (t : TableRow) : (Design.flag id x y z t).pkCol = t.pkCol := by
  unfold Design.flag
  split <;> rfl

theorem flag_other {id : ℕ} (x y z : Bool) (h : t.id ≠ id) : Design.flag id x y z t = t := if_neg h

theorem carried_flag (id : ℕ) (x y z : Bool) : Carried env (Design.flag id x y z t) p f ↔ Carried env t p f := by
  unfold Carried
  rw [flag_managed]

/-- The flags of a table that has the columns for them are set. -/
theorem Mapped.setFlags (h : Mapped env ⟨d,dbs⟩) {id : ℕ} {x y z : Bool} (hrecord : ∀ t ∈ d.tables, t.id = id →
    ∀ p, find (dbs (engineOf env t)) t.physName = some p → ∀ c ∈ recordColumns (Design.flag id x y z t), p.has c.1 = true) :
    Mapped env ⟨d.setFlags id x y z,dbs⟩ where
  owned := by
    intro f hf
    obtain ⟨t,ht,hid⟩ := h.owned f hf
    exact ⟨_,List.mem_map_of_mem ht,(Design.flag_id id x y z t).trans hid⟩
  linked := by
    intro r hr
    obtain ⟨⟨t,ht,hid⟩,⟨u,hu,hid'⟩⟩ := h.linked r hr
    exact ⟨⟨_,List.mem_map_of_mem ht,(Design.flag_id id x y z t).trans hid⟩,
      ⟨_,List.mem_map_of_mem hu,(Design.flag_id id x y z u).trans hid'⟩⟩
  tables := by
    intro t' ht'
    obtain ⟨t,ht,rfl⟩ := List.mem_map.mp ht'
    obtain ⟨p,hfind,hholds⟩ := h.tables t ht
    refine ⟨p,?_,?_,fun f hf hid => ?_,?_⟩
    · rwa [flag_engineOf,Design.flag_physName]
    · rw [flag_pkCol]
      exact hholds.key
    · rw [carried_flag]
      exact hholds.fields f hf (hid.trans (Design.flag_id id x y z t))
    · by_cases hid : t.id = id
      · exact hrecord t ht hid p hfind
      · rw [flag_other x y z hid]
        exact hholds.record
  junctions := by
    intro r hr j hj t' ht' hid
    obtain ⟨t,ht,rfl⟩ := List.mem_map.mp ht'
    rw [flag_engineOf]
    exact h.junctions r hr j hj t ht ((Design.flag_id id x y z t).symm.trans hid)

/-! ### New tables -/

theorem mem_mapM {α β : Type} {g : α → Option β} {xs : List α} {ys : List β} (h : xs.mapM g = some ys) {x : α} (hx : x ∈ xs) :
    ∃ y ∈ ys, g x = some y := by
  induction xs generalizing ys with
  | nil => cases hx
  | cons x' xs ih =>
    rw [List.mapM_cons] at h
    obtain ⟨y,hy,hrest⟩ := Option.bind_eq_some_iff.mp h
    obtain ⟨zs,hzs,hlist⟩ := Option.bind_eq_some_iff.mp hrest
    cases hlist
    rcases List.mem_cons.mp hx with rfl | hx
    · exact ⟨y,List.mem_cons_self,hy⟩
    · obtain ⟨z,hz,hgz⟩ := ih hzs hx
      exact ⟨z,List.mem_cons_of_mem _ hz,hgz⟩

theorem mapM_mem {α β : Type} {g : α → Option β} {xs : List α} {ys : List β} (h : xs.mapM g = some ys) {y : β} (hy : y ∈ ys) :
    ∃ x ∈ xs, g x = some y := by
  induction xs generalizing ys with
  | nil =>
    cases h
    cases hy
  | cons x xs ih =>
    rw [List.mapM_cons] at h
    obtain ⟨y',hy',hrest⟩ := Option.bind_eq_some_iff.mp h
    obtain ⟨zs,hzs,hlist⟩ := Option.bind_eq_some_iff.mp hrest
    cases hlist
    rcases List.mem_cons.mp hy with rfl | hy
    · exact ⟨x,List.mem_cons_self,hy'⟩
    · obtain ⟨x',hx',hgx⟩ := ih hzs hy
      exact ⟨x',List.mem_cons_of_mem _ hx',hgx⟩

theorem type_of_mem (hnodup : (p.columns.map Prod.fst).Nodup) {c : String} {type : ColumnType} (h : (c,type) ∈ p.columns) :
    p.type c = some type := by
  have hfind := Keyed.find_of_mem hnodup h
  simp only [Ddl.Table.type,hfind,Option.map_some]

theorem scalarColumn_some {c : String × ColumnType} (h : scalarColumn env f = some c) : c.1 = f.physName ∧
    saType env f = some c.2 := by
  obtain ⟨type,htype,rfl⟩ := Option.map_eq_some_iff.mp h
  exact ⟨rfl,htype⟩

/-- What a new table is. -/
structure Built (env : Env) (physName : String) (fields : List FieldRow) (pk : Option FieldRow) (p : Ddl.Table ColumnType) : Prop where
  name : p.name = physName
  key : p.key = some ((pk.map fun f => f.physName).getD "id")
  plain : pk = none → p.type "id" = some .integer
  custom : ∀ f, pk = some f → ∃ type, saType env f = some type ∧ p.type f.physName = some type
  scalars : ∀ f ∈ fields, isVirtual f.dataType = false → p.key ≠ some f.physName →
    ∃ type, saType env f = some type ∧ p.type f.physName = some type
  only : ∀ column, p.has column = true → p.key = some column ∨ ∃ f ∈ fields, f.physName = column

theorem buildDataTable_some {physName : String} {fields : List FieldRow} {pk : Option FieldRow}
    (h : buildDataTable env physName fields pk = some p) (hnodup : (p.columns.map Prod.fst).Nodup) :
    Built env physName fields pk p := by
  obtain ⟨key,hkey,hrest⟩ := Option.bind_eq_some_iff.mp h
  obtain ⟨columns,hcolumns,hp⟩ := Option.bind_eq_some_iff.mp hrest
  cases hp
  have hname : key.1 = (pk.map fun f => f.physName).getD "id" := by
    cases pk with
    | none =>
      cases hkey
      rfl
    | some f => exact (scalarColumn_some hkey).1
  refine ⟨rfl,congrArg some hname,?_,?_,?_,?_⟩
  · rintro rfl
    cases hkey
    exact type_of_mem hnodup List.mem_cons_self
  · rintro f rfl
    obtain ⟨hfirst,htype⟩ := scalarColumn_some hkey
    refine ⟨key.2,htype,?_⟩
    rw [← hfirst]
    exact type_of_mem hnodup List.mem_cons_self
  · intro f hf hvirtual hne
    have hmem : f ∈ fields.filter fun f => !isVirtual f.dataType && f.physName != key.1 := by
      refine List.mem_filter.mpr ⟨hf,?_⟩
      have hother : f.physName ≠ key.1 := fun hsame => hne (congrArg some hsame.symm)
      simp [hvirtual,hother]
    obtain ⟨c,hc,hcolumn⟩ := mem_mapM hcolumns hmem
    obtain ⟨hfirst,htype⟩ := scalarColumn_some hcolumn
    refine ⟨c.2,htype,?_⟩
    rw [← hfirst]
    exact type_of_mem hnodup (List.mem_cons_of_mem _ hc)
  · intro column hhas
    obtain ⟨type,htype⟩ := has_iff.mp hhas
    obtain ⟨c,hc,-⟩ := Option.map_eq_some_iff.mp htype
    have hcolumn : c.1 = column := Keyed.key_of_find hc
    rcases List.mem_cons.mp (Keyed.mem_of_find hc) with rfl | hmem
    · exact Or.inl (congrArg some hcolumn)
    · obtain ⟨f,hf,hscalar⟩ := mapM_mem hcolumns hmem
      exact Or.inr ⟨f,List.mem_of_mem_filter hf,(scalarColumn_some hscalar).1.symm.trans hcolumn⟩

theorem create_nodup {answer : Bool} {db db' : Database ColumnType} (h : create answer db p = some db') :
    (p.columns.map Prod.fst).Nodup := by
  unfold create at h
  split at h
  · rename_i hcan
    exact hcan.2.2
  · cases h

theorem createPhysicalTable_some {ddl : ℕ → Bool} {db db' : Database ColumnType} {physName : String} {fields : List FieldRow}
    {pk : Option FieldRow} (h : createPhysicalTable env ddl db physName fields pk = some db') :
    Extends db db' ∧ ∃ p, find db' physName = some p ∧ Built env physName fields pk p := by
  obtain ⟨p,hbuild,hcreate⟩ := Option.bind_eq_some_iff.mp h
  have hbuilt := buildDataTable_some hbuild (create_nodup hcreate)
  refine ⟨create_extends hcreate,p,?_,hbuilt⟩
  rw [← hbuilt.name]
  exact find_create hcreate

theorem Mapped.commit (h : Mapped env s) {n : ℕ} {db : Database ColumnType} (hext : Extends (s.dbs n) db)
    (hd : Mapped env ⟨d,Function.update s.dbs n db⟩) : Mapped env (s.commit a d n db) := by
  unfold State.commit
  cases a.commit with
  | true => exact hd
  | false => exact Mapped.extends h (extends_update hext)

theorem carried_typed {type : ColumnType} (hsa : saType env f = some type) (htype : p.type f.physName = some type) :
    Carried env t p f := by
  refine Or.inr ?_
  split
  · exact ⟨type,hsa,htype⟩
  · exact has_iff.mpr ⟨type,htype⟩

/-- A new table with its fields, which the statement has given the columns. -/
theorem Mapped.newTable (h : Mapped env s) {ddl : ℕ → Bool} {d₁ : Design} {fs columns : List FieldRow} {pk : Option FieldRow}
    {db : Database ColumnType} (htable : s.design.insertTable mt = some d₁) (hfields : Design.insertFields fs d₁ = some d)
    (hown : ∀ f ∈ fs, f.tableId = mt.id)
    (hcreate : createPhysicalTable env ddl (s.dbs (engineOf env mt)) mt.physName columns pk = some db)
    (hkey : (pk.map fun f => f.physName).getD "id" = mt.pkCol) (hrecord : recordColumns mt = [])
    (hcarried : ∀ p, Built env mt.physName columns pk p → ∀ f ∈ fs, Carried env mt p f) : Mapped env
    (s.commit a d (engineOf env mt) db) := by
  obtain ⟨hext,p,hfind,hbuilt⟩ := createPhysicalTable_some hcreate
  refine h.commit hext ((Mapped.extends h (extends_update hext)).insertTable htable hfields hown ?_ ?_ (hcarried p hbuilt) ?_)
  · rw [Function.update_self]
    exact hfind
  · rw [hbuilt.key,hkey]
  · rw [hrecord]
    exact fun c hc => absurd hc List.not_mem_nil

theorem newKey_own {id : ℕ} {key : Option KeyInput} {pk : Option FieldRow} (h : newKey env a id key = some pk) :
    ∀ f ∈ pk.toList, f.tableId = id := by
  intro f hf
  cases key with
  | none =>
    cases h
    cases hf
  | some k =>
    obtain ⟨g,hg,rfl⟩ := Option.map_eq_some_iff.mp h
    obtain ⟨name,-,rfl⟩ := Option.map_eq_some_iff.mp hg
    obtain rfl := List.mem_singleton.mp hf
    rfl

theorem tableNew_mapped {source : Option ℕ} {name label : String} {key : Option KeyInput} {s' : State} (h : Mapped env s)
    (hreq : tableNew env a s source name label key = some s') : Mapped env s' := by
  obtain ⟨phys,hphys,hreq⟩ := Option.bind_eq_some_iff.mp hreq
  split at hreq
  · cases hreq
  · obtain ⟨pk,hpk,hreq⟩ := Option.bind_eq_some_iff.mp hreq
    obtain ⟨d₁,htable,hreq⟩ := Option.bind_eq_some_iff.mp hreq
    obtain ⟨d,hfields,hreq⟩ := Option.bind_eq_some_iff.mp hreq
    obtain ⟨db,hcreate,hreq⟩ := Option.bind_eq_some_iff.mp hreq
    cases hreq
    refine h.newTable htable hfields (newKey_own hpk) hcreate rfl rfl fun p hbuilt f hf => ?_
    obtain ⟨type,hsa,htype⟩ := hbuilt.custom f (by simpa using hf)
    exact carried_typed hsa htype

theorem csvType_mem (t : DataType) : csvType t ∈ csvTypes := by
  unfold csvType
  split
  · assumption
  · decide

theorem csvFields_some {tableId n : ℕ} {seen : List String} {cs : List CsvColumn} {fs : List FieldRow}
    (h : csvFields env a tableId n seen cs = some fs) : ∀ f ∈ fs, f.tableId = tableId ∧ f.physName ∉ reservedColumns ∧
    f.dataType ∈ csvTypes := by
  induction cs generalizing n seen fs with
  | nil =>
    cases h
    exact fun f hf => absurd hf List.not_mem_nil
  | cons c cs ih =>
    obtain ⟨name,-,h⟩ := Option.bind_eq_some_iff.mp h
    split at h
    · cases h
    · rename_i hfree
      obtain ⟨rest,hrest,h⟩ := Option.bind_eq_some_iff.mp h
      cases h
      intro f hf
      rcases List.mem_cons.mp hf with rfl | hf
      · exact ⟨rfl,fun hreserved => hfree (Or.inl hreserved),csvType_mem c.dataType⟩
      · exact ih hrest f hf

theorem csv_plain {t : DataType} (h : t ∈ csvTypes) : isVirtual t = false := by
  revert h
  cases t <;> decide

theorem tableFromCsv_mapped {name label : String} {columns : List CsvColumn} {s' : State} (h : Mapped env s)
    (hreq : tableFromCsv env a s name label columns = some s') : Mapped env s' := by
  obtain ⟨phys,hphys,hreq⟩ := Option.bind_eq_some_iff.mp hreq
  split at hreq
  · cases hreq
  · obtain ⟨fields,hcsv,hreq⟩ := Option.bind_eq_some_iff.mp hreq
    split at hreq
    · cases hreq
    · obtain ⟨d₁,htable,hreq⟩ := Option.bind_eq_some_iff.mp hreq
      obtain ⟨d,hfields,hreq⟩ := Option.bind_eq_some_iff.mp hreq
      obtain ⟨db,hcreate,hreq⟩ := Option.bind_eq_some_iff.mp hreq
      cases hreq
      refine h.newTable htable hfields (fun f hf => (csvFields_some hcsv f hf).1) hcreate rfl rfl fun p hbuilt f hf => ?_
      obtain ⟨-,hfree,htype⟩ := csvFields_some hcsv f hf
      have hkey : p.key ≠ some f.physName := by
        rw [hbuilt.key]
        intro hsame
        rw [← Option.some.inj hsame] at hfree
        exact hfree (by decide)
      obtain ⟨type,hsa,hcolumn⟩ := hbuilt.scalars f hf (csv_plain htype) hkey
      exact carried_typed hsa hcolumn

/-! ### Flags, fields and relations -/

theorem Mapped.rollback (h : Mapped env s) {n : ℕ} {db : Database ColumnType} (hext : Extends (s.dbs n) db) :
    Mapped env (s.rollback n db) := Mapped.extends h (extends_update hext)

theorem Mapped.finish (h : Mapped env s) {n : ℕ} {r : Database ColumnType × Bool} (hext : Extends (s.dbs n) r.1)
    (hd : r.2 = true → Mapped env ⟨d,Function.update s.dbs n r.1⟩) : Mapped env (s.finish a d n r) := by
  unfold State.finish
  split
  · rename_i hdone
    exact h.commit hext (hd hdone)
  · exact h.rollback hext

theorem table_mem {id : ℕ} (h : d.table id = some mt) : mt ∈ d.tables ∧ mt.id = id := ⟨Keyed.mem_of_find h,Keyed.key_of_find h⟩

theorem field_mem {id : ℕ} (h : d.field id = some f) : f ∈ d.fields ∧ f.id = id := by
  have hid := Keyed.key_of_find h
  exact ⟨Keyed.mem_of_find h,hid⟩

/-- When the loop comes to its end, the columns are there. -/
theorem addMissing_done {ddl : ℕ → Bool} {physName : String} {cs : List (String × ColumnType)} {n : ℕ} {db : Database ColumnType}
    (h : (addMissing ddl physName n cs db).2 = true) (hfind : find (addMissing ddl physName n cs db).1 physName = some p) :
    ∀ c ∈ cs, p.has c.1 = true := by
  induction cs generalizing n db with
  | nil => exact fun c hc => absurd hc List.not_mem_nil
  | cons c cs ih =>
    rw [addMissing] at h hfind
    split at h
    · cases h
    · rename_i t ht
      simp only [ht] at hfind
      split at h
      · rename_i hhas
        rw [if_pos hhas] at hfind
        intro c' hc'
        rcases List.mem_cons.mp hc' with rfl | hc'
        · obtain ⟨p',hp',hmore⟩ := @addMissing_extends ddl physName cs n db _ _ ht
          rw [hfind] at hp'
          cases hp'
          exact hmore.has hhas
        · exact ih h hfind c' hc'
      · rename_i hhas
        rw [if_neg hhas] at hfind
        split at h
        · cases h
        · rename_i db₁ halter
          simp only [halter] at hfind
          intro c' hc'
          rcases List.mem_cons.mp hc' with rfl | hc'
          · obtain ⟨u,u',-,hadd,hfind',-⟩ := alter_eq_some (fun _ _ h => add_name h) halter
            obtain ⟨p',hp',hmore⟩ := @addMissing_extends ddl physName cs (n+1) db₁ _ _ hfind'
            rw [hfind] at hp'
            cases hp'
            exact hmore.has (has_iff.mpr ⟨c'.2,by rw [type_add hadd,if_pos rfl]⟩)
          · exact ih h hfind c' hc'

theorem tableFlags_mapped {tableId : ℕ} {x y z : Bool} {s' : State} (h : Mapped env s)
    (hreq : tableFlags env a s tableId x y z = some s') : Mapped env s' := by
  obtain ⟨mt,hmt,hreq⟩ := Option.bind_eq_some_iff.mp hreq
  cases hreq
  have hext : Extends (s.dbs (engineOf env mt))
      (ensureRecordColumns a.ddl (s.dbs (engineOf env mt)) (Design.flag tableId x y z mt)).1 := addMissing_extends _ _ _ _
  refine h.finish hext fun hdone => (Mapped.extends h (extends_update hext)).setFlags fun t ht hid p hfind => ?_
  have hsame : t = mt := List.inj_on_of_nodup_map s.design.tableIds ht (table_mem hmt).1 (hid.trans (table_mem hmt).2.symm)
  subst hsame
  rw [Function.update_self,← Design.flag_physName tableId x y z t] at hfind
  exact addMissing_done hdone hfind

theorem addScalarColumn_done {ddl : ℕ → Bool} {db : Database ColumnType} {tablePhys : String}
    (h : (addScalarColumn env ddl db tablePhys f).2 = true)
    (hfind : find (addScalarColumn env ddl db tablePhys f).1 tablePhys = some p) :
    Carried env t p f := by
  unfold addScalarColumn at h hfind
  split at h
  · cases h
  · rename_i db₁ hstatement
    simp only [hstatement] at hfind
    obtain ⟨type,hsa,halter⟩ := Option.bind_eq_some_iff.mp hstatement
    obtain ⟨u,u',-,hadd,hfind',-⟩ := alter_eq_some (fun _ _ h => add_name h) halter
    rw [hfind] at hfind'
    cases hfind'
    exact carried_typed hsa (by rw [type_add hadd,if_pos rfl])

theorem fieldAdd_mapped {tableId : ℕ} {form : FieldInput} {s' : State} (h : Mapped env s)
    (hreq : fieldAdd env a s tableId form = some s') : Mapped env s' := by
  obtain ⟨mt,hmt,hreq⟩ := Option.bind_eq_some_iff.mp hreq
  obtain ⟨phys,hphys,hreq⟩ := Option.bind_eq_some_iff.mp hreq
  obtain ⟨enumJson,-,hreq⟩ := Option.bind_eq_some_iff.mp hreq
  split at hreq
  · cases hreq
  · obtain ⟨d,hinsert,hreq⟩ := Option.bind_eq_some_iff.mp hreq
    have hown := (table_mem hmt).2.symm
    split at hreq
    · rename_i hfile
      cases hreq
      exact h.commit (.refl _) ((Mapped.extends h (extends_update (.refl _))).insertField hinsert (table_mem hmt).1 hown
        fun p hp => Or.inl hfile)
    · cases hreq
      have hext := @addScalarColumn_extends env a.ddl (s.dbs (engineOf env mt)) mt.physName
      refine h.finish (hext _) fun hdone => (Mapped.extends h (extends_update (hext _))).insertField hinsert (table_mem hmt).1 hown
        fun p hp => ?_
      rw [Function.update_self] at hp
      exact addScalarColumn_done hdone hp

theorem addRelationColumn_done {ddl : ℕ → Bool} {transactional : Bool} {db : Database ColumnType} {fromTable toTable : String}
    (h : (addRelationColumn ddl transactional db fromTable f toTable).2 = true)
    (hfind : find (addRelationColumn ddl transactional db fromTable f toTable).1 fromTable = some p) :
    p.has f.physName = true := by
  unfold addRelationColumn at h hfind
  split at h
  · cases h
  · rename_i pk hpk
    simp only [hpk] at hfind
    split at h
    · cases h
    · rename_i db₁ hadd
      simp only [hadd] at hfind
      split at h
      · cases h
      · rename_i db₂ hrefer
        simp only [hrefer] at hfind
        obtain ⟨u,u',-,hu,hfind₁,-⟩ := alter_eq_some (fun _ _ h => add_name h) hadd
        obtain ⟨v,v',hv,hv',hfind₂,-⟩ := alter_eq_some (fun _ _ h => (refer_some h).1) hrefer
        rw [hfind₁] at hv
        cases hv
        rw [hfind] at hfind₂
        cases hfind₂
        exact has_iff.mpr ⟨_,by rw [type_refer hv',type_add hu,if_pos rfl]⟩

theorem relationNewM1_mapped {fromId toId : ℕ} {name column : String} {nullable : Bool} {s' : State} (h : Mapped env s)
    (hreq : relationNewM1 env a s fromId toId name column nullable = some s') : Mapped env s' := by
  obtain ⟨fromT,hfrom,hreq⟩ := Option.bind_eq_some_iff.mp hreq
  obtain ⟨toT,hto,hreq⟩ := Option.bind_eq_some_iff.mp hreq
  obtain ⟨col,hcol,hreq⟩ := Option.bind_eq_some_iff.mp hreq
  split at hreq
  · cases hreq
  · obtain ⟨d,hinsert,hreq⟩ := Option.bind_eq_some_iff.mp hreq
    have hext := fun field => @addRelationColumn_extends a.ddl (env.transactional (engineOf env fromT)) (s.dbs (engineOf env fromT))
      fromT.physName field toT.physName
    dsimp only at hreq
    split at hreq
    · rename_i hdone
      obtain ⟨d',hrelation,hreq⟩ := Option.bind_eq_some_iff.mp hreq
      cases hreq
      have htables := (insertField_some hinsert).1
      have hfield := (Mapped.extends h (extends_update (hext _))).insertField hinsert (table_mem hfrom).1 (table_mem hfrom).2.symm
        fun p hp => by
          rw [Function.update_self] at hp
          exact Or.inr (by rw [if_neg (fun hboth => hboth.2 rfl)]; exact addRelationColumn_done hdone hp)
      refine h.commit (hext _) (hfield.insertRelation hrelation ?_ ?_ ?_)
      · exact ⟨fromT,by rw [htables]; exact (table_mem hfrom).1,(table_mem hfrom).2⟩
      · exact ⟨toT,by rw [htables]; exact (table_mem hto).1,(table_mem hto).2⟩
      · exact fun j hj => by cases hj
    · cases hreq
      exact h.rollback (hext _)

theorem relationNewMn_mapped {fromId toId : ℕ} {name : String} {s' : State} (h : Mapped env s)
    (hreq : relationNewMn env a s fromId toId name = some s') : Mapped env s' := by
  obtain ⟨left,hleft,hreq⟩ := Option.bind_eq_some_iff.mp hreq
  obtain ⟨right,hright,hreq⟩ := Option.bind_eq_some_iff.mp hreq
  dsimp only at hreq
  split at hreq
  · cases hreq
  · obtain ⟨db,hjunction,hreq⟩ := Option.bind_eq_some_iff.mp hreq
    obtain ⟨d,hinsert,hreq⟩ := Option.bind_eq_some_iff.mp hreq
    cases hreq
    obtain ⟨lt,-,hjunction⟩ := Option.bind_eq_some_iff.mp hjunction
    obtain ⟨rt,-,hjunction⟩ := Option.bind_eq_some_iff.mp hjunction
    obtain ⟨lty,-,hjunction⟩ := Option.bind_eq_some_iff.mp hjunction
    obtain ⟨rty,-,hcreate⟩ := Option.bind_eq_some_iff.mp hjunction
    have hext := create_extends hcreate
    refine h.commit hext ((Mapped.extends h (extends_update hext)).insertRelation hinsert ⟨left,table_mem hleft⟩ ⟨right,table_mem hright⟩ ?_)
    intro j hj t ht hid
    cases hj
    have hsame : t = left := List.inj_on_of_nodup_map s.design.tableIds ht (table_mem hleft).1 (hid.trans (table_mem hleft).2.symm)
    subst hsame
    rw [Function.update_self]
    have hfind := find_create hcreate
    simp only [hasTable]
    rw [hfind]
    rfl

/-! ### Adopted tables -/

theorem foldlM_invariant {α β : Type} {g : β → α → Option β} (P : β → Prop) {xs : List α}
    (hstep : ∀ b, ∀ x ∈ xs, ∀ b', g b x = some b' → P b → P b') {b b' : β} (h : xs.foldlM g b = some b') (hb : P b) : P b' := by
  induction xs generalizing b with
  | nil =>
    cases h
    exact hb
  | cons x xs ih =>
    rw [List.foldlM_cons] at h
    obtain ⟨b₁,hfirst,hrest⟩ := Option.bind_eq_some_iff.mp h
    exact ih (fun b x hx => hstep b x (List.mem_cons_of_mem _ hx)) hrest (hstep b x List.mem_cons_self b₁ hfirst hb)

theorem attrsFor_tableId (type : ColumnType) (f : FieldRow) : (attrsFor env type f).tableId = f.tableId := by
  cases type <;> rfl

theorem attrsFor_physName (type : ColumnType) (f : FieldRow) : (attrsFor env type f).physName = f.physName := by
  cases type <;> rfl

theorem adoptedFields_some {tableId n : ℕ} {key : String} {cs : List (String × ColumnType)} :
    ∀ f ∈ adoptedFields env a tableId key n cs, f.tableId = tableId ∧ ∃ c ∈ cs, c.1 = f.physName := by
  induction cs generalizing n with
  | nil => exact fun f hf => absurd hf List.not_mem_nil
  | cons c cs ih =>
    intro f hf
    rcases List.mem_cons.mp hf with rfl | hf
    · refine ⟨?_,c,List.mem_cons_self,?_⟩
      · rw [attrsFor_tableId]
      · rw [attrsFor_physName]
    · obtain ⟨htable,c',hc',hname⟩ := ih f hf
      exact ⟨htable,c',List.mem_cons_of_mem _ hc',hname⟩

theorem carried_unmanaged (hmanaged : t.managed = false) (hhas : p.has f.physName = true) : Carried env t p f := by
  refine Or.inr ?_
  rw [if_neg (by simp [hmanaged])]
  exact hhas

theorem adoptTable_mapped {source : Option ℕ} {q q' : Progress} {phys : String} (h : Mapped env ⟨q.design,s.dbs⟩)
    (hreq : adoptTable env a s source q phys = some q') : Mapped env ⟨q'.design,s.dbs⟩ := by
  obtain ⟨t,hfind,hreq⟩ := Option.bind_eq_some_iff.mp hreq
  split at hreq
  · cases hreq
    exact h
  · rename_i key hkey
    split at hreq
    · cases hreq
      exact h
    · obtain ⟨d₁,htable,hreq⟩ := Option.bind_eq_some_iff.mp hreq
      obtain ⟨d,hfields,hreq⟩ := Option.bind_eq_some_iff.mp hreq
      cases hreq
      refine h.insertTable htable hfields (fun f hf => (adoptedFields_some f hf).1) hfind hkey (fun f hf => ?_)
        (fun c hc => absurd hc List.not_mem_nil)
      obtain ⟨-,c,hc,hname⟩ := adoptedFields_some f hf
      exact carried_unmanaged rfl (has_of_mem (List.mem_map.mpr ⟨c,List.mem_of_mem_filter hc,hname⟩))

/-- The tables stay and are mapped while relations are adopted. -/
def Adopting (env : Env) (s : State) (tables : List TableRow) (q : Progress) : Prop :=
  Mapped env ⟨q.design,s.dbs⟩ ∧ q.design.tables = tables

theorem adoptRelation_adopting {tables external : List TableRow} {q q' : Progress} {fk : ForeignKey}
    (hexternal : external ⊆ tables)
    (hmt : mt ∈ tables) (hmanaged : mt.managed = false)
    (hfk : ∀ p, find (s.dbs (engineOf env mt)) mt.physName = some p → fk ∈ p.foreignKeys)
    (hreq : adoptRelation env a external q mt fk = some q') (h : Adopting env s tables q) : Adopting env s tables q' := by
  unfold adoptRelation at hreq
  split at hreq
  · rename_i column target hcolumns htarget
    split at hreq
    · cases hreq
      exact h
    · obtain ⟨d,hfield,hreq⟩ := Option.bind_eq_some_iff.mp hreq
      obtain ⟨d',hrelation,hreq⟩ := Option.bind_eq_some_iff.mp hreq
      cases hreq
      obtain ⟨hmapped,htables⟩ := h
      have hd := (insertField_some hfield).1
      have hmem : mt ∈ q.design.tables := by rwa [htables]
      refine ⟨(hmapped.insertField hfield hmem rfl fun p hp => ?_).insertRelation hrelation ⟨mt,by rwa [hd],rfl⟩ ⟨target,?_,rfl⟩
        (fun j hj => by cases hj),(insertRelation_some hrelation).1.trans (hd.trans htables)⟩
      · refine carried_unmanaged hmanaged (has_of_mem (p.keyColumns fk (hfk p hp) column ?_))
        rw [hcolumns]
        exact List.mem_singleton_self _
      · rw [hd,htables]
        exact hexternal (List.mem_of_find?_eq_some htarget)
  · cases hreq
    exact h

theorem adoptKeys_adopting {tables external : List TableRow} {source : Option ℕ} {q q' : Progress} (hexternal : external ⊆ tables)
    (hmt : mt ∈ tables) (hmanaged : mt.managed = false) (hsource : mt.sourceId = source)
    (hreq : adoptKeys env a s external source q mt = some q') (h : Adopting env s tables q) : Adopting env s tables q' := by
  obtain ⟨t,hfind,hfold⟩ := Option.bind_eq_some_iff.mp hreq
  refine foldlM_invariant (Adopting env s tables) (fun q fk hfk q' hq' hq => ?_) hfold h
  refine adoptRelation_adopting hexternal hmt hmanaged (fun p hp => ?_) hq' hq
  rw [engineOf,hsource,hfind] at hp
  cases hp
  exact hfk

theorem adoptRelations_mapped {source : Option ℕ} {q q' : Progress} (h : Mapped env ⟨q.design,s.dbs⟩)
    (hreq : adoptRelations env a s source q = some q') : Mapped env ⟨q'.design,s.dbs⟩ := by
  have hadopting : Adopting env s q.design.tables q' := by
    refine foldlM_invariant (Adopting env s q.design.tables) (fun q₁ mt hmt q₂ hq₂ hq₁ => ?_) hreq ⟨h,rfl⟩
    obtain ⟨hmem,hexternal⟩ := List.mem_filter.mp hmt
    obtain ⟨hmanaged,hsource⟩ := Bool.and_eq_true_iff.mp hexternal
    exact adoptKeys_adopting (fun _ h => List.mem_of_mem_filter h) hmem (by simpa using hmanaged) (by simpa using hsource) hq₂ hq₁
  exact hadopting.1

theorem adoptRun_mapped {source : Option ℕ} {names : List String} {withRelations : Bool} {s' : State} (h : Mapped env s)
    (hreq : adoptRun env a s source names withRelations = some s') : Mapped env s' := by
  obtain ⟨q,htables,hreq⟩ := Option.bind_eq_some_iff.mp hreq
  have hq : Mapped env ⟨q.design,s.dbs⟩ :=
    foldlM_invariant (fun q => Mapped env ⟨q.design,s.dbs⟩) (fun q phys _ q' hq' hq => adoptTable_mapped hq hq') htables h
  obtain ⟨q',hrelations,hreq⟩ := Option.bind_eq_some_iff.mp hreq
  have hq' : Mapped env ⟨q'.design,s.dbs⟩ := by
    split at hrelations
    · exact adoptRelations_mapped hq hrelations
    · cases hrelations
      exact hq
  cases hreq
  split
  · exact hq'
  · exact h

end TableDesign
end Biggy
