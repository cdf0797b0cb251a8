import Biggy.TablesMapped

/-!
# Which designer requests keep the tables

A request that builds something keeps the metadata and the tables in agreement. One that drops or renames a column, drops a
junction or copies a table keeps it exactly under a condition on the request and on the state before it.
-/
namespace Biggy
namespace TableDesign

open Ddl SchemaInference Relations Run

variable {env : Env} {a : Answers} {s : State} {d d' : Design} {dbs : ℕ → Database ColumnType} {t mt : TableRow}
  {p p' : Ddl.Table ColumnType} {f field : FieldRow}

/-! ### One table altered -/

/-- Agreement everywhere but for one table. -/
structure MappedBut (env : Env) (d : Design) (dbs : ℕ → Database ColumnType) (mt : TableRow) : Prop where
  owned : ∀ f ∈ d.fields, ∃ t ∈ d.tables, t.id = f.tableId
  linked : ∀ r ∈ d.relations, (∃ t ∈ d.tables, t.id = r.fromTableId) ∧ ∃ t ∈ d.tables, t.id = r.toTableId
  tables : ∀ t ∈ d.tables, t ≠ mt → ∃ p, find (dbs (engineOf env t)) t.physName = some p ∧ Holds env d t p
  junctions : ∀ r ∈ d.relations, ∀ j, r.junctionPhysName = some j → ∀ t ∈ d.tables, t.id = r.fromTableId →
    hasTable (dbs (engineOf env t)) j = true

theorem Mapped.but (h : Mapped env ⟨d,dbs⟩) (mt : TableRow) : MappedBut env d dbs mt :=
  ⟨h.owned,h.linked,fun t ht _ => h.tables t ht,h.junctions⟩

/-- After a statement on one table, it is for this table to agree. -/
theorem MappedBut.alter_iff (h : MappedBut env d dbs mt) (hmt : mt ∈ d.tables) {db : Database ColumnType}
    (hfind : find db mt.physName = some p)
    (hother : ∀ other, other ≠ mt.physName → find db other = find (dbs (engineOf env mt)) other) :
    Mapped env ⟨d,Function.update dbs (engineOf env mt) db⟩ ↔ Holds env d mt p := by
  constructor
  · intro hmapped
    obtain ⟨p',hp',hholds⟩ := hmapped.tables mt hmt
    dsimp only at hp'
    rw [Function.update_self,hfind] at hp'
    cases hp'
    exact hholds
  · intro hholds
    refine ⟨h.owned,h.linked,fun t ht => ?_,fun r hr j hj t ht hid => ?_⟩ <;> dsimp only at ht ⊢
    · by_cases hsame : t = mt
      · subst hsame
        exact ⟨p,by rw [Function.update_self]; exact hfind,hholds⟩
      · obtain ⟨p',hp',hholds'⟩ := h.tables t ht hsame
        refine ⟨p',?_,hholds'⟩
        by_cases hengine : engineOf env t = engineOf env mt
        · have hname : t.physName ≠ mt.physName := fun hname => hsame (List.inj_on_of_nodup_map d.tableNames ht hmt hname)
          rw [hengine,Function.update_self,hother _ hname,← hengine]
          exact hp'
        · rw [Function.update_of_ne hengine]
          exact hp'
    · have hold := h.junctions r hr j hj t ht hid
      by_cases hengine : engineOf env t = engineOf env mt
      · rw [hengine,Function.update_self]
        by_cases hname : j = mt.physName
        · rw [hasTable,hname,hfind]
          rfl
        · rw [hasTable,hother j hname,← hengine]
          exact hold
      · rw [Function.update_of_ne hengine]
        exact hold

/-! ### A column dropped -/

/-- The metadata need a column of a table. -/
def Needed (d : Design) (mt : TableRow) (column : String) : Prop :=
  column = mt.pkCol ∨ (∃ f ∈ d.fields, f.tableId = mt.id ∧ isFile f.dataType = false ∧ f.physName = column) ∨
    column ∈ (recordColumns mt).map Prod.fst

theorem carried_has (h : Carried env t p f) (hfile : isFile f.dataType = false) : p.has f.physName = true := by
  rcases h with h | h
  · rw [hfile] at h
    cases h
  · split at h
    · obtain ⟨type,-,htype⟩ := h
      exact has_iff.mpr ⟨type,htype⟩
    · exact h

theorem has_dropColumn {column other : String} (h : p.dropColumn column = some p') :
    p'.has other = if other = column then false else p.has other := by
  unfold Ddl.Table.has
  rw [type_dropColumn h]
  split <;> rfl

theorem carried_dropColumn {column : String} (h : p.dropColumn column = some p') (hne : f.physName ≠ column)
    (hold : Carried env t p f) :
    Carried env t p' f := by
  unfold Carried at hold ⊢
  rwa [has_dropColumn h,type_dropColumn h,if_neg hne,if_neg hne]

/-- A table without a column is what it should be exactly when the column is not needed. -/
theorem holds_dropColumn_iff {column : String} (h : Holds env d mt p) (hdrop : p.dropColumn column = some p') :
    Holds env d mt p' ↔ ¬Needed d mt column := by
  constructor
  · rintro hholds (hkey | ⟨f,hf,hown,hfile,rfl⟩ | hrecord)
    · have hlost := hholds.key
      rw [dropColumn_key hdrop,h.key,hkey] at hlost
      simp at hlost
    · have hhas := carried_has (hholds.fields f hf hown) hfile
      rw [has_dropColumn hdrop,if_pos rfl] at hhas
      cases hhas
    · obtain ⟨c,hc,rfl⟩ := List.mem_map.mp hrecord
      have hhas := hholds.record c hc
      rw [has_dropColumn hdrop,if_pos rfl] at hhas
      cases hhas
  · intro hfree
    refine ⟨?_,fun f hf hown => ?_,fun c hc => ?_⟩
    · rw [dropColumn_key hdrop,h.key,Option.filter_some,if_pos]
      simpa using fun hsame => hfree (Or.inl hsame.symm)
    · cases hfile : isFile f.dataType with
      | true => exact Or.inl hfile
      | false =>
        exact carried_dropColumn hdrop (fun hsame => hfree (Or.inr (Or.inl ⟨f,hf,hown,hfile,hsame⟩))) (h.fields f hf hown)
    · rw [has_dropColumn hdrop,if_neg]
      · exact h.record c hc
      · exact fun hsame => hfree (Or.inr (Or.inr (List.mem_map.mpr ⟨c,hc,hsame⟩)))

theorem mapped_dropColumn_iff {ddl : ℕ → Bool} {db : Database ColumnType} {column : String} (h : Mapped env ⟨d,dbs⟩)
    (hmt : mt ∈ d.tables)
    (hdrop : dropColumn ddl (dbs (engineOf env mt)) mt.physName column = some db) :
    Mapped env ⟨d,Function.update dbs (engineOf env mt) db⟩ ↔ ¬Needed d mt column := by
  obtain ⟨t,t',hfind,hcolumn,hfind',hother⟩ := alter_eq_some (fun _ _ h => dropColumn_name h) hdrop
  obtain ⟨p,hp,hholds⟩ := h.tables mt hmt
  rw [hfind] at hp
  cases hp
  rw [(h.but mt).alter_iff hmt hfind' hother]
  exact holds_dropColumn_iff hholds hcolumn

/-! ### A table dropped -/

/-- Neither a table nor a junction of the metadata has the name in the database. -/
def Unused (env : Env) (d : Design) (n : ℕ) (name : String) : Prop :=
  (∀ t ∈ d.tables, engineOf env t = n → t.physName ≠ name) ∧
    ∀ r ∈ d.relations, r.junctionPhysName = some name → ∀ t ∈ d.tables, t.id = r.fromTableId → engineOf env t ≠ n

theorem mapped_drop_iff {answer : Bool} {n : ℕ} {db : Database ColumnType} {name : String} (h : Mapped env ⟨d,dbs⟩)
    (hdrop : drop answer (dbs n) name = some db) : Mapped env ⟨d,Function.update dbs n db⟩ ↔ Unused env d n name := by
  constructor
  · intro hmapped
    refine ⟨fun t ht hengine hname => ?_,fun r hr hj t ht hid hengine => ?_⟩
    · obtain ⟨p,hp,-⟩ := hmapped.tables t ht
      dsimp only at hp
      rw [hengine,Function.update_self,find_drop hdrop,if_pos hname] at hp
      cases hp
    · have hhas := hmapped.junctions r hr name hj t ht hid
      dsimp only at hhas
      rw [hengine,Function.update_self,hasTable,find_drop hdrop,if_pos rfl] at hhas
      cases hhas
  · intro hfree
    refine ⟨h.owned,h.linked,fun t ht => ?_,fun r hr j hj t ht hid => ?_⟩ <;> dsimp only at ht ⊢
    · obtain ⟨p,hp,hholds⟩ := h.tables t ht
      refine ⟨p,?_,hholds⟩
      by_cases hengine : engineOf env t = n
      · rw [hengine,Function.update_self,find_drop hdrop,if_neg (hfree.1 t ht hengine),← hengine]
        exact hp
      · rw [Function.update_of_ne hengine]
        exact hp
    · have hold := h.junctions r hr j hj t ht hid
      by_cases hengine : engineOf env t = n
      · have hne : j ≠ name := by
          rintro rfl
          exact hfree.2 r hr hj t ht hid hengine
        rw [hengine,Function.update_self,hasTable,find_drop hdrop,if_neg hne,← hengine]
        exact hold
      · rw [Function.update_of_ne hengine]
        exact hold

/-! ### Deleting a field -/

theorem record_reserved {column : String} (h : column ∈ (recordColumns mt).map Prod.fst) : column ∈ reservedColumns := by
  unfold recordColumns at h
  revert h
  cases mt.trackAudit <;> cases mt.rowOwned <;> cases mt.softDelete <;> simp [reservedColumns] <;> grind

theorem tableId_inj (ht : t ∈ d.tables) (hmt : mt ∈ d.tables) (h : t.id = mt.id) : t = mt :=
    List.inj_on_of_nodup_map d.tableIds ht hmt h

theorem fieldName_inj {g : FieldRow} (hf : f ∈ d.fields) (hg : g ∈ d.fields) (htable : f.tableId = g.tableId)
    (hname : f.physName = g.physName) :
    f = g := List.inj_on_of_nodup_map d.fieldNames hf hg (by rw [htable,hname])

/-- The column of a field that goes is needed only as the key. -/
theorem needed_deleteField_iff (hsound : Sound d) (hmt : mt ∈ d.tables) (hmanaged : mt.managed = true) (hf : f ∈ d.fields)
    (hown : f.tableId = mt.id) (hfields : ∀ g ∈ d'.fields, g ∈ d.fields ∧ g.id ≠ f.id) : ¬Needed d' mt f.physName ↔
    f.physName ≠ mt.pkCol := by
  constructor
  · exact fun hfree hkey => hfree (Or.inl hkey)
  · rintro hkey (hsame | ⟨g,hg,hgown,-,hname⟩ | hrecord)
    · exact hkey hsame
    · obtain ⟨hgd,hid⟩ := hfields g hg
      exact hid (congrArg (fun f : FieldRow => f.id) (fieldName_inj hgd hf (hgown.trans hown.symm) hname))
    · exact hkey (hsound.fields mt hmt hmanaged f hf hown (record_reserved hrecord))

theorem needed_congr (htables : ∀ g : FieldRow, g.tableId = mt.id → (g ∈ d.fields ↔ g ∈ d'.fields)) (column : String) :
    Needed d mt column ↔ Needed d' mt column := by
  unfold Needed
  refine or_congr Iff.rfl (or_congr ⟨?_,?_⟩ Iff.rfl)
  · rintro ⟨g,hg,hown,hrest⟩
    exact ⟨g,(htables g hown).mp hg,hown,hrest⟩
  · rintro ⟨g,hg,hown,hrest⟩
    exact ⟨g,(htables g hown).mpr hg,hown,hrest⟩

theorem mem_withoutField {g : FieldRow} {fieldId : ℕ} : g ∈ (withoutField s fieldId).fields ↔ g ∈ s.design.fields ∧
    g.id ≠ fieldId := by
  unfold withoutField
  cases s.design.relations.find? fun r => r.fromFieldId = some fieldId <;>
    simp [Design.deleteField,Design.deleteRelation]

theorem Mapped.withoutField (h : Mapped env s) (fieldId : ℕ) : Mapped env ⟨withoutField s fieldId,s.dbs⟩ := by
  unfold TableDesign.withoutField
  cases s.design.relations.find? fun r => r.fromFieldId = some fieldId with
  | none => exact Mapped.deleteField h fieldId
  | some r => exact (Mapped.deleteRelation h r.id).deleteField fieldId

theorem withoutField_tables (fieldId : ℕ) : (withoutField s fieldId).tables = s.design.tables := by
  unfold withoutField
  cases s.design.relations.find? fun r => r.fromFieldId = some fieldId <;> rfl

/-- The column of a field is dropped for good and is not the key; the field of another table takes no column with it that is
needed. -/
def SaneFieldDelete (env : Env) (a : Answers) (s : State) (tableId fieldId : ℕ) : Prop :=
  ∀ field mt, s.design.field fieldId = some field → s.design.table tableId = some mt → mt.managed = true →
    isFile field.dataType = false → (dropColumn a.ddl (s.dbs (engineOf env mt)) mt.physName field.physName).isSome = true →
    if field.tableId = tableId then a.commit = true ∧ field.physName ≠ mt.pkCol else ¬Needed s.design mt field.physName

theorem forall_found {α β : Type} {x : α} {y : β} {Q : α → β → Prop} :
    (∀ x' y', some x = some x' → some y = some y' → Q x' y') ↔ Q x y := by
  constructor
  · exact fun h => h x y rfl rfl
  · rintro h x' y' ⟨⟩ ⟨⟩
    exact h

theorem fieldDelete_mapped_iff {tableId fieldId : ℕ} (hsound : Sound s.design) (h : Mapped env s) :
    Mapped env ((fieldDelete env a s tableId fieldId).getD s) ↔ SaneFieldDelete env a s tableId fieldId := by
  unfold SaneFieldDelete fieldDelete
  cases hfield : s.design.field fieldId with
  | none => exact iff_of_true h (by simp)
  | some field =>
    cases hmt : s.design.table tableId with
    | none => exact iff_of_true h (by simp)
    | some mt =>
      simp only [Option.bind_eq_bind,Option.bind_some,forall_found]
      obtain ⟨hf,hfid⟩ := field_mem hfield
      obtain ⟨ht,htid⟩ := table_mem hmt
      cases hmanaged : mt.managed with
      | false => exact iff_of_true h (by simp)
      | true =>
        cases hfile : isFile field.dataType with
        | true => exact iff_of_true (h.commit (.refl _) (Mapped.extends (h.withoutField fieldId) (extends_update (.refl _)))) (by simp)
        | false =>
          simp only [Bool.not_true,Bool.false_eq_true,↓reduceIte,forall_const]
          cases hdrop : dropColumn a.ddl (s.dbs (engineOf env mt)) mt.physName field.physName with
          | none => exact iff_of_true h (by simp)
          | some db =>
            simp only [Option.isSome_some,forall_const,Option.bind_some,Option.pure_def,Option.getD_some,State.commit]
            have hold := @mapped_dropColumn_iff env s.design s.dbs _ _ _ _ h ht hdrop
            have hnew := mapped_dropColumn_iff (h.withoutField fieldId) (by rwa [withoutField_tables]) hdrop
            by_cases hown : field.tableId = tableId
            · rw [if_pos hown]
              cases a.commit with
              | true =>
                simp only [↓reduceIte,true_and]
                rw [hnew]
                refine needed_deleteField_iff hsound ht hmanaged hf (hown.trans htid.symm) fun g hg => ?_
                rw [hfid]
                exact mem_withoutField.mp hg
              | false =>
                simp only [Bool.false_eq_true,↓reduceIte,false_and,iff_false]
                rw [hold]
                exact fun hfree => hfree (Or.inr (Or.inl ⟨field,hf,hown.trans htid.symm,hfile,rfl⟩))
            · rw [if_neg hown]
              cases a.commit with
              | true =>
                simp only [↓reduceIte]
                rw [hnew]
                refine not_congr (needed_congr (fun g hg => ?_) _)
                rw [mem_withoutField]
                refine ⟨fun hboth => hboth.1,fun hmem => ⟨hmem,fun hid => hown ?_⟩⟩
                have hsame : g = field := List.inj_on_of_nodup_map s.design.fieldIds hmem hf (hid.trans hfid.symm)
                rw [← hsame,hg,htid]
              | false =>
                simp only [Bool.false_eq_true,↓reduceIte]
                exact hold

/-! ### Editing a field -/

theorem has_change {old new other : String} {type : ColumnType} (h : p.change old new type = some p') :
    p'.has other = if other = new then true else if other = old then false else p.has other := by
  unfold Ddl.Table.has
  rw [type_change h]
  split
  · rfl
  · split <;> rfl

theorem updateField_some {edited : FieldRow} (h : d.updateField edited = some d') : d'.tables = d.tables ∧
    d'.fields = d.fields.map (Design.rewrite edited) ∧ d'.relations = d.relations ∧
    ∀ f ∈ d.fields, f.id ≠ edited.id → (f.tableId,f.physName) ≠ (edited.tableId,edited.physName) := by
  unfold Design.updateField at h
  split at h
  · rename_i hfree
    cases h
    exact ⟨rfl,rfl,rfl,hfree⟩
  · cases h

/-- The field of an edit before and after. -/
structure Edited (s : State) (tableId fieldId : ℕ) (mt : TableRow) (field edited : FieldRow) (d : Design) : Prop where
  foundTable : s.design.table tableId = some mt
  foundField : s.design.field fieldId = some field
  own : field.tableId = tableId
  managed : mt.managed = true
  scalar : field.dataType ≠ .relation
  sameId : edited.id = field.id
  sameTable : edited.tableId = field.tableId
  sameType : edited.dataType = field.dataType
  unreserved : edited.physName ∉ reservedColumns
  update : s.design.updateField edited = some d

theorem fill_row (form : FieldInput) (phys : String) (e : Option String) (f : FieldRow) : (fill form phys e f).id = f.id ∧
    (fill form phys e f).tableId = f.tableId ∧ (fill form phys e f).dataType = f.dataType ∧ (fill form phys e f).physName = phys :=
  ⟨rfl,rfl,rfl,rfl⟩

theorem editOf_some {tableId fieldId : ℕ} {form : FieldInput} {edited : FieldRow}
    (h : editOf env s tableId fieldId form = some (mt,field,edited,d)) : Edited s tableId fieldId mt field edited d := by
  obtain ⟨mt',hmt,h⟩ := Option.bind_eq_some_iff.mp h
  obtain ⟨field',hfield,h⟩ := Option.bind_eq_some_iff.mp h
  split at h
  · cases h
  · rename_i hcan
    obtain ⟨phys,hphys,h⟩ := Option.bind_eq_some_iff.mp h
    obtain ⟨enumJson,henum,h⟩ := Option.bind_eq_some_iff.mp h
    split at h
    · cases h
    · rename_i hname
      obtain ⟨d',hupdate,h⟩ := Option.bind_eq_some_iff.mp h
      cases h
      simp only [Bool.or_eq_true,decide_eq_true_eq,Bool.not_eq_true',not_or,not_not,Bool.not_eq_false] at hcan
      have hfree : phys ∉ reservedColumns := by
        intro hreserved
        simp [nameTaken,hreserved] at hname
      exact ⟨hmt,hfield,hcan.1.1,hcan.1.2,hcan.2,rfl,rfl,rfl,hfree,hupdate⟩

variable {tableId fieldId : ℕ} {edited : FieldRow}

theorem mem_rewrite {g : FieldRow} (hg : g ∈ d.fields.map (Design.rewrite edited)) : g = edited ∨ g ∈ d.fields ∧
    g.id ≠ edited.id := by
  obtain ⟨f,hf,rfl⟩ := List.mem_map.mp hg
  unfold Design.rewrite
  split
  · exact Or.inl rfl
  · rename_i hid
    exact Or.inr ⟨hf,hid⟩

/-- After an edit all tables but the one of the field agree. -/
theorem Edited.but (hedit : Edited s tableId fieldId mt field edited d) (h : Mapped env s) : MappedBut env d s.dbs mt := by
  obtain ⟨htables,hfields,hrelations,-⟩ := updateField_some hedit.update
  obtain ⟨hf,hfid⟩ := field_mem hedit.foundField
  obtain ⟨hmt,htid⟩ := table_mem hedit.foundTable
  constructor
  · intro g hg
    rw [htables]
    rw [hfields] at hg
    rcases mem_rewrite hg with rfl | ⟨hg,-⟩
    · rw [hedit.sameTable]
      exact h.owned field hf
    · exact h.owned g hg
  · rw [hrelations,htables]
    exact h.linked
  · intro t ht hne
    rw [htables] at ht
    obtain ⟨p,hp,hholds⟩ := h.tables t ht
    refine ⟨p,hp,hholds.key,fun g hg hown => ?_,hholds.record⟩
    rw [hfields] at hg
    rcases mem_rewrite hg with rfl | ⟨hg,-⟩
    · rw [hedit.sameTable,hedit.own,← htid] at hown
      exact absurd (tableId_inj ht hmt hown.symm) hne
    · exact hholds.fields g hg hown
  · rw [hrelations,htables]
    exact h.junctions

/-- The table of an edited field is what it should be, unless its key has another name now. -/
theorem Edited.holds_iff {type : ColumnType} (hedit : Edited s tableId fieldId mt field edited d) (hsound : Sound s.design)
    (h : Holds env s.design mt p) (hsa : saType env edited = some type)
    (hchange : p.change field.physName edited.physName type = some p') :
    Holds env d mt p' ↔ edited.physName = field.physName ∨ field.physName ≠ mt.pkCol := by
  obtain ⟨htables,hfields,-,hfree⟩ := updateField_some hedit.update
  obtain ⟨hf,hfid⟩ := field_mem hedit.foundField
  obtain ⟨hmt,htid⟩ := table_mem hedit.foundTable
  have hkey : p'.key = some (if mt.pkCol = field.physName then edited.physName else mt.pkCol) := by
    rw [change_key hchange,h.key]
    rfl
  constructor
  · intro hholds
    rw [hholds.key,Option.some.injEq] at hkey
    by_cases hsame : mt.pkCol = field.physName
    · rw [if_pos hsame] at hkey
      exact Or.inl (hkey.symm.trans hsame)
    · exact Or.inr (Ne.symm hsame)
  · intro hkept
    have hown : field.tableId = mt.id := hedit.own.trans htid.symm
    refine ⟨?_,fun g hg hgown => ?_,fun c hc => ?_⟩
    · rw [hkey]
      rcases hkept with hsame | hother
      · rw [hsame,ite_eq_right_iff.mpr Eq.symm]
      · rw [if_neg (Ne.symm hother)]
    · rw [hfields] at hg
      rcases mem_rewrite hg with rfl | ⟨hg,hid⟩
      · exact carried_typed hsa (by rw [type_change hchange,if_pos rfl])
      · have hnew : g.physName ≠ edited.physName := by
          intro hname
          refine hfree g hg hid ?_
          rw [hname,hedit.sameTable,hown,hgown]
        have hold : g.physName ≠ field.physName := by
          intro hname
          refine hid ?_
          rw [fieldName_inj hg hf (hgown.trans hown.symm) hname,hedit.sameId]
        have hcarried := h.fields g hg hgown
        unfold Carried at hcarried ⊢
        rwa [has_change hchange,type_change hchange,if_neg hnew,if_neg hold,if_neg hnew,if_neg hold]
    · rw [has_change hchange]
      by_cases hnew : c.1 = edited.physName
      · rw [if_pos hnew]
      · rw [if_neg hnew,if_neg]
        · exact h.record c hc
        · intro hold
          have hreserved : field.physName ∈ reservedColumns := record_reserved (List.mem_map.mpr ⟨c,hc,hold⟩)
          rcases hkept with hsame | hother
          · exact hnew (hold.trans hsame.symm)
          · exact hother (hsound.fields mt hmt hedit.managed field hf hown hreserved)

/-- The metadata before an edit agree with the column after it exactly when name and type are the same. -/
theorem Edited.stale_iff {type : ColumnType} (hedit : Edited s tableId fieldId mt field edited d) (h : Holds env s.design mt p)
    (hfile : isFile field.dataType = false) (hsa : saType env edited = some type)
    (hchange : p.change field.physName edited.physName type = some p') :
    Holds env s.design mt p' ↔ edited.physName = field.physName ∧ saType env edited = saType env field := by
  obtain ⟨hf,hfid⟩ := field_mem hedit.foundField
  obtain ⟨hmt,htid⟩ := table_mem hedit.foundTable
  have hown : field.tableId = mt.id := hedit.own.trans htid.symm
  have htyped : ∀ {q : Ddl.Table ColumnType}, Carried env mt q field →
      ∃ type, saType env field = some type ∧ q.type field.physName = some type := by
    intro q hq
    rcases hq with hq | hq
    · rw [hfile] at hq
      cases hq
    · rwa [if_pos ⟨hedit.managed,hedit.scalar⟩] at hq
  constructor
  · intro hholds
    obtain ⟨type',hsa',htype'⟩ := htyped (hholds.fields field hf hown)
    rw [type_change hchange] at htype'
    split at htype'
    · rename_i hsame
      refine ⟨hsame.symm,?_⟩
      rw [hsa,hsa',Option.some.inj htype']
    · simp at htype'
  · rintro ⟨hname,hsame⟩
    refine h.extends ⟨?_,fun other type' htype' => ?_⟩
    · rw [change_key hchange,hname]
      cases p.key with
      | none => rfl
      | some k => simp only [Option.map_some,ite_eq_right_iff.mpr Eq.symm]
    · rw [type_change hchange,hname]
      split
      · rename_i hother
        obtain ⟨type₀,hsa₀,htype₀⟩ := htyped (h.fields field hf hown)
        rw [← htype',hother,htype₀,← hsa₀,← hsame,hsa]
      · exact htype'

/-- A column that has changed keeps its name if it is the key, and where the metadata are taken back, so is the change, or name
and type are the same. -/
def SaneFieldEdit (env : Env) (a : Answers) (s : State) (tableId fieldId : ℕ) (form : FieldInput) : Prop :=
  ∀ mt field edited d, editOf env s tableId fieldId form = some (mt,field,edited,d) → isFile field.dataType = false →
    (changeColumn env a.ddl (s.dbs (engineOf env mt)) mt.physName field.physName edited).isSome = true →
    if (!edited.isUnique || a.ddl 1) = true then
      if a.commit = true then edited.physName = field.physName ∨ field.physName ≠ mt.pkCol
      else edited.physName = field.physName ∧ saType env edited = saType env field
    else env.transactional (engineOf env mt) = true ∨ edited.physName = field.physName ∧ saType env edited = saType env field

theorem forall_edit {α β γ δ : Type} {x : α} {y : β} {z : γ} {w : δ} {Q : α → β → γ → δ → Prop} :
    (∀ x' y' z' w', some (x,y,z,w) = some (x',y',z',w') → Q x' y' z' w') ↔ Q x y z w := by
  constructor
  · exact fun h => h x y z w rfl
  · rintro h x' y' z' w' ⟨⟩
    exact h

theorem mapped_fileEdit (hedit : Edited s tableId fieldId mt field edited d) (h : Mapped env s)
    (hfile : isFile field.dataType = true) :
    Mapped env ⟨d,s.dbs⟩ := by
  obtain ⟨htables,hfields,-,-⟩ := updateField_some hedit.update
  have hbut := hedit.but h
  obtain ⟨hmt,htid⟩ := table_mem hedit.foundTable
  refine ⟨hbut.owned,hbut.linked,fun t ht => ?_,hbut.junctions⟩
  by_cases hsame : t = mt
  · subst hsame
    obtain ⟨p,hp,hholds⟩ := h.tables t hmt
    refine ⟨p,hp,hholds.key,fun g hg hown => ?_,hholds.record⟩
    dsimp only at hg
    rw [hfields] at hg
    rcases mem_rewrite hg with rfl | ⟨hg,-⟩
    · exact Or.inl (by rw [hedit.sameType]; exact hfile)
    · exact hholds.fields g hg hown
  · exact hbut.tables t ht hsame

theorem fieldEdit_mapped_iff {form : FieldInput} (hsound : Sound s.design) (h : Mapped env s) :
    Mapped env ((fieldEdit env a s tableId fieldId form).getD s) ↔ SaneFieldEdit env a s tableId fieldId form := by
  unfold SaneFieldEdit fieldEdit
  cases hof : editOf env s tableId fieldId form with
  | none => exact iff_of_true h (by simp)
  | some r =>
    obtain ⟨mt,field,edited,d⟩ := r
    have hedit := editOf_some hof
    obtain ⟨htables,-,-,-⟩ := updateField_some hedit.update
    obtain ⟨hmt,htid⟩ := table_mem hedit.foundTable
    simp only [Option.bind_eq_bind,Option.bind_some,forall_edit]
    cases hfile : isFile field.dataType with
    | true => exact iff_of_true (h.commit (.refl _) (Mapped.extends (mapped_fileEdit hedit h hfile) (extends_update (.refl _)))) (by simp)
    | false =>
      simp only [Bool.false_eq_true,↓reduceIte,forall_const,Option.pure_def,Option.getD_some]
      unfold modifyColumn
      cases hchange : changeColumn env a.ddl (s.dbs (engineOf env mt)) mt.physName field.physName edited with
      | none => exact iff_of_true (h.rollback (.refl _)) (by simp)
      | some db =>
        obtain ⟨type,hsa,halter⟩ := Option.bind_eq_some_iff.mp hchange
        obtain ⟨t,t',hfind,hcolumn,hfind',hother⟩ := alter_eq_some (fun _ _ h => change_name h) halter
        obtain ⟨p,hp,hholds⟩ := h.tables mt hmt
        rw [hfind] at hp
        cases hp
        have hnew : Mapped env ⟨d,Function.update s.dbs (engineOf env mt) db⟩ ↔
            edited.physName = field.physName ∨ field.physName ≠ mt.pkCol := by
          rw [(hedit.but h).alter_iff (by rwa [htables]) hfind' hother]
          exact hedit.holds_iff hsound hholds hsa hcolumn
        have hold : Mapped env ⟨s.design,Function.update s.dbs (engineOf env mt) db⟩ ↔
            edited.physName = field.physName ∧ saType env edited = saType env field := by
          rw [MappedBut.alter_iff (@Mapped.but env s.design s.dbs h mt) hmt hfind' hother]
          exact hedit.stale_iff hholds hfile hsa hcolumn
        simp only [Option.isSome_some,forall_const]
        cases hdone : !edited.isUnique || a.ddl 1 with
        | true =>
          simp only [↓reduceIte,State.finish,State.commit]
          cases a.commit with
          | true => exact hnew
          | false => exact hold
        | false =>
          simp only [Bool.false_eq_true,↓reduceIte,State.finish,State.rollback]
          cases env.transactional (engineOf env mt) with
          | true => exact iff_of_true (h.rollback (.refl _)) (Or.inl rfl)
          | false =>
            simp only [Bool.false_eq_true,↓reduceIte,false_or]
            exact hold

/-! ### Copying a table -/

theorem copies_some {n : ℕ} {fs : List FieldRow} {id : ℕ} : ∀ g ∈ copies a id n fs, g.tableId = id ∧
    ∃ f ∈ fs, g.physName = f.physName ∧
    g.dataType = f.dataType := by
  induction fs generalizing n with
  | nil => exact fun g hg => absurd hg List.not_mem_nil
  | cons f fs ih =>
    intro g hg
    rcases List.mem_cons.mp hg with rfl | hg
    · exact ⟨rfl,f,List.mem_cons_self,rfl,rfl⟩
    · obtain ⟨htable,f',hf',hrest⟩ := ih g hg
      exact ⟨htable,f',List.mem_cons_of_mem _ hf',hrest⟩

/-- A copy of a table before its statement. -/
structure Copied (env : Env) (s : State) (tableId : ℕ) (src mt : TableRow) (fields : List FieldRow) (d : Design) : Prop where
  found : s.design.table tableId = some src
  named : reservedPrefixes.any (startsWith mt.physName) = false
  source : mt.sourceId = src.sourceId
  key : mt.pkCol = src.pkCol
  record : recordColumns mt = recordColumns src
  managed : src.managed = true ∧ mt.managed = true
  own : ∀ f ∈ fields, f.tableId = mt.id
  origin : ∀ f ∈ fields, ∃ g ∈ s.design.fields, g.tableId = tableId ∧ f.physName = g.physName ∧ f.dataType = g.dataType
  scalar : ∀ f ∈ fields, f.dataType ≠ .relation
  insert : ∃ d₁, s.design.insertTable mt = some d₁ ∧ Design.insertFields fields d₁ = some d

theorem validName_free {name phys : String} (h : validName env name = some phys) : reservedPrefixes.any
    (startsWith phys) = false := by
  unfold validName at h
  cases hvalid : validateIdentifier env.lib name with
  | error e =>
    rw [hvalid] at h
    cases h
  | ok phys' =>
    rw [hvalid] at h
    cases h
    unfold validateIdentifier at hvalid
    dsimp only at hvalid
    split_ifs at hvalid with hblank hlong hword hfree
    cases hvalid
    exact Bool.eq_false_of_not_eq_true hfree

theorem duplicateOf_some {name label : String} {src : TableRow} {fields : List FieldRow}
    (h : duplicateOf env a s tableId name label = some (src,mt,fields,d)) : Copied env s tableId src mt fields d := by
  obtain ⟨src',hsrc,h⟩ := Option.bind_eq_some_iff.mp h
  obtain ⟨phys,hphys,h⟩ := Option.bind_eq_some_iff.mp h
  split at h
  · cases h
  · rename_i hcan
    obtain ⟨d₁,htable,h⟩ := Option.bind_eq_some_iff.mp h
    obtain ⟨d',hfields,h⟩ := Option.bind_eq_some_iff.mp h
    cases h
    simp only [Bool.or_eq_true,Bool.not_eq_true',not_or,Bool.not_eq_false] at hcan
    refine ⟨hsrc,validName_free hphys,rfl,rfl,rfl,⟨hcan.1,rfl⟩,fun f hf => (copies_some f hf).1,fun f hf => ?_,fun f hf => ?_,d₁,htable,hfields⟩
    · obtain ⟨-,g,hg,hname,htype⟩ := copies_some f hf
      obtain ⟨hg,hown⟩ := List.mem_filter.mp (List.mem_of_mem_filter hg)
      exact ⟨g,hg,by simpa using hown,hname,htype⟩
    · obtain ⟨-,g,hg,-,htype⟩ := copies_some f hf
      rw [htype]
      simpa using (List.mem_filter.mp hg).2

/-- The flags of a table that is copied ask for no columns, and its key is the key of the copy. -/
def SaneTableDuplicate (env : Env) (a : Answers) (s : State) (tableId : ℕ) (name label : String) : Prop :=
  ∀ src mt fields d, duplicateOf env a s tableId name label = some (src,mt,fields,d) → (createCopy env a s src mt fields).isSome = true →
    a.commit = true → recordColumns src = [] ∧
      if src.pkCol = "id" then ∀ f ∈ fields, f.physName = "id" → isFile f.dataType = true ∨ saType env f = some .integer
      else ∃ f ∈ fields, f.physName = src.pkCol

theorem file_or_plain (hscalar : f.dataType ≠ .relation) : isFile f.dataType = true ∨ isVirtual f.dataType = false := by
  revert hscalar
  cases f.dataType <;> decide

theorem copy_fields_inj {fields : List FieldRow} {src : TableRow} (hcopy : Copied env s tableId src mt fields d) {f g : FieldRow}
    (hf : f ∈ fields) (hg : g ∈ fields) (hname : f.physName = g.physName) : f = g := by
  obtain ⟨d₁,htable,hfields⟩ := hcopy.insert
  have hmem : ∀ f ∈ fields, f ∈ d.fields := fun f hf => by
    rw [(insertFields_some hfields).2.1]
    exact List.mem_append_right _ hf
  exact fieldName_inj (hmem f hf) (hmem g hg) ((hcopy.own f hf).trans (hcopy.own g hg).symm) hname

theorem isKey_iff {src : TableRow} : isKey src f = true ↔ src.pkCol ≠ "id" ∧ f.physName = src.pkCol := by
  simp [isKey]

/-- What the statement has made of a copy is what the metadata say, under the condition. -/
theorem copy_holds_iff {fields : List FieldRow} {src : TableRow} (hcopy : Copied env s tableId src mt fields d)
    (hbuilt : Built env mt.physName (fields.filter fun f => !isKey src f) (fields.find? (isKey src)) p) :
    (p.key = some mt.pkCol ∧ ∀ f ∈ fields, Carried env mt p f) ↔
      if src.pkCol = "id" then ∀ f ∈ fields, f.physName = "id" → isFile f.dataType = true ∨ saType env f = some .integer
      else ∃ f ∈ fields, f.physName = src.pkCol := by
  rw [hcopy.key]
  by_cases hid : src.pkCol = "id"
  · rw [if_pos hid]
    have hnot : ∀ f, isKey src f = false := fun f => by simp [isKey,hid]
    have hnone : fields.find? (isKey src) = none := List.find?_eq_none.mpr fun f _ => by simp [hnot f]
    have hkey : p.key = some "id" := by rw [hbuilt.key,hnone]; rfl
    have hplain := hbuilt.plain hnone
    constructor
    · rintro ⟨-,hcarried⟩ f hf hname
      rcases hcarried f hf with hfile | htyped
      · exact Or.inl hfile
      · rw [if_pos ⟨hcopy.managed.2,hcopy.scalar f hf⟩] at htyped
        obtain ⟨type,hsa,htype⟩ := htyped
        rw [hname,hplain] at htype
        rw [hsa,← htype]
        exact Or.inr rfl
    · intro hids
      refine ⟨by rw [hkey,hid],fun f hf => ?_⟩
      rcases file_or_plain (hcopy.scalar f hf) with hfile | hvirtual
      · exact Or.inl hfile
      · by_cases hname : f.physName = "id"
        · rcases hids f hf hname with hfile | hsa
          · exact Or.inl hfile
          · exact carried_typed hsa (by rw [hname]; exact hplain)
        · have hmem : f ∈ fields.filter fun f => !isKey src f := List.mem_filter.mpr ⟨hf,by simp [hnot f]⟩
          obtain ⟨type,hsa,htype⟩ := hbuilt.scalars f hmem hvirtual (by rw [hkey]; exact fun hsame => hname (Option.some.inj hsame).symm)
          exact carried_typed hsa htype
  · rw [if_neg hid]
    constructor
    · rintro ⟨hkey,-⟩
      rw [hbuilt.key,Option.some.injEq] at hkey
      cases hfound : fields.find? (isKey src) with
      | none =>
        rw [hfound] at hkey
        exact absurd hkey.symm hid
      | some f => exact ⟨f,List.mem_of_find?_eq_some hfound,(isKey_iff.mp (List.find?_some hfound)).2⟩
    · rintro ⟨g,hg,hgname⟩
      cases hfound : fields.find? (isKey src) with
      | none => exact absurd (isKey_iff.mpr ⟨hid,hgname⟩) (List.find?_eq_none.mp hfound g hg)
      | some k =>
        have hkname := (isKey_iff.mp (List.find?_some hfound)).2
        have hkey : p.key = some src.pkCol := by rw [hbuilt.key,hfound,← hkname]; rfl
        refine ⟨hkey,fun f hf => ?_⟩
        rcases file_or_plain (hcopy.scalar f hf) with hfile | hvirtual
        · exact Or.inl hfile
        · by_cases hname : f.physName = src.pkCol
          · have hsame : f = k := copy_fields_inj hcopy hf (List.mem_of_find?_eq_some hfound) (hname.trans hkname.symm)
            obtain ⟨type,hsa,htype⟩ := hbuilt.custom k hfound
            rw [hsame]
            exact carried_typed hsa htype
          · have hmem : f ∈ fields.filter fun f => !isKey src f := List.mem_filter.mpr ⟨hf,by simp [isKey,hname]⟩
            obtain ⟨type,hsa,htype⟩ := hbuilt.scalars f hmem hvirtual (by rw [hkey]; exact fun hsame => hname (Option.some.inj hsame).symm)
            exact carried_typed hsa htype

/-- Flags ask for no column or for several. -/
theorem record_several (t : TableRow) : recordColumns t = [] ∨
    ∃ c ∈ recordColumns t, ∃ c' ∈ recordColumns t, c.1 ≠ c'.1 := by
  unfold recordColumns
  cases t.trackAudit <;> cases t.rowOwned <;> cases t.softDelete <;> simp

/-- A copy never has the columns that the flags ask for. -/
theorem copy_unflagged {fields : List FieldRow} {src : TableRow} (hsound : Sound s.design)
    (hcopy : Copied env s tableId src mt fields d)
    (hbuilt : Built env mt.physName (fields.filter fun f => !isKey src f) (fields.find? (isKey src)) p) :
    (∀ c ∈ recordColumns mt, p.has c.1 = true) ↔ recordColumns src = [] := by
  rw [hcopy.record]
  constructor
  · intro hhas
    obtain ⟨hsrc,hid⟩ := table_mem hcopy.found
    have hpk : ∀ c ∈ recordColumns src, c.1 = src.pkCol := by
      intro c hc
      have hreserved : c.1 ∈ reservedColumns := record_reserved (List.mem_map_of_mem hc)
      have hfield : ∀ f ∈ fields, f.physName = c.1 → c.1 = src.pkCol := by
        intro f hf hname
        obtain ⟨g,hg,hgown,hgname,-⟩ := hcopy.origin f hf
        rw [← hname,hgname]
        refine hsound.fields src hsrc hcopy.managed.1 g hg (hgown.trans hid.symm) ?_
        rwa [← hgname,hname]
      rcases hbuilt.only c.1 (hhas c hc) with hkey | ⟨f,hf,hname⟩
      · cases hfound : fields.find? (isKey src) with
        | none =>
          rw [hbuilt.key,hfound] at hkey
          have hname : "id" = c.1 := Option.some.inj hkey
          have hnot : "id" ∉ (recordColumns src).map Prod.fst := by
            unfold recordColumns
            cases src.trackAudit <;> cases src.rowOwned <;> cases src.softDelete <;> decide
          exact absurd (List.mem_map.mpr ⟨c,hc,hname.symm⟩) hnot
        | some k =>
          rw [hbuilt.key,hfound] at hkey
          exact hfield k (List.mem_of_find?_eq_some hfound) (Option.some.inj hkey)
      · exact hfield f (List.mem_of_mem_filter hf) hname
    rcases record_several src with hnone | ⟨c,hc,c',hc',hne⟩
    · exact hnone
    · exact absurd ((hpk c hc).trans (hpk c' hc').symm) hne
  · intro hnone
    rw [hnone]
    exact fun c hc => absurd hc List.not_mem_nil

theorem tableDuplicate_mapped_iff {name label : String} (hsound : Sound s.design) (h : Mapped env s) :
    Mapped env ((tableDuplicate env a s tableId name label).getD s) ↔ SaneTableDuplicate env a s tableId name label := by
  unfold SaneTableDuplicate tableDuplicate
  cases hof : duplicateOf env a s tableId name label with
  | none => exact iff_of_true h (by simp)
  | some r =>
    obtain ⟨src,mt,fields,d⟩ := r
    have hcopy := duplicateOf_some hof
    simp only [Option.bind_eq_bind,Option.bind_some,forall_edit]
    cases hcreate : createCopy env a s src mt fields with
    | none => exact iff_of_true h (by simp)
    | some db =>
      obtain ⟨hext,p,hfind,hbuilt⟩ := createPhysicalTable_some hcreate
      obtain ⟨d₁,htable,hfields⟩ := hcopy.insert
      have hengine : engineOf env mt = engineOf env src := by rw [engineOf,hcopy.source]; rfl
      simp only [Option.isSome_some,forall_const,Option.bind_some,Option.pure_def,Option.getD_some]
      cases hcommit : a.commit with
      | false => exact iff_of_true (by simp only [State.commit,hcommit]; exact h.rollback hext) (by simp)
      | true =>
        simp only [forall_const,State.commit,hcommit,↓reduceIte]
        rw [← copy_unflagged hsound hcopy hbuilt,← copy_holds_iff hcopy hbuilt]
        have hin : find (Function.update s.dbs (engineOf env src) db (engineOf env mt)) mt.physName = some p := by
          rw [hengine,Function.update_self]
          exact hfind
        constructor
        · intro hmapped
          have hmem : mt ∈ d.tables := by
            rw [(insertFields_some hfields).1,(insertTable_some htable).2.1]
            exact List.mem_append_right _ (List.mem_singleton_self _)
          obtain ⟨p',hp',hholds⟩ := hmapped.tables mt hmem
          dsimp only at hp'
          rw [hin] at hp'
          cases hp'
          refine ⟨hholds.record,hholds.key,fun f hf => hholds.fields f ?_ (hcopy.own f hf)⟩
          change f ∈ d.fields
          rw [(insertFields_some hfields).2.1]
          exact List.mem_append_right _ hf
        · rintro ⟨hrecord,hkey,hcarried⟩
          exact (Mapped.extends h (extends_update hext)).insertTable htable hfields hcopy.own hin hkey hcarried hrecord

/-! ### Deleting tables and relations -/

theorem startsWith_j {name : String} (h : startsWith name "j_" = true) : reservedPrefixes.any (startsWith name) = true := by
  simp [reservedPrefixes,h]

/-- The name of a table that the designer has made is no other one's. -/
theorem unused_deleteTable (hsound : Sound d) (hmt : mt ∈ d.tables) (hmanaged : mt.managed = true) (n : ℕ) :
    Unused env (d.deleteTable mt.id) n mt.physName := by
  constructor
  · intro t ht _ hname
    obtain ⟨ht,hid⟩ := List.mem_filter.mp ht
    have hsame : t = mt := List.inj_on_of_nodup_map d.tableNames ht hmt hname
    simp [hsame] at hid
  · intro r hr hj
    have hreserved := startsWith_j (hsound.junctions r hr mt.physName hj)
    rw [hsound.tables mt hmt hmanaged] at hreserved
    cases hreserved

theorem tableDelete_mapped (hsound : Sound s.design) (h : Mapped env s) : Mapped env ((tableDelete env a s tableId).getD s) := by
  unfold tableDelete
  cases hmt : s.design.table tableId with
  | none => exact h
  | some mt =>
    simp only [Option.bind_eq_bind,Option.bind_some]
    split
    · exact h
    · rename_i hfree
      split
      · exact h
      · obtain ⟨ht,htid⟩ := table_mem hmt
        have hdeleted : Mapped env ⟨s.design.deleteTable tableId,s.dbs⟩ := by
          refine Mapped.deleteTable h fun r hr => ?_
          have hnone : ∀ r ∈ s.design.relations, ¬r.fromTableId = tableId ∧ ¬r.toTableId = tableId := by simpa using hfree
          exact hnone r hr
        simp only [Option.pure_def,Option.getD_some]
        split
        · rename_i hmanaged
          cases hdrop : drop (a.ddl 0) (s.dbs (engineOf env mt)) mt.physName with
          | none =>
            rw [Option.getD_none,Function.update_eq_self]
            exact hdeleted
          | some db =>
            rw [Option.getD_some]
            refine (mapped_drop_iff hdeleted hdrop).mpr ?_
            rw [← htid]
            exact unused_deleteTable hsound ht hmanaged _
        · exact hdeleted

theorem forall_some {α : Type} {x : α} {Q : α → Prop} : (∀ x', some x = some x' → Q x') ↔ Q x := by
  constructor
  · exact fun h => h x rfl
  · rintro h x' ⟨⟩
    exact h

/-- The column that goes with a relation is not the key, or the metadata that stay do not need it; the junction that goes is no
other table or junction of the metadata. -/
def SaneRelationDelete (env : Env) (a : Answers) (s : State) (relationId : ℕ) : Prop :=
  ∀ rel, s.design.relation relationId = some rel →
    match rel.kind, rel.fromFieldId.bind s.design.field, rel.junctionPhysName with
    | .m1, some field, _ => ∀ fromT, s.design.table field.tableId = some fromT → fromT.managed = true →
      (dropColumn a.ddl (s.dbs (engineOf env fromT)) fromT.physName field.physName).isSome = true →
      if a.commit = true then field.physName ≠ fromT.pkCol else ¬Needed s.design fromT field.physName
    | .mn, _, some jname => a.ddl 0 = true → a.commit = true ∧
      Unused env (s.design.deleteRelation relationId) (env.engine ((s.design.table rel.fromTableId).bind fun t => t.sourceId)) jname
    | _, _, _ => True

theorem relationDelete_mapped_iff {relationId : ℕ} (hsound : Sound s.design) (h : Mapped env s) :
    Mapped env ((relationDelete env a s relationId).getD s) ↔ SaneRelationDelete env a s relationId := by
  unfold SaneRelationDelete relationDelete
  cases hrel : s.design.relation relationId with
  | none => exact iff_of_true h (by simp)
  | some rel =>
    have hrid : rel ∈ s.design.relations ∧ rel.id = relationId := ⟨Keyed.mem_of_find hrel,Keyed.key_of_find hrel⟩
    have hless := Mapped.deleteRelation h relationId
    have hplain : Mapped env ⟨if a.commit then s.design.deleteRelation relationId else s.design,s.dbs⟩ := by
      split
      · exact hless
      · exact h
    simp only [Option.bind_eq_bind,Option.bind_some,Option.pure_def,forall_some]
    cases hkind : rel.kind with
    | m1 =>
      cases hfound : rel.fromFieldId.bind s.design.field with
      | none => exact iff_of_true hplain trivial
      | some field =>
        obtain ⟨hf,-⟩ := field_mem (Option.bind_eq_some_iff.mp hfound).choose_spec.2
        have hgone : Mapped env ⟨if a.commit then (s.design.deleteRelation relationId).deleteField field.id else s.design,s.dbs⟩ := by
          split
          · exact hless.deleteField field.id
          · exact h
        dsimp only
        cases hmt : s.design.table field.tableId with
        | none => exact iff_of_true hgone (by simp)
        | some fromT =>
          obtain ⟨ht,htid⟩ := table_mem hmt
          simp only [Option.filter_some,forall_some]
          cases hmanaged : fromT.managed with
          | false => exact iff_of_true hgone (by simp)
          | true =>
            simp only [↓reduceIte,forall_const]
            cases hdrop : dropColumn a.ddl (s.dbs (engineOf env fromT)) fromT.physName field.physName with
            | none => exact iff_of_true h (by simp)
            | some db =>
              simp only [Option.isSome_some,forall_const,Option.bind_some,Option.getD_some,State.commit]
              cases hcommit : a.commit with
              | true =>
                simp only [↓reduceIte]
                rw [mapped_dropColumn_iff (hless.deleteField field.id) ht hdrop]
                refine needed_deleteField_iff hsound ht hmanaged hf htid.symm fun g hg => ?_
                obtain ⟨hg,hid⟩ := List.mem_filter.mp hg
                exact ⟨hg,by simpa using hid⟩
              | false =>
                simp only [Bool.false_eq_true,↓reduceIte]
                exact mapped_dropColumn_iff h ht hdrop
    | mn =>
      cases hj : rel.junctionPhysName with
      | none => exact iff_of_true (by cases hfound : rel.fromFieldId.bind s.design.field <;> exact hplain) (by simp)
      | some jname =>
        obtain ⟨t,ht,htid⟩ := (h.linked rel hrid.1).1
        have hfrom : s.design.table rel.fromTableId = some t := by
          rw [← htid]
          exact Keyed.find_of_mem s.design.tableIds ht
        simp only [hfrom,Option.bind_some]
        cases hdrop : drop (a.ddl 0) (s.dbs (env.engine t.sourceId)) jname with
        | none =>
          have hrefused : ¬a.ddl 0 = true := by
            intro hanswer
            simp [drop,hanswer] at hdrop
          exact iff_of_true h fun hanswer => absurd hanswer hrefused
        | some db =>
          have hanswer : a.ddl 0 = true := by
            unfold drop at hdrop
            split at hdrop
            · assumption
            · cases hdrop
          simp only [hanswer,forall_const,Option.bind_some,Option.getD_some,State.commit]
          cases hcommit : a.commit with
          | true =>
            simp only [↓reduceIte,true_and]
            exact mapped_drop_iff hless hdrop
          | false =>
            simp only [Bool.false_eq_true,↓reduceIte,false_and,iff_false]
            rw [mapped_drop_iff h hdrop]
            exact fun hfree => hfree.2 rel hrid.1 hj t ht htid rfl

end TableDesign
end Biggy
