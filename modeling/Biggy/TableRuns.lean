import Biggy.TableChanges

/-!
# Runs of the designer

The names that the designer gives stay apart from those that it keeps for itself. With that, the metadata and the tables agree
in all states of a run exactly when every request of it is sane.
-/
namespace Biggy
namespace TableDesign

open Ddl SchemaInference Relations Run

variable {env : Env} {a : Answers} {s : State} {d d' : Design} {dbs : ℕ → Database ColumnType} {t mt : TableRow} {field : FieldRow}

/-! ### The names stay apart -/

theorem Sound.insertTable {d₁ : Design} {fs : List FieldRow} (hsound : Sound d)
    (howned : ∀ f ∈ d.fields, ∃ t ∈ d.tables, t.id = f.tableId)
    (htable : d.insertTable mt = some d₁) (hfields : Design.insertFields fs d₁ = some d') (hown : ∀ f ∈ fs, f.tableId = mt.id)
    (hnew : mt.managed = true → reservedPrefixes.any (startsWith mt.physName) = false ∧
      ∀ f ∈ fs, f.physName ∈ reservedColumns → f.physName = mt.pkCol) : Sound d' := by
  obtain ⟨hfresh,htables₁,hfields₁,hrelations₁⟩ := insertTable_some htable
  obtain ⟨htables₂,hfields₂,hrelations₂⟩ := insertFields_some hfields
  have htables : d'.tables = d.tables++[mt] := htables₂.trans htables₁
  have hall : d'.fields = d.fields++fs := by rw [hfields₂,hfields₁]
  have hrelations : d'.relations = d.relations := hrelations₂.trans hrelations₁
  constructor
  · intro t ht hmanaged f hf hid
    rw [htables] at ht
    rw [hall] at hf
    rcases List.mem_append.mp ht with ht | ht
    · rcases List.mem_append.mp hf with hf | hf
      · exact hsound.fields t ht hmanaged f hf hid
      · exact absurd (hid.symm.trans (hown f hf)) (hfresh t ht).1
    · obtain rfl := List.mem_singleton.mp ht
      rcases List.mem_append.mp hf with hf | hf
      · obtain ⟨u,hu,huid⟩ := howned f hf
        exact absurd (huid.trans hid) (hfresh u hu).1
      · exact (hnew hmanaged).2 f hf
  · intro t ht hmanaged
    rw [htables] at ht
    rcases List.mem_append.mp ht with ht | ht
    · exact hsound.tables t ht hmanaged
    · obtain rfl := List.mem_singleton.mp ht
      exact (hnew hmanaged).1
  · rw [hrelations]
    exact hsound.junctions

theorem Sound.insertField (hsound : Sound d) (hinsert : d.insertField field = some d')
    (hfree : ∀ t ∈ d.tables, t.managed = true → field.tableId = t.id → field.physName ∉ reservedColumns) : Sound d' := by
  obtain ⟨htables,hfields,hrelations⟩ := insertField_some hinsert
  constructor
  · intro t ht hmanaged f hf hid hreserved
    rw [htables] at ht
    rw [hfields] at hf
    rcases List.mem_append.mp hf with hf | hf
    · exact hsound.fields t ht hmanaged f hf hid hreserved
    · obtain rfl := List.mem_singleton.mp hf
      exact absurd hreserved (hfree t ht hmanaged hid)
  · rw [htables]
    exact hsound.tables
  · rw [hrelations]
    exact hsound.junctions

theorem Sound.insertRelation {rel : RelationRow} (hsound : Sound d) (hinsert : d.insertRelation rel = some d')
    (hjunction : ∀ j, rel.junctionPhysName = some j → startsWith j "j_" = true) : Sound d' := by
  obtain ⟨htables,hfields,hrelations⟩ := insertRelation_some hinsert
  constructor
  · rw [htables,hfields]
    exact hsound.fields
  · rw [htables]
    exact hsound.tables
  · intro r hr
    rw [hrelations] at hr
    rcases List.mem_append.mp hr with hr | hr
    · exact hsound.junctions r hr
    · obtain rfl := List.mem_singleton.mp hr
      exact hjunction

theorem Sound.updateField {edited : FieldRow} (hsound : Sound d) (hupdate : d.updateField edited = some d')
    (hfree : edited.physName ∉ reservedColumns) : Sound d' := by
  obtain ⟨htables,hfields,hrelations,-⟩ := updateField_some hupdate
  constructor
  · intro t ht hmanaged f hf hid hreserved
    rw [htables] at ht
    rw [hfields] at hf
    rcases mem_rewrite hf with rfl | ⟨hf,-⟩
    · exact absurd hreserved hfree
    · exact hsound.fields t ht hmanaged f hf hid hreserved
  · rw [htables]
    exact hsound.tables
  · rw [hrelations]
    exact hsound.junctions

theorem Sound.setFlags (hsound : Sound d) (id : ℕ) (x y z : Bool) : Sound (d.setFlags id x y z) where
  fields := by
    intro t' ht' hmanaged f hf hid
    obtain ⟨t,ht,rfl⟩ := List.mem_map.mp ht'
    rw [flag_pkCol]
    rw [flag_managed] at hmanaged
    exact hsound.fields t ht hmanaged f hf (hid.trans (Design.flag_id id x y z t))
  tables := by
    intro t' ht' hmanaged
    obtain ⟨t,ht,rfl⟩ := List.mem_map.mp ht'
    rw [flag_managed] at hmanaged
    rw [Design.flag_physName]
    exact hsound.tables t ht hmanaged
  junctions := hsound.junctions

theorem Sound.deleteField (hsound : Sound d) (id : ℕ) : Sound (d.deleteField id) where
  fields := fun t ht hmanaged f hf => hsound.fields t ht hmanaged f (List.mem_of_mem_filter hf)
  tables := hsound.tables
  junctions := hsound.junctions

theorem Sound.deleteRelation (hsound : Sound d) (id : ℕ) : Sound (d.deleteRelation id) where
  fields := hsound.fields
  tables := hsound.tables
  junctions := fun r hr => hsound.junctions r (List.mem_of_mem_filter hr)

theorem Sound.deleteTable (hsound : Sound d) (id : ℕ) : Sound (d.deleteTable id) where
  fields := fun t ht hmanaged f hf => hsound.fields t (List.mem_of_mem_filter ht) hmanaged f (List.mem_of_mem_filter hf)
  tables := fun t ht => hsound.tables t (List.mem_of_mem_filter ht)
  junctions := hsound.junctions

theorem Sound.withoutField (hsound : Sound s.design) (fieldId : ℕ) : Sound (withoutField s fieldId) := by
  unfold TableDesign.withoutField
  cases s.design.relations.find? fun r => r.fromFieldId = some fieldId with
  | none => exact hsound.deleteField fieldId
  | some r => exact (hsound.deleteRelation r.id).deleteField fieldId

theorem Sound.ite {c : Bool} (hd : Sound d) (hd' : Sound d') : Sound (if c then d else d') := by
  split
  · exact hd
  · exact hd'

theorem Sound.finish (hsound : Sound s.design) (hd : Sound d) (n : ℕ) (r : Database ColumnType × Bool) : Sound
    (s.finish a d n r).design := by
  unfold State.finish
  split
  · exact hd.ite hsound
  · exact hsound

theorem clip_j (x y : String) : startsWith (clip 64 ("j_"++x++"_"++y)) "j_" = true := by
  simp [startsWith,clip,String.toList_append,List.take_append]

theorem junctionName_j (x y : String) : startsWith (junctionName x y) "j_" = true := by
  unfold junctionName
  split
  · exact clip_j y x
  · exact clip_j x y

/-! ### One request -/

section Requests

variable {s' : State}

theorem tableNew_sound {source : Option ℕ} {name label : String} {key : Option KeyInput}
    (hsound : Sound s.design) (h : Mapped env s) (hreq : tableNew env a s source name label key = some s') : Sound s'.design := by
  obtain ⟨phys,hphys,hreq⟩ := Option.bind_eq_some_iff.mp hreq
  split at hreq
  · cases hreq
  · obtain ⟨pk,hpk,hreq⟩ := Option.bind_eq_some_iff.mp hreq
    obtain ⟨d₁,htable,hreq⟩ := Option.bind_eq_some_iff.mp hreq
    obtain ⟨d,hfields,hreq⟩ := Option.bind_eq_some_iff.mp hreq
    obtain ⟨db,hcreate,hreq⟩ := Option.bind_eq_some_iff.mp hreq
    cases hreq
    refine (hsound.insertTable h.owned htable hfields (newKey_own hpk) fun _ => ⟨validName_free hphys,?_⟩).ite hsound
    intro f hf _
    have hkey : pk = some f := by simpa using hf
    rw [hkey]
    rfl

theorem tableFromCsv_sound {name label : String} {columns : List CsvColumn} (hsound : Sound s.design) (h : Mapped env s)
    (hreq : tableFromCsv env a s name label columns = some s') : Sound s'.design := by
  obtain ⟨phys,hphys,hreq⟩ := Option.bind_eq_some_iff.mp hreq
  split at hreq
  · cases hreq
  · obtain ⟨fields,hcsv,hreq⟩ := Option.bind_eq_some_iff.mp hreq
    split at hreq
    · cases hreq
    · obtain ⟨d₁,htable,hreq⟩ := Option.bind_eq_some_iff.mp hreq
      obtain ⟨d,hfields,hreq⟩ := Option.bind_eq_some_iff.mp hreq
      obtain ⟨db,hcreate,hreq⟩ := Option.bind_eq_some_iff.mp hreq
      cases hreq
      refine (hsound.insertTable h.owned htable hfields (fun f hf => (csvFields_some hcsv f hf).1) fun _ =>
        ⟨validName_free hphys,fun f hf hreserved => ?_⟩).ite hsound
      exact absurd hreserved (csvFields_some hcsv f hf).2.1

theorem tableFlags_sound {tableId : ℕ} {x y z : Bool} (hsound : Sound s.design)
    (hreq : tableFlags env a s tableId x y z = some s') : Sound s'.design := by
  obtain ⟨mt,-,hreq⟩ := Option.bind_eq_some_iff.mp hreq
  cases hreq
  exact hsound.finish (hsound.setFlags tableId x y z) _ _

theorem tableDelete_sound {tableId : ℕ} (hsound : Sound s.design) (hreq : tableDelete env a s tableId = some s') :
    Sound s'.design := by
  obtain ⟨mt,-,hreq⟩ := Option.bind_eq_some_iff.mp hreq
  split_ifs at hreq <;> cases hreq <;> exact hsound.deleteTable tableId

theorem tableDuplicate_sound {tableId : ℕ} {name label : String} (hsound : Sound s.design) (h : Mapped env s)
    (hreq : tableDuplicate env a s tableId name label = some s') : Sound s'.design := by
  obtain ⟨⟨src,mt,fields,d⟩,hof,hreq⟩ := Option.bind_eq_some_iff.mp hreq
  obtain ⟨db,-,hreq⟩ := Option.bind_eq_some_iff.mp hreq
  cases hreq
  have hcopy := duplicateOf_some hof
  obtain ⟨d₁,htable,hfields⟩ := hcopy.insert
  obtain ⟨hsrc,hid⟩ := table_mem hcopy.found
  refine (hsound.insertTable h.owned htable hfields hcopy.own fun _ => ⟨hcopy.named,fun f hf hreserved => ?_⟩).ite hsound
  obtain ⟨g,hg,hgown,hname,-⟩ := hcopy.origin f hf
  rw [hcopy.key,hname]
  exact hsound.fields src hsrc hcopy.managed.1 g hg (hgown.trans hid.symm) (hname ▸ hreserved)

theorem fieldAdd_sound {tableId : ℕ} {form : FieldInput} (hsound : Sound s.design)
    (hreq : fieldAdd env a s tableId form = some s') : Sound s'.design := by
  obtain ⟨mt,-,hreq⟩ := Option.bind_eq_some_iff.mp hreq
  obtain ⟨phys,-,hreq⟩ := Option.bind_eq_some_iff.mp hreq
  obtain ⟨enumJson,-,hreq⟩ := Option.bind_eq_some_iff.mp hreq
  split at hreq
  · cases hreq
  · rename_i hname
    obtain ⟨d,hinsert,hreq⟩ := Option.bind_eq_some_iff.mp hreq
    have hd : Sound d := hsound.insertField hinsert fun _ _ _ _ hreserved => hname (by
      have hfree : phys ∈ reservedColumns := hreserved
      simp [nameTaken,hfree])
    split at hreq <;> cases hreq
    · exact hd.ite hsound
    · exact hsound.finish hd _ _

theorem fieldEdit_sound {tableId fieldId : ℕ} {form : FieldInput} (hsound : Sound s.design)
    (hreq : fieldEdit env a s tableId fieldId form = some s') : Sound s'.design := by
  obtain ⟨⟨mt,field,edited,d⟩,hof,hreq⟩ := Option.bind_eq_some_iff.mp hreq
  have hedit := editOf_some hof
  have hd : Sound d := hsound.updateField hedit.update hedit.unreserved
  dsimp only at hreq
  split at hreq <;> cases hreq
  · exact hd.ite hsound
  · exact hsound.finish hd _ _

theorem fieldDelete_sound {tableId fieldId : ℕ} (hsound : Sound s.design)
    (hreq : fieldDelete env a s tableId fieldId = some s') : Sound s'.design := by
  obtain ⟨field,-,hreq⟩ := Option.bind_eq_some_iff.mp hreq
  obtain ⟨mt,-,hreq⟩ := Option.bind_eq_some_iff.mp hreq
  split_ifs at hreq
  · cases hreq
    exact (hsound.withoutField fieldId).ite hsound
  · obtain ⟨db,-,hreq⟩ := Option.bind_eq_some_iff.mp hreq
    cases hreq
    exact (hsound.withoutField fieldId).ite hsound

theorem relationNewM1_sound {fromId toId : ℕ} {name column : String} {nullable : Bool} (hsound : Sound s.design)
    (hreq : relationNewM1 env a s fromId toId name column nullable = some s') : Sound s'.design := by
  obtain ⟨fromT,-,hreq⟩ := Option.bind_eq_some_iff.mp hreq
  obtain ⟨toT,-,hreq⟩ := Option.bind_eq_some_iff.mp hreq
  obtain ⟨col,-,hreq⟩ := Option.bind_eq_some_iff.mp hreq
  split at hreq
  · cases hreq
  · rename_i hname
    obtain ⟨d,hinsert,hreq⟩ := Option.bind_eq_some_iff.mp hreq
    have hd : Sound d := hsound.insertField hinsert fun _ _ _ _ hreserved => hname (by
      have hfree : col ∈ reservedColumns := hreserved
      simp [nameTaken,hfree])
    dsimp only at hreq
    split at hreq
    · obtain ⟨d',hrelation,hreq⟩ := Option.bind_eq_some_iff.mp hreq
      cases hreq
      exact (hd.insertRelation hrelation fun j hj => by cases hj).ite hsound
    · cases hreq
      exact hsound

theorem relationNewMn_sound {fromId toId : ℕ} {name : String} (hsound : Sound s.design)
    (hreq : relationNewMn env a s fromId toId name = some s') : Sound s'.design := by
  obtain ⟨left,-,hreq⟩ := Option.bind_eq_some_iff.mp hreq
  obtain ⟨right,-,hreq⟩ := Option.bind_eq_some_iff.mp hreq
  dsimp only at hreq
  split at hreq
  · cases hreq
  · obtain ⟨db,-,hreq⟩ := Option.bind_eq_some_iff.mp hreq
    obtain ⟨d,hinsert,hreq⟩ := Option.bind_eq_some_iff.mp hreq
    cases hreq
    refine (hsound.insertRelation hinsert fun j hj => ?_).ite hsound
    cases hj
    exact junctionName_j _ _

theorem relationDelete_sound {relationId : ℕ} (hsound : Sound s.design)
    (hreq : relationDelete env a s relationId = some s') : Sound s'.design := by
  obtain ⟨rel,-,hreq⟩ := Option.bind_eq_some_iff.mp hreq
  have hless := hsound.deleteRelation relationId
  dsimp only at hreq
  split at hreq
  · rename_i field _ _
    have hgone := hless.deleteField field.id
    split at hreq
    · cases hreq
      exact hgone.ite hsound
    · obtain ⟨db,-,hreq⟩ := Option.bind_eq_some_iff.mp hreq
      cases hreq
      exact hgone.ite hsound
  · obtain ⟨db,-,hreq⟩ := Option.bind_eq_some_iff.mp hreq
    cases hreq
    exact hless.ite hsound
  · cases hreq
    exact hless.ite hsound

theorem adoptTable_sound {source : Option ℕ} {q q' : Progress} {phys : String}
    (hsound : Sound q.design ∧ Mapped env ⟨q.design,s.dbs⟩) (hreq : adoptTable env a s source q phys = some q') :
    Sound q'.design ∧ Mapped env ⟨q'.design,s.dbs⟩ := by
  refine ⟨?_,adoptTable_mapped hsound.2 hreq⟩
  obtain ⟨t,-,hreq⟩ := Option.bind_eq_some_iff.mp hreq
  split at hreq
  · cases hreq
    exact hsound.1
  · split at hreq
    · cases hreq
      exact hsound.1
    · obtain ⟨d₁,htable,hreq⟩ := Option.bind_eq_some_iff.mp hreq
      obtain ⟨d,hfields,hreq⟩ := Option.bind_eq_some_iff.mp hreq
      cases hreq
      exact hsound.1.insertTable hsound.2.owned htable hfields (fun f hf => (adoptedFields_some f hf).1)
        fun hmanaged => by cases hmanaged

/-- The tables stay and the names are apart while relations are adopted. -/
def Naming (tables : List TableRow) (q : Progress) : Prop := Sound q.design ∧ q.design.tables = tables

theorem adoptRelation_naming {tables external : List TableRow} {q q' : Progress} {fk : ForeignKey} (hmt : mt ∈ tables)
    (hmanaged : mt.managed = false) (hreq : adoptRelation env a external q mt fk = some q') (h : Naming tables q) :
    Naming tables q' := by
  unfold adoptRelation at hreq
  split at hreq
  · split at hreq
    · cases hreq
      exact h
    · obtain ⟨d,hfield,hreq⟩ := Option.bind_eq_some_iff.mp hreq
      obtain ⟨d',hrelation,hreq⟩ := Option.bind_eq_some_iff.mp hreq
      cases hreq
      obtain ⟨hsound,htables⟩ := h
      have hfree : ∀ j, (none : Option String) = some j → startsWith j "j_" = true := fun j hj => by cases hj
      refine ⟨(hsound.insertField hfield fun t ht hmanaged' hid => ?_).insertRelation hrelation hfree,
        (insertRelation_some hrelation).1.trans ((insertField_some hfield).1.trans htables)⟩
      have hsame : mt = t := tableId_inj (by rwa [htables]) ht hid
      rw [← hsame,hmanaged] at hmanaged'
      cases hmanaged'
  · cases hreq
    exact h

theorem adoptRelations_sound {source : Option ℕ} {q q' : Progress} (hsound : Sound q.design)
    (hreq : adoptRelations env a s source q = some q') : Sound q'.design := by
  have hnaming : Naming q.design.tables q' := by
    refine foldlM_invariant (Naming q.design.tables) (fun q₁ mt hmt q₂ hq₂ hq₁ => ?_) hreq ⟨hsound,rfl⟩
    obtain ⟨hmem,hexternal⟩ := List.mem_filter.mp hmt
    obtain ⟨hmanaged,-⟩ := Bool.and_eq_true_iff.mp hexternal
    obtain ⟨t,-,hfold⟩ := Option.bind_eq_some_iff.mp hq₂
    exact foldlM_invariant (Naming q.design.tables)
      (fun q fk _ q' hq' hq => adoptRelation_naming hmem (by simpa using hmanaged) hq' hq) hfold hq₁
  exact hnaming.1

theorem adoptRun_sound {source : Option ℕ} {names : List String} {withRelations : Bool} (hsound : Sound s.design)
    (h : Mapped env s)
    (hreq : adoptRun env a s source names withRelations = some s') : Sound s'.design := by
  obtain ⟨q,htables,hreq⟩ := Option.bind_eq_some_iff.mp hreq
  have hq : Sound q.design ∧ Mapped env ⟨q.design,s.dbs⟩ :=
    foldlM_invariant (fun q => Sound q.design ∧ Mapped env ⟨q.design,s.dbs⟩) (fun q phys _ q' hq' hq => adoptTable_sound hq hq')
      htables ⟨hsound,h⟩
  obtain ⟨q',hrelations,hreq⟩ := Option.bind_eq_some_iff.mp hreq
  have hq' : Sound q'.design := by
    split at hrelations
    · exact adoptRelations_sound hq.1 hrelations
    · cases hrelations
      exact hq.1
  cases hreq
  exact hq'.ite hsound

end Requests

theorem sound_step (i : Input) (hsound : Sound s.design) (h : Mapped env s) : Sound (step env s i).design := by
  unfold step
  cases hreq : perform env s i with
  | none => exact hsound
  | some s' =>
    rw [Option.getD_some]
    unfold perform at hreq
    split at hreq
    · exact tableNew_sound hsound h hreq
    · exact tableFlags_sound hsound hreq
    · exact tableDelete_sound hsound hreq
    · exact tableDuplicate_sound hsound h hreq
    · exact tableFromCsv_sound hsound h hreq
    · exact fieldAdd_sound hsound hreq
    · exact fieldEdit_sound hsound hreq
    · exact fieldDelete_sound hsound hreq
    · exact relationNewM1_sound hsound hreq
    · exact relationNewMn_sound hsound hreq
    · exact relationDelete_sound hsound hreq
    · exact adoptRun_sound hsound h hreq

/-! ### Runs -/

/-- What a request must not do for the metadata and the tables to stay in agreement. -/
def Sane (env : Env) (s : State) (i : Input) : Prop :=
  match i.action with
  | .tableDuplicate tableId name label => SaneTableDuplicate env i.answers s tableId name label
  | .fieldEdit tableId fieldId form => SaneFieldEdit env i.answers s tableId fieldId form
  | .fieldDelete tableId fieldId => SaneFieldDelete env i.answers s tableId fieldId
  | .relationDelete relationId => SaneRelationDelete env i.answers s relationId
  | _ => True

theorem mapped_getD {r : Option State} (h : Mapped env s) (hsome : ∀ s', r = some s' → Mapped env s') : Mapped env (r.getD s) := by
  cases r with
  | none => exact h
  | some s' => exact hsome s' rfl

theorem mapped_step_iff (i : Input) (hsound : Sound s.design) (h : Mapped env s) : Mapped env (step env s i) ↔ Sane env s i := by
  unfold step perform Sane
  cases i.action with
  | tableNew => exact iff_of_true (mapped_getD h fun _ => tableNew_mapped h) trivial
  | tableFlags => exact iff_of_true (mapped_getD h fun _ => tableFlags_mapped h) trivial
  | tableDelete => exact iff_of_true (tableDelete_mapped hsound h) trivial
  | tableDuplicate => exact tableDuplicate_mapped_iff hsound h
  | tableFromCsv => exact iff_of_true (mapped_getD h fun _ => tableFromCsv_mapped h) trivial
  | fieldAdd => exact iff_of_true (mapped_getD h fun _ => fieldAdd_mapped h) trivial
  | fieldEdit => exact fieldEdit_mapped_iff hsound h
  | fieldDelete => exact fieldDelete_mapped_iff hsound h
  | relationNewM1 => exact iff_of_true (mapped_getD h fun _ => relationNewM1_mapped h) trivial
  | relationNewMn => exact iff_of_true (mapped_getD h fun _ => relationNewMn_mapped h) trivial
  | relationDelete => exact relationDelete_mapped_iff hsound h
  | adoptRun => exact iff_of_true (mapped_getD h fun _ => adoptRun_mapped h) trivial

/-- The metadata and the tables agree in all states of a run exactly when every request of it is sane. -/
theorem mapped_iff_sane (env : Env) {start : State} (hsound : Sound start.design) (h : Mapped env start) (is : List Input) :
    (∀ before, before <+: is → Mapped env (exec (step env) start before)) ↔ Meets (step env) (Sane env) start is :=
  always_iff_meets (fun s => Sound s.design) (Mapped env) (fun _ i => sound_step i) (fun _ i => mapped_step_iff i) hsound h is

/-- A home database that takes nothing back. -/
def plainEnv : Env where
  lib := SchemaInference.asciiLib
  engine _ := 0
  transactional _ := false
  formulaError _ _ _ _ := false
  title name := name

/-- Nothing is refused. -/
def obliging (tableId fieldId : ℕ) : Answers where
  ddl _ := true
  commit := true
  tableId n := tableId+n
  fieldId n := fieldId+n
  relationId n := n

def blank : State where
  design := ⟨[],[],[],List.nodup_nil,List.nodup_nil,List.nodup_nil,List.nodup_nil,List.nodup_nil⟩
  dbs _ := []

theorem sound_blank : Sound blank.design :=
  ⟨fun _ ht => absurd ht List.not_mem_nil,fun _ ht => absurd ht List.not_mem_nil,fun _ hr => absurd hr List.not_mem_nil⟩

theorem mapped_blank : Mapped plainEnv blank :=
  ⟨fun _ hf => absurd hf List.not_mem_nil,fun _ hr => absurd hr List.not_mem_nil,fun _ ht => absurd ht List.not_mem_nil,
    fun _ hr => absurd hr List.not_mem_nil⟩

/-- A table is made and gets an audit trail. -/
def audited : List Input :=
  [⟨.tableNew none "orders" "Orders" none,obliging 1 1⟩,⟨.tableFlags 1 true false false,obliging 2 1⟩]

/-- And it is copied. -/
def copied : List Input := audited++[⟨.tableDuplicate 1 "orders_old" "",obliging 2 1⟩]

/-- The table with the audit trail has its columns, and the copy of it does not. -/
theorem mapped_iff_sane_copied : (∀ before, before <+: audited → Mapped plainEnv (exec (step plainEnv) blank before)) ∧
    ¬∀ before, before <+: copied → Mapped plainEnv (exec (step plainEnv) blank before) := by
  rw [mapped_iff_sane plainEnv sound_blank mapped_blank,mapped_iff_sane plainEnv sound_blank mapped_blank]
  refine ⟨⟨trivial,trivial,trivial⟩,fun hrun => ?_⟩
  have hsane : SaneTableDuplicate plainEnv (obliging 2 1) (exec (step plainEnv) blank audited) 1 "orders_old" "" := hrun.2.2.1
  have hflagged : (duplicateOf plainEnv (obliging 2 1) (exec (step plainEnv) blank audited) 1 "orders_old" "").elim false (fun r =>
      (createCopy plainEnv (obliging 2 1) (exec (step plainEnv) blank audited) r.1 r.2.1 r.2.2.1).isSome && recordColumns r.1 != []) = true := by
    decide +kernel
  cases hof : duplicateOf plainEnv (obliging 2 1) (exec (step plainEnv) blank audited) 1 "orders_old" "" with
  | none => simp [hof] at hflagged
  | some r =>
    rw [hof] at hflagged
    obtain ⟨hcreated,hrecord⟩ := Bool.and_eq_true_iff.mp hflagged
    have hnone := (hsane _ _ _ _ hof hcreated rfl).1
    simp [hnone] at hrecord

end TableDesign
end Biggy
