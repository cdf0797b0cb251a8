import Biggy.ImportClosed

/-!
# An import that stops

What `import_schema` has created is on its list, except where a column that `ensure_record_columns` adds to a new table is
refused. An import that stops otherwise leaves the rows and the tables as they were when its body began; a replace import has
wiped the old model by then.
-/
namespace Biggy
namespace SchemaImport

open PyDict Commits Prog Courses

/-! ### The tables on the list -/

/-- Against the state before the first table: a table that is not on the list is as it was, and one on the list is new. -/
structure Tidy {δ κ : Type} (b s : State δ κ) : Prop where
  others : ∀ p, p ∉ s.created → s.tables p.1 p.2 = b.tables p.1 p.2
  listed : ∀ p ∈ s.created, b.tables p.1 p.2 = none

/-- The list grows, and the data sources stay. -/
structure Onward {δ κ : Type} (s t : State δ κ) : Prop where
  created : s.created ⊆ t.created
  sourceMap : t.maps .dataSource = s.maps .dataSource
  sourceRows : t.db .dataSource = s.db .dataSource

theorem Onward.trans {δ κ : Type} {s t u : State δ κ} (h : Onward s t) (h' : Onward t u) : Onward s u where
  created := List.Subset.trans h.created h'.created
  sourceMap := h'.sourceMap.trans h.sourceMap
  sourceRows := h'.sourceRows.trans h.sourceRows

def tidyCourse {δ κ : Type} (b : State δ κ) : Course (State δ κ) where
  inv := Tidy b
  step := Onward
  refl _ := ⟨List.Subset.refl _,rfl,rfl⟩
  trans _ _ _ := Onward.trans

/-! ### Steps that leave the tables alone -/

section Quiet

variable {δ κ α : Type} {env : Env δ κ} {b : State δ κ}

/-- Neither the tables nor the list change. -/
def Unmoved (s t : State δ κ) : Prop := t.tables = s.tables ∧ t.created = s.created

theorem unmoved_refl (s : State δ κ) : Unmoved s s := ⟨rfl,rfl⟩

theorem unmoved_trans (s t u : State δ κ) (h : Unmoved s t) (h' : Unmoved t u) : Unmoved s u :=
  ⟨h'.1.trans h.1,h'.2.trans h.2⟩

theorem unmoved_insert (e : Entity) (columns : List (String × Json)) : Keeps Unmoved (insert env e columns) := by
  intro s
  rw [insert]
  split <;> exact unmoved_refl _

theorem unmoved_remember (e : Entity) (entry : Json) (id : ℕ) : Keeps Unmoved (remember e entry id : Import δ κ Unit) := by
  intro s
  rw [remember]
  split <;> exact unmoved_refl _

theorem Tidy.unmoved {s t : State δ κ} (hs : Tidy b s) (h : Unmoved s t) : Tidy b t := by
  constructor
  · rw [h.1,h.2]
    exact hs.others
  · rw [h.2]
    exact hs.listed

theorem stays_quiet {p : Import δ κ α} (hkeeps : Keeps Unmoved p)
    (hmaps : ∀ s, (p s).state.maps .dataSource = s.maps .dataSource)
    (hrows : ∀ s, (p s).state.db .dataSource = s.db .dataSource) : Stays (tidyCourse b) p := by
  intro s hs _
  refine ⟨hs.unmoved (hkeeps s),⟨?_,hmaps s,hrows s⟩,fun _ _ => trivial⟩
  rw [(hkeeps s).2]
  exact List.Subset.refl _

theorem quiet_insert {e : Entity} (he : e ≠ .dataSource) (columns : List (String × Json)) :
    Stays (tidyCourse b) (insert env e columns) := by
  refine stays_quiet (unmoved_insert e columns) (fun s => ?_) fun s => ?_
  · rw [insert]
    split <;> rfl
  · rw [insert]
    split
    · rfl
    · exact Function.update_of_ne he.symm _ _

theorem quiet_remember {e : Entity} (he : e ≠ .dataSource) (entry : Json) (id : ℕ) :
    Stays (tidyCourse b) (remember e entry id : Import δ κ Unit) := by
  refine stays_quiet (unmoved_remember e entry id) (fun s => ?_) fun s => ?_
  · rw [remember]
    split
    · exact Function.update_of_ne he.symm _ _
    · rfl
  · rw [remember]
    split <;> rfl

theorem quiet_setColumn {e : Entity} (he : e ≠ .dataSource) (id : ℕ) (column : String) (value : Json) :
    Stays (tidyCourse b) (setColumn e id column value : Import δ κ Unit) :=
  stays_quiet unmoved_refl (fun _ => rfl) fun _ => Function.update_of_ne he.symm _ _

theorem quiet_addRow {e : Entity} (he : e ≠ .dataSource) (columns : Columns) (entry : Json) :
    Stays (tidyCourse b) (addRow env e columns entry) := stays_bind (stays_reads _) fun _ => quiet_insert he _

theorem quiet_addKept {e : Entity} (he : e ≠ .dataSource) (columns : Columns) (entry : Json) :
    Stays (tidyCourse b) (addKept env e columns entry) :=
  stays_bind (quiet_addRow he columns entry) fun _ => stays_bind (quiet_remember he entry _) fun _ => stays_pure _

theorem quiet_remapColumn (r : Json) (id : ℕ) (column : String) : Stays (tidyCourse b) (remapColumn env r id column) :=
  stays_bind (stays_python _) fun _ => stays_bind (stays_reads _) fun _ => quiet_setColumn (by decide) id column _

theorem quiet_finishRelation (r : Json) (id : ℕ) : Stays (tidyCourse b) (finishRelation env r id) :=
  stays_bind (quiet_remember (by decide) r id) fun _ => stays_bind (quiet_remapColumn r id _) fun _ => quiet_remapColumn r id _

theorem quiet_setLater {e : Entity} (he : e ≠ .dataSource) (target : Entity) (column : String) (entry : Json) :
    Stays (tidyCourse b) (setLater e target column entry : Import δ κ Unit) := by
  refine stays_bind (stays_python _) fun old => ?_
  split
  · refine stays_bind (stays_reads _) fun found => ?_
    split
    · exact stays_bind (stays_reads _) fun id => quiet_setColumn he id _ _
    · exact stays_pure ()
  · exact stays_pure ()

theorem quiet_importWorkflow (w : Json) : Stays (tidyCourse b) (importWorkflow env w) := by
  refine stays_bind (stays_reads _) fun given => ?_
  split
  · refine stays_bind (quiet_addRow (by decide) _ w) fun row => stays_bind (stays_python _) fun id => ?_
    split
    · exact stays_pure ()
    · exact quiet_remember (by decide) w row.id
  · exact stays_pure ()

theorem quiet_importUnique (old : ByOld) (cu : Json) : Stays (tidyCourse b) (importUnique env old cu) := by
  refine stays_bind (stays_reads _) fun table => stays_bind (stays_python _) fun ids => ?_
  refine stays_bind (stays_python _) fun columns => stays_bind (stays_reads _) fun fields => ?_
  split
  · exact stays_pure ()
  · refine stays_bind (stays_tryIndex old cu columns) fun made => ?_
    split
    · exact stays_bind (quiet_addRow (by decide) _ cu) fun _ => stays_pure ()
    · exact stays_pure ()

theorem takes_tidy : Takes env (tidyCourse b) where
  row he _ _ := quiet_addRow he _
  kept he _ _ := quiet_addKept he _
  display := quiet_setLater (by decide) _ _
  parent := quiet_setLater (by decide) _ _
  workflow := quiet_importWorkflow
  unique := quiet_importUnique

end Quiet

/-! ### Steps that create and alter tables -/

section Tables

variable {δ κ : Type} [DecidableEq δ] {env : Env δ κ} {b : State δ κ}

theorem setTable_tables (s : State δ κ) (eng : δ) (name : String) (table : Option κ) (p : δ × String) :
    (s.setTable eng name table).tables p.1 p.2 = if p = (eng,name) then table else s.tables p.1 p.2 := by
  obtain ⟨d,n⟩ := p
  simp only [State.setTable,Prod.mk.injEq]

/-- At most the one table is altered. -/
structure Aside (eng : δ) (name : String) (s t : State δ κ) : Prop where
  tables : ∀ p, p ≠ (eng,name) → t.tables p.1 p.2 = s.tables p.1 p.2
  created : t.created = s.created
  maps : t.maps = s.maps
  db : t.db = s.db

omit [DecidableEq δ] in
theorem aside_refl (eng : δ) (name : String) (s : State δ κ) : Aside eng name s s := ⟨fun _ _ => rfl,rfl,rfl,rfl⟩

omit [DecidableEq δ] in
theorem aside_trans (eng : δ) (name : String) (s t u : State δ κ) (h : Aside eng name s t) (h' : Aside eng name t u) :
    Aside eng name s u :=
  ⟨fun p hp => (h'.tables p hp).trans (h.tables p hp),h'.created.trans h.created,h'.maps.trans h.maps,h'.db.trans h.db⟩

theorem keeps_alterTable (eng : δ) (name : String) (change : Change) :
    Keeps (Aside eng name) (alterTable env eng name change) := by
  intro s
  rw [alterTable]
  split
  · exact aside_refl eng name s
  · refine ⟨fun p hp => ?_,rfl,rfl,rfl⟩
    change (s.setTable eng name _).tables p.1 p.2 = _
    rw [setTable_tables,if_neg hp]

theorem keeps_ensureRecordColumns (eng : δ) (name : String) (t : Json) :
    Keeps (Aside eng name) (ensureRecordColumns env eng name t) :=
  keeps_bind (aside_trans eng name) (aside_refl eng name) fun _ =>
    keeps_forM (aside_refl eng name) (aside_trans eng name) fun column _ => keeps_alterTable eng name (.recordColumn column)

/-- What is altered is on the list. -/
theorem leads_alterTable (eng : δ) (name : String) (change : Change) :
    Leads (tidyCourse b) (fun s => (eng,name) ∈ s.created) (alterTable env eng name change) fun _ _ => True := by
  intro s hs hlisted
  have haside : Aside eng name s (alterTable env eng name change s).state := keeps_alterTable eng name change s
  refine ⟨⟨fun p hp => ?_,?_⟩,⟨?_,by rw [haside.maps],by rw [haside.db]⟩,fun _ _ => trivial⟩
  · rw [haside.created] at hp
    have hne : p ≠ (eng,name) := fun heq => hp (heq ▸ hlisted)
    rw [haside.tables p hne]
    exact hs.others p hp
  · rw [haside.created]
    exact hs.listed
  · rw [haside.created]
    exact List.Subset.refl _

theorem createTable_ok {eng : δ} {name : String} {layout : Layout} {s : State δ κ}
    (h : (createTable env eng name layout s).result = .ok ()) :
    s.tables eng name = none ∧ Aside eng name s (createTable env eng name layout s).state := by
  rw [createTable] at h ⊢
  split at h
  · cases h
  · cases h
  · rename_i table hnone hbuild
    refine ⟨hnone,fun p hp => ?_,rfl,rfl,rfl⟩
    change (s.setTable eng name _).tables p.1 p.2 = _
    rw [setTable_tables,if_neg hp]

theorem createTable_error {eng : δ} {name : String} {layout : Layout} {s : State δ κ} {failure : Failure}
    (h : (createTable env eng name layout s).result = .error failure) : (createTable env eng name layout s).state = s := by
  rw [createTable] at h ⊢
  split at h
  · rfl
  · rfl
  · cases h

omit [DecidableEq δ] in
/-- A table that was not there and has been put on the list. -/
theorem tidy_listed {eng : δ} {name : String} {s t : State δ κ} (hs : Tidy b s) (hnone : s.tables eng name = none)
    (haside : Aside eng name s t) : Tidy b (keepCreated eng name t).state ∧ Onward s (keepCreated eng name t).state := by
  have hcreated : (keepCreated eng name t).state.created = s.created++[(eng,name)] := congrArg (·++[(eng,name)]) haside.created
  refine ⟨⟨fun p hp => ?_,fun p hp => ?_⟩,⟨?_,congrFun haside.maps _,congrFun haside.db _⟩⟩
  · rw [hcreated,List.mem_append,List.mem_singleton] at hp
    push Not at hp
    exact (haside.tables p hp.2).trans (hs.others p hp.1)
  · rw [hcreated] at hp
    rcases List.mem_append.mp hp with hold | hnew
    · exact hs.listed p hold
    · rw [List.mem_singleton.mp hnew]
      by_cases hin : (eng,name) ∈ s.created
      · exact hs.listed _ hin
      · exact (hs.others _ hin).symm.trans hnone
  · rw [hcreated]
    exact List.subset_append_left _ _

theorem stays_createJunction (eng : δ) (name : String) (layout : Layout) :
    Stays (tidyCourse b) (createJunction env eng name layout) := by
  refine stays_withState fun s => ?_
  split
  · exact stays_pure ()
  · intro s hs _
    cases hresult : (createTable env eng name layout s).result with
    | error failure =>
      rw [bind_of_error hresult,createTable_error hresult]
      exact ⟨hs,(tidyCourse b).refl s,fun _ _ => trivial⟩
    | ok _ =>
      rw [bind_of_ok hresult]
      obtain ⟨hnone,haside⟩ := createTable_ok hresult
      obtain ⟨htidy,honward⟩ := tidy_listed hs hnone haside
      exact ⟨htidy,honward,fun _ _ => trivial⟩

/-! ### One table of the file -/

/-- The table is created, and a column of `ensure_record_columns` is refused: the table is not on the list yet. -/
def Strands (env : Env δ κ) (old : ByOld) (t : Json) (s : State δ κ) : Prop :=
  ∃ eng name layout, (prepareTable env old t s).result = .ok (some (eng,name,layout)) ∧
    (createTable env eng name layout (prepareTable env old t s).state).result = .ok () ∧
    Raises (ensureRecordColumns env eng name t) (createTable env eng name layout (prepareTable env old t s).state).state

/-- The table of the entry is on the list, where it is made here. -/
def Made (env : Env δ κ) (t : Json) (s : State δ κ) : Prop :=
  ∀ source eng name, flag t "managed" yes = .ok true → getOr t "source_id" .null = .ok source →
    engineAt env s source = .ok eng → member t "phys_name" = .ok name → (eng,textOf name) ∈ s.created

omit [DecidableEq δ] in
theorem engineAt_onward {s t : State δ κ} (h : Onward s t) (sourceId : Json) :
    engineAt env t sourceId = engineAt env s sourceId := by
  rw [engineAt,engineAt,h.sourceMap,h.sourceRows]

omit [DecidableEq δ] in
theorem made_kept (t : Json) (s s' : State δ κ) (h : Onward s s') (hmade : Made env t s) : Made env t s' := by
  intro source eng name hmanaged hsource heng hname
  rw [engineAt_onward h] at heng
  exact h.created (hmade source eng name hmanaged hsource heng hname)

end Tables

section OneTable

variable {δ κ : Type} {env : Env δ κ} {b : State δ κ}

/-- What is created for an entry. -/
theorem prepareTable_some {old : ByOld} {t : Json} {s : State δ κ} {eng : δ} {name : String} {layout : Layout}
    (hs : Tidy b s) (h : (prepareTable env old t s).result = .ok (some (eng,name,layout))) :
    ∃ source value, getOr t "source_id" .null = .ok source ∧ engineAt env s source = .ok eng ∧
      member t "phys_name" = .ok value ∧ name = textOf value := by
  obtain ⟨managed,-,h,-,-⟩ := bind_ok h
  obtain ⟨row,-,h,-,-⟩ := bind_ok h
  have honward : Onward s (addKept env .table tableColumns t s).state :=
    (quiet_addKept (b := b) (by decide) tableColumns t s hs trivial).2.1
  split at h
  · obtain ⟨source,hsource,h,-,-⟩ := bind_ok h
    obtain ⟨eng',heng,h,-,-⟩ := bind_ok h
    obtain ⟨layout',-,h,-,-⟩ := bind_ok h
    obtain ⟨value,hvalue,h,-,-⟩ := bind_ok h
    obtain ⟨rfl,rfl,rfl⟩ : eng' = eng ∧ textOf value = name ∧ layout' = layout := by simpa [pure_def] using h
    refine ⟨source,value,python_ok hsource,?_,python_ok hvalue,rfl⟩
    rw [← engineAt_onward honward]
    exact heng
  · cases Except.ok.inj h

theorem prepareTable_none {old : ByOld} {t : Json} {s : State δ κ}
    (h : (prepareTable env old t s).result = .ok none) : flag t "managed" yes = .ok false := by
  obtain ⟨managed,hmanaged,h,-,-⟩ := bind_ok h
  obtain ⟨row,-,h,-,-⟩ := bind_ok h
  split at h
  · obtain ⟨source,-,h,-,-⟩ := bind_ok h
    obtain ⟨eng,-,h,-,-⟩ := bind_ok h
    obtain ⟨layout,-,h,-,-⟩ := bind_ok h
    obtain ⟨value,-,h,-,-⟩ := bind_ok h
    cases Except.ok.inj h
  · rename_i hfalse
    rw [python_ok hmanaged,Bool.not_eq_true _ |>.mp hfalse]

variable [DecidableEq δ]

/-- An entry whose table is not stranded leaves the list in order. -/
theorem importTable_tidy {old : ByOld} {t : Json} {s : State δ κ} (hs : Tidy b s) (hstrands : ¬Strands env old t s) :
    Tidy b (importTable env old t s).state ∧ Onward s (importTable env old t s).state ∧
      ((importTable env old t s).result = .ok () → Made env t (importTable env old t s).state) := by
  obtain ⟨htidy,honward,-⟩ := (takes_tidy (b := b)).prepareTable old t s hs trivial
  cases hprepare : (prepareTable env old t s).result with
  | error failure =>
    rw [importTable,bind_of_error hprepare]
    exact ⟨htidy,honward,fun h => by cases h⟩
  | ok found =>
    rw [importTable,bind_of_ok hprepare]
    cases found with
    | none =>
      refine ⟨htidy,honward,fun _ source eng name hmanaged => ?_⟩
      rw [prepareTable_none hprepare] at hmanaged
      cases Except.ok.inj hmanaged
    | some found =>
      obtain ⟨eng,name,layout⟩ := found
      dsimp only
      cases hcreate : (createTable env eng name layout (prepareTable env old t s).state).result with
      | error failure =>
        rw [bind_of_error hcreate,createTable_error hcreate]
        exact ⟨htidy,honward,fun h => by cases h⟩
      | ok _ =>
        obtain ⟨hnone,haside⟩ := createTable_ok hcreate
        rw [bind_of_ok hcreate]
        have hcolumns : Aside eng name _ _ :=
          @keeps_ensureRecordColumns _ _ _ env eng name t (createTable env eng name layout (prepareTable env old t s).state).state
        cases hensure : (ensureRecordColumns env eng name t
            (createTable env eng name layout (prepareTable env old t s).state).state).result with
        | error failure => exact absurd ⟨eng,name,layout,hprepare,hcreate,failure,hensure⟩ hstrands
        | ok _ =>
          rw [bind_of_ok hensure]
          obtain ⟨htidy',honward'⟩ := tidy_listed htidy hnone (aside_trans eng name _ _ _ haside hcolumns)
          refine ⟨htidy',honward.trans honward',fun _ => ?_⟩
          obtain ⟨source,value,hsource,heng,hvalue,rfl⟩ := prepareTable_some hs hprepare
          intro source' eng' value' _ hsource' heng' hvalue'
          obtain rfl := Except.ok.inj (hsource.symm.trans hsource')
          obtain rfl := Except.ok.inj (hvalue.symm.trans hvalue')
          rw [engineAt_onward (honward.trans honward'),heng] at heng'
          obtain rfl := Except.ok.inj heng'
          exact List.mem_append_right _ List.mem_cons_self

/-! ### All tables of the file -/

/-- The entries after which no table is stranded. -/
theorem tables_tidy {old : ByOld} (ts : List Json) {s : State δ κ} (hs : Tidy b s)
    (hstrands : ∀ before t after, ts = before++t::after → (forM before (importTable env old) s).result = .ok () →
      ¬Strands env old t (forM before (importTable env old) s).state) :
    Tidy b (forM ts (importTable env old) s).state ∧ Onward s (forM ts (importTable env old) s).state ∧
      ((forM ts (importTable env old) s).result = .ok () → ∀ t ∈ ts, Made env t (forM ts (importTable env old) s).state) := by
  induction ts generalizing s with
  | nil => exact ⟨hs,(tidyCourse b).refl s,fun _ t ht => by cases ht⟩
  | cons t ts ih =>
    obtain ⟨htidy,honward,hmade⟩ := importTable_tidy hs (hstrands [] t ts rfl rfl)
    rw [List.forM_cons]
    cases hfirst : (importTable env old t s).result with
    | error failure =>
      rw [bind_of_error hfirst]
      exact ⟨htidy,honward,fun h => by cases h⟩
    | ok _ =>
      have hrest : ∀ before t' after, ts = before++t'::after →
          (forM before (importTable env old) (importTable env old t s).state).result = .ok () →
          ¬Strands env old t' (forM before (importTable env old) (importTable env old t s).state).state := by
        rintro before t' after rfl hbefore
        have hresult : (forM (t::before) (importTable env old) s).result =
            (forM before (importTable env old) (importTable env old t s).state).result := by
          rw [List.forM_cons,bind_of_ok hfirst]
        have hstate : (forM (t::before) (importTable env old) s).state =
            (forM before (importTable env old) (importTable env old t s).state).state := by
          rw [List.forM_cons,bind_of_ok hfirst]
        rw [← hstate]
        exact hstrands (t::before) t' after rfl (hresult.trans hbefore)
      obtain ⟨htidy',honward',hmade'⟩ := ih htidy hrest
      rw [bind_of_ok hfirst]
      refine ⟨htidy',honward.trans honward',fun hok t' ht' => ?_⟩
      rcases List.mem_cons.mp ht' with rfl | hin
      · exact made_kept t' _ _ honward' (hmade hfirst)
      · exact hmade' hok t' hin

end OneTable

/-! ### The table of a field -/

/-- The last entry with the id. -/
def lastWith (items : List Json) (k : Key) : Option Json :=
  items.foldl (fun found item => if ((member item "id").bind hash).toOption = some k then some item else found) none

theorem mem_lastWith {items : List Json} {k : Key} {item : Json} (h : lastWith items k = some item) : item ∈ items := by
  have hfold : ∀ (items : List Json) (found : Option Json),
      items.foldl (fun found item => if ((member item "id").bind hash).toOption = some k then some item else found) found =
        some item → item ∈ items ∨ found = some item := by
    intro items
    induction items with
    | nil => exact fun found h => Or.inr h
    | cons first rest ih =>
      intro found h
      rcases ih _ h with hin | hfound
      · exact Or.inl (List.mem_cons_of_mem first hin)
      · dsimp only at hfound
        split_ifs at hfound
        · obtain rfl := Option.some.inj hfound
          exact Or.inl List.mem_cons_self
        · exact Or.inr hfound
  exact (hfold items none h).resolve_right (by simp)

/-- What a dict by the ids has is the value of the last entry with the id. -/
theorem dictOf_lookup {α : Type} {value : Json → Except PyError α} {items : List Json} {dict : List (Key × α)}
    (h : dictOf (member · "id") value items = .ok dict) (k : Key) :
    dict.lookup k = (lastWith items k).bind fun item => (value item).toOption := by
  have hfold : ∀ (items : List Json) (start : List (Key × α)) (found : Option Json),
      start.lookup k = found.bind (fun item => (value item).toOption) →
      items.foldlM (fun dict item => do
        let k ← member item "id"
        let v ← value item
        assign dict k v) start = .ok dict →
      dict.lookup k = (items.foldl (fun found item =>
        if ((member item "id").bind hash).toOption = some k then some item else found) found).bind fun item =>
          (value item).toOption := by
    intro items
    induction items with
    | nil =>
      intro start found hstart hdict
      obtain rfl := Except.ok.inj hdict
      exact hstart
    | cons first rest ih =>
      intro start found hstart hdict
      rw [Outcome.foldlM_cons] at hdict
      obtain ⟨more,hmore,hrest⟩ := Outcome.bind_ok hdict
      refine ih more _ ?_ hrest
      obtain ⟨old,hold,hmore⟩ := Outcome.bind_ok hmore
      obtain ⟨v,hv,hassign⟩ := Outcome.bind_ok hmore
      obtain ⟨k',hk',rfl⟩ := Outcome.map_ok hassign
      have hkey : ((member first "id").bind hash).toOption = some k' := by
        rw [hold]
        simp [Except.bind,hk',Except.toOption]
      dsimp only
      rw [hkey]
      by_cases hsame : k' = k
      · subst hsame
        rw [Keyed.lookup_put_self,if_pos rfl]
        simp [hv,Except.toOption]
      · rw [Keyed.lookup_put_other (Ne.symm hsame),if_neg (fun heq => hsame (Option.some.inj heq)),hstart]
  exact hfold items [] none rfl h

section Owned

variable {δ κ : Type} {env : Env δ κ}

/-- Where a field has its column, the table is on the list. -/
def Owned (env : Env δ κ) (old : ByOld) (s : State δ κ) : Prop :=
  ∀ table eng name, ownAt env old table s = .ok (some (eng,name)) → (eng,name) ∈ s.created

theorem owned_kept (old : ByOld) (s t : State δ κ) (h : Onward s t) (howned : Owned env old s) : Owned env old t := by
  intro table eng name hown
  refine h.created (howned table eng name ?_)
  rw [← hown,ownAt,ownAt]
  simp only [engineAt_onward h]

/-- A value that has a member is an object. -/
theorem getOr_ok {value found : Json} {key : String} (h : member value key = .ok found) (other : String) (default : Json) :
    ∃ given, getOr value other default = .ok given := by
  cases value with
  | obj members => exact ⟨_,rfl⟩
  | _ => cases h

theorem byOld_dicts {data : Json} {old : ByOld} {tables : List Json} (hold : byOld data = .ok old)
    (htables : entries data "tables" = .ok tables) :
    dictOf (member · "id") (member · "phys_name") tables = .ok old.phys ∧
      dictOf (member · "id") (flag · "managed" yes) tables = .ok old.managed ∧
      dictOf (member · "id") (getOr · "source_id" .null) tables = .ok old.source := by
  obtain ⟨items,hitems,hold⟩ := Outcome.bind_ok hold
  obtain rfl := Except.ok.inj (htables.symm.trans hitems)
  obtain ⟨fields,-,hold⟩ := Outcome.bind_ok hold
  obtain ⟨phys,hphys,hold⟩ := Outcome.bind_ok hold
  obtain ⟨field,-,hold⟩ := Outcome.bind_ok hold
  obtain ⟨managed,hmanaged,hold⟩ := Outcome.bind_ok hold
  obtain ⟨source,hsource,hold⟩ := Outcome.bind_ok hold
  obtain ⟨pk,-,hold⟩ := Outcome.bind_ok hold
  obtain ⟨keyFields,-,hold⟩ := Outcome.bind_ok hold
  obtain ⟨pkField,-,hold⟩ := Outcome.bind_ok hold
  rw [← Except.ok.inj hold]
  exact ⟨hphys,hmanaged,hsource⟩

theorem owned_of_made {data : Json} {old : ByOld} {tables : List Json} {s : State δ κ} (hold : byOld data = .ok old)
    (htables : entries data "tables" = .ok tables) (hmade : ∀ t ∈ tables, Made env t s) : Owned env old s := by
  intro table eng name hown
  obtain ⟨hphys,hmanaged,hsource⟩ := byOld_dicts hold htables
  obtain ⟨managed,hfind,hown⟩ := Outcome.bind_ok hown
  obtain ⟨k,hk,rfl⟩ := Outcome.map_ok (Outcome.mapError_ok hfind)
  split at hown
  · rename_i hmanaged'
    obtain ⟨source,hfind',hown⟩ := Outcome.bind_ok hown
    obtain ⟨k',hk',rfl⟩ := Outcome.map_ok (Outcome.mapError_ok hfind')
    obtain rfl := Except.ok.inj (hk.symm.trans hk')
    obtain ⟨eng',heng,hown⟩ := Outcome.bind_ok hown
    obtain ⟨value,hneed,hown⟩ := Outcome.bind_ok hown
    obtain ⟨rfl,rfl⟩ : eng' = eng ∧ textOf value = name := by simpa using Except.ok.inj hown
    obtain ⟨k',hk',hvalue⟩ := Outcome.map_ok (need_find (Outcome.mapError_ok hneed))
    obtain rfl := Except.ok.inj (hk.symm.trans hk')
    rw [dictOf_lookup hphys] at hvalue
    rw [dictOf_lookup hmanaged] at hmanaged'
    rw [dictOf_lookup hsource] at heng
    cases hlast : lastWith tables k with
    | none => simp [hlast] at hvalue
    | some t =>
      rw [hlast] at hvalue hmanaged' heng
      have hname : member t "phys_name" = .ok value := by
        cases hmember : member t "phys_name" <;> simp_all [Except.toOption]
      obtain ⟨source,hgiven⟩ := getOr_ok hname "source_id" .null
      obtain ⟨given,hflag⟩ := getOr_ok hname "managed" yes
      refine hmade t (mem_lastWith hlast) source eng' value ?_ hgiven ?_ hname
      · simpa [flag,hflag,Except.map,Except.toOption] using hmanaged'
      · simpa [hgiven,Except.toOption] using heng
  · cases Except.ok.inj hown

theorem leads_ownTable {b : State δ κ} (old : ByOld) (table : Json) :
    Leads (tidyCourse b) (Owned env old) (ownTable env old table)
      fun own s => ∀ eng name, own = some (eng,name) → (eng,name) ∈ s.created := by
  refine leads_same (fun _ => rfl) fun s _ howned own hown eng name heq => ?_
  rw [heq] at hown
  exact howned table eng name hown

end Owned

/-! ### Fields, relations and what comes after them -/

section Passes

variable {δ κ : Type} [DecidableEq δ] {env : Env δ κ} {b : State δ κ}

theorem owned_importField (old : ByOld) (f : Json) :
    Leads (tidyCourse b) (Owned env old) (importField env old f) fun _ => Owned env old := by
  refine Leads.still (owned_kept old) (leads_bind (leads_python _) fun type => ?_)
  split
  · exact (stays_pure ()).from
  · refine leads_bind ((quiet_addKept (by decide) _ f).keeps (owned_kept old)) fun row => ?_
    refine leads_bind (leads_python _) fun key => ?_
    split
    · exact (stays_pure ()).from
    · refine leads_bind (leads_python _) fun table => leads_bind (leads_ownTable old table) fun own => ?_
      split
      · rename_i eng name
        exact (leads_alterTable eng name _).weaken fun s h => h eng name rfl
      · exact (stays_pure ()).from

theorem owned_addLinkColumn (old : ByOld) (f : Json) (field : Row) :
    Leads (tidyCourse b) (Owned env old) (addLinkColumn env old f field) fun _ => Owned env old := by
  refine Leads.still (owned_kept old) (leads_bind (leads_python _) fun table => ?_)
  refine leads_bind (leads_ownTable old table) fun own => ?_
  split
  · rename_i eng name
    exact leads_bind (leads_python _) fun target => (leads_alterTable eng name _).weaken fun s h => h eng name rfl
  · exact (stays_pure ()).from

omit [DecidableEq δ] in
theorem quiet_addRelation (columns : Columns) (r : Json) :
    Stays (tidyCourse b) (do let row ← addRow env .relation columns r; finishRelation env r row.id) :=
  stays_bind (quiet_addRow (by decide) columns r) fun row => quiet_finishRelation r row.id

theorem owned_importRelation (old : ByOld) (r : Json) :
    Leads (tidyCourse b) (Owned env old) (importRelation env old r) fun _ => Owned env old := by
  refine Leads.still (owned_kept old) (leads_bind (leads_python _) fun kind => ?_)
  split
  · refine leads_bind (leads_python _) fun fieldId => leads_bind (leads_python _) fun spec => ?_
    split
    · exact (stays_pure ()).from
    · rename_i f _
      refine leads_bind ((quiet_addKept (by decide) _ f).keeps (owned_kept old)) fun field => ?_
      exact leads_bind (owned_addLinkColumn old f field) fun _ => (quiet_addRelation _ r).from
  · have hjunction : Stays (tidyCourse b) (importJunction env old r) :=
      stays_bind (stays_python _) fun left => stays_bind (stays_python _) fun right => stays_bind (stays_python _) fun source =>
        stays_bind (stays_engineOf _) fun eng => stays_bind (stays_createJunction _ _ _) fun _ => quiet_addRelation _ r
    exact hjunction.from

/-- The passes after the tables. -/
theorem owned_passes (additive : Bool) (data : Json) (old : ByOld) :
    Leads (tidyCourse b) (Owned env old)
      (do
        each data "fields" (importField env old)
        each data "relations" (importRelation env old)
        importRest env additive data old)
      fun _ _ => True :=
  leads_bind (leads_each (owned_importField old)) fun _ => leads_bind (leads_each (owned_importRelation old)) fun _ =>
    (takes_tidy.rest additive data old).from

/-- Some table of the file is stranded. -/
def Stranded (env : Env δ κ) (old : ByOld) (data : Json) (s : State δ κ) : Prop :=
  ∃ before t after, entries data "tables" = .ok (before++t::after) ∧
    ((do each data "data_sources" (importSource env); forM before (importTable env old)) s).result = .ok () ∧
    Strands env old t ((do each data "data_sources" (importSource env); forM before (importTable env old)) s).state

omit [DecidableEq δ] in
theorem unmoved_sources (data : Json) : Keeps Unmoved (each data "data_sources" (importSource env)) := by
  have hrow : ∀ d, Keeps Unmoved (addRow env .dataSource sourceColumns d) := fun d =>
    keeps_bind unmoved_trans unmoved_refl fun _ => unmoved_insert _ _
  have hkept : ∀ d, Keeps Unmoved (addKept env .dataSource sourceColumns d) := fun d =>
    keeps_bind unmoved_trans (hrow d) fun _ => keeps_bind unmoved_trans (unmoved_remember _ _ _) fun _ => unmoved_refl
  have hsource : ∀ d, Keeps Unmoved (importSource env d) := fun d => keeps_bind unmoved_trans (hkept d) fun _ => unmoved_refl
  exact keeps_bind unmoved_trans unmoved_refl fun items => keeps_forM unmoved_refl unmoved_trans fun d _ => hsource d

omit [DecidableEq δ] in
theorem tidy_fresh (s : State δ κ) : Tidy s.fresh s.fresh := ⟨fun _ _ => rfl,fun p hp => by cases hp⟩

/-- Where no table is stranded, the body leaves its list in order. -/
theorem body_tidy {additive : Bool} {data : Json} {old : ByOld} {s : State δ κ} (hold : byOld data = .ok old)
    (hstranded : ¬Stranded env old data s.fresh) : Tidy s.fresh (importBody env additive data old s.fresh).state := by
  have hsources : Tidy s.fresh (each data "data_sources" (importSource env) s.fresh).state :=
    (tidy_fresh s).unmoved (unmoved_sources data s.fresh)
  obtain ⟨tables,htables,-⟩ := Outcome.bind_ok hold
  cases hfirst : (each data "data_sources" (importSource env) s.fresh).result with
  | error failure =>
    rw [importBody,bind_of_error hfirst]
    exact hsources
  | ok _ =>
    have hstrands : ∀ before t after, tables = before++t::after →
        (forM before (importTable env old) (each data "data_sources" (importSource env) s.fresh).state).result = .ok () →
        ¬Strands env old t
          (forM before (importTable env old) (each data "data_sources" (importSource env) s.fresh).state).state := by
      rintro before t after rfl hbefore hstrands
      refine hstranded ⟨before,t,after,htables,?_,?_⟩
      · rw [bind_of_ok hfirst]
        exact hbefore
      · rw [bind_of_ok hfirst]
        exact hstrands
    obtain ⟨htidy,-,hmade⟩ := tables_tidy tables hsources hstrands
    have heach : each data "tables" (importTable env old) = forM tables (importTable env old) := by
      rw [each,htables]
      rfl
    rw [importBody,bind_of_ok hfirst,heach]
    cases hsecond : (forM tables (importTable env old) (each data "data_sources" (importSource env) s.fresh).state).result with
    | error failure =>
      rw [bind_of_error hsecond]
      exact htidy
    | ok _ =>
      rw [bind_of_ok hsecond]
      exact (owned_passes additive data old _ htidy (owned_of_made hold htables (hmade hsecond))).1

end Passes

/-! ### The import -/

section Import

variable {δ κ : Type} [DecidableEq δ] {env : Env δ κ}

theorem dropped_tables (created : List (δ × String)) (s : State δ κ) (d : δ) (n : String) :
    (created.foldl (fun s p => s.drop env p.1 [p.2]) s).tables d n =
      if (d,n) ∈ created ∧ env.drops d [n] n = true then none else s.tables d n := by
  induction created generalizing s with
  | nil => simp
  | cons p created ih =>
    obtain ⟨eng,name⟩ := p
    rw [List.foldl_cons,ih]
    by_cases hsame : d = eng ∧ n = name
    · obtain ⟨rfl,rfl⟩ := hsame
      simp only [State.drop,List.mem_cons,true_or,true_and]
      split_ifs <;> simp_all
    · have hne : (d,n) ≠ (eng,name) := fun heq => hsame (Prod.mk.inj heq)
      have hkeep : (s.drop env eng [name]).tables d n = s.tables d n :=
        if_neg fun h => hsame ⟨h.1,List.mem_singleton.mp h.2.1⟩
      simp only [List.mem_cons,hne,false_or,hkeep]

theorem dropped_db (created : List (δ × String)) (s : State δ κ) :
    (created.foldl (fun s p => s.drop env p.1 [p.2]) s).db = s.db := by
  induction created generalizing s with
  | nil => rfl
  | cons p created ih =>
    rw [List.foldl_cons,ih]
    rfl

/-- The clean-up takes away what is on the list, as far as the database drops it. -/
theorem Tidy.cleanUp {b s : State δ κ} (h : Tidy b s) (d : δ) (n : String) :
    (State.cleanUp env s b).tables d n = b.tables d n ∨ b.tables d n = none ∧ env.drops d [n] n = false := by
  rw [State.cleanUp,dropped_tables]
  by_cases hin : (d,n) ∈ s.created
  · have hnone : b.tables d n = none := h.listed _ hin
    cases hdrops : env.drops d [n] n with
    | false => exact Or.inr ⟨hnone,rfl⟩
    | true => exact Or.inl (by rw [if_pos ⟨hin,rfl⟩,hnone])
  · rw [if_neg fun hboth => hin hboth.1]
    exact Or.inl (h.others _ hin)

theorem orCleanUp_error {p : Import δ κ Unit} {s : State δ κ} {failure : Failure} (h : (p s).result = .error failure) :
    orCleanUp env p s = ⟨State.cleanUp env (p s).state s,[],.error failure⟩ := by
  simp only [orCleanUp,h]

theorem orCleanUp_fails {p : Import δ κ Unit} {s : State δ κ} {failure : Failure}
    (h : (orCleanUp env p s).result = .error failure) : (p s).result = .error failure := by
  rw [orCleanUp] at h
  split at h
  · assumption
  · rename_i hp
    rw [hp]
    exact h

/-- The old model has been wiped: its tables are gone, and its rows where the database let them go. -/
def Wiped (env : Env δ κ) (s room : State δ κ) : Prop :=
  ∃ dropped, wipedTables env s = .ok dropped ∧ room.tables = (s.dropAll env dropped).tables ∧
    (room.db = s.db ∨ room.db = wipedDb s.db)

theorem dropAll_db (s : State δ κ) (dropped : List (δ × String)) : (s.dropAll env dropped).db = s.db := by
  have hfold : ∀ (ps : List (δ × String)) (t : State δ κ),
      (ps.foldl (fun s p => s.drop env p.1 ((dropped.filter fun q => q.1 = p.1).map Prod.snd)) t).db = t.db := by
    intro ps
    induction ps with
    | nil => exact fun _ => rfl
    | cons p ps ih => exact fun t => ih _
  exact hfold _ s

theorem makeRoom_room (replace additive : Bool) (data : Json) (s : State δ κ) :
    (makeRoom env replace additive data s).state = s ∨
      replace = true ∧ additive = false ∧ s.db .table ≠ [] ∧ Wiped env s (makeRoom env replace additive data s).state := by
  rw [makeRoom,withState_apply]
  split_ifs with hempty hadditive hreplace
  · exact Or.inl rfl
  · exact Or.inl rfl
  · cases hwiped : wipedTables env s with
    | error failure =>
      left
      simp only [wipeModel,hwiped]
    | ok dropped =>
      refine Or.inr ⟨hreplace,by simpa using hadditive,fun hnil => hempty (by simp [hnil]),dropped,hwiped,?_⟩
      cases hclears : env.clears s.db with
      | some failure =>
        simp [wipeModel,hwiped,hclears,dropAll_db]
      | none =>
        simp [wipeModel,hwiped,hclears]
  · exact Or.inl rfl

theorem prepareImport_room (replace additive : Bool) (data : Json) (s : State δ κ) :
    (prepareImport env replace additive data s).state = s ∨ replace = true ∧ additive = false ∧ s.db .table ≠ [] ∧
      Wiped env s (prepareImport env replace additive data s).state := by
  cases hcheck : (lift (checkFile env data) s : Commits.Ending (State δ κ) Empty Failure Unit).result with
  | error failure =>
    rw [prepareImport,bind_of_error hcheck]
    exact Or.inl rfl
  | ok _ =>
    have hrest : (prepareImport env replace additive data s).state = (makeRoom env replace additive data s).state := by
      rw [prepareImport,bind_of_ok hcheck]
      cases hroom : (makeRoom env replace additive data s).result with
      | error failure => exact congrArg Commits.Ending.state (bind_of_error hroom _)
      | ok _ => exact congrArg Commits.Ending.state (bind_of_ok hroom _)
    rw [hrest]
    exact makeRoom_room replace additive data s

/-- An import that raises leaves the rows and the tables as its body found them, where it has stranded no table and but for new
ones that the database does not drop. Its body finds them as they were, unless the old model has been wiped for it. -/
theorem import_undone (env : Env δ κ) (replace additive : Bool) (data : Json) (s : State δ κ) {failure : Failure}
    (h : (importSchema env replace additive data s).result = .error failure)
    (hstranded : ∀ old, (prepareImport env replace additive data s).result = .ok old →
      ¬Stranded env old data (prepareImport env replace additive data s).state.fresh) :
    ∃ room : State δ κ, (room = s ∨ replace = true ∧ additive = false ∧ s.db .table ≠ [] ∧ Wiped env s room) ∧
      (importSchema env replace additive data s).state.db = room.db ∧
      ∀ d n, (importSchema env replace additive data s).state.tables d n = room.tables d n ∨
        room.tables d n = none ∧ env.drops d [n] n = false := by
  refine ⟨(prepareImport env replace additive data s).state,prepareImport_room replace additive data s,?_⟩
  cases hprepare : (prepareImport env replace additive data s).result with
  | error failure' =>
    rw [importSchema,bind_of_error hprepare]
    exact ⟨rfl,fun _ _ => Or.inl rfl⟩
  | ok old =>
    obtain ⟨-,hold,-⟩ := prepareImport_ok hprepare
    rw [importSchema,bind_of_ok hprepare] at h ⊢
    cases hbody : (orCleanUp env (fun t => importBody env additive data old t.fresh)
        (prepareImport env replace additive data s).state).result with
    | ok _ =>
      rw [bind_of_ok hbody] at h
      cases h
    | error failure' =>
      rw [bind_of_error hbody]
      rw [orCleanUp_error (orCleanUp_fails hbody)]
      have htidy : Tidy _ (importBody env additive data old (prepareImport env replace additive data s).state.fresh).state :=
        body_tidy hold (hstranded old hprepare)
      refine ⟨?_,fun d n => htidy.cleanUp d n⟩
      rw [State.cleanUp,dropped_db]

end Import

/-! ### Imports that stop -/

section Example

/-- An entry of the file has no id. -/
def keylessFile : Json := .obj [("version",.int 1),("tables",.arr [.obj [("phys_name",.str "ticket")]])]

/-- A replace import that stops at the file leaves nothing of the old model. -/
theorem model_lost :
    (importSchema homeEnv true false keylessFile homeState).result = .error (.python .keyError) ∧
      homeState.db .table ≠ [] ∧ (importSchema homeEnv true false keylessFile homeState).state.db .table = [] ∧
      homeState.tables () "customer" = some ["id"] ∧
      (importSchema homeEnv true false keylessFile homeState).state.tables () "customer" = none :=
  ⟨rfl,by simp [homeState],rfl,rfl,rfl⟩

/-- A form of a table that the file does not have. -/
def brokenFile : Json :=
  .obj [("version",.int 1),("tables",.arr [moduleTable]),
    ("forms",.arr [.obj [("id",.int 3),("table_id",.int 9),("name",.str "ticket"),("title",.str "Ticket")]])]

theorem broken_refused : (importSchema homeEnv false true brokenFile homeState).result = .error (.python .keyError) := rfl

/-- The one table of the file asks for no column of `ensure_record_columns`. -/
theorem broken_stranded (old : ByOld) (s : State Unit (List String)) : ¬Stranded homeEnv old brokenFile s := by
  rintro ⟨before,t,after,htables,-,eng,name,layout,-,-,failure,hraises⟩
  obtain ⟨-,rfl⟩ : before = [] ∧ t = moduleTable := by
    have hentries : [moduleTable] = before++t::after := Except.ok.inj htables
    cases before with
    | nil => exact ⟨rfl,(List.cons.inj hentries).1.symm⟩
    | cons first rest => cases rest <;> simp at hentries
  cases hraises

theorem broken_undone :
    ∃ room : State Unit (List String),
      (room = homeState ∨ false = true ∧ true = false ∧ homeState.db .table ≠ [] ∧ Wiped homeEnv homeState room) ∧
      (importSchema homeEnv false true brokenFile homeState).state.db = room.db ∧
      ∀ d n, (importSchema homeEnv false true brokenFile homeState).state.tables d n = room.tables d n ∨
        room.tables d n = none ∧ homeEnv.drops d [n] n = false :=
  import_undone homeEnv false true brokenFile homeState broken_refused fun old _ => broken_stranded old _

end Example

end SchemaImport
end Biggy
