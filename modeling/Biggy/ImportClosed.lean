import Biggy.SchemaImport

/-!
# Where the rows of an import point

Every id in a row that an import makes goes through its maps, so it is the id of another row of the same import. The rows that
were there before stay as they are.
-/
namespace Biggy
namespace SchemaImport

open PyDict Commits Prog Courses

/-! ### What a column refers to -/

/-- The columns that hold an id, with the kind of row it belongs to. -/
def references : Entity → List (String × Entity)
  | .table => [("display_field_id",.field),("source_id",.dataSource)]
  | .field => [("table_id",.table),("related_table_id",.table)]
  | .relation => [("from_table_id",.table),("to_table_id",.table),("from_field_id",.field)]
  | .form => [("table_id",.table)]
  | .formField =>
    [("form_id",.form),("field_id",.field),("relation_id",.relation),("parent_field_id",.field),("filter_field_id",.field)]
  | .dashboardWidget => [("dashboard_id",.dashboard),("table_id",.table)]
  | .menu =>
    [("parent_id",.menu),("target_form_id",.form),("target_table_id",.table),("target_dashboard_id",.dashboard)]
  | .permission => [("form_id",.form)]
  | .workflow => [("table_id",.table),("field_id",.field)]
  | .triggerRule =>
    [("table_id",.table),("field_id",.field),("cond_field_id",.field),("set_field_id",.field),("create_table_id",.table)]
  | .slaPolicy =>
    [("table_id",.table),("status_field_id",.field),("cond_field_id",.field),("state_field_id",.field),("due_field_id",.field),
      ("breach_set_field_id",.field)]
  | .approvalStep => [("workflow_id",.workflow)]
  | .fieldPermission => [("field_id",.field)]
  | .compositeUnique => [("table_id",.table)]
  | .feed => [("source_table_id",.table),("connection_id",.connection),("field_id",.field),("cond_field_id",.field)]
  | .webhook => [("target_table_id",.table)]
  | .pullSource => [("target_table_id",.table),("connection_id",.connection)]
  | .sequence => [("field_id",.field)]
  | _ => []

/-- The columns that hold a JSON list of ids of fields. -/
def idLists : Entity → List String
  | .relation => ["to_display_field_ids","from_display_field_ids"]
  | .compositeUnique => ["field_ids"]
  | _ => []

/-- The row is one of those that have come to the ones before. -/
def Known (base db : Db) (e : Entity) (id : ℕ) : Prop := (∃ row ∈ db e, row.id = id) ∧ ∀ row ∈ base e, row.id ≠ id

def RefersInto (base db : Db) (target : Entity) (value : Json) : Prop :=
  value = .null ∨ ∃ id : ℕ, value = .int id ∧ Known base db target id

def ListsInto (base db : Db) (value : Json) : Prop :=
  value = .null ∨ ∃ ids, value = .str (dumps ids) ∧ ∀ id ∈ ids, Known base db .field id

/-- The column of such a row may have the value. -/
structure Fits (base db : Db) (e : Entity) (column : String) (value : Json) : Prop where
  refers : ∀ target, (column,target) ∈ references e → RefersInto base db target value
  lists : column ∈ idLists e → ListsInto base db value

def Closed (base db : Db) (e : Entity) (row : Row) : Prop := ∀ column, Fits base db e column (row.get column)

/-- The rows before stand first as they were, and the others and the maps refer to others only. -/
structure Inv {δ κ : Type} (base : Db) (s : State δ κ) : Prop where
  grown : ∀ e, ∃ made, s.db e = base e++made ∧ ∀ row ∈ made, (∀ b ∈ base e, b.id ≠ row.id) ∧ Closed base s.db e row
  maps : ∀ e, ∀ p ∈ s.maps e, Known base s.db e p.2

def Grows (base : Db) (db db' : Db) : Prop := ∀ e id, Known base db e id → Known base db' e id

section Closure

variable {base db db' : Db} {e : Entity}

theorem RefersInto.mono (h : Grows base db db') {target : Entity} {value : Json} (hv : RefersInto base db target value) :
    RefersInto base db' target value := by
  rcases hv with hnull | ⟨id,hid,hknown⟩
  · exact Or.inl hnull
  · exact Or.inr ⟨id,hid,h _ _ hknown⟩

theorem ListsInto.mono (h : Grows base db db') {value : Json} (hv : ListsInto base db value) : ListsInto base db' value := by
  rcases hv with hnull | ⟨ids,hids,hknown⟩
  · exact Or.inl hnull
  · exact Or.inr ⟨ids,hids,fun id hid => h _ _ (hknown id hid)⟩

theorem Fits.mono (h : Grows base db db') {column : String} {value : Json} (hv : Fits base db e column value) :
    Fits base db' e column value :=
  ⟨fun target ht => (hv.refers target ht).mono h,fun hc => (hv.lists hc).mono h⟩

theorem fits_null (column : String) : Fits base db e column .null := ⟨fun _ _ => Or.inl rfl,fun _ => Or.inl rfl⟩

theorem Closed.mono (h : Grows base db db') {row : Row} (hrow : Closed base db e row) : Closed base db' e row :=
  fun column => (hrow column).mono h

theorem get_set (row : Row) (column other : String) (value : Json) :
    (row.set column value).get other = if other = column then value else row.get other := by
  simp only [Row.get,Row.set,Json.get]
  split_ifs with hsame
  · rw [hsame,Keyed.lookup_put_self]
    rfl
  · rw [Keyed.lookup_put_other hsame]

theorem Closed.set {row : Row} (h : Closed base db e row) {column : String} {value : Json}
    (hv : Fits base db e column value) : Closed base db e (row.set column value) := by
  intro other
  rw [get_set]
  split_ifs with hsame
  · rw [hsame]
    exact hv
  · exact h other

end Closure

/-! ### Where the values come from -/

/-- The source gives ids of such rows. -/
def Source.leadsTo (target : Entity) : Source → Bool
  | .link map _ | .linkIf map _ | .linkItem map _ | .row map _ => map = target
  | _ => false

def Source.isList : Source → Bool
  | .list _ => true
  | _ => false

/-- Every column that refers to other rows has its value from the map of their kind. -/
def linked (e : Entity) (columns : Columns) : Bool :=
  columns.all fun c => ((references e).all fun p => c.1 ≠ p.1 || c.2.leadsTo p.2) &&
    ((idLists e).all fun name => c.1 ≠ name || c.2.isList)

/-- The ids that the source holds itself are those of such rows. -/
def Source.Holds (base db : Db) : Source → Prop
  | .row map id => Known base db map id
  | .list ids => ∀ id ∈ ids, Known base db .field id
  | _ => True

def Grounded (base db : Db) (columns : Columns) : Prop := ∀ c ∈ columns, c.2.Holds base db

/-- No source holds an id itself. -/
def plain (columns : Columns) : Bool :=
  columns.all fun c => match c.2 with
    | .row _ _ | .list _ => false
    | _ => true

section Values

variable {base db : Db} {maps : Maps} {entry : Json}

theorem grounded_plain {columns : Columns} (h : plain columns = true) : Grounded base db columns := by
  intro c hc
  have hplain := List.all_eq_true.mp h c hc
  cases hsource : c.2 <;> simp_all [Source.Holds]

theorem refers_find {map : Entity} (hmaps : ∀ e, ∀ p ∈ maps e, Known base db e p.2) {old value : Json}
    (h : (find (maps map) old).map idJson = .ok value) : RefersInto base db map value := by
  obtain ⟨found,hfound,rfl⟩ := Outcome.map_ok h
  cases found with
  | none => exact Or.inl rfl
  | some id =>
    obtain ⟨k,hk⟩ := find_mem hfound
    exact Or.inr ⟨id,rfl,hmaps map _ hk⟩

theorem source_refers (hmaps : ∀ e, ∀ p ∈ maps e, Known base db e p.2) {source : Source} {target : Entity} {value : Json}
    (hleads : source.leadsTo target = true) (hholds : source.Holds base db) (h : source.value maps entry = .ok value) :
    RefersInto base db target value := by
  cases source with
  | link map key =>
    obtain rfl : map = target := of_decide_eq_true hleads
    obtain ⟨old,-,hfind⟩ := Outcome.bind_ok h
    exact refers_find hmaps hfind
  | linkIf map key =>
    obtain rfl : map = target := of_decide_eq_true hleads
    obtain ⟨old,-,hfind⟩ := Outcome.bind_ok h
    split_ifs at hfind
    · exact refers_find hmaps hfind
    · exact Or.inl (Except.ok.inj hfind).symm
  | linkItem map key =>
    obtain rfl : map = target := of_decide_eq_true hleads
    obtain ⟨old,-,hneed⟩ := Outcome.bind_ok h
    obtain ⟨id,hid,rfl⟩ := Outcome.map_ok hneed
    obtain ⟨k,hk⟩ := need_mem hid
    exact Or.inr ⟨id,rfl,hmaps map _ hk⟩
  | row map id =>
    obtain rfl : map = target := of_decide_eq_true hleads
    exact Or.inr ⟨id,(Except.ok.inj h).symm,hholds⟩
  | _ => cases hleads

theorem source_lists {source : Source} {value : Json} (hlist : source.isList = true) (hholds : source.Holds base db)
    (h : source.value maps entry = .ok value) : ListsInto base db value := by
  cases source with
  | list ids => exact Or.inr ⟨ids,(Except.ok.inj h).symm,hholds⟩
  | _ => cases hlist

/-- A row whose columns come from the maps is closed. -/
theorem values_closed {e : Entity} {columns : Columns} (hmaps : ∀ e, ∀ p ∈ maps e, Known base db e p.2)
    (hlinked : linked e columns = true) (hground : Grounded base db columns) {values : List (String × Json)}
    (h : columnValues maps entry columns = .ok values) (id : ℕ) : Closed base db e ⟨id,values⟩ := by
  intro column
  cases hlookup : values.lookup column with
  | none =>
    have hget : Row.get ⟨id,values⟩ column = .null := by simp [Row.get,Json.get,hlookup]
    rw [hget]
    exact fits_null column
  | some value =>
    have hget : Row.get ⟨id,values⟩ column = value := by simp [Row.get,Json.get,hlookup]
    rw [hget]
    obtain ⟨before,after,hvalues,-⟩ := List.lookup_eq_some_iff.mp hlookup
    have hmem : (column,value) ∈ values := by
      rw [hvalues]
      exact List.mem_append_right _ List.mem_cons_self
    obtain ⟨c,hc,hvalue⟩ := Outcome.mapM_from h hmem
    obtain ⟨found,hfound,hpair⟩ := Outcome.map_ok hvalue
    obtain ⟨rfl,rfl⟩ := Prod.mk.inj hpair
    have hboth := List.all_eq_true.mp hlinked c hc
    rw [Bool.and_eq_true,List.all_eq_true,List.all_eq_true] at hboth
    constructor
    · intro target htarget
      have hleads := hboth.1 _ htarget
      simp only [ne_eq,not_true,decide_false,Bool.false_or] at hleads
      exact source_refers hmaps hleads (hground c hc) hfound
    · intro hlist
      have hislist := hboth.2 _ hlist
      simp only [ne_eq,not_true,decide_false,Bool.false_or] at hislist
      exact source_lists hislist (hground c hc) hfound

end Values

/-! ### What the passes need of a course -/

/-- The course keeps to what the passes after the data sources do with rows. -/
structure Takes {δ κ : Type} (env : Env δ κ) (C : Course (State δ κ)) : Prop where
  row : ∀ {e : Entity} {columns : Columns}, e ≠ .dataSource → linked e columns = true → plain columns = true →
    ∀ entry, Stays C (addRow env e columns entry)
  kept : ∀ {e : Entity} {columns : Columns}, e ≠ .dataSource → linked e columns = true → plain columns = true →
    ∀ entry, Stays C (addKept env e columns entry)
  display : ∀ t, Stays C (importDisplay t)
  parent : ∀ m, Stays C (importParent m)
  workflow : ∀ w, Stays C (importWorkflow env w)
  unique : ∀ old cu, Stays C (importUnique env old cu)

section Takes

variable {δ κ : Type} {env : Env δ κ} {C : Course (State δ κ)} {e : Entity} {columns : Columns}

theorem Takes.keep (h : Takes env C) (he : e ≠ .dataSource) (hlinked : linked e columns = true) (hplain : plain columns = true)
    (entry : Json) : Stays C (do let _ ← addKept env e columns entry; pure ()) :=
  stays_bind (h.kept he hlinked hplain entry) fun _ => stays_pure ()

theorem Takes.given (h : Takes env C) {guards : List Source} (he : e ≠ .dataSource) (hlinked : linked e columns = true)
    (hplain : plain columns = true) (entry : Json) : Stays C (addGiven env guards e columns entry) := by
  refine stays_bind (stays_reads _) fun given => ?_
  split
  · exact stays_bind (h.row he hlinked hplain entry) fun _ => stays_pure ()
  · exact stays_pure ()

theorem Takes.prepareTable (h : Takes env C) (old : ByOld) (t : Json) : Stays C (prepareTable env old t) := by
  refine stays_bind (stays_python _) fun managed => stays_bind (h.kept (by decide) rfl rfl t) fun row => ?_
  split
  · exact stays_bind (stays_python _) fun source => stays_bind (stays_engineOf source) fun eng =>
      stays_bind (stays_tableLayout old t) fun layout => stays_bind (stays_python _) fun name => stays_pure _
  · exact stays_pure _

theorem Takes.formField (h : Takes env C) (item : Json) : Stays C (importFormField env item) := by
  refine stays_bind (stays_reads _) fun form => ?_
  split
  · exact stays_pure ()
  · refine stays_bind (stays_reads _) fun field => stays_bind (stays_reads _) fun relation => ?_
    refine stays_bind (stays_python _) fun kind => ?_
    split
    · exact stays_pure ()
    · split
      · exact stays_pure ()
      · exact stays_bind (h.row (by decide) rfl rfl item) fun _ => stays_pure ()

theorem Takes.role (h : Takes env C) (r : Json) : Stays C (importRole env r) := by
  refine stays_bind (stays_python _) fun name => ?_
  split
  · refine stays_bind (stays_python _) fun key => stays_withState fun s => ?_
    split
    · exact stays_pure ()
    · exact stays_bind (h.row (by decide) rfl rfl r) fun _ => stays_pure ()
  · exact stays_pure ()

theorem Takes.webhook (h : Takes env C) (w : Json) : Stays C (importWebhook env w) :=
  stays_withState fun _ => h.given (by decide) rfl rfl w

/-- Such a course keeps to all that comes after the relations. -/
theorem Takes.rest (h : Takes env C) (additive : Bool) (data : Json) (old : ByOld) :
    Stays C (importRest env additive data old) := by
  refine stays_bind (stays_each h.display) fun _ => ?_
  refine stays_bind (stays_each fun f => h.keep (by decide) rfl rfl f) fun _ => ?_
  refine stays_bind (stays_each h.formField) fun _ => ?_
  refine stays_bind (stays_each fun d => h.keep (by decide) rfl rfl d) fun _ => ?_
  refine stays_bind (stays_each fun w => h.given (by decide) rfl rfl w) fun _ => ?_
  refine stays_bind (stays_menuOffset additive data) fun offset => ?_
  refine stays_bind (stays_each fun m => h.keep (by decide) rfl rfl m) fun _ => ?_
  refine stays_bind (stays_each h.parent) fun _ => ?_
  refine stays_bind (stays_each fun p => h.given (by decide) rfl rfl p) fun _ => ?_
  refine stays_bind (stays_each h.workflow) fun _ => ?_
  refine stays_bind (stays_each fun t => h.given (by decide) rfl rfl t) fun _ => ?_
  refine stays_bind (stays_each fun p => h.given (by decide) rfl rfl p) fun _ => ?_
  refine stays_bind (stays_each fun a => h.given (by decide) rfl rfl a) fun _ => ?_
  refine stays_bind (stays_each h.role) fun _ => ?_
  refine stays_bind (stays_each fun p => h.given (by decide) rfl rfl p) fun _ => ?_
  refine stays_bind (stays_each fun u => h.unique old u) fun _ => ?_
  refine stays_bind (stays_each fun c => h.keep (by decide) rfl rfl c) fun _ => ?_
  refine stays_bind (stays_each fun f => h.given (by decide) rfl rfl f) fun _ => ?_
  refine stays_bind (stays_each h.webhook) fun _ => ?_
  refine stays_bind (stays_each fun p => h.given (by decide) rfl rfl p) fun _ => ?_
  refine stays_bind (stays_each fun q => h.given (by decide) rfl rfl q) fun _ => stays_withState fun s => ?_
  split
  · exact stays_raise _
  · exact stays_pure ()

end Takes

/-! ### One step -/

section Steps

variable {δ κ : Type} {base : Db} {s t : State δ κ}

theorem Inv.same (h : Inv base s) (hdb : t.db = s.db) (hmaps : t.maps = s.maps) : Inv base t := by
  constructor
  · rw [hdb]
    exact h.grown
  · rw [hdb,hmaps]
    exact h.maps

theorem grows_refl (base db : Db) : Grows base db db := fun _ _ h => h

theorem Grows.trans {db₁ db₂ db₃ : Db} (h : Grows base db₁ db₂) (h' : Grows base db₂ db₃) : Grows base db₁ db₃ :=
  fun e id hid => h' e id (h e id hid)

theorem grows_insert (db : Db) (e : Entity) (row : Row) : Grows base db (Function.update db e (db e++[row])) := by
  rintro e' id ⟨⟨found,hfound,rfl⟩,hbase⟩
  refine ⟨⟨found,?_,rfl⟩,hbase⟩
  by_cases he : e' = e
  · subst he
    rw [Function.update_self]
    exact List.mem_append_left _ hfound
  · rwa [Function.update_of_ne he]

theorem Inv.insert (h : Inv base s) {e : Entity} {row : Row} (hnew : ∀ old ∈ s.db e, old.id ≠ row.id)
    (hrow : Closed base s.db e row) : Inv base { s with db := Function.update s.db e (s.db e++[row]) } := by
  have hgrows : Grows base s.db (Function.update s.db e (s.db e++[row])) := grows_insert s.db e row
  constructor
  · intro e'
    obtain ⟨made,hmade,hclosed⟩ := h.grown e'
    by_cases he : e' = e
    · subst he
      refine ⟨made++[row],?_,fun r hr => ?_⟩
      · simp only [Function.update_self]
        rw [hmade,List.append_assoc]
      · rcases List.mem_append.mp hr with hold | hlast
        · exact ⟨(hclosed r hold).1,(hclosed r hold).2.mono hgrows⟩
        · rw [List.mem_singleton.mp hlast]
          refine ⟨fun b hb => hnew b ?_,hrow.mono hgrows⟩
          rw [hmade]
          exact List.mem_append_left _ hb
    · refine ⟨made,?_,fun r hr => ⟨(hclosed r hr).1,(hclosed r hr).2.mono hgrows⟩⟩
      simp only [Function.update_of_ne he]
      exact hmade
  · exact fun e' p hp => hgrows e' p.2 (h.maps e' p hp)

theorem known_insert (h : Inv base s) {e : Entity} {row : Row} (hnew : ∀ old ∈ s.db e, old.id ≠ row.id) :
    Known base (Function.update s.db e (s.db e++[row])) e row.id := by
  obtain ⟨made,hmade,-⟩ := h.grown e
  refine ⟨⟨row,?_,rfl⟩,fun b hb => hnew b ?_⟩
  · rw [Function.update_self]
    exact List.mem_append_right _ List.mem_cons_self
  · rw [hmade]
    exact List.mem_append_left _ hb

/-- The rows of one kind with a column set in the row of an id. -/
def withColumn (db : Db) (e : Entity) (id : ℕ) (column : String) (value : Json) : Db :=
  Function.update db e ((db e).map fun row => if row.id = id then row.set column value else row)

theorem grows_withColumn (db : Db) (e : Entity) (id : ℕ) (column : String) (value : Json) :
    Grows base db (withColumn db e id column value) := by
  rintro e' id' ⟨⟨found,hfound,rfl⟩,hbase⟩
  by_cases he : e' = e
  · subst he
    refine ⟨⟨if found.id = id then found.set column value else found,?_,?_⟩,hbase⟩
    · rw [withColumn,Function.update_self]
      exact List.mem_map_of_mem hfound
    · split_ifs <;> rfl
  · refine ⟨⟨found,?_,rfl⟩,hbase⟩
    rwa [withColumn,Function.update_of_ne he]

theorem Inv.withColumn (h : Inv base s) {e : Entity} {id : ℕ} {column : String} {value : Json} (hid : Known base s.db e id)
    (hvalue : Fits base s.db e column value) : Inv base { s with db := withColumn s.db e id column value } := by
  have hgrows : Grows base s.db (SchemaImport.withColumn s.db e id column value) := grows_withColumn _ _ _ _ _
  constructor
  · intro e'
    obtain ⟨made,hmade,hclosed⟩ := h.grown e'
    by_cases he : e' = e
    · subst he
      have hbase : (base e').map (fun row => if row.id = id then row.set column value else row) = base e' := by
        conv_rhs => rw [← List.map_id (base e')]
        exact List.map_congr_left fun b hb => if_neg (hid.2 b hb)
      refine ⟨made.map fun row => if row.id = id then row.set column value else row,?_,fun r hr => ?_⟩
      · simp only [SchemaImport.withColumn,Function.update_self]
        rw [hmade,List.map_append,hbase]
      · obtain ⟨old,hold,rfl⟩ := List.mem_map.mp hr
        obtain ⟨hfresh,hrow⟩ := hclosed old hold
        split_ifs
        · exact ⟨hfresh,(hrow.set hvalue).mono hgrows⟩
        · exact ⟨hfresh,hrow.mono hgrows⟩
    · refine ⟨made,?_,fun r hr => ⟨(hclosed r hr).1,(hclosed r hr).2.mono hgrows⟩⟩
      simp only [SchemaImport.withColumn,Function.update_of_ne he]
      exact hmade
  · exact fun e' p hp => hgrows e' p.2 (h.maps e' p hp)

theorem Inv.withMap (h : Inv base s) {e : Entity} {map : List (Key × ℕ)} (hmap : ∀ p ∈ map, Known base s.db e p.2) :
    Inv base { s with maps := Function.update s.maps e map } := by
  refine ⟨h.grown,fun e' p hp => ?_⟩
  by_cases he : e' = e
  · subst he
    simp only [Function.update_self] at hp
    exact hmap p hp
  · simp only [Function.update_of_ne he] at hp
    exact h.maps e' p hp

end Steps

/-! ### Programs -/

/-- The invariant is kept, and so are the known rows. -/
def course {δ κ : Type} (base : Db) : Course (State δ κ) where
  inv := Inv base
  step s t := Grows base s.db t.db
  refl s := grows_refl base s.db
  trans _ _ _ := Grows.trans

section Rules

variable {δ κ α : Type} {base : Db}

theorem known_kept (e : Entity) (id : ℕ) (s t : State δ κ) (h : (course base).step s t) (hid : Known base s.db e id) :
    Known base t.db e id := h e id hid

/-- What neither the rows nor the maps change by. -/
theorem stays_unchanged {p : Import δ κ α} (hdb : ∀ s, (p s).state.db = s.db) (hmaps : ∀ s, (p s).state.maps = s.maps) :
    Stays (course base) p := by
  intro s hs _
  refine ⟨hs.same (hdb s) (hmaps s),?_,fun _ _ => trivial⟩
  change Grows base s.db (p s).state.db
  rw [hdb s]
  exact grows_refl _ _

end Rules

/-! ### The passes -/

section Passes

variable {δ κ : Type} {env : Env δ κ} {base : Db}

theorem sound_insert {e : Entity} {values : List (String × Json)} :
    Leads (course base) (fun s => ∀ id, Closed base s.db e ⟨id,values⟩) (insert env e values)
      fun row s => Known base s.db e row.id := by
  intro s hs hclosed
  rw [insert]
  split
  · exact ⟨hs,grows_refl _ _,fun a ha => by cases ha⟩
  · have hfresh : ∀ old ∈ s.db e, old.id ≠ env.nextId s.db e := env.nextId_fresh s.db e
    refine ⟨hs.insert hfresh (hclosed _),grows_insert _ _ _,fun row hrow => ?_⟩
    obtain rfl := Except.ok.inj hrow
    exact known_insert hs hfresh

theorem sound_addRow {e : Entity} {columns : Columns} (hlinked : linked e columns = true) (entry : Json) :
    Leads (course base) (fun s => Grounded base s.db columns) (addRow env e columns entry)
      fun row s => Known base s.db e row.id :=
  leads_bind (leads_reads fun _ hs hground _ hvalues id => values_closed hs.maps hlinked hground hvalues id) fun _ => sound_insert

theorem sound_remember (e : Entity) (entry : Json) (id : ℕ) :
    Leads (course base) (fun s => Known base s.db e id) (remember e entry id : Import δ κ Unit)
      fun _ s => Known base s.db e id := by
  intro s hs hid
  rw [remember]
  split
  · rename_i map hmap
    obtain ⟨old,-,hassign⟩ := Outcome.bind_ok hmap
    refine ⟨hs.withMap fun p hp => ?_,grows_refl _ _,fun _ _ => hid⟩
    rcases mem_assign hassign hp with hnew | hold
    · rw [hnew]
      exact hid
    · exact hs.maps e p hold
  · exact ⟨hs,grows_refl _ _,fun _ _ => hid⟩

/-- A new row is known, also after its id is kept. -/
theorem sound_addKept {e : Entity} {columns : Columns} (hlinked : linked e columns = true) (hplain : plain columns = true)
    (entry : Json) :
    Leads (course base) (fun _ => True) (addKept env e columns entry) fun row s => Known base s.db e row.id := by
  have hadd : Leads (course base) (fun _ => True) (addRow env e columns entry) fun row s => Known base s.db e row.id :=
    fun s hs _ => sound_addRow hlinked entry s hs (grounded_plain hplain)
  exact leads_bind hadd fun row => leads_bind (sound_remember e entry row.id) fun _ => leads_pure fun _ hid => hid

theorem safe_addRow {e : Entity} {columns : Columns} (hlinked : linked e columns = true) (hplain : plain columns = true)
    (entry : Json) : Stays (course base) (addRow env e columns entry) :=
  (sound_addRow hlinked entry).weaken fun _ _ => grounded_plain hplain

theorem safe_addKept {e : Entity} {columns : Columns} (hlinked : linked e columns = true) (hplain : plain columns = true)
    (entry : Json) : Stays (course base) (addKept env e columns entry) :=
  (sound_addKept hlinked hplain entry).weaken fun _ h => h

theorem sound_setColumn (e : Entity) (id : ℕ) (column : String) (value : Json) :
    Leads (course base) (fun s => Known base s.db e id ∧ Fits base s.db e column value)
      (setColumn e id column value : Import δ κ Unit) fun _ _ => True :=
  fun _ hs hP => ⟨hs.withColumn hP.1 hP.2,grows_withColumn _ _ _ _ _,fun _ _ => trivial⟩

theorem safe_keepCreated (eng : δ) (name : String) : Stays (course base) (keepCreated eng name : Import δ κ Unit) :=
  stays_unchanged (fun _ => rfl) fun _ => rfl

/-! #### Relations and what is set later -/

theorem remapIds_mem {fields : List (Key × ℕ)} {value : Json} {ids : List ℕ} (h : remapIds env fields value = .ok (some ids))
    {id : ℕ} (hid : id ∈ ids) : ∃ k, (k,id) ∈ fields := by
  rw [remapIds] at h
  split_ifs at h
  · obtain ⟨listed,-,hlisted⟩ := Outcome.bind_ok h
    cases listed with
    | none => cases Except.ok.inj hlisted
    | some listed =>
      obtain ⟨items,-,hitems⟩ := Outcome.bind_ok hlisted
      obtain ⟨found,hfound,hsome⟩ := Outcome.map_ok hitems
      split_ifs at hsome
      obtain rfl := Option.some.inj hsome
      obtain ⟨old,-,hold⟩ := Outcome.mapM_from hfound (List.reduceOption_mem_iff.mp hid)
      exact find_mem hold
  · cases Except.ok.inj h

theorem fits_list {e : Entity} {column : String} (hcolumn : (references e).all fun p => p.1 ≠ column) {db : Db}
    {ids : Option (List ℕ)} (hids : ∀ list, ids = some list → ∀ id ∈ list, Known base db .field id) :
    Fits base db e column (ids.elim .null fun list => .str (dumps list)) := by
  constructor
  · intro target htarget
    have hne := List.all_eq_true.mp hcolumn _ htarget
    simp at hne
  · intro _
    cases ids with
    | none => exact Or.inl rfl
    | some list => exact Or.inr ⟨list,rfl,hids list rfl⟩

theorem fits_ref {e target : Entity} {column : String} (hcolumn : (references e).all fun p => p.1 ≠ column || p.2 = target)
    (hlists : column ∉ idLists e) {db : Db} {id : ℕ} (hid : Known base db target id) : Fits base db e column (.int id) := by
  constructor
  · intro target' htarget
    have heq := List.all_eq_true.mp hcolumn _ htarget
    simp only [ne_eq,not_true,decide_false,Bool.false_or,decide_eq_true_eq] at heq
    rw [heq]
    exact Or.inr ⟨id,rfl,hid⟩
  · exact fun h => absurd h hlists

theorem sound_remapColumn (r : Json) (id : ℕ) {column : String} (hcolumn : (references .relation).all fun p => p.1 ≠ column) :
    Leads (course base) (fun s => Known base s.db .relation id) (remapColumn env r id column)
      fun _ s => Known base s.db .relation id := by
  have hread : Leads (course base) (fun s => Known base s.db .relation id) (python (getOr r column .null) : Import δ κ Json)
      fun _ s => Known base s.db .relation id := (stays_python _).keeps (known_kept .relation id)
  refine leads_bind hread fun value => ?_
  have hids : Leads (course base) (fun s => Known base s.db .relation id)
      (reads fun s : State δ κ => remapIds env (s.maps .field) value)
      fun ids s => Known base s.db .relation id ∧ Fits base s.db .relation column (ids.elim .null fun l => .str (dumps l)) := by
    refine leads_reads fun s hs hid ids hvalue => ⟨hid,fits_list hcolumn ?_⟩
    rintro list rfl found hfound
    obtain ⟨k,hk⟩ := remapIds_mem hvalue hfound
    exact hs.maps .field _ hk
  refine leads_bind hids fun ids => ?_
  intro s hs hP
  obtain ⟨hinv,hgrows,-⟩ := sound_setColumn .relation id column _ s hs hP
  exact ⟨hinv,hgrows,fun _ _ => hgrows _ _ hP.1⟩

theorem sound_finishRelation (r : Json) (id : ℕ) :
    Leads (course base) (fun s => Known base s.db .relation id) (finishRelation env r id)
      fun _ s => Known base s.db .relation id :=
  leads_bind (sound_remember .relation r id) fun _ => leads_bind (sound_remapColumn r id (by decide)) fun _ =>
    sound_remapColumn r id (by decide)

/-! #### The other passes -/

theorem sound_link {e target : Entity} {column : String} (hcolumn : (references e).all fun p => p.1 ≠ column || p.2 = target)
    (hlists : column ∉ idLists e) (entry : Json) (linkedId : ℕ) :
    Leads (course base) (fun s => Known base s.db target linkedId)
      ((reads fun s : State δ κ => (member entry "id").bind (need (s.maps e))) >>= fun id =>
        setColumn e id column (.int linkedId)) fun _ _ => True := by
  have hread : Leads (course base) (fun s => Known base s.db target linkedId)
      (reads fun s : State δ κ => (member entry "id").bind (need (s.maps e)))
      fun id s => Known base s.db e id ∧ Fits base s.db e column (.int linkedId) := by
    refine leads_reads fun s hs hlinked id hid => ⟨?_,fits_ref hcolumn hlists hlinked⟩
    obtain ⟨old,-,hneed⟩ := Outcome.bind_ok hid
    obtain ⟨k,hk⟩ := need_mem hneed
    exact hs.maps e _ hk
  exact leads_bind hread fun id => sound_setColumn e id column _

theorem sound_find (e : Entity) (old : Json) :
    Leads (course base) (fun _ => True) (reads fun s : State δ κ => find (s.maps e) old)
      fun found s => ∀ id, found = some id → Known base s.db e id := by
  refine leads_reads fun s hs _ found hfound id hid => ?_
  rw [hid] at hfound
  obtain ⟨k,hk⟩ := find_mem hfound
  exact hs.maps e _ hk

theorem safe_setLater {e target : Entity} {column : String}
    (hcolumn : (references e).all fun p => p.1 ≠ column || p.2 = target) (hlists : column ∉ idLists e) (entry : Json) :
    Stays (course base) (setLater e target column entry : Import δ κ Unit) := by
  refine stays_bind (stays_python _) fun old => ?_
  split
  · refine leads_bind (sound_find target old) fun found => ?_
    split
    · rename_i id
      exact fun s hs hfound => sound_link hcolumn hlists entry id s hs (hfound id rfl)
    · exact (stays_pure ()).from
  · exact stays_pure ()

theorem safe_importWorkflow (w : Json) : Stays (course base) (importWorkflow env w) := by
  refine stays_bind (stays_reads _) fun given => ?_
  split
  · have hrow : Leads (course base) (fun _ => True) (addRow env .workflow workflowColumns w)
        fun row s => Known base s.db .workflow row.id := fun s hs _ => sound_addRow rfl w s hs (grounded_plain rfl)
    refine leads_bind hrow fun row => ?_
    have hid : Leads (course base) (fun s => Known base s.db .workflow row.id) (python (getOr w "id" .null) : Import δ κ Json)
        fun _ s => Known base s.db .workflow row.id := (stays_python _).keeps (known_kept .workflow row.id)
    refine leads_bind hid fun id => ?_
    split
    · exact (stays_pure ()).from
    · exact (sound_remember .workflow w row.id).weaken fun _ h => h
  · exact stays_pure ()

theorem safe_importUnique (old : ByOld) (cu : Json) : Stays (course base) (importUnique env old cu) := by
  refine stays_bind (stays_reads _) fun table => stays_bind (stays_python _) fun ids => ?_
  refine stays_bind (stays_python _) fun columns => ?_
  have hfields : Leads (course base) (fun _ => True)
      (reads fun s : State δ κ => (ids.mapM (find (s.maps .field))).map List.reduceOption)
      fun fields s => ∀ id ∈ fields, Known base s.db .field id := by
    refine leads_reads fun s hs _ fields hfound id hid => ?_
    obtain ⟨found,hmap,rfl⟩ := Outcome.map_ok hfound
    obtain ⟨old,-,hold⟩ := Outcome.mapM_from hmap (List.reduceOption_mem_iff.mp hid)
    obtain ⟨k,hk⟩ := find_mem hold
    exact hs.maps .field _ hk
  refine leads_bind hfields fun fields => ?_
  split
  · exact (stays_pure ()).from
  · have hindex : Leads (course base) (fun s => ∀ id ∈ fields, Known base s.db .field id) (tryIndex env old cu columns)
        fun _ s => ∀ id ∈ fields, Known base s.db .field id := by
      intro s hs hknown
      obtain ⟨hinv,hgrows,-⟩ := stays_tryIndex old cu columns s hs trivial
      exact ⟨hinv,hgrows,fun _ _ id hid => hgrows _ _ (hknown id hid)⟩
    refine leads_bind hindex fun made => ?_
    split
    · have hrow : Leads (course base) (fun s => ∀ id ∈ fields, Known base s.db .field id)
          (addRow env .compositeUnique (compositeUniqueColumns fields) cu) fun _ _ => True := by
        refine (sound_addRow rfl cu).weaken fun s hknown => ?_
        simpa [Grounded,compositeUniqueColumns,Source.Holds] using hknown
      exact leads_bind hrow fun _ => stays_pure ()
    · exact (stays_pure ()).from

theorem takes_course : Takes env (course base) where
  row _ := safe_addRow
  kept _ := safe_addKept
  display := safe_setLater (by decide) (by decide)
  parent := safe_setLater (by decide) (by decide)
  workflow := safe_importWorkflow
  unique := safe_importUnique

/-! #### The statements that change tables -/

variable [DecidableEq δ]

theorem safe_createTable (eng : δ) (name : String) (layout : Layout) : Stays (course base) (createTable env eng name layout) := by
  refine stays_unchanged (fun s => ?_) fun s => ?_
  · rw [createTable]
    split <;> rfl
  · rw [createTable]
    split <;> rfl

theorem safe_alterTable (eng : δ) (name : String) (change : Change) : Stays (course base) (alterTable env eng name change) := by
  refine stays_unchanged (fun s => ?_) fun s => ?_
  · rw [alterTable]
    split <;> rfl
  · rw [alterTable]
    split <;> rfl

theorem safe_ensureRecordColumns (eng : δ) (name : String) (t : Json) :
    Stays (course base) (ensureRecordColumns env eng name t) :=
  stays_bind (stays_python _) fun columns => stays_forM (fun _ => safe_alterTable eng name _) columns

theorem safe_importTable (old : ByOld) (t : Json) : Stays (course base) (importTable env old t) := by
  refine stays_bind (takes_course.prepareTable old t) fun prepared => ?_
  split
  · rename_i eng name layout
    exact stays_bind (safe_createTable eng name layout) fun _ =>
      stays_bind (safe_ensureRecordColumns eng name t) fun _ => safe_keepCreated eng name
  · exact stays_pure ()

theorem safe_importField (old : ByOld) (f : Json) : Stays (course base) (importField env old f) := by
  refine stays_bind (stays_python _) fun type => ?_
  split
  · exact stays_pure ()
  · refine stays_bind (safe_addKept rfl rfl f) fun row => stays_bind (stays_python _) fun key => ?_
    split
    · exact stays_pure ()
    · refine stays_bind (stays_python _) fun table => stays_bind (stays_ownTable old table) fun own => ?_
      split
      · exact safe_alterTable _ _ _
      · exact stays_pure ()

theorem safe_addLinkColumn (old : ByOld) (f : Json) (field : Row) : Stays (course base) (addLinkColumn env old f field) := by
  refine stays_bind (stays_python _) fun table => stays_bind (stays_ownTable old table) fun own => ?_
  split
  · exact stays_bind (stays_python _) fun target => safe_alterTable _ _ _
  · exact stays_pure ()

theorem safe_importLink (old : ByOld) (r : Json) : Stays (course base) (importLink env old r) := by
  refine stays_bind (stays_python _) fun fieldId => stays_bind (stays_python _) fun spec => ?_
  split
  · exact stays_pure ()
  · rename_i f _
    refine leads_bind (sound_addKept rfl rfl f) fun field => ?_
    have hcolumn : Leads (course base) (fun s => Known base s.db .field field.id) (addLinkColumn env old f field)
        fun _ s => Known base s.db .field field.id := (safe_addLinkColumn old f field).keeps (known_kept .field field.id)
    have hrow : Leads (course base) (fun s => Known base s.db .field field.id) (addRow env .relation (linkColumns field.id) r)
        fun row s => Known base s.db .relation row.id := by
      refine fun s hs hid => sound_addRow rfl r s hs ?_
      simpa [Grounded,linkColumns,Source.Holds] using hid
    refine leads_bind hcolumn fun _ => ?_
    exact leads_bind hrow fun row => (sound_finishRelation r row.id).weaken fun _ h => h

theorem safe_createJunction (eng : δ) (name : String) (layout : Layout) :
    Stays (course base) (createJunction env eng name layout) := by
  refine stays_withState fun s => ?_
  split
  · exact stays_pure ()
  · exact stays_bind (safe_createTable _ _ _) fun _ => safe_keepCreated _ _

theorem safe_importJunction (old : ByOld) (r : Json) : Stays (course base) (importJunction env old r) := by
  refine stays_bind (stays_python _) fun left => stays_bind (stays_python _) fun right => ?_
  refine stays_bind (stays_python _) fun source => stays_bind (stays_engineOf _) fun eng => ?_
  refine stays_bind (safe_createJunction _ _ _) fun _ => ?_
  have hrow : Leads (course base) (fun _ => True)
      (addRow env .relation (junctionColumns (Relations.junctionName (textOf left) (textOf right))) r)
      fun row s => Known base s.db .relation row.id := fun s hs _ => sound_addRow rfl r s hs (grounded_plain rfl)
  exact leads_bind hrow fun row => (sound_finishRelation r row.id).weaken fun _ h => h

theorem safe_importRelation (old : ByOld) (r : Json) : Stays (course base) (importRelation env old r) := by
  refine stays_bind (stays_python _) fun kind => ?_
  split
  · exact safe_importLink old r
  · exact safe_importJunction old r

theorem safe_importBody (additive : Bool) (data : Json) (old : ByOld) :
    Stays (course base) (importBody env additive data old) := by
  have hsource : ∀ d, Stays (course base) (importSource env d) := fun d =>
    stays_bind (safe_addKept rfl rfl d) fun _ => stays_pure ()
  exact stays_bind (stays_each hsource) fun _ => stays_bind (stays_each fun t => safe_importTable old t) fun _ =>
    stays_bind (stays_each fun f => safe_importField old f) fun _ =>
      stays_bind (stays_each fun r => safe_importRelation old r) fun _ => takes_course.rest additive data old

end Passes

/-! ### The import -/

section Import

variable {δ κ : Type}

/-- The rows that an import finds, after it has made room. -/
def roomDb (additive : Bool) (db : Db) : Db := if (db .table).isEmpty || additive then db else wipedDb db

theorem inv_fresh (s : State δ κ) : Inv s.db s.fresh where
  grown e := ⟨[],(List.append_nil _).symm,fun row hrow => by cases hrow⟩
  maps e p hp := by cases hp

variable [DecidableEq δ] {env : Env δ κ}

theorem makeRoom_ok {replace additive : Bool} {data : Json} {s : State δ κ}
    (h : ((makeRoom env replace additive data) s).result = .ok ()) :
    ((makeRoom env replace additive data) s).state.db = roomDb additive s.db := by
  rw [makeRoom,withState_apply] at h ⊢
  split_ifs at h ⊢ with hempty hadditive hreplace
  · simp [roomDb,hempty]
    rfl
  · simp [roomDb,hadditive]
    rfl
  · rw [wipeModel] at h ⊢
    split at h
    · cases h
    · cases h
    · simp [roomDb,hempty,hadditive]
  · cases h

/-- Before the `try` there is nothing after the room that changes the state. -/
theorem prepareImport_ok {replace additive : Bool} {data : Json} {s : State δ κ} {old : ByOld}
    (h : (prepareImport env replace additive data s).result = .ok old) :
    (makeRoom env replace additive data s).result = .ok () ∧ byOld data = .ok old ∧
      (prepareImport env replace additive data s).state = (makeRoom env replace additive data s).state := by
  obtain ⟨_,-,h,hcheck,-⟩ := bind_ok h
  obtain ⟨_,hroom,h,hmake,-⟩ := bind_ok h
  refine ⟨hroom,python_ok h,?_⟩
  rw [prepareImport,hcheck]
  exact hmake

theorem orCleanUp_ok {p : Import δ κ Unit} {s : State δ κ} (h : (orCleanUp env p s).result = .ok ()) :
    orCleanUp env p s = p s := by
  rw [orCleanUp] at h ⊢
  split at h
  · rfl
  · cases h

/-- An import that comes to its end has run its body on the rows for which there was room. -/
theorem importSchema_ok {replace additive : Bool} {data : Json} {s : State δ κ} {counts : List ℕ}
    (h : (importSchema env replace additive data s).result = .ok counts) :
    Inv (roomDb additive s.db) (importSchema env replace additive data s).state := by
  obtain ⟨old,hprepare,h,hstate,-⟩ := bind_ok h
  obtain ⟨_,hbody,-,hstate',-⟩ := bind_ok h
  obtain ⟨hroom,-,hroomState⟩ := prepareImport_ok hprepare
  have hdb : (prepareImport env replace additive data s).state.db = roomDb additive s.db := by
    rw [hroomState,makeRoom_ok hroom]
  rw [importSchema,hstate,hstate']
  change Inv _ (orCleanUp env (fun t => importBody env additive data old t.fresh)
    (prepareImport env replace additive data s).state).state
  rw [orCleanUp_ok hbody,← hdb]
  exact (safe_importBody additive data old _ (inv_fresh _) trivial).1

/-- In every row that an import makes, every id belongs to a row of the same import. The rows that there were stay as they are,
and none of the new ones has an id of theirs. -/
theorem import_closed (env : Env δ κ) (replace additive : Bool) (data : Json) (s : State δ κ) {counts : List ℕ}
    (h : (importSchema env replace additive data s).result = .ok counts) :
    ∃ made : Db, (∀ e, (importSchema env replace additive data s).state.db e = roomDb additive s.db e++made e) ∧
      ∀ e, ∀ row ∈ made e, (∀ b ∈ roomDb additive s.db e, b.id ≠ row.id) ∧
        (∀ p ∈ references e, row.get p.1 = .null ∨ ∃ target ∈ made p.2, row.get p.1 = .int target.id) ∧
        ∀ column ∈ idLists e, row.get column = .null ∨
          ∃ ids, row.get column = .str (dumps ids) ∧ ∀ id ∈ ids, ∃ target ∈ made .field, target.id = id := by
  have hinv := importSchema_ok h
  choose made hmade hrows using hinv.grown
  have hknown : ∀ {e id}, Known (roomDb additive s.db) (importSchema env replace additive data s).state.db e id →
      ∃ target ∈ made e, target.id = id := by
    rintro e id ⟨⟨row,hrow,rfl⟩,hbase⟩
    rw [hmade] at hrow
    rcases List.mem_append.mp hrow with hold | hnew
    · exact absurd rfl (hbase row hold)
    · exact ⟨row,hnew,rfl⟩
  refine ⟨made,hmade,fun e row hrow => ⟨(hrows e row hrow).1,fun p hp => ?_,fun column hcolumn => ?_⟩⟩
  · rcases ((hrows e row hrow).2 p.1).refers p.2 hp with hnull | ⟨id,hid,hin⟩
    · exact Or.inl hnull
    · obtain ⟨target,htarget,rfl⟩ := hknown hin
      exact Or.inr ⟨target,htarget,hid⟩
  · rcases ((hrows e row hrow).2 column).lists hcolumn with hnull | ⟨ids,hids,hin⟩
    · exact Or.inl hnull
    · exact Or.inr ⟨ids,hids,fun id hid => hknown (hin id hid)⟩

end Import

/-! ### An import next to a model -/

section Example

/-- The next id of `AUTO_INCREMENT`. -/
def nextId (rows : List Row) : ℕ := rows.foldr (fun row n => max (row.id+1) n) 1

theorem lt_nextId {rows : List Row} {row : Row} (h : row ∈ rows) : row.id < nextId rows := by
  induction rows with
  | nil => cases h
  | cons first rest ih =>
    rw [nextId,List.foldr_cons]
    rcases List.mem_cons.mp h with rfl | hrest
    · omega
    · have hlt : row.id < nextId rest := ih hrest
      rw [nextId] at hlt
      omega

theorem nextId_ne (db : Db) (e : Entity) : ∀ row ∈ db e, row.id ≠ nextId (db e) := fun _ hrow => (lt_nextId hrow).ne

/-- One database that takes every row and every statement. -/
def homeEnv : Env Unit (List String) where
  home := ()
  engineFor _ := .ok ()
  nextId db e := nextId (db e)
  nextId_fresh := nextId_ne
  refuses _ _ _ := none
  clears _ := none
  commits _ := none
  build _ _ _ _ := .ok ["id"]
  alter _ _ _ change columns :=
    match change with
    | .recordColumn name => (columns++[name],none)
    | .scalarColumn field => (columns++[textOf (Json.get field "phys_name")],none)
    | .relationColumn field _ => (columns++[textOf (Json.get field "phys_name")],none)
  index _ _ _ _ _ := none
  drops _ _ _ := true
  token _ := ("","")
  lower := id
  str := textOf
  loads _ := .error (.valueError "Expecting value")

/-- A model with one table. -/
def homeState : State Unit (List String) where
  db e := if e = .table then [⟨1,[("phys_name",.str "customer"),("managed",.bool true)]⟩] else []
  tables _ name := if name = "customer" then some ["id"] else none
  maps _ := []
  created := []

def moduleTable : Json := .obj [("id",.int 1),("phys_name",.str "ticket"),("label",.str "Tickets"),("display_field_id",.int 2)]

def moduleFields : Json :=
  .arr [.obj [("id",.int 2),("table_id",.int 1),("phys_name",.str "title"),("label",.str "Title"),("data_type",.str "string")]]

def moduleForms : Json := .arr [.obj [("id",.int 3),("table_id",.int 1),("name",.str "ticket"),("title",.str "Ticket")]]

/-- A table with its field and a form. -/
def moduleFile : Json :=
  .obj [("version",.int 1),("tables",.arr [moduleTable]),("fields",moduleFields),("forms",moduleForms),
    ("form_fields",.arr [.obj [("form_id",.int 3),("kind",.str "field"),("field_id",.int 2)]])]

theorem module_imported : (importSchema homeEnv false true moduleFile homeState).result = .ok [1,1,0,1,0] := rfl

theorem module_closed :
    ∃ made : Db, (∀ e, (importSchema homeEnv false true moduleFile homeState).state.db e = roomDb true homeState.db e++made e) ∧
      ∀ e, ∀ row ∈ made e, (∀ b ∈ roomDb true homeState.db e, b.id ≠ row.id) ∧
        (∀ p ∈ references e, row.get p.1 = .null ∨ ∃ target ∈ made p.2, row.get p.1 = .int target.id) ∧
        ∀ column ∈ idLists e, row.get column = .null ∨
          ∃ ids, row.get column = .str (dumps ids) ∧ ∀ id ∈ ids, ∃ target ∈ made .field, target.id = id :=
  import_closed homeEnv false true moduleFile homeState module_imported

end Example

end SchemaImport
end Biggy
