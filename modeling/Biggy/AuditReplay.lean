import Biggy.DatabaseFrame

/-!
# The audit log replayed

Every create, update, removal and restoration of an audited record leaves an entry with what it has changed. Put onto
each other in their order the entries describe a record, and so do the rows of its table.
-/
namespace Biggy
namespace AuditReplay

open Relations Commits Commits.Prog Database Database.Site RecordService
open Related (rowOf createStamp deleteStamp)

/-! ### The log -/

/-- An entry put onto a record; its key is not among the changes. -/
def applied (t : MetaTable) (row : Row) (e : AuditLog) : Row :=
  (row.write (e.changes.map fun change => (change.1,change.2.2))).write [(t.pkCol,e.rowPk)]

/-- What an entry makes of the record with the key. -/
def replayed (t : MetaTable) (k : Value) (record : Option Row) (e : AuditLog) : Option Row :=
  if e.tablePhys = t.physName ∧ e.rowPk = k then
    match e.action with
    | .create => some (applied t (fun _ => .null) e)
    | .update => record.map fun row => applied t row e
    | .delete => if t.softDelete then record else none
    | .restore => record
  else record

/-- The record that the entries of the log describe. -/
def replay (t : MetaTable) (log : List AuditLog) (k : Value) : Option Row := log.foldl (replayed t k) none

theorem replay_snoc (t : MetaTable) (log : List AuditLog) (e : AuditLog) (k : Value) :
    replay t (log++[e]) k = replayed t k (replay t log k) e := by
  rw [replay,List.foldl_append]
  rfl

theorem replayed_other {t : MetaTable} {k : Value} {e : AuditLog} (h : ¬(e.tablePhys = t.physName ∧ e.rowPk = k))
    (record : Option Row) : replayed t k record e = record := if_neg h

theorem replayed_kept {t : MetaTable} {e : AuditLog} (h : e.action = .restore ∨ e.action = .delete ∧ t.softDelete = true)
    (k : Value) (record : Option Row) : replayed t k record e = record := by
  rw [replayed]
  split
  · rcases h with h | ⟨h,hsoft⟩
    · rw [h]
    · rw [h]
      exact if_pos hsoft
  · rfl

/-! ### The operations -/

/-- A call of `record_service`; `generated` is the key that the database would give to the record. -/
inductive Op (site : Site)
  | create (t : {t // t ∈ site.tables}) (values : Values) (generated : Value) (userId : Option ℕ) (now : ℤ)
  | update (t : {t // t ∈ site.tables}) (pk : Value) (values : Values) (userId : Option ℕ) (now : ℤ)
  | remove (t : {t // t ∈ site.tables}) (pk : Value) (userId : Option ℕ) (now : ℤ)
  | restore (t : {t // t ∈ site.tables}) (pk : Value) (userId : Option ℕ)

variable {site : Site}

def Op.run : Op site → Service Unit
  | .create t values generated userId now => do
    let _ ← site.create t values generated userId now
    pure ()
  | .update t pk values userId now => site.update t pk values userId now
  | .remove t pk userId now => site.remove t pk userId now
  | .restore t pk userId => site.restore t pk userId

structure State where
  tables : Tables
  log : List AuditLog

/-- What an operation has committed stays, and what it has logged, also when it raises. -/
def step (S : State) (op : Op site) : State := ⟨(op.run S.tables).state,S.log++(op.run S.tables).out⟩

def exec (S : State) (ops : List (Op site)) : State := ops.foldl step S

/-- Two rows hold the same in the columns that the program does not manage itself. -/
def Same (site : Site) (t : MetaTable) (a b : Row) : Prop := ∀ c ∈ site.columns t.physName, c ∉ managed → a c = b c

def recordAt (t : MetaTable) (db : Tables) (k : Value) : Option Row := Keyed.find (fun row => row t.pkCol) k (db t.physName)

/-- The entries of every record describe what is stored of it. -/
def Complete (site : Site) (S : State) : Prop :=
  ∀ t ∈ site.tables, ∀ k, Option.Rel (Same site t) (replay t S.log k) (recordAt t S.tables k)

/-! ### Records that are recomputed -/

/-- The parents that a ripple reads. -/
def parents (site : Site) (t : MetaTable) (row : Row) (db : Tables) : List (MetaTable × Row) :=
  t.fields.filterMap fun f =>
    if f.dataType = .relation ∧ (row f.physName).truthy = true then
      (f.relatedTableId.bind site.table).bind fun parent => (site.getRow parent (row f.physName) db).map (Prod.mk parent)
    else none

def children (site : Site) (t : MetaTable) (row : Row) (db : Tables) : List (MetaTable × Row) :=
  (site.incomingM1 t).flatMap fun (child,fk,_) => (site.readers child fk (row t.pkCol) db).map (Prod.mk child)

def peers (site : Site) (t : MetaTable) (row : Row) (db : Tables) : List (MetaTable × Row) :=
  (site.rippleLinks t).flatMap fun (j,this,that,other) =>
    (site.getLinks j this (row t.pkCol) that db).filterMap fun oid => (site.getRow other oid db).map (Prod.mk other)

/-- The records that a ripple recomputes, in its order. -/
def related (site : Site) (t : MetaTable) (row : Row) (db : Tables) : List (MetaTable × Row) :=
  parents site t row db ++ if row t.pkCol = .null then [] else children site t row db ++ peers site t row db

/-- The record has formulas to recompute. -/
def Recomputes (p : MetaTable × Row) : Prop := p.2 p.1.pkCol ≠ .null ∧ hasFormulas p.1 = true

instance (p : MetaTable × Row) : Decidable (Recomputes p) := inferInstanceAs (Decidable (_ ∧ _))

/-- The formulas of the records come out as they are stored, up to the first that cannot be evaluated. -/
def Settled (site : Site) (db : Tables) : List (MetaTable × Row) → Prop
  | [] => True
  | p::ps =>
    if Recomputes p then
      match computeValues (site.evaluate p.1 db) (formulaFields p.1) p.2 with
      | none => True
      | some vs => (∀ c v, (site.stored p.1 vs).lookup c = some v → p.2 c = v) ∧ Settled site db ps
    else Settled site db ps

/-- All of the records are recomputed. -/
def Ends (site : Site) (db : Tables) (ps : List (MetaTable × Row)) : Prop :=
  ∀ p ∈ ps, Recomputes p → computeValues (site.evaluate p.1 db) (formulaFields p.1) p.2 ≠ none

/-- A service that recomputes the records, and writes nothing when they are settled. -/
def Walks (site : Site) (db : Tables) (p : Service Unit) (ps : List (MetaTable × Row)) : Prop :=
  Settled site db ps → p db = ⟨db,[],.ok ()⟩ ∧ Ends site db ps ∨ (∃ e, p db = ⟨db,[],.error e⟩) ∧ ¬Ends site db ps

section Walks

variable {db : Tables}

theorem ends_cons {p : MetaTable × Row} {ps : List (MetaTable × Row)} : Ends site db (p::ps) ↔
    (Recomputes p → computeValues (site.evaluate p.1 db) (formulaFields p.1) p.2 ≠ none) ∧ Ends site db ps :=
  List.forall_mem_cons

theorem settled_append {ps qs : List (MetaTable × Row)} :
    Settled site db (ps++qs) ↔ Settled site db ps ∧ (Ends site db ps → Settled site db qs) := by
  induction ps with
  | nil => simp [Settled,Ends]
  | cons p ps ih =>
    rw [List.cons_append,Settled,Settled,ends_cons]
    by_cases hp : Recomputes p
    · rw [if_pos hp,if_pos hp]
      cases hvs : computeValues (site.evaluate p.1 db) (formulaFields p.1) p.2 with
      | none => simp [hp]
      | some vs =>
        dsimp only
        rw [ih]
        simp only [ne_eq,reduceCtorEq,not_false_eq_true,implies_true,true_and,and_assoc]
    · rw [if_neg hp,if_neg hp,ih]
      simp [hp]

theorem walks_skip {ps : List (MetaTable × Row)} (h : ∀ p ∈ ps, ¬Recomputes p) : Walks site db (pure ()) ps :=
  fun _ => Or.inl ⟨rfl,fun p hp hrecomputes => absurd hrecomputes (h p hp)⟩

theorem walks_bind {p q : Service Unit} {ps qs : List (MetaTable × Row)} (hp : Walks site db p ps) (hq : Walks site db q qs) :
    Walks site db (p >>= fun _ => q) (ps++qs) := by
  intro hsettled
  obtain ⟨hps,hqs⟩ := settled_append.mp hsettled
  have hends : Ends site db (ps++qs) ↔ Ends site db ps ∧ Ends site db qs := List.forall_mem_append
  rcases hp hps with ⟨hrun,hall⟩ | ⟨⟨e,hrun⟩,hsome⟩
  · rcases hq (hqs hall) with ⟨hrun',hall'⟩ | ⟨⟨e,hrun'⟩,hsome⟩
    · refine Or.inl ⟨?_,hends.mpr ⟨hall,hall'⟩⟩
      rw [bind_def,hrun]
      simp only [hrun',List.append_nil]
    · refine Or.inr ⟨⟨e,?_⟩,fun h => hsome (hends.mp h).2⟩
      rw [bind_def,hrun]
      simp only [hrun',List.append_nil]
  · refine Or.inr ⟨⟨e,?_⟩,fun h => hsome (hends.mp h).1⟩
    rw [bind_def,hrun]

theorem walks_forM {ι : Type} {f : ι → Service PUnit} {g : ι → List (MetaTable × Row)} {xs : List ι}
    (h : ∀ x ∈ xs, Walks site db (f x) (g x)) : Walks site db (forM xs f) (xs.flatMap g) := by
  induction xs with
  | nil => exact walks_skip fun p hp => by cases hp
  | cons x xs ih =>
    rw [List.forM_cons,List.flatMap_cons]
    exact walks_bind (h x List.mem_cons_self) (ih fun y hy => h y (List.mem_cons_of_mem x hy))

/-- A row is rewritten to what it is. -/
theorem walks_recomputeRow {t : MetaTable} (ht : t ∈ site.tables) (hdb : site.Admitted db) {row : Row} (hrow : row ∈ db t.physName) :
    Walks site db (site.recomputeRow t row) [(t,row)] := by
  intro hsettled
  rw [Settled] at hsettled
  rw [recomputeRow]
  by_cases hrecomputes : Recomputes (t,row)
  · have hgoes : ¬(row t.pkCol = .null ∨ hasFormulas t = false) := by
      rintro (hnull | hnone)
      · exact hrecomputes.1 hnull
      · rw [hrecomputes.2] at hnone
        cases hnone
    rw [if_neg hgoes,withState_apply]
    rw [if_pos hrecomputes] at hsettled
    cases hvs : computeValues (site.evaluate t db) (formulaFields t) row with
    | none => exact Or.inr ⟨⟨_,rfl⟩,fun h => h (t,row) List.mem_cons_self hrecomputes hvs⟩
    | some vs =>
      simp only [hvs] at hsettled
      have hsame : rewritten t.physName (site.equals t.physName t.pkCol (row t.pkCol)) (site.stored t vs) db = db := by
        refine rewritten_self fun row' hrow' hkey => funext fun c => ?_
        have hpk : row' t.pkCol = row t.pkCol :=
          (of_decide_eq_true hkey).trans ((site.sound db hdb).typed t.physName row hrow t.pkCol)
        obtain rfl := List.inj_on_of_nodup_map ((site.sound db hdb).keysNodup t ht) hrow' hrow hpk
        cases hv : (site.stored t vs).lookup c with
        | none => exact Row.write_of_not_mem hv
        | some v => rw [Row.write,hv,hsettled.1 c v hv,Option.getD_some]
      refine Or.inl ⟨?_,ends_cons.mpr ⟨fun _ => by simp [hvs],fun p hp => by cases hp⟩⟩
      have haccepts : site.admits (rewritten t.physName (site.equals t.physName t.pkCol (row t.pkCol)) (site.stored t vs) db) = true := by
        rw [hsame]
        exact hdb
      change (commit site.admits .integrity _ : Service Unit) db = _
      rw [commit_accepted haccepts,hsame]
  · have hstops : row t.pkCol = .null ∨ hasFormulas t = false := by
      by_cases hnull : row t.pkCol = .null
      · exact Or.inl hnull
      · exact Or.inr (by simpa using fun hsome => hrecomputes ⟨hnull,hsome⟩)
    rw [if_pos hstops]
    exact Or.inl ⟨rfl,ends_cons.mpr ⟨fun h => absurd h hrecomputes,fun p hp => by cases hp⟩⟩

theorem walks_formulas {t : MetaTable} (hnone : ¬hasFormulas t = true) (rows : List Row) :
    Walks site db (pure ()) (rows.map (Prod.mk t)) := by
  refine walks_skip fun p hp hrecomputes => ?_
  obtain ⟨row,-,rfl⟩ := List.mem_map.mp hp
  exact hnone hrecomputes.2

/-- The one record with a key, where there is one. -/
theorem walks_getRow {t : MetaTable} (ht : t ∈ site.tables) (hdb : site.Admitted db) (pk : Value) : Walks site db
    (match site.getRow t pk db with | some row => site.recomputeRow t row | none => pure ())
    ((site.getRow t pk db).map (Prod.mk t)).toList := by
  cases hrow : site.getRow t pk db with
  | none => exact walks_skip fun p hp => by cases hp
  | some row => exact walks_recomputeRow ht hdb (getRow_mem hrow).1

theorem walks_parents (hdb : site.Admitted db) (t : MetaTable) (row : Row) : Walks site db (forM t.fields fun f =>
    if f.dataType = .relation ∧ (row f.physName).truthy = true then
      match f.relatedTableId.bind site.table with
      | some parent => if hasFormulas parent then withState fun db =>
          match site.getRow parent (row f.physName) db with
          | some prow => site.recomputeRow parent prow
          | none => pure ()
        else pure ()
      | none => pure ()
    else pure ()) (parents site t row db) := by
  rw [parents,List.filterMap_eq_flatMap_toList]
  refine walks_forM fun f _ => ?_
  by_cases hreads : f.dataType = .relation ∧ (row f.physName).truthy = true
  · rw [if_pos hreads,if_pos hreads]
    cases hparent : f.relatedTableId.bind site.table with
    | none => exact walks_skip fun p hp => by cases hp
    | some parent =>
      obtain ⟨id,-,hid⟩ := Option.bind_eq_some_iff.mp hparent
      simp only [Option.bind_some]
      by_cases hformulas : hasFormulas parent = true
      · rw [if_pos hformulas]
        exact walks_getRow (Schema.table_mem hid).1 hdb (row f.physName)
      · rw [if_neg hformulas]
        cases site.getRow parent (row f.physName) db with
        | none => exact walks_skip fun p hp => by cases hp
        | some prow => exact walks_formulas hformulas [prow]
  · rw [if_neg hreads,if_neg hreads]
    exact walks_skip fun p hp => by cases hp

theorem walks_children (hdb : site.Admitted db) (t : MetaTable) (row : Row) : Walks site db
    (forM (site.incomingM1 t) fun (child,fk,_) => if hasFormulas child then withState fun db =>
      forM (site.readers child fk (row t.pkCol) db) (site.recomputeRow child) else pure ()) (children site t row db) := by
  refine walks_forM ?_
  rintro ⟨child,fk,rel⟩ hmem
  have hchild : child ∈ site.tables := (Schema.table_mem (Schema.mem_incomingM1 hmem).2.2.2.1).1
  dsimp only
  by_cases hformulas : hasFormulas child = true
  · rw [if_pos hformulas]
    have hmap : (site.readers child fk (row t.pkCol) db).map (Prod.mk child) =
        (site.readers child fk (row t.pkCol) db).flatMap fun crow => [(child,crow)] := List.map_eq_flatMap
    rw [hmap]
    exact walks_forM (f := site.recomputeRow child) fun crow hcrow =>
      walks_recomputeRow hchild hdb (List.mem_of_mem_filter (List.mem_of_mem_take hcrow))
  · rw [if_neg hformulas]
    exact walks_formulas hformulas _

theorem walks_peers (hdb : site.Admitted db) (t : MetaTable) (row : Row) : Walks site db
    (forM (site.rippleLinks t) fun (j,this,that,other) => if hasFormulas other then withState fun db =>
      forM (site.getLinks j this (row t.pkCol) that db) fun oid => withState fun db' =>
        match site.getRow other oid db' with
        | some orow => site.recomputeRow other orow
        | none => pure ()
      else pure ()) (peers site t row db) := by
  refine walks_forM ?_
  rintro ⟨j,this,that,other⟩ hmem
  have hother : other ∈ site.tables := rippleLinks_mem hmem
  dsimp only
  rw [List.filterMap_eq_flatMap_toList]
  by_cases hformulas : hasFormulas other = true
  · rw [if_pos hformulas]
    refine walks_forM (f := fun oid => withState fun db' => match site.getRow other oid db' with
      | some orow => site.recomputeRow other orow
      | none => pure ()) fun oid _ => ?_
    exact walks_getRow hother hdb oid
  · rw [if_neg hformulas]
    refine walks_skip fun p hp hrecomputes => ?_
    obtain ⟨oid,-,hp⟩ := List.mem_flatMap.mp hp
    obtain ⟨orow,-,rfl⟩ := Option.map_eq_some_iff.mp (Option.mem_toList.mp hp)
    exact hformulas hrecomputes.2

/-- The ripple of a record whose related records are settled writes nothing. -/
theorem ripple_settled (hdb : site.Admitted db) {t : MetaTable} {row : Row} (hsettled : Settled site db (related site t row db)) :
    site.ripple t row db = ⟨db,[],.ok ()⟩ := by
  have hwalks : Walks site db (site.recomputeRelated t row) (related site t row db) := by
    refine walks_bind (walks_parents hdb t row) ?_
    split
    · exact walks_skip fun p hp => by cases hp
    · exact walks_bind (walks_children hdb t row) (walks_peers hdb t row)
  rcases hwalks hsettled with ⟨hrun,-⟩ | ⟨⟨e,hrun⟩,-⟩
  · rw [ripple,attempt,hrun]
  · rw [ripple,attempt,hrun]

end Walks

end AuditReplay
end Biggy
