import Biggy.AuditReplay

/-!
# A complete audit log

Side effects of an operation on other records leave no entry: references that a removal clears, and formulas that a
ripple recomputes. `complete_exec` says that in runs without such effects, of values that the columns store as they
are given, the entries of every record describe what is stored of it.
-/
namespace Biggy
namespace AuditReplay

open Relations Commits Commits.Prog Database Database.Site RecordService
open Related (rowOf createStamp deleteStamp)

/-! ### When a step writes nothing unlogged -/

/-- The columns store what they are given. -/
def Storable (site : Site) (t : MetaTable) (given : String → Option Value) : Prop :=
  ∀ c ∈ site.columns t.physName, c ∉ managed → c ≠ t.pkCol → ∀ v, given c = some v → site.cast t.physName c v = v

/-- The log stores the key as the table does. -/
def KeyLogged (site : Site) (t : MetaTable) (pk : Value) : Prop := site.logKey pk = some (site.key t pk)

def inserted (site : Site) (t : MetaTable) (vs : Values) (generated : Value) (db : Tables) : Tables :=
  Function.update db t.physName (db t.physName++[site.newRow t vs generated])

/-- The key that an insertion returns. -/
def insertedKey (site : Site) (t : MetaTable) (vs : Values) (generated : Value) : Value :=
  if t.pkCol ∈ site.columns t.physName then (vs.lookup t.pkCol).getD generated else generated

def CreateClean (site : Site) (t : MetaTable) (values : Values) (generated : Value) (userId : Option ℕ) (now : ℤ) (db : Tables) :
    Prop :=
  let computed := site.withFormulas t values (rowOf values) db
  let vs := stamped t computed (createStamp userId now)
  let after := inserted site t vs generated db
  let pk := insertedKey site t vs generated
  site.Admitted after → Storable site t (fun c => some ((computed.lookup c).getD .null)) ∧ KeyLogged site t pk ∧
    Settled site after (related site t ((rowOf vs).write [(t.pkCol,pk)]) after)

/-- The tables after the statement of an update. -/
def updated (site : Site) (t : MetaTable) (pk : Value) (vs : Values) (db : Tables) : Tables :=
  rewritten t.physName (site.equals t.physName t.pkCol pk) (site.stored t vs) db

/-- The record whose related records are recomputed after an update. -/
def rippled (site : Site) (t : MetaTable) (pk : Value) (vs : Values) (old : Option Row) (db : Tables) : Row :=
  (site.getRow t pk db).getD (((old.getD fun _ => .null).write vs).write [(t.pkCol,pk)])

def UpdateClean (site : Site) (t : MetaTable) (pk : Value) (values : Values) (userId : Option ℕ) (now : ℤ) (db : Tables) : Prop :=
  let old := site.getRow t pk db
  let vs := site.written t pk values userId now db
  let after := updated site t pk vs db
  site.Admitted after → (old ≠ none → Storable site t fun c => (site.withFormulas t values (context t old pk values) db).lookup c) ∧
    KeyLogged site t pk ∧ Settled site after (related site t (rippled site t pk vs old after) after)

/-- No row for which the test holds refers to the record. -/
def Unreferenced (site : Site) (t : MetaTable) (pk : Value) (p : MetaTable → MetaRelation → Row → Prop) (db : Tables) : Prop :=
  ∀ child fk rel, (child,fk,rel) ∈ site.incomingM1 t → ∀ row ∈ db child.physName, p child rel row → row fk ≠ site.key t pk

/-- A row of another record, that goes or loses its reference with the record. -/
def Dependent (site : Site) (t : MetaTable) (pk : Value) (child : MetaTable) (rel : MetaRelation) (row : Row) : Prop :=
  onDelete rel ≠ .restrict ∧ ¬(child = t ∧ site.equals t.physName t.pkCol pk row = true)

/-- The tables without the links of a record. -/
def unlinkedAll (site : Site) (pk : Value) (links : List (MetaRelation × String × String × String × MetaTable)) (db : Tables) :
    Tables :=
  links.foldl (fun db l => Function.update db l.2.1 ((db l.2.1).filter fun row => !site.equals l.2.1 l.2.2.1 pk row)) db

/-- The tables with the record in the trash. -/
def trashed (site : Site) (t : MetaTable) (pk : Value) (userId : Option ℕ) (now : ℤ) (db : Tables) : Tables :=
  updated site t pk (deleteStamp userId now) (unlinkedAll site pk (site.mnLinks t) db)

def deleted (site : Site) (t : MetaTable) (pk : Value) (db : Tables) : Tables :=
  site.erased t.physName (site.equals t.physName t.pkCol pk) db

/-- The records related to one that has been removed are as they were. -/
def RemovalSettled (site : Site) (t : MetaTable) (pk : Value) (db after : Tables) : Prop :=
  ∀ row, site.getRow t pk db = some row → Settled site after (related site t row after)

def RemoveClean (site : Site) (t : MetaTable) (pk : Value) (userId : Option ℕ) (now : ℤ) (db : Tables) : Prop :=
  if t.softDelete then Unreferenced site t pk (fun _ _ _ => True) db ∧
    (site.Admitted (trashed site t pk userId now db) → RemovalSettled site t pk db (trashed site t pk userId now db))
  else site.Admitted (deleted site t pk db) →
    (site.enforced = true → Unreferenced site t pk (Dependent site t pk) db) ∧ KeyLogged site t pk ∧
      RemovalSettled site t pk db (deleted site t pk db)

/-- The step changes no stored value without an entry. -/
def Clean (site : Site) (db : Tables) : Op site → Prop
  | .create t values generated userId now => CreateClean site t.1 values generated userId now db
  | .update t pk values userId now => UpdateClean site t.1 pk values userId now db
  | .remove t pk userId now => RemoveClean site t.1 pk userId now db
  | .restore _ _ _ => True

/-- All the steps of a run do so. -/
def CleanRun (site : Site) : State → List (Op site) → Prop
  | _, [] => True
  | S, op::ops => Clean site S.tables op ∧ CleanRun site (step S op) ops

/-! ### What stays complete -/

/-- No triggers, feeds or SLA policies. -/
def Silent (site : Site) : Prop := ∀ t action pk old userId db, site.fire t action pk old userId db = (db,[])

section Complete

variable {site : Site} {t : MetaTable} {pk : Value} {db : Tables} {log : List AuditLog} {e : AuditLog}

theorem Same.refl (t : MetaTable) (row : Row) : Same site t row row := fun _ _ _ => rfl

theorem Same.trans {a b c : Row} (hab : Same site t a b) (hbc : Same site t b c) : Same site t a c := fun col hcol hfree =>
  (hab col hcol hfree).trans (hbc col hcol hfree)

theorem rel_trans {α : Type*} {R : α → α → Prop} (hR : ∀ a b c, R a b → R b c → R a c) {x y z : Option α} (hxy : Option.Rel R x y)
    (hyz : Option.Rel R y z) : Option.Rel R x z := by
  cases hxy with
  | none => exact hyz
  | some hab =>
    cases hyz with
    | some hbc => exact .some (hR _ _ _ hab hbc)

theorem recordAt_key {k : Value} {row : Row} (h : recordAt t db k = some row) : row t.pkCol = k := by
  rw [recordAt] at h
  simpa using Keyed.key_of_find h

/-- A change of managed columns only. -/
theorem recordAt_alike (ht : t ∈ site.tables) {db' : Tables} (h : Alike (fun _ c => c ∈ managed) db db') (k : Value) :
    Option.Rel (Same site t) (recordAt t db k) (recordAt t db' k) := by
  have hrel : Option.Rel (fun row row' : Row => ∀ c, ¬c ∈ managed → row' c = row c) (recordAt t db k) (recordAt t db' k) :=
    Paired.find_rel (fun row row' hrow => by simp only [hrow t.pkCol (site.pkFree t ht)]) (h t.physName)
  generalize recordAt t db k = record at hrel
  generalize recordAt t db' k = record' at hrel
  cases hrel with
  | none => exact .none
  | some hsame => exact .some fun c _ hfree => (hsame c hfree).symm

/-- Where only managed columns change the log stays complete, also by an entry that changes nothing. -/
theorem complete_alike {db' : Tables} (h : Complete site ⟨db,log⟩) (halike : ∀ t ∈ site.tables, ∀ k,
    Option.Rel (Same site t) (recordAt t db k) (recordAt t db' k)) {es : List AuditLog}
    (hes : es = [] ∨ ∃ e, es = [e] ∧ ∀ t' ∈ site.tables, ∀ k record, replayed t' k record e = record) :
    Complete site ⟨db',log++es⟩ := by
  intro t ht k
  have hreplay : replay t (log++es) k = replay t log k := by
    rcases hes with rfl | ⟨e,rfl,hkept⟩
    · rw [List.append_nil]
    · rw [replay_snoc,hkept t ht]
  rw [hreplay]
  exact rel_trans (R := Same site t) (fun _ _ _ => Same.trans) (h t ht k) (halike t ht k)

/-! ### Calls -/

theorem statement_run {change : Tables → Tables} (h : site.Admitted (change db)) :
    site.statement change db = ⟨change db,[],.ok ()⟩ := commit_accepted h

theorem statement_stop {change : Tables → Tables} (h : ¬site.Admitted (change db)) :
    site.statement change db = ⟨db,[],.error .integrity⟩ := commit_refused (by simpa [Admitted] using h)

theorem insertRow_run {vs : Values} {generated : Value} (h : site.Admitted (inserted site t vs generated db)) :
    site.insertRow t vs generated db = ⟨inserted site t vs generated db,[],.ok (insertedKey site t vs generated)⟩ :=
  bind_run (statement_run h) _

theorem insertRow_stop {vs : Values} {generated : Value} (h : ¬site.Admitted (inserted site t vs generated db)) :
    site.insertRow t vs generated db = ⟨db,[],.error .integrity⟩ :=
  bind_stop (statement_stop h) _

theorem log_run (haudited : t.trackAudit = true) (hkey : KeyLogged site t pk) (action : Action) (userId : Option ℕ)
    (changes : List (String × Value × Value)) (db : Tables) :
    site.log t pk action userId changes db = ⟨db,[⟨t.physName,site.key t pk,action,userId,changes⟩],.ok ()⟩ := by
  rw [Site.log,if_pos haudited,hkey]
  rfl

theorem fired_run (hsilent : Silent site) (action : Action) (old : Option Row) (userId : Option ℕ) (db : Tables) :
    site.fired t action pk old userId db = ⟨db,[],.ok ()⟩ := by
  rw [fired,hsilent]

/-! ### Creation -/

theorem lookup_distinct (vs : Values) (c : String) : (Keyed.distinct Prod.fst vs).lookup c = vs.lookup c := by
  induction vs with
  | nil => rfl
  | cons p vs ih =>
    rw [Keyed.distinct,List.lookup_cons,List.lookup_cons]
    split
    · rfl
    · rename_i hne
      have hc : c ≠ p.1 := by simpa using hne
      rw [Values.lookup_filter fun name => decide (name ≠ p.1),if_pos (decide_eq_true hc),ih]

/-- What a create entry holds. -/
theorem lookup_createChanges (vs : Values) {c : String} (hc : c ∉ managed) :
    ((createChanges vs).map fun change => (change.1,change.2.2)).lookup c = vs.lookup c := by
  rw [createChanges,List.map_map]
  have hmap : ((fun change : String × Value × Value => (change.1,change.2.2)) ∘ fun p : String × Value => (p.1,Value.null,p.2)) = id :=
    rfl
  rw [hmap,List.map_id,Values.lookup_filter fun name => decide (name ∉ managed),if_pos (decide_eq_true hc),lookup_distinct]

theorem applied_other {row : Row} {c : String} (hc : c ≠ t.pkCol) :
    applied t row e c = ((e.changes.map fun change => (change.1,change.2.2)).lookup c).getD (row c) := by
  rw [applied,Row.write_of_not_mem (by rw [Values.lookup_singleton,if_neg hc]),Row.write]

theorem applied_key {row : Row} : applied t row e t.pkCol = e.rowPk := by
  rw [applied,Row.write,Values.lookup_singleton,if_pos rfl,Option.getD_some]

theorem lookup_stamped (t : MetaTable) (values : Values) {stamp : Values} {c : String} (hstamp : stamp.lookup c = none) :
    (stamped t values stamp).lookup c = values.lookup c := by
  rw [stamped]
  split
  · rw [Values.lookup_update,hstamp,Option.none_or]
  · rfl

theorem newRow_key (ht : t ∈ site.tables) {vs : Values} {generated : Value} (hafter : site.Admitted (inserted site t vs generated db)) :
    site.newRow t vs generated t.pkCol = site.key t (insertedKey site t vs generated) := by
  have hmem : site.newRow t vs generated ∈ inserted site t vs generated db t.physName := by
    rw [inserted,Function.update_self]
    exact List.mem_append_right _ List.mem_cons_self
  have hheld := (site.sound _ hafter).keysHeld t ht _ hmem
  by_cases hcol : t.pkCol ∈ site.columns t.physName
  · rw [newRow,if_pos hcol,if_pos rfl,insertedKey,if_pos hcol]
    rfl
  · rw [newRow,if_neg hcol] at hheld
    exact absurd rfl hheld

theorem recordAt_inserted (ht : t ∈ site.tables) {vs : Values} {generated : Value}
    (hafter : site.Admitted (inserted site t vs generated db)) (k : Value) :
    recordAt t (inserted site t vs generated db) k =
      if site.newRow t vs generated t.pkCol = k then some (site.newRow t vs generated) else recordAt t db k := by
  have hnodup := (site.sound _ hafter).keysNodup t ht
  split
  · rename_i hk
    subst hk
    refine Keyed.find_of_mem hnodup ?_
    rw [inserted,Function.update_self]
    exact List.mem_append_right _ List.mem_cons_self
  · rename_i hk
    rw [recordAt,recordAt,inserted,Function.update_self,Keyed.find,Keyed.find,List.find?_append,
      List.find?_cons_of_neg (by simpa using hk),List.find?_nil,Option.or_none]

theorem recordAt_other (ht : t ∈ site.tables) {t' : MetaTable} (ht' : t' ∈ site.tables) (hne : t' ≠ t) {rows : List Row} (k : Value) :
    recordAt t' (Function.update db t.physName rows) k = recordAt t' db k := by
  rw [recordAt,Function.update_of_ne fun hname => hne (table_unique ht' ht hname),recordAt]

theorem create_complete (ht : t ∈ site.tables) (h : Complete site ⟨db,log⟩) {computed : Values} {generated : Value}
    {userId : Option ℕ} {now : ℤ} (hafter : site.Admitted (inserted site t (stamped t computed (createStamp userId now)) generated db))
    (hstorable : Storable site t fun c => some ((computed.lookup c).getD .null)) :
    Complete site ⟨inserted site t (stamped t computed (createStamp userId now)) generated db,
      log++[⟨t.physName,site.key t (insertedKey site t (stamped t computed (createStamp userId now)) generated),.create,userId,
        createChanges (stamped t computed (createStamp userId now))⟩]⟩ := by
  intro t' ht' k
  have hkey := newRow_key ht hafter
  rw [replay_snoc]
  by_cases hname : t' = t
  · subst hname
    rw [recordAt_inserted ht hafter]
    by_cases hk : site.newRow t' (stamped t' computed (createStamp userId now)) generated t'.pkCol = k
    · rw [if_pos hk,replayed,if_pos ⟨rfl,hkey ▸ hk⟩]
      refine .some fun c hcol hfree => ?_
      by_cases hc : c = t'.pkCol
      · rw [hc,applied_key,hkey]
      · rw [applied_other hc,lookup_createChanges _ hfree,newRow,if_pos hcol,if_neg hc,
          lookup_stamped t' computed (Related.createStamp_unmanaged hfree)]
        exact (hstorable c hcol hfree hc _ rfl).symm
    · rw [if_neg hk,replayed_other fun heq => hk (hkey.trans heq.2)]
      exact h t' ht' k
  · rw [replayed_other fun heq => hname (table_unique ht' ht heq.1.symm),inserted,recordAt_other ht ht' hname]
    exact h t' ht' k

/-- A creation leaves a complete log complete. -/
theorem create_good (hsilent : Silent site) (ht : t ∈ site.tables) (haudited : t.trackAudit = true) (hdb : site.Admitted db)
    (h : Complete site ⟨db,log⟩) {values : Values} {generated : Value} {userId : Option ℕ} {now : ℤ}
    (hclean : CreateClean site t values generated userId now db) :
    site.Admitted (site.create t values generated userId now db).state ∧
      Complete site ⟨(site.create t values generated userId now db).state,
        log++(site.create t values generated userId now db).out⟩ := by
  rw [create,withState_apply]
  let computed := site.withFormulas t values (rowOf values) db
  let vs := stamped t computed (createStamp userId now)
  by_cases hafter : site.Admitted (inserted site t vs generated db)
  · obtain ⟨hstorable,hlogged,hsettled⟩ := hclean hafter
    rw [bind_run (insertRow_run hafter),bind_run (log_run haudited hlogged _ _ _ _),bind_run (fired_run hsilent _ _ _ _),
      bind_run (ripple_settled hafter hsettled)]
    exact ⟨hafter,create_complete ht h hafter hstorable⟩
  · rw [bind_stop (insertRow_stop hafter),List.append_nil]
    exact ⟨hdb,h⟩

/-! ### Updates -/

theorem lookup_filter {vs : Values} (hnodup : (vs.map Prod.fst).Nodup) (p : String × Value → Bool) (c : String) :
    (vs.filter p).lookup c = (vs.lookup c).filter fun v => p (c,v) := by
  induction vs with
  | nil => rfl
  | cons x vs ih =>
    obtain ⟨name,v⟩ := x
    obtain ⟨hname,hrest⟩ := List.nodup_cons.mp hnodup
    by_cases hc : c = name
    · subst hc
      have hout : ∀ x ∈ vs, c ≠ x.1 := by
        intro x hx heq
        have hmem : x.1 ∈ vs.map Prod.fst := List.mem_map_of_mem hx
        rw [← heq] at hmem
        exact hname hmem
      have hnone : (vs.filter p).lookup c = none := by
        rw [ih hrest,List.lookup_eq_none_iff.mpr fun x hx => by simpa using hout x hx]
        rfl
      rw [List.filter_cons,List.lookup_cons_self]
      by_cases hp : p (c,v) = true
      · rw [if_pos hp,List.lookup_cons_self,Option.filter_some,if_pos hp]
      · rw [if_neg hp,hnone,Option.filter_some,if_neg hp]
    · have hb : (c == name) = false := by simpa using hc
      rw [List.lookup_cons,hb,← ih hrest,List.filter_cons]
      split
      · rw [List.lookup_cons,hb]
      · rfl

/-- What an update entry holds. -/
theorem lookup_updateChanges (old : Option Row) (values : Values) (c : String) :
    ((updateChanges old values).map fun change => (change.1,change.2.2)).lookup c =
      (values.lookup c).filter fun v => decide ((old.getD fun _ => .null) c ≠ v) := by
  have hmap : ((fun change : String × Value × Value => (change.1,change.2.2)) ∘
      fun p : String × Value => (p.1,(old.getD fun _ => Value.null) p.1,p.2)) = id := rfl
  simp only [updateChanges]
  rw [List.map_map,hmap,List.map_id,lookup_filter (Keyed.nodup_distinct values),lookup_distinct]

theorem recordAt_updated (vs : Values) (k : Value) : recordAt t (updated site t pk vs db) k =
    (recordAt t db k).map fun row => if site.equals t.physName t.pkCol pk row then row.write (site.stored t vs) else row := by
  rw [recordAt,updated,rewritten,Function.update_self]
  refine Keyed.find_map (fun row => ?_) k (db t.physName)
  split
  · exact write_stored_pk t row vs
  · rfl

theorem updated_other (ht : t ∈ site.tables) {t' : MetaTable} (ht' : t' ∈ site.tables) (hne : t' ≠ t) (vs : Values) (k : Value) :
    recordAt t' (updated site t pk vs db) k = recordAt t' db k := recordAt_other ht ht' hne k

theorem update_complete (ht : t ∈ site.tables) (h : Complete site ⟨db,log⟩) {computed : Values} {userId : Option ℕ} {now : ℤ}
    (hstorable : site.getRow t pk db ≠ none → Storable site t fun c => computed.lookup c) :
    Complete site ⟨updated site t pk (stamped t computed (auditStamp userId now)) db,
      log++[⟨t.physName,site.key t pk,.update,userId,updateChanges (site.getRow t pk db) computed⟩]⟩ := by
  intro t' ht' k
  rw [replay_snoc]
  by_cases hname : t' = t
  · subst hname
    have hrel := h t' ht' k
    rw [recordAt_updated]
    cases hrow : recordAt t' db k with
    | none =>
      rw [hrow] at hrel
      generalize replay t' log k = record at hrel
      cases hrel
      rw [replayed]
      split <;> exact .none
    | some row =>
      have hkey : row t'.pkCol = k := recordAt_key hrow
      rw [hrow] at hrel
      generalize replay t' log k = record at hrel
      cases hrel with
      | some hsame =>
        by_cases hk : site.key t' pk = k
        · have hold : site.getRow t' pk db = some row := by
            rw [← hrow,← hk]
            rfl
          have hequals : site.equals t'.physName t'.pkCol pk row = true := decide_eq_true (hkey.trans hk.symm)
          rw [replayed,if_pos ⟨rfl,hk⟩]
          dsimp only [Option.map_some]
          rw [if_pos hequals]
          refine .some fun c hcol hfree => ?_
          by_cases hc : c = t'.pkCol
          · rw [hc,applied_key,write_stored_pk,hkey]
            exact hk
          · rw [applied_other hc,lookup_updateChanges,hold,Row.write,lookup_stored,if_pos ⟨hcol,hc⟩,
              lookup_stamped t' computed (Related.auditStamp_unmanaged hfree),hsame c hcol hfree]
            cases hv : computed.lookup c with
            | none => rfl
            | some v =>
              rw [Option.map_some,hstorable (by rw [hold]; exact Option.some_ne_none row) c hcol hfree hc v hv,
                Option.getD_some,Option.getD_some,Option.filter_some]
              split
              · rfl
              · rename_i hkept
                simpa using hkept
        · have hequals : ¬site.equals t'.physName t'.pkCol pk row = true :=
            fun hp => hk ((of_decide_eq_true hp).symm.trans hkey)
          rw [replayed_other fun heq => hk heq.2,Option.map_some,if_neg hequals]
          exact .some hsame
  · rw [replayed_other fun heq => hname (table_unique ht' ht heq.1.symm),updated_other ht ht' hname]
    exact h t' ht' k

/-- An update leaves a complete log complete. -/
theorem update_good (hsilent : Silent site) (ht : t ∈ site.tables) (haudited : t.trackAudit = true) (hdb : site.Admitted db)
    (h : Complete site ⟨db,log⟩) {values : Values} {userId : Option ℕ} {now : ℤ}
    (hclean : UpdateClean site t pk values userId now db) :
    site.Admitted (site.update t pk values userId now db).state ∧
      Complete site ⟨(site.update t pk values userId now db).state,log++(site.update t pk values userId now db).out⟩ := by
  rw [Site.update,withState_apply]
  by_cases hafter : site.Admitted (updated site t pk (site.written t pk values userId now db) db)
  · obtain ⟨hstorable,hlogged,hsettled⟩ := hclean hafter
    have hwrite : site.updateRow t pk (site.written t pk values userId now db) db =
        ⟨updated site t pk (site.written t pk values userId now db) db,[],.ok ()⟩ := statement_run hafter
    rw [bind_run hwrite,bind_run (log_run haudited hlogged _ _ _ _),bind_run (fired_run hsilent _ _ _ _),withState_apply]
    have hreads : site.readsOld t values = true := by
      rw [readsOld,haudited]
      rfl
    have hrun := ripple_settled hafter hsettled
    rw [rippled] at hrun
    cases hrow : site.getRow t pk (updated site t pk (site.written t pk values userId now db) db) with
    | none =>
      rw [hrow,Option.getD_none] at hrun
      simp only [hreads,if_true,hrun]
      exact ⟨hafter,update_complete ht h hstorable⟩
    | some row =>
      rw [hrow,Option.getD_some] at hrun
      simp only [hrun]
      exact ⟨hafter,update_complete ht h hstorable⟩
  · have hwrite : site.updateRow t pk (site.written t pk values userId now db) db = ⟨db,[],.error .integrity⟩ :=
      statement_stop hafter
    rw [bind_stop hwrite,List.append_nil]
    exact ⟨hdb,h⟩

/-! ### The trash -/

/-- An update of managed columns. -/
theorem alike_managed {vs : Values} (hvs : ∀ c, c ∉ managed → vs.lookup c = none) :
    Alike (fun _ c => c ∈ managed) db (updated site t pk vs db) := by
  refine alike_rewritten (fun c hc => ?_) db
  by_contra hfree
  rw [lookup_stored,hvs c hfree] at hc
  exact hc (ite_self _)

theorem restore_stamp {c : String} (hc : c ∉ managed) :
    ([("deleted_at",.null),("deleted_by",.null)] : Values).lookup c = none := by
  rw [List.lookup_eq_none_iff]
  intro p hp
  rcases List.mem_pair.mp hp with rfl | rfl
  · simpa using fun heq : c = "deleted_at" => hc (heq ▸ by decide)
  · simpa using fun heq : c = "deleted_by" => hc (heq ▸ by decide)

theorem restore_good (haudited : t.trackAudit = true) (hdb : site.Admitted db) (h : Complete site ⟨db,log⟩) (userId : Option ℕ) :
    site.Admitted (site.restore t pk userId db).state ∧
      Complete site ⟨(site.restore t pk userId db).state,log++(site.restore t pk userId db).out⟩ := by
  rw [Site.restore]
  by_cases hafter : site.Admitted (updated site t pk [("deleted_at",.null),("deleted_by",.null)] db)
  · have hwrite : site.updateRow t pk [("deleted_at",.null),("deleted_by",.null)] db =
        ⟨updated site t pk [("deleted_at",.null),("deleted_by",.null)] db,[],.ok ()⟩ := statement_run hafter
    have halike := fun t' (ht' : t' ∈ site.tables) => recordAt_alike ht' (@alike_managed site t pk db _ fun _ => restore_stamp)
    rw [bind_run hwrite,Site.log,if_pos haudited]
    cases site.logKey pk with
    | none => exact ⟨hafter,complete_alike h halike (Or.inl rfl)⟩
    | some k =>
      exact ⟨hafter,complete_alike h halike (Or.inr ⟨_,rfl,fun t' _ k' record => replayed_kept (Or.inl rfl) k' record⟩)⟩
  · have hwrite : site.updateRow t pk [("deleted_at",.null),("deleted_by",.null)] db = ⟨db,[],.error .integrity⟩ :=
      statement_stop hafter
    rw [bind_stop hwrite,List.append_nil]
    exact ⟨hdb,h⟩

/-! ### Removal -/

theorem unlinkedAll_other (links : List (MetaRelation × String × String × String × MetaTable)) {name : String}
    (hname : ∀ l ∈ links, name ≠ l.2.1) (db : Tables) : unlinkedAll site pk links db name = db name := by
  induction links generalizing db with
  | nil => rfl
  | cons l links ih =>
    have hrest := ih (fun l' hl' => hname l' (List.mem_cons_of_mem l hl')) (Function.update db l.2.1
      ((db l.2.1).filter fun row => !site.equals l.2.1 l.2.2.1 pk row))
    rw [Function.update_of_ne (hname l List.mem_cons_self)] at hrest
    exact hrest

/-- The links of a record go, or a deletion of some is refused. -/
theorem unlinks_run (ht : t ∈ site.tables) {links : List (MetaRelation × String × String × String × MetaTable)}
    (hlinks : ∀ l ∈ links, l ∈ site.mnLinks t) (hdb : site.Admitted db) :
    forM links (site.unlink pk) db = ⟨unlinkedAll site pk links db,[],.ok ()⟩ ∧ site.Admitted (unlinkedAll site pk links db) ∨
      ∃ db', forM links (site.unlink pk) db = ⟨db',[],.error .integrity⟩ ∧ site.Admitted db' ∧
        ∀ t' ∈ site.tables, db' t'.physName = db t'.physName := by
  induction links generalizing db with
  | nil => exact Or.inl ⟨rfl,hdb⟩
  | cons l links ih =>
    obtain ⟨rel,j,this,that,other⟩ := l
    have hl := hlinks _ List.mem_cons_self
    have hunlink : site.unlink pk (rel,j,this,that,other) =
        site.statement fun db => Function.update db j ((db j).filter fun row => !site.equals j this pk row) := by
      rw [unlink,deleteWhere,if_pos (site.linkHeld t ht rel j this that other hl)]
      exact congrArg site.statement (funext fun db => erased_junction hl _ db)
    rw [List.forM_cons,hunlink]
    by_cases hafter : site.Admitted (Function.update db j ((db j).filter fun row => !site.equals j this pk row))
    · rw [bind_run (statement_run hafter)]
      rcases ih (fun l' hl' => hlinks l' (List.mem_cons_of_mem _ hl')) hafter with ⟨hrun,hdone⟩ | ⟨db',hrun,hdone,hsame⟩
      · rw [hrun]
        exact Or.inl ⟨rfl,hdone⟩
      · rw [hrun]
        refine Or.inr ⟨db',rfl,hdone,fun t' ht' => ?_⟩
        rw [hsame t' ht',Function.update_of_ne (junction_ne ht' hl)]
    · rw [bind_stop (statement_stop hafter)]
      exact Or.inr ⟨db,rfl,hdb,fun _ _ => rfl⟩

theorem statement_same {change : Tables → Tables} (hdb : site.Admitted db) (hsame : change db = db) :
    site.statement change db = ⟨db,[],.ok ()⟩ := by
  rw [statement_run (by rw [hsame]; exact hdb),hsame]

/-- Where no row refers to the record there is nothing to clear. -/
theorem dissociates_run (ht : t ∈ site.tables) (hdb : site.Admitted db) (hfree : Unreferenced site t pk (fun _ _ _ => True) db) :
    forM (site.incomingM1 t) (site.dissociate pk) db = ⟨db,[],.ok ()⟩ := by
  have hone : ∀ x ∈ site.incomingM1 t, site.dissociate pk x db = ⟨db,[],.ok ()⟩ := by
    rintro ⟨child,fk,rel⟩ hmem
    have hcol := (site.fkField t ht child fk rel hmem).1
    have hnone : ∀ row ∈ db child.physName, site.equals child.physName fk pk row = false := by
      intro row hrow
      refine decide_eq_false ?_
      rw [site.fkCast t ht child fk rel hmem]
      exact hfree child fk rel hmem row hrow trivial
    rw [dissociate]
    split
    · rw [clearFk,if_pos hcol]
      exact statement_same hdb (rewritten_self fun row hrow hp => by rw [hnone row hrow] at hp; cases hp)
    · rw [deleteWhere,if_pos hcol]
      exact statement_same hdb (erased_of_none hnone)
  generalize site.incomingM1 t = xs at hone
  induction xs with
  | nil => rfl
  | cons x xs ih =>
    rw [List.forM_cons,bind_run (hone x List.mem_cons_self),ih fun y hy => hone y (List.mem_cons_of_mem x hy)]
    rfl

theorem unreferenced_unlinked (hfree : Unreferenced site t pk (fun _ _ _ => True) db) :
    Unreferenced site t pk (fun _ _ _ => True) (unlinkedAll site pk (site.mnLinks t) db) := by
  intro child fk rel hmem row hrow hrel
  have hchild : child ∈ site.tables := (Schema.table_mem (Schema.mem_incomingM1 hmem).2.2.2.1).1
  rw [unlinkedAll_other (site.mnLinks t) (fun l hl => junction_ne hchild hl) db] at hrow
  exact hfree child fk rel hmem row hrow hrel

/-- The statements that put an unreferenced record into the trash, up to the first that is refused. -/
theorem trash_run (ht : t ∈ site.tables) (hdb : site.Admitted db) (hfree : Unreferenced site t pk (fun _ _ _ => True) db)
    (userId : Option ℕ) (now : ℤ) :
    let body : Service Unit := do
      forM (site.mnLinks t) (site.unlink pk)
      forM (site.incomingM1 t) (site.dissociate pk)
      site.updateRow t pk (deleteStamp userId now)
    body db = ⟨trashed site t pk userId now db,[],.ok ()⟩ ∧ site.Admitted (trashed site t pk userId now db) ∨
      ∃ db', body db = ⟨db',[],.error .integrity⟩ ∧ site.Admitted db' ∧ ∀ t' ∈ site.tables, db' t'.physName = db t'.physName := by
  intro body
  rcases unlinks_run ht (fun l hl => hl) hdb with ⟨hlinks,hunlinked⟩ | ⟨db',hlinks,hdb',hsame⟩
  · have hclear := dissociates_run ht hunlinked (unreferenced_unlinked hfree)
    by_cases hafter : site.Admitted (trashed site t pk userId now db)
    · have hwrite : site.updateRow t pk (deleteStamp userId now) (unlinkedAll site pk (site.mnLinks t) db) =
          ⟨trashed site t pk userId now db,[],.ok ()⟩ := statement_run hafter
      refine Or.inl ⟨?_,hafter⟩
      change (forM (site.mnLinks t) (site.unlink pk) >>= fun _ => _) db = _
      rw [bind_run hlinks,bind_run hclear,hwrite]
      rfl
    · have hwrite : site.updateRow t pk (deleteStamp userId now) (unlinkedAll site pk (site.mnLinks t) db) =
          ⟨unlinkedAll site pk (site.mnLinks t) db,[],.error .integrity⟩ := statement_stop hafter
      refine Or.inr ⟨unlinkedAll site pk (site.mnLinks t) db,?_,hunlinked,
        fun t' ht' => unlinkedAll_other _ (fun l hl => junction_ne ht' hl) db⟩
      change (forM (site.mnLinks t) (site.unlink pk) >>= fun _ => _) db = _
      rw [bind_run hlinks,bind_run hclear,hwrite]
      rfl
  · refine Or.inr ⟨db',?_,hdb',hsame⟩
    change (forM (site.mnLinks t) (site.unlink pk) >>= fun _ => _) db = _
    rw [bind_stop hlinks]

/-- The entry of a removal into the trash changes no record. -/
theorem replayed_trash (ht : t ∈ site.tables) {t' : MetaTable} (ht' : t' ∈ site.tables) (hsoft : t.softDelete = true)
    (htable : e.tablePhys = t.physName) (haction : e.action = .delete) (k : Value) (record : Option Row) :
    replayed t' k record e = record := by
  by_cases hname : t' = t
  · subst hname
    exact replayed_kept (Or.inr ⟨haction,hsoft⟩) k record
  · exact replayed_other (fun heq => hname (table_unique ht' ht (heq.1.symm.trans htable))) record

theorem remove_soft (hsilent : Silent site) (ht : t ∈ site.tables) (haudited : t.trackAudit = true) (hdb : site.Admitted db)
    (h : Complete site ⟨db,log⟩) {userId : Option ℕ} {now : ℤ} (hsoft : t.softDelete = true)
    (hclean : RemoveClean site t pk userId now db) :
    site.Admitted (site.remove t pk userId now db).state ∧
      Complete site ⟨(site.remove t pk userId now db).state,log++(site.remove t pk userId now db).out⟩ := by
  rw [RemoveClean,if_pos hsoft] at hclean
  obtain ⟨hfree,hsettles⟩ := hclean
  rw [Site.remove,withState_apply]
  simp only [hsoft,if_true]
  rcases trash_run ht hdb hfree userId now with ⟨hbody,hafter⟩ | ⟨db',hbody,hdb',hsame⟩
  · have halike : ∀ t' ∈ site.tables, ∀ k,
        Option.Rel (Same site t') (recordAt t' db k) (recordAt t' (trashed site t pk userId now db) k) := by
      intro t' ht' k
      have hrecord : recordAt t' (unlinkedAll site pk (site.mnLinks t) db) k = recordAt t' db k := by
        rw [recordAt,unlinkedAll_other _ (fun l hl => junction_ne ht' hl) db,recordAt]
      rw [← hrecord]
      exact recordAt_alike ht' (alike_managed fun c hfree => Related.deleteStamp_unmanaged hfree) k
    rw [bind_run hbody]
    cases hkey : site.logKey pk with
    | none =>
      have hlogged : site.log t pk .delete userId [] (trashed site t pk userId now db) =
          ⟨trashed site t pk userId now db,[],.error .integrity⟩ := by
        rw [Site.log,if_pos haudited,hkey]
        rfl
      rw [bind_stop hlogged]
      exact ⟨hafter,complete_alike h halike (Or.inl rfl)⟩
    | some key =>
      have hlogged : site.log t pk .delete userId [] (trashed site t pk userId now db) =
          ⟨trashed site t pk userId now db,[⟨t.physName,key,.delete,userId,[]⟩],.ok ()⟩ := by
        rw [Site.log,if_pos haudited,hkey]
        rfl
      have hkept : Complete site ⟨trashed site t pk userId now db,log++[⟨t.physName,key,.delete,userId,[]⟩]⟩ :=
        complete_alike h halike (Or.inr ⟨_,rfl,fun t' ht' => replayed_trash ht ht' hsoft rfl rfl⟩)
      rw [bind_run hlogged,bind_run (fired_run hsilent _ _ _ _)]
      cases hrow : site.getRow t pk db with
      | none => exact ⟨hafter,hkept⟩
      | some row =>
        simp only [ripple_settled hafter (hsettles hafter row hrow)]
        exact ⟨hafter,hkept⟩
  · rw [bind_stop hbody,List.append_nil]
    refine ⟨hdb',fun t' ht' k => ?_⟩
    have hrecord : recordAt t' db' k = recordAt t' db k := by
      rw [recordAt,hsame t' ht',recordAt]
    change Option.Rel (Same site t') (replay t' log k) (recordAt t' db' k)
    rw [hrecord]
    exact h t' ht' k

/-- Of the rows that refer to a record only its own depend on it. -/
theorem depends_self (ht : t ∈ site.tables) (hfree : Unreferenced site t pk (Dependent site t pk) db) {t' : MetaTable}
    (ht' : t' ∈ site.tables) {k : ForeignKey} (hk : k ∈ site.foreignKeys) (htable : k.table = t'.physName)
    (haction : k.onDelete ≠ .restrict) {row : Row} (hrow : row ∈ db t'.physName)
    (hkey : (k.parent,row k.column) = (t.physName,site.key t pk)) :
    t' = t ∧ site.equals t.physName t.pkCol pk row = true := by
  obtain ⟨hparent,hvalue⟩ := Prod.mk.inj hkey
  rcases foreignKey_cases ht hk hparent with ⟨child,rel,hmem,hchild,hrel⟩ | ⟨rel,that,other,hlink⟩
  · have hin : child ∈ site.tables := (Schema.table_mem (Schema.mem_incomingM1 hmem).2.2.2.1).1
    obtain rfl := table_unique hin ht' (hchild.trans htable)
    by_contra hother
    exact hfree child k.column rel hmem row hrow ⟨hrel ▸ haction,hother⟩ hvalue
  · exact absurd htable.symm (junction_ne ht' hlink)

theorem gone_self (ht : t ∈ site.tables) (hfree : site.enforced = true → Unreferenced site t pk (Dependent site t pk) db) :
    ∀ x ∈ site.gone t.physName (site.equals t.physName t.pkCol pk) db, x = (t.physName,site.key t pk) := by
  have hrounds : Unreferenced site t pk (Dependent site t pk) db → ∀ n lost, (∀ x ∈ lost, x = (t.physName,site.key t pk)) →
      ∀ x ∈ site.cascaded n db lost, x = (t.physName,site.key t pk) := by
    intro hfree n
    induction n with
    | zero => exact fun _ hlost => hlost
    | succ n ih =>
      refine fun lost hlost => ih _ fun x hx => ?_
      rcases List.mem_append.mp hx with hx | hx
      · exact hlost x hx
      · obtain ⟨t',ht',hx⟩ := List.mem_flatMap.mp hx
        obtain ⟨row,hrow,hloses,rfl⟩ := (mem_keysOf ht').mp hx
        obtain ⟨k,hk,hlose⟩ := List.any_eq_true.mp hloses
        obtain ⟨htable,haction,hkey⟩ := of_decide_eq_true hlose
        obtain ⟨rfl,hself⟩ := depends_self ht hfree ht' hk htable (by simp [haction]) hrow (hlost _ hkey)
        rw [of_decide_eq_true hself]
        rfl
  intro x hx
  rw [gone] at hx
  split at hx
  · rename_i henforced
    exact hrounds (hfree henforced) _ _ (fun x hx => keysOf_key ht hx) x hx
  · cases hx

/-- A deletion of a record on which no other depends takes its row and no other. -/
theorem deleted_rows (ht : t ∈ site.tables) (hfree : site.enforced = true → Unreferenced site t pk (Dependent site t pk) db)
    {t' : MetaTable} (ht' : t' ∈ site.tables) : deleted site t pk db t'.physName =
      (db t'.physName).filter fun row => !(decide (t'.physName = t.physName) && site.equals t.physName t.pkCol pk row) := by
  have hgone := gone_self ht hfree
  have hself : ∀ k ∈ site.foreignKeys, k.table = t'.physName → k.onDelete ≠ .restrict → ∀ row ∈ db t'.physName,
      (k.parent,row k.column) ∈ site.gone t.physName (site.equals t.physName t.pkCol pk) db →
        t'.physName = t.physName ∧ site.equals t.physName t.pkCol pk row = true := by
    intro k hk htable haction row hrow hlost
    have henforced : site.enforced = true := by
      by_contra hnot
      rw [gone,if_neg hnot] at hlost
      cases hlost
    obtain ⟨rfl,hrecord⟩ := depends_self ht (hfree henforced) ht' hk htable haction hrow (hgone _ hlost)
    exact ⟨rfl,hrecord⟩
  have hkept : ∀ row ∈ db t'.physName, ¬(t'.physName = t.physName ∧ site.equals t.physName t.pkCol pk row = true) →
      site.loses .cascade (site.gone t.physName (site.equals t.physName t.pkCol pk) db) t'.physName row = false := by
    intro row hrow hother
    refine List.any_eq_false.mpr fun k hk hlose => hother ?_
    obtain ⟨htable,haction,hlost⟩ := of_decide_eq_true hlose
    exact hself k hk htable (by simp [haction]) row hrow hlost
  have hrows : (db t'.physName).filter (fun row => !(decide (t'.physName = t.physName) && site.equals t.physName t.pkCol pk row) &&
      !site.loses .cascade (site.gone t.physName (site.equals t.physName t.pkCol pk) db) t'.physName row) =
        (db t'.physName).filter fun row => !(decide (t'.physName = t.physName) && site.equals t.physName t.pkCol pk row) := by
    refine List.filter_congr fun row hrow => ?_
    by_cases hrecord : t'.physName = t.physName ∧ site.equals t.physName t.pkCol pk row = true
    · simp [hrecord.1,hrecord.2]
    · rw [hkept row hrow hrecord,Bool.not_false,Bool.and_true]
  rw [deleted,← hrows]
  refine (List.map_congr_left fun row hrow => ?_).trans (List.map_id _)
  obtain ⟨hmem,hstays⟩ := List.mem_filter.mp hrow
  funext c
  rcases orphaned_cases _ t'.physName row c with hsame | ⟨-,k,hk,htable,rfl,hlost,haction⟩
  · exact hsame
  · obtain ⟨hname,hrecord⟩ := hself k hk htable (by simp [haction]) row hmem hlost
    simp [hname,hrecord] at hstays

theorem recordAt_deleted (ht : t ∈ site.tables) (hfree : site.enforced = true → Unreferenced site t pk (Dependent site t pk) db)
    {t' : MetaTable} (ht' : t' ∈ site.tables) (k : Value) : recordAt t' (deleted site t pk db) k =
      if t.physName = t'.physName ∧ site.key t pk = k then none else recordAt t' db k := by
  rw [recordAt,deleted_rows ht hfree ht']
  by_cases hname : t.physName = t'.physName
  · obtain rfl := table_unique ht ht' hname
    have hkeep : (fun row : Row => !(decide (t.physName = t.physName) && site.equals t.physName t.pkCol pk row)) =
        fun row => !decide (row t.pkCol = site.key t pk) := funext fun row => by
      rw [decide_eq_true rfl,Bool.true_and]
      rfl
    rw [hkeep,Keyed.find_filter fun v => !decide (v = site.key t pk)]
    by_cases hk : site.key t pk = k
    · rw [if_neg (by simp [hk]),if_pos ⟨rfl,hk⟩]
    · rw [if_pos (by simpa using Ne.symm hk),if_neg fun hboth => hk hboth.2,recordAt]
  · have hkeep : (fun row : Row => !(decide (t'.physName = t.physName) && site.equals t.physName t.pkCol pk row)) =
        fun _ => true := funext fun row => by rw [decide_eq_false (Ne.symm hname),Bool.false_and,Bool.not_false]
    rw [hkeep,List.filter_true,if_neg fun hboth => hname hboth.1,recordAt]

theorem remove_complete (ht : t ∈ site.tables) (hhard : t.softDelete = false) (h : Complete site ⟨db,log⟩)
    (hfree : site.enforced = true → Unreferenced site t pk (Dependent site t pk) db) (userId : Option ℕ) :
    Complete site ⟨deleted site t pk db,log++[⟨t.physName,site.key t pk,.delete,userId,[]⟩]⟩ := by
  intro t' ht' k
  rw [replay_snoc,recordAt_deleted ht hfree ht']
  by_cases hrecord : t.physName = t'.physName ∧ site.key t pk = k
  · obtain rfl := table_unique ht ht' hrecord.1
    rw [if_pos hrecord,replayed,if_pos hrecord,hhard]
    exact .none
  · rw [if_neg hrecord,replayed_other hrecord]
    exact h t' ht' k

theorem remove_hard (hsilent : Silent site) (ht : t ∈ site.tables) (haudited : t.trackAudit = true) (hdb : site.Admitted db)
    (h : Complete site ⟨db,log⟩) {userId : Option ℕ} {now : ℤ} (hhard : t.softDelete = false)
    (hclean : RemoveClean site t pk userId now db) :
    site.Admitted (site.remove t pk userId now db).state ∧
      Complete site ⟨(site.remove t pk userId now db).state,log++(site.remove t pk userId now db).out⟩ := by
  rw [RemoveClean,if_neg (by simp [hhard])] at hclean
  rw [Site.remove,withState_apply]
  simp only [hhard,Bool.false_eq_true,if_false]
  by_cases hafter : site.Admitted (deleted site t pk db)
  · obtain ⟨hfree,hlogged,hsettled⟩ := hclean hafter
    have hdelete : site.deleteRow t pk db = ⟨deleted site t pk db,[],.ok ()⟩ := statement_run hafter
    rw [bind_run hdelete,bind_run (log_run haudited hlogged _ _ _ _),bind_run (fired_run hsilent _ _ _ _)]
    cases hrow : site.getRow t pk db with
    | none => exact ⟨hafter,remove_complete ht hhard h hfree userId⟩
    | some row =>
      simp only [ripple_settled hafter (hsettled row hrow)]
      exact ⟨hafter,remove_complete ht hhard h hfree userId⟩
  · have hdelete : site.deleteRow t pk db = ⟨db,[],.error .integrity⟩ := statement_stop hafter
    rw [bind_stop hdelete,List.append_nil]
    exact ⟨hdb,h⟩

theorem remove_good (hsilent : Silent site) (ht : t ∈ site.tables) (haudited : t.trackAudit = true) (hdb : site.Admitted db)
    (h : Complete site ⟨db,log⟩) {userId : Option ℕ} {now : ℤ} (hclean : RemoveClean site t pk userId now db) :
    site.Admitted (site.remove t pk userId now db).state ∧
      Complete site ⟨(site.remove t pk userId now db).state,log++(site.remove t pk userId now db).out⟩ := by
  cases hsoft : t.softDelete with
  | true => exact remove_soft hsilent ht haudited hdb h hsoft hclean
  | false => exact remove_hard hsilent ht haudited hdb h hsoft hclean

end Complete

/-! ### Whole runs -/

section Runs

variable {site : Site}

theorem discard_run {α : Type} (p : Service α) (db : Tables) : ((p >>= fun _ => pure ()) db).state = (p db).state ∧
    ((p >>= fun _ => pure ()) db).out = (p db).out := by
  rw [bind_def]
  cases (p db).result with
  | error e => exact ⟨rfl,rfl⟩
  | ok a => exact ⟨rfl,List.append_nil _⟩

theorem step_good (hsilent : Silent site) (haudited : ∀ t ∈ site.tables, t.trackAudit = true) {S : State}
    (hdb : site.Admitted S.tables) (h : Complete site S) {op : Op site} (hclean : Clean site S.tables op) :
    site.Admitted (step S op).tables ∧ Complete site (step S op) := by
  cases op with
  | create t values generated userId now =>
    have hgood := create_good hsilent t.2 (haudited t.1 t.2) hdb h hclean
    rw [step,Op.run,(discard_run _ S.tables).1,(discard_run _ S.tables).2]
    exact hgood
  | update t pk values userId now => exact update_good hsilent t.2 (haudited t.1 t.2) hdb h hclean
  | remove t pk userId now => exact remove_good hsilent t.2 (haudited t.1 t.2) hdb h hclean
  | restore t pk userId => exact restore_good (haudited t.1 t.2) hdb h userId

/-- Nothing is stored, and nothing logged. -/
def emptyState : State := ⟨fun _ => [],[]⟩

theorem complete_empty (site : Site) : Complete site emptyState := fun _ _ _ => .none

theorem settled_of_none {db : Tables} {ps : List (MetaTable × Row)} (h : ∀ p ∈ ps, ¬Recomputes p) : Settled site db ps := by
  induction ps with
  | nil => trivial
  | cons p ps ih =>
    rw [Settled,if_neg (h p List.mem_cons_self)]
    exact ih fun q hq => h q (List.mem_cons_of_mem p hq)

end Runs

/-! ### A shop -/

def nameField : MetaField where
  id := 1
  physName := "name"
  label := "Name"
  dataType := .text

def customerField : MetaField where
  id := 2
  physName := "customer"
  label := "Customer"
  dataType := .relation
  relatedTableId := some 1

def customers : MetaTable where
  id := 1
  physName := "customers"
  label := "Customers"
  trackAudit := true
  softDelete := true
  fields := [nameField]
  idsNodup := by decide
  namesNodup := by decide
  namesFree := by decide

def orders : MetaTable where
  id := 2
  physName := "orders"
  label := "Orders"
  trackAudit := true
  fields := [customerField]
  idsNodup := by decide
  namesNodup := by decide
  namesFree := by decide

def shopSchema : Schema where
  tables := [customers,orders]
  relations := [⟨"Customer",.m1,2,1,some 2,none⟩]

def shop : Site := Site.plain shopSchema
  (fun name => (if name = "customers" then ["id","name"] else ["id","customer"])++managed) (fun _ _ => true)
  (fun _ => "") (fun _ => true) (by decide) (by decide) (by decide) (by decide) (by decide) (by decide) (by decide) (by decide)

theorem shop_silent : Silent shop := fun _ _ _ _ _ _ => rfl

theorem shop_audited : ∀ t ∈ shop.tables, t.trackAudit = true := by decide

theorem shop_empty : shop.Admitted emptyState.tables := by
  change shop.admits emptyState.tables = true
  decide

/-- A customer with an order. -/
def ordered : List (Op shop) :=
  [.create ⟨customers,List.mem_cons_self⟩ [("name",.text "Ada")] (.int 1) none 0,
    .create ⟨orders,List.mem_cons_of_mem _ List.mem_cons_self⟩ [("customer",.int 1)] (.int 10) none 0]

end AuditReplay
end Biggy
