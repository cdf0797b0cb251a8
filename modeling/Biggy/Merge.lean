import Biggy.DatabaseFrame

/-!
# Merging two records

`merge` folds a duplicate into a survivor: the foreign keys that point at it are repointed, its links move over, the
survivor's empty fields are filled, and it is removed. Each of these calls commits on its own; `unchanged_iff` says
which merges leave every row and link as it was when they raise.
-/
namespace Biggy
namespace Merge

open Relations Commits Commits.Prog Database Database.Site RecordService
open Related (rowOf deleteStamp)

section Definitions

variable (site : Site) (t : MetaTable)

/-- `_fillable_cols`. -/
def fillableCols : List String :=
  (t.fields.filter fun f => decide (f.dataType ∉ [DataType.file,.image])).map MetaField.physName

/-- `_fills`; a field without a column is in neither row. -/
def fills (survivor duplicate : Row) : Values :=
  ((fillableCols t).filter fun c =>
    (site.columns t.physName).contains c && (survivor c).blank && !(duplicate c).blank).map fun c => (c,duplicate c)

def repoint (survivorPk dupPk : Value) : MetaTable × String × MetaRelation → Service ℕ
  | (child,fk,_) => site.repointFk child.physName fk dupPk survivorPk

/-- The union of the links of both, for the survivor, and none for the duplicate. -/
def moveLinks (survivorPk dupPk : Value) : MetaRelation × String × String × String × MetaTable → Service ℕ
  | (_,j,this,that,_) => withState fun db =>
    let dupIds := site.getLinks j this dupPk that db
    if dupIds = [] then pure 0 else do
      site.setLinks j this survivorPk that (Keyed.distinct id (site.getLinks j this survivorPk that db ++ dupIds))
      site.deleteWhere j this dupPk
      pure dupIds.length

structure Summary where
  repointed : ℕ
  movedLinks : ℕ
  filled : ℕ

/-- `merge`; `now` and `later` are the times of the update and of the removal. -/
def merge (survivorPk dupPk : Value) (userId : Option ℕ) (now later : ℤ) : Service Summary :=
  if site.str survivorPk = site.str dupPk then
    raise (.python (.valueError "Survivor and duplicate are the same record."))
  else withState fun db =>
    match site.getRow t survivorPk db, site.getRow t dupPk db with
    | some survivor, some duplicate => do
      let repointed ← (site.incomingM1 t).mapM (repoint site survivorPk dupPk)
      let movedLinks ← (site.mnLinks t).mapM (moveLinks site survivorPk dupPk)
      let filled := fills site t survivor duplicate
      (if filled = [] then pure () else site.update t survivorPk filled userId now)
      site.remove t dupPk userId later
      pure ⟨repointed.sum,movedLinks.sum,filled.length⟩
    | _, _ => raise (.python (.valueError "Both records must exist."))

/-! ### The calls of a merge -/

/-- The last calls of a removal: the record goes, and the log says so. -/
def finish (dupPk : Value) (userId : Option ℕ) (later : ℤ) : Service Unit := do
  (if t.softDelete then site.updateRow t dupPk (deleteStamp userId later) else site.deleteRow t dupPk)
  site.log t dupPk .delete userId []

/-- What follows the last call of a removal. -/
def aftermath (dupPk : Value) (userId : Option ℕ) (old : Option Row) : Service Unit := do
  site.fired t .delete dupPk old userId
  match old with
  | some row => site.ripple t row
  | none => pure ()

/-- The calls by which references leave the duplicate. -/
def moving (survivorPk dupPk : Value) : List (Service Unit) :=
  (site.incomingM1 t).map (fun p => void (repoint site survivorPk dupPk p)) ++
    (site.mnLinks t).map fun l => void (moveLinks site survivorPk dupPk l)

def filling (survivorPk : Value) (survivor duplicate : Row) (userId : Option ℕ) (now : ℤ) : List (Service Unit) :=
  if fills site t survivor duplicate = [] then []
  else [site.update t survivorPk (fills site t survivor duplicate) userId now]

/-- The calls by which a removal takes the references to a record away, when it goes to the trash. -/
def clearing (dupPk : Value) : List (Service Unit) :=
  if t.softDelete then (site.mnLinks t).map (site.unlink dupPk) ++ (site.incomingM1 t).map (site.dissociate dupPk) else []

def calls (survivorPk dupPk : Value) (survivor duplicate : Row) (userId : Option ℕ) (now later : ℤ) :
    List (Service Unit) :=
  moving site t survivorPk dupPk ++ (filling site t survivorPk survivor duplicate userId now ++
    (clearing site t dupPk ++ [finish site t dupPk userId later]))

/-- The merge is turned down at the start, or the first of its calls that has anything to write is refused. -/
def Blocked (survivorPk dupPk : Value) (userId : Option ℕ) (now later : ℤ) (db : Tables) : Prop :=
  site.str survivorPk = site.str dupPk ∨
    match site.getRow t survivorPk db, site.getRow t dupPk db with
    | some survivor, some duplicate => FirstRefused (calls site t survivorPk dupPk survivor duplicate userId now later) db
    | _, _ => True

/-- A foreign key, or the side of a junction, that refers to the records of the table. -/
def Refers (name col : String) : Prop :=
  (∃ child rel, (child,col,rel) ∈ site.incomingM1 t ∧ child.physName = name) ∨
    ∃ rel that other, (rel,name,col,that,other) ∈ site.mnLinks t

end Definitions

section Course

variable {site : Site} {t : MetaTable} {survivorPk dupPk : Value} {userId : Option ℕ} {now later : ℤ}

theorem aftermath_ends (old : Option Row) (db : Tables) : ¬Raises (aftermath site t dupPk userId old) db := by
  cases old with
  | none => exact not_raises.mpr ⟨(),rfl⟩
  | some row => exact not_raises.mpr ⟨(),rfl⟩

theorem remove_eq : site.remove t dupPk userId later = withState fun db =>
    runAll (clearing site t dupPk ++ [finish site t dupPk userId later]) >>= fun _ =>
      aftermath site t dupPk userId (site.getRow t dupPk db) := by
  rw [runAll_append,runAll_singleton,finish,clearing,remove]
  split
  · simp only [runAll_append,runAll_map,bind_assoc]
    rfl
  · have hnil : (runAll [] : Service Unit) = pure () := rfl
    simp only [hnil,pure_bind,bind_assoc]
    rfl

/-- A removal takes the course of its calls; what follows them stops nothing. -/
theorem remove_course : SameStop (site.remove t dupPk userId later)
    (runAll (clearing site t dupPk ++ [finish site t dupPk userId later])) := by
  rw [remove_eq]
  exact fun db => sameStop_tail (fun _ => aftermath_ends (site.getRow t dupPk db)) db

/-- A merge of two records that are there takes the course of its calls. -/
theorem merge_course {db : Tables} {survivor duplicate : Row} (hne : site.str survivorPk ≠ site.str dupPk)
    (hs : site.getRow t survivorPk db = some survivor) (hd : site.getRow t dupPk db = some duplicate) :
    Refused (merge site t survivorPk dupPk userId now later) db ↔
      Refused (runAll (calls site t survivorPk dupPk survivor duplicate userId now later)) db := by
  have hmerge : Refused (merge site t survivorPk dupPk userId now later) db ↔ Refused (do
      let repointed ← (site.incomingM1 t).mapM (repoint site survivorPk dupPk)
      let movedLinks ← (site.mnLinks t).mapM (moveLinks site survivorPk dupPk)
      (if fills site t survivor duplicate = [] then pure ()
        else site.update t survivorPk (fills site t survivor duplicate) userId now)
      site.remove t dupPk userId later
      pure ⟨repointed.sum,movedLinks.sum,(fills site t survivor duplicate).length⟩ : Service Summary) db := by
    simp only [Refused,Raises,merge,if_neg hne,withState,hs,hd]
  rw [hmerge]
  refine SameStop.refused_iff ?_ db
  rw [calls,moving,filling,runAll_append,runAll_append,runAll_append,bind_assoc]
  refine sameStop_bind (sameCourse_mapM _ _) fun repointed _ => sameStop_bind (sameCourse_mapM _ _) fun moved _ =>
    sameStop_bind ?_ fun _ _ => SameStop.trans (sameStop_tail fun _ _ => not_raises.mpr ⟨_,rfl⟩) remove_course
  split
  · exact SameCourse.refl _
  · rw [runAll_singleton]
    exact SameCourse.refl _

end Course

/-! ### References that have left the duplicate do not come back -/

/-- Two records of a table in a database that is as its constraints want it. -/
structure Situation (site : Site) (t : MetaTable) (survivorPk dupPk : Value) (db : Tables) (survivor duplicate : Row) :
    Prop where
  mem : t ∈ site.tables
  admitted : site.Admitted db
  survivorAt : site.getRow t survivorPk db = some survivor
  duplicateAt : site.getRow t dupPk db = some duplicate

/-- In the column only the survivor may refer to the duplicate, and only if that is allowed. -/
def Left (site : Site) (t : MetaTable) (survivorPk dupPk : Value) (allowed : Prop) (name col : String) (db : Tables) : Prop :=
  site.Admitted db ∧ ∀ row ∈ db name, row col = site.key t dupPk →
    name = t.physName ∧ row t.pkCol = site.key t survivorPk ∧ allowed

section Left

variable {site : Site} {t : MetaTable} {survivorPk dupPk : Value} {userId : Option ℕ} {now later : ℤ} {db₀ : Tables}
  {survivor duplicate : Row} {allowed : Prop} {name col : String}

theorem refers_plain (ht : t ∈ site.tables) (h : Refers site t name col) :
    ¬site.Computed name col ∧ ¬site.Stamped name col := by
  rcases h with ⟨child,rel,hmem,rfl⟩ | ⟨rel,that,other,hmem⟩
  · obtain ⟨-,f,hf,rfl,htype⟩ := site.fkField t ht child col rel hmem
    exact field_plain (Schema.table_mem (Schema.mem_incomingM1 hmem).2.2.2.1).1 hf (by rw [htype]; decide)
  · exact junction_plain hmem col

theorem Situation.dup_ne_null (h : Situation site t survivorPk dupPk db₀ survivor duplicate) :
    site.key t dupPk ≠ .null := by
  obtain ⟨hmem,hkey⟩ := getRow_mem h.duplicateAt
  rw [← hkey]
  exact (site.sound db₀ h.admitted).keysHeld t h.mem duplicate hmem

theorem left_of_wanes (ht : t ∈ site.tables) (hrefers : Refers site t name col) (hnull : site.key t dupPk ≠ .null)
    {α : Type} {p : Service α} (hwanes : Keeps site.Wanes p)
    (hadmitted : Preserves site.Admitted p) : Preserves (Left site t survivorPk dupPk allowed name col) p := by
  rintro db ⟨hdb,hleft⟩
  have hdb' := hadmitted db hdb
  refine ⟨hdb',fun row' hrow' hcol => ?_⟩
  obtain ⟨row,hrow,hfaded⟩ := hwanes db name row' hrow'
  obtain ⟨hplain,hfree⟩ := refers_plain ht hrefers
  have hsame : row col = site.key t dupPk := by
    rcases hfaded col hplain hfree with hsame | hgone
    · rw [← hsame,hcol]
    · exact absurd (hcol.symm.trans hgone) hnull
  obtain ⟨rfl,hpk,hne⟩ := hleft row hrow hsame
  refine ⟨rfl,?_,hne⟩
  rcases hfaded t.pkCol (pk_plain ht).1 (pk_plain ht).2 with hkept | hgone
  · rw [hkept,hpk]
  · exact absurd hgone ((site.sound _ hdb').keysHeld t ht row' hrow')

theorem left_repoint (ht : t ∈ site.tables) {p : MetaTable × String × MetaRelation} (hp : p ∈ site.incomingM1 t) :
    Preserves (Left site t survivorPk dupPk allowed name col) (repoint site survivorPk dupPk p) := by
  obtain ⟨child,fk,rel⟩ := p
  have hcast := site.fkCast t ht child fk rel hp
  rw [repoint,repointFk]
  split
  · refine keeps_withState fun db => preserves_bind ?_ fun _ => preserves_pure _
    refine keeps_statement (fun _ => id) ?_
    rintro db hdb' ⟨hdb,hleft⟩
    refine ⟨hdb',fun row' hrow' hcol => ?_⟩
    obtain ⟨row,hrow,⟨-,hp,rfl⟩ | ⟨-,rfl⟩⟩ := mem_rewritten hrow'
    · have hfk : row fk = site.key t dupPk := by
        rw [equals,decide_eq_true_eq,hcast] at hp
        exact hp
      have hwrite : ∀ c, (row.write [(fk,site.cast child.physName fk survivorPk)]) c =
          if c = fk then site.key t survivorPk else row c := by
        intro c
        rw [Row.write,Values.lookup_singleton,hcast]
        split <;> rfl
      have hsame : row col = site.key t dupPk := by
        rw [hwrite] at hcol
        split at hcol
        · rwa [‹col = fk›]
        · exact hcol
      obtain ⟨hname,hpk,hne⟩ := hleft row hrow hsame
      refine ⟨hname,?_,hne⟩
      rw [hwrite]
      split
      · rfl
      · exact hpk
    · exact hleft row' hrow hcol
  · exact preserves_pure _

theorem refers_junction (ht : t ∈ site.tables) (hrefers : Refers site t name col) {rel : MetaRelation} {j this that : String}
    {other : MetaTable} (hl : (rel,j,this,that,other) ∈ site.mnLinks t) (hname : name = j) : col = this ∨ col = that := by
  subst hname
  rcases hrefers with ⟨child,rel',hmem,hname⟩ | ⟨rel',that',other',hmem⟩
  · exact absurd hname (junction_ne (Schema.table_mem (Schema.mem_incomingM1 hmem).2.2.2.1).1 hl)
  · exact (same_junction ht hl hmem).imp And.left And.left

theorem left_setLinks {j this that : String} {ids : List Value}
    (hvalues : name = j → ∀ v ∈ ids, rowOf [(this,site.cast j this survivorPk),(that,site.cast j that v)] col ≠ site.key t dupPk) :
    Preserves (Left site t survivorPk dupPk allowed name col) (site.setLinks j this survivorPk that ids) := by
  refine keeps_withState fun db => preserves_transact fun change hchange => ?_
  rintro db' hdb' ⟨-,hleft⟩
  refine ⟨hdb',fun row' hrow' hcol => ?_⟩
  by_cases hname : name = j
  · rcases List.mem_append.mp hchange with hlink | hunlink
    · obtain ⟨w,hw,rfl⟩ := List.mem_map.mp hlink
      obtain ⟨v,hv,rfl⟩ := List.mem_map.mp (List.mem_dedup.mp (List.mem_filter.mp hw).1)
      rw [linked,hname,Function.update_self] at hrow'
      rcases List.mem_append.mp hrow' with hold | hnew
      · exact hleft row' (hname ▸ hold) hcol
      · rw [List.mem_singleton.mp hnew] at hcol
        exact absurd hcol (hvalues hname v hv)
    · split at hunlink
      · cases hunlink
      · rw [List.mem_singleton.mp hunlink,unlinked,hname,Function.update_self] at hrow'
        exact hleft row' (hname ▸ (List.mem_filter.mp hrow').1) hcol
  · have hsame : change db' name = db' name := by
      rcases List.mem_append.mp hchange with hlink | hunlink
      · obtain ⟨w,-,rfl⟩ := List.mem_map.mp hlink
        rw [linked,Function.update_of_ne hname]
      · split at hunlink
        · cases hunlink
        · rw [List.mem_singleton.mp hunlink,unlinked,Function.update_of_ne hname]
    exact hleft row' (hsame ▸ hrow') hcol

theorem left_moveLinks (h : Situation site t survivorPk dupPk db₀ survivor duplicate) (hrefers : Refers site t name col)
    {l : MetaRelation × String × String × String × MetaTable} (hl : l ∈ site.mnLinks t) :
    Preserves (Left site t survivorPk dupPk allowed name col) (moveLinks site survivorPk dupPk l) := by
  obtain ⟨rel,j,this,that,other⟩ := l
  have hcast := site.linkCast t h.mem rel j this that other hl
  intro db hleft
  change Left site t survivorPk dupPk allowed name col ((if site.getLinks j this dupPk that db = [] then pure 0 else do
      site.setLinks j this survivorPk that
        (Keyed.distinct id (site.getLinks j this survivorPk that db ++ site.getLinks j this dupPk that db))
      site.deleteWhere j this dupPk
      pure (site.getLinks j this dupPk that db).length : Service ℕ) db).state
  split
  · exact hleft
  · rename_i hsome
    refine preserves_bind (left_setLinks fun hname v hv => ?_) (fun _ => preserves_bind
      (left_of_wanes h.mem hrefers h.dup_ne_null (wanes_deleteWhere _ _ _) (admitted_deleteWhere _ _ _)) fun _ =>
      preserves_pure _) db hleft
    subst hname
    have hfree : ∀ row ∈ db name, row col ≠ site.key t dupPk := fun row hrow hcol =>
      junction_ne h.mem hl (hleft.2 row hrow hcol).1.symm
    have hids : ∃ row ∈ db name, row that = v := by
      obtain ⟨w,hw,rfl⟩ := Keyed.exists_mem_distinct.mp ⟨v,hv,rfl⟩
      rcases List.mem_append.mp hw with hw | hw
      · obtain ⟨row,hrow,-,hthat⟩ := mem_getLinks.mp hw
        exact ⟨row,hrow,hthat⟩
      · obtain ⟨row,hrow,-,hthat⟩ := mem_getLinks.mp hw
        exact ⟨row,hrow,hthat⟩
    obtain ⟨row,hrow,rfl⟩ := hids
    rw [link_row,(site.sound db hleft.1).typed name row hrow]
    rcases refers_junction h.mem hrefers hl rfl with rfl | rfl
    · obtain ⟨w,hw⟩ := List.exists_mem_of_ne_nil _ hsome
      obtain ⟨row',hrow',hthis,-⟩ := mem_getLinks.mp hw
      rw [hcast] at hthis
      exact absurd hthis (hfree row' hrow')
    · rw [if_neg (this_ne_that hl).symm,if_pos rfl]
      exact hfree row hrow

theorem lookup_graph (f : String → Value) (cs : List String) (c : String) :
    (cs.map fun c => (c,f c)).lookup c = if c ∈ cs then some (f c) else none := by
  induction cs with
  | nil => rfl
  | cons k cs ih =>
    rw [List.map_cons,List.lookup_cons]
    by_cases h : c = k
    · simp [h]
    · have hb : (c == k) = false := by simpa using h
      simp [hb,h,ih]

/-- What is filled is the duplicate's value, where the survivor has none. -/
theorem lookup_fills (c : String) : (fills site t survivor duplicate).lookup c =
    if c ∈ fillableCols t ∧ c ∈ site.columns t.physName ∧ (survivor c).blank = true ∧ (duplicate c).blank = false
      then some (duplicate c) else none := by
  rw [fills,lookup_graph]
  simp [and_assoc]

theorem fills_lookup {c : String} {v : Value} (h : (fills site t survivor duplicate).lookup c = some v) :
    v = duplicate c ∧ (survivor c).blank = true ∧ (duplicate c).blank = false := by
  rw [lookup_fills] at h
  split at h
  · rename_i hc
    exact ⟨(Option.some.inj h).symm,hc.2.2⟩
  · cases h

theorem left_update (h : Situation site t survivorPk dupPk db₀ survivor duplicate) (hquiet : site.Quiet)
    (hrefers : Refers site t name col) (hallowed : name = t.physName → (survivor col).blank = true →
      (duplicate col).blank = false → duplicate col = site.key t dupPk → allowed) : Preserves (Left site t survivorPk dupPk allowed name col)
      (site.update t survivorPk (fills site t survivor duplicate) userId now) := by
  have hripple : ∀ row, Preserves (Left site t survivorPk dupPk allowed name col) (site.ripple t row) := fun row =>
    left_of_wanes h.mem hrefers h.dup_ne_null (fun db => (alike_ripple t row db).wanes fun _ _ => Or.inl)
      (admitted_ripple t row)
  refine keeps_update (R := fun a b => Left site t survivorPk dupPk allowed name col a →
    Left site t survivorPk dupPk allowed name col b) (fun _ => id) (fun _ _ _ hab hbc => hbc ∘ hab) hquiet ?_ hripple
  rintro db db' hdb' ⟨-,hleft⟩
  refine ⟨hdb',fun row' hrow' hcol => ?_⟩
  obtain ⟨row,hrow,⟨rfl,hp,rfl⟩ | ⟨-,rfl⟩⟩ := mem_rewritten hrow'
  · rw [equals,decide_eq_true_eq] at hp
    obtain ⟨hplain,hfree⟩ := refers_plain h.mem hrefers
    refine ⟨rfl,(write_stored_pk t row _).trans hp,?_⟩
    rw [Row.write,lookup_stored,written,
      lookup_updated h.mem hplain (Related.auditStamp_unmanaged (unstamped h.mem hfree))] at hcol
    split at hcol
    · cases hv : (fills site t survivor duplicate).lookup col with
      | none =>
        rw [hv] at hcol
        exact (hleft row hrow hcol).2.2
      | some v =>
        rw [hv] at hcol
        obtain ⟨rfl,hblank,hsome⟩ := fills_lookup hv
        have hcast := (site.sound db₀ h.admitted).typed t.physName duplicate (getRow_mem h.duplicateAt).1 col
        exact hallowed rfl hblank hsome (hcast.symm.trans hcol)
    · exact (hleft row hrow hcol).2.2
  · exact hleft _ hrow hcol

theorem wanes_finish (ht : t ∈ site.tables) : Keeps site.Wanes (finish site t dupPk userId later) := by
  refine keeps_bind (R := site.Wanes) (fun _ _ _ => Wanes.trans) ?_ fun _ => keeps_log Wanes.refl _ _ _ _ _
  split
  · refine keeps_statement Wanes.refl fun db _ =>
      (@alike_rewritten site.Stamped _ _ _ (fun c hc => ⟨⟨t,ht,rfl⟩,?_⟩) db).wanes fun _ _ => Or.inr
    by_contra hfree
    rw [lookup_stored,Related.deleteStamp_unmanaged hfree] at hc
    exact hc (ite_self _)
  · exact keeps_statement Wanes.refl fun db _ => wanes_erased _ _ db

theorem admitted_finish : Preserves site.Admitted (finish site t dupPk userId later) := by
  refine preserves_bind ?_ fun _ => keeps_log (R := fun a b => site.Admitted a → site.Admitted b) (fun _ => id) _ _ _ _ _
  split <;> exact admitted_statement _

/-! ### The first change is not undone -/

/-- A reference that was the duplicate's has left it. -/
def Moved (site : Site) (t : MetaTable) (survivorPk dupPk : Value) (survivor : Row) (db₀ db : Tables) : Prop :=
  ∃ name col, Refers site t name col ∧ (∃ row ∈ db₀ name, row col = site.key t dupPk) ∧
    Left site t survivorPk dupPk (survivor col ≠ site.key t dupPk) name col db

theorem moved_apart (h : Situation site t survivorPk dupPk db₀ survivor duplicate) :
    ¬Moved site t survivorPk dupPk survivor db₀ db₀ := by
  rintro ⟨name,col,-,⟨row,hrow,hcol⟩,-,hleft⟩
  obtain ⟨rfl,hpk,hne⟩ := hleft row hrow hcol
  obtain rfl := Option.some.inj (h.survivorAt.symm.trans (getRow_eq h.mem h.admitted hrow hpk))
  exact hne hcol

theorem moved_preserved {α : Type} {p : Service α}
    (h : ∀ name col, Refers site t name col →
      Preserves (Left site t survivorPk dupPk (survivor col ≠ site.key t dupPk) name col) p) :
    Preserves (Moved site t survivorPk dupPk survivor db₀) p := by
  rintro db ⟨name,col,hrefers,hbefore,hleft⟩
  exact ⟨name,col,hrefers,hbefore,h name col hrefers db hleft⟩

theorem moved_of_wanes (h : Situation site t survivorPk dupPk db₀ survivor duplicate) {α : Type} {p : Service α}
    (hwanes : Keeps site.Wanes p) (hadmitted : Preserves site.Admitted p) :
    Preserves (Moved site t survivorPk dupPk survivor db₀) p :=
  moved_preserved fun _ _ hrefers => left_of_wanes h.mem hrefers h.dup_ne_null hwanes hadmitted

/-- All the calls of a merge preserve it. -/
theorem moved_moving (h : Situation site t survivorPk dupPk db₀ survivor duplicate) :
    ∀ p ∈ moving site t survivorPk dupPk, Preserves (Moved site t survivorPk dupPk survivor db₀) p := by
  intro p hp
  rcases List.mem_append.mp hp with hp | hp
  · obtain ⟨x,hx,rfl⟩ := List.mem_map.mp hp
    exact preserves_bind (moved_preserved fun _ _ _ => left_repoint h.mem hx) fun _ => preserves_pure _
  · obtain ⟨l,hl,rfl⟩ := List.mem_map.mp hp
    exact preserves_bind (moved_preserved fun _ _ hrefers => left_moveLinks h hrefers hl) fun _ => preserves_pure _

theorem moved_filling (h : Situation site t survivorPk dupPk db₀ survivor duplicate) (hquiet : site.Quiet) :
    ∀ p ∈ filling site t survivorPk survivor duplicate userId now,
      Preserves (Moved site t survivorPk dupPk survivor db₀) p := by
  intro p hp
  rw [filling] at hp
  split at hp
  · cases hp
  · rw [List.mem_singleton.mp hp]
    refine moved_preserved fun _ col hrefers => left_update h hquiet hrefers fun _ hblank hsome hdup hkey => ?_
    rw [hkey,← hdup,hsome] at hblank
    cases hblank

/-- A call that clears references: a deletion of links, or what becomes of the rows that refer to the record. -/
theorem mem_clearing {p : Service Unit} (hp : p ∈ clearing site t dupPk) :
    (∃ rel j this that other, (rel,j,this,that,other) ∈ site.mnLinks t ∧ p = site.deleteWhere j this dupPk) ∨
      ∃ child fk rel, (child,fk,rel) ∈ site.incomingM1 t ∧ p = site.dissociate dupPk (child,fk,rel) := by
  rw [clearing] at hp
  split at hp
  · rcases List.mem_append.mp hp with hp | hp
    · obtain ⟨⟨rel,j,this,that,other⟩,hl,rfl⟩ := List.mem_map.mp hp
      exact Or.inl ⟨rel,j,this,that,other,hl,rfl⟩
    · obtain ⟨⟨child,fk,rel⟩,hx,rfl⟩ := List.mem_map.mp hp
      exact Or.inr ⟨child,fk,rel,hx,rfl⟩
  · cases hp

theorem moved_clearing (h : Situation site t survivorPk dupPk db₀ survivor duplicate) :
    ∀ p ∈ clearing site t dupPk, Preserves (Moved site t survivorPk dupPk survivor db₀) p := by
  intro p hp
  rcases mem_clearing hp with ⟨rel,j,this,that,other,-,rfl⟩ | ⟨child,fk,rel,-,rfl⟩
  · exact moved_of_wanes h (wanes_deleteWhere _ _ _) (admitted_deleteWhere _ _ _)
  · exact moved_of_wanes h (wanes_dissociate _ _) (admitted_dissociate _ _)

theorem moved_finish (h : Situation site t survivorPk dupPk db₀ survivor duplicate) :
    Preserves (Moved site t survivorPk dupPk survivor db₀) (finish site t dupPk userId later) :=
  moved_of_wanes h (wanes_finish h.mem) admitted_finish

end Left

end Merge
end Biggy
