import Biggy.MergeTrace

/-!
# The removal at the end of a merge

When the duplicate goes, only the survivor may still refer to it, by what it was filled with. Where such a reference is
set to null, the removal takes nothing else along.
-/
namespace Biggy
namespace Merge

open Relations Commits Commits.Prog Database Database.Site RecordService
open Related (rowOf deleteStamp)

/-- A reference from a record of the table to the one that is removed becomes null, and the record stays. -/
def Clears (site : Site) (t : MetaTable) (fk : String) : Prop :=
  if t.softDelete then site.nullable t.physName fk = true
  else site.enforced = true ∧ ∀ rel, (t,fk,rel) ∈ site.incomingM1 t → onDelete rel ≠ .cascade

/-- The survivor is not removed for what it was filled with. -/
def Spared (site : Site) (t : MetaTable) (dupPk : Value) (survivor duplicate : Row) : Prop :=
  ∀ fk rel, (t,fk,rel) ∈ site.incomingM1 t → Stale site t dupPk survivor duplicate fk → Clears site t fk

/-- The rows that a removal leaves in the table. -/
def remains (site : Site) (t : MetaTable) (dupPk : Value) (name : String) (row : Row) : Bool :=
  t.softDelete || !(decide (name = t.physName) && site.equals t.physName t.pkCol dupPk row)

section Removal

variable {site : Site} {t : MetaTable} {survivorPk dupPk : Value} {userId : Option ℕ} {now later : ℤ} {db₀ : Tables}
  {survivor duplicate : Row}

/-- Only the survivor may refer to the duplicate, and only by what it was filled with. -/
def Tidy (site : Site) (t : MetaTable) (survivorPk dupPk : Value) (survivor duplicate : Row) (db : Tables) : Prop :=
  site.Admitted db ∧ ∀ name col, Refers site t name col →
    Left site t survivorPk dupPk (Stale site t dupPk survivor duplicate col) name col db

theorem tidy_of_wanes (h : Situation site t survivorPk dupPk db₀ survivor duplicate) {α : Type} {p : Service α}
    (hwanes : Keeps site.Wanes p) (hadmitted : Preserves site.Admitted p) :
    Preserves (Tidy site t survivorPk dupPk survivor duplicate) p := fun db ⟨hdb,hleft⟩ =>
  ⟨hadmitted db hdb,fun name col hrefers =>
    left_of_wanes h.mem hrefers h.dup_ne_null hwanes hadmitted db (hleft name col hrefers)⟩

/-- No link is the duplicate's. -/
theorem tidy_link (ht : t ∈ site.tables) {db : Tables} (htidy : Tidy site t survivorPk dupPk survivor duplicate db)
    {rel : MetaRelation} {j this that : String} {other : MetaTable} (hl : (rel,j,this,that,other) ∈ site.mnLinks t) :
    ∀ row ∈ db j, row this ≠ site.key t dupPk := fun row hrow hthis =>
  junction_ne ht hl ((htidy.2 j this (Or.inr ⟨rel,that,other,hl⟩)).2 row hrow hthis).1.symm

/-- A record that refers to the duplicate is the survivor, and does so by a stale reference of the table to itself. -/
theorem tidy_stale (ht : t ∈ site.tables) {db : Tables} (htidy : Tidy site t survivorPk dupPk survivor duplicate db)
    {name col : String} (hrefers : Refers site t name col) {row : Row} (hrow : row ∈ db name)
    (hdup : row col = site.key t dupPk) : name = t.physName ∧ (∃ rel, (t,col,rel) ∈ site.incomingM1 t) ∧
      Stale site t dupPk survivor duplicate col := by
  obtain ⟨hname,-,hstale⟩ := (htidy.2 name col hrefers).2 row hrow hdup
  refine ⟨hname,?_,hstale⟩
  rcases hrefers with ⟨child,rel,hmem,hchild⟩ | ⟨rel,that,other,hl⟩
  · obtain rfl := table_unique (Schema.table_mem (Schema.mem_incomingM1 hmem).2.2.2.1).1 ht (hchild.trans hname)
    exact ⟨rel,hmem⟩
  · exact absurd hname.symm (junction_ne ht hl)

/-! ### To the trash -/

theorem clearFk_redirects (h : Situation site t survivorPk dupPk db₀ survivor duplicate) {child : MetaTable} {fk : String}
    {rel : MetaRelation} (hmem : (child,fk,rel) ∈ site.incomingM1 t) {db : Tables}
    (hends : ¬Raises (site.clearFk child.physName fk dupPk) db) (name : String) :
    Redirects site t dupPk .null name db (site.clearFk child.physName fk dupPk db).state := by
  rw [clearFk,if_pos (site.fkField t h.mem child fk rel hmem).1] at hends ⊢
  rw [(statement_ends hends).2,equals_fk h.mem hmem]
  exact redirects_rewritten (Or.inl ⟨child,rel,hmem,rfl⟩) db

/-- The calls that clear references set stale ones to null, and take no row. -/
theorem clearing_redirects (h : Situation site t survivorPk dupPk db₀ survivor duplicate)
    (hspared : Spared site t dupPk survivor duplicate) {p : Service Unit} (hp : p ∈ clearing site t dupPk) {db : Tables}
    (htidy : Tidy site t survivorPk dupPk survivor duplicate db) (hends : ¬Raises p db) (name : String) :
    Redirects site t dupPk .null name db (p db).state := by
  have hsoft : t.softDelete = true := by
    by_contra hhard
    rw [clearing,if_neg hhard] at hp
    cases hp
  rcases mem_clearing hp with ⟨rel,j,this,that,other,hl,rfl⟩ | ⟨child,fk,rel,hmem,rfl⟩
  · refine Redirects.of_same (congrFun (deleteWhere_idle ?_) name)
    rw [site.linkCast t h.mem rel j this that other hl]
    exact tidy_link h.mem htidy hl
  · rw [dissociate] at hends ⊢
    split
    · rename_i hnullable
      rw [if_pos hnullable] at hends
      exact clearFk_redirects h hmem hends name
    · rename_i hnullable
      refine Redirects.of_same (congrFun (deleteWhere_idle fun row hrow hcol => hnullable ?_) name)
      rw [site.fkCast t h.mem child fk rel hmem] at hcol
      obtain ⟨hname,⟨rel',hself⟩,hstale⟩ := tidy_stale h.mem htidy (Or.inl ⟨child,rel,hmem,rfl⟩) hrow hcol
      have hclears := hspared fk rel' hself hstale
      rw [Clears,if_pos hsoft] at hclears
      rw [hname]
      exact hclears

theorem wanes_clearing {p : Service Unit} (hp : p ∈ clearing site t dupPk) :
    Keeps site.Wanes p ∧ Preserves site.Admitted p := by
  rcases mem_clearing hp with ⟨rel,j,this,that,other,-,rfl⟩ | ⟨child,fk,rel,-,rfl⟩
  · exact ⟨wanes_deleteWhere _ _ _,admitted_deleteWhere _ _ _⟩
  · exact ⟨wanes_dissociate _ _,admitted_dissociate _ _⟩

theorem cleared (h : Situation site t survivorPk dupPk db₀ survivor duplicate)
    (hspared : Spared site t dupPk survivor duplicate) {db db' : Tables}
    (htidy : Tidy site t survivorPk dupPk survivor duplicate db)
    (hok : (runAll (clearing site t dupPk) db).result = .ok ()) (hdb' : (runAll (clearing site t dupPk) db).state = db') :
    Tidy site t survivorPk dupPk survivor duplicate db' ∧ ∀ name, Redirects site t dupPk .null name db db' := by
  subst hdb'
  refine ensures_forM (P := fun s => Tidy site t survivorPk dupPk survivor duplicate s ∧
    ∀ name, Redirects site t dupPk .null name db s) (fun p hp s ⟨hs,hredirects⟩ a ha => ?_) db
    ⟨htidy,fun _ => Redirects.refl db⟩ () hok
  obtain ⟨hwanes,hadmitted⟩ := wanes_clearing hp
  refine ⟨tidy_of_wanes h hwanes hadmitted s hs,fun name => Redirects.trans h.dup_ne_null.symm (hredirects name) ?_⟩
  exact clearing_redirects h hspared hp hs (not_raises.mpr ⟨a,ha⟩) name

/-- On its way to the trash a record loses the references to it. -/
theorem clearing_free (ht : t ∈ site.tables) (hsoft : t.softDelete = true) (hnull : site.key t dupPk ≠ .null)
    {child : MetaTable} {fk : String} {rel : MetaRelation} (hmem : (child,fk,rel) ∈ site.incomingM1 t) {db db' : Tables}
    (hok : (runAll (clearing site t dupPk) db).result = .ok ()) (hdb' : (runAll (clearing site t dupPk) db).state = db') :
    ∀ row ∈ db' child.physName, row fk ≠ site.key t dupPk := by
  subst hdb'
  have hown : site.dissociate dupPk (child,fk,rel) ∈ clearing site t dupPk := by
    rw [clearing,if_pos hsoft]
    exact List.mem_append_right _ (List.mem_map_of_mem hmem)
  have hcast := site.fkCast t ht child fk rel hmem
  refine ensures_forM_of_mem (P := fun _ => True) (Q := fun s => ∀ row ∈ s child.physName, row fk ≠ site.key t dupPk)
    (fun _ _ _ _ _ _ => trivial) hown (fun s _ a ha => ?_) (fun p hp s hs a _ row' hrow' hrefers => ?_) db trivial () hok
  · have hends := (dissociate_ends (site.fkField t ht child fk rel hmem).1 (by rw [hcast]; exact hnull)
      (not_raises.mpr ⟨a,ha⟩)).2
    rw [hcast] at hends
    exact hends
  · obtain ⟨hplain,hfree⟩ := refers_plain ht (Or.inl ⟨child,rel,hmem,rfl⟩)
    obtain ⟨row,hrow,hfaded⟩ := (wanes_clearing hp).1 s child.physName row' hrow'
    rcases hfaded fk hplain hfree with hsame | hgone
    · exact hs.2 row hrow (hsame.symm.trans hrefers)
    · exact hnull (hrefers.symm.trans hgone)

theorem cleared_free (h : Situation site t survivorPk dupPk db₀ survivor duplicate) (hsoft : t.softDelete = true)
    {db db' : Tables} (htidy : Tidy site t survivorPk dupPk survivor duplicate db)
    (hok : (runAll (clearing site t dupPk) db).result = .ok ()) (hdb' : (runAll (clearing site t dupPk) db).state = db')
    {name col : String} (hrefers : Refers site t name col) : ∀ row ∈ db' name, row col ≠ site.key t dupPk := by
  rcases hrefers with ⟨child,rel,hmem,rfl⟩ | ⟨rel,that,other,hl⟩
  · exact clearing_free h.mem hsoft h.dup_ne_null hmem hok hdb'
  · subst hdb'
    have hkeep : ∀ p ∈ clearing site t dupPk, Ensures (Tidy site t survivorPk dupPk survivor duplicate) (id p)
        (Tidy site t survivorPk dupPk survivor duplicate) := fun p hp s hs _ _ =>
      tidy_of_wanes h (wanes_clearing hp).1 (wanes_clearing hp).2 s hs
    exact tidy_link h.mem (ensures_forM hkeep db htidy () hok) hl

theorem log_state (dupPk : Value) (userId : Option ℕ) (db : Tables) : (site.log t dupPk .delete userId [] db).state = db :=
  (keeps_log (R := fun a b => b = a) (fun _ => rfl) t dupPk .delete userId []) db

theorem alike_finish (ht : t ∈ site.tables) (hsoft : t.softDelete = true) :
    Keeps (Alike site.Stamped) (finish site t dupPk userId later) := by
  refine keeps_bind (R := Alike site.Stamped) (fun _ _ _ => Alike.trans) ?_ fun _ => keeps_log (Alike.refl _) _ _ _ _ _
  rw [if_pos hsoft]
  refine keeps_statement (Alike.refl _) fun db _ => alike_rewritten (fun c hc => ⟨⟨t,ht,rfl⟩,?_⟩) db
  by_contra hfree
  rw [lookup_stored,Related.deleteStamp_unmanaged hfree] at hc
  exact hc (ite_self _)

/-! ### A deletion -/

theorem foreignKey_refers (ht : t ∈ site.tables) {k : ForeignKey} (hk : k ∈ site.foreignKeys) (hparent : k.parent = t.physName) :
    Refers site t k.table k.column := by
  rcases foreignKey_cases ht hk hparent with ⟨child,rel,hmem,hname,-⟩ | hlink
  · exact Or.inl ⟨child,rel,hmem,hname⟩
  · exact Or.inr hlink

/-- No row goes along with the duplicate. -/
theorem loses_none (ht : t ∈ site.tables) (hhard : t.softDelete = false) (hspared : Spared site t dupPk survivor duplicate)
    {db : Tables} (htidy : Tidy site t survivorPk dupPk survivor duplicate db) (name : String) :
    ∀ row ∈ db name, site.loses .cascade (site.keysOf t.physName (site.equals t.physName t.pkCol dupPk) db) name row = false := by
  intro row hrow
  refine List.any_eq_false.mpr fun k hk hloses => ?_
  obtain ⟨rfl,hcascade,hlost⟩ := of_decide_eq_true hloses
  obtain ⟨hparent,hdup⟩ := Prod.mk.inj (keysOf_key ht hlost)
  obtain ⟨hname,-,hstale⟩ := tidy_stale ht htidy (foreignKey_refers ht hk hparent) hrow hdup
  rcases foreignKey_cases ht hk hparent with ⟨child,rel,hmem,hchild,hdelete⟩ | ⟨rel,that,other,hl⟩
  · obtain rfl := table_unique (Schema.table_mem (Schema.mem_incomingM1 hmem).2.2.2.1).1 ht (hchild.trans hname)
    have hclears := hspared k.column rel hmem hstale
    rw [Clears,if_neg (by simp [hhard])] at hclears
    exact hclears.2 rel hmem (hdelete.trans hcascade)
  · exact junction_ne ht hl hname.symm

/-- What the deletion of the duplicate leaves of a table. -/
theorem erased_redirects (ht : t ∈ site.tables) (hhard : t.softDelete = false)
    (hspared : Spared site t dupPk survivor duplicate) {db : Tables}
    (htidy : Tidy site t survivorPk dupPk survivor duplicate db) (name : String) :
    List.Forall₂ (Redirected site t dupPk .null name) ((db name).filter (remains site t dupPk name))
      (site.erased t.physName (site.equals t.physName t.pkCol dupPk) db name) := by
  have hnone := loses_none ht hhard hspared htidy
  let lost := if site.enforced then
    site.cascaded (site.rounds db) db (site.keysOf t.physName (site.equals t.physName t.pkCol dupPk) db) else []
  have hlost : ∀ x ∈ lost, x = (t.physName,site.key t dupPk) := by
    intro x hx
    dsimp only [lost] at hx
    split at hx
    · rw [cascaded_still fun t' _ => hnone t'.physName] at hx
      exact keysOf_key ht hx
    · cases hx
  have hkept : ∀ row ∈ db name, site.loses .cascade lost name row = false := by
    intro row hrow
    dsimp only [lost]
    split
    · rw [cascaded_still fun t' _ => hnone t'.physName]
      exact hnone name row hrow
    · exact loses_nil _ _ _
  have hfilter : (db name).filter (fun row => !(decide (name = t.physName) && site.equals t.physName t.pkCol dupPk row) &&
      !site.loses .cascade lost name row) = (db name).filter (remains site t dupPk name) :=
    List.filter_congr fun row hrow => by rw [hkept row hrow,remains,hhard]; simp
  have herased : site.erased t.physName (site.equals t.physName t.pkCol dupPk) db name =
      ((db name).filter (remains site t dupPk name)).map (site.orphaned lost name) := by
    rw [← hfilter]
    rfl
  rw [herased]
  refine List.forall₂_map_right_iff.mpr (List.forall₂_same.mpr fun row _ c _ _ => ?_)
  rcases orphaned_cases lost name row c with hsame | ⟨hgone,k,hk,rfl,rfl,hmem,-⟩
  · exact Or.inl hsame
  · obtain ⟨hparent,hdup⟩ := Prod.mk.inj (hlost _ hmem)
    exact Or.inr ⟨foreignKey_refers ht hk hparent,hdup,hgone⟩

/-! ### The whole removal -/

/-- The rows but the duplicate's are there as they were, stale references apart, and nothing refers to it. -/
structure Removed (site : Site) (t : MetaTable) (dupPk : Value) (db db' : Tables) : Prop where
  admitted : site.Admitted db'
  rows : ∀ name, List.Forall₂ (Redirected site t dupPk .null name) ((db name).filter (remains site t dupPk name)) (db' name)
  free : ∀ name col, Refers site t name col → ∀ row ∈ db' name, row col ≠ site.key t dupPk

theorem remains_soft (hsoft : t.softDelete = true) (name : String) (rows : List Row) :
    rows.filter (remains site t dupPk name) = rows :=
  List.filter_eq_self.mpr fun row _ => by rw [remains,hsoft,Bool.true_or]

theorem finished_soft (h : Situation site t survivorPk dupPk db₀ survivor duplicate) (hsoft : t.softDelete = true)
    {db db' : Tables} (htidy : Tidy site t survivorPk dupPk survivor duplicate db)
    (hfree : ∀ name col, Refers site t name col → ∀ row ∈ db name, row col ≠ site.key t dupPk)
    (hdb' : (finish site t dupPk userId later db).state = db') : Removed site t dupPk db db' := by
  subst hdb'
  have halike := @alike_finish site t dupPk userId later h.mem hsoft db
  refine ⟨admitted_finish db htidy.1,fun name => ?_,fun name col hrefers row' hrow' => ?_⟩
  · rw [remains_soft hsoft]
    exact redirects_of_alike (fun _ _ => Or.inr) halike
  · obtain ⟨row,hrow,hsame⟩ := halike.mem hrow'
    rw [hsame col (refers_plain h.mem hrefers).2]
    exact hfree name col hrefers row hrow

theorem finished_hard (h : Situation site t survivorPk dupPk db₀ survivor duplicate) (hhard : t.softDelete = false)
    (hspared : Spared site t dupPk survivor duplicate) {db db' : Tables}
    (htidy : Tidy site t survivorPk dupPk survivor duplicate db)
    (hok : (finish site t dupPk userId later db).result = .ok ())
    (hdb' : (finish site t dupPk userId later db).state = db') : Removed site t dupPk db db' := by
  subst hdb'
  rw [finish,if_neg (by simp [hhard])] at hok ⊢
  obtain ⟨_,hdelete,-,hstate,-⟩ := bind_ok hok
  obtain ⟨hadmitted,herased⟩ := statement_ends (not_raises.mpr ⟨_,hdelete⟩)
  rw [hstate,log_state,deleteRow,herased]
  have hrows := erased_redirects h.mem hhard hspared htidy
  refine ⟨hadmitted,hrows,fun name col hrefers row' hrow' hcol => ?_⟩
  -- a stale reference to the deleted row is not admitted where foreign keys are enforced, and there is none elsewhere
  have hback : ∀ {name' c : String} {r' : Row}, ¬site.Computed name' c → ¬site.Stamped name' c →
      r' ∈ site.erased t.physName (site.equals t.physName t.pkCol dupPk) db name' → r' c = site.key t dupPk →
      ∃ r ∈ db name', remains site t dupPk name' r = true ∧ r c = site.key t dupPk := by
    intro name' c r' hplain hfree hr' hc
    obtain ⟨r,hr,hredirected⟩ := Paired.mem_left (hrows name') hr'
    obtain ⟨hmem,hremains⟩ := List.mem_filter.mp hr
    rcases hredirected c hplain hfree with hsame | ⟨-,-,hnull⟩
    · exact ⟨r,hmem,hremains,hsame.symm.trans hc⟩
    · exact absurd (hc.symm.trans hnull) h.dup_ne_null
  obtain ⟨hplain,hunstamped⟩ := refers_plain h.mem hrefers
  obtain ⟨row,hrow,-,hdup⟩ := hback hplain hunstamped hrow' hcol
  obtain ⟨rfl,⟨rel,hself⟩,hstale⟩ := tidy_stale h.mem htidy hrefers hrow hdup
  have hclears := hspared col rel hself hstale
  rw [Clears,if_neg (by simp [hhard])] at hclears
  rcases (site.sound _ hadmitted).references hclears.1 t h.mem t col rel hself row' hrow' with hnull | ⟨parent,hparent,hpk⟩
  · exact h.dup_ne_null (hcol.symm.trans hnull)
  · obtain ⟨r,-,hremains,hr⟩ := hback (pk_plain h.mem).1 (pk_plain h.mem).2 hparent (hpk.trans hcol)
    rw [remains,hhard,equals,hr] at hremains
    simp [key] at hremains

theorem aftermath_alike (hquiet : site.Quiet) (old : Option Row) : Keeps (Alike site.Computed) (aftermath site t dupPk userId old) ∧
    Preserves site.Admitted (aftermath site t dupPk userId old) := by
  constructor
  · refine keeps_bind (R := Alike site.Computed) (fun _ _ _ => Alike.trans) (keeps_fired (Alike.refl _) hquiet _ _ _ _ _) fun _ => ?_
    split
    · exact alike_ripple t _
    · exact keeps_pure (Alike.refl _) _
  · refine preserves_bind (keeps_fired (R := fun a b => site.Admitted a → site.Admitted b) (fun _ => id) hquiet _ _ _ _ _) fun _ => ?_
    split
    · exact admitted_ripple t _
    · exact preserves_pure _

theorem Removed.alike (ht : t ∈ site.tables) {a b c : Tables} (h : Removed site t dupPk a b) (hadmitted : site.Admitted c)
    (halike : Alike site.Computed b c) : Removed site t dupPk a c := by
  refine ⟨hadmitted,fun name => ?_,fun name col hrefers row' hrow' => ?_⟩
  · refine (Paired.comp (h.rows name) (halike name)).imp fun row row'' hstep col hplain hfree => ?_
    obtain ⟨row',hrow,hsame⟩ := hstep
    rw [hsame col hplain]
    exact hrow col hplain hfree
  · obtain ⟨row,hrow,hsame⟩ := halike.mem hrow'
    rw [hsame col (refers_plain ht hrefers).1]
    exact h.free name col hrefers row hrow

/-- A removal that spares the survivor. -/
theorem removed (h : Situation site t survivorPk dupPk db₀ survivor duplicate) (hquiet : site.Quiet)
    (hspared : Spared site t dupPk survivor duplicate) {db db' : Tables}
    (htidy : Tidy site t survivorPk dupPk survivor duplicate db)
    (hok : (site.remove t dupPk userId later db).result = .ok ()) (hdb' : (site.remove t dupPk userId later db).state = db') :
    Removed site t dupPk db db' := by
  rw [remove_eq,withState_apply] at hok hdb'
  obtain ⟨_,hcalls,-,hstate,-⟩ := bind_ok hok
  obtain ⟨halike,hadmitted⟩ := @aftermath_alike site t dupPk userId hquiet (site.getRow t dupPk db)
  rw [hstate] at hdb'
  rw [runAll_append,runAll_singleton] at hcalls hdb'
  obtain ⟨_,hclearing,hfinish,hfinal,-⟩ := bind_ok hcalls
  rw [hfinal] at hdb'
  generalize hmiddle : (runAll (clearing site t dupPk) db).state = middle at hfinish hdb'
  generalize hlast : (finish site t dupPk userId later middle).state = last at hdb'
  obtain ⟨htidy',hredirects⟩ := cleared h hspared htidy hclearing hmiddle
  have hremoved : Removed site t dupPk db last := by
    cases hsoft : t.softDelete with
    | true =>
      have hlast' := finished_soft h hsoft htidy' (fun name col hrefers => cleared_free h hsoft htidy hclearing hmiddle hrefers) hlast
      refine ⟨hlast'.admitted,fun name => ?_,hlast'.free⟩
      have hrows := hlast'.rows name
      rw [remains_soft hsoft] at hrows ⊢
      exact Redirects.trans h.dup_ne_null.symm (hredirects name) hrows
    | false =>
      have hnone : clearing site t dupPk = [] := if_neg (by simp [hsoft])
      rw [hnone] at hmiddle
      obtain rfl : db = middle := hmiddle
      exact finished_hard h hsoft hspared htidy' hfinish hlast
  rw [← hdb']
  exact hremoved.alike h.mem (hadmitted last hremoved.admitted) (halike last)

/-! ### A removal that does not spare the survivor -/

/-- The stale references of the survivor in columns that no call sets to null. -/
def Stuck (site : Site) (t : MetaTable) (survivorPk dupPk : Value) (survivor duplicate : Row) (db : Tables) : Prop :=
  ∀ fk rel, (t,fk,rel) ∈ site.incomingM1 t → Stale site t dupPk survivor duplicate fk →
    site.nullable t.physName fk = false → ∀ row ∈ db t.physName, row t.pkCol = site.key t survivorPk →
      row fk = site.key t dupPk

theorem survivor_ne_null (h : Situation site t survivorPk dupPk db₀ survivor duplicate) : site.key t survivorPk ≠ .null := by
  obtain ⟨hmem,hkey⟩ := getRow_mem h.survivorAt
  rw [← hkey]
  exact (site.sound db₀ h.admitted).keysHeld t h.mem survivor hmem

theorem stuck_of_alike (ht : t ∈ site.tables) {skip : String → String → Prop}
    (hskip : ∀ name c, skip name c → site.Computed name c ∨ site.Stamped name c) {db db' : Tables} (halike : Alike skip db db')
    (h : Stuck site t survivorPk dupPk survivor duplicate db) : Stuck site t survivorPk dupPk survivor duplicate db' := by
  intro fk rel hself hstale hfixed row' hrow' hkey
  obtain ⟨row,hrow,hsame⟩ := halike.mem hrow'
  obtain ⟨hplain,hfree⟩ := refers_plain ht (Or.inl ⟨t,rel,hself,rfl⟩)
  rw [hsame fk fun hs => (hskip _ _ hs).elim hplain hfree]
  rw [hsame t.pkCol fun hs => (hskip _ _ hs).elim (pk_plain ht).1 (pk_plain ht).2] at hkey
  exact h fk rel hself hstale hfixed row hrow hkey

theorem stuck_clearFk (h : Situation site t survivorPk dupPk db₀ survivor duplicate) {child : MetaTable} {col : String}
    (hnullable : site.nullable child.physName col = true) :
    Preserves (Stuck site t survivorPk dupPk survivor duplicate) (site.clearFk child.physName col dupPk) := by
  rw [clearFk]
  split
  · refine keeps_statement (fun _ => id) fun db _ hstuck fk rel hself hstale hfixed row' hrow' hkey => ?_
    obtain ⟨row,hrow,⟨hname,-,rfl⟩ | ⟨-,rfl⟩⟩ := mem_rewritten hrow'
    · have hcell : ∀ c, (row.write [(col,.null)]) c = if c = col then .null else row c := by
        intro c
        rw [Row.write,Values.lookup_singleton]
        split <;> rfl
      have hother : fk ≠ col := by
        rintro rfl
        rw [hname,hnullable] at hfixed
        cases hfixed
      rw [hcell] at hkey ⊢
      rw [if_neg hother]
      split at hkey
      · exact absurd hkey.symm (survivor_ne_null h)
      · exact hstuck fk rel hself hstale hfixed row hrow hkey
    · exact hstuck fk rel hself hstale hfixed _ hrow hkey
  · exact preserves_pure _

/-- Rows that are deleted for a stale reference are the survivor. -/
theorem stuck_deleteWhere (h : Situation site t survivorPk dupPk db₀ survivor duplicate) {col : String} {rel : MetaRelation}
    (hself : (t,col,rel) ∈ site.incomingM1 t) (hstale : Stale site t dupPk survivor duplicate col)
    (hfixed : site.nullable t.physName col = false) :
    Preserves (Stuck site t survivorPk dupPk survivor duplicate) (site.deleteWhere t.physName col dupPk) := by
  rw [deleteWhere]
  split
  · refine keeps_statement (fun _ => id) fun db _ hstuck _ _ _ _ _ row' hrow' hkey => ?_
    obtain ⟨row,hrow,hkept,hfaded⟩ := mem_erased hrow'
    have hpk : row t.pkCol = site.key t survivorPk := by
      rcases hfaded t.pkCol with hsame | hnull
      · exact hsame.symm.trans hkey
      · exact absurd (hkey.symm.trans hnull) (survivor_ne_null h)
    have hdup := hstuck col rel hself hstale hfixed row hrow hpk
    have hother := of_decide_eq_false (hkept rfl)
    rw [site.fkCast t h.mem t col rel hself] at hother
    exact absurd hdup hother
  · exact preserves_pure _

theorem stuck_clearing (h : Situation site t survivorPk dupPk db₀ survivor duplicate) {p : Service Unit}
    (hp : p ∈ clearing site t dupPk) : Preserves (fun db => Tidy site t survivorPk dupPk survivor duplicate db ∧
      Stuck site t survivorPk dupPk survivor duplicate db) p := by
  rintro db ⟨htidy,hstuck⟩
  refine ⟨tidy_of_wanes h (wanes_clearing hp).1 (wanes_clearing hp).2 db htidy,?_⟩
  rcases mem_clearing hp with ⟨rel,j,this,that,other,hl,rfl⟩ | ⟨child,col,rel,hmem,rfl⟩
  · rw [deleteWhere_idle (by rw [site.linkCast t h.mem rel j this that other hl]; exact tidy_link h.mem htidy hl)]
    exact hstuck
  · rw [dissociate]
    split
    · exact stuck_clearFk h ‹_› db hstuck
    · rename_i hfixed
      by_cases hidle : ∀ row ∈ db child.physName, row col ≠ site.cast child.physName col dupPk
      · rw [deleteWhere_idle hidle]
        exact hstuck
      · push Not at hidle
        obtain ⟨row,hrow,hcol⟩ := hidle
        rw [site.fkCast t h.mem child col rel hmem] at hcol
        obtain ⟨hname,⟨rel',hself⟩,hstale⟩ := tidy_stale h.mem htidy (Or.inl ⟨child,rel,hmem,rfl⟩) hrow hcol
        rw [hname] at hfixed ⊢
        exact stuck_deleteWhere h hself hstale (by simpa using hfixed) db hstuck

theorem stuck_remove (h : Situation site t survivorPk dupPk db₀ survivor duplicate) (hquiet : site.Quiet)
    (hsoft : t.softDelete = true) {db : Tables} (htidy : Tidy site t survivorPk dupPk survivor duplicate db)
    (hstuck : Stuck site t survivorPk dupPk survivor duplicate db) :
    Stuck site t survivorPk dupPk survivor duplicate (site.remove t dupPk userId later db).state := by
  have hcalls : Preserves (fun db => Tidy site t survivorPk dupPk survivor duplicate db ∧
      Stuck site t survivorPk dupPk survivor duplicate db)
      (runAll (clearing site t dupPk ++ [finish site t dupPk userId later])) := by
    refine preserves_forM fun p hp => ?_
    rcases List.mem_append.mp hp with hp | hp
    · exact stuck_clearing h hp
    · rw [List.mem_singleton.mp hp]
      exact fun s hs => ⟨tidy_of_wanes h (wanes_finish h.mem) admitted_finish s hs.1,
        stuck_of_alike h.mem (fun _ _ => Or.inr) (alike_finish h.mem hsoft s) hs.2⟩
  rw [remove_eq,withState_apply,bind_def]
  have hdone := hcalls db ⟨htidy,hstuck⟩
  split
  · exact hdone.2
  · exact stuck_of_alike h.mem (fun _ _ => Or.inl) ((aftermath_alike hquiet _).1 _) hdone.2

/-- A row that a deletion of the duplicate leaves was no reference to it that the deletion follows. -/
theorem erased_clears (h : Situation site t survivorPk dupPk db₀ survivor duplicate) {fk : String} {db : Tables} (hdup : ∃ row ∈ db t.physName, row t.pkCol = site.key t dupPk)
    (hheld : ∀ row ∈ db t.physName, row t.pkCol = site.key t survivorPk → row fk = site.key t dupPk) {row' : Row}
    (hrow' : row' ∈ site.erased t.physName (site.equals t.physName t.pkCol dupPk) db t.physName)
    (hkey : row' t.pkCol = site.key t survivorPk) (hgone : row' fk ≠ site.key t dupPk) :
    site.enforced = true ∧ ∀ rel', (t,fk,rel') ∈ site.incomingM1 t → onDelete rel' ≠ .cascade := by
  obtain ⟨row,hrow,-,hkept,rfl⟩ := of_mem_erased hrow'
  have hpk : row t.pkCol = site.key t survivorPk := by
    rcases orphaned_cases _ t.physName row t.pkCol with hsame | ⟨hnull,-⟩
    · exact hsame.symm.trans hkey
    · exact absurd (hkey.symm.trans hnull) (survivor_ne_null h)
  have hfk := hheld row hrow hpk
  have henforced : site.enforced = true := by
    by_contra hfree
    rcases orphaned_cases (site.gone t.physName (site.equals t.physName t.pkCol dupPk) db) t.physName row fk with
      hsame | ⟨-,k,-,-,-,hmem,-⟩
    · exact hgone (hsame.trans hfk)
    · rw [Site.gone,if_neg hfree] at hmem
      cases hmem
  refine ⟨henforced,fun rel' hself' hcascade => ?_⟩
  have hlost : (t.physName,site.key t dupPk) ∈ site.gone t.physName (site.equals t.physName t.pkCol dupPk) db := by
    obtain ⟨d,hd,hdkey⟩ := hdup
    rw [Site.gone,if_pos henforced]
    exact mem_cascaded ((mem_keysOf h.mem).mpr ⟨d,hd,decide_eq_true hdkey,by rw [hdkey]⟩) _
  have hforeign : ⟨t.physName,fk,t.physName,onDelete rel'⟩ ∈ site.foreignKeys :=
    List.mem_flatMap.mpr ⟨t,h.mem,List.mem_append_left _ (List.mem_map.mpr ⟨(t,fk,rel'),hself',rfl⟩)⟩
  have hloses : site.loses .cascade (site.gone t.physName (site.equals t.physName t.pkCol dupPk) db) t.physName row = true :=
    List.any_eq_true.mpr ⟨_,hforeign,decide_eq_true ⟨rfl,hcascade,hfk ▸ hlost⟩⟩
  rw [hkept] at hloses
  cases hloses

theorem clears_hard (h : Situation site t survivorPk dupPk db₀ survivor duplicate) (hquiet : site.Quiet)
    (hhard : t.softDelete = false) {fk : String} {rel : MetaRelation} (hself : (t,fk,rel) ∈ site.incomingM1 t) {db db' : Tables}
    (hdup : ∃ row ∈ db t.physName, row t.pkCol = site.key t dupPk)
    (hheld : ∀ row ∈ db t.physName, row t.pkCol = site.key t survivorPk → row fk = site.key t dupPk)
    (hok : (site.remove t dupPk userId later db).result = .ok ()) (hdb' : (site.remove t dupPk userId later db).state = db')
    {row' : Row} (hrow' : row' ∈ db' t.physName) (hkey : row' t.pkCol = site.key t survivorPk)
    (hgone : row' fk ≠ site.key t dupPk) :
    site.enforced = true ∧ ∀ rel', (t,fk,rel') ∈ site.incomingM1 t → onDelete rel' ≠ .cascade := by
  have hnone : clearing site t dupPk = [] := if_neg (by simp [hhard])
  rw [remove_eq,withState_apply,hnone,List.nil_append,runAll_singleton] at hok hdb'
  obtain ⟨_,hfinish,-,hstate,-⟩ := bind_ok hok
  rw [hstate] at hdb'
  rw [finish,if_neg (by simp [hhard])] at hfinish hdb'
  obtain ⟨_,hdelete,-,hstate',-⟩ := bind_ok hfinish
  rw [hstate',log_state,deleteRow,(statement_ends (not_raises.mpr ⟨_,hdelete⟩)).2] at hdb'
  have halike := (@aftermath_alike site t dupPk userId hquiet (site.getRow t dupPk db)).1
    (site.erased t.physName (site.equals t.physName t.pkCol dupPk) db)
  rw [hdb'] at halike
  obtain ⟨row,hrow,hsame⟩ := halike.mem hrow'
  rw [hsame t.pkCol (pk_plain h.mem).1] at hkey
  rw [hsame fk (refers_plain h.mem (Or.inl ⟨t,rel,hself,rfl⟩)).1] at hgone
  exact erased_clears h hdup hheld hrow hkey hgone

end Removal

end Merge
end Biggy
