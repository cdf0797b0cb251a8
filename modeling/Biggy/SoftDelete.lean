import Biggy.MergeRemoval

/-!
# What a soft delete leaves of the record

A record on its way to the trash is dissociated first: references to it are cleared where they are optional, and rows
that must refer to it are deleted, with those that the database deletes along. `trashed_iff` says when the record itself
comes through.
-/
namespace Biggy
namespace SoftDelete

open Relations Commits Commits.Prog Database Database.Site RecordService
open Related (rowOf deleteStamp)
open Merge (clearing finish aftermath refers_plain remove_eq mem_clearing log_state aftermath_alike wanes_clearing
  clearing_free)

section Definitions

variable (site : Site) (t : MetaTable) (pk : Value)

/-- The rows that go when the record is dissociated. -/
inductive Falls (db : Tables) : String → Value → Prop
  | child {child : MetaTable} {fk : String} {rel : MetaRelation} {row : Row} (hmem : (child,fk,rel) ∈ site.incomingM1 t)
      (hrequired : site.nullable child.physName fk = false) (hrow : row ∈ db child.physName)
      (hrefers : row fk = site.key t pk) : Falls db child.physName (row child.pkCol)
  | cascade {t' : MetaTable} {k : ForeignKey} {row : Row} (henforced : site.enforced = true) (ht' : t' ∈ site.tables)
      (hk : k ∈ site.foreignKeys) (htable : k.table = t'.physName) (hcascade : k.onDelete = .cascade)
      (hrow : row ∈ db t'.physName) (hparent : Falls db k.parent (row k.column)) : Falls db t'.physName (row t'.pkCol)

/-- Nothing that the dissociation of the record does comes back to it. -/
structure Unreached (db : Tables) (row : Row) : Prop where
  stays : ¬Falls site t pk db t.physName (row t.pkCol)
  unreferring : ∀ fk rel, (t,fk,rel) ∈ site.incomingM1 t → row fk ≠ site.key t pk
  held : site.enforced = true → ∀ k ∈ site.foreignKeys, k.table = t.physName → k.onDelete = .setNull →
    ¬Falls site t pk db k.parent (row k.column)

/-- The record is in the trash, with its other columns as they were. -/
def Trashed (now : ℤ) (row : Row) (db : Tables) : Prop := ∃ row', site.getRow t pk db = some row' ∧
  row' "deleted_at" = site.cast t.physName "deleted_at" (.datetime now) ∧ ∀ c, c ∉ managed → row' c = row c

/-- A column that is not nullable holds no null, and the column of a foreign key is that of one relation. -/
structure Declared : Prop where
  notNull : ∀ db, site.Admitted db → ∀ name col, col ∈ site.columns name → site.nullable name col = false →
    ∀ row ∈ db name, row col ≠ .null
  oneRelation : ∀ k ∈ site.foreignKeys, ∀ k' ∈ site.foreignKeys, k.table = k'.table → k.column = k'.column → k = k'

/-- Outside formulas and managed columns a row holds what it held, or has lost a reference. -/
def Worn (name : String) (row row' : Row) : Prop :=
  ∀ c, ¬site.Computed name c → ¬site.Stamped name c → row' c = row c ∨ row' c = .null ∧
    ((∃ child rel, (child,c,rel) ∈ site.incomingM1 t ∧ child.physName = name ∧ row c = site.key t pk) ∨
      ∃ k ∈ site.foreignKeys, k.table = name ∧ k.column = c ∧ k.onDelete = .setNull)

/-- Every row is one that was there before, less some references. -/
def Wears (db db' : Tables) : Prop := ∀ name, ∀ row' ∈ db' name, ∃ row ∈ db name, Worn site t pk name row row'

end Definitions

section Wear

variable {site : Site} {t : MetaTable} {pk : Value} {db db' : Tables}

theorem Wears.refl (db : Tables) : Wears site t pk db db := fun _ row hrow => ⟨row,hrow,fun _ _ _ => Or.inl rfl⟩

theorem Wears.trans {a b c : Tables} (hab : Wears site t pk a b) (hbc : Wears site t pk b c) : Wears site t pk a c := by
  intro name row'' hrow''
  obtain ⟨row',hrow',hworn'⟩ := hbc name row'' hrow''
  obtain ⟨row,hrow,hworn⟩ := hab name row' hrow'
  refine ⟨row,hrow,fun col hplain hfree => ?_⟩
  rcases hworn col hplain hfree with hsame | ⟨hnull,hreason⟩
  · rw [← hsame]
    exact hworn' col hplain hfree
  · rcases hworn' col hplain hfree with hsame' | ⟨hnull',-⟩
    · exact Or.inr ⟨hsame'.trans hnull,hreason⟩
    · exact Or.inr ⟨hnull',hreason⟩

/-- A cell that is not null is one from before. -/
theorem Wears.cell (h : Wears site t pk db db') {name c : String} (hplain : ¬site.Computed name c)
    (hfree : ¬site.Stamped name c) {row' : Row} (hrow' : row' ∈ db' name) (hsome : row' c ≠ .null) :
    ∃ row ∈ db name, Worn site t pk name row row' ∧ row c = row' c := by
  obtain ⟨row,hrow,hworn⟩ := h name row' hrow'
  rcases hworn c hplain hfree with hsame | ⟨hnull,-⟩
  · exact ⟨row,hrow,hworn,hsame.symm⟩
  · exact absurd hnull hsome

/-- Rows keep their keys. -/
theorem Worn.key {t' : MetaTable} (ht' : t' ∈ site.tables) (hdb' : site.Admitted db') {row row' : Row}
    (h : Worn site t pk t'.physName row row') (hrow' : row' ∈ db' t'.physName) : row' t'.pkCol = row t'.pkCol :=
  (h t'.pkCol (pk_plain ht').1 (pk_plain ht').2).resolve_right fun hnull =>
    (site.sound db' hdb').keysHeld t' ht' row' hrow' hnull.1

theorem wears_deleteWhere (name col : String) (v : Value) : Keeps (Wears site t pk) (site.deleteWhere name col v) := by
  rw [deleteWhere]
  split
  · refine keeps_statement Wears.refl fun db _ other row' hrow' => ?_
    obtain ⟨row,hrow,-,-,rfl⟩ := of_mem_erased hrow'
    refine ⟨row,hrow,fun c _ _ => ?_⟩
    rcases orphaned_cases (site.gone name (site.equals name col v) db) other row c with hsame |
      ⟨hnull,k,hk,htable,hcol,-,hsetNull⟩
    · exact Or.inl hsame
    · exact Or.inr ⟨hnull,Or.inr ⟨k,hk,htable,hcol,hsetNull⟩⟩
  · exact keeps_pure Wears.refl _

theorem wears_clearFk (ht : t ∈ site.tables) {child : MetaTable} {fk : String} {rel : MetaRelation}
    (hmem : (child,fk,rel) ∈ site.incomingM1 t) : Keeps (Wears site t pk) (site.clearFk child.physName fk pk) := by
  rw [clearFk]
  split
  · refine keeps_statement Wears.refl fun db _ other row' hrow' => ?_
    obtain ⟨row,hrow,⟨rfl,hp,rfl⟩ | ⟨-,rfl⟩⟩ := mem_rewritten hrow'
    · refine ⟨row,hrow,fun c _ _ => ?_⟩
      rw [Row.write,Values.lookup_singleton]
      split
      · rename_i hc
        rw [equals_fk ht hmem,decide_eq_true_eq] at hp
        exact Or.inr ⟨rfl,Or.inl ⟨child,rel,hc ▸ hmem,rfl,hc ▸ hp⟩⟩
      · exact Or.inl rfl
    · exact ⟨row',hrow,fun _ _ _ => Or.inl rfl⟩
  · exact keeps_pure Wears.refl _

theorem wears_clearing (ht : t ∈ site.tables) {p : Service Unit} (hp : p ∈ clearing site t pk) : Keeps (Wears site t pk) p := by
  rcases mem_clearing hp with ⟨rel,j,this,that,other,-,rfl⟩ | ⟨child,fk,rel,hmem,rfl⟩
  · exact wears_deleteWhere _ _ _
  · rw [dissociate]
    split
    · exact wears_clearFk ht hmem
    · exact wears_deleteWhere _ _ _

/-! ### The rows that fall -/

theorem Falls.ne_null (hdb : site.Admitted db) {name : String} {v : Value} (h : Falls site t pk db name v) : v ≠ .null := by
  cases h with
  | child hmem _ hrow _ =>
    exact (site.sound db hdb).keysHeld _ (Schema.table_mem (Schema.mem_incomingM1 hmem).2.2.2.1).1 _ hrow
  | cascade _ ht' _ _ _ hrow _ => exact (site.sound db hdb).keysHeld _ ht' _ hrow

/-- A foreign key of a table is that of a relation. -/
theorem foreignKey_relation {k : ForeignKey} (hk : k ∈ site.foreignKeys) {t' : MetaTable} (ht' : t' ∈ site.tables)
    (htable : k.table = t'.physName) : ∃ parent ∈ site.tables, ∃ rel, (t',k.column,rel) ∈ site.incomingM1 parent ∧
      parent.physName = k.parent := by
  obtain ⟨parent,hparent,hmem⟩ := List.mem_flatMap.mp hk
  rcases List.mem_append.mp hmem with hchild | hlink
  · obtain ⟨⟨child,fk,rel⟩,hx,rfl⟩ := List.mem_map.mp hchild
    obtain rfl := table_unique (Schema.table_mem (Schema.mem_incomingM1 hx).2.2.2.1).1 ht' htable
    exact ⟨parent,hparent,rel,hx,rfl⟩
  · obtain ⟨⟨rel,j,this,that,other⟩,hl,rfl⟩ := List.mem_map.mp hlink
    exact absurd htable.symm (junction_ne ht' hl)

theorem foreignKey_plain {k : ForeignKey} (hk : k ∈ site.foreignKeys) {t' : MetaTable} (ht' : t' ∈ site.tables)
    (htable : k.table = t'.physName) : ¬site.Computed t'.physName k.column ∧ ¬site.Stamped t'.physName k.column := by
  obtain ⟨parent,hparent,rel,hmem,-⟩ := foreignKey_relation hk ht' htable
  exact refers_plain hparent (Or.inl ⟨t',rel,hmem,rfl⟩)

/-- What falls from a database that has worn fell from it before. -/
theorem Falls.of_wears (ht : t ∈ site.tables) (hdb' : site.Admitted db') (hwears : Wears site t pk db db')
    (hkey : site.key t pk ≠ .null) {name : String} {v : Value} (h : Falls site t pk db' name v) : Falls site t pk db name v := by
  induction h with
  | @child child fk rel row' hmem hrequired hrow' hrefers =>
    have hchild : child ∈ site.tables := (Schema.table_mem (Schema.mem_incomingM1 hmem).2.2.2.1).1
    obtain ⟨hplain,hfree⟩ := refers_plain ht (Or.inl ⟨child,rel,hmem,rfl⟩)
    obtain ⟨row,hrow,hworn,hsame⟩ := hwears.cell hplain hfree hrow' (hrefers ▸ hkey)
    rw [hworn.key hchild hdb' hrow']
    exact .child hmem hrequired hrow (hsame.trans hrefers)
  | @cascade t' k row' henforced ht' hk htable hcascade hrow' hparent ih =>
    obtain ⟨hplain,hfree⟩ := foreignKey_plain hk ht' htable
    obtain ⟨row,hrow,hworn,hsame⟩ := hwears.cell hplain hfree hrow' (hparent.ne_null hdb')
    rw [hworn.key ht' hdb' hrow']
    exact .cascade henforced ht' hk htable hcascade hrow (hsame ▸ ih)

/-- What a deletion takes along has fallen when that which it starts from has. -/
theorem cascaded_falls (henforced : site.enforced = true) {lost : List (String × Value)}
    (h : ∀ x ∈ lost, Falls site t pk db x.1 x.2) (n : ℕ) : ∀ x ∈ site.cascaded n db lost, Falls site t pk db x.1 x.2 := by
  induction n generalizing lost with
  | zero => exact h
  | succ n ih =>
    refine ih fun x hx => ?_
    rcases List.mem_append.mp hx with hx | hx
    · exact h x hx
    · obtain ⟨t',ht',hkeys⟩ := List.mem_flatMap.mp hx
      obtain ⟨row,hrow,hloses,rfl⟩ := (mem_keysOf ht').mp hkeys
      obtain ⟨k,hk,hlost⟩ := List.any_eq_true.mp hloses
      obtain ⟨htable,hcascade,hgone⟩ := of_decide_eq_true hlost
      exact .cascade henforced ht' hk htable hcascade hrow (h _ hgone)

theorem gone_falls (ht : t ∈ site.tables) {child : MetaTable} {fk : String} {rel : MetaRelation}
    (hmem : (child,fk,rel) ∈ site.incomingM1 t) (hrequired : site.nullable child.physName fk = false) :
    ∀ x ∈ site.gone child.physName (site.equals child.physName fk pk) db, site.enforced = true ∧ Falls site t pk db x.1 x.2 := by
  intro x hx
  rw [Site.gone] at hx
  split at hx
  · rename_i henforced
    refine ⟨henforced,cascaded_falls henforced (fun y hy => ?_) _ x hx⟩
    obtain ⟨row,hrow,hp,rfl⟩ := (mem_keysOf (Schema.table_mem (Schema.mem_incomingM1 hmem).2.2.2.1).1).mp hy
    rw [equals_fk ht hmem,decide_eq_true_eq] at hp
    exact .child hmem hrequired hrow hp
  · cases hx

/-! ### A record that is not reached -/

theorem Unreached.of_wears (ht : t ∈ site.tables) (hdb' : site.Admitted db') (hwears : Wears site t pk db db')
    (hkey : site.key t pk ≠ .null) {row : Row} (h : Unreached site t pk db row) : Unreached site t pk db' row :=
  ⟨fun hfalls => h.stays (hfalls.of_wears ht hdb' hwears hkey),h.unreferring,fun henforced k hk htable hsetNull hfalls =>
    h.held henforced k hk htable hsetNull (hfalls.of_wears ht hdb' hwears hkey)⟩

/-- A deletion of rows that must refer to the record leaves it alone. -/
theorem Unreached.erased (ht : t ∈ site.tables) {row : Row} (h : Unreached site t pk db row) (hrow : row ∈ db t.physName)
    {child : MetaTable} {fk : String} {rel : MetaRelation} (hmem : (child,fk,rel) ∈ site.incomingM1 t)
    (hrequired : site.nullable child.physName fk = false) :
    row ∈ site.erased child.physName (site.equals child.physName fk pk) db t.physName := by
  let lost := site.gone child.physName (site.equals child.physName fk pk) db
  have hfalls : ∀ x ∈ lost, site.enforced = true ∧ Falls site t pk db x.1 x.2 := gone_falls ht hmem hrequired
  have htest : t.physName = child.physName → site.equals child.physName fk pk row = false := by
    intro hname
    obtain rfl := table_unique ht (Schema.table_mem (Schema.mem_incomingM1 hmem).2.2.2.1).1 hname
    rw [equals_fk ht hmem]
    exact decide_eq_false (h.unreferring fk rel hmem)
  have hstays : site.loses .cascade lost t.physName row = false := by
    refine List.any_eq_false.mpr fun k hk hloses => ?_
    obtain ⟨htable,hcascade,hlost⟩ := of_decide_eq_true hloses
    obtain ⟨henforced,hparent⟩ := hfalls _ hlost
    exact h.stays (.cascade henforced ht hk htable hcascade hrow hparent)
  have hsame : site.orphaned lost t.physName row = row := by
    funext c
    rcases orphaned_cases lost t.physName row c with hsame | ⟨-,k,hk,htable,rfl,hlost,hsetNull⟩
    · exact hsame
    · obtain ⟨henforced,hparent⟩ := hfalls _ hlost
      exact absurd hparent (h.held henforced k hk htable hsetNull)
  refine List.mem_map.mpr ⟨row,List.mem_filter.mpr ⟨hrow,?_⟩,hsame⟩
  change (!(decide (t.physName = child.physName) && site.equals child.physName fk pk row) &&
    !site.loses .cascade lost t.physName row) = true
  by_cases hname : t.physName = child.physName
  · simp [hstays,htest hname]
  · simp [hstays,hname]

theorem Unreached.cleared (ht : t ∈ site.tables) {row : Row} (h : Unreached site t pk db row) (hrow : row ∈ db t.physName)
    {child : MetaTable} {fk : String} {rel : MetaRelation} (hmem : (child,fk,rel) ∈ site.incomingM1 t) :
    row ∈ rewritten child.physName (site.equals child.physName fk pk) [(fk,.null)] db t.physName := by
  by_cases hname : t.physName = child.physName
  · obtain rfl := table_unique ht (Schema.table_mem (Schema.mem_incomingM1 hmem).2.2.2.1).1 hname
    have hother : site.equals t.physName fk pk row = false := by
      rw [equals_fk ht hmem]
      exact decide_eq_false (h.unreferring fk rel hmem)
    rw [rewritten,Function.update_self]
    exact List.mem_map.mpr ⟨row,hrow,by simp [hother]⟩
  · rw [rewritten,Function.update_of_ne hname]
    exact hrow

/-- The record is there, and nothing of what is still to come will reach it. -/
def Safe (site : Site) (t : MetaTable) (pk : Value) (row : Row) (db : Tables) : Prop :=
  site.Admitted db ∧ Unreached site t pk db row ∧ row ∈ db t.physName

theorem safe_statement {row : Row} {change : Tables → Tables} (hrow : ∀ db, Unreached site t pk db row →
    row ∈ db t.physName → row ∈ change db t.physName) :
    Keeps (fun a b => Unreached site t pk a row → row ∈ a t.physName → row ∈ b t.physName) (site.statement change) :=
  keeps_statement (fun _ _ => id) fun db _ => hrow db

theorem safe_clearing (ht : t ∈ site.tables) (hkey : site.key t pk ≠ .null) {row : Row} {p : Service Unit}
    (hp : p ∈ clearing site t pk) : Preserves (Safe site t pk row) p := by
  rintro db ⟨hdb,hunreached,hrow⟩
  have hdb' := (wanes_clearing hp).2 db hdb
  refine ⟨hdb',hunreached.of_wears ht hdb' (wears_clearing ht hp db) hkey,?_⟩
  rcases mem_clearing hp with ⟨rel,j,this,that,other,hl,rfl⟩ | ⟨child,fk,rel,hmem,rfl⟩
  · rw [deleteWhere,if_pos (site.linkHeld t ht rel j this that other hl)]
    refine safe_statement (fun db _ hrow => ?_) db hunreached hrow
    rw [erased_junction hl,Function.update_of_ne (junction_ne ht hl)]
    exact hrow
  · have hcol := (site.fkField t ht child fk rel hmem).1
    cases hrequired : site.nullable child.physName fk with
    | true =>
      rw [dissociate,if_pos hrequired,clearFk,if_pos hcol]
      exact safe_statement (fun db h hrow => h.cleared ht hrow hmem) db hunreached hrow
    | false =>
      rw [dissociate,if_neg (by simp [hrequired]),deleteWhere,if_pos hcol]
      exact safe_statement (fun db h hrow => h.erased ht hrow hmem hrequired) db hunreached hrow

/-! ### When the dissociation has come to its end -/

/-- Where the record is there in the end, what falls is gone. -/
theorem Falls.gone (hdecl : Declared site) (ht : t ∈ site.tables) (hdb : site.Admitted db) (hdb' : site.Admitted db')
    (hwears : Wears site t pk db db') (hfree : ∀ child fk rel, (child,fk,rel) ∈ site.incomingM1 t →
      ∀ row ∈ db' child.physName, row fk ≠ site.key t pk)
    (hthere : ∃ row ∈ db' t.physName, row t.pkCol = site.key t pk) {name : String} {v : Value}
    (h : Falls site t pk db name v) : ∀ t' ∈ site.tables, t'.physName = name → ∀ row ∈ db' name, row t'.pkCol ≠ v := by
  have hunique : ∀ {t' : MetaTable} {row row' : Row}, t' ∈ site.tables → row ∈ db t'.physName → row' ∈ db' t'.physName →
      row' t'.pkCol = row t'.pkCol → Worn site t pk t'.physName row row' := by
    intro t' row row' ht' hrow hrow' hsame
    obtain ⟨before,hbefore,hworn⟩ := hwears _ row' hrow'
    have hkeys : before t'.pkCol = row t'.pkCol := (hworn.key ht' hdb' hrow').symm.trans hsame
    exact List.inj_on_of_nodup_map ((site.sound db hdb).keysNodup t' ht') hbefore hrow hkeys ▸ hworn
  induction h with
  | @child child fk rel row hmem hrequired hrow hrefers =>
    intro t' ht' hname row' hrow' hsame
    obtain rfl := table_unique ht' (Schema.table_mem (Schema.mem_incomingM1 hmem).2.2.2.1).1 hname
    obtain ⟨hplain,hunstamped⟩ := refers_plain ht (Or.inl ⟨t',rel,hmem,rfl⟩)
    rcases hunique ht' hrow hrow' hsame fk hplain hunstamped with hkept | ⟨hnull,-⟩
    · exact hfree t' fk rel hmem row' hrow' (hkept.trans hrefers)
    · exact hdecl.notNull db' hdb' _ fk (site.fkField t ht t' fk rel hmem).1 hrequired row' hrow' hnull
  | @cascade t₁ k row henforced ht₁ hk htable hcascade hrow hparent ih =>
    intro t' ht' hname row' hrow' hsame
    obtain rfl := table_unique ht' ht₁ hname
    obtain ⟨hplain,hunstamped⟩ := foreignKey_plain hk ht' htable
    obtain ⟨parent,hmemParent,rel,hmem,hparentName⟩ := foreignKey_relation hk ht' htable
    rcases hunique ht' hrow hrow' hsame k.column hplain hunstamped with hkept | ⟨-,⟨child,rel',hcleared,hchild,hkey⟩ | hlost⟩
    · rcases (site.sound db' hdb').references henforced parent hmemParent t' k.column rel hmem row' hrow' with
        hnull | ⟨p,hp,hpk⟩
      · exact hparent.ne_null hdb (hkept.symm.trans hnull)
      · rw [hparentName] at hp
        exact ih parent hmemParent hparentName p hp (hpk.trans hkept)
    · have hown : k = ⟨child.physName,k.column,t.physName,onDelete rel'⟩ :=
        hdecl.oneRelation k hk _ (List.mem_flatMap.mpr ⟨t,ht,List.mem_append_left _ (List.mem_map.mpr ⟨_,hcleared,rfl⟩)⟩)
          (htable.trans hchild.symm) rfl
      obtain ⟨p,hp,hpk⟩ := hthere
      have hparentTable : k.parent = t.physName := congrArg ForeignKey.parent hown
      rw [hparentTable,hkey] at ih
      exact ih t ht rfl p hp hpk
    · obtain ⟨k',hk',htable',hcol',hsetNull⟩ := hlost
      obtain rfl := hdecl.oneRelation k' hk' k hk (htable'.trans htable.symm) hcol'
      rw [hcascade] at hsetNull
      cases hsetNull

end Wear

/-! ### The whole removal -/

section Removal

variable {site : Site} {t : MetaTable} {pk : Value} {userId : Option ℕ} {now : ℤ} {db : Tables}

/-- The table when the removal has come to its end: as the dissociation left it, with the stamp of the deletion. -/
theorem remove_rows (ht : t ∈ site.tables) (hsoft : t.softDelete = true) (hplain : hasFormulas t = false)
    (hquiet : site.Quiet) (hends : ¬Raises (site.remove t pk userId now) db) :
    (runAll (clearing site t pk) db).result = .ok () ∧ site.Admitted (site.remove t pk userId now db).state ∧
      (site.remove t pk userId now db).state t.physName = rewritten t.physName (site.equals t.physName t.pkCol pk)
        (site.stored t (deleteStamp userId now)) (runAll (clearing site t pk) db).state t.physName := by
  obtain ⟨_,hok⟩ := not_raises.mp hends
  rw [remove_eq,withState_apply] at hok ⊢
  obtain ⟨_,hcalls,-,hstate,-⟩ := bind_ok hok
  rw [hstate]
  rw [runAll_append,runAll_singleton] at hcalls ⊢
  obtain ⟨_,hclearing,hfinish,hstate',-⟩ := bind_ok hcalls
  rw [hstate']
  refine ⟨hclearing,?_⟩
  generalize (runAll (clearing site t pk) db).state = middle at hfinish
  rw [finish,if_pos hsoft] at hfinish ⊢
  obtain ⟨_,hupdate,-,hlog,-⟩ := bind_ok hfinish
  obtain ⟨hadmitted,hupdated⟩ := statement_ends (not_raises.mpr ⟨_,hupdate⟩)
  rw [hlog,log_state,updateRow,hupdated]
  obtain ⟨halike,hkeeps⟩ := @aftermath_alike site t pk userId hquiet (site.getRow t pk db)
  refine ⟨hkeeps _ hadmitted,?_⟩
  have hnone : ∀ c, ¬site.Computed t.physName c := by
    intro c hcomputed
    obtain ⟨f,hf,hformula,-⟩ := (computed_iff ht).mp hcomputed
    exact List.any_eq_false.mp hplain f hf (decide_eq_true hformula)
  have hsame := (halike (rewritten t.physName (site.equals t.physName t.pkCol pk)
    (site.stored t (deleteStamp userId now)) middle) t.physName).imp fun row row' hrow => funext fun c => (hrow c (hnone c)).symm
  rw [List.forall₂_eq_eq_eq] at hsame
  exact hsame.symm

/-- The record is in the trash when the dissociation has left it as it was. -/
theorem trashed_of_rows (ht : t ∈ site.tables) (hcol : "deleted_at" ∈ site.columns t.physName) {middle after : Tables} {row : Row}
    (hafter : site.Admitted after) (hrows : after t.physName = rewritten t.physName (site.equals t.physName t.pkCol pk)
      (site.stored t (deleteStamp userId now)) middle t.physName) :
    Trashed site t pk now row after ↔
      ∃ row' ∈ middle t.physName, row' t.pkCol = site.key t pk ∧ ∀ c, c ∉ managed → row' c = row c := by
  have hstamp : ∀ c, c ∉ managed → (site.stored t (deleteStamp userId now)).lookup c = none := by
    intro c hc
    rw [lookup_stored,Related.deleteStamp_unmanaged hc]
    exact ite_self _
  constructor
  · rintro ⟨row'',hfound,-,hsame⟩
    obtain ⟨hmem,hkey⟩ := getRow_mem hfound
    rw [hrows] at hmem
    obtain ⟨row',hrow',⟨-,-,rfl⟩ | ⟨hother,rfl⟩⟩ := mem_rewritten hmem
    · rw [write_stored_pk] at hkey
      exact ⟨row',hrow',hkey,fun c hc => (Row.write_of_not_mem (hstamp c hc)).symm.trans (hsame c hc)⟩
    · exact absurd hkey (of_decide_eq_false (hother rfl))
  · rintro ⟨row',hrow',hkey,hsame⟩
    have hmem : row'.write (site.stored t (deleteStamp userId now)) ∈ after t.physName := by
      rw [hrows,rewritten,Function.update_self]
      exact List.mem_map.mpr ⟨row',hrow',if_pos (decide_eq_true hkey)⟩
    refine ⟨_,getRow_eq ht hafter hmem ((write_stored_pk t row' _).trans hkey),?_,fun c hc => ?_⟩
    · have hpk : "deleted_at" ≠ t.pkCol := fun heq => site.pkFree t ht (heq ▸ by decide)
      rw [Row.write,lookup_stored,if_pos ⟨hcol,hpk⟩]
      rfl
    · rw [Row.write_of_not_mem (hstamp c hc),hsame c hc]

/-- Where the record has come through unchanged, nothing has reached it. -/
theorem unreached_of_kept (hdecl : Declared site) (ht : t ∈ site.tables) (hsoft : t.softDelete = true) (hdb : site.Admitted db)
    {row : Row} (hrow : site.getRow t pk db = some row) (hok : (runAll (clearing site t pk) db).result = .ok ())
    {middle : Tables} (hmiddle : (runAll (clearing site t pk) db).state = middle) {row' : Row} (hrow' : row' ∈ middle t.physName)
    (hpk : row' t.pkCol = site.key t pk) (hsame : ∀ c, c ∉ managed → row' c = row c) : Unreached site t pk db row := by
  obtain ⟨hmem,hkey⟩ := getRow_mem hrow
  have hnull : site.key t pk ≠ .null := hkey ▸ (site.sound db hdb).keysHeld t ht row hmem
  have hfree := fun child fk rel (hrel : (child,fk,rel) ∈ site.incomingM1 t) => clearing_free ht hsoft hnull hrel hok hmiddle
  have hadmitted : site.Admitted middle := by
    rw [← hmiddle]
    exact preserves_forM (fun p hp => (wanes_clearing hp).2) db hdb
  have hwears : Wears site t pk db middle := by
    rw [← hmiddle]
    exact keeps_forM Wears.refl (fun _ _ _ => Wears.trans) (fun p hp => wears_clearing ht hp) db
  have hgone := fun {name v} (h : Falls site t pk db name v) => h.gone hdecl ht hdb hadmitted hwears hfree ⟨row',hrow',hpk⟩
  refine ⟨fun hfalls => hgone hfalls t ht rfl row' hrow' (hpk.trans hkey.symm),fun fk rel hrel hrefers => ?_,
    fun henforced k hk htable hsetNull hfalls => ?_⟩
  · have hunstamped := unstamped ht (refers_plain ht (Or.inl ⟨t,rel,hrel,rfl⟩)).2
    exact hfree t fk rel hrel row' hrow' ((hsame fk hunstamped).trans hrefers)
  · obtain ⟨parent,hparent,rel,hrel,hname⟩ := foreignKey_relation hk ht htable
    have hkept := hsame k.column (unstamped ht (foreignKey_plain hk ht htable).2)
    rcases (site.sound middle hadmitted).references henforced parent hparent t k.column rel hrel row' hrow' with hlost | ⟨p,hp,hppk⟩
    · exact hfalls.ne_null hdb (hkept.symm.trans hlost)
    · rw [hname] at hp
      exact hgone hfalls parent hparent hname p hp (hppk.trans hkept)

/-- A soft delete keeps the record as it was exactly when what it does to others does not come back to it. -/
theorem trashed_iff (site : Site) (hdecl : Declared site) (hquiet : site.Quiet) {t : MetaTable} (ht : t ∈ site.tables)
    (hsoft : t.softDelete = true) (hplain : hasFormulas t = false) (hcol : "deleted_at" ∈ site.columns t.physName) (pk : Value)
    (userId : Option ℕ) (now : ℤ) {db : Tables} (hdb : site.Admitted db) {row : Row} (hrow : site.getRow t pk db = some row)
    (hends : ¬Raises (site.remove t pk userId now) db) :
    Trashed site t pk now row (site.remove t pk userId now db).state ↔ Unreached site t pk db row := by
  obtain ⟨hok,hafter,hrows⟩ := remove_rows ht hsoft hplain hquiet hends
  obtain ⟨hmem,hkey⟩ := getRow_mem hrow
  have hnull : site.key t pk ≠ .null := hkey ▸ (site.sound db hdb).keysHeld t ht row hmem
  rw [trashed_of_rows ht hcol hafter hrows]
  constructor
  · rintro ⟨row',hrow',hpk,hsame⟩
    exact unreached_of_kept hdecl ht hsoft hdb hrow hok rfl hrow' hpk hsame
  · intro hunreached
    have hsafe : Preserves (Safe site t pk row) (runAll (clearing site t pk)) :=
      preserves_forM fun p hp => safe_clearing ht hnull hp
    exact ⟨row,(hsafe db ⟨hdb,hunreached,hmem⟩).2.2,hkey,fun _ _ => rfl⟩

end Removal

/-! ### Employees with their mentors -/

def mentorField : MetaField where
  id := 1
  physName := "mentor"
  label := "Mentor"
  dataType := .relation
  relatedTableId := some 1

def employees : MetaTable where
  id := 1
  physName := "employees"
  label := "Employees"
  softDelete := true
  fields := [mentorField]
  idsNodup := by decide
  namesNodup := by decide
  namesFree := by decide

def staffSchema : Schema where
  tables := [employees]
  relations := [⟨"Mentor",.m1,1,1,some 1,some "RESTRICT"⟩]

/-- Every employee must have a mentor. -/
def staff : Site := Site.plain staffSchema
  (fun name => if name = "employees" then ["id","mentor"]++managed else []) (fun _ c => decide (c ≠ "mentor")) (fun _ => "")
  (fun db => (db "employees").all fun row => decide (row "mentor" ≠ .null)) (by decide) (by decide) (by decide) (by decide)
  (by decide) (by decide) (by decide) (by decide)

/-- The first employee is a mentor to both. -/
def staffDb : Tables := fun name =>
  if name = "employees" then [rowOf [("id",.int 1),("mentor",.int 1)],rowOf [("id",.int 2),("mentor",.int 1)]] else []

theorem staff_employees : employees ∈ staff.tables := List.mem_cons_self

theorem staff_quiet : staff.Quiet := fun _ _ _ _ _ _ => rfl

theorem staff_declared : Declared staff where
  notNull db hdb name col hcol hrequired row hrow := by
    have hname : name = "employees" := by
      by_contra hother
      have hnone : staff.columns name = [] := if_neg hother
      rw [hnone] at hcol
      cases hcol
    obtain rfl : col = "mentor" := by simpa [staff,Site.plain] using hrequired
    have hown := List.all_eq_true.mp (Bool.and_eq_true_iff.mp hdb).2 row (hname ▸ hrow)
    exact of_decide_eq_true hown
  oneRelation k hk k' hk' _ _ := by
    have honly : staff.foreignKeys = [⟨"employees","mentor","employees",.restrict⟩] := rfl
    rw [honly,List.mem_singleton] at hk hk'
    rw [hk,hk']

theorem staffDb_admitted : staff.Admitted staffDb := by
  change staff.admits staffDb = true
  decide

theorem second_unreached : Unreached staff employees (.int 2) staffDb (rowOf [("id",.int 2),("mentor",.int 1)]) := by
  have honly : staff.incomingM1 employees = [(employees,"mentor",⟨"Mentor",.m1,1,1,some 1,some "RESTRICT"⟩)] := rfl
  have hrefers : ∀ row ∈ staffDb "employees", row "mentor" ≠ .int 2 := by decide
  have hnone : ∀ name v, ¬Falls staff employees (.int 2) staffDb name v := by
    intro name v h
    cases h with
    | child hmem _ hrow hkey =>
      rw [honly] at hmem
      cases List.mem_singleton.mp hmem
      exact hrefers _ hrow hkey
    | cascade henforced _ _ _ _ _ _ => cases henforced
  refine ⟨hnone _ _,fun fk rel hmem => ?_,fun henforced => by cases henforced⟩
  rw [honly] at hmem
  cases List.mem_singleton.mp hmem
  decide

/-- The second employee goes to the trash as it was. -/
theorem second_trashed : Trashed staff employees (.int 2) 0 (rowOf [("id",.int 2),("mentor",.int 1)])
    (staff.remove employees (.int 2) none 0 staffDb).state :=
  (trashed_iff staff staff_declared staff_quiet staff_employees rfl rfl (by decide) (.int 2) none 0 staffDb_admitted rfl
    (not_raises.mpr ⟨(),rfl⟩)).mpr second_unreached

/-- The first employee must have itself for a mentor, and is deleted for that. -/
theorem own_mentor : ¬∀ (site : Site), Declared site → site.Quiet → ∀ t ∈ site.tables, t.softDelete = true →
    hasFormulas t = false → "deleted_at" ∈ site.columns t.physName → ∀ (pk : Value) (userId : Option ℕ) (now : ℤ) (db : Tables),
      site.Admitted db → ∀ row, site.getRow t pk db = some row → ¬Raises (site.remove t pk userId now) db →
        Trashed site t pk now row (site.remove t pk userId now db).state := by
  intro h
  obtain ⟨row,hfound,-⟩ := h staff staff_declared staff_quiet employees staff_employees rfl rfl (by decide) (.int 1) none 0 staffDb
    staffDb_admitted _ rfl (not_raises.mpr ⟨(),rfl⟩)
  have hgone : ((staff.remove employees (.int 1) none 0 staffDb).state employees.physName).length = 0 := by decide
  have hmem := (getRow_mem hfound).1
  rw [List.eq_nil_of_length_eq_zero hgone] at hmem
  cases hmem

end SoftDelete
end Biggy
