import Biggy.MergeAtomic

/-!
# A merge that comes to its end

What has become of a row or a link when all the calls of a merge have gone through: references to the duplicate are
references to the survivor, the links of both are the survivor's, and the survivor has the duplicate's values where it
had none.
-/
namespace Biggy
namespace Merge

open Relations Commits Commits.Prog Database Database.Site RecordService
open Related (rowOf deleteStamp)

/-- Outside formulas and managed columns only references to the duplicate have changed, and hold the value. -/
def Redirected (site : Site) (t : MetaTable) (dupPk v : Value) (name : String) (row row' : Row) : Prop :=
  ∀ c, ¬site.Computed name c → ¬site.Stamped name c →
    row' c = row c ∨ Refers site t name c ∧ row c = site.key t dupPk ∧ row' c = v

/-- The rows of the table pair up. -/
def Redirects (site : Site) (t : MetaTable) (dupPk v : Value) (name : String) (db db' : Tables) : Prop :=
  List.Forall₂ (Redirected site t dupPk v name) (db name) (db' name)

/-- What a reference has become. -/
def heir (site : Site) (t : MetaTable) (survivorPk dupPk v : Value) : Value :=
  if v = site.key t dupPk then site.key t survivorPk else v

/-- What the other end of a link has become, in a self-relation also a record of the table. -/
def partner (site : Site) (t : MetaTable) (survivorPk dupPk : Value) (other : MetaTable) (v : Value) : Value :=
  if other.id = t.id then heir site t survivorPk dupPk v else v

section Rows

variable {site : Site} {t : MetaTable} {survivorPk dupPk v : Value} {userId : Option ℕ} {now later : ℤ} {db₀ : Tables}
  {survivor duplicate : Row} {name : String}

theorem heir_dup : heir site t survivorPk dupPk (site.key t dupPk) = site.key t survivorPk := if_pos rfl

theorem heir_survivor : heir site t survivorPk dupPk (site.key t survivorPk) = site.key t survivorPk := ite_self _

theorem Redirected.refl (row : Row) : Redirected site t dupPk v name row row := fun _ _ _ => Or.inl rfl

theorem Redirected.trans (hv : v ≠ site.key t dupPk) {a b c : Row} (hab : Redirected site t dupPk v name a b)
    (hbc : Redirected site t dupPk v name b c) : Redirected site t dupPk v name a c := by
  intro col hplain hfree
  rcases hbc col hplain hfree with hsame | ⟨hrefers,hdup,hgone⟩
  · rw [hsame]
    exact hab col hplain hfree
  · rcases hab col hplain hfree with hsame | ⟨-,-,hgone'⟩
    · exact Or.inr ⟨hrefers,hsame.symm.trans hdup,hgone⟩
    · exact absurd (hgone'.symm.trans hdup) hv

theorem Redirects.refl (db : Tables) : Redirects site t dupPk v name db db :=
  List.forall₂_same.mpr fun row _ => Redirected.refl row

theorem Redirects.trans (hv : v ≠ site.key t dupPk) {a b c : Tables} (hab : Redirects site t dupPk v name a b)
    (hbc : Redirects site t dupPk v name b c) : Redirects site t dupPk v name a c :=
  Paired.trans (R := Redirected site t dupPk v name) (fun _ _ _ => Redirected.trans hv) hab hbc

theorem Redirects.of_same {db db' : Tables} (h : db' name = db name) : Redirects site t dupPk v name db db' := by
  rw [Redirects,h]
  exact Redirects.refl db

theorem redirects_of_alike {skip : String → String → Prop}
    (hskip : ∀ name c, skip name c → site.Computed name c ∨ site.Stamped name c) {db db' : Tables} (h : Alike skip db db') :
    Redirects site t dupPk v name db db' :=
  (h name).imp fun _ _ hrow c hplain hfree => Or.inl (hrow c fun hs => (hskip name c hs).elim hplain hfree)

/-- Where the references of one column are given another value. -/
theorem redirects_rewritten {other fk : String} (hrefers : Refers site t other fk) (db : Tables) :
    Redirects site t dupPk v name db (rewritten other (fun row => decide (row fk = site.key t dupPk)) [(fk,v)] db) := by
  by_cases hname : name = other
  · subst hname
    rw [Redirects,rewritten,Function.update_self]
    refine List.forall₂_map_right_iff.mpr (List.forall₂_same.mpr fun row _ c _ _ => ?_)
    split
    · rename_i hp
      rw [Row.write,Values.lookup_singleton]
      split
      · rename_i hc
        exact Or.inr ⟨hc ▸ hrefers,hc ▸ of_decide_eq_true hp,rfl⟩
      · exact Or.inl rfl
    · exact Or.inl rfl
  · exact Redirects.of_same (by rw [rewritten,Function.update_of_ne hname])

/-! ### The references -/

/-- After the foreign keys have been repointed none points at the duplicate. -/
theorem repointed (h : Situation site t survivorPk dupPk db₀ survivor duplicate)
    (hne : site.key t survivorPk ≠ site.key t dupPk) {ns : List ℕ}
    (hok : ((site.incomingM1 t).mapM (repoint site survivorPk dupPk) db₀).result = .ok ns) {db : Tables}
    (hdb : ((site.incomingM1 t).mapM (repoint site survivorPk dupPk) db₀).state = db) :
    (∀ child fk rel, (child,fk,rel) ∈ site.incomingM1 t → Left site t survivorPk dupPk False child.physName fk db) ∧
      site.Admitted db ∧ (∀ name, Redirects site t dupPk (site.key t survivorPk) name db₀ db) ∧
      ∀ name, (∀ t' ∈ site.tables, t'.physName ≠ name) → db name = db₀ name := by
  subst hdb
  let P : Tables → Prop := fun db => site.Admitted db ∧
    (∀ name, Redirects site t dupPk (site.key t survivorPk) name db₀ db) ∧
    ∀ name, (∀ t' ∈ site.tables, t'.physName ≠ name) → db name = db₀ name
  have hkeep : ∀ p ∈ site.incomingM1 t, Ensures P (repoint site survivorPk dupPk p) P := by
    rintro ⟨child,fk,rel⟩ hp db ⟨-,hdb,hothers⟩ n hn
    obtain ⟨hadmitted,hstate⟩ := repoint_ends h.mem hp (not_raises.mpr ⟨n,hn⟩)
    refine ⟨hadmitted,fun name => Redirects.trans hne (hdb name) ?_,fun name hname => ?_⟩
    · rw [hstate]
      exact redirects_rewritten (Or.inl ⟨child,rel,hp,rfl⟩) db
    · have hchild : child ∈ site.tables := (Schema.table_mem (Schema.mem_incomingM1 hp).2.2.2.1).1
      rw [hstate,rewritten,Function.update_of_ne (hname child hchild).symm,hothers name hname]
  have hown : ∀ p ∈ site.incomingM1 t, Ensures P (repoint site survivorPk dupPk p)
      (Left site t survivorPk dupPk False p.1.physName p.2.1) := by
    rintro ⟨child,fk,rel⟩ hp db ⟨-,-⟩ n hn
    have hends := not_raises.mpr ⟨n,hn⟩
    exact ⟨(repoint_ends h.mem hp hends).1,fun row hrow hcol => absurd hcol (repoint_free h.mem hne hp hends row hrow)⟩
  have hothers : ∀ p ∈ site.incomingM1 t, ∀ q ∈ site.incomingM1 t,
      Ensures (fun db => P db ∧ Left site t survivorPk dupPk False q.1.physName q.2.1 db) (repoint site survivorPk dupPk p)
        (Left site t survivorPk dupPk False q.1.physName q.2.1) := fun p hp q _ db hdb _ _ => left_repoint h.mem hp db hdb.2
  have hstart : P db₀ := ⟨h.admitted,fun _ => Redirects.refl db₀,fun _ _ => rfl⟩
  have hfree := ensures_each_mapM hown hkeep hothers db₀ hstart ns hok
  exact ⟨fun child fk rel hp => hfree (child,fk,rel) hp,ensures_mapM hkeep db₀ hstart ns hok⟩

/-! ### The links -/

theorem foldl_linked (j this that : String) (id : Value) (vs : List Value) (db : Tables) :
    (vs.map (site.linked j this id that)).foldl (fun db' change => change db') db =
      Function.update db j (db j ++ vs.map fun v => rowOf [(this,site.cast j this id),(that,v)]) := by
  induction vs generalizing db with
  | nil => simp
  | cons v vs ih =>
    rw [List.map_cons,List.foldl_cons,ih,linked,Function.update_idem,Function.update_self]
    simp

/-- Links that are set to more than those there are come on top of them. -/
theorem setLinks_grows {j this that : String} {id : Value} {ids : List Value} {db : Tables}
    (hmore : ∀ v ∈ site.getLinks j this id that db, v ∈ (ids.map (site.cast j that)).dedup)
    (hok : (site.setLinks j this id that ids db).result = .ok ()) : (site.setLinks j this id that ids db).state =
      Function.update db j (db j ++ (((ids.map (site.cast j that)).dedup.filter fun v =>
        !(site.getLinks j this id that db).contains v).map fun v => rowOf [(this,site.cast j this id),(that,v)])) := by
  have hremove : (site.getLinks j this id that db).filter (fun v => !(ids.map (site.cast j that)).dedup.contains v) = [] :=
    List.filter_eq_nil_iff.mpr fun v hv => by simpa using hmore v hv
  simp only [setLinks,withState_apply,hremove,if_true,List.append_nil] at hok ⊢
  rw [transact_ok hok,foldl_linked]

theorem mem_wanted {j that : String} {xs : List Value} (htyped : ∀ v ∈ xs, site.cast j that v = v) {v : Value} :
    v ∈ ((Keyed.distinct id xs).map (site.cast j that)).dedup ↔ v ∈ xs := by
  rw [List.mem_dedup,List.mem_map]
  constructor
  · rintro ⟨w,hw,rfl⟩
    rw [Keyed.mem_distinct] at hw
    rwa [htyped w hw]
  · exact fun hv => ⟨v,Keyed.mem_distinct.mpr hv,htyped v hv⟩

/-- The links that the survivor lacks are put at the end, and those of the duplicate taken out. -/
theorem moveLinks_state (h : Situation site t survivorPk dupPk db₀ survivor duplicate) {rel : MetaRelation}
    {j this that : String} {other : MetaTable} (hl : (rel,j,this,that,other) ∈ site.mnLinks t) {db : Tables}
    (hdb : site.Admitted db) (hends : ¬Raises (moveLinks site survivorPk dupPk (rel,j,this,that,other)) db)
    (hsome : site.getLinks j this dupPk that db ≠ []) : ∃ vs : List Value, vs.Nodup ∧
      (∀ v, v ∈ vs ↔ (∃ l ∈ db j, l this = site.key t dupPk ∧ l that = v) ∧
        ∀ l ∈ db j, l this = site.key t survivorPk → l that ≠ v) ∧
      (moveLinks site survivorPk dupPk (rel,j,this,that,other) db).state = Function.update db j
        ((db j ++ vs.map fun v => rowOf [(this,site.key t survivorPk),(that,v)]).filter fun l =>
          decide (l this ≠ site.key t dupPk)) := by
  have hkey : ∀ pk, site.cast j this pk = site.key t pk := congrFun (site.linkCast t h.mem rel j this that other hl)
  have hlinks : ∀ {pk v}, v ∈ site.getLinks j this pk that db ↔ ∃ l ∈ db j, l this = site.key t pk ∧ l that = v := by
    intro pk v
    rw [mem_getLinks,hkey]
  have htyped : ∀ v ∈ site.getLinks j this survivorPk that db ++ site.getLinks j this dupPk that db,
      site.cast j that v = v := by
    have hone : ∀ {pk v}, v ∈ site.getLinks j this pk that db → site.cast j that v = v := by
      intro pk v hv
      obtain ⟨row,hrow,-,rfl⟩ := hlinks.mp hv
      exact (site.sound db hdb).typed j row hrow that
    exact fun v hv => (List.mem_append.mp hv).elim hone hone
  obtain ⟨n,hn⟩ := not_raises.mp hends
  simp only [moveLinks,withState_apply,if_neg hsome] at hn ⊢
  obtain ⟨_,hset,hrest,hstate,-⟩ := bind_ok hn
  obtain ⟨_,hdelete,-,hstate',-⟩ := bind_ok hrest
  obtain ⟨vs,hnodup,hvs,hgrown⟩ : ∃ vs : List Value, vs.Nodup ∧ (∀ v, v ∈ vs ↔ (∃ l ∈ db j, l this = site.key t dupPk ∧ l that = v) ∧
      ∀ l ∈ db j, l this = site.key t survivorPk → l that ≠ v) ∧ (site.setLinks j this survivorPk that
        (Keyed.distinct id (site.getLinks j this survivorPk that db ++ site.getLinks j this dupPk that db)) db).state =
        Function.update db j (db j ++ vs.map fun v => rowOf [(this,site.cast j this survivorPk),(that,v)]) := by
    refine ⟨_,(List.nodup_dedup _).filter _,fun v => ?_,setLinks_grows (fun v hv => (mem_wanted htyped).mpr (List.mem_append_left _ hv)) hset⟩
    rw [List.mem_filter,mem_wanted htyped,List.mem_append,hlinks,hlinks,Bool.not_eq_true',List.contains_eq_mem,
      decide_eq_false_iff_not,hlinks]
    grind
  have hdeletion : site.deleteWhere j this dupPk = site.statement (site.erased j (site.equals j this dupPk)) := by
    rw [deleteWhere,if_pos (site.linkHeld t h.mem rel j this that other hl)]
  have hdeleted := (statement_ends (not_raises.mpr ⟨_,hdeletion ▸ hdelete⟩)).2
  have hfilter : (fun l => !site.equals j this dupPk l) = fun l => decide (l this ≠ site.key t dupPk) := by
    funext l
    rw [equals_link h.mem hl,decide_not]
  refine ⟨vs,hnodup,hvs,(hstate.trans hstate').trans ?_⟩
  change (site.deleteWhere j this dupPk _).state = _
  rw [hdeletion,hdeleted,erased_junction hl,hgrown,Function.update_idem,Function.update_self,hkey,hfilter]

/-- The survivor has got the links of the duplicate, and all others are as they were. -/
theorem moveLinks_ends (h : Situation site t survivorPk dupPk db₀ survivor duplicate)
    (hne : site.key t survivorPk ≠ site.key t dupPk) {rel : MetaRelation} {j this that : String} {other : MetaTable}
    (hl : (rel,j,this,that,other) ∈ site.mnLinks t) {db db' : Tables} (hdb : site.Admitted db)
    (hends : ¬Raises (moveLinks site survivorPk dupPk (rel,j,this,that,other)) db)
    (hdb' : (moveLinks site survivorPk dupPk (rel,j,this,that,other) db).state = db') :
    (∀ name, name ≠ j → db' name = db name) ∧
      (∀ l' ∈ db' j, ∃ l ∈ db j,
        heir site t survivorPk dupPk (l' this) = heir site t survivorPk dupPk (l this) ∧ l' that = l that) ∧
      ∀ l ∈ db j, ∃ l' ∈ db' j,
        heir site t survivorPk dupPk (l' this) = heir site t survivorPk dupPk (l this) ∧ l' that = l that := by
  have hthat : that ≠ this := (this_ne_that hl).symm
  by_cases hnone : site.getLinks j this dupPk that db = []
  · obtain rfl : db = db' := (moveLinks_idle hnone).symm.trans hdb'
    exact ⟨fun _ _ => rfl,fun l' hl' => ⟨l',hl',rfl,rfl⟩,fun l hmem => ⟨l,hmem,rfl,rfl⟩⟩
  · obtain ⟨vs,-,hvs,hstate⟩ := moveLinks_state h hl hdb hends hnone
    rw [hstate] at hdb'
    subst hdb'
    refine ⟨fun name hname => Function.update_of_ne hname _ _,fun l' hl' => ?_,fun l hmem => ?_⟩
    · rw [Function.update_self] at hl'
      rcases List.mem_append.mp (List.mem_filter.mp hl').1 with hold | hnew
      · exact ⟨l',hold,rfl,rfl⟩
      · obtain ⟨v,hv,rfl⟩ := List.mem_map.mp hnew
        obtain ⟨l,hmem,hthis,rfl⟩ := ((hvs v).mp hv).1
        refine ⟨l,hmem,?_,by rw [link_row,if_neg hthat,if_pos rfl]⟩
        rw [link_row,if_pos rfl,hthis,heir_survivor,heir_dup]
    · rw [Function.update_self]
      by_cases hthis : l this = site.key t dupPk
      · rw [hthis,heir_dup]
        by_cases hheld : ∃ l' ∈ db j, l' this = site.key t survivorPk ∧ l' that = l that
        · obtain ⟨l',hl',hthis',hthat'⟩ := hheld
          exact ⟨l',List.mem_filter.mpr ⟨List.mem_append_left _ hl',by simpa [hthis'] using hne⟩,
            by rw [hthis',heir_survivor],hthat'⟩
        · have hnew : l that ∈ vs := (hvs _).mpr ⟨⟨l,hmem,hthis,rfl⟩,fun l' hl' hs ht => hheld ⟨l',hl',hs,ht⟩⟩
          refine ⟨rowOf [(this,site.key t survivorPk),(that,l that)],List.mem_filter.mpr
            ⟨List.mem_append_right _ (List.mem_map_of_mem hnew),?_⟩,?_,?_⟩
          · simpa [link_row] using hne
          · rw [link_row,if_pos rfl,heir_survivor]
          · rw [link_row,if_neg hthat,if_pos rfl]
      · exact ⟨l,List.mem_filter.mpr ⟨List.mem_append_left _ hmem,by simpa using hthis⟩,rfl,rfl⟩

/-- A link is there between what its two ends have become. -/
def Linked (site : Site) (t : MetaTable) (survivorPk dupPk : Value) (j this that : String) (other : MetaTable) (x y : Value)
    (db : Tables) : Prop :=
  ∃ l ∈ db j, heir site t survivorPk dupPk (l this) = x ∧ partner site t survivorPk dupPk other (l that) = y

/-- No call that moves links changes what is linked with what. -/
theorem linked_moveLinks (h : Situation site t survivorPk dupPk db₀ survivor duplicate)
    (hne : site.key t survivorPk ≠ site.key t dupPk) {rel rel' : MetaRelation} {j j' this this' that that' : String}
    {other other' : MetaTable} (hl : (rel,j,this,that,other) ∈ site.mnLinks t)
    (hl' : (rel',j',this',that',other') ∈ site.mnLinks t) {db db' : Tables} (hdb : site.Admitted db)
    (hends : ¬Raises (moveLinks site survivorPk dupPk (rel,j,this,that,other)) db)
    (hdb' : (moveLinks site survivorPk dupPk (rel,j,this,that,other) db).state = db') (x y : Value) :
    Linked site t survivorPk dupPk j' this' that' other' x y db' ↔ Linked site t survivorPk dupPk j' this' that' other' x y db := by
  obtain ⟨hsame,hback,hon⟩ := moveLinks_ends h hne hl hdb hends hdb'
  by_cases hj : j' = j
  · subst hj
    rcases same_junction h.mem hl hl' with ⟨rfl,rfl,rfl⟩ | ⟨rfl,rfl,rfl,rfl⟩
    · constructor
      · rintro ⟨l',hmem',rfl,rfl⟩
        obtain ⟨l,hmem,hthis,hthat⟩ := hback l' hmem'
        exact ⟨l,hmem,hthis.symm,by rw [hthat]⟩
      · rintro ⟨l,hmem,rfl,rfl⟩
        obtain ⟨l',hmem',hthis,hthat⟩ := hon l hmem
        exact ⟨l',hmem',hthis,by rw [hthat]⟩
    · simp only [Linked,partner,if_true]
      constructor
      · rintro ⟨l',hmem',rfl,rfl⟩
        obtain ⟨l,hmem,hthis,hthat⟩ := hback l' hmem'
        exact ⟨l,hmem,by rw [hthat],hthis.symm⟩
      · rintro ⟨l,hmem,rfl,rfl⟩
        obtain ⟨l',hmem',hthis,hthat⟩ := hon l hmem
        exact ⟨l',hmem',by rw [hthat],hthis⟩
  · rw [Linked,hsame j' hj]
    rfl

/-- After the links have moved none is the duplicate's. -/
theorem linksMoved (h : Situation site t survivorPk dupPk db₀ survivor duplicate)
    (hne : site.key t survivorPk ≠ site.key t dupPk) {db db' : Tables} (hdb : site.Admitted db)
    (hfree : ∀ child fk rel, (child,fk,rel) ∈ site.incomingM1 t →
      Left site t survivorPk dupPk False child.physName fk db) {ns : List ℕ}
    (hok : ((site.mnLinks t).mapM (moveLinks site survivorPk dupPk) db).result = .ok ns)
    (hdb' : ((site.mnLinks t).mapM (moveLinks site survivorPk dupPk) db).state = db') :
    (∀ name col, Refers site t name col → Left site t survivorPk dupPk False name col db') ∧ site.Admitted db' ∧
      (∀ t' ∈ site.tables, db' t'.physName = db t'.physName) ∧
      ∀ rel j this that other, (rel,j,this,that,other) ∈ site.mnLinks t → ∀ x y,
        Linked site t survivorPk dupPk j this that other x y db' ↔ Linked site t survivorPk dupPk j this that other x y db := by
  subst hdb'
  let P : Tables → Prop := fun db' => site.Admitted db' ∧
    (∀ child fk rel, (child,fk,rel) ∈ site.incomingM1 t → Left site t survivorPk dupPk False child.physName fk db') ∧
    (∀ t' ∈ site.tables, db' t'.physName = db t'.physName) ∧
    ∀ rel j this that other, (rel,j,this,that,other) ∈ site.mnLinks t → ∀ x y,
      Linked site t survivorPk dupPk j this that other x y db' ↔ Linked site t survivorPk dupPk j this that other x y db
  have hown : ∀ l ∈ site.mnLinks t, Ensures P (moveLinks site survivorPk dupPk l)
      (Left site t survivorPk dupPk False l.2.1 l.2.2.1) := by
    rintro ⟨rel,j,this,that,other⟩ hl s hs n hn
    obtain ⟨hadmitted,hgone⟩ := moveLinks_free h hl hs.1 (not_raises.mpr ⟨n,hn⟩)
    exact ⟨hadmitted,fun row hrow hcol => absurd hcol (hgone row hrow)⟩
  have hkeep : ∀ l ∈ site.mnLinks t, Ensures P (moveLinks site survivorPk dupPk l) P := by
    rintro ⟨rel,j,this,that,other⟩ hl s ⟨hs,hleft,hsame,hlinked⟩ n hn
    have hends := not_raises.mpr ⟨n,hn⟩
    refine ⟨(moveLinks_free h hl hs hends).1,fun child fk rel' hp => ?_,fun t' ht' => ?_,fun rel' j' this' that' other' hl' x y => ?_⟩
    · exact left_moveLinks h (Or.inl ⟨child,rel',hp,rfl⟩) hl s (hleft child fk rel' hp)
    · rw [(moveLinks_ends h hne hl hs hends rfl).1 _ (junction_ne ht' hl),hsame t' ht']
    · rw [linked_moveLinks h hne hl hl' hs hends rfl,hlinked rel' j' this' that' other' hl']
  have hothers : ∀ l ∈ site.mnLinks t, ∀ l' ∈ site.mnLinks t,
      Ensures (fun s => P s ∧ Left site t survivorPk dupPk False l'.2.1 l'.2.2.1 s) (moveLinks site survivorPk dupPk l)
        (Left site t survivorPk dupPk False l'.2.1 l'.2.2.1) := by
    rintro l hl ⟨rel,j,this,that,other⟩ hl' s hs n hn
    exact left_moveLinks h (Or.inr ⟨rel,that,other,hl'⟩) hl s hs.2
  have hstart : P db := ⟨hdb,hfree,fun _ _ => rfl,fun _ _ _ _ _ _ _ _ => Iff.rfl⟩
  obtain ⟨hadmitted,hleft,hsame,hlinked⟩ := ensures_mapM hkeep db hstart ns hok
  refine ⟨?_,hadmitted,hsame,hlinked⟩
  rintro name col (⟨child,rel,hp,rfl⟩ | ⟨rel,that,other,hl⟩)
  · exact hleft child col rel hp
  · exact ensures_each_mapM hown hkeep hothers db hstart ns hok (rel,name,col,that,other) hl

/-! ### The fields -/

/-- The survivor has the duplicate's value where it had none; outside formulas and managed columns nothing else has
changed. -/
def Completed (site : Site) (t : MetaTable) (survivorPk : Value) (survivor duplicate : Row) (name : String) (row row' : Row) :
    Prop :=
  ∀ c, ¬site.Computed name c → ¬site.Stamped name c → row' c =
    if name = t.physName ∧ row t.pkCol = site.key t survivorPk then ((fills site t survivor duplicate).lookup c).getD (row c)
    else row c

/-- In the column the survivor may have been given the duplicate's reference to itself. -/
def Stale (site : Site) (t : MetaTable) (dupPk : Value) (survivor duplicate : Row) (col : String) : Prop :=
  (survivor col).blank = true ∧ duplicate col = site.key t dupPk

theorem lookup_filled (h : Situation site t survivorPk dupPk db₀ survivor duplicate)
    (hblank : (site.key t survivorPk).blank = false) {db : Tables} {c : String} (hplain : ¬site.Computed t.physName c)
    (hfree : ¬site.Stamped t.physName c) :
    (site.stored t (site.written t survivorPk (fills site t survivor duplicate) userId now db)).lookup c =
      (fills site t survivor duplicate).lookup c := by
  rw [lookup_stored,written,lookup_updated h.mem hplain (Related.auditStamp_unmanaged (unstamped h.mem hfree))]
  cases hv : (fills site t survivor duplicate).lookup c with
  | none => exact ite_self _
  | some v =>
    rw [lookup_fills] at hv
    split at hv
    · rename_i hc
      have hpk : c ≠ t.pkCol := by
        rintro rfl
        rw [(getRow_mem h.survivorAt).2,hblank] at hc
        exact absurd hc.2.2.1 (by decide)
      have htyped := (site.sound db₀ h.admitted).typed t.physName duplicate (getRow_mem h.duplicateAt).1 c
      rw [if_pos ⟨hc.2.1,hpk⟩,← Option.some.inj hv,Option.map_some,htyped]
    · cases hv

theorem completed (h : Situation site t survivorPk dupPk db₀ survivor duplicate) (hquiet : site.Quiet)
    (hblank : (site.key t survivorPk).blank = false) {db db' : Tables}
    (hok : ((if fills site t survivor duplicate = [] then pure ()
      else site.update t survivorPk (fills site t survivor duplicate) userId now : Service Unit) db).result = .ok ())
    (hdb' : ((if fills site t survivor duplicate = [] then pure ()
      else site.update t survivorPk (fills site t survivor duplicate) userId now : Service Unit) db).state = db') :
    ∀ name, List.Forall₂ (Completed site t survivorPk survivor duplicate name) (db name) (db' name) := by
  intro name
  split at hok
  · rename_i hnone
    rw [if_pos hnone] at hdb'
    obtain rfl : db = db' := hdb'
    refine List.forall₂_same.mpr fun row _ c _ _ => ?_
    rw [hnone]
    exact (ite_self _).symm
  · rename_i hsome
    rw [if_neg hsome] at hdb'
    have halike := update_ends hquiet (not_raises.mpr ⟨(),hok⟩) name
    rw [hdb'] at halike
    by_cases hname : name = t.physName
    · subst hname
      rw [rewritten,Function.update_self] at halike
      refine (List.forall₂_map_left_iff.mp halike).imp fun row row' hrow c hplain hfree => ?_
      rw [hrow c hplain]
      by_cases hp : row t.pkCol = site.key t survivorPk
      · have htest : site.equals t.physName t.pkCol survivorPk row = true := decide_eq_true hp
        rw [if_pos htest,if_pos ⟨rfl,hp⟩,Row.write,lookup_filled h hblank hplain hfree]
      · have htest : ¬site.equals t.physName t.pkCol survivorPk row = true := fun hp' => hp (of_decide_eq_true hp')
        rw [if_neg htest,if_neg fun hp' => hp hp'.2]
    · rw [rewritten,Function.update_of_ne hname] at halike
      refine halike.imp fun row row' hrow c hplain _ => ?_
      rw [hrow c hplain,if_neg fun hp => hname hp.1]

/-- After the fields have been filled only the survivor may refer to the duplicate, by what it has got from it. -/
theorem stale_filled (h : Situation site t survivorPk dupPk db₀ survivor duplicate) (hquiet : site.Quiet) {db db' : Tables}
    (hfree : ∀ name col, Refers site t name col → Left site t survivorPk dupPk False name col db)
    (hdb' : ((if fills site t survivor duplicate = [] then pure ()
      else site.update t survivorPk (fills site t survivor duplicate) userId now : Service Unit) db).state = db') :
    ∀ name col, Refers site t name col →
      Left site t survivorPk dupPk (Stale site t dupPk survivor duplicate col) name col db' := by
  intro name col hrefers
  obtain ⟨hadmitted,hleft⟩ := hfree name col hrefers
  have hstart : Left site t survivorPk dupPk (Stale site t dupPk survivor duplicate col) name col db :=
    ⟨hadmitted,fun row hrow hcol => (hleft row hrow hcol).2.2.elim⟩
  split at hdb'
  · obtain rfl : db = db' := hdb'
    exact hstart
  · rw [← hdb']
    exact left_update h hquiet hrefers (fun _ hblank _ hdup => ⟨hblank,hdup⟩) db hstart

end Rows

end Merge
end Biggy
