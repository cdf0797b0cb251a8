import Biggy.Forecast
import Biggy.MergeSound

/-!
# What a merge is said to do

`preview` counts beforehand what `merge` will repoint, move and fill. Each call of the merge changes what the next ones
find; `foretold_iff` says when the counts are right all the same.
-/
namespace Biggy
namespace Merge

open Relations Commits Commits.Prog Database Database.Site RecordService
open Related (rowOf)
open Forecast (listed)

section Definitions

variable (site : Site) (t : MetaTable)

def countRows (name col : String) (v : Value) (db : Tables) : ℕ :=
  if col ∈ site.columns name then (db name).countP (site.equals name col v) else 0

structure Preview where
  survivor : Row
  duplicate : Row
  fills : Values
  children : List (String × ℕ)
  links : List (String × ℕ)

/-- `rel.name or other.label`. -/
def linkLabel (rel : MetaRelation) (other : MetaTable) : String := if rel.name = "" then other.label else rel.name

/-- `preview`. -/
def preview (survivorPk dupPk : Value) (db : Tables) : Option Preview :=
  match site.getRow t survivorPk db, site.getRow t dupPk db with
  | some survivor, some duplicate => some
    { survivor := survivor
      duplicate := duplicate
      fills := fills site t survivor duplicate
      children := (site.incomingM1 t).filterMap fun (child,fk,_) =>
        let n := countRows site child.physName fk dupPk db
        if n = 0 then none else some (child.label,n)
      links := (site.mnLinks t).filterMap fun (rel,j,this,that,other) =>
        let n := (site.getLinks j this dupPk that db).length
        if n = 0 then none else some (linkLabel rel other,n) }
  | _, _ => none

/-- What a merge has done: the children repointed by each relation, the links moved in each direction, and the fields
that the survivor was filled with. -/
structure Deeds where
  repointed : List ℕ
  moved : List ℕ
  filled : Values

def Deeds.summary (deeds : Deeds) : Summary := ⟨deeds.repointed.sum,deeds.moved.sum,deeds.filled.length⟩

/-- A merge that gives account of what it does. -/
def perform (survivorPk dupPk : Value) (userId : Option ℕ) (now later : ℤ) : Service Deeds :=
  if site.str survivorPk = site.str dupPk then
    raise (.python (.valueError "Survivor and duplicate are the same record."))
  else withState fun db =>
    match site.getRow t survivorPk db, site.getRow t dupPk db with
    | some survivor, some duplicate => do
      let repointed ← (site.incomingM1 t).mapM (repoint site survivorPk dupPk)
      let moved ← (site.mnLinks t).mapM (moveLinks site survivorPk dupPk)
      let filled := fills site t survivor duplicate
      (if filled = [] then pure () else site.update t survivorPk filled userId now)
      site.remove t dupPk userId later
      pure ⟨repointed,moved,filled⟩
    | _, _ => raise (.python (.valueError "Both records must exist."))

/-- The preview lists what the merge has done. -/
structure Foretold (p : Preview) (deeds : Deeds) : Prop where
  children : p.children = listed ((site.incomingM1 t).map fun x => x.1.label) deeds.repointed
  links : p.links = listed ((site.mnLinks t).map fun l => linkLabel l.1 l.2.2.2.2) deeds.moved
  fills : p.fills = deeds.filled

/-- The children that the one relation repoints are not those of the other. -/
def ChildrenApart (dupPk : Value) (x y : MetaTable × String × MetaRelation) (db : Tables) : Prop :=
  x.1.physName = y.1.physName → x.2.1 = y.2.1 → ∀ row ∈ db x.1.physName, row x.2.1 ≠ site.key t dupPk

/-- A link of the duplicate in both directions is still one in the second when the first has been moved: the survivor
has none that it becomes. -/
def LinksApart (survivorPk dupPk : Value) (l m : MetaRelation × String × String × String × MetaTable) (db : Tables) : Prop :=
  l.2.1 = m.2.1 → ∀ row ∈ db l.2.1, row l.2.2.1 = site.key t dupPk → row m.2.2.1 = site.key t dupPk →
    l.2.2.1 ≠ m.2.2.1 ∧ ∀ row' ∈ db l.2.1, row' l.2.2.1 = site.key t survivorPk → row' m.2.2.1 ≠ site.key t dupPk

/-- No call of the merge takes from what a later one is to count. -/
structure Foreseeable (survivorPk dupPk : Value) (db : Tables) : Prop where
  children : (site.incomingM1 t).Pairwise fun x y => ChildrenApart site t dupPk x y db
  links : (site.mnLinks t).Pairwise fun l m => LinksApart site t survivorPk dupPk l m db

end Definitions

section Account

variable {site : Site} {t : MetaTable} {survivorPk dupPk : Value} {userId : Option ℕ} {now later : ℤ} {db db₀ : Tables}
  {survivor duplicate : Row}

/-- A merge returns the totals of its account. -/
theorem merge_perform (survivorPk dupPk : Value) (userId : Option ℕ) (now later : ℤ) :
    merge site t survivorPk dupPk userId now later =
      perform site t survivorPk dupPk userId now later >>= fun deeds => pure deeds.summary := by
  rw [merge,perform]
  split
  · rfl
  · funext db
    rw [bind_def]
    simp only [withState_apply]
    cases hs : site.getRow t survivorPk db with
    | none => rfl
    | some survivor =>
      cases hd : site.getRow t dupPk db with
      | none => rfl
      | some duplicate =>
        rw [← bind_def]
        simp only [bind_assoc,pure_bind]
        rfl

/-! ### The children -/

/-- The children that the relation would repoint. -/
def children (site : Site) (t : MetaTable) (dupPk : Value) (x : MetaTable × String × MetaRelation) (db : Tables) : ℕ :=
  (db x.1.physName).countP fun row => decide (row x.2.1 = site.key t dupPk)

theorem countRows_children (ht : t ∈ site.tables) {x : MetaTable × String × MetaRelation} (hx : x ∈ site.incomingM1 t) :
    countRows site x.1.physName x.2.1 dupPk db = children site t dupPk x db := by
  obtain ⟨child,fk,rel⟩ := x
  rw [countRows,if_pos (site.fkField t ht child fk rel hx).1,equals_fk ht hx]
  rfl

theorem children_zero {x : MetaTable × String × MetaRelation} : children site t dupPk x db = 0 ↔
    ∀ row ∈ db x.1.physName, row x.2.1 ≠ site.key t dupPk := by
  simp [children,List.countP_eq_zero]

theorem repoint_counts (ht : t ∈ site.tables) {x : MetaTable × String × MetaRelation} (hx : x ∈ site.incomingM1 t) {n : ℕ}
    (hok : (repoint site survivorPk dupPk x db).result = .ok n) : n = children site t dupPk x db := by
  rw [← countRows_children ht hx]
  obtain ⟨child,fk,rel⟩ := x
  have hcol := (site.fkField t ht child fk rel hx).1
  rw [countRows,if_pos hcol]
  rw [repoint,repointFk,if_pos hcol,withState_apply] at hok
  obtain ⟨_,-,hlast,-,-⟩ := bind_ok hok
  exact (Except.ok.inj hlast).symm

/-- A repointing leaves the children of the relations over other columns, and none of its own. -/
theorem repoint_children (ht : t ∈ site.tables) (hne : site.key t survivorPk ≠ site.key t dupPk)
    {x y : MetaTable × String × MetaRelation} (hx : x ∈ site.incomingM1 t) (hends : ¬Raises (repoint site survivorPk dupPk x) db) :
    children site t dupPk y (repoint site survivorPk dupPk x db).state =
      if x.1.physName = y.1.physName ∧ x.2.1 = y.2.1 then 0 else children site t dupPk y db := by
  obtain ⟨child,fk,rel⟩ := x
  split
  · rename_i hsame
    refine children_zero.mpr ?_
    rw [← hsame.1,← hsame.2]
    exact repoint_free ht hne hx hends
  · rename_i hother
    rw [(repoint_ends ht hx hends).2,children,children]
    by_cases hname : y.1.physName = child.physName
    · have hcol : y.2.1 ≠ fk := fun hcol => hother ⟨hname.symm,hcol.symm⟩
      rw [hname,rewritten,Function.update_self,List.countP_map]
      refine List.countP_congr fun row _ => ?_
      simp only [Function.comp_apply]
      split
      · rw [Row.write,Values.lookup_singleton,if_neg hcol]
        rfl
      · rfl
    · rw [rewritten,Function.update_of_ne hname]

theorem counting_children (ht : t ∈ site.tables) (hne : site.key t survivorPk ≠ site.key t dupPk) :
    Forecast.Counting site.Admitted (children site t dupPk) (ChildrenApart site t dupPk) (repoint site survivorPk dupPk)
      (site.incomingM1 t) := by
  have hstep : ∀ x ∈ site.incomingM1 t, ∀ y s n, (repoint site survivorPk dupPk x s).result = .ok n →
      children site t dupPk y (repoint site survivorPk dupPk x s).state =
        if x.1.physName = y.1.physName ∧ x.2.1 = y.2.1 then 0 else children site t dupPk y s :=
    fun x hx y s n hn => repoint_children ht hne hx (not_raises.mpr ⟨n,hn⟩)
  have hspares : ∀ x ∈ site.incomingM1 t, ∀ y ∈ site.incomingM1 t, ∀ s, site.Admitted s → ∀ n,
      (repoint site survivorPk dupPk x s).result = .ok n →
      (children site t dupPk y (repoint site survivorPk dupPk x s).state = children site t dupPk y s ↔
        ChildrenApart site t dupPk x y s) := by
    intro x hx y _ s _ n hn
    rw [hstep x hx y s n hn]
    split
    · rename_i hsame
      rw [eq_comm,children_zero,ChildrenApart,← hsame.1,← hsame.2]
      simp
    · rename_i hother
      exact iff_of_true rfl fun hname hcol => absurd ⟨hname,hcol⟩ hother
  have hzero : ∀ y z s, ChildrenApart site t dupPk y z s ↔
      (y.1.physName = z.1.physName → y.2.1 = z.2.1 → children site t dupPk y s = 0) := by
    intro y z s
    rw [ChildrenApart,children_zero]
  exact
    { counts := fun x hx s _ n hn => repoint_counts ht hx hn
      keeps := fun x hx s _ n hn => (repoint_ends ht hx (not_raises.mpr ⟨n,hn⟩)).1
      shrinks := fun x hx y _ s _ n hn => by
        rw [hstep x hx y s n hn]
        split
        · exact Nat.zero_le _
        · exact Nat.le_refl _
      spares := hspares
      stable := fun x hx y hy z _ s hs hy' _ n hn => by
        rw [hzero,hzero,(hspares x hx y hy s hs n hn).mpr hy'] }

/-! ### The links -/

/-- The links that would be moved in the direction. -/
def linkCount (site : Site) (t : MetaTable) (dupPk : Value) (l : MetaRelation × String × String × String × MetaTable)
    (db : Tables) : ℕ :=
  (db l.2.1).countP fun row => decide (row l.2.2.1 = site.key t dupPk)

theorem length_getLinks (ht : t ∈ site.tables) {rel : MetaRelation} {j this that : String} {other : MetaTable}
    (hl : (rel,j,this,that,other) ∈ site.mnLinks t) :
    (site.getLinks j this dupPk that db).length = linkCount site t dupPk (rel,j,this,that,other) db := by
  rw [getLinks,List.length_map,equals_link ht hl,← List.countP_eq_length_filter]
  rfl

theorem linkCount_zero {l : MetaRelation × String × String × String × MetaTable} : linkCount site t dupPk l db = 0 ↔
    ∀ row ∈ db l.2.1, row l.2.2.1 ≠ site.key t dupPk := by
  simp [linkCount,List.countP_eq_zero]

theorem moveLinks_counts (ht : t ∈ site.tables) {l : MetaRelation × String × String × String × MetaTable}
    (hl : l ∈ site.mnLinks t) {n : ℕ} (hok : (moveLinks site survivorPk dupPk l db).result = .ok n) :
    n = linkCount site t dupPk l db := by
  obtain ⟨rel,j,this,that,other⟩ := l
  rw [← length_getLinks ht hl]
  rw [moveLinks,withState_apply] at hok
  by_cases hnone : site.getLinks j this dupPk that db = []
  · simp only [if_pos hnone] at hok
    rw [hnone]
    exact (Except.ok.inj hok).symm
  · simp only [if_neg hnone] at hok
    obtain ⟨_,-,hrest,-,-⟩ := bind_ok hok
    obtain ⟨_,-,hlast,-,-⟩ := bind_ok hrest
    exact (Except.ok.inj hlast).symm

/-- Links that go over to another record are still links to a third one, less those that the other had already. -/
theorem countP_moved {this that : String} {d s : Value} (hne : s ≠ d) (hthat : that ≠ this) (rows : List Row) (vs : List Value) :
    ((rows ++ vs.map fun v => rowOf [(this,s),(that,v)]).filter fun l => decide (l this ≠ d)).countP
        (fun l => decide (l that = d)) + rows.countP (fun l => decide (l this = d ∧ l that = d)) =
      rows.countP (fun l => decide (l that = d)) + vs.count d := by
  have hrows : rows.countP (fun l => decide (l that = d) && decide (l this ≠ d)) +
      rows.countP (fun l => decide (l this = d ∧ l that = d)) = rows.countP fun l => decide (l that = d) := by
    induction rows with
    | nil => rfl
    | cons l rows ih =>
      rw [List.countP_cons,List.countP_cons,List.countP_cons,← ih]
      by_cases hl : l this = d
      · by_cases hl' : l that = d
        · simp [hl,hl',Nat.add_assoc]
        · simp [hl,hl']
      · by_cases hl' : l that = d
        · simp [hl,hl',Nat.add_right_comm]
        · simp [hl,hl']
  have hnew : (vs.map fun v => rowOf [(this,s),(that,v)]).countP (fun l => decide (l that = d) && decide (l this ≠ d)) =
      vs.count d := by
    rw [List.countP_map,List.count]
    refine List.countP_congr fun v _ => ?_
    simp [link_row,hthat,hne]
  rw [List.countP_filter,List.countP_append,hnew,← hrows]
  exact Nat.add_right_comm _ _ _

variable (h : Situation site t survivorPk dupPk db₀ survivor duplicate) (hne : site.key t survivorPk ≠ site.key t dupPk)

include h hne

/-- Moving the links of one direction takes from those of the other when the survivor has the link already that one of
the duplicate to itself becomes. -/
theorem moveLinks_reversed {rel rel' : MetaRelation} {j this that : String} {other other' : MetaTable}
    (hl : (rel,j,this,that,other) ∈ site.mnLinks t) (hdb : site.Admitted db)
    (hends : ¬Raises (moveLinks site survivorPk dupPk (rel,j,this,that,other)) db) :
    linkCount site t dupPk (rel',j,that,this,other') (moveLinks site survivorPk dupPk (rel,j,this,that,other) db).state ≤
        linkCount site t dupPk (rel',j,that,this,other') db ∧
      (linkCount site t dupPk (rel',j,that,this,other') (moveLinks site survivorPk dupPk (rel,j,this,that,other) db).state =
          linkCount site t dupPk (rel',j,that,this,other') db ↔
        LinksApart site t survivorPk dupPk (rel,j,this,that,other) (rel',j,that,this,other') db) := by
  by_cases hnone : site.getLinks j this dupPk that db = []
  · have hzero : linkCount site t dupPk (rel,j,this,that,other) db = 0 := by
      rw [← length_getLinks h.mem hl,hnone]
      rfl
    rw [moveLinks_idle hnone]
    exact ⟨Nat.le_refl _,iff_of_true rfl fun _ row hrow hthis => absurd hthis (linkCount_zero.mp hzero row hrow)⟩
  · obtain ⟨vs,hnodup,hvs,hstate⟩ := moveLinks_state h hl hdb hends hnone
    have hcounts := countP_moved hne (this_ne_that hl).symm (db j) vs
    have hafter : linkCount site t dupPk (rel',j,that,this,other')
        (moveLinks site survivorPk dupPk (rel,j,this,that,other) db).state =
          ((db j ++ vs.map fun v => rowOf [(this,site.key t survivorPk),(that,v)]).filter fun l =>
            decide (l this ≠ site.key t dupPk)).countP fun l => decide (l that = site.key t dupPk) := by
      rw [linkCount,hstate,Function.update_self]
    rw [hafter]
    change _ ≤ (db j).countP (fun l => decide (l that = site.key t dupPk)) ∧
      (_ = (db j).countP (fun l => decide (l that = site.key t dupPk)) ↔ _)
    have hapart : LinksApart site t survivorPk dupPk (rel,j,this,that,other) (rel',j,that,this,other') db ↔
        ((∃ l ∈ db j, l this = site.key t dupPk ∧ l that = site.key t dupPk) → site.key t dupPk ∈ vs) := by
      rw [hvs]
      constructor
      · rintro hapart ⟨l,hmem,hthis,hthat⟩
        exact ⟨⟨l,hmem,hthis,hthat⟩,(hapart rfl l hmem hthis hthat).2⟩
      · intro hall _ l hmem hthis hthat
        exact ⟨this_ne_that hl,(hall ⟨l,hmem,hthis,hthat⟩).2⟩
    rw [hapart]
    have hnew : vs.count (site.key t dupPk) = if site.key t dupPk ∈ vs then 1 else 0 := hnodup.count
    by_cases hloop : ∃ l ∈ db j, l this = site.key t dupPk ∧ l that = site.key t dupPk
    · have hone := countP_pair ((site.sound db hdb).pairsOnce t h.mem rel j this that other hl) hloop
      rw [hone,hnew] at hcounts
      simp only [hloop,forall_const]
      split at hcounts
      · exact ⟨by omega,iff_of_true (by omega) ‹_›⟩
      · exact ⟨by omega,iff_of_false (by omega) ‹_›⟩
    · have hzero : (db j).countP (fun l => decide (l this = site.key t dupPk ∧ l that = site.key t dupPk)) = 0 :=
        List.countP_eq_zero.mpr fun l hmem hp => hloop ⟨l,hmem,of_decide_eq_true hp⟩
      have hnotin : site.key t dupPk ∉ vs := fun hmem => hloop ((hvs _).mp hmem).1
      rw [hzero,hnew,if_neg hnotin] at hcounts
      exact ⟨by omega,iff_of_true (by omega) fun hex => absurd hex hloop⟩

/-- Moving the links of one direction takes from those of a later one unless the two are apart. -/
theorem moveLinks_spares {l m : MetaRelation × String × String × String × MetaTable} (hl : l ∈ site.mnLinks t)
    (hm : m ∈ site.mnLinks t) (hdb : site.Admitted db) (hends : ¬Raises (moveLinks site survivorPk dupPk l) db) :
    linkCount site t dupPk m (moveLinks site survivorPk dupPk l db).state ≤ linkCount site t dupPk m db ∧
      (linkCount site t dupPk m (moveLinks site survivorPk dupPk l db).state = linkCount site t dupPk m db ↔
        LinksApart site t survivorPk dupPk l m db) := by
  obtain ⟨rel,j,this,that,other⟩ := l
  obtain ⟨rel',j',this',that',other'⟩ := m
  by_cases hj : j' = j
  · subst hj
    rcases same_junction h.mem hl hm with ⟨rfl,rfl,-⟩ | ⟨rfl,rfl,-,-⟩
    · have hgone : linkCount site t dupPk (rel',j',this',that',other')
          (moveLinks site survivorPk dupPk (rel,j',this',that',other) db).state = 0 :=
        linkCount_zero.mpr (moveLinks_free h hl hdb hends).2
      rw [hgone]
      refine ⟨Nat.zero_le _,eq_comm.trans (linkCount_zero.trans ⟨?_,?_⟩)⟩
      · exact fun hnone _ row hrow hthis => absurd hthis (hnone row hrow)
      · exact fun hapart row hrow hthis => (hapart rfl row hrow hthis hthis).1 rfl
    · exact moveLinks_reversed h hne hl hdb hends
  · have hsame : linkCount site t dupPk (rel',j',this',that',other')
        (moveLinks site survivorPk dupPk (rel,j,this,that,other) db).state =
          linkCount site t dupPk (rel',j',this',that',other') db := by
      rw [linkCount,linkCount,(moveLinks_ends h hne hl hdb hends rfl).1 j' hj]
    rw [hsame]
    exact ⟨Nat.le_refl _,iff_of_true rfl fun heq => absurd heq.symm hj⟩

/-- Whether two later directions are apart does not change when both have been spared. -/
theorem apart_stable {l m k : MetaRelation × String × String × String × MetaTable} (hl : l ∈ site.mnLinks t)
    (hm : m ∈ site.mnLinks t) (hk : k ∈ site.mnLinks t) (hdb : site.Admitted db)
    (hends : ¬Raises (moveLinks site survivorPk dupPk l) db) (hlm : LinksApart site t survivorPk dupPk l m db)
    (hlk : LinksApart site t survivorPk dupPk l k db) :
    LinksApart site t survivorPk dupPk m k (moveLinks site survivorPk dupPk l db).state ↔
      LinksApart site t survivorPk dupPk m k db := by
  by_cases hj : m.2.1 = l.2.1
  · by_cases hmk : m.2.1 = k.2.1
    · by_cases hidle : linkCount site t dupPk l db = 0
      · obtain ⟨rel,j,this,that,other⟩ := l
        have hnone : site.getLinks j this dupPk that db = [] :=
          List.eq_nil_of_length_eq_zero ((length_getLinks h.mem hl).trans hidle)
        rw [moveLinks_idle hnone]
      · -- both run against the first, hence in one direction: they are apart when there are no links at all
        have hback : ∀ x ∈ site.mnLinks t, l.2.1 = x.2.1 → LinksApart site t survivorPk dupPk l x db →
            x.2.2.1 = l.2.2.2.1 := by
          intro x hx hjunction hapart
          obtain ⟨rel,j,this,that,other⟩ := l
          obtain ⟨rel',j',this',that',other'⟩ := x
          obtain rfl : j = j' := hjunction
          rcases same_junction h.mem hl hx with ⟨rfl,-,-⟩ | ⟨rfl,-,-,-⟩
          · refine absurd (linkCount_zero.mpr fun row hrow hthis => ?_) hidle
            exact (hapart rfl row hrow hthis hthis).1 rfl
          · rfl
        have hdirection : m.2.2.1 = k.2.2.1 := (hback m hm hj.symm hlm).trans (hback k hk (hj.symm.trans hmk) hlk).symm
        have hzero : ∀ s, LinksApart site t survivorPk dupPk m k s ↔ linkCount site t dupPk m s = 0 := by
          intro s
          rw [linkCount_zero,LinksApart,← hdirection]
          constructor
          · exact fun hapart row hrow hthis => (hapart hmk row hrow hthis hthis).1 rfl
          · exact fun hnone _ row hrow hthis => absurd hthis (hnone row hrow)
        rw [hzero,hzero,(moveLinks_spares h hne hl hm hdb hends).2.mpr hlm]
    · exact iff_of_true (fun heq => absurd heq hmk) fun heq => absurd heq hmk
  · obtain ⟨rel,j,this,that,other⟩ := l
    rw [LinksApart,LinksApart,(moveLinks_ends h hne hl hdb hends rfl).1 m.2.1 hj]

theorem counting_links : Forecast.Counting site.Admitted (linkCount site t dupPk) (LinksApart site t survivorPk dupPk)
    (moveLinks site survivorPk dupPk) (site.mnLinks t) where
  counts _ hl _ _ _ hn := moveLinks_counts h.mem hl hn
  keeps _ hl _ hs n hn := (moveLinks_free h hl hs (not_raises.mpr ⟨n,hn⟩)).1
  shrinks _ hl _ hm _ hs n hn := (moveLinks_spares h hne hl hm hs (not_raises.mpr ⟨n,hn⟩)).1
  spares _ hl _ hm _ hs n hn := (moveLinks_spares h hne hl hm hs (not_raises.mpr ⟨n,hn⟩)).2
  stable _ hl _ hm _ hk _ hs hlm hlk n hn := apart_stable h hne hl hm hk hs (not_raises.mpr ⟨n,hn⟩) hlm hlk

/-! ### The whole merge -/

omit hne in
/-- The preview lists what there is before the merge. -/
theorem preview_eq : preview site t survivorPk dupPk db₀ = some
    { survivor := survivor
      duplicate := duplicate
      fills := fills site t survivor duplicate
      children := listed ((site.incomingM1 t).map fun x => x.1.label)
        ((site.incomingM1 t).map fun x => children site t dupPk x db₀)
      links := listed ((site.mnLinks t).map fun l => linkLabel l.1 l.2.2.2.2)
        ((site.mnLinks t).map fun l => linkCount site t dupPk l db₀) } := by
  rw [preview,h.survivorAt,h.duplicateAt,← Forecast.listed_map,← Forecast.listed_map]
  refine congrArg some (congrArg₂ (fun cs ls => Preview.mk survivor duplicate (fills site t survivor duplicate) cs ls) ?_ ?_)
  · refine List.filterMap_congr fun x hx => ?_
    rw [← countRows_children h.mem hx]
  · refine List.filterMap_congr fun l hl => ?_
    rw [← length_getLinks h.mem hl]

/-- What is counted before the merge, and by it. -/
theorem perform_counts {deeds : Deeds} (hok : (perform site t survivorPk dupPk userId now later db₀).result = .ok deeds) :
    deeds.filled = fills site t survivor duplicate ∧
      (List.Forall₂ (· ≤ ·) deeds.repointed ((site.incomingM1 t).map fun x => children site t dupPk x db₀) ∧
        List.Forall₂ (· ≤ ·) deeds.moved ((site.mnLinks t).map fun l => linkCount site t dupPk l db₀)) ∧
      (deeds.repointed = (site.incomingM1 t).map (fun x => children site t dupPk x db₀) ∧
          deeds.moved = (site.mnLinks t).map (fun l => linkCount site t dupPk l db₀) ↔
        Foreseeable site t survivorPk dupPk db₀) := by
  have hstr : site.str survivorPk ≠ site.str dupPk := by
    intro hsame
    rw [perform,if_pos hsame] at hok
    cases hok
  simp only [perform,if_neg hstr,withState_apply,h.survivorAt,h.duplicateAt] at hok
  obtain ⟨ns,hrepoint,hrest,-,-⟩ := bind_ok hok
  obtain ⟨ms,hmove,hrest,-,-⟩ := bind_ok hrest
  obtain ⟨_,-,hrest,-,-⟩ := bind_ok hrest
  obtain ⟨_,-,hlast,-,-⟩ := bind_ok hrest
  obtain rfl : Deeds.mk ns ms (fills site t survivor duplicate) = deeds := Except.ok.inj hlast
  obtain ⟨-,hadmitted,-,hjunctions⟩ := repointed h hne hrepoint rfl
  obtain ⟨hchildren,hchildren'⟩ := (counting_children h.mem hne).counted h.admitted hrepoint
  obtain ⟨hlinks,hlinks'⟩ := (counting_links h hne).counted hadmitted hmove
  have hsame : ∀ l ∈ site.mnLinks t, ((site.incomingM1 t).mapM (repoint site survivorPk dupPk) db₀).state l.2.1 = db₀ l.2.1 :=
    fun l hl => hjunctions l.2.1 fun t' ht' => junction_ne ht' hl
  have hcounts : ((site.mnLinks t).map fun l => linkCount site t dupPk l
      ((site.incomingM1 t).mapM (repoint site survivorPk dupPk) db₀).state) =
        (site.mnLinks t).map fun l => linkCount site t dupPk l db₀ :=
    List.map_congr_left fun l hl => by rw [linkCount,linkCount,hsame l hl]
  have hpairs : ((site.mnLinks t).Pairwise fun l m => LinksApart site t survivorPk dupPk l m
      ((site.incomingM1 t).mapM (repoint site survivorPk dupPk) db₀).state) ↔
        (site.mnLinks t).Pairwise fun l m => LinksApart site t survivorPk dupPk l m db₀ :=
    List.Pairwise.iff_of_mem fun hl _ => by rw [LinksApart,LinksApart,hsame _ hl]
  rw [hcounts] at hlinks hlinks'
  refine ⟨rfl,⟨hchildren,hlinks⟩,?_⟩
  rw [hchildren',hlinks',hpairs]
  exact ⟨fun hboth => ⟨hboth.1,hboth.2⟩,fun hforeseen => ⟨hforeseen.children,hforeseen.links⟩⟩

/-- What a right preview lists adds up to what the merge returns. -/
theorem Foretold.totals {deeds : Deeds} (hok : (perform site t survivorPk dupPk userId now later db₀).result = .ok deeds)
    {p : Preview} (hforetold : Foretold site t p deeds) :
    deeds.summary = ⟨(p.children.map Prod.snd).sum,(p.links.map Prod.snd).sum,p.fills.length⟩ := by
  obtain ⟨-,⟨hchildren,hlinks⟩,-⟩ := perform_counts h hne hok
  have hlength := hchildren.length_eq
  have hlength' := hlinks.length_eq
  rw [List.length_map] at hlength hlength'
  rw [hforetold.children,hforetold.links,hforetold.fills,Forecast.sum_listed (by rw [hlength,List.length_map]),
    Forecast.sum_listed (by rw [hlength',List.length_map])]
  rfl

end Account

/-- The preview of a merge that comes to its end is right exactly when no call takes from what a later one is to count. -/
theorem foretold_iff (site : Site) {t : MetaTable} (ht : t ∈ site.tables) {survivorPk dupPk : Value} (userId : Option ℕ)
    (now later : ℤ) {db : Tables} (hdb : site.Admitted db) {survivor duplicate : Row}
    (hs : site.getRow t survivorPk db = some survivor) (hd : site.getRow t dupPk db = some duplicate)
    (hne : site.key t survivorPk ≠ site.key t dupPk) {summary : Summary}
    (hok : (merge site t survivorPk dupPk userId now later db).result = .ok summary) :
    (∃ p deeds, preview site t survivorPk dupPk db = some p ∧
      (perform site t survivorPk dupPk userId now later db).result = .ok deeds ∧ deeds.summary = summary ∧
        Foretold site t p deeds) ↔ Foreseeable site t survivorPk dupPk db := by
  have h : Situation site t survivorPk dupPk db survivor duplicate := ⟨ht,hdb,hs,hd⟩
  rw [merge_perform] at hok
  obtain ⟨deeds,hdeeds,hlast,-,-⟩ := bind_ok hok
  have hsummary : deeds.summary = summary := Except.ok.inj hlast
  obtain ⟨hfilled,⟨hchildren,hlinks⟩,hiff⟩ := perform_counts h hne hdeeds
  have hinj := @Forecast.listed_inj _ ((site.incomingM1 t).map fun x => x.1.label) _ _ (by simp) hchildren
  have hinj' := @Forecast.listed_inj _ ((site.mnLinks t).map fun l => linkLabel l.1 l.2.2.2.2) _ _ (by simp) hlinks
  rw [← hiff]
  constructor
  · rintro ⟨p,deeds',hp,hdeeds',-,hforetold⟩
    obtain rfl : deeds = deeds' := Except.ok.inj (hdeeds.symm.trans hdeeds')
    obtain rfl := Option.some.inj ((preview_eq h).symm.trans hp)
    exact ⟨hinj.mp hforetold.children.symm,hinj'.mp hforetold.links.symm⟩
  · rintro ⟨hsame,hsame'⟩
    exact ⟨_,deeds,preview_eq h,hdeeds,hsummary,(hinj.mpr hsame).symm,(hinj'.mpr hsame').symm,hfilled.symm⟩

/-! ### Documents that are related to each other -/

def docs : MetaTable where
  id := 1
  physName := "docs"
  label := "Documents"
  fields := []
  idsNodup := List.nodup_nil
  namesNodup := List.nodup_nil
  namesFree := unmanaged_fields

def related : MetaRelation := ⟨"Related",.mn,1,1,none,none⟩

def library : Site := Site.plain { tables := [docs], relations := [related] }
  (fun name => if name = "docs" then ["id"] else ["docs_id","docs_id_2"]) (fun _ _ => true)
  (fun v => if v = .int 1 then "1" else "2") (fun _ => true) (by decide) (by decide) (by decide) (by decide) (by decide)
  (by decide) (by decide) (by decide)

theorem library_docs : docs ∈ library.tables := List.mem_cons_self

/-- Two documents, with links from one to the other. -/
def libraryDb (links : List (ℤ × ℤ)) : Tables := fun name =>
  if name = "docs" then [rowOf [("id",.int 1)],rowOf [("id",.int 2)]]
  else if name = "j_docs_docs" then links.map fun l => rowOf [("docs_id",.int l.1),("docs_id_2",.int l.2)]
  else []

theorem libraryDb_foreseeable : Foreseeable library docs (.int 1) (.int 2) (libraryDb [(2,1)]) := by
  have hlinks : library.mnLinks docs = [(related,"j_docs_docs","docs_id","docs_id_2",docs),
    (related,"j_docs_docs","docs_id_2","docs_id",docs)] := rfl
  refine ⟨.nil,?_⟩
  rw [hlinks,List.pairwise_pair]
  intro _ row hrow hthis hthat
  have hnone : ∀ row ∈ libraryDb [(2,1)] "j_docs_docs", ¬(row "docs_id" = .int 2 ∧ row "docs_id_2" = .int 2) := by decide
  exact absurd ⟨hthis,hthat⟩ (hnone row hrow)

/-- The link of the duplicate to the survivor is counted once, and moved once. -/
theorem foretold_library : ∃ p deeds, preview library docs (.int 1) (.int 2) (libraryDb [(2,1)]) = some p ∧
    (perform library docs (.int 1) (.int 2) none 0 0 (libraryDb [(2,1)])).result = .ok deeds ∧ deeds.summary = ⟨0,1,0⟩ ∧
      Foretold library docs p deeds :=
  (foretold_iff library library_docs none 0 0 (by change library.admits _ = true; decide) rfl rfl (by decide) rfl).mpr
    libraryDb_foreseeable

/-- The duplicate is linked to itself, and the survivor to it: the preview counts a link that is no longer there when its
turn comes. -/
theorem link_counted_twice : ¬∀ (site : Site), ∀ t ∈ site.tables, ∀ (survivorPk dupPk : Value) (userId : Option ℕ)
    (now later : ℤ) (db : Tables), site.Admitted db → ∀ survivor duplicate, site.getRow t survivorPk db = some survivor →
      site.getRow t dupPk db = some duplicate → site.key t survivorPk ≠ site.key t dupPk →
        ∀ summary, (merge site t survivorPk dupPk userId now later db).result = .ok summary →
          ∃ p deeds, preview site t survivorPk dupPk db = some p ∧
            (perform site t survivorPk dupPk userId now later db).result = .ok deeds ∧ deeds.summary = summary ∧
              Foretold site t p deeds := by
  intro h
  obtain ⟨p,deeds,hp,hdeeds,-,hforetold⟩ := h library docs library_docs (.int 1) (.int 2) none 0 0 (libraryDb [(2,2),(1,2)])
    (by change library.admits _ = true; decide) _ _ rfl rfl (by decide) _ rfl
  have hlinks : (preview library docs (.int 1) (.int 2) (libraryDb [(2,2),(1,2)])).map Preview.links =
    some [("Related",1),("Related",2)] := by decide
  have hmoved : (perform library docs (.int 1) (.int 2) none 0 0 (libraryDb [(2,2),(1,2)])).result.toOption.map Deeds.moved =
    some [1,1] := by decide
  rw [hp] at hlinks
  rw [hdeeds] at hmoved
  have hlisted := hforetold.links
  rw [Option.some.inj hlinks,Option.some.inj hmoved] at hlisted
  exact absurd hlisted (by decide)

end Merge
end Biggy
