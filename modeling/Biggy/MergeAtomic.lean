import Biggy.Merge

/-!
# A merge that raises

Each call of a merge commits on its own, and no later call undoes it: a merge that raises leaves the tables as they were
exactly when the first of its calls that has anything to write is refused.
-/
namespace Biggy
namespace Merge

open Relations Commits Commits.Prog Database Database.Site RecordService
open Related (rowOf deleteStamp)

section Stages

variable {site : Site} {t : MetaTable} {survivorPk dupPk : Value} {userId : Option ℕ} {now later : ℤ} {db₀ : Tables}
  {survivor duplicate : Row}

/-! ### References -/

theorem repoint_ends (ht : t ∈ site.tables) {child : MetaTable} {fk : String} {rel : MetaRelation}
    (hmem : (child,fk,rel) ∈ site.incomingM1 t) {db : Tables} (h : ¬Raises (repoint site survivorPk dupPk (child,fk,rel)) db) :
    site.Admitted (repoint site survivorPk dupPk (child,fk,rel) db).state ∧
      (repoint site survivorPk dupPk (child,fk,rel) db).state = rewritten child.physName
        (fun row => decide (row fk = site.key t dupPk)) [(fk,site.key t survivorPk)] db := by
  have hcol := (site.fkField t ht child fk rel hmem).1
  have hcast := site.fkCast t ht child fk rel hmem
  obtain ⟨n,hn⟩ := not_raises.mp h
  simp only [repoint,repointFk,if_pos hcol,withState_apply] at hn ⊢
  obtain ⟨a,ha,-,hstate,-⟩ := bind_ok hn
  obtain ⟨hadmitted,hchange⟩ := statement_ends (not_raises.mpr ⟨a,ha⟩)
  rw [hstate]
  change site.Admitted (site.statement _ db).state ∧ (site.statement _ db).state = _
  rw [hchange]
  refine ⟨hadmitted,?_⟩
  rw [equals_fk ht hmem,hcast]
  rfl

/-- After a repointing no foreign key points at the duplicate. -/
theorem repoint_free (ht : t ∈ site.tables) (hne : site.key t survivorPk ≠ site.key t dupPk) {child : MetaTable}
    {fk : String} {rel : MetaRelation} (hmem : (child,fk,rel) ∈ site.incomingM1 t) {db : Tables}
    (h : ¬Raises (repoint site survivorPk dupPk (child,fk,rel)) db) :
    ∀ row ∈ (repoint site survivorPk dupPk (child,fk,rel) db).state child.physName, row fk ≠ site.key t dupPk := by
  rw [(repoint_ends ht hmem h).2]
  intro row' hrow'
  obtain ⟨row,-,⟨-,-,rfl⟩ | ⟨hkept,rfl⟩⟩ := mem_rewritten hrow'
  · simpa [Row.write,Values.lookup_singleton] using hne
  · simpa using hkept rfl

theorem moveLinks_idle {rel : MetaRelation} {j this that : String} {other : MetaTable} {db : Tables}
    (hnone : site.getLinks j this dupPk that db = []) :
    (moveLinks site survivorPk dupPk (rel,j,this,that,other) db).state = db := by
  simp only [moveLinks,withState_apply,if_pos hnone]
  rfl

/-- After the links have moved none is the duplicate's. -/
theorem moveLinks_free (h : Situation site t survivorPk dupPk db₀ survivor duplicate) {rel : MetaRelation}
    {j this that : String} {other : MetaTable} (hl : (rel,j,this,that,other) ∈ site.mnLinks t) {db : Tables}
    (hdb : site.Admitted db) (hends : ¬Raises (moveLinks site survivorPk dupPk (rel,j,this,that,other)) db) :
    site.Admitted (moveLinks site survivorPk dupPk (rel,j,this,that,other) db).state ∧
      ∀ row ∈ (moveLinks site survivorPk dupPk (rel,j,this,that,other) db).state j, row this ≠ site.key t dupPk := by
  have hcast := site.linkCast t h.mem rel j this that other hl
  have hcol := site.linkHeld t h.mem rel j this that other hl
  obtain ⟨n,hn⟩ := not_raises.mp hends
  simp only [moveLinks,withState_apply] at hn ⊢
  by_cases hnone : site.getLinks j this dupPk that db = []
  · rw [if_pos hnone]
    refine ⟨hdb,fun row hrow hthis => ?_⟩
    have hlink : row that ∈ site.getLinks j this dupPk that db := mem_getLinks.mpr ⟨row,hrow,by rw [hcast]; exact hthis,rfl⟩
    rw [hnone] at hlink
    cases hlink
  · rw [if_neg hnone] at hn ⊢
    obtain ⟨_,hset,hrest,hstate,-⟩ := bind_ok hn
    obtain ⟨_,hdelete,-,hstate',-⟩ := bind_ok hrest
    rw [hstate,hstate']
    have hkey : site.cast j this dupPk = site.key t dupPk := congrFun hcast dupPk
    have hdone := deleteWhere_ends hcol (hkey ▸ h.dup_ne_null) (not_raises.mpr ⟨_,hdelete⟩)
    rw [hkey] at hdone
    exact hdone

/-- The calls that move references are the only ones that can leave the duplicate first. -/
theorem moving_leaves (h : Situation site t survivorPk dupPk db₀ survivor duplicate) :
    ∀ p ∈ moving site t survivorPk dupPk, ¬Raises p db₀ → (p db₀).state ≠ db₀ →
      Moved site t survivorPk dupPk survivor db₀ (p db₀).state := by
  intro p hp hends hstate
  rcases List.mem_append.mp hp with hp | hp
  · obtain ⟨⟨child,fk,rel⟩,hmem,rfl⟩ := List.mem_map.mp hp
    obtain ⟨hraises,hsame⟩ := sameCourse_void (repoint site survivorPk dupPk (child,fk,rel)) db₀
    rw [← hsame] at hstate ⊢
    rw [← hraises] at hends
    obtain ⟨hadmitted,heq⟩ := repoint_ends h.mem hmem hends
    have hsome : ∃ row ∈ db₀ child.physName, row fk = site.key t dupPk ∧ site.key t survivorPk ≠ site.key t dupPk := by
      by_contra hnone
      refine hstate (heq.trans (rewritten_self fun row hrow hp => funext fun c => ?_))
      have hfk : row fk = site.key t dupPk := of_decide_eq_true hp
      have hkeys : site.key t survivorPk = site.key t dupPk := by
        by_contra hkeys
        exact hnone ⟨row,hrow,hfk,hkeys⟩
      rw [Row.write,Values.lookup_singleton]
      split
      · rw [hkeys,← hfk,‹c = fk›]
        rfl
      · rfl
    obtain ⟨row,hrow,hfk,hkeys⟩ := hsome
    exact ⟨child.physName,fk,Or.inl ⟨child,rel,hmem,rfl⟩,⟨row,hrow,hfk⟩,hadmitted,fun row' hrow' hcol =>
      absurd hcol (repoint_free h.mem hkeys hmem hends row' hrow')⟩
  · obtain ⟨⟨rel,j,this,that,other⟩,hl,rfl⟩ := List.mem_map.mp hp
    obtain ⟨hraises,hsame⟩ := sameCourse_void (moveLinks site survivorPk dupPk (rel,j,this,that,other)) db₀
    rw [← hsame] at hstate ⊢
    rw [← hraises] at hends
    obtain ⟨hadmitted,hfree⟩ := moveLinks_free h hl h.admitted hends
    have hsome : ∃ row ∈ db₀ j, row this = site.key t dupPk := by
      by_contra hnone
      refine hstate ?_
      have hlinks : site.getLinks j this dupPk that db₀ = [] := by
        by_contra hlinks
        obtain ⟨w,hw⟩ := List.exists_mem_of_ne_nil _ hlinks
        obtain ⟨row,hrow,hthis,-⟩ := mem_getLinks.mp hw
        exact hnone ⟨row,hrow,hthis.trans (congrFun (site.linkCast t h.mem rel j this that other hl) dupPk)⟩
      exact moveLinks_idle hlinks
    exact ⟨j,this,Or.inr ⟨rel,that,other,hl⟩,hsome,hadmitted,fun row' hrow' hcol => absurd hcol (hfree row' hrow')⟩

/-- When they find nothing to move, nothing refers to the duplicate. -/
theorem free_of_idle (h : Situation site t survivorPk dupPk db₀ survivor duplicate)
    (hne : site.key t survivorPk ≠ site.key t dupPk) (hidle : ∀ p ∈ moving site t survivorPk dupPk, Idle p db₀)
    {name col : String} (hrefers : Refers site t name col) : ∀ row ∈ db₀ name, row col ≠ site.key t dupPk := by
  rcases hrefers with ⟨child,rel,hmem,rfl⟩ | ⟨rel,that,other,hl⟩
  · obtain ⟨hends,hstate⟩ := hidle _ (List.mem_append_left _ (List.mem_map_of_mem hmem))
    obtain ⟨hraises,hsame⟩ := sameCourse_void (repoint site survivorPk dupPk (child,col,rel)) db₀
    rw [← hsame] at hstate
    rw [← hraises] at hends
    have hfree := repoint_free h.mem hne hmem hends
    rwa [hstate] at hfree
  · obtain ⟨hends,hstate⟩ := hidle _ (List.mem_append_right _ (List.mem_map_of_mem hl))
    obtain ⟨hraises,hsame⟩ := sameCourse_void (moveLinks site survivorPk dupPk (rel,name,col,that,other)) db₀
    rw [← hsame] at hstate
    rw [← hraises] at hends
    have hfree := (moveLinks_free h hl h.admitted hends).2
    rwa [hstate] at hfree

/-! ### The fields of the survivor -/

/-- The columns that the trash uses. -/
def trashColumns : List String := ["deleted_at","deleted_by"]

theorem trash_managed {c : String} (hc : c ∈ trashColumns) : c ∈ managed := by
  revert c
  decide

theorem deleteStamp_trash {c : String} (hc : c ∉ trashColumns) : (deleteStamp userId now).lookup c = none := by
  simp only [trashColumns,List.mem_cons,List.not_mem_nil,or_false,not_or] at hc
  simp [deleteStamp,List.lookup_cons,beq_false_of_ne hc.1,beq_false_of_ne hc.2]

theorem auditStamp_trash {c : String} (hc : c ∈ trashColumns) : (auditStamp userId now).lookup c = none := by
  rcases List.mem_pair.mp hc with rfl | rfl <;> rfl

/-- An update of fields leaves the columns of the trash alone. -/
theorem alike_update (ht : t ∈ site.tables) (hquiet : site.Quiet) {values : Values}
    (hvalues : ∀ c ∈ trashColumns, values.lookup c = none) :
    Keeps (Alike fun _ c => c ∉ trashColumns) (site.update t survivorPk values userId now) := by
  have hripple : ∀ row, Keeps (Alike fun _ c => c ∉ trashColumns) (site.ripple t row) := fun row db =>
    (alike_ripple t row db).mono fun _ _ hc htrash => computed_unmanaged hc (trash_managed htrash)
  refine keeps_update (Alike.refl _) (fun _ _ _ => Alike.trans) hquiet (fun db db' _ => ?_) hripple
  refine alike_rewritten (fun c hc htrash => hc ?_) db'
  have hplain : ¬site.Computed t.physName c := fun hcomputed => computed_unmanaged hcomputed (trash_managed htrash)
  rw [lookup_stored,written,lookup_updated ht hplain (auditStamp_trash htrash),hvalues c htrash]
  exact ite_self _

/-- Nothing refers to the duplicate, and the tables have changed outside the trash. -/
def Filled (site : Site) (t : MetaTable) (dupPk : Value) (db₀ db : Tables) : Prop :=
  site.Admitted db ∧ (∀ name col, Refers site t name col → ∀ row ∈ db name, row col ≠ site.key t dupPk) ∧
    Alike (fun _ c => c ∉ trashColumns) db₀ db ∧ db ≠ db₀

theorem fills_unmanaged {c : String} (hc : c ∈ managed) : (fills site t survivor duplicate).lookup c = none := by
  rw [lookup_fills,if_neg]
  rintro ⟨hfill,-⟩
  obtain ⟨f,hf,rfl⟩ := List.mem_map.mp hfill
  exact t.namesFree f (List.mem_filter.mp hf).1 hc

theorem fills_same (h : Situation site t survivorPk dupPk db₀ survivor duplicate)
    (hkeys : site.key t survivorPk = site.key t dupPk) : fills site t survivor duplicate = [] := by
  have hrows : site.getRow t survivorPk db₀ = site.getRow t dupPk db₀ := by rw [getRow,hkeys,getRow]
  rw [h.survivorAt,h.duplicateAt] at hrows
  obtain rfl := Option.some.inj hrows
  simp [fills,Bool.and_assoc]

theorem update_filled (h : Situation site t survivorPk dupPk db₀ survivor duplicate) (hquiet : site.Quiet)
    (hfree : ∀ name col, Refers site t name col → ∀ row ∈ db₀ name, row col ≠ site.key t dupPk)
    (hstate : (site.update t survivorPk (fills site t survivor duplicate) userId now db₀).state ≠ db₀) :
    Filled site t dupPk db₀ (site.update t survivorPk (fills site t survivor duplicate) userId now db₀).state := by
  have hleft : ∀ name col, Refers site t name col → Left site t survivorPk dupPk False name col
      (site.update t survivorPk (fills site t survivor duplicate) userId now db₀).state := by
    intro name col hrefers
    refine left_update h hquiet hrefers ?_ db₀ ⟨h.admitted,fun row hrow hcol => absurd hcol (hfree name col hrefers row hrow)⟩
    rintro rfl - - hdup
    exact hfree t.physName col hrefers duplicate (getRow_mem h.duplicateAt).1 hdup
  refine ⟨admitted_update hquiet _ _ _ _ _ db₀ h.admitted,fun name col hrefers row hrow hcol =>
    ((hleft name col hrefers).2 row hrow hcol).2.2,?_,hstate⟩
  exact alike_update h.mem hquiet (fun c hc => fills_unmanaged (trash_managed hc)) db₀

/-- The calls that clear references find none. -/
theorem clearing_idle (h : Situation site t survivorPk dupPk db₀ survivor duplicate) {db : Tables}
    (hfree : ∀ name col, Refers site t name col → ∀ row ∈ db name, row col ≠ site.key t dupPk) :
    (runAll (clearing site t dupPk) db).state = db := by
  refine keeps_forM (R := fun a b => a = db → b = db) (fun _ => id) (fun _ _ _ hab hbc => hbc ∘ hab) (fun p hp => ?_) db rfl
  rintro _ rfl
  rcases mem_clearing hp with ⟨rel,j,this,that,other,hl,rfl⟩ | ⟨child,fk,rel,hmem,rfl⟩
  · refine deleteWhere_idle ?_
    rw [site.linkCast t h.mem rel j this that other hl]
    exact hfree j this (Or.inr ⟨rel,that,other,hl⟩)
  · refine dissociate_idle ?_
    rw [site.fkCast t h.mem child fk rel hmem]
    exact hfree child.physName fk (Or.inl ⟨child,rel,hmem,rfl⟩)

/-- What the fields of the survivor have become is not undone by the removal of the duplicate. -/
theorem finish_filled (h : Situation site t survivorPk dupPk db₀ survivor duplicate) {db : Tables}
    (hfilled : Filled site t dupPk db₀ db) : (finish site t dupPk userId later db).state ≠ db₀ := by
  obtain ⟨-,-,halike,hne⟩ := hfilled
  have hlog : ∀ s : Tables, (site.log t dupPk .delete userId [] s).state = s := fun s =>
    (keeps_log (R := fun a b => b = a) (fun _ => rfl) t dupPk .delete userId []) s
  have hstate : (finish site t dupPk userId later db).state =
      ((if t.softDelete then site.updateRow t dupPk (deleteStamp userId later) else site.deleteRow t dupPk) db).state := by
    rw [finish,bind_def]
    split
    · rfl
    · exact hlog _
  rw [hstate]
  split
  · intro hsame
    have htrash : Alike (fun _ c => c ∈ trashColumns) db db₀ := by
      rw [← hsame]
      refine keeps_statement (Alike.refl _) (fun db' _ => alike_rewritten (fun c hc => ?_) db') db
      by_contra htrash
      refine hc ?_
      rw [lookup_stored,deleteStamp_trash htrash]
      exact ite_self _
    exact hne (@Alike.eq (fun _ c => c ∉ trashColumns) _ (fun _ c hc => hc.1 hc.2) _ _ halike htrash.symm)
  · rcases raises_or_ends (site.deleteRow t dupPk) db with ⟨e,he⟩ | ⟨a,ha⟩
    · rw [deleteRow,statement_raises ⟨e,he⟩]
      exact hne
    · rw [deleteRow,(statement_ends (not_raises.mpr ⟨a,ha⟩)).2]
      intro hsame
      have hmem := getRow_mem h.duplicateAt
      rw [← hsame] at hmem
      obtain ⟨row,-,hkept,hfaded⟩ := mem_erased hmem.1
      have hrow : row t.pkCol ≠ site.key t dupPk := by simpa [equals,key] using hkept rfl
      rcases hfaded t.pkCol with hpk | hpk
      · exact hrow (hpk.symm.trans hmem.2)
      · exact h.dup_ne_null (hmem.2.symm.trans hpk)

theorem removal_filled (h : Situation site t survivorPk dupPk db₀ survivor duplicate) {db : Tables}
    (hfilled : Filled site t dupPk db₀ db) :
    (runAll (clearing site t dupPk ++ [finish site t dupPk userId later]) db).state ≠ db₀ := by
  have hidle := clearing_idle h hfilled.2.1
  rw [runAll_append,runAll_singleton,bind_def]
  split
  · rw [hidle]
    exact hfilled.2.2.2
  · rw [hidle]
    exact finish_filled h hfilled

/-! ### The removal -/

theorem clearing_leaves (h : Situation site t survivorPk dupPk db₀ survivor duplicate) :
    ∀ p ∈ clearing site t dupPk, ¬Raises p db₀ → (p db₀).state ≠ db₀ →
      Moved site t survivorPk dupPk survivor db₀ (p db₀).state := by
  intro p hp hends hstate
  rcases mem_clearing hp with ⟨rel,j,this,that,other,hl,rfl⟩ | ⟨child,fk,rel,hmem,rfl⟩
  · have hkey : site.cast j this dupPk = site.key t dupPk := congrFun (site.linkCast t h.mem rel j this that other hl) dupPk
    obtain ⟨hadmitted,hfree⟩ := deleteWhere_ends (site.linkHeld t h.mem rel j this that other hl)
      (hkey ▸ h.dup_ne_null) hends
    rw [hkey] at hfree
    refine ⟨j,this,Or.inr ⟨rel,that,other,hl⟩,?_,hadmitted,fun row hrow hcol => absurd hcol (hfree row hrow)⟩
    by_contra hnone
    refine hstate (deleteWhere_idle fun row hrow hcol => hnone ⟨row,hrow,?_⟩)
    rwa [hkey] at hcol
  · have hkey : site.cast child.physName fk dupPk = site.key t dupPk :=
      congrFun (site.fkCast t h.mem child fk rel hmem) dupPk
    obtain ⟨hadmitted,hfree⟩ := dissociate_ends (site.fkField t h.mem child fk rel hmem).1 (hkey ▸ h.dup_ne_null) hends
    rw [hkey] at hfree
    refine ⟨child.physName,fk,Or.inl ⟨child,rel,hmem,rfl⟩,?_,hadmitted,fun row hrow hcol => absurd hcol (hfree row hrow)⟩
    by_contra hnone
    refine hstate (dissociate_idle fun row hrow hcol => hnone ⟨row,hrow,?_⟩)
    rwa [hkey] at hcol

/-- The calls of a merge leave the tables as they were only when the first that has anything to write is refused. -/
theorem firstRefused_calls (h : Situation site t survivorPk dupPk db₀ survivor duplicate) (hquiet : site.Quiet)
    (hrefused : Refused (runAll (calls site t survivorPk dupPk survivor duplicate userId now later)) db₀) :
    FirstRefused (calls site t survivorPk dupPk survivor duplicate userId now later) db₀ := by
  have hafter : ∀ ps : List (Service Unit), (∀ p ∈ ps, Preserves (Moved site t survivorPk dupPk survivor db₀) p) →
      ∀ db, Moved site t survivorPk dupPk survivor db₀ db → (runAll ps db).state ≠ db₀ := fun ps hps db hmoved hsame =>
    moved_apart h (hsame ▸ preserves_forM hps db hmoved)
  have hlast : ∀ p ∈ clearing site t dupPk ++ [finish site t dupPk userId later],
      Preserves (Moved site t survivorPk dupPk survivor db₀) p := by
    intro p hp
    rcases List.mem_append.mp hp with hp | hp
    · exact moved_clearing h p hp
    · rw [List.mem_singleton.mp hp]
      exact moved_finish h
  have hrest : ∀ p ∈ filling site t survivorPk survivor duplicate userId now ++
      (clearing site t dupPk ++ [finish site t dupPk userId later]),
      Preserves (Moved site t survivorPk dupPk survivor db₀) p := by
    intro p hp
    rcases List.mem_append.mp hp with hp | hp
    · exact moved_filling h hquiet p hp
    · exact hlast p hp
  have hremoval : Refused (runAll (clearing site t dupPk ++ [finish site t dupPk userId later])) db₀ →
      FirstRefused (clearing site t dupPk ++ [finish site t dupPk userId later]) db₀ := by
    intro hremove
    rcases refused_append (moved_apart h) (clearing_leaves h) (moved_clearing h)
      (hafter _ fun p hp => by rw [List.mem_singleton.mp hp]; exact moved_finish h) hremove with hfirst | ⟨hidle,hend⟩
    · exact firstRefused_append.mpr (Or.inl hfirst)
    · rw [runAll_singleton] at hend
      exact firstRefused_append.mpr (Or.inr ⟨hidle,Or.inl hend⟩)
  rw [calls] at hrefused ⊢
  rcases refused_append (moved_apart h) (moving_leaves h) (moved_moving h) (hafter _ hrest) hrefused with
    hfirst | ⟨hidle,hrefused⟩
  · exact firstRefused_append.mpr (Or.inl hfirst)
  · refine firstRefused_append.mpr (Or.inr ⟨hidle,?_⟩)
    rw [filling] at hrefused ⊢
    split at hrefused
    · rename_i hnone
      rw [if_pos hnone]
      exact hremoval hrefused
    · rename_i hsome
      rw [if_neg hsome]
      have hne : site.key t survivorPk ≠ site.key t dupPk := fun hkeys => hsome (fills_same h hkeys)
      rcases refused_cons (fun _ hstate => update_filled h hquiet (fun _ _ => free_of_idle h hne hidle) hstate)
        (fun db => removal_filled h) hrefused with hrefused | ⟨hupdate,hrefused⟩
      · exact Or.inl hrefused
      · exact Or.inr ⟨hupdate,hremoval hrefused⟩

end Stages

/-- A merge that raises leaves every row and link as it was when it is turned down at the start, or the first of its
calls that has anything to write is refused; where triggers write no records, only then. -/
theorem unchanged_iff (site : Site) {t : MetaTable} (ht : t ∈ site.tables) (survivorPk dupPk : Value) (userId : Option ℕ)
    (now later : ℤ) {db : Tables} (hdb : site.Admitted db)
    (hraises : Raises (merge site t survivorPk dupPk userId now later) db) :
    (Blocked site t survivorPk dupPk userId now later db →
        (merge site t survivorPk dupPk userId now later db).state = db) ∧
      (site.Quiet → (merge site t survivorPk dupPk userId now later db).state = db →
        Blocked site t survivorPk dupPk userId now later db) := by
  by_cases hsame : site.str survivorPk = site.str dupPk
  · have hstate : (merge site t survivorPk dupPk userId now later db).state = db := by
      simp only [merge,if_pos hsame]
      rfl
    exact ⟨fun _ => hstate,fun _ _ => Or.inl hsame⟩
  · cases hs : site.getRow t survivorPk db with
    | none =>
      have hstate : (merge site t survivorPk dupPk userId now later db).state = db := by
        simp only [merge,if_neg hsame,withState_apply,hs]
        rfl
      exact ⟨fun _ => hstate,fun _ _ => Or.inr (by simp only [hs])⟩
    | some survivor =>
      cases hd : site.getRow t dupPk db with
      | none =>
        have hstate : (merge site t survivorPk dupPk userId now later db).state = db := by
          simp only [merge,if_neg hsame,withState_apply,hs,hd]
          rfl
        exact ⟨fun _ => hstate,fun _ _ => Or.inr (by simp only [hs,hd])⟩
      | some duplicate =>
        have hcourse := @merge_course site t survivorPk dupPk userId now later db survivor duplicate hsame hs hd
        constructor
        · rintro (hkeys | hfirst)
          · exact absurd hkeys hsame
          · simp only [hs,hd] at hfirst
            exact (hcourse.mpr (refused_of_firstRefused hfirst)).2
        · intro hquiet hstate
          refine Or.inr ?_
          simp only [hs,hd]
          exact firstRefused_calls ⟨ht,hdb,hs,hd⟩ hquiet (hcourse.mp ⟨hraises,hstate⟩)

/-! ### Two customers with one address -/

def emailField : MetaField where
  id := 1
  physName := "email"
  label := "E-mail"
  dataType := .email

def customerField : MetaField where
  id := 2
  physName := "customer"
  label := "Customer"
  dataType := .relation
  relatedTableId := some 1

def customers : MetaTable where
  id := 1
  physName := "customers"
  label := "Customers"
  fields := [emailField]
  idsNodup := by decide
  namesNodup := by decide
  namesFree := by decide

def orders : MetaTable where
  id := 2
  physName := "orders"
  label := "Orders"
  fields := [customerField]
  idsNodup := by decide
  namesNodup := by decide
  namesFree := by decide

def shopSchema : Schema where
  tables := [customers,orders]
  relations := [⟨"Customer",.m1,2,1,some 2,none⟩]

/-- No two customers have the same address. -/
def emailsOnce (db : Tables) : Bool :=
  decide (((db "customers").map fun row => row "email").filter fun v => decide (v ≠ .null)).Nodup

def shop : Site := Site.plain shopSchema
  (fun name => if name = "customers" then ["id","email"] else ["id","customer"]) (fun _ _ => true)
  (fun v => if v = .int 1 then "1" else "2") emailsOnce (by decide) (by decide) (by decide) (by decide) (by decide)
  (by decide) (by decide) (by decide)

/-- The customer 1 has no address, and the order 10 is of the customer 2, who has one. -/
def shopDb : Tables := fun name =>
  if name = "customers" then [rowOf [("id",.int 1)],rowOf [("id",.int 2),("email",.text "a@b.c")]]
  else if name = "orders" then [rowOf [("id",.int 10),("customer",.int 2)]] else []

theorem shop_customers : customers ∈ shop.tables := List.mem_cons_self

theorem shopDb_admitted : shop.Admitted shopDb := by
  change shop.admits shopDb = true
  decide

/-- The address is refused, as the duplicate still has it; the order has become the survivor's. -/
theorem order_moved : Raises (merge shop customers (.int 1) (.int 2) none 0 0) shopDb ∧
    (merge shop customers (.int 1) (.int 2) none 0 0 shopDb).state ≠ shopDb := by
  refine ⟨⟨.integrity,rfl⟩,fun hsame => ?_⟩
  have horders : ((merge shop customers (.int 1) (.int 2) none 0 0 shopDb).state "orders").map (fun row => row "customer") =
      [.int 1] := by decide
  rw [hsame] at horders
  revert horders
  decide

/-- No merge of the two is blocked before it writes. -/
theorem unchanged_iff_shop : ¬Blocked shop customers (.int 1) (.int 2) none 0 0 shopDb := fun hblocked =>
  order_moved.2 ((unchanged_iff shop shop_customers (.int 1) (.int 2) none 0 0 shopDb_admitted order_moved.1).1 hblocked)

theorem half_merged : ¬∀ (site : Site), ∀ t ∈ site.tables, ∀ (survivorPk dupPk : Value) (userId : Option ℕ) (now later : ℤ)
    (db : Tables), site.Admitted db → Raises (merge site t survivorPk dupPk userId now later) db →
      (merge site t survivorPk dupPk userId now later db).state = db := fun h =>
  order_moved.2 (h shop customers shop_customers (.int 1) (.int 2) none 0 0 shopDb shopDb_admitted order_moved.1)

end Merge
end Biggy
