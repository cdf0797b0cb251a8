import Biggy.MergeRemoval

/-!
# What a successful merge has made of the records

The rows of every table are those that were there, less the duplicate, and the references and links to it are the
survivor's. `merged_iff` says when the survivor keeps its fields, and no record has come to refer to itself.
-/
namespace Biggy
namespace Merge

open Relations Commits Commits.Prog Database Database.Site RecordService
open Related (rowOf deleteStamp)

section Stages

variable {site : Site} {t : MetaTable} {survivorPk dupPk : Value} {userId : Option ℕ} {now later : ℤ} {db₀ : Tables}
  {survivor duplicate : Row}

/-- The databases between the stages of a merge that comes to its end. -/
structure Stages (site : Site) (t : MetaTable) (survivorPk dupPk : Value) (survivor duplicate : Row) (userId : Option ℕ)
    (now later : ℤ) (db₀ a b c final : Tables) : Prop where
  repoints : ∃ ns, ((site.incomingM1 t).mapM (repoint site survivorPk dupPk) db₀).result = .ok ns
  afterRepoints : ((site.incomingM1 t).mapM (repoint site survivorPk dupPk) db₀).state = a
  moves : ∃ ns, ((site.mnLinks t).mapM (moveLinks site survivorPk dupPk) a).result = .ok ns
  afterMoves : ((site.mnLinks t).mapM (moveLinks site survivorPk dupPk) a).state = b
  completes : ((if fills site t survivor duplicate = [] then pure ()
    else site.update t survivorPk (fills site t survivor duplicate) userId now : Service Unit) b).result = .ok ()
  afterFilling : ((if fills site t survivor duplicate = [] then pure ()
    else site.update t survivorPk (fills site t survivor duplicate) userId now : Service Unit) b).state = c
  removes : (site.remove t dupPk userId later c).result = .ok ()
  afterRemoval : (site.remove t dupPk userId later c).state = final

theorem merge_stages (hs : site.getRow t survivorPk db₀ = some survivor) (hd : site.getRow t dupPk db₀ = some duplicate)
    {summary : Summary} (hok : (merge site t survivorPk dupPk userId now later db₀).result = .ok summary) :
    ∃ a b c, Stages site t survivorPk dupPk survivor duplicate userId now later db₀ a b c
      (merge site t survivorPk dupPk userId now later db₀).state := by
  have hne : site.str survivorPk ≠ site.str dupPk := by
    intro hsame
    rw [merge,if_pos hsame] at hok
    cases hok
  have hmerge : merge site t survivorPk dupPk userId now later db₀ = (do
      let repointed ← (site.incomingM1 t).mapM (repoint site survivorPk dupPk)
      let movedLinks ← (site.mnLinks t).mapM (moveLinks site survivorPk dupPk)
      (if fills site t survivor duplicate = [] then pure ()
        else site.update t survivorPk (fills site t survivor duplicate) userId now)
      site.remove t dupPk userId later
      pure ⟨repointed.sum,movedLinks.sum,(fills site t survivor duplicate).length⟩ : Service Summary) db₀ := by
    simp only [merge,if_neg hne,withState_apply,hs,hd]
  rw [hmerge] at hok ⊢
  obtain ⟨ns,hrepoint,hrest,hstate₁,-⟩ := bind_ok hok
  obtain ⟨ms,hmove,hrest,hstate₂,-⟩ := bind_ok hrest
  obtain ⟨_,hfill,hrest,hstate₃,-⟩ := bind_ok hrest
  obtain ⟨_,hremove,-,hstate₄,-⟩ := bind_ok hrest
  refine ⟨_,_,_,⟨ns,hrepoint⟩,rfl,⟨ms,hmove⟩,rfl,hfill,rfl,hremove,?_⟩
  rw [hstate₁,hstate₂,hstate₃,hstate₄]
  rfl

/-! ### Until the duplicate goes -/

/-- A cell whose reference to the duplicate is one to the survivor. -/
def Passed (site : Site) (t : MetaTable) (survivorPk dupPk : Value) (name c : String) (v v' : Value) : Prop :=
  v' = v ∧ (Refers site t name c → v ≠ site.key t dupPk) ∨
    Refers site t name c ∧ v = site.key t dupPk ∧ v' = site.key t survivorPk

/-- What has become of a row when the survivor has been filled. -/
structure Rewired (site : Site) (t : MetaTable) (survivorPk dupPk : Value) (survivor duplicate : Row) (name : String)
    (row row' : Row) : Prop where
  key : name = t.physName → row' t.pkCol = row t.pkCol
  passed : ∀ c, ¬site.Computed name c → ¬site.Stamped name c →
    (name = t.physName → row t.pkCol = site.key t survivorPk → (fills site t survivor duplicate).lookup c = none) →
      Passed site t survivorPk dupPk name c (row c) (row' c)
  filled : name = t.physName → row t.pkCol = site.key t survivorPk → ∀ c v, ¬site.Computed name c → ¬site.Stamped name c →
    (fills site t survivor duplicate).lookup c = some v → row' c = v

theorem Redirects.passed {a b : Tables} {name : String} (h : Redirects site t dupPk (site.key t survivorPk) name a b)
    (hfree : ∀ col, Refers site t name col → ∀ row ∈ b name, row col ≠ site.key t dupPk) :
    List.Forall₂ (fun row row' => ∀ c, ¬site.Computed name c → ¬site.Stamped name c →
      Passed site t survivorPk dupPk name c (row c) (row' c)) (a name) (b name) := by
  refine (Paired.with_mem h).imp fun row row' hboth c hplain hunstamped => ?_
  obtain ⟨hrow,-,hmem⟩ := hboth
  rcases hrow c hplain hunstamped with hsame | hmoved
  · exact Or.inl ⟨hsame,fun hrefers => hsame ▸ hfree c hrefers row' hmem⟩
  · exact Or.inr hmoved

/-- No record of the table has got another key. -/
theorem Redirects.key (h : Situation site t survivorPk dupPk db₀ survivor duplicate)
    (hne : site.key t survivorPk ≠ site.key t dupPk) {b : Tables} (hb : site.Admitted b)
    (hrows : Redirects site t dupPk (site.key t survivorPk) t.physName db₀ b) :
    List.Forall₂ (fun row row' => row' t.pkCol = row t.pkCol) (db₀ t.physName) (b t.physName) := by
  refine Paired.keys_kept (R := Redirected site t dupPk (site.key t survivorPk) t.physName) (s := site.key t survivorPk)
    (fun row row' hrow => ?_) hrows ((site.sound b hb).keysNodup t h.mem) ?_
  · rcases hrow t.pkCol (pk_plain h.mem).1 (pk_plain h.mem).2 with hsame | ⟨-,hdup,hmoved⟩
    · exact Or.inl hsame
    · exact Or.inr ⟨hmoved,fun hsurvivor => hne (hsurvivor.symm.trans hdup)⟩
  · obtain ⟨hmem,hkey⟩ := getRow_mem h.survivorAt
    exact hkey ▸ List.mem_map_of_mem hmem

theorem fills_key (h : Situation site t survivorPk dupPk db₀ survivor duplicate)
    (hblank : (site.key t survivorPk).blank = false) : (fills site t survivor duplicate).lookup t.pkCol = none := by
  rw [lookup_fills,if_neg]
  rintro ⟨-,-,hpk,-⟩
  rw [(getRow_mem h.survivorAt).2,hblank] at hpk
  cases hpk

theorem rewired_of_completed (h : Situation site t survivorPk dupPk db₀ survivor duplicate)
    (hblank : (site.key t survivorPk).blank = false) {name : String} {row row' row'' : Row}
    (hcells : ∀ c, ¬site.Computed name c → ¬site.Stamped name c → Passed site t survivorPk dupPk name c (row c) (row' c))
    (hkey : name = t.physName → row' t.pkCol = row t.pkCol)
    (hfilled : Completed site t survivorPk survivor duplicate name row' row'') :
    Rewired site t survivorPk dupPk survivor duplicate name row row'' where
  key hname := by
    subst hname
    rw [hfilled t.pkCol (pk_plain h.mem).1 (pk_plain h.mem).2,fills_key h hblank,← hkey rfl]
    exact ite_self _
  passed c hplain hfree hnone := by
    have hcell : row'' c = row' c := by
      rw [hfilled c hplain hfree]
      split
      · rename_i hsurvivor
        rw [hnone hsurvivor.1 ((hkey hsurvivor.1).symm.trans hsurvivor.2)]
        rfl
      · rfl
    rw [hcell]
    exact hcells c hplain hfree
  filled hname hsurvivor c v hplain hfree hv := by
    rw [hfilled c hplain hfree,if_pos ⟨hname,(hkey hname).trans hsurvivor⟩,hv]
    rfl

variable {a b c final : Tables}

/-- The tables when all references have been moved and all fields filled. -/
theorem Stages.rewired (h : Situation site t survivorPk dupPk db₀ survivor duplicate) (hquiet : site.Quiet)
    (hne : site.key t survivorPk ≠ site.key t dupPk) (hblank : (site.key t survivorPk).blank = false)
    (hstages : Stages site t survivorPk dupPk survivor duplicate userId now later db₀ a b c final) :
    Tidy site t survivorPk dupPk survivor duplicate c ∧
      (∀ t' ∈ site.tables, List.Forall₂ (Rewired site t survivorPk dupPk survivor duplicate t'.physName) (db₀ t'.physName)
        (c t'.physName)) ∧
      ∀ rel j this that other, (rel,j,this,that,other) ∈ site.mnLinks t → ∀ x y,
        Linked site t survivorPk dupPk j this that other x y c ↔ Linked site t survivorPk dupPk j this that other x y db₀ := by
  obtain ⟨ns,hrepoint⟩ := hstages.repoints
  obtain ⟨ms,hmove⟩ := hstages.moves
  obtain ⟨hfree,ha,hrows,hjunctions⟩ := repointed h hne hrepoint hstages.afterRepoints
  obtain ⟨hleft,hb,hsame,hlinked⟩ := linksMoved h hne ha hfree hmove hstages.afterMoves
  have hcompleted := completed h hquiet hblank hstages.completes hstages.afterFilling
  have hc : site.Admitted c := by
    rw [← hstages.afterFilling]
    split
    · exact hb
    · exact admitted_update hquiet _ _ _ _ _ b hb
  refine ⟨⟨hc,stale_filled h hquiet hleft hstages.afterFilling⟩,fun t' ht' => ?_,fun rel j this that other hl x y => ?_⟩
  · have hredirects : Redirects site t dupPk (site.key t survivorPk) t'.physName db₀ b := by
      rw [Redirects,hsame t' ht']
      exact hrows t'.physName
    have hpassed := hredirects.passed fun col hrefers row hrow hcol => ((hleft _ col hrefers).2 row hrow hcol).2.2
    have hkeys : List.Forall₂ (fun row row' => t'.physName = t.physName → row' t.pkCol = row t.pkCol) (db₀ t'.physName)
        (b t'.physName) := by
      by_cases hname : t'.physName = t.physName
      · rw [hname] at hredirects ⊢
        exact (hredirects.key h hne hb).imp fun _ _ hkey _ => hkey
      · exact hredirects.imp fun _ _ _ heq => absurd heq hname
    refine (Paired.comp (Paired.both hpassed hkeys) (hcompleted t'.physName)).imp
      fun row row'' hstep => ?_
    obtain ⟨row',⟨hcells,hkey⟩,hfilled⟩ := hstep
    exact rewired_of_completed h hblank hcells hkey hfilled
  · have hjunction : c j = b j := by
      refine (List.forall₂_eq_eq_eq ▸ (hcompleted j).imp fun row row' hrow => funext fun col => ?_ : b j = c j).symm
      obtain ⟨hplain,hfree⟩ := junction_plain hl col
      rw [hrow col hplain hfree,if_neg fun hp => junction_ne h.mem hl hp.1.symm]
    have hstart := hjunctions j fun t' ht' => junction_ne ht' hl
    have hsame := hlinked rel j this that other hl x y
    simp only [Linked] at hsame ⊢
    rw [hjunction,hsame,hstart]

/-! ### When the duplicate has gone -/

/-- What has become of a row in the end. -/
structure Traced (site : Site) (t : MetaTable) (survivorPk dupPk : Value) (survivor duplicate : Row) (name : String)
    (row row' : Row) : Prop where
  key : name = t.physName → row' t.pkCol = row t.pkCol
  passed : ∀ c, ¬site.Computed name c → ¬site.Stamped name c →
    (name = t.physName → row t.pkCol = site.key t survivorPk → (fills site t survivor duplicate).lookup c = none) →
      Passed site t survivorPk dupPk name c (row c) (row' c)
  filled : name = t.physName → row t.pkCol = site.key t survivorPk → ∀ c v, ¬site.Computed name c → ¬site.Stamped name c →
    (fills site t survivor duplicate).lookup c = some v → row' c = v ∨ v = site.key t dupPk ∧ row' c = .null

theorem Rewired.traced (hne : site.key t survivorPk ≠ site.key t dupPk) {name : String} {row row' row'' : Row}
    (h : Rewired site t survivorPk dupPk survivor duplicate name row row')
    (hremoved : Redirected site t dupPk .null name row' row'')
    (hkey : name = t.physName → row'' t.pkCol = row' t.pkCol) :
    Traced site t survivorPk dupPk survivor duplicate name row row'' where
  key hname := (hkey hname).trans (h.key hname)
  passed c hplain hfree hnone := by
    rcases h.passed c hplain hfree hnone with ⟨hsame,hother⟩ | ⟨hrefers,hdup,hmoved⟩
    · rcases hremoved c hplain hfree with hkept | ⟨hrefers,hdup,-⟩
      · exact Or.inl ⟨hkept.trans hsame,hother⟩
      · exact absurd (hsame.symm.trans hdup) (hother hrefers)
    · rcases hremoved c hplain hfree with hkept | ⟨-,hdup',-⟩
      · exact Or.inr ⟨hrefers,hdup,hkept.trans hmoved⟩
      · exact absurd (hmoved.symm.trans hdup') hne
  filled hname hsurvivor c v hplain hfree hv := by
    have hrow := h.filled hname hsurvivor c v hplain hfree hv
    rcases hremoved c hplain hfree with hkept | ⟨-,hdup,hnull⟩
    · exact Or.inl (hkept.trans hrow)
    · exact Or.inr ⟨hrow.symm.trans hdup,hnull⟩

theorem Removed.key (ht : t ∈ site.tables) {db db' : Tables} (h : Removed site t dupPk db db') :
    List.Forall₂ (fun row row' => row' t.pkCol = row t.pkCol) ((db t.physName).filter (remains site t dupPk t.physName))
      (db' t.physName) := by
  refine (Paired.with_mem (h.rows t.physName)).imp fun row row' hboth => ?_
  obtain ⟨hrow,-,hmem⟩ := hboth
  rcases hrow t.pkCol (pk_plain ht).1 (pk_plain ht).2 with hsame | ⟨-,-,hnull⟩
  · exact hsame
  · exact absurd hnull ((site.sound _ h.admitted).keysHeld t ht row' hmem)

/-- The rows of every table in the end, where the survivor is spared. -/
theorem Stages.traced (h : Situation site t survivorPk dupPk db₀ survivor duplicate) (hquiet : site.Quiet)
    (hne : site.key t survivorPk ≠ site.key t dupPk) (hblank : (site.key t survivorPk).blank = false)
    (hspared : Spared site t dupPk survivor duplicate)
    (hstages : Stages site t survivorPk dupPk survivor duplicate userId now later db₀ a b c final) :
    Removed site t dupPk c final ∧ ∀ t' ∈ site.tables,
      List.Forall₂ (Traced site t survivorPk dupPk survivor duplicate t'.physName)
        ((db₀ t'.physName).filter (remains site t dupPk t'.physName)) (final t'.physName) := by
  obtain ⟨htidy,hrows,-⟩ := hstages.rewired h hquiet hne hblank
  have hremoved := removed h hquiet hspared htidy hstages.removes hstages.afterRemoval
  refine ⟨hremoved,fun t' ht' => ?_⟩
  have hfiltered : List.Forall₂ (Rewired site t survivorPk dupPk survivor duplicate t'.physName)
      ((db₀ t'.physName).filter (remains site t dupPk t'.physName))
      ((c t'.physName).filter (remains site t dupPk t'.physName)) := by
    refine Paired.filter (fun row row' hrow => ?_) (hrows t' ht')
    by_cases hname : t'.physName = t.physName
    · rw [remains,remains,equals,equals,hrow.key hname]
    · simp [remains,hname]
  have hkeys : List.Forall₂ (fun row row' => t'.physName = t.physName → row' t.pkCol = row t.pkCol)
      ((c t'.physName).filter (remains site t dupPk t'.physName)) (final t'.physName) := by
    by_cases hname : t'.physName = t.physName
    · rw [hname]
      exact (hremoved.key h.mem).imp fun _ _ hkey _ => hkey
    · exact (hremoved.rows t'.physName).imp fun _ _ _ heq => absurd heq hname
  refine (Paired.comp hfiltered (Paired.both (hremoved.rows t'.physName) hkeys)).imp
    fun row row'' hstep => ?_
  obtain ⟨row',hrewired,hrow,hkey⟩ := hstep
  exact hrewired.traced hne hrow hkey

/-- A deletion of a record leaves the junctions as they are. -/
theorem Removed.junction (ht : t ∈ site.tables) {db db' : Tables} (h : Removed site t dupPk db db')
    (htidy : Tidy site t survivorPk dupPk survivor duplicate db) {rel : MetaRelation} {j this that : String}
    {other : MetaTable} (hl : (rel,j,this,that,other) ∈ site.mnLinks t) : db' j = db j := by
  have hall : (db j).filter (remains site t dupPk j) = db j :=
    List.filter_eq_self.mpr fun row _ => by simp [remains,(junction_ne ht hl).symm]
  have hrows := h.rows j
  rw [hall] at hrows
  have hsame : List.Forall₂ (fun row row' => row = row') (db j) (db' j) := by
    refine (Paired.with_mem hrows).imp fun row row' hboth => funext fun col => ?_
    obtain ⟨hrow,hmem,-⟩ := hboth
    obtain ⟨hplain,hfree⟩ := junction_plain hl col
    rcases hrow col hplain hfree with hkept | ⟨hrefers,hdup,-⟩
    · exact hkept.symm
    · exact absurd (tidy_stale ht htidy hrefers hmem hdup).1.symm (junction_ne ht hl)
  rw [List.forall₂_eq_eq_eq] at hsame
  exact hsame.symm

/-! ### Nothing lost, nothing twice -/

/-- A row of a table before and after a merge: what referred to either of the two refers to the survivor, no record has
become its own parent, and the rest is as it was. -/
structure RowSound (site : Site) (t : MetaTable) (survivorPk dupPk : Value) (t' : MetaTable) (row row' : Row) : Prop where
  refers : ∀ fk rel, (t',fk,rel) ∈ site.incomingM1 t → row fk = site.key t survivorPk ∨ row fk = site.key t dupPk →
    row' fk = site.key t survivorPk
  notParent : t' = t → ∀ fk rel, (t,fk,rel) ∈ site.incomingM1 t → row' fk = row' t.pkCol → row fk = row t.pkCol
  others : ¬(t' = t ∧ row t.pkCol = site.key t survivorPk) → ∀ c, ¬site.Computed t'.physName c →
    ¬site.Stamped t'.physName c → ¬Refers site t t'.physName c → row' c = row c

/-- A merge has lost and duplicated nothing: nothing refers to the duplicate, the survivor has its nonempty fields, the
rows of every table are those from before less the duplicate, every link of one of the two is one of the survivor, and no
record has become its own peer. -/
structure Merged (site : Site) (t : MetaTable) (survivorPk dupPk : Value) (survivor : Row) (db db' : Tables) : Prop where
  gone : ∀ name col, Refers site t name col → ∀ row ∈ db' name, row col ≠ site.key t dupPk
  kept : ∃ row, site.getRow t survivorPk db' = some row ∧ ∀ f ∈ t.fields, f.dataType ≠ .formula →
    (survivor f.physName).blank = false → row f.physName = survivor f.physName
  rows : ∀ t' ∈ site.tables, List.Forall₂ (RowSound site t survivorPk dupPk t')
    ((db t'.physName).filter (remains site t dupPk t'.physName)) (db' t'.physName)
  links : ∀ rel j this that other, (rel,j,this,that,other) ∈ site.mnLinks t → ∀ l ∈ db j,
    l this = site.key t survivorPk ∨ l this = site.key t dupPk → (db' j).countP (fun l' =>
      decide (l' this = site.key t survivorPk ∧ l' that = partner site t survivorPk dupPk other (l that))) = 1
  notPeer : ∀ rel j this that, (rel,j,this,that,t) ∈ site.mnLinks t → ∀ l' ∈ db' j, l' this = l' that →
    ∃ l ∈ db j, l this = l' this ∧ l that = l' that

/-- The two do not refer to each other in a way that a merge would turn into a reference of the survivor to itself, and
the survivor does not go with the duplicate. -/
structure Apart (site : Site) (t : MetaTable) (survivorPk dupPk : Value) (survivor duplicate : Row) (db : Tables) : Prop where
  notUnder : ∀ fk rel, (t,fk,rel) ∈ site.incomingM1 t → survivor fk ≠ site.key t dupPk
  notFilled : ∀ fk rel, (t,fk,rel) ∈ site.incomingM1 t → (survivor fk).blank = true → duplicate fk ≠ site.key t survivorPk
  spared : Spared site t dupPk survivor duplicate
  unlinked : ∀ rel j this that, (rel,j,this,that,t) ∈ site.mnLinks t → ∀ l ∈ db j,
    (l this = site.key t survivorPk ∨ l this = site.key t dupPk) →
    (l that = site.key t survivorPk ∨ l that = site.key t dupPk) →
    ∃ l' ∈ db j, l' this = site.key t survivorPk ∧ l' that = site.key t survivorPk

theorem survivor_unique (h : Situation site t survivorPk dupPk db₀ survivor duplicate) {row : Row} (hrow : row ∈ db₀ t.physName)
    (hkey : row t.pkCol = site.key t survivorPk) : row = survivor :=
  Option.some.inj ((getRow_eq h.mem h.admitted hrow hkey).symm.trans h.survivorAt)

theorem survivor_remains (h : Situation site t survivorPk dupPk db₀ survivor duplicate)
    (hne : site.key t survivorPk ≠ site.key t dupPk) :
    survivor ∈ (db₀ t.physName).filter (remains site t dupPk t.physName) := by
  obtain ⟨hmem,hkey⟩ := getRow_mem h.survivorAt
  have hother : site.equals t.physName t.pkCol dupPk survivor = false := decide_eq_false (hkey ▸ hne)
  exact List.mem_filter.mpr ⟨hmem,by rw [remains,hother,Bool.and_false,Bool.not_false,Bool.or_true]⟩

theorem fills_none {c : String} (hsome : (survivor c).blank = false) : (fills site t survivor duplicate).lookup c = none := by
  rw [lookup_fills,if_neg]
  rintro ⟨-,-,hblank,-⟩
  rw [hsome] at hblank
  cases hblank

/-- Where the duplicate refers and the survivor does not the survivor is filled. -/
theorem fills_reference (h : Situation site t survivorPk dupPk db₀ survivor duplicate) {fk : String} {rel : MetaRelation}
    (hself : (t,fk,rel) ∈ site.incomingM1 t) (hblank : (survivor fk).blank = true) (hsome : (duplicate fk).blank = false) :
    (fills site t survivor duplicate).lookup fk = some (duplicate fk) := by
  obtain ⟨hcol,f,hf,rfl,htype⟩ := site.fkField t h.mem t fk rel hself
  have hfill : f.physName ∈ fillableCols t :=
    List.mem_map_of_mem (List.mem_filter.mpr ⟨hf,decide_eq_true (by rw [htype]; decide)⟩)
  rw [lookup_fills,if_pos ⟨hfill,hcol,hblank,hsome⟩]

theorem heir_eq {v : Value} (h : heir site t survivorPk dupPk v = site.key t survivorPk) :
    v = site.key t survivorPk ∨ v = site.key t dupPk := by
  rw [heir] at h
  split at h
  · exact Or.inr ‹_›
  · exact Or.inl h

theorem heir_of {v : Value} (h : v = site.key t survivorPk ∨ v = site.key t dupPk) :
    heir site t survivorPk dupPk v = site.key t survivorPk := by
  rcases h with rfl | rfl
  · exact heir_survivor
  · exact heir_dup

theorem heir_other {v w : Value} (h : heir site t survivorPk dupPk v = w) (hw : w ≠ site.key t survivorPk) : v = w := by
  rw [heir] at h
  split at h
  · exact absurd h.symm hw
  · exact h

theorem heir_free {v : Value} (h : v ≠ site.key t dupPk) : heir site t survivorPk dupPk v = v := if_neg h

theorem partner_self (v : Value) : partner site t survivorPk dupPk t v = heir site t survivorPk dupPk v := if_pos rfl

/-! ### Links in the end -/

/-- In the end the links are those from before, between what their ends have become. -/
theorem Stages.linked (h : Situation site t survivorPk dupPk db₀ survivor duplicate) (hquiet : site.Quiet)
    (hne : site.key t survivorPk ≠ site.key t dupPk) (hblank : (site.key t survivorPk).blank = false)
    (hspared : Spared site t dupPk survivor duplicate)
    (hstages : Stages site t survivorPk dupPk survivor duplicate userId now later db₀ a b c final)
    {rel : MetaRelation} {j this that : String} {other : MetaTable} (hl : (rel,j,this,that,other) ∈ site.mnLinks t)
    (x y : Value) : (∃ l ∈ final j, l this = x ∧ l that = y) ↔
      Linked site t survivorPk dupPk j this that other x y db₀ := by
  obtain ⟨htidy,-,hlinked⟩ := hstages.rewired h hquiet hne hblank
  have hremoved := removed h hquiet hspared htidy hstages.removes hstages.afterRemoval
  have hends : ∀ l ∈ final j, heir site t survivorPk dupPk (l this) = l this ∧
      partner site t survivorPk dupPk other (l that) = l that := by
    intro l hl'
    refine ⟨heir_free (hremoved.free j this (Or.inr ⟨rel,that,other,hl⟩) l hl'),?_⟩
    rw [partner]
    split
    · rename_i hself
      obtain ⟨other',hback,-⟩ := Schema.mnLinks_swap hl hself
      exact heir_free (hremoved.free j that (Or.inr ⟨rel,this,other',hback⟩) l hl')
    · rfl
  rw [← hlinked rel j this that other hl x y,Linked,← hremoved.junction h.mem htidy hl]
  constructor
  · rintro ⟨l,hl',rfl,rfl⟩
    exact ⟨l,hl',hends l hl'⟩
  · rintro ⟨l,hl',rfl,rfl⟩
    exact ⟨l,hl',(hends l hl').1.symm,(hends l hl').2.symm⟩

theorem countP_pair {this that : String} {x y : Value} {ls : List Row}
    (honce : ls.Pairwise fun l l' => ¬(l this = l' this ∧ l that = l' that)) (hmem : ∃ l ∈ ls, l this = x ∧ l that = y) :
    ls.countP (fun l => decide (l this = x ∧ l that = y)) = 1 := by
  have hpair : (ls.filter fun l => decide (l this = x ∧ l that = y)).Pairwise
      fun l l' => ¬(l this = l' this ∧ l that = l' that) := honce.filter _
  have hall : ∀ l ∈ ls.filter (fun l => decide (l this = x ∧ l that = y)), l this = x ∧ l that = y :=
    fun l hl => of_decide_eq_true (List.mem_filter.mp hl).2
  obtain ⟨l,hl,hx⟩ := hmem
  have hin : l ∈ ls.filter fun l => decide (l this = x ∧ l that = y) := List.mem_filter.mpr ⟨hl,decide_eq_true hx⟩
  rw [List.countP_eq_length_filter]
  generalize ls.filter (fun l => decide (l this = x ∧ l that = y)) = found at hpair hall hin
  match found with
  | [] => cases hin
  | [_] => rfl
  | l₁::l₂::rest =>
    have h₁ := hall l₁ List.mem_cons_self
    have h₂ := hall l₂ (List.mem_cons_of_mem l₁ List.mem_cons_self)
    exact absurd ⟨h₁.1.trans h₂.1.symm,h₁.2.trans h₂.2.symm⟩ (List.rel_of_pairwise_cons hpair List.mem_cons_self)

/-! ### Records that are apart -/

theorem Traced.sound (h : Situation site t survivorPk dupPk db₀ survivor duplicate)
    (hblank : (site.key t survivorPk).blank = false) (hdup : (site.key t dupPk).blank = false)
    (hapart : Apart site t survivorPk dupPk survivor duplicate db₀) {t' : MetaTable} (ht' : t' ∈ site.tables)
    {row row' : Row} (hmem : row ∈ db₀ t'.physName)
    (htraced : Traced site t survivorPk dupPk survivor duplicate t'.physName row row') :
    RowSound site t survivorPk dupPk t' row row' where
  refers fk rel hmem' hrefers := by
    have href : Refers site t t'.physName fk := Or.inl ⟨t',rel,hmem',rfl⟩
    obtain ⟨hplain,hfree⟩ := refers_plain h.mem href
    have hsome : (row fk).blank = false := by
      rcases hrefers with heq | heq
      · rw [heq,hblank]
      · rw [heq,hdup]
    have hnone : t'.physName = t.physName → row t.pkCol = site.key t survivorPk →
        (fills site t survivor duplicate).lookup fk = none := by
      intro hname hkey
      obtain rfl := survivor_unique h (hname ▸ hmem) hkey
      exact fills_none hsome
    rcases htraced.passed fk hplain hfree hnone with ⟨hsame,hother⟩ | ⟨-,-,hmoved⟩
    · exact hsame.trans (hrefers.resolve_right (hother href))
    · exact hmoved
  notParent hself fk rel hrel hparent := by
    subst hself
    rw [htraced.key rfl] at hparent
    have href : Refers site t' t'.physName fk := Or.inl ⟨t',rel,hrel,rfl⟩
    obtain ⟨hplain,hfree⟩ := refers_plain h.mem href
    by_cases hsurvivor : row t'.pkCol = site.key t' survivorPk
    · obtain rfl := survivor_unique h hmem hsurvivor
      rw [hsurvivor] at hparent ⊢
      cases hv : (fills site t' row duplicate).lookup fk with
      | none =>
        rcases htraced.passed fk hplain hfree (fun _ _ => hv) with ⟨hsame,-⟩ | ⟨-,hunder,-⟩
        · exact hsame.symm.trans hparent
        · exact absurd hunder (hapart.notUnder fk rel hrel)
      | some v =>
        obtain ⟨rfl,hempty,-⟩ := fills_lookup hv
        rcases htraced.filled rfl hsurvivor fk _ hplain hfree hv with hfilled | ⟨-,hnull⟩
        · exact absurd (hfilled.symm.trans hparent) (hapart.notFilled fk rel hrel hempty)
        · rw [← hparent,hnull] at hblank
          cases hblank
    · rcases htraced.passed fk hplain hfree (fun _ hkey => absurd hkey hsurvivor) with ⟨hsame,-⟩ | ⟨-,-,hmoved⟩
      · exact hsame.symm.trans hparent
      · exact absurd (hparent.symm.trans hmoved) hsurvivor
  others hother c hplain hfree hnone := by
    have hfill : t'.physName = t.physName → row t.pkCol = site.key t survivorPk →
        (fills site t survivor duplicate).lookup c = none :=
      fun hname hkey => absurd ⟨table_unique ht' h.mem hname,hkey⟩ hother
    rcases htraced.passed c hplain hfree hfill with ⟨hsame,-⟩ | ⟨hrefers,-,-⟩
    · exact hsame
    · exact absurd hrefers hnone

/-- The survivor has its nonempty fields. -/
theorem Stages.kept (h : Situation site t survivorPk dupPk db₀ survivor duplicate) (hquiet : site.Quiet)
    (hne : site.key t survivorPk ≠ site.key t dupPk) (hblank : (site.key t survivorPk).blank = false)
    (hapart : Apart site t survivorPk dupPk survivor duplicate db₀)
    (hstages : Stages site t survivorPk dupPk survivor duplicate userId now later db₀ a b c final) :
    ∃ row, site.getRow t survivorPk final = some row ∧ ∀ f ∈ t.fields, f.dataType ≠ .formula →
      (survivor f.physName).blank = false → row f.physName = survivor f.physName := by
  obtain ⟨hremoved,hrows⟩ := hstages.traced h hquiet hne hblank hapart.spared
  have hkey := (getRow_mem h.survivorAt).2
  obtain ⟨row,hrow,htraced⟩ := Paired.mem_right (hrows t h.mem) (survivor_remains h hne)
  refine ⟨row,getRow_eq h.mem hremoved.admitted hrow ((htraced.key rfl).trans hkey),fun f hf htype hsome => ?_⟩
  obtain ⟨hplain,hfree⟩ := field_plain h.mem hf htype
  rcases htraced.passed f.physName hplain hfree (fun _ _ => fills_none hsome) with ⟨hsame,-⟩ | ⟨hrefers,hunder,-⟩
  · exact hsame
  · rcases hrefers with ⟨child,rel,hrel,hname⟩ | ⟨rel,that,other,hl⟩
    · obtain rfl := table_unique (Schema.table_mem (Schema.mem_incomingM1 hrel).2.2.2.1).1 h.mem hname
      exact absurd hunder (hapart.notUnder f.physName rel hrel)
    · exact absurd rfl (junction_ne h.mem hl)

theorem merged_of_apart (h : Situation site t survivorPk dupPk db₀ survivor duplicate) (hquiet : site.Quiet)
    (hne : site.key t survivorPk ≠ site.key t dupPk) (hblank : (site.key t survivorPk).blank = false)
    (hdup : (site.key t dupPk).blank = false) (hapart : Apart site t survivorPk dupPk survivor duplicate db₀)
    (hstages : Stages site t survivorPk dupPk survivor duplicate userId now later db₀ a b c final) :
    Merged site t survivorPk dupPk survivor db₀ final := by
  obtain ⟨hremoved,hrows⟩ := hstages.traced h hquiet hne hblank hapart.spared
  have hlinked := fun {rel j this that other} (hl : (rel,j,this,that,other) ∈ site.mnLinks t) =>
    hstages.linked h hquiet hne hblank hapart.spared hl
  refine ⟨hremoved.free,hstages.kept h hquiet hne hblank hapart,fun t' ht' => ?_,?_,?_⟩
  · exact (Paired.with_mem (hrows t' ht')).imp fun row row' hboth =>
      hboth.1.sound h hblank hdup hapart ht' (List.mem_of_mem_filter hboth.2.1)
  · intro rel j this that other hl l hmem hthis
    refine countP_pair ((site.sound _ hremoved.admitted).pairsOnce t h.mem rel j this that other hl) ?_
    exact (hlinked hl _ _).mpr ⟨l,hmem,heir_of hthis,rfl⟩
  · intro rel j this that hl l' hmem hself
    obtain ⟨l,hl',hthis,hthat⟩ := (hlinked hl (l' this) (l' that)).mp ⟨l',hmem,rfl,rfl⟩
    rw [partner_self] at hthat
    by_cases hsurvivor : l' this = site.key t survivorPk
    · rw [← hself,hsurvivor]
      exact hapart.unlinked rel j this that hl l hl' (heir_eq (hthis.trans hsurvivor))
        (heir_eq (hthat.trans (hself.symm.trans hsurvivor)))
    · exact ⟨l,hl',heir_other hthis hsurvivor,heir_other hthat (hself ▸ hsurvivor)⟩

/-! ### Merges that have lost nothing -/

/-- Where the survivor is there in the end, and refers to the duplicate no more, it has been spared. -/
theorem Stages.spared (h : Situation site t survivorPk dupPk db₀ survivor duplicate) (hquiet : site.Quiet)
    (hne : site.key t survivorPk ≠ site.key t dupPk) (hblank : (site.key t survivorPk).blank = false)
    (hdup : (site.key t dupPk).blank = false)
    (hstages : Stages site t survivorPk dupPk survivor duplicate userId now later db₀ a b c final) {row' : Row}
    (hrow' : row' ∈ final t.physName) (hkey : row' t.pkCol = site.key t survivorPk)
    (hgone : ∀ fk rel, (t,fk,rel) ∈ site.incomingM1 t → row' fk ≠ site.key t dupPk) :
    Spared site t dupPk survivor duplicate := by
  intro fk rel hself hstale
  obtain ⟨htidy,hrows,-⟩ := hstages.rewired h hquiet hne hblank
  have hheld : ∀ {fk rel}, (t,fk,rel) ∈ site.incomingM1 t → Stale site t dupPk survivor duplicate fk →
      ∀ row ∈ c t.physName, row t.pkCol = site.key t survivorPk → row fk = site.key t dupPk := by
    intro fk rel hself hstale row hrow hrowKey
    obtain ⟨row₀,hrow₀,hrewired⟩ := Paired.mem_left (hrows t h.mem) hrow
    obtain ⟨hplain,hfree⟩ := refers_plain h.mem (Or.inl ⟨t,rel,hself,rfl⟩)
    have hkey₀ := (hrewired.key rfl).symm.trans hrowKey
    obtain rfl := survivor_unique h hrow₀ hkey₀
    rw [hrewired.filled rfl hkey₀ fk _ hplain hfree (fills_reference h hself hstale.1 (hstale.2 ▸ hdup))]
    exact hstale.2
  cases hsoft : t.softDelete with
  | true =>
    rw [Clears,if_pos hsoft]
    by_contra hfixed
    have hstuck : Stuck site t survivorPk dupPk survivor duplicate (site.remove t dupPk userId later c).state :=
      stuck_remove h hquiet hsoft htidy fun _ _ hself hstale _ row hrow hrowKey => hheld hself hstale row hrow hrowKey
    rw [hstages.afterRemoval] at hstuck
    exact hgone fk rel hself (hstuck fk rel hself hstale (by simpa using hfixed) row' hrow' hkey)
  | false =>
    rw [Clears,if_neg (by simp [hsoft])]
    have hduplicate : ∃ row ∈ c t.physName, row t.pkCol = site.key t dupPk := by
      obtain ⟨hmem,hdupKey⟩ := getRow_mem h.duplicateAt
      obtain ⟨row,hrow,hrewired⟩ := Paired.mem_right (hrows t h.mem) hmem
      exact ⟨row,hrow,(hrewired.key rfl).trans hdupKey⟩
    exact clears_hard h hquiet hsoft hself hduplicate (hheld hself hstale) hstages.removes hstages.afterRemoval hrow' hkey
      (hgone fk rel hself)

theorem apart_of_merged (h : Situation site t survivorPk dupPk db₀ survivor duplicate) (hquiet : site.Quiet)
    (hne : site.key t survivorPk ≠ site.key t dupPk) (hblank : (site.key t survivorPk).blank = false)
    (hdup : (site.key t dupPk).blank = false)
    (hstages : Stages site t survivorPk dupPk survivor duplicate userId now later db₀ a b c final)
    (hmerged : Merged site t survivorPk dupPk survivor db₀ final) :
    Apart site t survivorPk dupPk survivor duplicate db₀ := by
  obtain ⟨row,hrow,hfields⟩ := hmerged.kept
  obtain ⟨hmem,hkey⟩ := getRow_mem hrow
  have hgone : ∀ fk rel, (t,fk,rel) ∈ site.incomingM1 t → row fk ≠ site.key t dupPk := fun fk rel hself =>
    hmerged.gone t.physName fk (Or.inl ⟨t,rel,hself,rfl⟩) row hmem
  have hspared := hstages.spared h hquiet hne hblank hdup hmem hkey hgone
  refine ⟨fun fk rel hself hunder => ?_,fun fk rel hself hempty hchild => ?_,hspared,?_⟩
  · obtain ⟨-,f,hf,rfl,htype⟩ := site.fkField t h.mem t fk rel hself
    have hsome : (survivor f.physName).blank = false := by rw [hunder,hdup]
    exact hgone f.physName rel hself ((hfields f hf (by rw [htype]; decide) hsome).trans hunder)
  · obtain ⟨-,hrows⟩ := hstages.traced h hquiet hne hblank hspared
    have hsurvivorKey := (getRow_mem h.survivorAt).2
    obtain ⟨row',-,htraced,hsound⟩ := Paired.mem_right (Paired.both (hrows t h.mem) (hmerged.rows t h.mem))
      (survivor_remains h hne)
    obtain ⟨hplain,hfree⟩ := refers_plain h.mem (Or.inl ⟨t,rel,hself,rfl⟩)
    have hfilled : row' fk = site.key t survivorPk := by
      rcases htraced.filled rfl hsurvivorKey fk _ hplain hfree
        (fills_reference h hself hempty (by rw [hchild,hblank])) with hsame | ⟨hdupKey,-⟩
      · exact hsame.trans hchild
      · exact absurd (hchild.symm.trans hdupKey) hne
    have hparent := hsound.notParent rfl fk rel hself (hfilled.trans ((htraced.key rfl).trans hsurvivorKey).symm)
    rw [hparent,hsurvivorKey,hblank] at hempty
    cases hempty
  · intro rel j this that hl l hmem' hthis hthat
    obtain ⟨l',hl',hthis',hthat'⟩ := (hstages.linked h hquiet hne hblank hspared hl (site.key t survivorPk)
      (site.key t survivorPk)).mpr ⟨l,hmem',heir_of hthis,by rw [partner_self]; exact heir_of hthat⟩
    obtain ⟨l₀,hl₀,heq,heq'⟩ := hmerged.notPeer rel j this that hl l' hl' (hthis'.trans hthat'.symm)
    exact ⟨l₀,hl₀,heq.trans hthis',heq'.trans hthat'⟩

end Stages

/-- A successful merge loses and duplicates nothing exactly when the two records are apart. -/
theorem merged_iff (site : Site) (hquiet : site.Quiet) {t : MetaTable} (ht : t ∈ site.tables) {survivorPk dupPk : Value}
    (userId : Option ℕ) (now later : ℤ) {db : Tables} (hdb : site.Admitted db) {survivor duplicate : Row}
    (hs : site.getRow t survivorPk db = some survivor) (hd : site.getRow t dupPk db = some duplicate)
    (hne : site.key t survivorPk ≠ site.key t dupPk) (hblank : (site.key t survivorPk).blank = false)
    (hdup : (site.key t dupPk).blank = false) {summary : Summary}
    (hok : (merge site t survivorPk dupPk userId now later db).result = .ok summary) :
    Merged site t survivorPk dupPk survivor db (merge site t survivorPk dupPk userId now later db).state ↔
      Apart site t survivorPk dupPk survivor duplicate db := by
  have h : Situation site t survivorPk dupPk db survivor duplicate := ⟨ht,hdb,hs,hd⟩
  obtain ⟨a,b,c,hstages⟩ := merge_stages hs hd hok
  exact ⟨apart_of_merged h hquiet hne hblank hdup hstages,fun hapart =>
    merged_of_apart h hquiet hne hblank hdup hapart hstages⟩

/-! ### A tree -/

def parentField : MetaField where
  id := 1
  physName := "parent"
  label := "Parent"
  dataType := .relation
  relatedTableId := some 1

def nodes : MetaTable where
  id := 1
  physName := "nodes"
  label := "Nodes"
  fields := [parentField]
  idsNodup := by decide
  namesNodup := by decide
  namesFree := by decide

def treeSchema : Schema where
  tables := [nodes]
  relations := [⟨"Parent",.m1,1,1,some 1,none⟩]

def tree : Site := Site.plain treeSchema (fun _ => ["id","parent"]) (fun _ _ => true)
  (fun v => if v = .int 1 then "1" else "2") (fun _ => true) (by decide) (by decide) (by decide) (by decide) (by decide)
  (by decide) (by decide) (by decide)

theorem tree_nodes : nodes ∈ tree.tables := List.mem_cons_self

theorem tree_quiet : tree.Quiet := fun _ _ _ _ _ _ => rfl

/-- The nodes 1 and 2, each at the top, and 3 under 2. -/
def flatDb : Tables := fun name =>
  if name = "nodes" then [rowOf [("id",.int 1)],rowOf [("id",.int 2)],rowOf [("id",.int 3),("parent",.int 2)]] else []

/-- The node 1 under 2. -/
def nestedDb : Tables := fun name =>
  if name = "nodes" then [rowOf [("id",.int 1),("parent",.int 2)],rowOf [("id",.int 2)]] else []

theorem flatDb_admitted : tree.Admitted flatDb := by
  change tree.admits flatDb = true
  decide

theorem nestedDb_admitted : tree.Admitted nestedDb := by
  change tree.admits nestedDb = true
  decide

theorem flat_apart : Apart tree nodes (.int 1) (.int 2) (rowOf [("id",.int 1)]) (rowOf [("id",.int 2)]) flatDb := by
  have hfk : ∀ fk rel, (nodes,fk,rel) ∈ tree.incomingM1 nodes → fk = "parent" := by
    intro fk rel hmem
    have honly : tree.incomingM1 nodes = [(nodes,"parent",⟨"Parent",.m1,1,1,some 1,none⟩)] := rfl
    rw [honly,List.mem_singleton] at hmem
    exact (Prod.mk.inj (Prod.mk.inj hmem).2).1
  refine ⟨fun fk rel hmem => ?_,fun fk rel hmem _ => ?_,fun fk rel hmem hstale => ?_,fun rel j this that hl => ?_⟩
  · obtain rfl := hfk fk rel hmem
    decide
  · obtain rfl := hfk fk rel hmem
    decide
  · obtain rfl := hfk fk rel hmem
    exact absurd hstale.2 (by decide)
  · cases hl

/-- The node 3 comes under the survivor. -/
theorem merged_flat : Merged tree nodes (.int 1) (.int 2) (rowOf [("id",.int 1)]) flatDb
    (merge tree nodes (.int 1) (.int 2) none 0 0 flatDb).state :=
  (merged_iff tree tree_quiet tree_nodes none 0 0 flatDb_admitted rfl rfl (by decide) rfl rfl rfl).mpr flat_apart

/-- The survivor becomes its own parent. -/
theorem own_parent : ¬∀ (site : Site), site.Quiet → ∀ t ∈ site.tables, ∀ (survivorPk dupPk : Value) (userId : Option ℕ)
    (now later : ℤ) (db : Tables), site.Admitted db → ∀ survivor, site.getRow t survivorPk db = some survivor →
      site.key t survivorPk ≠ site.key t dupPk → (site.key t survivorPk).blank = false → (site.key t dupPk).blank = false →
        ∀ summary, (merge site t survivorPk dupPk userId now later db).result = .ok summary →
          Merged site t survivorPk dupPk survivor db (merge site t survivorPk dupPk userId now later db).state := by
  intro h
  have hmerged := h tree tree_quiet nodes tree_nodes (.int 1) (.int 2) none 0 0 nestedDb nestedDb_admitted _ rfl (by decide)
    rfl rfl _ rfl
  have hcells : ((merge tree nodes (.int 1) (.int 2) none 0 0 nestedDb).state "nodes").map
      (fun row => (row "id",row "parent")) = [(.int 1,.int 1)] := by decide
  have hmem : (Value.int 1,Value.int 1) ∈ ((merge tree nodes (.int 1) (.int 2) none 0 0 nestedDb).state "nodes").map
      fun row => (row "id",row "parent") := by
    rw [hcells]
    exact List.mem_cons_self
  obtain ⟨row',hrow',hboth⟩ := List.mem_map.mp hmem
  obtain ⟨hid,hparent⟩ := Prod.mk.inj hboth
  obtain ⟨row,hrow,hsound⟩ := Paired.mem_left (hmerged.rows nodes tree_nodes) hrow'
  have hown := hsound.notParent rfl "parent" ⟨"Parent",.m1,1,1,some 1,none⟩ List.mem_cons_self (hparent.trans hid.symm)
  have hbefore : ∀ row ∈ nestedDb "nodes", row "parent" ≠ row "id" := by decide
  exact hbefore row (List.mem_of_mem_filter hrow) hown

end Merge
end Biggy
