import Biggy.Database
import Biggy.Paired

/-!
# What the services leave alone

The ripple of a write touches formulas only, a removal takes values away and puts none in, and whatever a service
commits has been admitted by the database.
-/
namespace Biggy
namespace Database

open Relations Commits Commits.Prog RecordService
open Related (rowOf)

namespace Site

variable (site : Site)

/-- The rows of two databases pair up, and differ only in columns that may be skipped. -/
def Alike (skip : String → String → Prop) (db db' : Tables) : Prop :=
  ∀ name, List.Forall₂ (fun row row' => ∀ c, ¬skip name c → row' c = row c) (db name) (db' name)

/-- A formula of the table is stored in the column. -/
def Computed (name c : String) : Prop :=
  ∃ t ∈ site.tables, t.physName = name ∧ ∃ f ∈ t.fields, f.dataType = .formula ∧ f.physName = c

/-- The column is one of those that the program manages itself in its tables. -/
def Stamped (name c : String) : Prop := (∃ t ∈ site.tables, t.physName = name) ∧ c ∈ managed

def Admitted (db : Tables) : Prop := site.admits db = true

variable {site}

theorem Alike.refl (skip : String → String → Prop) (db : Tables) : Alike skip db db := fun _ =>
  List.forall₂_same.mpr fun _ _ _ _ => rfl

theorem Alike.trans {skip : String → String → Prop} {a b c : Tables} (hab : Alike skip a b) (hbc : Alike skip b c) :
    Alike skip a c := fun name =>
  Paired.trans (fun _ _ _ h h' c hc => (h' c hc).trans (h c hc)) (hab name) (hbc name)

theorem Alike.mono {skip skip' : String → String → Prop} (hskip : ∀ name c, skip name c → skip' name c) {db db' : Tables}
    (h : Alike skip db db') : Alike skip' db db' := fun name =>
  (h name).imp fun _ _ hrow c hc => hrow c fun hs => hc (hskip name c hs)

theorem Alike.symm {skip : String → String → Prop} {db db' : Tables} (h : Alike skip db db') : Alike skip db' db := by
  intro name
  have hflip := (h name).flip
  exact hflip.imp fun _ _ hrow c hc => (hrow c hc).symm

/-- Databases that differ neither in the one columns nor in the others are the same. -/
theorem Alike.eq {skip skip' : String → String → Prop} (hskip : ∀ name c, ¬(skip name c ∧ skip' name c)) {db db' : Tables}
    (h : Alike skip db db') (h' : Alike skip' db db') : db' = db := by
  have hrows : ∀ {name : String} {xs ys : List Row},
      List.Forall₂ (fun row row' => ∀ c, ¬skip name c → row' c = row c) xs ys →
      List.Forall₂ (fun row row' => ∀ c, ¬skip' name c → row' c = row c) xs ys → ys = xs := by
    intro name xs ys hxy
    induction hxy with
    | nil => exact fun _ => rfl
    | cons hhead _ ih =>
      intro hxy'
      cases hxy' with
      | cons hhead' htail =>
        refine congrArg₂ List.cons (funext fun c => ?_) (ih htail)
        by_cases hc : skip name c
        · exact hhead' c fun hc' => hskip name c ⟨hc,hc'⟩
        · exact hhead c hc
  exact funext fun name => hrows (h name) (h' name)

/-- A row of one database has its like in the other. -/
theorem Alike.mem {skip : String → String → Prop} {db db' : Tables} (h : Alike skip db db') {name : String} {row' : Row}
    (hrow : row' ∈ db' name) : ∃ row ∈ db name, ∀ c, ¬skip name c → row' c = row c := Paired.mem_left (h name) hrow

/-- What an update binds outside the columns that may be skipped would change a row. -/
theorem alike_rewritten {skip : String → String → Prop} {name : String} {p : Row → Bool} {vs : Values}
    (h : ∀ c, vs.lookup c ≠ none → skip name c) (db : Tables) : Alike skip db (rewritten name p vs db) := by
  intro other
  by_cases hname : other = name
  · subst hname
    simp only [rewritten,Function.update_self]
    refine List.forall₂_map_right_iff.mpr (List.forall₂_same.mpr fun row _ c hc => ?_)
    split
    · refine Row.write_of_not_mem ?_
      by_contra hbound
      exact hc (h c hbound)
    · rfl
  · simp only [rewritten,Function.update_of_ne hname]
    exact List.forall₂_same.mpr fun _ _ _ _ => rfl

/-- The row that a row of the database after an update was before. -/
theorem mem_rewritten {name other : String} {p : Row → Bool} {vs : Values} {db : Tables} {row' : Row}
    (h : row' ∈ rewritten name p vs db other) : ∃ row ∈ db other,
      (other = name ∧ p row = true ∧ row' = row.write vs) ∨ (other = name → p row = false) ∧ row' = row := by
  by_cases hname : other = name
  · subst hname
    simp only [rewritten,Function.update_self] at h
    obtain ⟨row,hrow,rfl⟩ := List.mem_map.mp h
    refine ⟨row,hrow,?_⟩
    by_cases hp : p row = true
    · exact Or.inl ⟨rfl,hp,if_pos hp⟩
    · exact Or.inr ⟨fun _ => by simpa using hp,if_neg hp⟩
  · simp only [rewritten,Function.update_of_ne hname] at h
    exact ⟨row',h,Or.inr ⟨fun heq => absurd heq hname,rfl⟩⟩

/-- An update that writes what is there changes nothing. -/
theorem rewritten_self {name : String} {p : Row → Bool} {vs : Values} {db : Tables}
    (h : ∀ row ∈ db name, p row = true → row.write vs = row) : rewritten name p vs db = db := by
  refine (congrArg (Function.update db name) ?_).trans (Function.update_eq_self name db)
  refine (List.map_congr_left fun row hrow => ?_).trans (List.map_id _)
  split
  · exact h row hrow ‹_›
  · rfl

theorem lookup_map_cast (name : String) (vs : Values) (c : String) :
    (vs.map fun p => (p.1,site.cast name p.1 p.2)).lookup c = (vs.lookup c).map (site.cast name c) := by
  induction vs with
  | nil => rfl
  | cons p vs ih =>
    obtain ⟨k,v⟩ := p
    simp only [List.map_cons,List.lookup_cons]
    by_cases h : c = k
    · subst h
      simp
    · have hb : (c == k) = false := by simpa using h
      simp only [hb]
      exact ih

theorem lookup_stored (t : MetaTable) (vs : Values) (c : String) : (site.stored t vs).lookup c =
    if c ∈ site.columns t.physName ∧ c ≠ t.pkCol then (vs.lookup c).map (site.cast t.physName c) else none := by
  rw [stored,lookup_map_cast,Values.lookup_filter fun k => (site.columns t.physName).contains k && k != t.pkCol]
  by_cases h : c ∈ site.columns t.physName ∧ c ≠ t.pkCol
  · simp [h]
  · rw [if_neg h,if_neg (by simpa using h)]
    rfl

theorem rippleLinks_mem {t other : MetaTable} {j this that : String} (h : (j,this,that,other) ∈ site.rippleLinks t) :
    other ∈ site.tables := by
  obtain ⟨rel,-,hsome⟩ := List.mem_filterMap.mp h
  split at hsome
  · split at hsome
    · rename_i hfound
      cases hsome
      exact (Schema.table_mem hfound).1
    · cases hsome
  · cases hsome

/-! ### What one service keeps, whatever it is -/

section Keep

variable {R : Tables → Tables → Prop} (hrefl : ∀ db, R db db) (htrans : ∀ a b c, R a b → R b c → R a c)

include hrefl

theorem keeps_statement {change : Tables → Tables} (h : ∀ db, site.Admitted (change db) → R db (change db)) :
    Keeps R (site.statement change) := keeps_commit hrefl h

theorem keeps_log (t : MetaTable) (pk : Value) (action : Action) (userId : Option ℕ)
    (changes : List (String × Value × Value)) : Keeps R (site.log t pk action userId changes) := by
  rw [log]
  split
  · split
    · exact keeps_emit hrefl _
    · exact keeps_raise hrefl _
  · exact keeps_pure hrefl _

include htrans in
/-- A ripple keeps what the recomputation of one row keeps. -/
theorem keeps_ripple (hrow : ∀ t ∈ site.tables, ∀ row, Keeps R (site.recomputeRow t row)) (t : MetaTable) (row : Row) :
    Keeps R (site.ripple t row) := by
  refine keeps_attempt (keeps_bind htrans (keeps_forM hrefl htrans fun f _ => ?_) fun _ => ?_)
  · split
    · split
      · rename_i parent hparent
        split
        · refine keeps_withState fun db => ?_
          split
          · obtain ⟨id,-,hid⟩ := Option.bind_eq_some_iff.mp hparent
            exact hrow parent (Schema.table_mem hid).1 _
          · exact keeps_pure hrefl _
        · exact keeps_pure hrefl _
      · exact keeps_pure hrefl _
    · exact keeps_pure hrefl _
  · split
    · exact keeps_pure hrefl _
    · refine keeps_bind htrans (keeps_forM hrefl htrans ?_) fun _ => keeps_forM hrefl htrans ?_
      · rintro ⟨child,fk,rel⟩ hmem
        have hchild : child ∈ site.tables := (Schema.table_mem (Schema.mem_incomingM1 hmem).2.2.2.1).1
        dsimp only
        split
        · exact keeps_withState fun db => keeps_forM hrefl htrans fun crow _ => hrow child hchild crow
        · exact keeps_pure hrefl _
      · rintro ⟨j,this,that,other⟩ hmem
        have hother : other ∈ site.tables := rippleLinks_mem hmem
        dsimp only
        split
        · refine keeps_withState fun db => keeps_forM hrefl htrans fun oid _ => keeps_withState fun db' => ?_
          split
          · exact hrow other hother _
          · exact keeps_pure hrefl _
        · exact keeps_pure hrefl _

end Keep

/-- The triggers, feeds and SLA policies write no record. -/
def Quiet (site : Site) : Prop := ∀ t action pk old userId db, (site.fire t action pk old userId db).1 = db

theorem keeps_fired {R : Tables → Tables → Prop} (hrefl : ∀ db, R db db) (hquiet : site.Quiet) (t : MetaTable)
    (action : Action) (pk : Value) (old : Option Row) (userId : Option ℕ) :
    Keeps R (site.fired t action pk old userId) := by
  intro db
  change R db (site.fire t action pk old userId db).1
  rw [hquiet]
  exact hrefl db

theorem admitted_statement (change : Tables → Tables) : Preserves site.Admitted (site.statement change) :=
  keeps_statement (fun _ => id) fun _ h _ => h

theorem statement_ends {change : Tables → Tables} {db : Tables} (h : ¬Raises (site.statement change) db) :
    site.Admitted (change db) ∧ (site.statement change db).state = change db := by
  obtain ⟨a,ha⟩ := not_raises.mp h
  obtain ⟨haccepts,heq⟩ := commit_ok ha
  exact ⟨haccepts,by rw [statement,heq]⟩

/-- What follows the write of an update keeps what the ripple keeps. -/
theorem keeps_updated {R : Tables → Tables → Prop} (hrefl : ∀ db, R db db) (htrans : ∀ a b c, R a b → R b c → R a c)
    (hquiet : site.Quiet) {t : MetaTable} {pk : Value} {userId : Option ℕ} (changes : List (String × Value × Value))
    (old : Option Row) (reads : Bool) (context : Row) (hripple : ∀ row, Keeps R (site.ripple t row)) : Keeps R (do
      site.log t pk .update userId changes
      site.fired t .update pk old userId
      withState fun db => match site.getRow t pk db with
        | some row => site.ripple t row
        | none => if reads then site.ripple t context else raise (.python .typeError) : Service Unit) := by
  refine keeps_bind htrans (keeps_log hrefl _ _ _ _ _) fun _ => keeps_bind htrans (keeps_fired hrefl hquiet _ _ _ _ _) fun _ =>
    keeps_withState fun db => ?_
  split
  · exact hripple _
  · split
    · exact hripple _
    · exact keeps_raise hrefl _

/-- An update keeps what its own write and the ripple keep. -/
theorem keeps_update {R : Tables → Tables → Prop} (hrefl : ∀ db, R db db) (htrans : ∀ a b c, R a b → R b c → R a c)
    (hquiet : site.Quiet) {t : MetaTable} {pk : Value} {values : Values} {userId : Option ℕ} {now : ℤ}
    (hwrite : ∀ db db', site.Admitted (rewritten t.physName (site.equals t.physName t.pkCol pk)
        (site.stored t (site.written t pk values userId now db)) db') →
      R db' (rewritten t.physName (site.equals t.physName t.pkCol pk)
        (site.stored t (site.written t pk values userId now db)) db'))
    (hripple : ∀ row, Keeps R (site.ripple t row)) : Keeps R (site.update t pk values userId now) :=
  keeps_withState fun db => keeps_bind htrans (keeps_statement hrefl (hwrite db)) fun _ =>
    keeps_updated hrefl htrans hquiet _ _ _ _ hripple

/-! ### Formulas touch no other column -/

theorem computed_of_lookup {t : MetaTable} (ht : t ∈ site.tables) {evaluate : Evaluator} {row : Row} {vs : Values}
    (h : computeValues evaluate (formulaFields t) row = some vs) {c : String} (hc : vs.lookup c ≠ none) :
    site.Computed t.physName c := by
  by_contra hplain
  refine hc (computeValues_lookup h fun f hf hname => hplain ?_)
  obtain ⟨hmem,htype⟩ := List.mem_filter.mp hf
  exact ⟨t,ht,rfl,f,hmem,by simpa using htype,hname⟩

theorem alike_recomputeRow {t : MetaTable} (ht : t ∈ site.tables) (row : Row) :
    Keeps (Alike site.Computed) (site.recomputeRow t row) := by
  rw [recomputeRow]
  split
  · exact keeps_pure (Alike.refl _) _
  · refine keeps_withState fun db => ?_
    split
    · rename_i vs hvs
      refine keeps_statement (Alike.refl _) fun db' _ => alike_rewritten (fun c hc => ?_) db'
      rw [lookup_stored] at hc
      split at hc
      · exact computed_of_lookup ht hvs fun hnone => hc (by rw [hnone]; rfl)
      · exact absurd rfl hc
    · exact keeps_raise (Alike.refl _) _

theorem alike_ripple (t : MetaTable) (row : Row) : Keeps (Alike site.Computed) (site.ripple t row) :=
  keeps_ripple (Alike.refl _) (fun _ _ _ => Alike.trans) (fun _ ht => alike_recomputeRow ht) t row

theorem admitted_recomputeRow (t : MetaTable) (row : Row) :
    Preserves site.Admitted (site.recomputeRow t row) := by
  rw [recomputeRow]
  split
  · exact preserves_pure _
  · refine keeps_withState fun db => ?_
    split
    · exact admitted_statement _
    · exact preserves_raise _

theorem admitted_ripple (t : MetaTable) (row : Row) :
    Preserves site.Admitted (site.ripple t row) :=
  keeps_ripple (R := fun a b => site.Admitted a → site.Admitted b) (fun _ => id) (fun _ _ _ hab hbc => hbc ∘ hab)
    (fun t _ => admitted_recomputeRow t) t row

theorem admitted_update (hquiet : site.Quiet) (t : MetaTable) (pk : Value) (values : Values) (userId : Option ℕ) (now : ℤ) :
    Preserves site.Admitted (site.update t pk values userId now) :=
  keeps_update (R := fun a b => site.Admitted a → site.Admitted b) (fun _ => id) (fun _ _ _ hab hbc => hbc ∘ hab) hquiet
    (fun _ _ hadmitted _ => hadmitted) fun row => admitted_ripple t row

/-- What an update leaves, but for formulas. -/
theorem update_ends (hquiet : site.Quiet) {t : MetaTable} {pk : Value} {values : Values} {userId : Option ℕ} {now : ℤ}
    {db : Tables} (hends : ¬Raises (site.update t pk values userId now) db) :
    Alike site.Computed (rewritten t.physName (site.equals t.physName t.pkCol pk)
      (site.stored t (site.written t pk values userId now db)) db) (site.update t pk values userId now db).state := by
  obtain ⟨a,ha⟩ := not_raises.mp hends
  simp only [update,withState_apply] at ha ⊢
  obtain ⟨_,hwrite,-,hstate,-⟩ := bind_ok ha
  rw [hstate]
  refine (statement_ends (not_raises.mpr ⟨_,hwrite⟩)).2 ▸ ?_
  exact keeps_updated (Alike.refl _) (fun _ _ _ => Alike.trans) hquiet _ _ _ _ (alike_ripple t) _

/-! ### What removals do to a row -/

/-- Two tables of the same name are the same. -/
theorem table_unique {t t' : MetaTable} (ht : t ∈ site.tables) (ht' : t' ∈ site.tables) (h : t.physName = t'.physName) :
    t = t' := List.inj_on_of_nodup_map site.namesNodup ht ht' h

/-- Outside formulas and managed columns a row holds what it held, or nothing. -/
def Faded (site : Site) (name : String) (row row' : Row) : Prop :=
  ∀ c, ¬site.Computed name c → ¬site.Stamped name c → row' c = row c ∨ row' c = .null

/-- Every row is one that was there before, or what is left of it. -/
def Wanes (site : Site) (db db' : Tables) : Prop := ∀ name, ∀ row' ∈ db' name, ∃ row ∈ db name, site.Faded name row row'

theorem Wanes.refl (db : Tables) : site.Wanes db db := fun _ row hrow => ⟨row,hrow,fun _ _ _ => Or.inl rfl⟩

theorem Wanes.trans {a b c : Tables} (hab : site.Wanes a b) (hbc : site.Wanes b c) : site.Wanes a c := by
  intro name row'' hrow''
  obtain ⟨row',hrow',hfaded'⟩ := hbc name row'' hrow''
  obtain ⟨row,hrow,hfaded⟩ := hab name row' hrow'
  refine ⟨row,hrow,fun col hplain hfree => ?_⟩
  rcases hfaded' col hplain hfree with hsame | hnull
  · rw [hsame]
    exact hfaded col hplain hfree
  · exact Or.inr hnull

theorem Alike.wanes {skip : String → String → Prop} (hskip : ∀ name c, skip name c → site.Computed name c ∨ site.Stamped name c)
    {db db' : Tables} (h : Alike skip db db') : site.Wanes db db' := by
  intro name row' hrow'
  obtain ⟨row,hrow,hsame⟩ := h.mem hrow'
  exact ⟨row,hrow,fun c hplain hfree => Or.inl (hsame c fun hs => (hskip name c hs).elim hplain hfree)⟩

theorem wanes_rewritten {name : String} {p : Row → Bool} {vs : Values} (h : ∀ c v, vs.lookup c = some v → v = .null)
    (db : Tables) : site.Wanes db (rewritten name p vs db) := by
  intro other row' hrow'
  by_cases hname : other = name
  · subst hname
    simp only [rewritten,Function.update_self] at hrow'
    obtain ⟨row,hrow,rfl⟩ := List.mem_map.mp hrow'
    refine ⟨row,hrow,fun c _ _ => ?_⟩
    split
    · cases hv : vs.lookup c with
      | none => exact Or.inl (Row.write_of_not_mem hv)
      | some v => exact Or.inr (by simp [Row.write,hv,h c v hv])
    · exact Or.inl rfl
  · simp only [rewritten,Function.update_of_ne hname] at hrow'
    exact ⟨row',hrow',fun _ _ _ => Or.inl rfl⟩

/-- What a deletion takes away. -/
def gone (site : Site) (name : String) (p : Row → Bool) (db : Tables) : List (String × Value) :=
  if site.enforced then site.cascaded (site.rounds db) db (site.keysOf name p db) else []

/-- A column of a row from which keys have been taken. -/
theorem orphaned_cases (lost : List (String × Value)) (name : String) (row : Row) (c : String) :
    site.orphaned lost name row c = row c ∨ site.orphaned lost name row c = .null ∧
      ∃ k ∈ site.foreignKeys, k.table = name ∧ k.column = c ∧ (k.parent,row c) ∈ lost ∧ k.onDelete = .setNull := by
  have hlookup : ∀ ks : List ForeignKey,
      (ks.map fun k => (k.column,Value.null)).lookup c = if ∃ k ∈ ks, k.column = c then some .null else none := by
    intro ks
    induction ks with
    | nil => rfl
    | cons k ks ih =>
      rw [List.map_cons,List.lookup_cons,ih]
      by_cases hc : c = k.column
      · simp [hc]
      · have hb : (c == k.column) = false := by simpa using hc
        simp [hb,Ne.symm hc]
  rw [orphaned,Row.write,hlookup]
  split
  · rename_i hk
    obtain ⟨k,hmem,rfl⟩ := hk
    obtain ⟨hkey,hlost⟩ := List.mem_filter.mp hmem
    obtain ⟨htable,hsetNull,hgone⟩ := of_decide_eq_true hlost
    exact Or.inr ⟨rfl,k,hkey,htable,rfl,hgone,hsetNull⟩
  · exact Or.inl rfl

/-- The row that a row of the database after a deletion was before. -/
theorem of_mem_erased {name other : String} {p : Row → Bool} {db : Tables} {row' : Row}
    (h : row' ∈ site.erased name p db other) : ∃ row ∈ db other, (other = name → p row = false) ∧
      site.loses .cascade (site.gone name p db) other row = false ∧ row' = site.orphaned (site.gone name p db) other row := by
  obtain ⟨row,hrow,rfl⟩ := List.mem_map.mp h
  obtain ⟨hmem,hkept⟩ := List.mem_filter.mp hrow
  simp only [Bool.and_eq_true,Bool.not_eq_true',Bool.and_eq_false_iff,decide_eq_false_iff_not] at hkept
  exact ⟨row,hmem,fun hname => hkept.1.resolve_left fun hne => hne hname,hkept.2,rfl⟩

theorem mem_erased {name other : String} {p : Row → Bool} {db : Tables} {row' : Row}
    (h : row' ∈ site.erased name p db other) : ∃ row ∈ db other, (other = name → p row = false) ∧
      ∀ c, row' c = row c ∨ row' c = .null := by
  obtain ⟨row,hrow,hkept,-,rfl⟩ := of_mem_erased h
  exact ⟨row,hrow,hkept,fun c => (orphaned_cases _ other row c).imp id And.left⟩

theorem loses_nil (action : Related.OnDelete) (name : String) (row : Row) : site.loses action [] name row = false :=
  List.any_eq_false.mpr fun k _ => by simp

/-- A deletion goes no further when no row loses what it refers to. -/
theorem cascaded_still {db : Tables} {lost : List (String × Value)}
    (h : ∀ t ∈ site.tables, ∀ row ∈ db t.physName, site.loses .cascade lost t.physName row = false) (n : ℕ) :
    site.cascaded n db lost = lost := by
  induction n with
  | zero => rfl
  | succ n ih =>
    have hnone : (site.tables.flatMap fun t => site.keysOf t.physName (site.loses .cascade lost t.physName) db) = [] := by
      refine List.flatMap_eq_nil_iff.mpr fun t ht => List.flatMap_eq_nil_iff.mpr fun t' _ => List.map_eq_nil_iff.mpr ?_
      exact List.filter_eq_nil_iff.mpr fun row hrow => by simp [h t ht row hrow]
    rw [cascaded,hnone,List.append_nil]
    exact ih

theorem mem_cascaded {db : Tables} {lost : List (String × Value)} {x : String × Value} (hx : x ∈ lost) (n : ℕ) :
    x ∈ site.cascaded n db lost := by
  induction n generalizing lost with
  | zero => exact hx
  | succ n ih => exact ih (List.mem_append_left _ hx)

/-- The rows that a deletion is about are those of the table that pass its test. -/
theorem mem_keysOf {t : MetaTable} (ht : t ∈ site.tables) {p : Row → Bool} {db : Tables} {x : String × Value} :
    x ∈ site.keysOf t.physName p db ↔ ∃ row ∈ db t.physName, p row = true ∧ x = (t.physName,row t.pkCol) := by
  constructor
  · intro hx
    obtain ⟨t',ht',hmap⟩ := List.mem_flatMap.mp hx
    obtain ⟨hmem,hname⟩ := List.mem_filter.mp ht'
    obtain rfl := table_unique hmem ht (of_decide_eq_true hname)
    obtain ⟨row,hrow,rfl⟩ := List.mem_map.mp hmap
    exact ⟨row,(List.mem_filter.mp hrow).1,(List.mem_filter.mp hrow).2,rfl⟩
  · rintro ⟨row,hrow,hp,rfl⟩
    exact List.mem_flatMap.mpr ⟨t,List.mem_filter.mpr ⟨ht,decide_eq_true rfl⟩,
      List.mem_map.mpr ⟨row,List.mem_filter.mpr ⟨hrow,hp⟩,rfl⟩⟩

/-- A record is all that its deletion is about. -/
theorem keysOf_key {t : MetaTable} (ht : t ∈ site.tables) {pk : Value} {db : Tables} {x : String × Value}
    (hx : x ∈ site.keysOf t.physName (site.equals t.physName t.pkCol pk) db) : x = (t.physName,site.key t pk) := by
  obtain ⟨row,-,hp,rfl⟩ := (mem_keysOf ht).mp hx
  rw [of_decide_eq_true hp]
  rfl

/-- A foreign key that points at the records of the table. -/
theorem foreignKey_cases {t : MetaTable} (ht : t ∈ site.tables) {k : ForeignKey} (hk : k ∈ site.foreignKeys) (hparent : k.parent = t.physName) :
    (∃ child rel, (child,k.column,rel) ∈ site.incomingM1 t ∧ child.physName = k.table ∧ onDelete rel = k.onDelete) ∨
      ∃ rel that other, (rel,k.table,k.column,that,other) ∈ site.mnLinks t := by
  obtain ⟨t',ht',hmem⟩ := List.mem_flatMap.mp hk
  rcases List.mem_append.mp hmem with hchild | hlink
  · obtain ⟨⟨child,fk,rel⟩,hx,rfl⟩ := List.mem_map.mp hchild
    obtain rfl := table_unique ht' ht hparent
    exact Or.inl ⟨child,rel,hx,rfl,rfl⟩
  · obtain ⟨⟨rel,j,this,that,other⟩,hl,rfl⟩ := List.mem_map.mp hlink
    obtain rfl := table_unique ht' ht hparent
    exact Or.inr ⟨rel,that,other,hl⟩

/-- A deletion that takes no row of a table loses no other. -/
theorem erased_of_unkeyed {name : String} {p : Row → Bool} {db : Tables} (h : site.keysOf name p db = []) :
    site.erased name p db = Function.update db name ((db name).filter fun row => !p row) := by
  funext other
  have hgone : (if site.enforced then site.cascaded (site.rounds db) db (site.keysOf name p db) else []) = [] := by
    rw [h,cascaded_still fun _ _ _ _ => loses_nil _ _ _,ite_self]
  have horphan : ∀ row : Row, site.orphaned [] other row = row := by
    intro row
    have hkeys : (site.foreignKeys.filter fun k => decide (k.table = other ∧ k.onDelete = .setNull ∧
        (k.parent,row k.column) ∈ ([] : List (String × Value)))) = [] := by simp
    rw [orphaned,hkeys]
    rfl
  simp only [erased,hgone]
  rw [(List.map_congr_left fun row _ => horphan row).trans (List.map_id _)]
  by_cases hname : other = name
  · subst hname
    simp [loses_nil]
  · simp [loses_nil,hname]

theorem erased_of_none {name : String} {p : Row → Bool} {db : Tables} (h : ∀ row ∈ db name, p row = false) :
    site.erased name p db = db := by
  have hfilter : (db name).filter p = [] := by simpa [List.filter_eq_nil_iff] using h
  rw [erased_of_unkeyed (by simp [keysOf,hfilter])]
  refine (congrArg (Function.update db name) ?_).trans (Function.update_eq_self name db)
  exact List.filter_eq_self.mpr fun row hrow => by simp [h row hrow]

theorem wanes_erased (name : String) (p : Row → Bool) (db : Tables) : site.Wanes db (site.erased name p db) := by
  intro other row' hrow'
  obtain ⟨row,hrow,-,hfaded⟩ := mem_erased hrow'
  exact ⟨row,hrow,fun c _ _ => hfaded c⟩

theorem wanes_deleteWhere (name col : String) (v : Value) : Keeps site.Wanes (site.deleteWhere name col v) := by
  rw [deleteWhere]
  split
  · exact keeps_statement Wanes.refl fun db _ => wanes_erased _ _ db
  · exact keeps_pure Wanes.refl _

theorem wanes_clearFk (name col : String) (v : Value) : Keeps site.Wanes (site.clearFk name col v) := by
  rw [clearFk]
  split
  · refine keeps_statement Wanes.refl fun db _ => wanes_rewritten (fun c w hw => ?_) db
    rw [Values.lookup_singleton] at hw
    split at hw
    · exact (Option.some.inj hw).symm
    · cases hw
  · exact keeps_pure Wanes.refl _

theorem admitted_deleteWhere (name col : String) (v : Value) : Preserves site.Admitted (site.deleteWhere name col v) := by
  rw [deleteWhere]
  split
  · exact admitted_statement _
  · exact preserves_pure _

theorem admitted_dissociate (pk : Value) (p : MetaTable × String × MetaRelation) :
    Preserves site.Admitted (site.dissociate pk p) := by
  obtain ⟨child,fk,rel⟩ := p
  rw [dissociate,clearFk]
  split
  · split
    · exact admitted_statement _
    · exact preserves_pure _
  · exact admitted_deleteWhere _ _ _

theorem wanes_dissociate (pk : Value) (p : MetaTable × String × MetaRelation) :
    Keeps site.Wanes (site.dissociate pk p) := by
  obtain ⟨child,fk,rel⟩ := p
  rw [dissociate]
  split
  · exact wanes_clearFk _ _ _
  · exact wanes_deleteWhere _ _ _

/-! ### Names -/

theorem junctionName_take (a b : String) : (junctionName a b).toList.take 2 = ['j','_'] := by
  rw [junctionName]
  split <;> simp [clip,String.toList_append,List.take_take]

/-- A junction is none of the tables. -/
theorem junction_ne {t t' other : MetaTable} (ht' : t' ∈ site.tables) {rel : MetaRelation} {j this that : String}
    (h : (rel,j,this,that,other) ∈ site.mnLinks t) : t'.physName ≠ j := by
  obtain ⟨-,-,a,b,-,-,rfl,-⟩ := Schema.mem_mnLinks h
  intro hname
  exact site.plainNames t' ht' (hname ▸ junctionName_take _ _)

/-- A deletion from a junction takes nothing else along. -/
theorem erased_junction {t other : MetaTable} {rel : MetaRelation} {j this that : String}
    (hl : (rel,j,this,that,other) ∈ site.mnLinks t) (p : Row → Bool) (db : Tables) :
    site.erased j p db = Function.update db j ((db j).filter fun row => !p row) := by
  refine erased_of_unkeyed ?_
  rw [keysOf,List.flatMap_eq_nil_iff]
  intro t' ht'
  obtain ⟨hmem,hname⟩ := List.mem_filter.mp ht'
  exact absurd (of_decide_eq_true hname) (junction_ne hmem hl)

theorem computed_iff {t : MetaTable} (ht : t ∈ site.tables) {c : String} :
    site.Computed t.physName c ↔ ∃ f ∈ t.fields, f.dataType = .formula ∧ f.physName = c := by
  constructor
  · rintro ⟨t',ht',hname,hf⟩
    rwa [table_unique ht' ht hname] at hf
  · exact fun hf => ⟨t,ht,rfl,hf⟩

/-- A field that is no formula is neither computed nor stamped. -/
theorem field_plain {t : MetaTable} (ht : t ∈ site.tables) {f : MetaField} (hf : f ∈ t.fields)
    (htype : f.dataType ≠ .formula) : ¬site.Computed t.physName f.physName ∧ ¬site.Stamped t.physName f.physName := by
  constructor
  · rw [computed_iff ht]
    rintro ⟨g,hg,hformula,hname⟩
    exact htype (t.field_unique hg hf hname ▸ hformula)
  · exact fun h => t.namesFree f hf h.2

theorem pk_plain {t : MetaTable} (ht : t ∈ site.tables) :
    ¬site.Computed t.physName t.pkCol ∧ ¬site.Stamped t.physName t.pkCol := by
  constructor
  · rw [computed_iff ht]
    rintro ⟨f,hf,hformula,hname⟩
    exact site.pkPlain t ht f hf hformula hname
  · exact fun h => site.pkFree t ht h.2

theorem junction_plain {t other : MetaTable} {rel : MetaRelation} {j this that : String}
    (h : (rel,j,this,that,other) ∈ site.mnLinks t) (c : String) : ¬site.Computed j c ∧ ¬site.Stamped j c :=
  ⟨fun ⟨_,ht,hname,_⟩ => junction_ne ht h hname,fun ⟨⟨_,ht,hname⟩,_⟩ => junction_ne ht h hname⟩

/-- Two links over one junction are the same, or the two directions of a self-relation. -/
theorem same_junction {t other other' : MetaTable} (ht : t ∈ site.tables) {rel rel' : MetaRelation}
    {j this that this' that' : String} (h : (rel,j,this,that,other) ∈ site.mnLinks t)
    (h' : (rel',j,this',that',other') ∈ site.mnLinks t) :
    this' = this ∧ that' = that ∧ other' = other ∨ this' = that ∧ that' = this ∧ other = t ∧ other' = t := by
  obtain rfl := site.junctionsOwn t ht t ht rel rel' j this that this' that' other other' h h'
  obtain ⟨-,-,a,b,ha,hb,-,left,right,rfl,rfl,hside⟩ := Schema.mem_mnLinks h
  obtain ⟨-,-,a',b',ha',hb',-,left',right',rfl,rfl,hside'⟩ := Schema.mem_mnLinks h'
  obtain rfl := Option.some.inj (ha'.symm.trans ha)
  obtain rfl := Option.some.inj (hb'.symm.trans hb)
  have hsame : ∀ {c : MetaTable} {id : ℕ}, site.table id = some c → c.id = t.id → c = t := fun hc hid =>
    List.inj_on_of_nodup_map site.idsNodup (Schema.table_mem hc).1 ht hid
  rcases hside with ⟨hid,rfl,rfl,rfl⟩ | ⟨hid,rfl,rfl,rfl⟩ <;> rcases hside' with ⟨hid',rfl,rfl,rfl⟩ | ⟨hid',rfl,rfl,rfl⟩
  · exact Or.inl ⟨rfl,rfl,rfl⟩
  · exact Or.inr ⟨rfl,rfl,hsame hb hid',hsame ha hid⟩
  · exact Or.inr ⟨rfl,rfl,hsame ha hid',hsame hb hid⟩
  · exact Or.inl ⟨rfl,rfl,rfl⟩

/-- The columns of a junction. -/
theorem this_ne_that {t other : MetaTable} {rel : MetaRelation} {j this that : String}
    (h : (rel,j,this,that,other) ∈ site.mnLinks t) : this ≠ that := by
  obtain ⟨-,-,a,b,-,-,-,left,right,hleft,hright,hside⟩ := Schema.mem_mnLinks h
  have hne : left ≠ right := hright ▸ Schema.left_ne_right left b.physName
  rcases hside with ⟨-,rfl,rfl,-⟩ | ⟨-,rfl,rfl,-⟩
  · exact hne
  · exact hne.symm

/-- The references to a record in a foreign-key column. -/
theorem equals_fk {t child : MetaTable} (ht : t ∈ site.tables) {fk : String} {rel : MetaRelation}
    (h : (child,fk,rel) ∈ site.incomingM1 t) (pk : Value) :
    site.equals child.physName fk pk = fun row => decide (row fk = site.key t pk) := by
  funext row
  rw [equals,site.fkCast t ht child fk rel h]
  rfl

/-- The links of a record in a junction. -/
theorem equals_link {t other : MetaTable} (ht : t ∈ site.tables) {rel : MetaRelation} {j this that : String}
    (h : (rel,j,this,that,other) ∈ site.mnLinks t) (pk : Value) :
    site.equals j this pk = fun row => decide (row this = site.key t pk) := by
  funext row
  rw [equals,site.linkCast t ht rel j this that other h]
  rfl

/-! ### Rows -/

theorem getRow_mem {t : MetaTable} {pk : Value} {db : Tables} {row : Row} (h : site.getRow t pk db = some row) :
    row ∈ db t.physName ∧ row t.pkCol = site.key t pk :=
  ⟨Keyed.mem_of_find h,@Keyed.key_of_find _ _ _ (fun row : Row => row t.pkCol) _ _ _ h⟩

/-- The row with a key is the one that is found. -/
theorem getRow_eq {t : MetaTable} (ht : t ∈ site.tables) {db : Tables} (hdb : site.Admitted db) {row : Row}
    (hrow : row ∈ db t.physName) {pk : Value} (hkey : row t.pkCol = site.key t pk) : site.getRow t pk db = some row := by
  rw [getRow,← hkey]
  exact @Keyed.find_of_mem _ _ _ (fun row : Row => row t.pkCol) _ ((site.sound db hdb).keysNodup t ht) row hrow

theorem write_stored_pk (t : MetaTable) (row : Row) (vs : Values) : row.write (site.stored t vs) t.pkCol = row t.pkCol :=
  Row.write_of_not_mem (by simp [lookup_stored])

theorem mem_getLinks {j this that : String} {id v : Value} {db : Tables} :
    v ∈ site.getLinks j this id that db ↔ ∃ row ∈ db j, row this = site.cast j this id ∧ row that = v := by
  simp [getLinks,equals,and_assoc]

/-- The columns of a new link. -/
theorem link_row (this that c : String) (a b : Value) :
    rowOf [(this,a),(that,b)] c = if c = this then a else if c = that then b else .null := by
  rw [rowOf,Row.write,List.lookup_cons]
  by_cases hthis : c = this
  · simp [hthis]
  · have hb : (c == this) = false := by simpa using hthis
    rw [hb,if_neg hthis]
    simp only [Values.lookup_singleton]
    split <;> rfl

theorem unstamped {t : MetaTable} (ht : t ∈ site.tables) {c : String} (hfree : ¬site.Stamped t.physName c) : c ∉ managed :=
  fun hc => hfree ⟨⟨t,ht,rfl⟩,hc⟩

theorem computed_unmanaged {name c : String} (h : site.Computed name c) : c ∉ managed := by
  obtain ⟨t,-,-,f,hf,-,rfl⟩ := h
  exact t.namesFree f hf

/-- A column that is neither computed nor stamped is written as submitted. -/
theorem lookup_updated {t : MetaTable} (ht : t ∈ site.tables) {values stamp : Values} {row : Row} {db : Tables} {c : String}
    (hplain : ¬site.Computed t.physName c) (hstamp : stamp.lookup c = none) :
    (stamped t (site.withFormulas t values row db) stamp).lookup c = values.lookup c := by
  have hcomputed : (site.withFormulas t values row db).lookup c = values.lookup c := by
    rw [withFormulas]
    split
    · rw [Values.lookup_update,computeSelf]
      cases hvs : computeValues (site.evaluate t db) (formulaFields t) row with
      | none => rfl
      | some vs =>
        rw [Option.getD_some]
        cases hc : vs.lookup c with
        | none => rfl
        | some v => exact absurd (computed_of_lookup ht hvs (by rw [hc]; exact Option.some_ne_none v)) hplain
    · rfl
  rw [stamped]
  split
  · rw [Values.lookup_update,hstamp,Option.none_or,hcomputed]
  · exact hcomputed

/-! ### Calls that come to their end -/

theorem statement_raises {change : Tables → Tables} {db : Tables} (h : Raises (site.statement change) db) :
    (site.statement change db).state = db := by
  obtain ⟨e,he⟩ := h
  cases haccepts : site.admits (change db) with
  | true =>
    rw [statement,commit_accepted haccepts] at he
    cases he
  | false => rw [statement,commit_refused haccepts]

/-- A deletion that is accepted leaves no row that it was to delete. -/
theorem deleteWhere_ends {name col : String} {v : Value} {db : Tables} (hcol : col ∈ site.columns name)
    (hnull : site.cast name col v ≠ .null) (h : ¬Raises (site.deleteWhere name col v) db) :
    site.Admitted (site.deleteWhere name col v db).state ∧
      ∀ row ∈ (site.deleteWhere name col v db).state name, row col ≠ site.cast name col v := by
  rw [deleteWhere,if_pos hcol] at h ⊢
  obtain ⟨hadmitted,hstate⟩ := statement_ends h
  rw [hstate]
  refine ⟨hadmitted,fun row' hrow' => ?_⟩
  obtain ⟨row,-,hkept,hfaded⟩ := mem_erased hrow'
  have hne : row col ≠ site.cast name col v := by simpa [equals] using hkept rfl
  rcases hfaded col with hsame | hgone
  · rwa [hsame]
  · rw [hgone]
    exact hnull.symm

theorem clearFk_ends {name col : String} {v : Value} {db : Tables} (hcol : col ∈ site.columns name)
    (hnull : site.cast name col v ≠ .null) (h : ¬Raises (site.clearFk name col v) db) :
    site.Admitted (site.clearFk name col v db).state ∧
      ∀ row ∈ (site.clearFk name col v db).state name, row col ≠ site.cast name col v := by
  rw [clearFk,if_pos hcol] at h ⊢
  obtain ⟨hadmitted,hstate⟩ := statement_ends h
  rw [hstate]
  refine ⟨hadmitted,fun row' hrow' => ?_⟩
  obtain ⟨row,-,⟨-,-,rfl⟩ | ⟨hkept,rfl⟩⟩ := mem_rewritten hrow'
  · simpa [Row.write,Values.lookup_singleton] using hnull.symm
  · simpa [equals] using hkept rfl

/-- A call that has nothing to delete or to clear leaves the tables alone. -/
theorem deleteWhere_idle {name col : String} {v : Value} {db : Tables} (h : ∀ row ∈ db name, row col ≠ site.cast name col v) :
    (site.deleteWhere name col v db).state = db := by
  rw [deleteWhere]
  split
  · exact keeps_statement (R := fun a b => a = db → b = db) (fun _ => id) (fun db' _ hdb' => by
      subst hdb'
      exact erased_of_none fun row hrow => by simpa [equals] using h row hrow) db rfl
  · rfl

theorem clearFk_idle {name col : String} {v : Value} {db : Tables} (h : ∀ row ∈ db name, row col ≠ site.cast name col v) :
    (site.clearFk name col v db).state = db := by
  rw [clearFk]
  split
  · exact keeps_statement (R := fun a b => a = db → b = db) (fun _ => id) (fun db' _ hdb' => by
      subst hdb'
      exact rewritten_self fun row hrow hp => absurd (of_decide_eq_true hp) (h row hrow)) db rfl
  · rfl

theorem dissociate_ends {child : MetaTable} {fk : String} {rel : MetaRelation} {pk : Value} {db : Tables}
    (hcol : fk ∈ site.columns child.physName) (hnull : site.cast child.physName fk pk ≠ .null)
    (h : ¬Raises (site.dissociate pk (child,fk,rel)) db) : site.Admitted (site.dissociate pk (child,fk,rel) db).state ∧
      ∀ row ∈ (site.dissociate pk (child,fk,rel) db).state child.physName, row fk ≠ site.cast child.physName fk pk := by
  rw [dissociate] at h ⊢
  split
  · rename_i hnullable
    rw [if_pos hnullable] at h
    exact clearFk_ends hcol hnull h
  · rename_i hnullable
    rw [if_neg hnullable] at h
    exact deleteWhere_ends hcol hnull h

theorem dissociate_idle {child : MetaTable} {fk : String} {rel : MetaRelation} {pk : Value} {db : Tables}
    (h : ∀ row ∈ db child.physName, row fk ≠ site.cast child.physName fk pk) :
    (site.dissociate pk (child,fk,rel) db).state = db := by
  rw [dissociate]
  split
  · exact clearFk_idle h
  · exact deleteWhere_idle h

/-! ### A plain database -/

/-- The constraints that every database checks, of tables whose columns store what they are given. -/
def checked (S : Schema) (db : Tables) : Bool := S.tables.all fun t =>
  decide ((db t.physName).map fun row => row t.pkCol).Nodup && (db t.physName).all (fun row => decide (row t.pkCol ≠ .null)) &&
    (S.mnLinks t).all fun (_,j,this,that,_) =>
      decide ((db j).Pairwise fun l l' => ¬(l this = l' this ∧ l that = l' that))

theorem checked_sound {S : Schema} {db : Tables} (h : checked S db = true) : Integrity S (fun _ _ v => v) false db := by
  have htable : ∀ t ∈ S.tables, ((db t.physName).map fun row => row t.pkCol).Nodup ∧
      (∀ row ∈ db t.physName, row t.pkCol ≠ .null) ∧ ∀ l ∈ S.mnLinks t,
        (db l.2.1).Pairwise fun a b => ¬(a l.2.2.1 = b l.2.2.1 ∧ a l.2.2.2.1 = b l.2.2.2.1) := by
    intro t ht
    have hall := List.all_eq_true.mp h t ht
    simp only [Bool.and_eq_true,decide_eq_true_eq,List.all_eq_true,and_assoc] at hall
    exact hall
  exact
    { keysNodup := fun t ht => (htable t ht).1
      keysHeld := fun t ht => (htable t ht).2.1
      typed := fun _ _ _ _ => rfl
      pairsOnce := fun t ht rel j this that other hl => (htable t ht).2.2 (rel,j,this,that,other) hl
      references := fun henforced => by cases henforced }

/-- A database without foreign keys, formulas and triggers, with constraints of its own. -/
def plain (S : Schema) (columns : String → List String) (nullable : String → String → Bool) (str : Value → String)
    (own : Tables → Bool) (idsNodup : (S.tables.map MetaTable.id).Nodup) (namesNodup : (S.tables.map MetaTable.physName).Nodup)
    (plainNames : ∀ t ∈ S.tables, t.physName.toList.take 2 ≠ ['j','_']) (pkFree : ∀ t ∈ S.tables, t.pkCol ∉ managed)
    (pkPlain : ∀ t ∈ S.tables, ∀ f ∈ t.fields, f.dataType = .formula → f.physName ≠ t.pkCol)
    (fkField : ∀ t ∈ S.tables, ∀ p ∈ S.incomingM1 t,
      p.2.1 ∈ columns p.1.physName ∧ ∃ f ∈ p.1.fields, f.physName = p.2.1 ∧ f.dataType = .relation)
    (linkHeld : ∀ t ∈ S.tables, ∀ l ∈ S.mnLinks t, l.2.2.1 ∈ columns l.2.1)
    (junctionsOwn : ∀ t ∈ S.tables, ∀ t' ∈ S.tables, ∀ l ∈ S.mnLinks t, ∀ l' ∈ S.mnLinks t', l.2.1 = l'.2.1 → l.1 = l'.1) :
    Site where
  toSchema := S
  columns := columns
  nullable := nullable
  cast := fun _ _ v => v
  enforced := false
  admits := fun db => checked S db && own db
  logKey := some
  evaluate := fun _ _ _ _ => none
  str := str
  hasTriggers := fun _ => false
  fire := fun _ _ _ _ _ db => (db,[])
  idsNodup := idsNodup
  namesNodup := namesNodup
  plainNames := plainNames
  pkFree := pkFree
  pkPlain := pkPlain
  fkField := fun t ht child fk rel hmem => fkField t ht (child,fk,rel) hmem
  fkCast := fun _ _ _ _ _ _ => rfl
  linkCast := fun _ _ _ _ _ _ _ _ => rfl
  linkHeld := fun t ht rel j this that other hl => linkHeld t ht (rel,j,this,that,other) hl
  junctionsOwn := fun t ht t' ht' rel rel' j this that this' that' other other' hl hl' =>
    junctionsOwn t ht t' ht' (rel,j,this,that,other) hl (rel',j,this',that',other') hl' rfl
  sound := fun _ h => checked_sound (Bool.and_eq_true_iff.mp h).1

end Site

end Database
end Biggy
