import Biggy.ImportFrame

/-!
# Strict imports

Without `skip_invalid` an import should apply every row of the file or none. The new rows
are one statement, but each matched row is a statement of its own: what was written before
the one that the database refuses stays. `strict_iff` says when that is harmless.
-/
namespace Biggy
namespace Importer

section Replay

variable (E : Engine) (t : Physical)

/-- A stored record behind the updates that are about it. -/
def replay (us : List (Value × Values)) (row : Row) : Row :=
  us.foldl (fun row u => if t.keyOf row = t.key u.1 then row.write (t.clean (adapted E u.2)) else row) row

variable {E t}

theorem replay_none : replay E t [] = id := rfl

/-- The matched rows that are accepted are all that is written. -/
theorem updateMany_eq (us : List (Value × Values)) :
    (updateMany E t us).1 = { t with rows := t.rows.map (replay E t (accepted E t us)) } ∧
      (updateMany E t us).2.1 = (accepted E t us).length ∧
      ((updateMany E t us).2.2 = none ↔ accepted E t us = us) := by
  induction us generalizing t with
  | nil => simp [updateMany,accepted,replay_none]
  | cons u us ih =>
    cases hone : updateOne E t u.1 u.2 with
    | error e => simp [updateMany,accepted,hone,replay_none]
    | ok t₁ =>
      obtain ⟨hrows,hcount,hend⟩ := ih (t := t₁)
      -- an accepted statement changes the rows only, so what follows writes as before
      obtain rfl := Physical.updateRow_ok (updateOne_ok hone)
      simp only [updateMany,accepted,hone,hcount,hend,List.length_cons,List.cons.injEq,true_and,and_true]
      rw [hrows]
      simp only [Physical.writeRow,List.map_map]
      rfl

end Replay

variable (E : Engine) (t : Physical)

/-- Every row of the file is in the table: the new rows behind the stored ones, and each
matched row written. -/
structure AllApplied (outcomes : List Outcome) (t' : Physical) (result : Result) : Prop where
  counted : result.imported+result.updated = result.total
  total : result.total = outcomes.length
  rows : ∃ t₁, insertMany E t (inserts outcomes) = .ok t₁ ∧
    t'.rows = t₁.rows.map (replay E t (updates outcomes))

/-- A strict import that lists an error changed no row, and one that lists none applied
every row. -/
def AllOrNothing (lib : CoerceLib) (D : Directory) (mt : MetaTable) (call : Call) : Prop :=
  call.skipInvalid = false → ∀ header outcomes t' result, plan lib E D mt t call = .ok (header,outcomes) →
    importRows lib E D mt t call = .ok (t',result) →
      (result.errors ≠ [] → t'.rows = t.rows) ∧ (result.errors = [] → AllApplied E t outcomes t' result)

/-- The database takes every matched row, or there are no new rows and the matched rows
before the refused one leave every record as it was. -/
def NothingToUndo (lib : CoerceLib) (D : Directory) (mt : MetaTable) (call : Call) : Prop :=
  call.skipInvalid = false → ∀ header outcomes, plan lib E D mt t call = .ok (header,outcomes) →
    errors outcomes = [] → ∀ t₁, insertMany E t (inserts outcomes) = .ok t₁ →
      accepted E t₁ (updates outcomes) = updates outcomes ∨
        inserts outcomes = [] ∧ ∀ row ∈ t.rows, replay E t (accepted E t (updates outcomes)) row = row

variable {E t}

theorem errors_eq_nil {outcomes : List Outcome} :
    errors outcomes = [] ↔ ∀ message, Outcome.invalid message ∉ outcomes := by
  simp only [errors,List.filterMap_eq_nil_iff]
  constructor
  · intro h message hmem
    obtain ⟨i,hi⟩ := List.getElem?_of_mem hmem
    have hnone := h (.invalid message,2+i) (List.mk_add_mem_zipIdx_iff_getElem?.mpr hi)
    cases hnone
  · rintro h ⟨o,i⟩ hp
    have hmem := List.fst_mem_of_mem_zipIdx hp
    cases o with
    | invalid message => exact absurd hmem (h message)
    | _ => rfl

theorem length_outcomes {outcomes : List Outcome} (h : errors outcomes = []) :
    (inserts outcomes).length+(updates outcomes).length = outcomes.length := by
  rw [errors_eq_nil] at h
  induction outcomes with
  | nil => rfl
  | cons o outcomes ih =>
    have hrest := ih fun message hmem => h message (List.mem_cons_of_mem o hmem)
    cases o with
    | insert values =>
      simp only [inserts,updates,List.filterMap_cons,List.length_cons] at hrest ⊢
      omega
    | update pk values =>
      simp only [inserts,updates,List.filterMap_cons,List.length_cons] at hrest ⊢
      omega
    | invalid message => exact absurd List.mem_cons_self (h message)

theorem length_newRows (new : List Values) (rows : List Row) :
    (new.foldl (fun rows values => rows ++ [newRow E t rows values]) rows).length = rows.length+new.length := by
  induction new generalizing rows with
  | nil => rfl
  | cons values new ih =>
    rw [List.foldl_cons,ih,List.length_append,List.length_singleton,List.length_cons]
    omega

theorem length_insertMany {new : List Values} {t₁ : Physical} (h : insertMany E t new = .ok t₁) :
    t₁.rows.length = t.rows.length+new.length := by
  simp only [insertMany] at h
  split at h
  · rename_i hnil
    cases h
    simp [hnil]
  · split at h
    · cases h
      exact length_newRows new t.rows
    · cases h

/-- What a strict import without row errors writes. -/
theorem load_strict {outcomes : List Outcome} (ignored : List String) (h : errors outcomes = []) {t₁ : Physical}
    (hinsert : insertMany E t (inserts outcomes) = .ok t₁) :
    (load E t false outcomes ignored).1.rows = t₁.rows.map (replay E t (accepted E t₁ (updates outcomes))) ∧
      ((load E t false outcomes ignored).2.errors = [] ↔ accepted E t₁ (updates outcomes) = updates outcomes) ∧
      (load E t false outcomes ignored).2.imported = (inserts outcomes).length ∧
      (load E t false outcomes ignored).2.updated = (accepted E t₁ (updates outcomes)).length ∧
      (load E t false outcomes ignored).2.total = outcomes.length := by
  obtain ⟨hrows,hcount,hend⟩ := updateMany_eq (E := E) (t := t₁) (updates outcomes)
  obtain ⟨more,rfl⟩ := insertMany_ok hinsert
  simp only [load,h,ne_eq,not_true_eq_false,false_and,if_false,hinsert]
  refine ⟨?_,?_,trivial,hcount,trivial⟩
  · rw [hrows]
    rfl
  · rw [← hend]
    cases (updateMany E { t with rows := t.rows ++ more } (updates outcomes)).2.2 with
    | none => simp
    | some e => simp

theorem map_replay_eq {us : List (Value × Values)} {rows : List Row} :
    rows.map (replay E t us) = rows ↔ ∀ row ∈ rows, replay E t us row = row := by
  have h := List.map_inj_left (l := rows) (f := replay E t us) (g := id)
  rwa [List.map_id] at h

theorem insertMany_nil {new : List Values} {t₁ : Physical} (hnil : new = []) (h : insertMany E t new = .ok t₁) :
    t₁ = t := by
  subst hnil
  cases h
  rfl

/-- The table is as it was when nothing is new and each record comes back as it was. -/
theorem rows_unchanged_iff {new : List Values} {t₁ : Physical} (hinsert : insertMany E t new = .ok t₁)
    (us : List (Value × Values)) : t₁.rows.map (replay E t us) = t.rows ↔
      new = [] ∧ ∀ row ∈ t.rows, replay E t us row = row := by
  constructor
  · intro h
    have hlength := congrArg List.length h
    rw [List.length_map,length_insertMany hinsert] at hlength
    have hnil : new = [] := List.length_eq_zero_iff.mp (by omega)
    subst hnil
    rw [insertMany_nil rfl hinsert] at h
    exact ⟨rfl,map_replay_eq.mp h⟩
  · rintro ⟨rfl,hrows⟩
    rw [insertMany_nil rfl hinsert]
    exact map_replay_eq.mpr hrows

/-- A strict import is all-or-nothing exactly when it never has anything to undo. -/
theorem strict_iff (lib : CoerceLib) (E : Engine) (D : Directory) (mt : MetaTable) (t : Physical) (call : Call) :
    AllOrNothing E t lib D mt call ↔ NothingToUndo E t lib D mt call := by
  constructor
  · intro h hstrict header outcomes hplan herrors t₁ hinsert
    obtain ⟨ignored,himport⟩ := importRows_ok hplan
    rw [hstrict] at himport
    obtain ⟨hrows,hend,-⟩ := load_strict ignored herrors hinsert
    have hnothing := (h hstrict header outcomes (load E t false outcomes ignored).1
      (load E t false outcomes ignored).2 hplan himport).1
    by_cases hall : accepted E t₁ (updates outcomes) = updates outcomes
    · exact Or.inl hall
    · have hkept := hnothing fun hok => hall (hend.mp hok)
      rw [hrows,rows_unchanged_iff hinsert] at hkept
      obtain ⟨hnil,hback⟩ := hkept
      rw [insertMany_nil hnil hinsert] at hback
      exact Or.inr ⟨hnil,hback⟩
  · intro h hstrict header outcomes t' result hplan himport
    obtain ⟨ignored,hload⟩ := importRows_ok hplan
    rw [hstrict] at hload
    have hsame : (t',result) = load E t false outcomes ignored := Except.ok.inj (himport.symm.trans hload)
    have htable : t' = (load E t false outcomes ignored).1 := congrArg Prod.fst hsame
    have hresult : result = (load E t false outcomes ignored).2 := congrArg Prod.snd hsame
    subst htable hresult
    by_cases herrors : errors outcomes = []
    · cases hinsert : insertMany E t (inserts outcomes) with
      | error e =>
        simp [load,herrors,hinsert]
      | ok t₁ =>
        obtain ⟨hrows,hend,himported,hupdated,htotal⟩ := load_strict ignored herrors hinsert
        constructor
        · intro hfailed
          rcases h hstrict header outcomes hplan herrors t₁ hinsert with hall | ⟨hnil,hback⟩
          · exact absurd (hend.mpr hall) hfailed
          · rw [hrows,rows_unchanged_iff hinsert,insertMany_nil hnil hinsert]
            exact ⟨hnil,hback⟩
        · intro hok
          have hall := hend.mp hok
          refine ⟨?_,htotal,t₁,hinsert,?_⟩
          · rw [himported,hupdated,htotal,hall,length_outcomes herrors]
          · rw [hrows,hall]
    · have hgiven : load E t false outcomes ignored = (t,_) := if_pos ⟨herrors,rfl⟩
      rw [hgiven]
      exact ⟨fun _ => rfl,fun hok => absurd hok herrors⟩

/-! ### Two customers of one name -/

def bob : Row := fun column =>
  match column with
  | "id" => .int 2
  | "name" => .text "Bob"
  | "phone" => .text "555 0200"
  | _ => .null

/-- Names are unique. -/
def namedRows : Physical where
  columns := ["id","name","phone"]
  pk := "id"
  rows := [ann,bob]
  key := id
  admits := fun rows => decide (rows.map fun row => row "name").Nodup

def idLib : CoerceLib := { plainLib with int := fun s => if s = "1" then some 1 else if s = "2" then some 2 else none }

def renameBoth : Call where
  fileText := "id,name,phone\n1,Anna,555 0100\n2,Anna,555 0200\n"
  skipInvalid := false
  mode := .upsert
  keyField := some "id"

/-- The second customer is refused with the name that the first one already got. -/
theorem import_not_allOrNothing : ¬∀ (lib : CoerceLib) (E : Engine) (D : Directory) (mt : MetaTable) (t : Physical)
    (call : Call), AllOrNothing E t lib D mt call := by
  intro h
  have hplan : plan idLib plainEngine noDirectory customers namedRows renameBoth =
      .ok (["id","name","phone"],[.update (.int 1) [("name",.text "Anna"),("phone",.text "555 0100")],
        .update (.int 2) [("name",.text "Anna"),("phone",.text "555 0200")]]) := rfl
  obtain ⟨ignored,himport⟩ := importRows_ok hplan
  have hkept := (h idLib plainEngine noDirectory customers namedRows renameBoth rfl _ _ _ _ hplan himport).1
    (List.cons_ne_nil _ _)
  have hnames := congrArg (List.map fun row : Row => row "name") hkept
  have hanna : ([.text "Anna",.text "Bob"] : List Value) = [.text "Ann",.text "Bob"] := hnames
  exact absurd hanna (by decide)

end Importer
end Biggy
