import Biggy.Keyed
import Mathlib.Logic.Function.Basic

/-!
# Statements that change tables

A database is a list of tables with typed columns and at most one key column each. A statement creates, alters or drops one
table, or is refused. `Extends` compares databases that differ by what has been added.
-/
namespace Biggy
namespace Ddl

variable {τ : Type*}

structure ForeignKey where
  columns : List String
  target : String

/-- A table; `auto` says that the database numbers the rows. -/
structure Table (τ : Type*) where
  name : String
  key : Option String
  auto : Bool
  columns : List (String × τ)
  foreignKeys : List ForeignKey
  keyColumns : ∀ fk ∈ foreignKeys, ∀ c ∈ fk.columns, c ∈ columns.map Prod.fst

abbrev Database (τ : Type*) := List (Table τ)

namespace Table

variable (t : Table τ)

/-- The type of a column. -/
def type (column : String) : Option τ := (Keyed.find Prod.fst column t.columns).map Prod.snd

def has (column : String) : Bool := (t.type column).isSome

/-- `ALTER TABLE ADD COLUMN`. -/
def add (column : String) (type : τ) : Option (Table τ) :=
  if t.has column then none
  else
    some { t with
      columns := t.columns++[(column,type)]
      keyColumns := by
        intro fk hfk c hc
        rw [List.map_append]
        exact List.mem_append_left _ (t.keyColumns fk hfk c hc) }

/-- `ALTER TABLE ADD FOREIGN KEY`. -/
def refer (column target : String) : Option (Table τ) :=
  if h : column ∈ t.columns.map Prod.fst then
    some { t with
      foreignKeys := t.foreignKeys++[⟨[column],target⟩]
      keyColumns := by
        intro fk hfk c hc
        rcases List.mem_append.mp hfk with hfk | hfk
        · exact t.keyColumns fk hfk c hc
        · rw [List.mem_singleton.mp hfk] at hc
          rwa [List.mem_singleton.mp hc] }
  else none

/-- `ALTER TABLE DROP COLUMN`, with the constraints on the column. -/
def dropColumn (column : String) : Option (Table τ) :=
  if t.has column then
    some { t with
      key := t.key.filter fun k => k ≠ column
      columns := t.columns.filter fun c => c.1 ≠ column
      foreignKeys := t.foreignKeys.filter fun fk => column ∉ fk.columns
      keyColumns := by
        intro fk hfk c hc
        obtain ⟨hfk,hout⟩ := List.mem_filter.mp hfk
        obtain ⟨p,hp,rfl⟩ := List.mem_map.mp (t.keyColumns fk hfk c hc)
        have hne : p.1 ≠ column := fun hsame => by simp [← hsame,hc] at hout
        exact List.mem_map_of_mem (List.mem_filter.mpr ⟨hp,by simpa using hne⟩) }
  else none

/-- `ALTER TABLE CHANGE COLUMN`. -/
def change (old new : String) (type : τ) : Option (Table τ) :=
  if t.has old = true ∧ (new = old ∨ t.has new = false) then
    some { t with
      key := t.key.map fun k => if k = old then new else k
      columns := t.columns.map fun c => if c.1 = old then (new,type) else c
      foreignKeys := t.foreignKeys.map fun fk => { fk with columns := fk.columns.map fun c => if c = old then new else c }
      keyColumns := by
        intro fk' hfk' c' hc'
        obtain ⟨fk,hfk,rfl⟩ := List.mem_map.mp hfk'
        obtain ⟨c,hc,rfl⟩ := List.mem_map.mp hc'
        obtain ⟨p,hp,rfl⟩ := List.mem_map.mp (t.keyColumns fk hfk c hc)
        rw [List.map_map]
        refine List.mem_map.mpr ⟨p,hp,?_⟩
        simp only [Function.comp_apply]
        split <;> rfl }
  else none

end Table

section Statements

variable (answer : Bool) (db : Database τ) (name : String)

def find : Option (Table τ) := Keyed.find Table.name name db

/-- `inspect(engine).has_table`. -/
def hasTable : Bool := (find db name).isSome

/-- `CREATE TABLE`. -/
def create (t : Table τ) : Option (Database τ) :=
  if answer = true ∧ hasTable db t.name = false ∧ (t.columns.map Prod.fst).Nodup then some (db++[t]) else none

/-- `DROP TABLE IF EXISTS`. -/
def drop : Option (Database τ) := if answer then some (db.filter fun t => t.name ≠ name) else none

/-- `ALTER TABLE`, with what it makes of the table. -/
def alter (f : Table τ → Option (Table τ)) : Option (Database τ) :=
  if answer then ((find db name).bind f).map fun t => Keyed.put Table.name t db else none

end Statements

variable {t t' : Table τ} {db db' : Database τ} {name column other : String} {answer : Bool}

/-! ### Tables -/

theorem name_of_find (h : find db name = some t) : t.name = name := Keyed.key_of_find h

@[simp] theorem find_append (u : Table τ) : find (db++[u]) name = (find db name).or (if u.name = name then some u else none) := by
  rw [find,find,Keyed.find,Keyed.find,List.find?_append]
  by_cases h : u.name = name <;> simp [h]

theorem find_create {u : Table τ} (h : create answer db u = some db') : find db' u.name = some u := by
  unfold create at h
  split at h
  · rename_i hfree
    cases h
    have hnone : find db u.name = none := by simpa [hasTable] using hfree.2.1
    simp [hnone]
  · cases h

theorem find_create_other {u : Table τ} (h : create answer db u = some db') (hfind : find db name = some t) :
    find db' name = some t := by
  unfold create at h
  split at h
  · cases h
    simp [hfind]
  · cases h

theorem find_drop (h : drop answer db name = some db') : find db' other = if other = name then none else find db other := by
  unfold drop at h
  split at h
  · cases h
    have hfilter := @Keyed.find_filter _ _ _ Table.name (fun n => decide (n ≠ name)) other db
    rw [find,hfilter]
    by_cases hother : other = name <;> simp [hother,find]
  · cases h

/-- An altered table is the old one with the change, and no other table changes. -/
theorem alter_eq_some {f : Table τ → Option (Table τ)} (hname : ∀ u u', f u = some u' → u'.name = u.name) :
    alter answer db name f = some db' → ∃ t t', find db name = some t ∧ f t = some t' ∧ find db' name = some t' ∧
      ∀ other, other ≠ name → find db' other = find db other := by
  intro h
  unfold alter at h
  split at h
  · obtain ⟨t',hbind,rfl⟩ := Option.map_eq_some_iff.mp h
    obtain ⟨t,hfind,hf⟩ := Option.bind_eq_some_iff.mp hbind
    have hnew : t'.name = name := (hname t t' hf).trans (name_of_find hfind)
    refine ⟨t,t',hfind,hf,?_,fun other hother => ?_⟩
    · have hself := @Keyed.find_put_self _ _ _ Table.name t' db
      rwa [hnew] at hself
    · exact Keyed.find_put_other (by rw [hnew]; exact hother.symm) db
  · cases h

/-! ### Columns -/

theorem has_iff : t.has column = true ↔ ∃ type, t.type column = some type := Option.isSome_iff_exists

theorem add_name {type : τ} (h : t.add column type = some t') : t'.name = t.name := by
  unfold Table.add at h
  split at h <;> cases h
  rfl

theorem add_key {type : τ} (h : t.add column type = some t') : t'.key = t.key := by
  unfold Table.add at h
  split at h <;> cases h
  rfl

theorem type_add {type : τ} (h : t.add column type = some t') :
    t'.type other = if other = column then some type else t.type other := by
  unfold Table.add at h
  split at h
  · cases h
  · rename_i hfree
    cases h
    have hnone : t.type column = none := by simpa [Table.has] using hfree
    unfold Table.type Keyed.find
    rw [List.find?_append]
    by_cases hother : other = column
    · subst hother
      have hfind : t.columns.find? (fun c => decide (c.1 = other)) = none := by simpa [Table.type,Keyed.find] using hnone
      simp [hfind]
    · have hlast : [(column,type)].find? (fun c => decide (c.1 = other)) = none := by
        simp [Ne.symm hother]
      rw [if_neg hother,hlast,Option.or_none]

theorem refer_some {target : String} (h : t.refer column target = some t') : t'.name = t.name ∧ t'.key = t.key ∧
    t'.columns = t.columns := by
  unfold Table.refer at h
  split at h <;> cases h
  exact ⟨rfl,rfl,rfl⟩

theorem type_refer {target : String} (h : t.refer column target = some t') : t'.type other = t.type other := by
  rw [Table.type,Table.type,(refer_some h).2.2]

theorem has_of_mem (h : column ∈ t.columns.map Prod.fst) : t.has column = true := by
  obtain ⟨c,hc,rfl⟩ := List.mem_map.mp h
  cases hfind : Keyed.find Prod.fst c.1 t.columns with
  | none => exact absurd rfl (Keyed.find_eq_none.mp hfind c hc)
  | some c' => simp [Table.has,Table.type,hfind]

theorem dropColumn_name (h : t.dropColumn column = some t') : t'.name = t.name := by
  unfold Table.dropColumn at h
  split at h <;> cases h
  rfl

theorem dropColumn_key (h : t.dropColumn column = some t') : t'.key = t.key.filter fun k => k ≠ column := by
  unfold Table.dropColumn at h
  split at h <;> cases h
  rfl

theorem type_dropColumn (h : t.dropColumn column = some t') :
    t'.type other = if other = column then none else t.type other := by
  unfold Table.dropColumn at h
  split at h
  · cases h
    have hfilter := @Keyed.find_filter _ _ _ (Prod.fst : String × τ → String) (fun n => decide (n ≠ column)) other t.columns
    unfold Table.type
    rw [hfilter]
    by_cases hother : other = column <;> simp [hother]
  · cases h

theorem change_name {old new : String} {type : τ} (h : t.change old new type = some t') : t'.name = t.name := by
  unfold Table.change at h
  split at h <;> cases h
  rfl

theorem change_key {old new : String} {type : τ} (h : t.change old new type = some t') :
    t'.key = t.key.map fun k => if k = old then new else k := by
  unfold Table.change at h
  split at h <;> cases h
  rfl

theorem find_map_change (old new : String) (type : τ) (cs : List (String × τ)) (hne : other ≠ new) (hold : other ≠ old) :
    Keyed.find Prod.fst other (cs.map fun c => if c.1 = old then (new,type) else c) = Keyed.find Prod.fst other cs := by
  induction cs with
  | nil => rfl
  | cons c cs ih =>
    rw [List.map_cons,Keyed.find_cons,Keyed.find_cons,ih]
    by_cases hc : c.1 = old
    · simp [hc,Ne.symm hne,Ne.symm hold]
    · rw [if_neg hc]

theorem find_map_old (old new : String) (type : τ) (cs : List (String × τ)) (hne : new ≠ old) :
    Keyed.find Prod.fst old (cs.map fun c => if c.1 = old then (new,type) else c) = none := by
  refine Keyed.find_eq_none.mpr fun c hc => ?_
  obtain ⟨c',-,rfl⟩ := List.mem_map.mp hc
  by_cases hold : c'.1 = old
  · simpa [hold] using hne
  · simp [hold]

theorem find_map_new (old new : String) (type : τ) {cs : List (String × τ)} (hfree : new = old ∨ Keyed.find Prod.fst new cs = none)
    (hold : Keyed.find Prod.fst old cs ≠ none) :
    Keyed.find Prod.fst new (cs.map fun c => if c.1 = old then (new,type) else c) = some (new,type) := by
  induction cs with
  | nil => exact absurd rfl hold
  | cons c cs ih =>
    rw [List.map_cons,Keyed.find_cons]
    by_cases hc : c.1 = old
    · simp [hc]
    · rw [if_neg hc]
      have hnew : c.1 ≠ new := by
        rcases hfree with rfl | hfree
        · exact hc
        · exact Keyed.find_eq_none.mp hfree c List.mem_cons_self
      rw [if_neg hnew]
      refine ih ?_ ?_
      · refine hfree.imp id fun h => ?_
        rwa [Keyed.find_cons,if_neg hnew] at h
      · rwa [Keyed.find_cons,if_neg hc] at hold

/-- The types after a change: the column is found under its new name only. -/
theorem type_change {old new : String} {type : τ} (h : t.change old new type = some t') :
    t'.type other = if other = new then some type else if other = old then none else t.type other := by
  unfold Table.change at h
  split at h
  · rename_i hcan
    cases h
    unfold Table.type
    have hold : Keyed.find Prod.fst old t.columns ≠ none := by
      intro hnone
      simp [Table.has,Table.type,hnone] at hcan
    have hfree : new = old ∨ Keyed.find Prod.fst new t.columns = none := by
      refine hcan.2.imp id fun hnew => ?_
      simpa [Table.has,Table.type] using hnew
    by_cases hnew : other = new
    · subst hnew
      rw [find_map_new old other type hfree hold]
      simp
    · by_cases hother : other = old
      · subst hother
        rw [find_map_old other new type t.columns (Ne.symm hnew)]
        simp [hnew]
      · rw [find_map_change old new type t.columns hnew hother]
        simp [hnew,hother]
  · cases h

/-! ### Databases with more in them -/

/-- A table with more columns. -/
structure Table.Extends (t t' : Table τ) : Prop where
  key : t'.key = t.key
  type : ∀ column type, t.type column = some type → t'.type column = some type

theorem Table.Extends.refl (t : Table τ) : t.Extends t := ⟨rfl,fun _ _ h => h⟩

theorem Table.Extends.has (h : t.Extends t') (hhas : t.has column = true) : t'.has column = true := by
  obtain ⟨type,htype⟩ := has_iff.mp hhas
  exact has_iff.mpr ⟨type,h.type column type htype⟩

/-- A database with more tables and columns. -/
def Extends (db db' : Database τ) : Prop := ∀ name t, find db name = some t → ∃ t', find db' name = some t' ∧ t.Extends t'

theorem Extends.refl (db : Database τ) : Extends db db := fun _ t h => ⟨t,h,.refl t⟩

theorem Extends.trans {db'' : Database τ} (h : Extends db db') (h' : Extends db' db'') : Extends db db'' := by
  intro name t hfind
  obtain ⟨t',hfind',hext⟩ := h name t hfind
  obtain ⟨t'',hfind'',hext'⟩ := h' name t' hfind'
  exact ⟨t'',hfind'',hext'.key.trans hext.key,fun column type htype => hext'.type column type (hext.type column type htype)⟩

theorem Extends.hasTable (h : Extends db db') (hexists : hasTable db name = true) : hasTable db' name = true := by
  obtain ⟨t,ht⟩ := Option.isSome_iff_exists.mp hexists
  obtain ⟨t',ht',-⟩ := h name t ht
  exact Option.isSome_iff_exists.mpr ⟨t',ht'⟩

theorem create_extends {u : Table τ} (h : create answer db u = some db') : Extends db db' :=
  fun _ t hfind => ⟨t,find_create_other h hfind,.refl t⟩

theorem alter_extends {f : Table τ → Option (Table τ)} (hname : ∀ u u', f u = some u' → u'.name = u.name)
    (hf : ∀ u u', f u = some u' → u.Extends u') (h : alter answer db name f = some db') : Extends db db' := by
  obtain ⟨u,u',hfind,hfu,hfind',hother⟩ := alter_eq_some hname h
  intro other t ht
  by_cases hsame : other = name
  · subst hsame
    rw [hfind] at ht
    cases ht
    exact ⟨u',hfind',hf _ _ hfu⟩
  · exact ⟨t,by rw [hother other hsame,ht],.refl t⟩

theorem refer_extends {target : String} (h : t.refer column target = some t') : t.Extends t' where
  key := (refer_some h).2.1
  type := fun _ _ htype => (type_refer h).trans htype

theorem add_extends {type : τ} (h : t.add column type = some t') : t.Extends t' where
  key := add_key h
  type := by
    intro other type' htype
    rw [type_add h]
    split
    · rename_i hother
      subst hother
      unfold Table.add at h
      rw [if_pos (has_iff.mpr ⟨type',htype⟩)] at h
      cases h
    · exact htype

end Ddl
end Biggy
