import Biggy.Metadata

/-!
# Relations between tables

What `record_service` reads of the metadata when it follows the relations of a table: the foreign keys that point at
it, and the junction tables that link its records to others.
-/
namespace Biggy
namespace Relations

inductive RelationKind
  | m1 | mn
  deriving DecidableEq

structure MetaRelation where
  name : String
  kind : RelationKind
  fromTableId : ℕ
  toTableId : ℕ
  fromFieldId : Option ℕ := none
  onDelete : Option String := none
  deriving DecidableEq

/-- `junction_name`. -/
def junctionName (a b : String) : String :=
  if b < a then clip 64 ("j_" ++ b ++ "_" ++ a) else clip 64 ("j_" ++ a ++ "_" ++ b)

structure Schema where
  tables : List MetaTable
  relations : List MetaRelation

namespace Schema

variable (S : Schema)

/-- `session.get(MetaTable, id)`. -/
def table (id : ℕ) : Option MetaTable := Keyed.find MetaTable.id id S.tables

/-- `session.get(MetaField, id)`. -/
def field (id : ℕ) : Option MetaField := (S.tables.flatMap MetaTable.fields).find? fun f => decide (f.id = id)

/-- `_incoming_m1`. -/
def incomingM1 (t : MetaTable) : List (MetaTable × String × MetaRelation) :=
  S.relations.filterMap fun rel =>
    if rel.kind = .m1 ∧ rel.toTableId = t.id then
      match S.table rel.fromTableId, rel.fromFieldId.bind S.field with
      | some child, some fk => some (child,fk.physName,rel)
      | _, _ => none
    else none

/-- `_mn_links`: the relation, the junction, this column, the other column and the other table. -/
def mnLinks (t : MetaTable) : List (MetaRelation × String × String × String × MetaTable) :=
  S.relations.flatMap fun rel =>
    if rel.kind = .mn then
      match S.table rel.fromTableId, S.table rel.toTableId with
      | some a, some b =>
        let jname := junctionName a.physName b.physName
        let left := a.physName ++ "_id"
        let right := if left = b.physName ++ "_id" then b.physName ++ "_id_2" else b.physName ++ "_id"
        (if a.id = t.id then [(rel,jname,left,right,b)] else []) ++
          if b.id = t.id then [(rel,jname,right,left,a)] else []
      | _, _ => []
    else []

variable {S}

theorem table_mem {id : ℕ} {t : MetaTable} (h : S.table id = some t) : t ∈ S.tables ∧ t.id = id :=
  ⟨Keyed.mem_of_find h,Keyed.key_of_find h⟩

theorem mem_incomingM1 {t child : MetaTable} {fk : String} {rel : MetaRelation} (h : (child,fk,rel) ∈ S.incomingM1 t) :
    rel ∈ S.relations ∧ rel.kind = .m1 ∧ rel.toTableId = t.id ∧ S.table rel.fromTableId = some child ∧
      ∃ field, rel.fromFieldId.bind S.field = some field ∧ field.physName = fk := by
  obtain ⟨rel',hrel,hsome⟩ := List.mem_filterMap.mp h
  split at hsome
  · rename_i hto
    split at hsome
    · rename_i child' field hchild hfield
      cases hsome
      exact ⟨hrel,hto.1,hto.2,hchild,field,hfield,rfl⟩
    · cases hsome
  · cases hsome

/-- A link runs from one side of a relation to the other. -/
theorem mem_mnLinks {t other : MetaTable} {rel : MetaRelation} {j this that : String}
    (h : (rel,j,this,that,other) ∈ S.mnLinks t) :
    rel ∈ S.relations ∧ rel.kind = .mn ∧ ∃ a b, S.table rel.fromTableId = some a ∧ S.table rel.toTableId = some b ∧
      j = junctionName a.physName b.physName ∧ ∃ left right, left = a.physName ++ "_id" ∧
        right = (if left = b.physName ++ "_id" then b.physName ++ "_id_2" else b.physName ++ "_id") ∧
        (a.id = t.id ∧ this = left ∧ that = right ∧ other = b ∨ b.id = t.id ∧ this = right ∧ that = left ∧ other = a) := by
  obtain ⟨rel',hrel,hlink⟩ := List.mem_flatMap.mp h
  dsimp only at hlink
  split at hlink
  · rename_i hkind
    split at hlink
    · rename_i a b ha hb
      rcases List.mem_append.mp hlink with hleft | hright
      · split at hleft
        · rename_i hid
          cases List.mem_singleton.mp hleft
          exact ⟨hrel,hkind,a,_,ha,hb,rfl,_,_,rfl,rfl,Or.inl ⟨hid,rfl,rfl,rfl⟩⟩
        · cases hleft
      · split at hright
        · rename_i hid
          cases List.mem_singleton.mp hright
          exact ⟨hrel,hkind,_,b,ha,hb,rfl,_,_,rfl,rfl,Or.inr ⟨hid,rfl,rfl,rfl⟩⟩
        · cases hright
    · cases hlink
  · cases hlink

/-- A self-relation is listed in both directions. -/
theorem mnLinks_swap {t other : MetaTable} {rel : MetaRelation} {j this that : String}
    (h : (rel,j,this,that,other) ∈ S.mnLinks t) (hself : other.id = t.id) :
    ∃ other', (rel,j,that,this,other') ∈ S.mnLinks t ∧ other'.id = t.id := by
  obtain ⟨hrel,hkind,a,b,ha,hb,rfl,left,right,rfl,rfl,hside⟩ := mem_mnLinks h
  rcases hside with ⟨hid,rfl,rfl,rfl⟩ | ⟨hid,rfl,rfl,rfl⟩
  · exact ⟨a,List.mem_flatMap.mpr ⟨rel,hrel,by simp [hkind,ha,hb,hself]⟩,hid⟩
  · exact ⟨b,List.mem_flatMap.mpr ⟨rel,hrel,by simp [hkind,ha,hb,hself]⟩,hid⟩

/-- The two columns of a junction differ. -/
theorem left_ne_right (left b : String) : left ≠ if left = b ++ "_id" then b ++ "_id_2" else b ++ "_id" := by
  split
  · rename_i hsame
    rw [hsame]
    intro h
    have hlength := congrArg String.length h
    simp only [String.length_append] at hlength
    have hshort : "_id".length = 3 := rfl
    have hlong : "_id_2".length = 5 := rfl
    omega
  · assumption

end Schema

end Relations
end Biggy
