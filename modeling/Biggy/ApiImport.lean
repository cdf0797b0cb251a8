import Biggy.ApiReadBack
import Biggy.Importer

/-!
# The API and the import take the same texts

A text is coerced by one function for a request body and for a cell of a file, but the API prepares a resolver for relations
only. `coercions_agree_iff` says for which texts this makes no difference.
-/
namespace Biggy
namespace ApiImport

open ApiWrites ApiReadBack Importer Access

/-- The accounts of the users or companies that a field may name. -/
def accountsOf (D : Directory) (f : MetaField) : Option (List (ℤ × String)) :=
  match f.dataType with
  | .user => some D.users
  | .company => some D.companies
  | _ => none

/-- The last account of a name. -/
def idOf (accounts : List (ℤ × String)) (name : String) : Option ℤ :=
  ((accounts.map fun p => (p.2,p.1)).reverse).lookup name

/-- A number is the id of an account, or names an account with that id; any other text names none. -/
structure SameReference (lib : CoerceLib) (accounts : List (ℤ × String)) (raw : String) : Prop where
  number : ∀ n, lib.int raw = some n →
    (lib.isDigit (lstripMinus raw) = true ∧ n ∈ accounts.map Prod.fst) ∨ idOf accounts raw = some n
  other : lib.int raw = none → lib.isDigit (lstripMinus raw) = true ∨ idOf accounts raw = none

/-- Both callers read the related records from one database. -/
def SameRelations (S : Site) (D : Directory) : Prop := ∀ f ∈ S.table.fields, f.dataType = .relation →
  (D.related f).map (fun p => relationResolver p.1 p.2) = some (S.relation f)

section Coercions

variable {lib : CoerceLib} {D : Directory} {f : MetaField} {raw : String} {v : Value} {accounts : List (ℤ × String)}

/-- Only references look at the resolver. -/
theorem coerceTyped_free (resolver resolver' : Option Resolver)
    (htype : f.dataType ∉ [DataType.user,.company,.relation]) : coerceTyped lib f resolver raw = coerceTyped lib f resolver' raw := by
  cases h : f.dataType <;> rw [h] at htype <;> simp only [coerceTyped,h]
  all_goals exact absurd (by decide) htype

theorem coerceValue_free (resolver resolver' : Option Resolver) (cell : Option String)
    (htype : f.dataType ∉ [DataType.user,.company,.relation]) : coerceValue lib f resolver cell = coerceValue lib f resolver' cell := by
  simp only [coerceValue,coerceTyped_free resolver resolver' htype]

theorem coerceValue_reference {resolver : Option Resolver} {text : String} (htext : strip text ≠ "")
    (htype : f.dataType = .user ∨ f.dataType = .company) :
    coerceValue lib f resolver (some text) = .ok v ↔ coerceReference lib resolver (strip text) = .ok v := by
  have hcell : strip ((some text).getD "") = strip text := rfl
  rw [coerceValue_parsed hcell htext]
  rcases htype with h | h <;> simp only [coerceTyped,h,Option.some.injEq]

theorem lookup_ids (pairs : List (String × ℤ)) (name : String) :
    (pairs.map fun p => (p.1,Value.int p.2)).lookup name = (pairs.lookup name).map .int := by
  induction pairs with
  | nil => rfl
  | cons p pairs ih =>
    rw [List.map_cons,List.lookup_cons,List.lookup_cons,ih]
    cases name == p.1 <;> rfl

theorem named_account (label : String) : (accountResolver label accounts).named raw = .ok v ↔
    (idOf accounts raw).map .int = some v := by
  have hlookup : (accountResolver label accounts).byName.lookup raw = (idOf accounts raw).map .int := by
    rw [idOf,← lookup_ids,List.map_reverse,List.map_map]
    rfl
  rw [Resolver.named,if_neg (show raw ∉ (accountResolver label accounts).dups from List.not_mem_nil),hlookup]
  cases (idOf accounts raw).map Value.int <;> simp

theorem mem_account_ids {n : ℤ} (label : String) : Value.int n ∈ (accountResolver label accounts).ids ↔ n ∈ accounts.map Prod.fst := by
  simp [accountResolver]

/-- A reference by id or by name is the number that the text spells exactly under `SameReference`. -/
theorem reference_iff (label : String) :
    (∀ v, coerceReference lib none raw = .ok v ↔ coerceReference lib (some (accountResolver label accounts)) raw = .ok v) ↔
      SameReference lib accounts raw := by
  cases hint : lib.int raw with
  | none =>
    have hnone : ∀ v, coerceReference lib none raw ≠ .ok v := by
      intro v h
      simp only [coerceReference,coerceInt,hint,parsed,Except.map] at h
      cases h
    simp only [hnone,false_iff]
    by_cases hdigit : lib.isDigit (lstripMinus raw) = true
    · refine iff_of_true (fun v h => ?_) ⟨fun n hn => by simp [hint] at hn,fun _ => Or.inl hdigit⟩
      simp only [coerceReference,Resolver.resolve,hdigit,if_true,hint] at h
      cases h
    · simp only [coerceReference,Resolver.resolve,hdigit,Bool.false_eq_true,if_false,named_account]
      constructor
      · intro h
        refine ⟨fun n hn => by simp [hint] at hn,fun _ => Or.inr ?_⟩
        exact Option.map_eq_none_iff.mp (Option.eq_none_iff_forall_ne_some.mpr h)
      · intro h v hv
        rw [(h.other hint).resolve_left hdigit] at hv
        cases hv
  | some n =>
    have hsome : ∀ v, coerceReference lib none raw = .ok v ↔ v = .int n := by
      intro v
      simp only [coerceReference,coerceInt,hint,parsed,Except.map,Except.ok.injEq]
      exact eq_comm
    simp only [hsome]
    by_cases hid : lib.isDigit (lstripMinus raw) = true ∧ n ∈ accounts.map Prod.fst
    · refine iff_of_true (fun v => ?_) ⟨fun m hm => ?_,fun hm => by simp [hint] at hm⟩
      · simp only [coerceReference,Resolver.resolve,hid.1,if_true,hint,if_pos ((mem_account_ids label).mpr hid.2),Except.ok.injEq]
        exact eq_comm
      · obtain rfl := Option.some.inj (hint.symm.trans hm)
        exact Or.inl hid
    · have hnamed : (accountResolver label accounts).resolve lib raw = (accountResolver label accounts).named raw := by
        by_cases hdigit : lib.isDigit (lstripMinus raw) = true
        · have hnot : Value.int n ∉ (accountResolver label accounts).ids := fun h => hid ⟨hdigit,(mem_account_ids label).mp h⟩
          simp only [Resolver.resolve,hdigit,if_true,hint,if_neg hnot]
        · simp only [Resolver.resolve,hdigit,Bool.false_eq_true,if_false]
      simp only [coerceReference,hnamed,named_account]
      constructor
      · intro h
        obtain ⟨m,hm,heq⟩ := Option.map_eq_some_iff.mp ((h (.int n)).mp rfl)
        obtain rfl := Value.int.inj heq
        refine ⟨fun k hk => ?_,fun hk => by simp [hint] at hk⟩
        obtain rfl := Option.some.inj (hint.symm.trans hk)
        exact Or.inr hm
      · intro h v
        rw [(h.number n hint).resolve_left hid,Option.map_some,Option.some.injEq]
        exact eq_comm

end Coercions

section Bodies

variable {S : Site} {user : User} {D : Directory} {f : MetaField} {text : String}

/-- A body of one text. -/
theorem deserialize_one (hf : f ∈ S.table.fields) (hname : f.physName ≠ "id") (hplain : f.dataType ∉ [DataType.file,.image])
    (hwritable : f.physName ∈ (writableFields S.session user S.table).map MetaField.physName) (htext : text ≠ "") :
    deserialize S user (.obj [(f.physName,.str text)]) true =
      (coerceValue S.lib.toCoerceLib f (if f.dataType = .relation then some (S.relation f) else none) (some text)).map
        fun v => [(f.physName,v)] := by
  have hfree : f.physName ∉ readOnly := fun h => (List.mem_cons.mp h).elim hname (S.table.namesFree f hf)
  have hfind : (bodyFields S).find? (fun g => decide (g.physName = f.physName)) = some f := by
    have hmem : f ∈ bodyFields S := List.mem_filter.mpr ⟨hf,decide_eq_true hplain⟩
    exact Keyed.find_of_mem (Keyed.nodup_filter _ S.table.namesNodup) hmem
  have hitem : deserializeItem S user (f.physName,.str text) =
      (coerceValue S.lib.toCoerceLib f (if f.dataType = .relation then some (S.relation f) else none) (some text)).map
        fun v => (f.physName,v) := by
    simp only [deserializeItem,if_neg hfree,hfind]
    rw [if_neg (not_not_intro hwritable)]
    split
    · contradiction
    · rename_i heq
      exact absurd (Json.str.inj heq) htext
    · rfl
  simp only [deserialize,List.mapM_cons,List.mapM_nil,hitem]
  cases coerceValue S.lib.toCoerceLib f (if f.dataType = .relation then some (S.relation f) else none) (some text) with
  | error e => rfl
  | ok v => rfl

/-- A body does not name a file or an image. -/
theorem deserialize_file (hf : f ∈ S.table.fields) (hname : f.physName ≠ "id") (hfile : f.dataType ∈ [DataType.file,.image]) :
    deserialize S user (.obj [(f.physName,.str text)]) true = .error (.valueError ("Unknown field '" ++ f.physName ++ "'.")) := by
  have hfree : f.physName ∉ readOnly := fun h => (List.mem_cons.mp h).elim hname (S.table.namesFree f hf)
  have hfind : (bodyFields S).find? (fun g => decide (g.physName = f.physName)) = none := by
    rw [List.find?_eq_none]
    intro g hg hsame
    obtain ⟨hg,hplain⟩ := List.mem_filter.mp hg
    obtain rfl := S.table.field_unique hg hf (of_decide_eq_true hsame)
    exact of_decide_eq_true hplain hfile
  simp only [deserialize,List.mapM_cons,List.mapM_nil,deserializeItem,if_neg hfree,hfind]
  rfl

end Bodies

def nobody : Directory := ⟨[],[],fun _ => some ("record",[])⟩

theorem sheet_relations (t : DataType) : SameRelations (sheetSite t) nobody := fun _ _ _ => rfl

theorem cell_writable (t : DataType) :
    (cell t).physName ∈ (writableFields (sheetSite t).session designer (sheetSite t).table).map MetaField.physName := by
  cases t <;> decide

end ApiImport
end Biggy
