import Biggy.Relations
import Biggy.SchemaNames
import Mathlib.Data.String.Basic
import Mathlib.Data.Sym.Sym2

/-!
# Names of junction tables

`junctionName` joins the names of two tables with a character that the names may have themselves and cuts the name off.
`junction_apart_iff` says which pairs of tables share a junction.
-/
namespace Biggy
namespace JunctionNames

open SchemaInference Relations

/-! ### Joined texts that are cut off -/

section Joined

variable {α : Type*} {s : α} {n : ℕ} {a b c d : List α}

/-- The second text goes on behind the separator where the first one ends, and the rest is the same as far as it is kept. -/
def Continues (s : α) (n : ℕ) (a b c d : List α) : Prop :=
  ∃ w, c = a++s::w ∧ b.take (n-1-a.length) = (w++s::d).take (n-1-a.length)

/-- Joined texts that are cut off agree where their first parts are the same, or one goes on where the other one ends. -/
theorem take_joined (ha : a.length < n) (hc : c.length < n) : (a++s::b).take n = (c++s::d).take n ↔
    a = c ∧ b.take (n-1-a.length) = d.take (n-1-a.length) ∨ Continues s n a b c d ∨ Continues s n c d a b := by
  induction a generalizing n c with
  | nil =>
    obtain ⟨m,rfl⟩ : ∃ m, n = m+1 := ⟨n-1,by rw [List.length_nil] at ha; omega⟩
    cases c with
    | nil => simp [Continues]
    | cons y c =>
      simp only [Continues,List.nil_append,List.cons_append,List.take_succ_cons,List.cons.injEq,List.length_nil,
        Nat.add_sub_cancel,Nat.sub_zero,reduceCtorEq,false_and,exists_false,or_false,false_or]
      constructor
      · rintro ⟨rfl,hrest⟩
        exact ⟨c,⟨rfl,rfl⟩,hrest⟩
      · rintro ⟨w,⟨rfl,rfl⟩,hrest⟩
        exact ⟨rfl,hrest⟩
  | cons x a ih =>
    obtain ⟨m,rfl⟩ : ∃ m, n = m+1 := ⟨n-1,by rw [List.length_cons] at ha; omega⟩
    cases c with
    | nil =>
      simp only [Continues,List.nil_append,List.cons_append,List.take_succ_cons,List.cons.injEq,List.length_nil,
        Nat.add_sub_cancel,Nat.sub_zero,reduceCtorEq,false_and,exists_false,false_or]
      constructor
      · rintro ⟨rfl,hrest⟩
        exact ⟨a,⟨rfl,rfl⟩,hrest.symm⟩
      · rintro ⟨w,⟨rfl,rfl⟩,hrest⟩
        exact ⟨rfl,hrest.symm⟩
    | cons y c =>
      rw [List.length_cons] at ha hc
      have hstep := ih (n:=m) (c:=c) (by omega) (by omega)
      have hlength (k : ℕ) : m+1-1-(k+1) = m-1-k := by omega
      simp only [Continues,List.cons_append,List.take_succ_cons,List.cons.injEq,List.length_cons,hlength] at hstep ⊢
      rw [hstep]
      constructor
      · rintro ⟨rfl,⟨rfl,hrest⟩ | ⟨w,rfl,hrest⟩ | ⟨w,rfl,hrest⟩⟩
        · exact Or.inl ⟨⟨rfl,rfl⟩,hrest⟩
        · exact Or.inr (Or.inl ⟨w,⟨rfl,rfl⟩,hrest⟩)
        · exact Or.inr (Or.inr ⟨w,⟨rfl,rfl⟩,hrest⟩)
      · rintro (⟨⟨rfl,rfl⟩,hrest⟩ | ⟨w,⟨rfl,rfl⟩,hrest⟩ | ⟨w,⟨rfl,rfl⟩,hrest⟩)
        · exact ⟨rfl,Or.inl ⟨rfl,hrest⟩⟩
        · exact ⟨rfl,Or.inr (Or.inl ⟨w,rfl,hrest⟩)⟩
        · exact ⟨rfl,Or.inr (Or.inr ⟨w,rfl,hrest⟩)⟩

end Joined

/-! ### Pairs of tables -/

section Names

variable {lib : NameLib} {name : String}

theorem strip_feed {cs : List Char} (h : ∀ c ∈ cs, isWord c = true) : strip (String.ofList (cs++ ['\n'])) = String.ofList cs := by
  have hplain := strip_word (s:=String.ofList cs) (by rwa [String.toList_ofList])
  cases cs with
  | nil => rfl
  | cons c cs =>
    have hspace : isSpace c = false := word_not_space (h c List.mem_cons_self)
    rw [strip,String.toList_ofList] at hplain ⊢
    rw [List.dropWhile_cons_of_neg (by simp [hspace])] at hplain
    rw [List.cons_append,List.dropWhile_cons_of_neg (by simp [hspace]),← List.cons_append,List.reverse_append]
    exact hplain

theorem identifier_of (h : isIdentifier name = true) :
    Identifier name ∨ ∃ cs, name.toList = cs++ ['\n'] ∧ ∀ c ∈ cs, isWord c = true := by
  obtain ⟨d,ds,hshape,hd,hds⟩ : ∃ d ds, (if name.toList.getLast? = some '\n' then name.toList.dropLast else name.toList) = d::ds ∧
      isLower d = true ∧ ∀ c ∈ ds, isWord c = true := by
    rw [isIdentifier] at h
    cases hcs : (if name.toList.getLast? = some '\n' then name.toList.dropLast else name.toList) with
    | nil =>
      simp only [hcs] at h
      cases h
    | cons d ds =>
      simp only [hcs] at h
      exact ⟨d,ds,rfl,by simpa [List.all_eq_true,isWord] using h⟩
  by_cases hlast : name.toList.getLast? = some '\n'
  · rw [if_pos hlast] at hshape
    refine Or.inr ⟨_,(List.dropLast_append_getLast? _ hlast).symm,?_⟩
    rw [hshape]
    exact List.forall_mem_cons.mpr ⟨word_of_lower hd,hds⟩
  · rw [if_neg hlast] at hshape
    exact Or.inl ⟨d,ds,hshape,hd,hds⟩

instance : Decidable (Identifier name) :=
  decidable_of_iff (name.toList.head?.any isLower = true ∧ name.toList.tail.all isWord = true) (by
    rw [Identifier]
    cases name.toList with
    | nil => simp
    | cons c cs => simp)

instance : Decidable (TableName name) :=
  decidable_of_iff (Identifier name ∧ name.length ≤ maxLen ∧ reservedPrefixes.any (startsWith name) = false)
    ⟨fun h => ⟨h.1,h.2.1,h.2.2⟩,fun h => ⟨h.identifier,h.short,h.free⟩⟩

/-- `validate_identifier` leaves just these names as they are. -/
theorem validateIdentifier_iff : validateIdentifier lib.toLib name = .ok name ↔ TableName name := by
  constructor
  · intro h
    rw [validateIdentifier] at h
    split_ifs at h with hempty hlong hword hfree
    have hnorm : SchemaInference.normalize lib.toLib name = name := Except.ok.inj h
    rw [hnorm] at hlong hword hfree
    refine ⟨?_,not_lt.mp hlong,Bool.eq_false_iff.mpr hfree⟩
    rcases identifier_of (by simpa using hword) with hname | ⟨cs,hname,hcs⟩
    · exact hname
    · exfalso
      have hstrip : strip name = String.ofList cs := by
        rw [← strip_feed hcs,← hname,String.ofList_toList]
      rw [SchemaInference.normalize,hstrip,lib.lowercase_word _ (by rwa [String.toList_ofList])] at hnorm
      rw [← hnorm,String.toList_ofList] at hname
      simpa using congrArg List.length hname
  · exact validateIdentifier_table

end Names

/-- `sorted([table_a, table_b])`. -/
def sorted (a b : String) : String × String := if b < a then (b,a) else (a,b)

variable {a b c d : String}

theorem sorted_eq_iff : sorted a b = sorted c d ↔ s(a,b) = s(c,d) := by
  rw [Sym2.eq_iff,sorted,sorted]
  split_ifs with hba hdc hdc <;> simp only [Prod.mk.injEq]
  · constructor
    · rintro ⟨rfl,rfl⟩
      exact Or.inl ⟨rfl,rfl⟩
    · rintro (⟨rfl,rfl⟩ | ⟨rfl,rfl⟩)
      · exact ⟨rfl,rfl⟩
      · exact absurd hba (lt_asymm hdc)
  · constructor
    · rintro ⟨rfl,rfl⟩
      exact Or.inr ⟨rfl,rfl⟩
    · rintro (⟨rfl,rfl⟩ | ⟨rfl,rfl⟩)
      · exact absurd hba hdc
      · exact ⟨rfl,rfl⟩
  · constructor
    · rintro ⟨rfl,rfl⟩
      exact Or.inr ⟨rfl,rfl⟩
    · rintro (⟨rfl,rfl⟩ | ⟨rfl,rfl⟩)
      · exact absurd hdc hba
      · exact ⟨rfl,rfl⟩
  · constructor
    · exact Or.inl
    · rintro (hsame | ⟨rfl,rfl⟩)
      · exact hsame
      · have hsame := le_antisymm (not_lt.mp hba) (not_lt.mp hdc)
        exact ⟨hsame,hsame.symm⟩

theorem junctionName_sorted (a b : String) : (junctionName a b).toList =
    'j' :: '_' :: ((sorted a b).1.toList++ '_' :: (sorted a b).2.toList).take 62 := by
  rw [junctionName,sorted]
  split_ifs <;> simp [toList_clip]

theorem sorted_short (ha : TableName a) (hb : TableName b) : (sorted a b).1.toList.length < 62 := by
  have hmax : maxLen = 60 := rfl
  have hshort := ha.short
  have hshort' := hb.short
  rw [sorted]
  split_ifs
  · show b.toList.length < 62
    rw [String.length_toList]
    omega
  · show a.toList.length < 62
    rw [String.length_toList]
    omega

/-- Two pairs whose joined names differ behind the 62 characters that are kept, or only in which underscore joins them. -/
def Collide (p q : String × String) : Prop :=
  p.1 = q.1 ∧ p.2 ≠ q.2 ∧ p.2.toList.take (61-p.1.length) = q.2.toList.take (61-p.1.length) ∨
    Continues '_' 62 p.1.toList p.2.toList q.1.toList q.2.toList ∨ Continues '_' 62 q.1.toList q.2.toList p.1.toList p.2.toList

theorem Continues.ne {p q : String} {b d : List Char} {n : ℕ} (h : Continues '_' n p.toList b q.toList d) : p ≠ q := by
  rintro rfl
  obtain ⟨w,hw,-⟩ := h
  have hlength := congrArg List.length hw
  rw [List.length_append,List.length_cons] at hlength
  omega

theorem junctionName_eq_iff (ha : TableName a) (hb : TableName b) (hc : TableName c) (hd : TableName d) :
    junctionName a b = junctionName c d ↔ sorted a b = sorted c d ∨ Collide (sorted a b) (sorted c d) := by
  rw [← String.toList_inj,junctionName_sorted,junctionName_sorted,List.cons.injEq,List.cons.injEq,
    take_joined (sorted_short ha hb) (sorted_short hc hd),Collide,String.toList_inj,String.length_toList,Prod.ext_iff]
  simp only [true_and,show 62-1 = 61 from rfl]
  constructor
  · rintro (⟨hfirst,hsecond⟩ | hcontinues)
    · by_cases hsame : (sorted a b).2 = (sorted c d).2
      · exact Or.inl ⟨hfirst,hsame⟩
      · exact Or.inr (Or.inl ⟨hfirst,hsame,hsecond⟩)
    · exact Or.inr (Or.inr hcontinues)
  · rintro (⟨hfirst,hsecond⟩ | ⟨hfirst,-,hsecond⟩ | hcontinues)
    · exact Or.inl ⟨hfirst,by rw [hsecond]⟩
    · exact Or.inl ⟨hfirst,hsecond⟩
    · exact Or.inr hcontinues

theorem Collide.ne {p q : String × String} (h : Collide p q) : p ≠ q := by
  rintro rfl
  rcases h with ⟨-,hne,-⟩ | hcontinues | hcontinues
  · exact hne rfl
  · exact hcontinues.ne rfl
  · exact hcontinues.ne rfl

/-- Two pairs of tables share a junction only if they are the same, exactly when they do not collide. -/
theorem junction_apart_iff (a b c d : String) (ha : TableName a) (hb : TableName b) (hc : TableName c) (hd : TableName d) :
    (junctionName a b = junctionName c d → s(a,b) = s(c,d)) ↔ ¬Collide (sorted a b) (sorted c d) := by
  rw [junctionName_eq_iff ha hb hc hd,← sorted_eq_iff]
  constructor
  · intro happart hcollide
    exact hcollide.ne (happart (Or.inr hcollide))
  · rintro hapart (hsame | hcollide)
    · exact hsame
    · exact absurd hcollide hapart

theorem collide_split : Collide (sorted "x_y" "z") (sorted "x" "y_z") := by
  by_contra happart
  have hsame := (junction_apart_iff "x_y" "z" "x" "y_z" (by decide) (by decide) (by decide) (by decide)).mpr happart (by decide)
  exact absurd hsame (by decide)

theorem one_junction : ¬∀ a b c d : String, TableName a → TableName b → TableName c → TableName d →
    junctionName a b = junctionName c d → s(a,b) = s(c,d) := by
  intro hall
  have hsame := hall "x_y" "z" "x" "y_z" (by decide) (by decide) (by decide) (by decide) (by decide)
  exact absurd hsame (by decide)

end JunctionNames
end Biggy
