import Biggy.Allotment
import Biggy.SchemaInference
import Mathlib.Data.List.NodupEquivFin

/-!
# Names of the columns of a file

`infer_schema` makes a name of each header and numbers it where another column has it. `infers_named_iff` says when this search
comes to an end and all names are identifiers that the designer may use.
-/
namespace Biggy
namespace SchemaInference

open Numerals Importer Allotment

def isWord (c : Char) : Bool := isLower c || isDigit c || c == '_'

/-- `^[a-z][a-z0-9_]*$` without a line feed at the end. -/
def Identifier (name : String) : Prop :=
  ∃ c cs, name.toList = c::cs ∧ isLower c = true ∧ ∀ d ∈ cs, isWord d = true

/-- A name that a column of the designer may have. -/
structure ValidName (name : String) : Prop where
  identifier : Identifier name
  short : name.length ≤ maxLen
  unreserved : name ∉ reservedColumns
  free : reservedPrefixes.any (startsWith name) = false

/-- A name that a table of the designer may have. -/
structure TableName (name : String) : Prop where
  identifier : Identifier name
  short : name.length ≤ maxLen
  free : reservedPrefixes.any (startsWith name) = false

/-- `str.lower` leaves a text of small letters, digits and underscores alone. -/
structure NameLib extends Lib where
  lowercase_word : ∀ s : String, (∀ c ∈ s.toList, isWord c = true) → lowercase s = s

/-! ### Identifiers -/

section Identifiers

variable {s name : String} {c : Char} {cs : List Char}

theorem word_of_lower (h : isLower c = true) : isWord c = true := by simp [isWord,h]

theorem Identifier.word (h : Identifier name) : ∀ c ∈ name.toList, isWord c = true := by
  obtain ⟨c,cs,hname,hc,hcs⟩ := h
  rw [hname]
  exact List.forall_mem_cons.mpr ⟨word_of_lower hc,hcs⟩

theorem isIdentifier_of (h : Identifier name) : isIdentifier name = true := by
  obtain ⟨c,cs,hname,hc,hcs⟩ := h
  have hlast : (c::cs).getLast? ≠ some '\n' := by
    intro hlast
    have hword : isWord '\n' = true := by
      rcases List.mem_cons.mp (List.mem_of_getLast? hlast) with rfl | hmem
      · exact word_of_lower hc
      · exact hcs _ hmem
    exact absurd hword (by decide)
  have hall : (cs.all fun c => isLower c || isDigit c || c == '_') = true := List.all_eq_true.mpr hcs
  simp only [isIdentifier,hname,if_neg hlast,hc,hall,Bool.and_self]

theorem word_range (h : isWord c = true) :
    c.toNat = 95 ∨ (48 ≤ c.toNat ∧ c.toNat ≤ 57) ∨ (97 ≤ c.toNat ∧ c.toNat ≤ 122) := by
  simp only [isWord,isLower,isDigit,Bool.or_eq_true,Bool.and_eq_true,decide_eq_true_eq,beq_iff_eq] at h
  rcases h with (⟨hlow,hhigh⟩ | ⟨hlow,hhigh⟩) | rfl
  · exact Or.inr (Or.inr ⟨hlow,hhigh⟩)
  · exact Or.inr (Or.inl ⟨hlow,hhigh⟩)
  · exact Or.inl rfl

theorem word_not_space (h : isWord c = true) : isSpace c = false := by
  have hrange := word_range h
  simp only [isSpace,Bool.or_eq_false_iff,Bool.and_eq_false_iff,decide_eq_false_iff_not,beq_eq_false_iff_ne]
  omega

theorem strip_word (h : ∀ c ∈ s.toList, isWord c = true) : strip s = s := by
  have hdrop : ∀ cs : List Char, (∀ c ∈ cs, isWord c = true) → cs.dropWhile isSpace = cs := by
    intro cs hcs
    cases cs with
    | nil => rfl
    | cons c cs => exact List.dropWhile_cons_of_neg (by simp [word_not_space (hcs c List.mem_cons_self)])
  rw [strip,hdrop _ h,hdrop _ fun c hc => h c (List.mem_reverse.mp hc),List.reverse_reverse,String.ofList_toList]

theorem toList_clip (n : ℕ) (s : String) : (clip n s).toList = s.toList.take n := by rw [clip,String.toList_ofList]

theorem length_clip (n : ℕ) (s : String) : (clip n s).length ≤ n := by
  rw [← String.length_toList,toList_clip,List.length_take]
  exact min_le_left _ _

theorem Identifier.clip (h : Identifier name) : Identifier (clip maxLen name) := by
  obtain ⟨c,cs,hname,hc,hcs⟩ := h
  refine ⟨c,cs.take 59,?_,hc,fun d hd => hcs d (List.mem_of_mem_take hd)⟩
  rw [toList_clip,hname]
  rfl

theorem replaceGaps_word (cs : List Char) (gap : Bool) : ∀ c ∈ replaceGaps gap cs, isWord c = true := by
  induction cs generalizing gap with
  | nil => simp [replaceGaps]
  | cons c cs ih =>
    rw [replaceGaps]
    split
    · rename_i hkeep
      have hword : isWord c = true := by simp only [isWord,hkeep,Bool.true_or]
      exact List.forall_mem_cons.mpr ⟨hword,ih false⟩
    · split
      · exact ih true
      · exact List.forall_mem_cons.mpr ⟨rfl,ih true⟩

/-- A text of such characters is an identifier, with `c_` before it where it needs a letter. -/
theorem identifier_lettered (h : ∀ c ∈ s.toList, isWord c = true) :
    Identifier (if s.toList.head?.any isLower then s else "c_" ++ s) := by
  split
  · rename_i hhead
    obtain ⟨c,hc,hlower⟩ := (Option.any_eq_true _ _).mp hhead
    obtain ⟨cs,hcs⟩ := List.head?_eq_some_iff.mp hc
    exact ⟨c,cs,hcs,hlower,fun d hd => h d (hcs ▸ List.mem_cons_of_mem c hd)⟩
  · refine ⟨'c','_'::s.toList,by rw [String.toList_append]; rfl,rfl,?_⟩
    exact List.forall_mem_cons.mpr ⟨rfl,h⟩

/-- A reserved name loses its reservation behind `x_`. -/
theorem dodged_valid (h : Identifier name) (hshort : name.length ≤ maxLen) :
    ValidName (if name ∈ reservedColumns ∨ reservedPrefixes.any (startsWith name) then clip maxLen ("x_" ++ name) else name) := by
  split
  · have hlist : (clip maxLen ("x_" ++ name)).toList = 'x':: '_'::name.toList.take 58 := by
      rw [toList_clip,String.toList_append]
      rfl
    refine ⟨⟨'x','_'::name.toList.take 58,hlist,rfl,?_⟩,length_clip _ _,?_,?_⟩
    · exact List.forall_mem_cons.mpr ⟨rfl,fun c hc => h.word c (List.mem_of_mem_take hc)⟩
    · intro hmem
      have hhead : ∀ r ∈ reservedColumns, r.toList.head? ≠ some 'x' := by decide
      exact hhead _ hmem (by rw [hlist]; rfl)
    · simp only [reservedPrefixes,List.any_cons,List.any_nil,startsWith,hlist]
      rfl
  · rename_i hplain
    obtain ⟨hcolumn,hstart⟩ := not_or.mp hplain
    exact ⟨h,hshort,hcolumn,Bool.eq_false_iff.mpr hstart⟩

end Identifiers

/-! ### The names that are tried -/

section Base

variable {lib : NameLib} {raw name : String}

theorem validateIdentifier_table (h : TableName name) : validateIdentifier lib.toLib name = .ok name := by
  have hword := h.identifier.word
  have hnorm : normalize lib.toLib name = name := by rw [normalize,strip_word hword,lib.lowercase_word name hword]
  have hne : name ≠ "" := by
    rintro rfl
    obtain ⟨c,cs,hname,-⟩ := h.identifier
    cases hname
  simp only [validateIdentifier,hnorm,if_neg hne,if_neg (Nat.not_lt.mpr h.short),isIdentifier_of h.identifier,h.free]
  rfl

theorem validateIdentifier_valid (h : ValidName name) : validateIdentifier lib.toLib name = .ok name :=
  validateIdentifier_table ⟨h.identifier,h.short,h.free⟩

/-- Every text gives a valid name. -/
theorem sanitizeIdentifier_ok (raw : String) : ∃ base, sanitizeIdentifier lib.toLib raw = .ok base ∧ ValidName base := by
  let kept := String.ofList
    (((replaceGaps false (normalize lib.toLib raw).toList).dropWhile (· = '_')).rdropWhile (· = '_'))
  let filled := if kept = "" then "col" else kept
  let lettered := if filled.toList.head?.any isLower then filled else "c_" ++ filled
  have hkept : ∀ c ∈ kept.toList, isWord c = true := by
    intro c hc
    rw [String.toList_ofList] at hc
    exact replaceGaps_word _ _ c ((List.dropWhile_suffix _).subset ((List.rdropWhile_prefix _ _).subset hc))
  have hfilled : ∀ c ∈ filled.toList, isWord c = true := by
    simp only [filled]
    split
    · exact List.all_eq_true.mp (by decide)
    · exact hkept
  have hvalid := dodged_valid (identifier_lettered hfilled).clip (length_clip maxLen _)
  exact ⟨_,validateIdentifier_valid hvalid,hvalid⟩

/-- A valid name without underscores stays as it is. -/
theorem sanitizeIdentifier_plain (h : ValidName name) (hplain : ∀ c ∈ name.toList, c ≠ '_') :
    sanitizeIdentifier lib.toLib name = .ok name := by
  have hword := h.identifier.word
  have hnorm : normalize lib.toLib name = name := by rw [normalize,strip_word hword,lib.lowercase_word name hword]
  have hgaps : ∀ cs : List Char, (∀ c ∈ cs, isWord c = true) → (∀ c ∈ cs, c ≠ '_') → replaceGaps false cs = cs := by
    intro cs hcs hplain
    induction cs with
    | nil => rfl
    | cons c cs ih =>
      have hkeep : (isLower c || isDigit c) = true := by
        have hc := hcs c List.mem_cons_self
        rw [isWord,Bool.or_eq_true,beq_iff_eq] at hc
        exact hc.resolve_right (hplain c List.mem_cons_self)
      rw [replaceGaps,if_pos hkeep,ih (List.forall_mem_cons.mp hcs).2 (List.forall_mem_cons.mp hplain).2]
  have hleft : name.toList.dropWhile (· = '_') = name.toList := by
    rw [List.dropWhile_eq_self_iff]
    exact fun hlen => by simpa using hplain _ (List.getElem_mem hlen)
  have hright : name.toList.rdropWhile (· = '_') = name.toList := by
    rw [List.rdropWhile_eq_self_iff]
    exact fun hne => by simpa using hplain _ (List.getLast_mem hne)
  obtain ⟨c,cs,hname,hc,-⟩ := h.identifier
  have hne : name ≠ "" := by
    rintro rfl
    cases hname
  have hhead : name.toList.head?.any isLower = true := by
    rw [hname]
    exact hc
  have hclip : clip maxLen name = name := by
    rw [clip,List.take_of_length_le (by rw [String.length_toList]; exact h.short),String.ofList_toList]
  have hfree : ¬(name ∈ reservedColumns ∨ reservedPrefixes.any (startsWith name) = true) :=
    not_or.mpr ⟨h.unreserved,Bool.eq_false_iff.mp h.free⟩
  simp only [sanitizeIdentifier,hnorm,hgaps _ hword hplain,hleft,hright,String.ofList_toList,if_neg hne,if_pos hhead,hclip,
    if_neg hfree]
  exact validateIdentifier_valid h

/-- The name that a header stands for; a blank one gets its number. -/
def baseOf (lib : NameLib) (i : ℕ) (header : String) : String :=
  ((sanitizeIdentifier lib.toLib (if header = "" then "col_" ++ toString (i+1) else header)).toOption).getD ""

theorem sanitize_base (i : ℕ) (header : String) :
    sanitizeIdentifier lib.toLib (if header = "" then "col_" ++ toString (i+1) else header) = .ok (baseOf lib i header) ∧
      ValidName (baseOf lib i header) := by
  obtain ⟨base,hbase,hvalid⟩ := sanitizeIdentifier_ok (if header = "" then "col_" ++ toString (i+1) else header)
  have heq : baseOf lib i header = base := by
    rw [baseOf,hbase]
    rfl
  rw [heq]
  exact ⟨hbase,hvalid⟩

/-- The names that are tried for a base: the base itself, then with `_2`, `_3` and so on, cut to 60 characters. -/
def attempt (base : String) : ℕ → String
  | 0 => base
  | k+1 => clip maxLen (base ++ "_" ++ toString (k+2))

end Base

section Attempts

variable {base : String} {k : ℕ}

theorem toList_attempt (base : String) (k : ℕ) :
    (attempt base (k+1)).toList = (base.toList++ '_'::Nat.toDigits 10 (k+2)).take maxLen := by
  rw [attempt,toList_clip,String.toList_append,String.toList_append,List.append_assoc,Nat.toString_eq_ofList_toDigits,
    @String.toList_ofList (Nat.toDigits 10 (k+2))]
  rfl

theorem digit_of_mem {n : ℕ} {c : Char} (h : c ∈ Nat.toDigits 10 n) : isDigit c = true := by
  have hdigit := Nat.isDigit_of_mem_toDigits (by decide) (by decide) h
  simpa [isDigit,Char.isDigit,Char.le_def] using hdigit

/-- What is shorter than the limit has not been cut. -/
theorem attempt_uncut (h : (attempt base (k+1)).length < maxLen) :
    (attempt base (k+1)).toList = base.toList++ '_'::Nat.toDigits 10 (k+2) := by
  rw [← String.length_toList,toList_attempt,List.length_take] at h
  rw [toList_attempt]
  exact List.take_of_length_le (by omega)

theorem attempt_identifier (h : Identifier base) : Identifier (attempt base k) := by
  cases k with
  | zero => exact h
  | succ k =>
    obtain ⟨c,cs,hbase,hc,hcs⟩ := h
    refine ⟨c,(cs++ '_'::Nat.toDigits 10 (k+2)).take 59,?_,hc,?_⟩
    · rw [toList_attempt,hbase]
      rfl
    · intro d hd
      rcases List.mem_append.mp (List.mem_of_mem_take hd) with hd | hd
      · exact hcs d hd
      · rcases List.mem_cons.mp hd with rfl | hd
        · rfl
        · simp only [isWord,digit_of_mem hd,Bool.or_true,Bool.true_or]

theorem attempt_unreserved (h : base ∉ reservedColumns) : attempt base k ∉ reservedColumns := by
  cases k with
  | zero => exact h
  | succ k =>
    intro hmem
    have hcolumns : ∀ r ∈ reservedColumns, r.length < maxLen ∧ (r.toList.getLast?.all fun c => !isDigit c) = true := by
      decide
    obtain ⟨hshort,hlast⟩ := hcolumns _ hmem
    have hne : Nat.toDigits 10 (k+2) ≠ [] := Nat.toDigits_ne_nil
    rw [attempt_uncut hshort,List.getLast?_append_of_ne_nil _ (List.cons_ne_nil _ _),List.getLast?_cons_of_ne_nil hne,
      List.getLast?_eq_getLast_of_ne_nil hne,Option.all_some,digit_of_mem (List.getLast_mem hne)] at hlast
    cases hlast

/-- The words that a number turns into a reserved prefix. -/
def stems : List String := ["app","j"]

theorem stem_of_prefix {w b ds : List Char} (hw : '_' ∉ w) (hfree : ¬(w++['_']) <+: b) (h : (w++['_']) <+: b++ '_'::ds) :
    b = w := by
  rcases List.prefix_or_prefix_of_prefix h (List.prefix_append b _) with hlong | hshort
  · exact absurd hlong hfree
  · rcases List.prefix_concat_iff.mp hshort with rfl | ⟨rest,rfl⟩
    · exact absurd List.prefix_rfl hfree
    · rw [List.append_assoc,List.prefix_append_right_inj] at h
      cases rest with
      | nil => rw [List.append_nil]
      | cons c rest =>
        rw [List.cons_append,List.cons_prefix_cons] at h
        exact absurd (List.mem_append_right b (h.1 ▸ List.mem_cons_self)) hw

/-- A number makes a reserved prefix of these words only. -/
theorem attempt_free (hfree : reservedPrefixes.any (startsWith base) = false) (hstem : base ∉ stems) :
    reservedPrefixes.any (startsWith (attempt base k)) = false := by
  cases k with
  | zero => exact hfree
  | succ k =>
    have hplain : ∀ w ∈ stems, startsWith (attempt base (k+1)) (w ++ "_") = false := by
      intro w hw
      by_contra hstart
      have hprefix : (w.toList++['_']) <+: base.toList++ '_'::Nat.toDigits 10 (k+2) := by
        rw [Bool.not_eq_false,startsWith,toList_attempt,String.toList_append,List.isPrefixOf_iff_prefix] at hstart
        exact hstart.trans (List.take_prefix _ _)
      have hbase : ¬(w.toList++['_']) <+: base.toList := by
        intro hprefix
        have hmem : w ++ "_" ∈ reservedPrefixes := by
          rcases List.mem_pair.mp hw with rfl | rfl
          · exact List.mem_cons_self
          · exact List.mem_cons_of_mem _ List.mem_cons_self
        have hnot := List.any_eq_false.mp hfree _ hmem
        rw [startsWith,String.toList_append,List.isPrefixOf_iff_prefix] at hnot
        exact hnot hprefix
      have hword : ∀ w ∈ stems, '_' ∉ w.toList := by decide
      have heq := stem_of_prefix (hword w hw) hbase hprefix
      exact hstem (String.toList_inj.mp heq ▸ hw)
    exact List.any_eq_false.mpr fun p hp => by
      rcases List.mem_pair.mp hp with rfl | rfl
      · exact Bool.eq_false_iff.mp (hplain "app" List.mem_cons_self)
      · exact Bool.eq_false_iff.mp (hplain "j" (List.mem_cons_of_mem _ List.mem_cons_self))

theorem attempt_valid (h : ValidName base) (hstem : base ∈ stems → k = 0) : ValidName (attempt base k) := by
  cases k with
  | zero => exact h
  | succ k =>
    refine ⟨attempt_identifier h.identifier,length_clip _ _,attempt_unreserved h.unreserved,attempt_free h.free ?_⟩
    exact fun hmem => absurd (hstem hmem) (Nat.succ_ne_zero k)

theorem attempt_stem_invalid (h : base ∈ stems) : ¬ValidName (attempt base (k+1)) := by
  intro hvalid
  have hfree := List.any_eq_false.mp hvalid.free
  rcases List.mem_pair.mp h with rfl | rfl
  · have hstart : startsWith (attempt "app" (k+1)) "app_" = true := by
      rw [startsWith,toList_attempt]
      rfl
    exact hfree "app_" List.mem_cons_self hstart
  · have hstart : startsWith (attempt "j" (k+1)) "j_" = true := by
      rw [startsWith,toList_attempt]
      rfl
    exact hfree "j_" (List.mem_cons_of_mem _ List.mem_cons_self) hstart

/-- Such a word is no numbered form of another name. -/
theorem attempt_eq_stem {w : String} (hw : w ∈ stems) (h : attempt base k = w) : base = w := by
  cases k with
  | zero => exact h
  | succ k =>
    have hplain : ∀ w ∈ stems, w.length < maxLen ∧ '_' ∉ w.toList := by decide
    obtain ⟨hshort,hword⟩ := hplain w hw
    have huncut := attempt_uncut (h.symm ▸ hshort)
    rw [h] at huncut
    exact absurd (huncut ▸ List.mem_append_right _ List.mem_cons_self) hword

end Attempts

/-! ### The search -/

section Search

variable {lib : NameLib} {base name : String} {seen headers bs : List String} {fuel i k m : ℕ} {rows : List (List String)}

/-- What the search returns is free, and all that it has tried before is not. -/
theorem uniqueName_spec (h : uniqueName base seen fuel (k+2) (attempt base k) = some name) :
    ∃ m, name = attempt base m ∧ name ∉ seen ∧ ∀ l, k ≤ l → l < m → attempt base l ∈ seen := by
  induction fuel generalizing k with
  | zero =>
    rw [uniqueName] at h
    split at h
    · cases h
    · rename_i hfree
      obtain rfl := Option.some.inj h
      exact ⟨k,rfl,hfree,fun l hkl hlk => absurd hlk (Nat.not_lt.mpr hkl)⟩
  | succ fuel ih =>
    rw [uniqueName] at h
    split at h
    · rename_i hseen
      obtain ⟨m,hname,hfree,hbetter⟩ := @ih (k+1) h
      refine ⟨m,hname,hfree,fun l hkl hlm => ?_⟩
      rcases Nat.eq_or_lt_of_le hkl with rfl | hlt
      · exact hseen
      · exact hbetter l hlt hlm
    · rename_i hfree
      obtain rfl := Option.some.inj h
      exact ⟨k,rfl,hfree,fun l hkl hlk => absurd hlk (Nat.not_lt.mpr hkl)⟩

/-- The search comes to the first name that is free. -/
theorem uniqueName_finds (hfuel : m ≤ fuel) (hfree : attempt base (k+m) ∉ seen) (hbetter : ∀ l < m, attempt base (k+l) ∈ seen) :
    uniqueName base seen fuel (k+2) (attempt base k) = some (attempt base (k+m)) := by
  induction fuel generalizing k m with
  | zero =>
    obtain rfl := Nat.le_zero.mp hfuel
    have hfirst : attempt base k ∉ seen := hfree
    rw [uniqueName,if_neg hfirst,Nat.add_zero]
  | succ fuel ih =>
    cases m with
    | zero =>
      have hfirst : attempt base k ∉ seen := hfree
      rw [uniqueName,if_neg hfirst,Nat.add_zero]
    | succ m =>
      have hseen : attempt base k ∈ seen := hbetter 0 (Nat.succ_pos m)
      have hstep : ∀ l, k+1+l = k+(l+1) := fun l => by omega
      rw [uniqueName,if_pos hseen,← hstep m]
      refine ih (Nat.le_of_succ_le_succ hfuel) (by rwa [hstep]) fun l hl => ?_
      rw [hstep]
      exact hbetter (l+1) (Nat.succ_lt_succ hl)

/-- What the next header sees: the names from before and the one that is given now. -/
theorem seen_succ (hseen : ∀ x, x ∈ seen ↔ Taken attempt bs i x) (hgiven : Given attempt bs i name) :
    ∀ x, x ∈ name::seen ↔ Taken attempt bs (i+1) x := by
  intro x
  rw [List.mem_cons,taken_succ,hseen]
  constructor
  · rintro (rfl | hx)
    · exact Or.inr hgiven
    · exact Or.inl hx
  · rintro (hx | hx)
    · exact Or.inr hx
    · exact Or.inl (hx.unique hgiven)

/-- A run that ends has a column for each header, with the name that is given to it. -/
theorem columnsFrom_given (hbases : ∀ j h, headers[j]? = some h → bs[i+j]? = some (baseOf lib (i+j) h))
    (hseen : ∀ x, x ∈ seen ↔ Taken attempt bs i x) {result : Except PyError (List Column)}
    (h : columnsFrom lib.toLib fuel rows i seen headers = some result) :
    ∃ columns, result = .ok columns ∧ columns.map Column.header = headers ∧
      ∀ (j : ℕ) (c : Column), columns[j]? = some c → Given attempt bs (i+j) c.name := by
  induction headers generalizing i seen result with
  | nil =>
    rw [columnsFrom,Option.some.injEq] at h
    exact ⟨[],h.symm,rfl,fun j c hc => by simp at hc⟩
  | cons header headers ih =>
    have hbase : bs[i]? = some (baseOf lib i header) := hbases 0 header rfl
    rw [columnsFrom,(sanitize_base i header).1] at h
    cases hsearch : uniqueName (baseOf lib i header) seen fuel 2 (baseOf lib i header) with
    | none => simp only [hsearch,reduceCtorEq] at h
    | some name =>
      simp only [hsearch] at h
      obtain ⟨m,hname,hfree,hbetter⟩ := @uniqueName_spec _ name seen fuel 0 hsearch
      have hgiven : Given attempt bs i name :=
        ⟨_,m,hbase,hname,fun htaken => hfree ((hseen name).mpr htaken),fun l hl => (hseen _).mp (hbetter l (Nat.zero_le l) hl)⟩
      obtain ⟨found,hfound,rfl⟩ := Option.map_eq_some_iff.mp h
      have hshift : ∀ j, i+1+j = i+(j+1) := fun j => by omega
      have hrest : ∀ j h, headers[j]? = some h → bs[i+1+j]? = some (baseOf lib (i+1+j) h) := by
        intro j h hj
        rw [hshift]
        exact hbases (j+1) h hj
      obtain ⟨rest,rfl,hheaders,hnames⟩ := ih hrest (seen_succ hseen hgiven) hfound
      refine ⟨_,rfl,by rw [List.map_cons,hheaders],fun j c hc => ?_⟩
      cases j with
      | zero =>
        obtain rfl := Option.some.inj hc
        exact hgiven
      | succ j =>
        rw [← hshift]
        exact hnames j c hc

/-- Where no header finds all its names gone, the search ends. -/
theorem columnsFrom_ends (hbases : ∀ j h, headers[j]? = some h → bs[i+j]? = some (baseOf lib (i+j) h))
    (hseen : ∀ x, x ∈ seen ↔ Taken attempt bs i x) (hsupplied : Supplied attempt bs) :
    ∃ least, ∀ fuel ≥ least, ∃ columns, columnsFrom lib.toLib fuel rows i seen headers = some (.ok columns) := by
  induction headers generalizing i seen with
  | nil => exact ⟨0,fun fuel _ => ⟨[],by rw [columnsFrom]⟩⟩
  | cons header headers ih =>
    have hbase : bs[i]? = some (baseOf lib i header) := hbases 0 header rfl
    obtain ⟨name,b,m,hb,hname,hfree,hbetter⟩ := (given_iff hbase).mpr (hsupplied i _ hbase)
    obtain rfl := Option.some.inj (hb.symm.trans hbase)
    have hgiven : Given attempt bs i name := ⟨_,m,hbase,hname,hfree,hbetter⟩
    have hrest : ∀ j h, headers[j]? = some h → bs[i+1+j]? = some (baseOf lib (i+1+j) h) := by
      intro j h hj
      rw [Nat.add_assoc,Nat.add_comm 1 j]
      exact hbases (j+1) h hj
    obtain ⟨least,hleast⟩ := ih hrest (seen_succ hseen hgiven)
    refine ⟨max m least,fun fuel hfuel => ?_⟩
    obtain ⟨rest,htail⟩ := hleast fuel ((le_max_right _ _).trans hfuel)
    have hsearch : uniqueName (baseOf lib i header) seen fuel 2 (baseOf lib i header) = some name := by
      have hfinds := @uniqueName_finds (baseOf lib i header) seen fuel 0 m ((le_max_left _ _).trans hfuel)
      rw [Nat.zero_add,← hname] at hfinds
      exact hfinds (fun hmem => hfree ((hseen name).mp hmem)) fun l hl => by
        rw [Nat.zero_add]
        exact (hseen _).mpr (hbetter l hl)
    rw [columnsFrom,(sanitize_base i header).1]
    simp only [hsearch,htail,Option.map_some,Except.map]
    exact ⟨_,rfl⟩

end Search

/-! ### The whole file -/

section Naming

/-- The headers of a file. -/
def headersOf (text : String) : List String := ((Csv.read text).1.headD []).map strip

def bases (lib : NameLib) (headers : List String) : List String := headers.mapIdx (baseOf lib)

/-- The file cannot be read to its end, or has no header that is not blank. -/
def Refused (text : String) : Prop := (∀ h ∈ headersOf text, h = "") ∨ (Csv.read text).2 ≠ none

/-- One column for each header, with names that differ and are valid. -/
structure Named (text : String) (columns : List Column) : Prop where
  headers : columns.map Column.header = headersOf text
  distinct : (columns.map Column.name).Nodup
  valid : ∀ c ∈ columns, ValidName c.name

variable {lib : NameLib} {text : String} {headers : List String} {fuel : ℕ} {columns : List Column}

theorem bases_get {j : ℕ} {h : String} (hj : headers[j]? = some h) : (bases lib headers)[0+j]? = some (baseOf lib (0+j) h) := by
  rw [Nat.zero_add,bases,List.getElem?_mapIdx,hj,Option.map_some]

theorem seen_nil (bs : List String) : ∀ x, x ∈ ([] : List String) ↔ Taken attempt bs 0 x :=
  fun _ => iff_of_false List.not_mem_nil not_taken_zero

theorem base_valid {i : ℕ} {base : String} (h : (bases lib headers)[i]? = some base) : ValidName base := by
  rw [bases,List.getElem?_mapIdx] at h
  obtain ⟨header,-,rfl⟩ := Option.map_eq_some_iff.mp h
  exact (sanitize_base i header).2

/-- A file that is refused is refused at once. -/
theorem inferSchema_refused (h : Refused text) : ∃ e, inferSchema lib.toLib 0 text = some (.error e) := by
  rw [Refused,headersOf] at h
  rw [inferSchema]
  split
  · exact ⟨_,rfl⟩
  · exact ⟨_,rfl⟩
  · rename_i first rows stop hread
    simp only [hread,List.headD_cons] at h
    by_cases hblank : (first.map strip).all fun h => decide (h = "")
    · simp only [hblank,if_true]
      exact ⟨_,rfl⟩
    · cases stop with
      | some e =>
        simp only [hblank]
        exact ⟨_,rfl⟩
      | none =>
        rcases h with hall | hstop
        · exact absurd (List.all_eq_true.mpr fun h hh => decide_eq_true (hall h hh)) hblank
        · exact absurd rfl hstop

/-- Any other file is named column by column. -/
theorem inferSchema_named (h : ¬Refused text) : ∃ rows samples n, ∀ fuel, inferSchema lib.toLib fuel text =
    (columnsFrom lib.toLib fuel rows 0 [] (headersOf text)).map fun found => found.map fun columns => (columns,samples,n) := by
  rw [Refused,not_or,not_not] at h
  obtain ⟨hheaders,hstop⟩ := h
  cases hread : Csv.read text with
  | mk records stop =>
    cases records with
    | nil => exact absurd (fun h hh => by simp [headersOf,hread] at hh) hheaders
    | cons first rows =>
      have hfirst : headersOf text = first.map strip := by rw [headersOf,hread,List.headD_cons]
      have hblank : ¬((first.map strip).all fun h => decide (h = "")) = true := by
        intro hall
        rw [← hfirst] at hall
        exact hheaders fun h hh => of_decide_eq_true (List.all_eq_true.mp hall h hh)
      rw [hread] at hstop
      obtain rfl : stop = none := hstop
      refine ⟨rows,(rows.take 5).map fun row => (List.range (first.map strip).length).map fun i => row.getD i "",
        rows.length,fun fuel => ?_⟩
      rw [inferSchema]
      simp only [hread,if_neg hblank,hfirst]

theorem count_le_one_iff {l : List String} {w : String} :
    l.count w ≤ 1 ↔ ∀ i j : ℕ, i < j → l[i]? = some w → l[j]? ≠ some w := by
  rw [← Nat.lt_succ_iff,← Nat.not_le,← List.duplicate_iff_two_le_count,List.duplicate_iff_exists_distinct_get]
  constructor
  · intro h i j hij hi hj
    obtain ⟨hilt,hi⟩ := List.getElem?_eq_some_iff.mp hi
    obtain ⟨hjlt,hj⟩ := List.getElem?_eq_some_iff.mp hj
    exact h ⟨⟨i,hilt⟩,⟨j,hjlt⟩,hij,hi.symm,hj.symm⟩
  · rintro h ⟨i,j,hij,hi,hj⟩
    exact h i j hij (List.getElem?_eq_some_iff.mpr ⟨i.2,hi.symm⟩) (List.getElem?_eq_some_iff.mpr ⟨j.2,hj.symm⟩)

theorem names_nodup {bs : List String}
    (hgiven : ∀ (j : ℕ) (c : Column), columns[j]? = some c → Given attempt bs j c.name) : (columns.map Column.name).Nodup := by
  rw [List.nodup_iff_getElem?_ne_getElem?]
  intro i j hij hj
  rw [List.length_map] at hj
  have hi := List.getElem?_eq_getElem (hij.trans hj)
  have hj := List.getElem?_eq_getElem hj
  rw [List.getElem?_map,List.getElem?_map,hi,hj,Option.map_some,Option.map_some]
  exact fun heq => (hgiven i _ hi).ne hij (hgiven j _ hj) (Option.some.inj heq)

/-- The columns are valid exactly when no word of the stems is asked for twice. -/
theorem valid_iff (hlength : columns.length = (bases lib headers).length)
    (hgiven : ∀ (j : ℕ) (c : Column), columns[j]? = some c → Given attempt (bases lib headers) j c.name) :
    (∀ c ∈ columns, ValidName c.name) ↔ ∀ w ∈ stems, (bases lib headers).count w ≤ 1 := by
  constructor
  · intro hvalid w hw
    rw [count_le_one_iff]
    intro i j hij hi hj
    obtain ⟨hlt,-⟩ := List.getElem?_eq_some_iff.mp hj
    have hc := List.getElem?_eq_getElem (hlength ▸ hlt : j < columns.length)
    obtain ⟨b,k,hb,hname,hfree,-⟩ := hgiven j _ hc
    obtain rfl := Option.some.inj (hb.symm.trans hj)
    cases k with
    | zero => exact hfree (hname ▸ taken_first hij hi)
    | succ k => exact attempt_stem_invalid hw (hname ▸ hvalid _ (List.mem_of_getElem? hc))
  · intro honce c hc
    obtain ⟨j,hj⟩ := List.getElem?_of_mem hc
    obtain ⟨b,k,hb,hname,hfree,hbetter⟩ := hgiven j c hj
    rw [hname]
    refine attempt_valid (base_valid hb) fun hstem => ?_
    by_contra hk
    -- the word itself was gone, and only a header before with the same word can have taken it
    obtain ⟨i,hij,b',k',hb',hname',-⟩ := taken_iff.mp (hbetter 0 (Nat.pos_of_ne_zero hk))
    obtain rfl := attempt_eq_stem hstem hname'.symm
    exact count_le_one_iff.mp (honce b' hstem) i j hij hb' hb

/-- The names are all found exactly when no header finds its names gone, and they are valid when no stem comes twice. -/
theorem infers_named_iff (lib : NameLib) (text : String) :
    (∃ fuel result, inferSchema lib.toLib fuel text = some result ∧
      ∀ columns samples n, result = .ok (columns,samples,n) → Named text columns) ↔
    Refused text ∨ Supplied attempt (bases lib (headersOf text)) ∧ ∀ w ∈ stems, (bases lib (headersOf text)).count w ≤ 1 := by
  by_cases hrefused : Refused text
  · obtain ⟨e,he⟩ := @inferSchema_refused lib text hrefused
    exact iff_of_true ⟨0,_,he,fun columns samples n hok => nomatch hok⟩ (Or.inl hrefused)
  rw [or_iff_right hrefused]
  obtain ⟨rows,samples,n,hinfer⟩ := @inferSchema_named lib text hrefused
  have hlength : (bases lib (headersOf text)).length = (headersOf text).length := List.length_mapIdx
  constructor
  · rintro ⟨fuel,result,hresult,hnamed⟩
    rw [hinfer] at hresult
    obtain ⟨found,hfound,rfl⟩ := Option.map_eq_some_iff.mp hresult
    obtain ⟨columns,rfl,hheaders,hgiven⟩ := columnsFrom_given (fun _ _ => bases_get) (seen_nil _) hfound
    simp only [Nat.zero_add] at hgiven
    have hcount : columns.length = (bases lib (headersOf text)).length := by
      rw [hlength,← hheaders,List.length_map]
    refine ⟨supplied_iff.mpr fun i hi => ?_,(valid_iff hcount hgiven).mp (hnamed columns samples n rfl).valid⟩
    exact ⟨_,hgiven i _ (List.getElem?_eq_getElem (hcount.symm ▸ hi))⟩
  · rintro ⟨hsupplied,honce⟩
    obtain ⟨least,hends⟩ := @columnsFrom_ends lib [] (headersOf text) _ 0 rows (fun _ _ => bases_get) (seen_nil _) hsupplied
    obtain ⟨columns,hcolumns⟩ := hends least le_rfl
    obtain ⟨_,hsame,hheaders,hgiven⟩ := columnsFrom_given (fun _ _ => bases_get) (seen_nil _) hcolumns
    obtain rfl := Except.ok.inj hsame
    simp only [Nat.zero_add] at hgiven
    have hcount : columns.length = (bases lib (headersOf text)).length := by
      rw [hlength,← hheaders,List.length_map]
    refine ⟨least,.ok (columns,samples,n),by rw [hinfer,hcolumns]; rfl,fun columns' samples' n' hok => ?_⟩
    obtain ⟨rfl,-,-⟩ : columns = columns' ∧ samples = samples' ∧ n = n' := by simpa using Except.ok.inj hok
    exact ⟨hheaders,names_nodup hgiven,(valid_iff hcount hgiven).mpr honce⟩

end Naming

/-- A name of 60 characters that is taken is tried again and again. -/
theorem uniqueName_stuck {base : String} {seen : List String} (hlength : base.length = maxLen) (hseen : base ∈ seen)
    (fuel n : ℕ) : uniqueName base seen fuel n base = none := by
  have hclip : ∀ n : ℕ, clip maxLen (base ++ "_" ++ toString n) = base := by
    intro n
    rw [← String.toList_inj,toList_clip,String.toList_append,String.toList_append,List.append_assoc,← hlength,
      ← String.length_toList,List.take_left]
  induction fuel generalizing n with
  | zero => rw [uniqueName,if_pos hseen]
  | succ fuel ih => rw [uniqueName,if_pos hseen,hclip,ih]

theorem lower_word (s : String) (h : ∀ c ∈ s.toList, isWord c = true) : lower s = s := by
  have hsame : ∀ c ∈ s.toList, c.toLower = c := by
    intro c hc
    have hrange := word_range (h c hc)
    refine (dif_neg ?_ : c.toLower = c)
    rintro ⟨hlow,hhigh⟩
    have hlow : 65 ≤ c.toNat := hlow
    have hhigh : c.toNat ≤ 90 := hhigh
    omega
  rw [lower,List.map_congr_left hsame,List.map_id',String.ofList_toList]

/-- The parsers on ASCII, with the small letters of ASCII. -/
def asciiNames : NameLib := { asciiLib with lowercase_word := lower_word }

/-- A header of 60 letters. -/
def longHeader : String := String.ofList (List.replicate maxLen 'a')

def twins : String := String.ofList (List.replicate maxLen 'a' ++ ',' :: List.replicate maxLen 'a')

theorem longHeader_valid : ValidName longHeader := by
  have hlist : longHeader.toList = 'a'::List.replicate 59 'a' := String.toList_ofList
  refine ⟨⟨'a',List.replicate 59 'a',hlist,rfl,List.all_eq_true.mp (by decide)⟩,?_,?_,?_⟩
  · rw [← String.length_toList,hlist]
    decide
  · intro hmem
    have hhead : ∀ r ∈ reservedColumns, r.toList.head? ≠ some 'a' := by decide
    exact hhead _ hmem (by rw [hlist]; rfl)
  · simp only [reservedPrefixes,List.any_cons,List.any_nil,startsWith,hlist]
    rfl

theorem longHeader_ne : longHeader ≠ "" := by
  intro heq
  have hlist := congrArg String.toList heq
  rw [longHeader,String.toList_ofList] at hlist
  cases hlist

theorem twins_read : Csv.read twins = ([[longHeader,longHeader]],none) := by
  rw [Csv.read,twins,String.toList_ofList]
  rfl

theorem twins_headers : headersOf twins = [longHeader,longHeader] := by
  rw [headersOf,twins_read,List.headD_cons,List.map_cons,List.map_cons,List.map_nil,strip_word longHeader_valid.identifier.word]

/-- The search for a name of the second column never ends. -/
theorem search_endless : ¬∀ (lib : NameLib) (text : String), ∃ fuel result, inferSchema lib.toLib fuel text = some result ∧
    ∀ columns samples n, result = .ok (columns,samples,n) → Named text columns := by
  intro h
  obtain ⟨fuel,result,hresult,-⟩ := h asciiNames twins
  have hread : ¬Refused twins := by
    rw [Refused,twins_headers,twins_read]
    rintro (hblank | hstop)
    · exact longHeader_ne (hblank longHeader List.mem_cons_self)
    · exact hstop rfl
  obtain ⟨rows,samples,n,hinfer⟩ := @inferSchema_named asciiNames twins hread
  have hplain : ∀ c ∈ longHeader.toList, c ≠ '_' := by
    rw [longHeader,String.toList_ofList]
    intro c hc
    rw [List.eq_of_mem_replicate hc]
    decide
  have hbase : sanitizeIdentifier asciiNames.toLib longHeader = .ok longHeader :=
    sanitizeIdentifier_plain longHeader_valid hplain
  have hlength : longHeader.length = maxLen := by rw [longHeader,String.length_ofList,List.length_replicate]
  have hfirst : uniqueName longHeader [] fuel 2 longHeader = some longHeader := by
    cases fuel <;> rw [uniqueName,if_neg List.not_mem_nil]
  have hsecond := uniqueName_stuck hlength (List.mem_singleton_self longHeader) fuel 2
  have hcolumns : columnsFrom asciiNames.toLib fuel rows 0 [] [longHeader,longHeader] = none := by
    rw [columnsFrom,if_neg longHeader_ne,hbase]
    simp only [hfirst]
    rw [columnsFrom,if_neg longHeader_ne,hbase]
    simp only [hsecond,Option.map_none]
  rw [hinfer,twins_headers,hcolumns] at hresult
  cases hresult

end SchemaInference
end Biggy
