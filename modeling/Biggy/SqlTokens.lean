import Mathlib.Data.List.Basic
import Mathlib.Tactic.Common

/-!
# The tokens of an SQL text

A text is cut from the left into words, numerals, quoted texts, comments, white space and single characters. What is cut off
is the text again, and no word is cut in two.
-/
namespace Biggy
namespace Sql

/-! ### Dialects -/

/-- What the dialects of SQL do not agree on: the characters of a word, white space, how long the numeral is that begins at a
place, the quotes in which a backslash escapes, and which comments end with the line. -/
structure Dialect where
  ident : Char → Bool
  blank : Char → Bool
  numeral : List Char → ℕ
  escape : Char → Bool
  hash : Bool
  dashes : List Char → Bool
  numeral_start : ∀ c cs, 0 < numeral (c::cs) → c.isDigit = true ∨ c = '.'
  ident_plain : ∀ c, c = '\'' ∨ c = '"' ∨ c = '`' ∨ c = '/' ∨ c = '\n' → ident c = false

inductive Lexeme
  | word (w : List Char)
  | numeral (w : List Char)
  | quoted (w : List Char)
  | comment (w : List Char)
  | blank (c : Char)
  | mark (c : Char)
  deriving DecidableEq

def Lexeme.text : Lexeme → List Char
  | .word w | .numeral w | .quoted w | .comment w => w
  | .blank c | .mark c => [c]

/-- The rest of a quoted text with its closing quote; a doubled quote does not close it. -/
def closing (escape : Bool) (q : Char) : List Char → List Char
  | [] => []
  | [c] => [c]
  | c::d::cs =>
    if c = q then if d = q then c::d::closing escape q cs else [c]
    else if escape = true ∧ c = '\\' then c::d::closing escape q cs
    else c::closing escape q (d::cs)

/-- The rest of a comment between `/*` and `*/`. -/
def blockRest : List Char → List Char
  | [] => []
  | [c] => [c]
  | c::d::cs => if c = '*' ∧ d = '/' then [c,d] else c::blockRest (d::cs)

section Lexing

variable (dialect : Dialect)

/-- The lexeme at the start of a text. -/
def first (c : Char) (cs : List Char) : Lexeme :=
  if c = '\'' ∨ c = '"' ∨ c = '`' then .quoted (c::closing (dialect.escape c) c cs)
  else if c = '/' ∧ cs.head? = some '*' then .comment (c:: '*'::blockRest cs.tail)
  else if c = '-' ∧ cs.head? = some '-' ∧ dialect.dashes cs.tail = true ∨ c = '#' ∧ dialect.hash = true then
    .comment (c::cs.takeWhile (· ≠ '\n'))
  else if 0 < dialect.numeral (c::cs) then .numeral ((c::cs).take (dialect.numeral (c::cs)))
  else if dialect.ident c = true then .word ((c::cs).takeWhile dialect.ident)
  else if dialect.blank c = true then .blank c
  else .mark c

def lexFrom : ℕ → List Char → List Lexeme
  | 0, _ => []
  | _, [] => []
  | n+1, c::cs => first dialect c cs::lexFrom n ((c::cs).drop (first dialect c cs).text.length)

def lexemes (cs : List Char) : List Lexeme := lexFrom dialect cs.length cs

end Lexing

/-! ### What is cut off -/

theorem prefix_closing (escape : Bool) (q : Char) (cs : List Char) : closing escape q cs <+: cs := by
  induction cs using closing.induct escape q with
  | case1 => exact List.prefix_rfl
  | case2 c => exact List.prefix_rfl
  | case3 cs ih =>
    rw [closing,if_pos rfl,if_pos rfl]
    exact (List.prefix_cons_inj q).mpr ((List.prefix_cons_inj q).mpr ih)
  | case4 d cs hd =>
    rw [closing,if_pos rfl,if_neg hd]
    exact (List.prefix_cons_inj q).mpr List.nil_prefix
  | case5 c d cs hc hescape ih =>
    rw [closing,if_neg hc,if_pos hescape]
    exact (List.prefix_cons_inj c).mpr ((List.prefix_cons_inj d).mpr ih)
  | case6 c d cs hc hescape ih =>
    rw [closing,if_neg hc,if_neg hescape]
    exact (List.prefix_cons_inj c).mpr ih

/-- A quoted text that does not reach to the end is closed by its quote. -/
theorem closing_last {escape : Bool} {q x : Char} {cs after : List Char} (h : cs = closing escape q cs++x::after) :
    (closing escape q cs).getLast? = some q := by
  induction cs using closing.induct escape q with
  | case1 => simp [closing] at h
  | case2 c => simp [closing] at h
  | case3 cs ih =>
    rw [closing,if_pos rfl,if_pos rfl] at h ⊢
    simp only [List.cons_append,List.cons.injEq,true_and] at h
    rw [List.getLast?_cons,List.getLast?_cons,ih h]
    rfl
  | case4 d cs hd =>
    rw [closing,if_pos rfl,if_neg hd]
    rfl
  | case5 c d cs hc hescape ih =>
    rw [closing,if_neg hc,if_pos hescape] at h ⊢
    simp only [List.cons_append,List.cons.injEq,true_and] at h
    rw [List.getLast?_cons,List.getLast?_cons,ih h]
    rfl
  | case6 c d cs hc hescape ih =>
    rw [closing,if_neg hc,if_neg hescape] at h ⊢
    simp only [List.cons_append,List.cons.injEq,true_and] at h
    rw [List.getLast?_cons,ih h]
    rfl

theorem prefix_blockRest (cs : List Char) : blockRest cs <+: cs := by
  induction cs using blockRest.induct with
  | case1 => exact List.prefix_rfl
  | case2 c => exact List.prefix_rfl
  | case3 c d cs hclosed =>
    rw [blockRest,if_pos hclosed]
    exact ⟨cs,rfl⟩
  | case4 c d cs hopen ih =>
    rw [blockRest,if_neg hopen]
    exact (List.prefix_cons_inj c).mpr ih

theorem blockRest_last {x : Char} {cs after : List Char} (h : cs = blockRest cs++x::after) :
    (blockRest cs).getLast? = some '/' := by
  induction cs using blockRest.induct with
  | case1 => simp [blockRest] at h
  | case2 c => simp [blockRest] at h
  | case3 c d cs hclosed =>
    rw [blockRest,if_pos hclosed,hclosed.2]
    rfl
  | case4 c d cs hopen ih =>
    rw [blockRest,if_neg hopen] at h ⊢
    simp only [List.cons_append,List.cons.injEq,true_and] at h
    rw [List.getLast?_cons,ih h]
    rfl

section Lexing

variable {dialect : Dialect}

variable (dialect) in
theorem prefix_first (c : Char) (cs : List Char) : (first dialect c cs).text <+: c::cs := by
  rw [first]
  split_ifs with hquote hblock hline hnumeral hident hblank
  · exact (List.prefix_cons_inj c).mpr (prefix_closing _ _ _)
  · obtain ⟨rest,rfl⟩ : ∃ rest, cs = '*'::rest := List.head?_eq_some_iff.mp hblock.2
    exact (List.prefix_cons_inj c).mpr ((List.prefix_cons_inj '*').mpr (prefix_blockRest rest))
  · exact (List.prefix_cons_inj c).mpr (List.takeWhile_prefix _)
  · exact List.take_prefix _ _
  · exact List.takeWhile_prefix _
  · exact (List.prefix_cons_inj c).mpr List.nil_prefix
  · exact (List.prefix_cons_inj c).mpr List.nil_prefix

variable (dialect) in
theorem first_ne (c : Char) (cs : List Char) : (first dialect c cs).text ≠ [] := by
  rw [first]
  split_ifs with hquote hblock hline hnumeral hident hblank
  · exact List.cons_ne_nil _ _
  · exact List.cons_ne_nil _ _
  · exact List.cons_ne_nil _ _
  · simp only [Lexeme.text,ne_eq,List.take_eq_nil_iff,List.cons_ne_nil,or_false]
    omega
  · simp [Lexeme.text,hident]
  · exact List.cons_ne_nil _ _
  · exact List.cons_ne_nil _ _

variable (dialect)

/-- A text is cut into lexemes from the left. -/
inductive Lexes : List Char → List Lexeme → Prop
  | nil : Lexes [] []
  | cons (c : Char) (cs after : List Char) (rest : List Lexeme) : c::cs = (first dialect c cs).text++after → Lexes after rest →
    Lexes (c::cs) (first dialect c cs::rest)

variable {dialect}

theorem lexes_from {n : ℕ} {cs : List Char} (h : cs.length ≤ n) : Lexes dialect cs (lexFrom dialect n cs) := by
  induction n generalizing cs with
  | zero =>
    obtain rfl := List.length_eq_zero_iff.mp (Nat.le_zero.mp h)
    exact .nil
  | succ n ih =>
    cases cs with
    | nil => exact .nil
    | cons c cs =>
      obtain ⟨after,hafter⟩ := prefix_first dialect c cs
      have hdrop : (c::cs).drop (first dialect c cs).text.length = after := by
        rw [← hafter,List.drop_left]
      have hpos := List.length_pos_iff.mpr (first_ne dialect c cs)
      have hlength := congrArg List.length hafter
      rw [List.length_append,List.length_cons] at hlength
      rw [List.length_cons] at h
      rw [lexFrom,hdrop]
      exact .cons c cs after _ hafter.symm (ih (by omega))

variable (dialect) in
theorem lexes (cs : List Char) : Lexes dialect cs (lexemes dialect cs) := lexes_from (Nat.le_refl _)

/-- The lexemes, one after the other, are the text. -/
theorem Lexes.text {cs : List Char} {ls : List Lexeme} (h : Lexes dialect cs ls) : cs = ls.flatMap Lexeme.text := by
  induction h with
  | nil => rfl
  | cons c cs after rest hsplit _ ih => rw [List.flatMap_cons,← ih,hsplit]

/-- A lexeme is the first one of the text from its place on. -/
theorem Lexes.at {cs : List Char} {before after : List Lexeme} {l : Lexeme} (h : Lexes dialect cs (before++l::after)) :
    ∃ c rest left, cs = before.flatMap Lexeme.text++c::rest ∧ l = first dialect c rest ∧ c::rest = l.text++left ∧
      Lexes dialect left after := by
  induction before generalizing cs with
  | nil =>
    cases h with
    | cons c cs left rest hsplit hrest => exact ⟨c,cs,left,rfl,rfl,hsplit,hrest⟩
  | cons b before ih =>
    cases h with
    | cons c cs left rest hsplit hrest =>
      obtain ⟨c',rest',left',rfl,hl,htext,hafter⟩ := ih hrest
      exact ⟨c',rest',left',by rw [List.flatMap_cons,List.append_assoc,← hsplit],hl,htext,hafter⟩

theorem Lexes.blank {cs : List Char} {ls : List Lexeme} (h : Lexes dialect cs ls) {c : Char} (hc : .blank c ∈ ls) :
    dialect.blank c = true := by
  induction h with
  | nil => cases hc
  | cons d cs after rest _ _ ih =>
    rcases List.mem_cons.mp hc with hfirst | hc
    · rw [first] at hfirst
      split_ifs at hfirst with hquote hblock hline hnumeral hident hblank
      obtain rfl := Lexeme.blank.inj hfirst
      exact hblank
    · exact ih hc

/-! ### Words -/

theorem first_word {c : Char} {cs w : List Char} (h : first dialect c cs = .word w) : w = (c::cs).takeWhile dialect.ident := by
  rw [first] at h
  split_ifs at h
  exact (Lexeme.word.inj h).symm

/-- What follows a word is no character of a word. -/
theorem word_stop {c : Char} {cs w after : List Char} (h : first dialect c cs = .word w) (hsplit : c::cs = w++after) :
    ∀ x, after.head? = some x → dialect.ident x = false := by
  intro x hx
  have hdrop : (c::cs).dropWhile dialect.ident = after := by
    have hboth := List.takeWhile_append_dropWhile (p:=dialect.ident) (l:=c::cs)
    rw [← first_word h] at hboth
    exact List.append_cancel_left (hboth.trans hsplit)
  have hstop := List.head?_dropWhile_not dialect.ident (c::cs)
  rw [hdrop,hx] at hstop
  exact hstop

/-- What stands before a word is no character of a word, unless it is a numeral. -/
theorem word_start {c x : Char} {cs after : List Char} (hnumeral : ∀ w, first dialect c cs ≠ .numeral w)
    (hsplit : c::cs = (first dialect c cs).text++x::after) (hx : dialect.ident x = true) :
    ∃ y, (first dialect c cs).text.getLast? = some y ∧ dialect.ident y = false := by
  have hplain := dialect.ident_plain
  cases hfirst : first dialect c cs with
  | word w =>
    rw [hfirst] at hsplit
    exact absurd hx (by rw [word_stop hfirst hsplit x rfl]; exact Bool.false_ne_true)
  | numeral w => exact absurd hfirst (hnumeral w)
  | quoted w =>
    rw [hfirst] at hsplit
    rw [first] at hfirst
    split_ifs at hfirst with hquote
    obtain rfl := Lexeme.quoted.inj hfirst
    simp only [Lexeme.text,List.cons_append,List.cons.injEq,true_and] at hsplit
    refine ⟨c,?_,hplain c (by tauto)⟩
    rw [Lexeme.text,List.getLast?_cons,closing_last hsplit]
    rfl
  | comment w =>
    rw [hfirst] at hsplit
    rw [first] at hfirst
    split_ifs at hfirst with hquote hblock hline
    · obtain rfl := Lexeme.comment.inj hfirst
      obtain ⟨rest,rfl⟩ : ∃ rest, cs = '*'::rest := List.head?_eq_some_iff.mp hblock.2
      simp only [Lexeme.text,List.tail_cons,List.cons_append,List.cons.injEq,true_and] at hsplit
      refine ⟨'/',?_,hplain '/' (by simp)⟩
      rw [Lexeme.text,List.tail_cons,List.getLast?_cons,List.getLast?_cons,blockRest_last hsplit]
      rfl
    · -- a comment of a line is followed by the end of the line
      obtain rfl := Lexeme.comment.inj hfirst
      simp only [Lexeme.text,List.cons_append,List.cons.injEq,true_and] at hsplit
      have hdrop : cs.dropWhile (fun d => decide (d ≠ '\n')) = x::after := by
        have hboth := List.takeWhile_append_dropWhile (p:=fun d => decide (d ≠ '\n')) (l:=cs)
        exact List.append_cancel_left (hboth.trans hsplit)
      have hstop := List.head?_dropWhile_not (fun d => decide (d ≠ '\n')) cs
      rw [hdrop] at hstop
      obtain rfl : x = '\n' := by simpa using hstop
      exact absurd hx (by rw [hplain '\n' (by simp)]; exact Bool.false_ne_true)
  | blank d =>
    rw [first] at hfirst
    split_ifs at hfirst with hquote hblock hline hnum hident hblank
    obtain rfl := Lexeme.blank.inj hfirst
    exact ⟨c,rfl,Bool.eq_false_iff.mpr hident⟩
  | mark d =>
    rw [first] at hfirst
    split_ifs at hfirst with hquote hblock hline hnum hident hblank
    obtain rfl := Lexeme.mark.inj hfirst
    exact ⟨c,rfl,Bool.eq_false_iff.mpr hident⟩

theorem Lexes.before_word {cs w : List Char} {x : Char} {before after : List Lexeme}
    (h : Lexes dialect cs (before++.word (x::w)::after)) (hx : dialect.ident x = true)
    (hnumeral : ∀ n, before.getLast? ≠ some (.numeral n)) {y : Char} (hy : (before.flatMap Lexeme.text).getLast? = some y) :
    dialect.ident y = false := by
  rcases List.eq_nil_or_concat' before with rfl | ⟨front,p,rfl⟩
  · cases hy
  rw [List.append_assoc,List.singleton_append] at h
  obtain ⟨c,rest,left,-,rfl,hsplit,hleft⟩ := h.at
  have htext : left = x::(w++after.flatMap Lexeme.text) := hleft.text
  rw [htext] at hsplit
  obtain ⟨z,hz,hident⟩ := word_start (fun n hn => hnumeral n (by rw [List.getLast?_append,hn]; rfl)) hsplit hx
  rw [List.flatMap_append,List.flatMap_singleton,List.getLast?_append,hz] at hy
  obtain rfl := Option.some.inj hy
  exact hident

end Lexing

/-! ### Statements -/

/-- What a statement is made of: white space and comments are left out. -/
def Lexeme.significant : Lexeme → Bool
  | .comment _ | .blank _ => false
  | _ => true

def Lexeme.isComment : Lexeme → Bool
  | .comment _ => true
  | _ => false

/-- A word, in capitals or not. -/
def isWord (name : String) : Lexeme → Bool
  | .word w => w.map Char.toLower = name.toList
  | _ => false

/-- What stands behind the parenthesis that closes a group. -/
def skipGroup : ℕ → List Lexeme → Option (List Lexeme)
  | _, [] => none
  | depth, l::ls =>
    if l = .mark '(' then skipGroup (depth+1) ls
    else if l = .mark ')' then
      match depth with
      | 0 => some ls
      | depth+1 => skipGroup depth ls
    else skipGroup depth ls

/-- What stands behind a group in parentheses. -/
def afterGroup : List Lexeme → Option (List Lexeme)
  | [] => none
  | l::ls => if l = .mark '(' then skipGroup 0 ls else none

/-- What stands behind one common table expression: its name, its columns, `AS` and the query in parentheses. -/
def afterTable : List Lexeme → Option (List Lexeme)
  | .word _::ls | .quoted _::ls =>
    match if ls.head? = some (.mark '(') then afterGroup ls else some ls with
    | some (l::ls) =>
      if isWord "as" l then afterGroup (ls.dropWhile fun l => isWord "not" l || isWord "materialized" l) else none
    | _ => none
  | _ => none

/-- What stands behind the common table expressions. -/
def afterTables : ℕ → List Lexeme → Option (List Lexeme)
  | 0, _ => none
  | n+1, ls =>
    match afterTable ls with
    | none => none
    | some ls => if ls.head? = some (.mark ',') then afterTables n ls.tail else some ls

/-- The statement behind `WITH`. -/
def afterWith (ls : List Lexeme) : Option (List Lexeme) :=
  afterTables ls.length (if ls.head?.any (isWord "recursive") then ls.tail else ls)

/-- The verb of a statement, behind the parentheses and the common table expressions before it. -/
def verb : ℕ → List Lexeme → Option Lexeme
  | 0, _ => none
  | _, [] => none
  | n+1, l::ls =>
    if l = .mark '(' then verb n ls
    else if isWord "with" l then (afterWith ls).bind (verb n)
    else some l

section Statements

variable (dialect : Dialect) (cs : List Char)

def tokens : List Lexeme := (lexemes dialect cs).filter Lexeme.significant

def mainVerb : Option Lexeme := verb (tokens dialect cs).length (tokens dialect cs)

/-- The words stand one behind the other in the statement. -/
def Adjacent (name : String) (names : List String) : Prop :=
  ∃ before l l' after, tokens dialect cs = before++l::l'::after ∧ isWord name l = true ∧ ∃ other ∈ names, isWord other l' = true

/-- The words stand one behind the other with a comment between them, or right behind a numeral. -/
def Hidden (name : String) (names : List String) : Prop :=
  ∃ before l gap l' after, lexemes dialect cs = before++l::(gap++l'::after) ∧ isWord name l = true ∧
    (∃ other ∈ names, isWord other l' = true) ∧ (∀ x ∈ gap, x.significant = false) ∧
    (gap.any Lexeme.isComment = true ∨ ∃ w, before.getLast? = some (.numeral w))

/-- The text begins with this word. -/
def Begins (name : String) : Prop :=
  ∃ w rest, cs = w++rest ∧ w.map Char.toLower = name.toList ∧ ∀ x, rest.head? = some x → dialect.ident x = false

end Statements

section Statements

variable {dialect : Dialect} {cs : List Char} {name : String} {names : List String}

theorem significant_of_isWord {l : Lexeme} (h : isWord name l = true) : l.significant = true ∧ ∃ w, l = .word w := by
  cases l with
  | word w => exact ⟨rfl,w,rfl⟩
  | _ => cases h

theorem adjacent_of_hidden (h : Hidden dialect cs name names) : Adjacent dialect cs name names := by
  obtain ⟨before,l,gap,l',after,hls,hl,hl',hgap,-⟩ := h
  obtain ⟨other,hother,hword⟩ := hl'
  have hnone : gap.filter Lexeme.significant = [] := List.filter_eq_nil_iff.mpr fun x hx => by rw [hgap x hx]; decide
  refine ⟨before.filter Lexeme.significant,l,l',after.filter Lexeme.significant,?_,hl,other,hother,hword⟩
  rw [tokens,hls,List.filter_append,List.filter_cons_of_pos (significant_of_isWord hl).1,List.filter_append,hnone,
    List.nil_append,List.filter_cons_of_pos (significant_of_isWord hword).1]

/-- Words that stand one behind the other in the statement have only white space and comments between them. -/
theorem adjacent_split (h : Adjacent dialect cs name names) : ∃ before l gap l' after,
    lexemes dialect cs = before++l::(gap++l'::after) ∧ isWord name l = true ∧ (∃ other ∈ names, isWord other l' = true) ∧
      ∀ x ∈ gap, x.significant = false := by
  obtain ⟨before,l,l',after,htokens,hl,hl'⟩ := h
  obtain ⟨first,rest,hls,-,hrest⟩ := List.filter_eq_append_iff.mp htokens
  obtain ⟨skipped,tail,hsplit,-,-,htail⟩ := List.filter_eq_cons_iff.mp hrest
  obtain ⟨gap,last,hgap,hnone,-,-⟩ := List.filter_eq_cons_iff.mp htail
  refine ⟨first++skipped,l,gap,l',last,?_,hl,hl',fun x hx => Bool.eq_false_iff.mpr (hnone x hx)⟩
  rw [hls,hsplit,hgap,List.append_assoc]

end Statements

end Sql
end Biggy
