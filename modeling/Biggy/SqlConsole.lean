import Biggy.Python
import Biggy.Scan
import Biggy.SqlTokens
import Mathlib.Data.List.Infix

/-!
# The read-only SQL console

`validateSelect` looks at the start of a text and for `INTO OUTFILE` in it. `reads_only_iff` says which of the texts that it
accepts are statements that only read.
-/
namespace Biggy
namespace SqlConsole

open Scan Sql

/-- `\w` of `re`, and one character for all that are the same with `re.I`. -/
structure ConsoleLib where
  word : Char → Bool
  fold : Char → Char
  word_ascii : ∀ c, c.toNat < 128 → word c = (c.isAlphanum || c == '_')
  fold_ascii : ∀ c, c.toNat < 128 → ∀ d, d.toNat < 128 → (fold c = fold d ↔ c.toLower = d.toLower)
  fold_space : ∀ c d, fold c = fold d → isSpace c = isSpace d

/-- The dialect of the database that runs the statement: its words have the characters of `\w`, its white space is `\s`. -/
structure Database (lib : ConsoleLib) extends Dialect where
  word_ident : ∀ c, lib.word c = true → ident c = true
  blank_space : ∀ c, blank c = true → isSpace c = true

/-! ### The validator -/

section Validate

variable (lib : ConsoleLib)

/-- `.*?\*/`: what follows the end of a comment. -/
def afterBlock : List Char → Option (List Char)
  | [] => none
  | c::cs => if c = '*' ∧ cs.head? = some '/' then some cs.tail else afterBlock cs

/-- `--[^\n]*\n|/\*.*?\*/\s*`: what follows it. -/
def leadingComment : List Char → Option (List Char)
  | '-':: '-'::rest =>
    match rest.dropWhile (· ≠ '\n') with
    | _::after => some after
    | [] => none
  | '/':: '*'::rest => (afterBlock rest).map (List.dropWhile isSpace)
  | _ => none

/-- As many comments as there are; every one is at least two characters long. -/
def leadingComments : ℕ → List Char → List Char
  | 0, cs => cs
  | n+1, cs =>
    match leadingComment cs with
    | some rest => leadingComments n rest
    | none => cs

/-- `_LEADING_COMMENTS.sub("", s, count=1)`. -/
def dropLeading (s : String) : String := String.ofList (leadingComments s.length (s.toList.dropWhile isSpace))

/-- `s.rstrip(";")`. -/
def dropSemicolons (s : String) : String := String.ofList (s.toList.rdropWhile (· = ';'))

/-- `\b` between two characters. -/
def boundary (a b : Option Char) : Bool := a.any lib.word != b.any lib.word

/-- `_OUTFILE` at one place. No other `\s+` would match, for white space does not begin the word. -/
def readOutfile (previous : Option Char) (cs : List Char) : Option Unit :=
  if boundary lib previous cs.head? = true then
    (literal lib.fold "into".toList cs).bind fun r =>
      if r.2.takeWhile isSpace = [] then none
      else
        ["outfile","dumpfile"].findSome? fun word =>
          (literal lib.fold word.toList (r.2.dropWhile isSpace)).bind fun q =>
            if boundary lib q.1.getLast? q.2.head? = true then some () else none
  else none

/-- `validate_select`. -/
def validateSelect (sql : Option String) : Except String String :=
  let s := strip (dropSemicolons (strip (dropLeading (strip (sql.getD "")))))
  if s = "" then .error "Enter a query."
  else if ¬(startsWith (lower s) "select" ∨ startsWith (lower s) "with") then
    .error "Only SELECT (or WITH … SELECT) queries are allowed."
  else if isIn ";" s then .error "Only a single statement is allowed."
  else if (search (readOutfile lib) none s.toList).isSome then .error "INTO OUTFILE / DUMPFILE is not allowed."
  else .ok s

end Validate

/-! ### What is accepted -/

section Accepted

variable {lib : ConsoleLib}

theorem startsWith_lower {s name : String} (h : startsWith (lower s) name = true) :
    ∃ w rest, s.toList = w++rest ∧ w.map Char.toLower = name.toList := by
  rw [startsWith,lower,String.toList_ofList,List.isPrefixOf_iff_prefix] at h
  obtain ⟨rest,hrest⟩ := h
  obtain ⟨w,rest',hs,hw,-⟩ := List.map_eq_append_iff.mp hrest.symm
  exact ⟨w,rest',hs,hw⟩

theorem semicolon_free {s : String} (h : isIn ";" s = false) : ';' ∉ s.toList := by
  intro hmem
  obtain ⟨before,after,hsplit⟩ := List.append_of_mem hmem
  have hfound : isIn ";" s = true := by
    rw [isIn,List.any_eq_true]
    refine ⟨';'::after,(List.mem_tails _ _).mpr ⟨before,hsplit.symm⟩,?_⟩
    rw [List.isPrefixOf_iff_prefix]
    exact ⟨after,rfl⟩
  rw [hfound] at h
  cases h

/-- What an accepted text is. -/
structure Accepted (lib : ConsoleLib) (s : String) : Prop where
  start : (∃ w rest, s.toList = w++rest ∧ w.map Char.toLower = "select".toList) ∨
    ∃ w rest, s.toList = w++rest ∧ w.map Char.toLower = "with".toList
  single : ';' ∉ s.toList
  noFile : search (readOutfile lib) none s.toList = none

theorem accepted {sql : Option String} {s : String} (h : validateSelect lib sql = .ok s) : Accepted lib s := by
  rw [validateSelect] at h
  split at h
  · cases h
  split at h
  · cases h
  rename_i hstart
  split at h
  · cases h
  rename_i hsingle
  split at h
  · cases h
  rename_i hfile
  obtain rfl := Except.ok.inj h
  refine ⟨?_,semicolon_free (Bool.eq_false_iff.mpr hsingle),Option.not_isSome_iff_eq_none.mp hfile⟩
  rcases not_not.mp hstart with hstart | hstart
  · exact Or.inl (startsWith_lower hstart)
  · exact Or.inr (startsWith_lower hstart)

/-! ### Letters -/

/-- Small letters. -/
def letters (name : String) : Bool := name.toList.all fun c => decide (97 ≤ c.toNat ∧ c.toNat ≤ 122)

theorem letter_of_lower {c : Char} (h : 97 ≤ c.toLower.toNat ∧ c.toLower.toNat ≤ 122) :
    65 ≤ c.toNat ∧ c.toNat ≤ 122 ∧ c.isAlphanum = true := by
  rcases toLower_cases c with hsame | ⟨hlow,hhigh,hlower⟩
  · rw [hsame] at h
    refine ⟨by omega,h.2,?_⟩
    have hlow : c.isLower = true := Bool.and_eq_true_iff.mpr ⟨decide_eq_true h.1,decide_eq_true h.2⟩
    exact Bool.or_eq_true_iff.mpr (Or.inl (Bool.or_eq_true_iff.mpr (Or.inr hlow)))
  · refine ⟨hlow,by omega,?_⟩
    have hup : c.isUpper = true := decide_eq_true ⟨hlow,hhigh⟩
    exact Bool.or_eq_true_iff.mpr (Or.inl (Bool.or_eq_true_iff.mpr (Or.inl hup)))

theorem letters_of_lower {w : List Char} {name : String} (hname : letters name = true) (h : w.map Char.toLower = name.toList) :
    ∀ c ∈ w, 65 ≤ c.toNat ∧ c.toNat ≤ 122 ∧ c.isAlphanum = true := by
  intro c hc
  have hmem : c.toLower ∈ name.toList := h ▸ List.mem_map_of_mem hc
  exact letter_of_lower (of_decide_eq_true (List.all_eq_true.mp hname _ hmem))

theorem word_of_lower {w : List Char} {name : String} (hname : letters name = true) (h : w.map Char.toLower = name.toList) :
    ∀ c ∈ w, lib.word c = true := by
  intro c hc
  obtain ⟨-,hhigh,halnum⟩ := letters_of_lower hname h c hc
  rw [lib.word_ascii c (by omega),halnum]
  rfl

theorem fold_of_lower {w : List Char} {name : String} (hname : letters name = true) (h : w.map Char.toLower = name.toList) :
    w.map lib.fold = name.toList.map lib.fold := by
  have hascii := letters_of_lower hname h
  have hnames : ∀ c ∈ name.toList, c.toNat < 128 ∧ c.toLower = c := by
    intro c hc
    have hletter : 97 ≤ c.toNat ∧ c.toNat ≤ 122 := of_decide_eq_true (List.all_eq_true.mp hname c hc)
    refine ⟨by omega,?_⟩
    rcases toLower_cases c with hsame | ⟨-,hhigh,-⟩
    · exact hsame
    · omega
  generalize name.toList = ps at h hnames
  clear hname
  induction w generalizing ps with
  | nil =>
    obtain rfl : [] = ps := h
    rfl
  | cons c w ih =>
    cases ps with
    | nil => cases h
    | cons p ps =>
      rw [List.map_cons,List.cons.injEq] at h
      obtain ⟨hp,hlower⟩ := hnames p List.mem_cons_self
      have hc := (hascii c List.mem_cons_self).2.1
      have hfold : lib.fold c = lib.fold p := (lib.fold_ascii c (by omega) p hp).mpr (by rw [hlower]; exact h.1)
      rw [List.map_cons,List.map_cons,hfold,ih (fun d hd => hascii d (List.mem_cons_of_mem _ hd)) ps h.2
        fun d hd => hnames d (List.mem_cons_of_mem _ hd)]

end Accepted

/-! ### The first word -/

section FirstWord

variable {lib : ConsoleLib} {database : Database lib}

variable (database) in
/-- A text that begins with letters begins with a word. -/
theorem first_letters {w : List Char} (rest : List Char) {name : String} (hname : letters name = true) (hne : name ≠ "")
    (h : w.map Char.toLower = name.toList) : ∃ more, lexemes database.toDialect (w++rest) =
      .word (w++rest.takeWhile database.ident)::more := by
  have hident : ∀ c ∈ w, database.ident c = true := fun c hc => database.word_ident c (word_of_lower hname h c hc)
  cases w with
  | nil =>
    have hnil : name.toList = [] := h.symm
    exact absurd (String.toList_eq_nil_iff.mp hnil) hne
  | cons c w =>
    obtain ⟨hlow,hhigh,-⟩ := letters_of_lower hname h c List.mem_cons_self
    have hdigit : ¬(c.isDigit = true ∨ c = '.') := by
      rintro (hdigit | rfl)
      · rw [Char.isDigit,Bool.and_eq_true,decide_eq_true_eq,decide_eq_true_eq] at hdigit
        have hnine : c.toNat ≤ 57 := hdigit.2
        omega
      · exact absurd hlow (by decide)
    have hnumeral : ¬0 < database.numeral (c::(w++rest)) := fun hpos => hdigit (database.numeral_start _ _ hpos)
    have hother (d : Char) (hd : d.toNat < 65 ∨ d = '`') : c ≠ d := by
      rintro rfl
      rcases hd with hd | rfl
      · omega
      · exact absurd (letters_of_lower hname h '`' List.mem_cons_self).2.2 (by decide)
    have hfirst : first database.toDialect c (w++rest) = .word (c::w++rest.takeWhile database.ident) := by
      rw [first,if_neg,if_neg,if_neg,if_neg hnumeral,if_pos (hident c List.mem_cons_self),← List.cons_append,
        List.takeWhile_append_of_pos hident]
      · rintro (⟨heq,-⟩ | ⟨heq,-⟩)
        · exact hother '-' (by decide) heq
        · exact hother '#' (by decide) heq
      · rintro ⟨heq,-⟩
        exact hother '/' (by decide) heq
      · rintro (heq | heq | heq)
        · exact hother _ (by decide) heq
        · exact hother _ (by decide) heq
        · exact hother _ (by decide) heq
    refine ⟨lexFrom database.toDialect (w++rest).length ((c::(w++rest)).drop (c::w++rest.takeWhile database.ident).length),?_⟩
    rw [lexemes,List.cons_append,List.length_cons,lexFrom,hfirst]
    rfl

/-- A text that begins with these letters has the word exactly when no further character of a word follows. -/
theorem begins_iff {cs w rest : List Char} {name : String} (hcs : cs = w++rest)
    (h : w.map Char.toLower = name.toList) : Begins database.toDialect cs name ↔
      isWord name (.word (w++rest.takeWhile database.ident)) = true := by
  have hlength := congrArg List.length h
  rw [List.length_map] at hlength
  rw [isWord,decide_eq_true_eq,List.map_append,h]
  constructor
  · rintro ⟨w',rest',hcs',hw',hstop⟩
    have hlength' := congrArg List.length hw'
    rw [List.length_map] at hlength'
    obtain ⟨rfl,rfl⟩ := List.append_inj (hcs.symm.trans hcs') (hlength.trans hlength'.symm)
    have hnone : rest.takeWhile database.ident = [] := by
      cases rest with
      | nil => rfl
      | cons x rest => rw [List.takeWhile_cons,hstop x rfl,if_neg Bool.false_ne_true]
    rw [hnone,List.map_nil,List.append_nil]
  · intro hword
    have hnil : rest.takeWhile database.ident = [] := by
      have hcancel : (rest.takeWhile database.ident).map Char.toLower = [] := List.append_cancel_left (hword.trans (List.append_nil _).symm)
      exact List.map_eq_nil_iff.mp hcancel
    refine ⟨w,rest,hcs,h,fun x hx => ?_⟩
    cases rest with
    | nil => cases hx
    | cons y rest =>
      obtain rfl := Option.some.inj hx
      rw [List.takeWhile_cons] at hnil
      split_ifs at hnil with hy
      exact Bool.eq_false_iff.mpr hy

theorem other_word {w t : List Char} {name other : String} (h : w.map Char.toLower = name.toList)
    (hhead : name.toList.head? ≠ other.toList.head?) (hne : name ≠ "") : isWord other (.word (w++t)) = false := by
  rw [isWord,decide_eq_false_iff_not,List.map_append,h]
  intro hsame
  have hhead' := congrArg List.head? hsame
  cases hname : name.toList with
  | nil => exact hne (String.toList_eq_nil_iff.mp hname)
  | cons c cs =>
    rw [hname,List.cons_append,List.head?_cons] at hhead'
    rw [hname,List.head?_cons] at hhead
    exact hhead hhead'

theorem not_begins {cs w rest : List Char} {name other : String} (hcs : cs = w++rest) (h : w.map Char.toLower = name.toList)
    (hhead : name.toList.head? ≠ other.toList.head?) (hne : name ≠ "") (hother : other ≠ "") :
    ¬Begins database.toDialect cs other := by
  rintro ⟨w',rest',hcs',hw',-⟩
  cases w with
  | nil => exact hne (String.toList_eq_nil_iff.mp h.symm)
  | cons c w =>
    cases w' with
    | nil => exact hother (String.toList_eq_nil_iff.mp hw'.symm)
    | cons c' w' =>
      rw [hcs,List.cons_append,List.cons_append,List.cons.injEq] at hcs'
      rw [← h,← hw',List.map_cons,List.map_cons,List.head?_cons,List.head?_cons,hcs'.1] at hhead
      exact hhead rfl

variable (database)

/-- The text begins with the word `SELECT`, or with `WITH` and a `SELECT` behind the common table expressions. -/
def Selects (cs : List Char) : Prop :=
  Begins database.toDialect cs "select" ∨ Begins database.toDialect cs "with" ∧
    ∃ l, (afterWith (tokens database.toDialect cs).tail).bind (verb (tokens database.toDialect cs).tail.length) = some l ∧
      isWord "select" l = true

theorem tokens_letters {w : List Char} (rest : List Char) {name : String} (hname : letters name = true) (hne : name ≠ "")
    (h : w.map Char.toLower = name.toList) : ∃ more, tokens database.toDialect (w++rest) =
      .word (w++rest.takeWhile database.ident)::more := by
  obtain ⟨more,hmore⟩ := first_letters database rest hname hne h
  exact ⟨more.filter Lexeme.significant,by rw [tokens,hmore]; rfl⟩

variable {database}

/-- The main verb of an accepted text. -/
theorem verb_iff {s : String} (h : Accepted lib s) :
    (∃ l, mainVerb database.toDialect s.toList = some l ∧ isWord "select" l = true) ↔ Selects database s.toList := by
  have hsw : "select".toList.head? ≠ "with".toList.head? := by decide
  rcases h.start with ⟨w,rest,hs,hw⟩ | ⟨w,rest,hs,hw⟩
  · obtain ⟨more,hmore⟩ := tokens_letters database rest (by decide) (by decide) hw
    have hverb : mainVerb database.toDialect s.toList = some (.word (w++rest.takeWhile database.ident)) := by
      rw [mainVerb,hs,hmore,List.length_cons,verb,if_neg (by simp),other_word hw hsw (by decide),if_neg Bool.false_ne_true]
    rw [hverb,Selects,begins_iff hs hw]
    constructor
    · rintro ⟨l,hl,hword⟩
      obtain rfl := Option.some.inj hl
      exact Or.inl hword
    · rintro (hword | ⟨hwith,-⟩)
      · exact ⟨_,rfl,hword⟩
      · exact absurd hwith (not_begins hs hw hsw (by decide) (by decide))
  · obtain ⟨more,hmore⟩ := tokens_letters database rest (by decide) (by decide) hw
    have hnone : isWord "select" (.word (w++rest.takeWhile database.ident)) = false := other_word hw hsw.symm (by decide)
    rw [Selects,begins_iff hs hw,mainVerb,hs,hmore,List.length_cons,verb,if_neg (by simp),List.tail_cons]
    by_cases hwith : isWord "with" (.word (w++rest.takeWhile database.ident)) = true
    · rw [if_pos hwith]
      constructor
      · exact fun hverb => Or.inr ⟨hwith,hverb⟩
      · rintro (hselect | ⟨-,hverb⟩)
        · exact absurd hselect (not_begins rfl hw hsw.symm (by decide) (by decide))
        · exact hverb
    · rw [if_neg hwith]
      constructor
      · rintro ⟨l,hl,hword⟩
        obtain rfl := Option.some.inj hl
        rw [hnone] at hword
        cases hword
      · rintro (hselect | ⟨hyes,-⟩)
        · exact absurd hselect (not_begins rfl hw hsw.symm (by decide) (by decide))
        · exact absurd hyes hwith

end FirstWord

/-! ### The file clause -/

section FileClause

variable {lib : ConsoleLib} {database : Database lib}

/-- The two words with white space between them, and no character of a word on either side. -/
structure Plain (lib : ConsoleLib) (previous : Option Char) (w gap v rest : List Char) : Prop where
  verb : w.map Char.toLower = "into".toList
  apart : gap ≠ []
  space : ∀ c ∈ gap, isSpace c = true
  file : ∃ name ∈ ["outfile","dumpfile"], v.map Char.toLower = name.toList
  before : previous.any lib.word = false
  after : rest.head?.any lib.word = false

variable (lib) in
theorem head_letter {w : List Char} {name : String} (hname : letters name = true) (hne : name ≠ "")
    (h : w.map Char.toLower = name.toList) : ∃ c cs, w = c::cs ∧ 65 ≤ c.toNat ∧ c.toNat ≤ 122 ∧ lib.word c = true := by
  cases w with
  | nil => exact absurd (String.toList_eq_nil_iff.mp h.symm) hne
  | cons c cs =>
    obtain ⟨hlow,hhigh,-⟩ := letters_of_lower hname h c List.mem_cons_self
    exact ⟨c,cs,rfl,hlow,hhigh,word_of_lower hname h c List.mem_cons_self⟩

theorem file_names : ∀ name ∈ ["outfile","dumpfile"], letters name = true ∧ name ≠ "" := by decide

theorem readOutfile_plain {previous : Option Char} {w gap v rest : List Char} (h : Plain lib previous w gap v rest) :
    (readOutfile lib previous (w++(gap++(v++rest)))).isSome = true := by
  obtain ⟨name,hname,hv⟩ := h.file
  obtain ⟨hletters,hne⟩ := file_names name hname
  obtain ⟨c,cs,rfl,-,-,hc⟩ := head_letter lib (by decide) (by decide) h.verb
  obtain ⟨d,ds,rfl,hlow,hhigh,-⟩ := head_letter lib hletters hne hv
  have hstop : ∀ y, (d::ds++rest).head? = some y → isSpace y = false := by
    intro y hy
    obtain rfl := Option.some.inj hy
    exact isSpace_letter hlow hhigh
  have hlast : ∃ y, (d::ds).getLast? = some y ∧ lib.word y = true := by
    obtain ⟨y,hy⟩ := Option.isSome_iff_exists.mp (List.getLast?_isSome.mpr (List.cons_ne_nil d ds))
    exact ⟨y,hy,word_of_lower hletters hv y (List.mem_of_getLast? hy)⟩
  obtain ⟨y,hy,hword⟩ := hlast
  have hboundary : boundary lib previous (c::cs++(gap++(d::ds++rest))).head? = true := by
    rw [List.cons_append,List.head?_cons,boundary,h.before,Option.any_some,hc]
    rfl
  have hend : boundary lib (d::ds).getLast? rest.head? = true := by
    rw [hy,boundary,h.after,Option.any_some,hword]
    rfl
  rw [readOutfile,if_pos hboundary,literal_append lib.fold (fold_of_lower (by decide) h.verb),Option.bind_some]
  dsimp only
  rw [takeWhile_stop h.space hstop,dropWhile_stop h.space hstop,if_neg h.apart,List.findSome?_isSome_iff]
  refine ⟨name,hname,?_⟩
  rw [literal_append lib.fold (fold_of_lower hletters hv),Option.bind_some,if_pos hend]
  rfl

theorem not_word {c : Char} (h : database.ident c = false) : lib.word c = false := by
  rw [Bool.eq_false_iff]
  intro hword
  rw [database.word_ident c hword] at h
  cases h

/-- What stands between two words of a statement is white space where it has no comment. -/
theorem gap_space {cs : List Char} {gap rest : List Lexeme} (h : Lexes database.toDialect cs (gap++rest))
    (hgap : ∀ l ∈ gap, l.significant = false) (hcomment : ¬gap.any Lexeme.isComment = true) :
    ∀ c ∈ gap.flatMap Lexeme.text, isSpace c = true := by
  intro c hc
  obtain ⟨l,hl,hcl⟩ := List.mem_flatMap.mp hc
  cases l with
  | blank b =>
    obtain rfl := List.mem_singleton.mp hcl
    exact database.blank_space c (h.blank (List.mem_append_left _ hl))
  | comment t => exact absurd (List.any_eq_true.mpr ⟨_,hl,rfl⟩) hcomment
  | _ => cases hgap _ hl

/-- In an accepted text the clause can only be hidden. -/
theorem hidden_of_adjacent {s : String} (h : Accepted lib s)
    (hadjacent : Adjacent database.toDialect s.toList "into" ["outfile","dumpfile"]) :
    Hidden database.toDialect s.toList "into" ["outfile","dumpfile"] := by
  obtain ⟨before,l,gap,l',after,hls,hl,hl',hgap⟩ := adjacent_split hadjacent
  by_contra hplain
  have hcomment : ¬gap.any Lexeme.isComment = true :=
    fun hc => hplain ⟨before,l,gap,l',after,hls,hl,hl',hgap,Or.inl hc⟩
  have hnumeral : ∀ w, before.getLast? ≠ some (.numeral w) :=
    fun w hw => hplain ⟨before,l,gap,l',after,hls,hl,hl',hgap,Or.inr ⟨w,hw⟩⟩
  obtain ⟨-,w,rfl⟩ := significant_of_isWord hl
  obtain ⟨name,hname,hv⟩ := hl'
  obtain ⟨-,v,rfl⟩ := significant_of_isWord hv
  have hlexes := lexes database.toDialect s.toList
  rw [hls] at hlexes
  obtain ⟨c,rest,left,hs,hfirst,hsplit,hleft⟩ := hlexes.at
  obtain ⟨d,rest',left',hleft',hfirst',hsplit',-⟩ := hleft.at
  have hinto : w.map Char.toLower = "into".toList := of_decide_eq_true hl
  have hfile : v.map Char.toLower = name.toList := of_decide_eq_true hv
  obtain ⟨hletters,hne⟩ := file_names name hname
  obtain ⟨x,xs,rfl,-,-,hx⟩ := head_letter lib (by decide) (by decide) hinto
  obtain ⟨y,ys,rfl,-,-,hy⟩ := head_letter lib hletters hne hfile
  obtain ⟨rfl,-⟩ := List.cons.inj hsplit
  obtain ⟨rfl,-⟩ := List.cons.inj hsplit'
  have hgapText : ∀ b ∈ gap.flatMap Lexeme.text, isSpace b = true := gap_space hleft hgap hcomment
  have hapart : gap.flatMap Lexeme.text ≠ [] := by
    intro hnone
    rw [hnone,List.nil_append] at hleft'
    have hstop := word_stop hfirst.symm hsplit d (by rw [hleft']; rfl)
    rw [database.word_ident d hy] at hstop
    cases hstop
  have hbefore : (Scan.before none (before.flatMap Lexeme.text)).any lib.word = false := by
    rw [Scan.before,Option.or_none]
    cases hlast : (before.flatMap Lexeme.text).getLast? with
    | none => rfl
    | some z =>
      exact not_word (hlexes.before_word (database.word_ident c hx) hnumeral hlast)
  have hafter : left'.head?.any lib.word = false := by
    cases hhead : left'.head? with
    | none => rfl
    | some z =>
      exact not_word (word_stop hfirst'.symm hsplit' z hhead)
  have hread := readOutfile_plain ⟨hinto,hapart,hgapText,⟨name,hname,hfile⟩,hbefore,hafter⟩
  have hnone := search_eq_none (readOutfile lib) h.noFile (u:=before.flatMap Lexeme.text)
    (v:=c::xs++(gap.flatMap Lexeme.text++(d::ys++left'))) (by rw [hs,hsplit,hleft',hsplit']; rfl)
  rw [hnone] at hread
  cases hread

end FileClause

/-! ### Reading only -/

/-- The text is one statement, a `SELECT`, that does not write a file. -/
structure ReadsOnly (dialect : Dialect) (cs : List Char) : Prop where
  single : .mark ';' ∉ tokens dialect cs
  verb : ∃ l, mainVerb dialect cs = some l ∧ isWord "select" l = true
  noFile : ¬Adjacent dialect cs "into" ["outfile","dumpfile"]

theorem single_of_accepted {lib : ConsoleLib} {dialect : Dialect} {s : String} (h : Accepted lib s) :
    .mark ';' ∉ tokens dialect s.toList := by
  intro hmem
  refine h.single ?_
  rw [(lexes dialect s.toList).text]
  exact List.mem_flatMap.mpr ⟨.mark ';',(List.mem_filter.mp hmem).1,List.mem_singleton_self _⟩

/-- An accepted text only reads exactly when its first word is `SELECT`, or `WITH` before common table expressions and a
`SELECT`, and no comment or numeral hides `INTO OUTFILE`. -/
theorem reads_only_iff (lib : ConsoleLib) (database : Database lib) (sql : Option String) (s : String)
    (h : validateSelect lib sql = .ok s) : ReadsOnly database.toDialect s.toList ↔
      Selects database s.toList ∧ ¬Hidden database.toDialect s.toList "into" ["outfile","dumpfile"] := by
  have haccepted := accepted h
  constructor
  · intro hreads
    exact ⟨(verb_iff haccepted).mp hreads.verb,fun hidden => hreads.noFile (adjacent_of_hidden hidden)⟩
  · rintro ⟨hselects,hopen⟩
    exact ⟨single_of_accepted haccepted,(verb_iff haccepted).mpr hselects,
      fun hadjacent => hopen (hidden_of_adjacent haccepted hadjacent)⟩

/-! ### A common table expression before a deletion -/

/-- The classes on ASCII. -/
def asciiConsole : ConsoleLib where
  word := fun c => c.isAlphanum || c == '_'
  fold := Char.toLower
  word_ascii := fun _ _ => rfl
  fold_ascii := fun _ _ _ _ => Iff.rfl
  fold_space := isSpace_of_toLower

def wordChar (c : Char) : Bool := c.isAlphanum || c == '_' || c == '$' || decide (128 ≤ c.toNat)

/-- Digits that no letter follows, with a fraction where there is one. -/
def decimalLength (cs : List Char) : ℕ :=
  let digits := cs.takeWhile Char.isDigit
  let rest := cs.dropWhile Char.isDigit
  if rest.head? = some '.' ∧ (digits ≠ [] ∨ rest.tail.head?.any Char.isDigit = true) then
    digits.length+1+(rest.tail.takeWhile Char.isDigit).length
  else if rest.head?.any wordChar = true then 0
  else digits.length

theorem decimal_start (c : Char) (cs : List Char) (h : 0 < decimalLength (c::cs)) : c.isDigit = true ∨ c = '.' := by
  by_contra hnone
  rw [not_or] at hnone
  have htake : (c::cs).takeWhile Char.isDigit = [] := by rw [List.takeWhile_cons,if_neg hnone.1]
  have hdrop : (c::cs).dropWhile Char.isDigit = c::cs := by rw [List.dropWhile_cons,if_neg hnone.1]
  have hdot : ¬((c::cs).head? = some '.' ∧ (([] : List Char) ≠ [] ∨ (c::cs).tail.head?.any Char.isDigit = true)) := by
    rintro ⟨hhead,-⟩
    exact hnone.2 (Option.some.inj hhead)
  simp only [decimalLength,htake,hdrop] at h
  rw [if_neg hdot] at h
  split_ifs at h <;> exact absurd h (Nat.lt_irrefl 0)

/-- MariaDB, whose line comments begin with `#` or with `--` and white space. -/
def mariadb : Database asciiConsole where
  ident := wordChar
  blank := fun c => c == ' ' || decide (9 ≤ c.toNat ∧ c.toNat ≤ 13)
  numeral := decimalLength
  escape := fun q => q != '`'
  hash := true
  dashes := fun rest => rest.head?.all fun c => c == ' ' || decide (c.toNat < 32)
  numeral_start := decimal_start
  ident_plain := by
    rintro c (rfl | rfl | rfl | rfl | rfl) <;> decide
  word_ident := by
    intro c hc
    have hword : (c.isAlphanum || c == '_') = true := hc
    rw [wordChar,hword]
    rfl
  blank_space := by
    intro c hc
    rw [Bool.or_eq_true,beq_iff_eq,decide_eq_true_eq] at hc
    rcases hc with rfl | ⟨hlow,hhigh⟩
    · decide
    · simp [isSpace,hlow,hhigh]

theorem reads_only_plain : validateSelect asciiConsole (some " SELECT a FROM t; ") = .ok "SELECT a FROM t" ∧
    (ReadsOnly mariadb.toDialect "SELECT a FROM t".toList ↔ Selects mariadb "SELECT a FROM t".toList ∧
      ¬Hidden mariadb.toDialect "SELECT a FROM t".toList "into" ["outfile","dumpfile"]) :=
  have h : validateSelect asciiConsole (some " SELECT a FROM t; ") = .ok "SELECT a FROM t" := by decide
  ⟨h,reads_only_iff asciiConsole mariadb (some " SELECT a FROM t; ") "SELECT a FROM t" h⟩

/-- A deletion behind a common table expression is accepted. -/
theorem deletion_accepted : ¬∀ (lib : ConsoleLib) (database : Database lib) (sql : Option String) (s : String),
    validateSelect lib sql = .ok s → ReadsOnly database.toDialect s.toList := by
  intro h
  have haccepted : validateSelect asciiConsole (some "WITH a AS (SELECT 1) DELETE FROM t") =
      .ok "WITH a AS (SELECT 1) DELETE FROM t" := by decide
  obtain ⟨l,hl,hword⟩ := (h asciiConsole mariadb _ _ haccepted).verb
  have hverb : mainVerb mariadb.toDialect "WITH a AS (SELECT 1) DELETE FROM t".toList = some (.word "DELETE".toList) := by decide
  obtain rfl := Option.some.inj (hl.symm.trans hverb)
  exact absurd hword (by decide)

end SqlConsole
end Biggy
