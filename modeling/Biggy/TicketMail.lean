import Biggy.ExportImport
import Biggy.Scan
import Biggy.Sequences

/-!
# Tickets by mail

A comment on a record goes out with the record's number in the subject; the mailbox looks for numbers in the subject of a
reply. `returns_iff` says when the reply finds the record again.
-/
namespace Biggy
namespace TicketMail

open Importer Scan Sequences

/-- The character classes of `re`: `\d` and `\w`, and one character for all that are the same with `re.I`. -/
structure Lib extends CoerceLib where
  digit : Char → Bool
  word : Char → Bool
  fold : Char → Char
  uppercase : String → String
  digit_ascii : ∀ c, c.toNat < 128 → digit c = c.isDigit
  digit_word : ∀ c, digit c = true → word c = true
  fold_ascii : ∀ c d, c.toNat < 128 → d.toNat < 128 → (fold c = fold d ↔ c.toLower = d.toLower)
  fold_digit : ∀ c d, fold c = fold d → digit c = digit d
  fold_space : ∀ c d, fold c = fold d → isSpace c = isSpace d

/-- The tables with their rows, and the automatic numbers in the order in which the query returns them. -/
structure Site where
  tables : List MetaTable
  physical : ℕ → Physical
  numbered : List (MetaTable × MetaField)
  namesNodup : (tables.map MetaTable.physName).Nodup
  complete : numbered.Perm (tables.flatMap fun mt =>
    (mt.fields.filter fun f => decide (f.dataType = .autonumber)).map fun f => (mt,f))

/-- `(f.default_value or "").strip()`. -/
def prefixOf (f : MetaField) : String := strip (f.defaultValue.getD "")

/-- No prefix is blank, and no two rows of a table have the same number. -/
structure Site.Sound (site : Site) : Prop where
  nonblank : ∀ p ∈ site.numbered, prefixOf p.2 ≠ ""
  distinct : ∀ p ∈ site.numbered, ((site.physical p.1.id).rows.map fun row => row p.2.physName).Nodup

/-- The first automatic number of a table. -/
def autonumber (mt : MetaTable) : Option MetaField := mt.fields.find? fun f => decide (f.dataType = .autonumber)

/-! ### Writing a subject -/

section Subject

variable (lib : CoerceLib) (site : Site)

/-- `ticket_number`. -/
def ticketNumber (table : Option MetaTable) (row : Option Row) : Option String :=
  match table.bind autonumber, row with
  | some f, some row => if row f.physName = .null ∨ row f.physName = .text "" then none else some (lib.str (row f.physName))
  | _, _ => none

/-- The subject in `add`. -/
def commentSubject (tablePhys : String) (row : Option Row) (recordLabel : Option String) : String :=
  let number := ticketNumber lib (site.tables.find? fun mt => decide (mt.physName = tablePhys)) row
  (match number with
    | none | some "" => ""
    | some number => "[" ++ number ++ "] ") ++
    ("New comment on " ++ match recordLabel with
      | none | some "" => tablePhys
      | some label => label)

end Subject

/-! ### Finding a ticket -/

section Find

variable (lib : Lib) (E : Engine) (site : Site)

/-- A literal, the digits that follow it, one at least, and the rest. -/
def literalDigits (start : String) (xs : List Char) : Option (List Char × List Char × List Char) :=
  match literal lib.fold start.toList xs with
  | some (m,rest) =>
    if rest.takeWhile lib.digit = [] then none else some (m,rest.takeWhile lib.digit,rest.dropWhile lib.digit)
  | none => none

/-- `re.escape(prefix) + r"\d+"` at one place. -/
def readNumber (start : String) (_ : Option Char) (xs : List Char) : Option String :=
  (literalDigits lib start xs).map fun r => String.ofList (r.1++r.2.1)

/-- `\b` between two characters. -/
def boundary (a b : Option Char) : Bool := a.any lib.word != b.any lib.word

/-- `\b{re.escape(letter)}-(\d+)\b` at one place; between two digits there is no `\b`, so fewer digits never match. -/
def readAlias (letter : String) (previous : Option Char) (xs : List Char) : Option String :=
  match literalDigits lib (letter ++ "-") xs with
  | some (_,digits,rest) =>
    if boundary lib previous xs.head? = true ∧ boundary lib digits.getLast? rest.head? = true then some (String.ofList digits)
    else none
  | none => none

/-- `_number_patterns`, each with its prefix. -/
def numberPatterns : List (MetaTable × MetaField) := site.numbered.filter fun p => prefixOf p.2 ≠ ""

/-- `_find_by_number`. -/
def findByNumber (p : MetaTable × MetaField) (value : String) : Option Value :=
  match findIdBy lib.toCoerceLib E (site.physical p.1.id) [(p.2.physName,.text value)] true value p.2.physName with
  | .ok pk => pk
  | .error _ => none

/-- One turn of the first loop of `find_ticket`. -/
def byNumber (subject : String) (p : MetaTable × MetaField) : Option (MetaTable × Value) :=
  (search (readNumber lib (prefixOf p.2)) none subject.toList).bind fun m => (findByNumber lib E site p m).map fun pk => (p.1,pk)

/-- `_alias_map`. -/
def aliasMap (aliases : List (String × String)) : List (String × MetaTable × MetaField) :=
  Keyed.puts Prod.fst (aliases.filterMap fun entry =>
    match site.tables.find? fun mt => decide (mt.physName = entry.2) with
    | none => none
    | some mt =>
      match autonumber mt with
      | none => none
      | some f => if strip entry.1 = "" then none else some (lib.uppercase (strip entry.1),mt,f))

/-- The numbers that an alias with these digits can stand for. -/
def candidates (f : MetaField) (n : ℤ) (digits : String) : List String :=
  [prefixOf f ++ format04d n,prefixOf f ++ digits]

/-- One turn of the second loop of `find_ticket`. -/
def byAlias (subject : String) (a : String × MetaTable × MetaField) : Except PyError (Option (MetaTable × Value)) :=
  match search (readAlias lib a.1) none subject.toList with
  | none => .ok none
  | some digits =>
    match lib.int digits with
    | none => .error (.valueError (lib.complaint "int" digits))
    | some n => .ok ((candidates a.2.2 n digits).findSome? fun c => (findByNumber lib E site a.2 c).map fun pk => (a.2.1,pk))

/-- The second loop of `find_ticket`. -/
def firstAlias (subject : String) : List (String × MetaTable × MetaField) → Except PyError (Option (MetaTable × Value))
  | [] => .ok none
  | a::rest =>
    match byAlias lib E site subject a with
    | .ok none => firstAlias subject rest
    | found => found

/-- `find_ticket` for a mailbox with these aliases. -/
def findTicket (aliases : List (String × String)) (subject : String) : Except PyError (Option (MetaTable × Value)) :=
  match (numberPatterns site).findSome? (byNumber lib E site subject) with
  | some found => .ok (some found)
  | none => firstAlias lib E site subject (aliasMap lib site aliases)

end Find

/-! ### Reply prefixes -/

section Replies

variable (lib : Lib)

def replyWords : List String := ["re","fw","fwd","aw"]

/-- `(?:\[\d+\])?`. -/
def skipCount (xs : List Char) : List Char :=
  match xs with
  | '['::rest =>
    match rest.takeWhile lib.digit,rest.dropWhile lib.digit with
    | _::_,']'::after => after
    | _,_ => xs
  | _ => xs

/-- `\s*(?:\[\d+\])?\s*:\s*`. -/
def readColon (xs : List Char) : Option (List Char) :=
  match (skipCount lib (xs.dropWhile isSpace)).dropWhile isSpace with
  | ':'::rest => some (rest.dropWhile isSpace)
  | _ => none

/-- `(re|fw|fwd|aw)\s*(?:\[\d+\])?\s*:\s*`: what follows it. -/
def readReply (xs : List Char) : Option (List Char) :=
  replyWords.findSome? fun word => (literal lib.fold word.toList xs).bind fun r => readColon lib r.2

/-- As many reply prefixes as there are; every one is at least a character long. -/
def dropReplies : ℕ → List Char → List Char
  | 0,xs => xs
  | k+1,xs =>
    match readReply lib xs with
    | some rest => dropReplies k rest
    | none => xs

/-- `_strip_re`. -/
def stripRe (subject : String) : String :=
  let start := subject.toList.dropWhile isSpace
  match readReply lib start with
  | some rest => strip (String.ofList (dropReplies lib start.length rest))
  | none => strip subject

end Replies

/-! ### What is read at a place -/

section Reading

variable {lib : Lib}

/-- A literal followed by digits, and by no further digit. -/
structure IsNumber (lib : Lib) (start : String) (a b v : List Char) : Prop where
  letters : a.map lib.fold = start.toList.map lib.fold
  nonempty : b ≠ []
  digits : ∀ c ∈ b, lib.digit c = true
  stop : ∀ c, v.head? = some c → lib.digit c = false

/-- A number with this prefix stands here. -/
def NumberAt (lib : Lib) (start : String) (_ : Option Char) (xs : List Char) (m : String) : Prop :=
  ∃ a b v, xs = a++(b++v) ∧ IsNumber lib start a b v ∧ m = String.ofList (a++b)

/-- A number with this alias stands here, as a word. -/
def AliasAt (lib : Lib) (letter : String) (previous : Option Char) (xs : List Char) (m : String) : Prop :=
  ∃ a b v, xs = a++(b++v) ∧ IsNumber lib (letter ++ "-") a b v ∧
    (boundary lib previous xs.head? = true ∧ boundary lib b.getLast? v.head? = true) ∧ m = String.ofList b

theorem literalDigits_eq_some_iff {start : String} {xs a b v : List Char} :
    literalDigits lib start xs = some (a,b,v) ↔ xs = a++(b++v) ∧ IsNumber lib start a b v := by
  rw [literalDigits]
  constructor
  · intro h
    split at h
    · rename_i m rest hliteral
      obtain ⟨rfl,hletters⟩ := (literal_eq_some_iff lib.fold).mp hliteral
      split at h
      · cases h
      · rename_i hnonempty
        obtain ⟨rfl,hrest⟩ := Prod.mk.inj (Option.some.inj h)
        obtain ⟨rfl,rfl⟩ := Prod.mk.inj hrest
        refine ⟨by rw [List.takeWhile_append_dropWhile],hletters,hnonempty,fun c hc => List.mem_takeWhile_imp hc,?_⟩
        intro c hc
        have hstop := List.head?_dropWhile_not lib.digit rest
        rw [hc] at hstop
        exact hstop
    · cases h
  · intro h
    obtain ⟨rfl,h⟩ := h
    rw [literal_append lib.fold h.letters]
    dsimp only
    rw [takeWhile_stop h.digits h.stop,dropWhile_stop h.digits h.stop,if_neg h.nonempty]

theorem readNumber_eq_some_iff {start : String} (previous : Option Char) (xs : List Char) (m : String) :
    readNumber lib start previous xs = some m ↔ NumberAt lib start previous xs m := by
  rw [readNumber,Option.map_eq_some_iff]
  constructor
  · intro h
    obtain ⟨⟨a,b,v⟩,hread,hm⟩ := h
    obtain ⟨hxs,hnumber⟩ := literalDigits_eq_some_iff.mp hread
    exact ⟨a,b,v,hxs,hnumber,hm.symm⟩
  · intro h
    obtain ⟨a,b,v,hxs,hnumber,hm⟩ := h
    exact ⟨(a,b,v),literalDigits_eq_some_iff.mpr ⟨hxs,hnumber⟩,hm.symm⟩

theorem readAlias_eq_some_iff {letter : String} (previous : Option Char) (xs : List Char) (m : String) :
    readAlias lib letter previous xs = some m ↔ AliasAt lib letter previous xs m := by
  rw [readAlias]
  constructor
  · intro h
    split at h
    · rename_i a b v hread
      obtain ⟨hxs,hnumber⟩ := literalDigits_eq_some_iff.mp hread
      split at h
      · rename_i hword
        exact ⟨a,b,v,hxs,hnumber,hword,(Option.some.inj h).symm⟩
      · cases h
    · cases h
  · intro h
    obtain ⟨a,b,v,hxs,hnumber,hword,hm⟩ := h
    rw [literalDigits_eq_some_iff.mpr ⟨hxs,hnumber⟩]
    dsimp only
    rw [if_pos hword,hm]

end Reading

/-! ### What is found -/

section Found

variable {lib : Lib} {E : Engine} {site : Site}

/-- Exactly one row of the table has this number, and this is its key. -/
def Names (lib : Lib) (E : Engine) (site : Site) (p : MetaTable × MetaField) (value : String) (pk : Value) : Prop :=
  p.2.physName ∈ (site.physical p.1.id).columns ∧
    ((site.physical p.1.id).rows.filter fun row => matchClause lib.toCoerceLib E true row (p.2.physName,.text value)).map
      (site.physical p.1.id).keyOf = [pk]

/-- The first number of the field in the subject is the number of exactly one record. -/
def Finds (lib : Lib) (E : Engine) (site : Site) (subject : String) (p : MetaTable × MetaField) (found : MetaTable × Value) :
    Prop := p.1 = found.1 ∧ ∃ m, First (NumberAt lib (prefixOf p.2)) none subject.toList m ∧ Names lib E site p m found.2

/-- The digits of the alias in the subject are, with the prefix of its field, the number of exactly one record. -/
def AliasFinds (lib : Lib) (E : Engine) (site : Site) (subject : String) (a : String × MetaTable × MetaField)
    (found : MetaTable × Value) : Prop :=
  a.2.1 = found.1 ∧ ∃ digits n, First (AliasAt lib a.1) none subject.toList digits ∧ lib.int digits = some n ∧
    ∃ front c back, candidates a.2.2 n digits = front++c::back ∧ Names lib E site a.2 c found.2 ∧
      ∀ other ∈ front, ∀ pk, ¬Names lib E site a.2 other pk

/-- The alias is not in the subject, or its digits are no record's number. -/
def AliasSilent (lib : Lib) (E : Engine) (site : Site) (subject : String) (a : String × MetaTable × MetaField) : Prop :=
  ∀ digits, First (AliasAt lib a.1) none subject.toList digits →
    ∃ n, lib.int digits = some n ∧ ∀ c ∈ candidates a.2.2 n digits, ∀ pk, ¬Names lib E site a.2 c pk

/-- The first field in the order of the query that finds a record in the subject finds this one; where no field finds any,
the first alias does. -/
def Leads (lib : Lib) (E : Engine) (site : Site) (aliases : List (String × String)) (subject : String)
    (found : MetaTable × Value) : Prop :=
  (∃ front p back, numberPatterns site = front++p::back ∧ Finds lib E site subject p found ∧
    ∀ q ∈ front, ∀ other, ¬Finds lib E site subject q other) ∨
  (∀ q ∈ numberPatterns site, ∀ other, ¬Finds lib E site subject q other) ∧
    ∃ front a back, aliasMap lib site aliases = front++a::back ∧ AliasFinds lib E site subject a found ∧
      ∀ b ∈ front, AliasSilent lib E site subject b

theorem findByNumber_eq_some_iff {p : MetaTable × MetaField} {value : String} {pk : Value} :
    findByNumber lib E site p value = some pk ↔ Names lib E site p value pk := by
  simp only [findByNumber,findIdBy,Names]
  by_cases hcolumn : p.2.physName ∈ (site.physical p.1.id).columns
  · have hknown : [(p.2.physName,Value.text value)].find? (fun part => !(site.physical p.1.id).columns.contains part.1) = none := by
      simp [hcolumn]
    simp only [hknown,List.all_cons,List.all_nil,Bool.and_true,hcolumn,true_and]
    split
    · rename_i hfound
      split at hfound
      · rename_i hrows
        obtain rfl := Except.ok.inj hfound
        simp [hrows]
      · rename_i hrows
        obtain rfl := Except.ok.inj hfound
        simp [hrows]
      · cases hfound
    · rename_i hfound
      split at hfound
      · cases hfound
      · cases hfound
      · rename_i hone
        simp only [reduceCtorEq,false_iff]
        exact fun heq => hone pk heq
  · simp [hcolumn]

theorem byNumber_eq_some_iff {subject : String} (p : MetaTable × MetaField) (found : MetaTable × Value) :
    byNumber lib E site subject p = some found ↔ Finds lib E site subject p found := by
  rw [byNumber,Option.bind_eq_some_iff,Finds]
  simp only [search_iff_first _ readNumber_eq_some_iff,Option.map_eq_some_iff,findByNumber_eq_some_iff]
  constructor
  · intro h
    obtain ⟨m,hm,pk,hpk,rfl⟩ := h
    exact ⟨rfl,m,hm,hpk⟩
  · intro h
    obtain ⟨htable,m,hm,hpk⟩ := h
    exact ⟨m,hm,found.2,hpk,by rw [htable]⟩

theorem search_alias_none {subject : String} {letter : String} :
    search (readAlias lib letter) none subject.toList = none ↔
      ∀ digits, ¬First (AliasAt lib letter) none subject.toList digits := by
  rw [Option.eq_none_iff_forall_ne_some]
  exact forall_congr' fun digits => not_congr (search_iff_first _ readAlias_eq_some_iff)

theorem candidate_iff {p : MetaTable × MetaField} (c : String) (found : MetaTable × Value) :
    (findByNumber lib E site p c).map (fun pk => (p.1,pk)) = some found ↔ p.1 = found.1 ∧ Names lib E site p c found.2 := by
  rw [Option.map_eq_some_iff]
  constructor
  · intro h
    obtain ⟨pk,hpk,rfl⟩ := h
    exact ⟨rfl,findByNumber_eq_some_iff.mp hpk⟩
  · intro h
    exact ⟨found.2,findByNumber_eq_some_iff.mpr h.2,by rw [h.1]⟩

theorem byAlias_found_iff {subject : String} {a : String × MetaTable × MetaField} {found : MetaTable × Value} :
    byAlias lib E site subject a = .ok (some found) ↔ AliasFinds lib E site subject a found := by
  rw [byAlias]
  cases hsearch : search (readAlias lib a.1) none subject.toList with
  | none =>
    simp only [Except.ok.injEq,reduceCtorEq,false_iff]
    intro h
    obtain ⟨-,digits,n,hfirst,-⟩ := h
    exact search_alias_none.mp hsearch digits hfirst
  | some digits =>
    have hunique : ∀ other, First (AliasAt lib a.1) none subject.toList other → other = digits := by
      intro other hother
      rw [← search_iff_first _ readAlias_eq_some_iff,hsearch] at hother
      exact (Option.some.inj hother).symm
    have hfirst : First (AliasAt lib a.1) none subject.toList digits := (search_iff_first _ readAlias_eq_some_iff).mp hsearch
    cases hint : lib.int digits with
    | none =>
      simp only [hint,reduceCtorEq,false_iff]
      intro h
      obtain ⟨-,other,n,hother,hn,-⟩ := h
      rw [hunique other hother,hint] at hn
      cases hn
    | some n =>
      simp only [hint,Except.ok.injEq]
      rw [findSome?_eq_some_iff_of (fun c found => candidate_iff c found)]
      constructor
      · intro h
        obtain ⟨front,c,back,hsplit,hc,hfront⟩ := h
        exact ⟨hc.1,digits,n,hfirst,hint,front,c,back,hsplit,hc.2,fun other hother pk hpk => hfront other hother (a.2.1,pk) ⟨rfl,hpk⟩⟩
      · intro h
        obtain ⟨htable,other,m,hother,hm,front,c,back,hsplit,hc,hfront⟩ := h
        obtain rfl := hunique other hother
        rw [hint] at hm
        obtain rfl := Option.some.inj hm
        exact ⟨front,c,back,hsplit,⟨htable,hc⟩,fun other hother found' hfound => hfront other hother found'.2 hfound.2⟩

theorem byAlias_silent_iff {subject : String} {a : String × MetaTable × MetaField} :
    byAlias lib E site subject a = .ok none ↔ AliasSilent lib E site subject a := by
  rw [byAlias]
  cases hsearch : search (readAlias lib a.1) none subject.toList with
  | none =>
    simp only [true_iff]
    intro digits hfirst
    exact absurd hfirst (search_alias_none.mp hsearch digits)
  | some digits =>
    have hunique : ∀ other, First (AliasAt lib a.1) none subject.toList other → other = digits := by
      intro other hother
      rw [← search_iff_first _ readAlias_eq_some_iff,hsearch] at hother
      exact (Option.some.inj hother).symm
    have hfirst : First (AliasAt lib a.1) none subject.toList digits := (search_iff_first _ readAlias_eq_some_iff).mp hsearch
    cases hint : lib.int digits with
    | none =>
      simp only [hint,reduceCtorEq,false_iff]
      intro h
      obtain ⟨n,hn,-⟩ := h digits hfirst
      rw [hint] at hn
      cases hn
    | some n =>
      simp only [hint,Except.ok.injEq]
      rw [findSome?_eq_none_iff_of (fun c found => candidate_iff c found)]
      constructor
      · intro h other hother
        obtain rfl := hunique other hother
        exact ⟨n,hint,fun c hc pk hpk => h c hc (a.2.1,pk) ⟨rfl,hpk⟩⟩
      · intro h c hc found hfound
        obtain ⟨m,hm,hnone⟩ := h digits hfirst
        rw [hint] at hm
        obtain rfl := Option.some.inj hm
        exact hnone c hc found.2 hfound.2

/-- The second loop returns what the first alias finds that is not silent. -/
theorem firstAlias_found_iff {subject : String} {aliases : List (String × MetaTable × MetaField)} {found : MetaTable × Value} :
    firstAlias lib E site subject aliases = .ok (some found) ↔
      ∃ front a back, aliases = front++a::back ∧ AliasFinds lib E site subject a found ∧
        ∀ b ∈ front, AliasSilent lib E site subject b := by
  induction aliases with
  | nil => simp [firstAlias]
  | cons a rest ih =>
    rw [firstAlias]
    cases hturn : byAlias lib E site subject a with
    | error e =>
      simp only [reduceCtorEq,false_iff]
      intro h
      obtain ⟨front,b,back,hsplit,hb,hfront⟩ := h
      cases front with
      | nil =>
        obtain ⟨rfl,-⟩ := List.cons.inj hsplit
        rw [byAlias_found_iff.mpr hb] at hturn
        cases hturn
      | cons c front =>
        obtain ⟨rfl,-⟩ := List.cons.inj hsplit
        rw [byAlias_silent_iff.mpr (hfront a List.mem_cons_self)] at hturn
        cases hturn
    | ok result =>
      cases result with
      | none =>
        simp only
        rw [ih]
        constructor
        · intro h
          obtain ⟨front,b,back,rfl,hb,hfront⟩ := h
          refine ⟨a::front,b,back,rfl,hb,?_⟩
          intro c hc
          rcases List.mem_cons.mp hc with rfl | hc
          · exact byAlias_silent_iff.mp hturn
          · exact hfront c hc
        · intro h
          obtain ⟨front,b,back,hsplit,hb,hfront⟩ := h
          cases front with
          | nil =>
            obtain ⟨rfl,-⟩ := List.cons.inj hsplit
            rw [byAlias_found_iff.mpr hb] at hturn
            cases hturn
          | cons c front =>
            obtain ⟨rfl,hrest⟩ := List.cons.inj hsplit
            exact ⟨front,b,back,hrest,hb,fun d hd => hfront d (List.mem_cons_of_mem _ hd)⟩
      | some result =>
        simp only [Except.ok.injEq,Option.some.injEq]
        constructor
        · intro h
          obtain rfl := h
          exact ⟨[],a,rest,rfl,byAlias_found_iff.mp hturn,fun b hb => absurd hb (List.not_mem_nil)⟩
        · intro h
          obtain ⟨front,b,back,hsplit,hb,hfront⟩ := h
          cases front with
          | nil =>
            obtain ⟨rfl,-⟩ := List.cons.inj hsplit
            rw [byAlias_found_iff.mpr hb] at hturn
            exact (Option.some.inj (Except.ok.inj hturn)).symm
          | cons c front =>
            obtain ⟨rfl,-⟩ := List.cons.inj hsplit
            rw [byAlias_silent_iff.mpr (hfront a List.mem_cons_self)] at hturn
            cases hturn

theorem findTicket_found_iff {aliases : List (String × String)} {subject : String} {found : MetaTable × Value} :
    findTicket lib E site aliases subject = .ok (some found) ↔ Leads lib E site aliases subject found := by
  rw [findTicket,Leads,← findSome?_eq_some_iff_of byNumber_eq_some_iff,← findSome?_eq_none_iff_of byNumber_eq_some_iff,
    ← firstAlias_found_iff]
  cases (numberPatterns site).findSome? (byNumber lib E site subject) with
  | none => simp
  | some result => simp

end Found

/-! ### A reply -/

/-- A reply prefix: a word in any case, a count that may be missing, a colon, and blanks between them. -/
structure Reply (lib : Lib) where
  word : String
  letters : List Char
  gap : List Char
  count : List Char
  blanks : List Char
  last : List Char
  known : word ∈ replyWords
  same : letters.map lib.fold = word.toList.map lib.fold
  digits : ∀ c ∈ count, lib.digit c = true
  spaces : ∀ c ∈ gap++(blanks++last), isSpace c = true

section Strip

variable {lib : Lib}

def countText (count : List Char) : List Char := if count = [] then [] else '['::(count++[']'])

/-- The prefix without its word. -/
def Reply.tail (r : Reply lib) : List Char := r.gap++(countText r.count++(r.blanks++ ':'::r.last))

def Reply.text (r : Reply lib) : List Char := r.letters++r.tail

/-- Reply prefixes, one after the other. -/
def replies (rs : List (Reply lib)) : List Char := rs.flatMap Reply.text

theorem fold_ne {c d x : Char} (hc : c.toNat < 128) (hd : d.toNat < 128) (hne : c.toLower ≠ d.toLower)
    (hx : lib.fold x = lib.fold c) : lib.fold d ≠ lib.fold x := by
  intro heq
  exact hne ((lib.fold_ascii c d hc hd).mp (hx.symm.trans heq.symm))

theorem skipCount_text {count rest : List Char} (hcount : ∀ c ∈ count, lib.digit c = true)
    (hrest : ∀ c, rest.head? = some c → c ≠ '[') : skipCount lib (countText count++rest) = rest := by
  have hclose : ∀ c, (']'::rest).head? = some c → lib.digit c = false := by
    intro c hc
    obtain rfl := Option.some.inj hc
    rw [lib.digit_ascii _ (by decide)]
    decide
  cases count with
  | nil =>
    rw [countText,if_pos rfl,List.nil_append]
    cases rest with
    | nil => rfl
    | cons c rest =>
      have hc : c ≠ '[' := hrest c rfl
      simp [skipCount,hc]
  | cons c count =>
    rw [countText,if_neg (List.cons_ne_nil c count),List.cons_append,List.append_assoc,List.singleton_append,skipCount]
    rw [takeWhile_stop hcount hclose,dropWhile_stop hcount hclose]
    rfl

theorem readColon_tail (r : Reply lib) (rest : List Char) : readColon lib (r.tail++rest) = some (rest.dropWhile isSpace) := by
  have hgap : ∀ c ∈ r.gap, isSpace c = true := fun c hc => r.spaces c (List.mem_append_left _ hc)
  have hblanks : ∀ c ∈ r.blanks, isSpace c = true := fun c hc => r.spaces c (List.mem_append_right _ (List.mem_append_left _ hc))
  have hlast : ∀ c ∈ r.last, isSpace c = true := fun c hc => r.spaces c (List.mem_append_right _ (List.mem_append_right _ hc))
  have hcolon : ∀ c, (':'::(r.last++rest)).head? = some c → isSpace c = false := by
    intro c hc
    obtain rfl := Option.some.inj hc
    decide
  have hafter : (skipCount lib ((r.tail++rest).dropWhile isSpace)).dropWhile isSpace = ':'::(r.last++rest) := by
    have htail : r.tail++rest = r.gap++(countText r.count++(r.blanks++ ':'::(r.last++rest))) := by simp [Reply.tail]
    rw [htail,List.dropWhile_append_of_pos hgap]
    by_cases hcount : r.count = []
    · rw [hcount,countText,if_pos rfl,List.nil_append,dropWhile_stop hblanks hcolon,skipCount]
      · exact List.dropWhile_cons_of_neg (by decide)
      · intro rest heq
        cases heq
    · have hopen : (countText r.count++(r.blanks++ ':'::(r.last++rest))).dropWhile isSpace =
          countText r.count++(r.blanks++ ':'::(r.last++rest)) := by
        rw [countText,if_neg hcount]
        exact List.dropWhile_cons_of_neg (by decide)
      rw [hopen,skipCount_text r.digits,dropWhile_stop hblanks hcolon]
      intro c hc heq
      subst heq
      cases hg : r.blanks with
      | nil =>
        rw [hg] at hc
        cases hc
      | cons x xs =>
        rw [hg] at hc
        obtain rfl := Option.some.inj hc
        have hspace := hblanks '[' (by rw [hg]; exact List.mem_cons_self)
        exact absurd hspace (by decide)
  rw [readColon,hafter]
  exact congrArg some (List.dropWhile_append_of_pos hlast)

/-- After `fw` the `d` of `fwd` is no colon. -/
theorem readColon_letter {d : Char} (hd : lib.fold d = lib.fold 'd') (xs : List Char) : readColon lib (d::xs) = none := by
  have hspace : isSpace d = false := (lib.fold_space d 'd' hd).trans (by decide)
  have hbracket : d ≠ '[' := by
    intro heq
    exact fold_ne (c := 'd') (d := '[') (by decide) (by decide) (by decide) hd (congrArg lib.fold heq).symm
  have hcolon : d ≠ ':' := by
    intro heq
    exact fold_ne (c := 'd') (d := ':') (by decide) (by decide) (by decide) hd (congrArg lib.fold heq).symm
  have hskip : skipCount lib (d::xs) = d::xs := by simp [skipCount,hbracket]
  rw [readColon,List.dropWhile_cons_of_neg (by simp [hspace]),hskip,List.dropWhile_cons_of_neg (by simp [hspace])]
  split
  · rename_i heq
    exact absurd (List.cons.inj heq).1 hcolon
  · rfl

theorem Reply.letters_cons (r : Reply lib) {c : Char} {cs : List Char} (hword : r.word.toList = c::cs) :
    ∃ x xs, r.letters = x::xs ∧ lib.fold x = lib.fold c := by
  have hsame := r.same
  rw [hword] at hsame
  cases hletters : r.letters with
  | nil =>
    rw [hletters] at hsame
    cases hsame
  | cons x xs =>
    rw [hletters] at hsame
    exact ⟨x,xs,rfl,(List.cons.inj hsame).1⟩

/-- A reply prefix begins with a letter. -/
theorem Reply.not_space (r : Reply lib) : ∃ x xs, r.letters = x::xs ∧ isSpace x = false := by
  have hwords : ∀ word ∈ replyWords, ∃ c cs, word.toList = c::cs ∧ isSpace c = false := by
    intro word hword
    simp only [replyWords,List.mem_cons,List.not_mem_nil,or_false] at hword
    rcases hword with rfl | rfl | rfl | rfl
    · exact ⟨'r',['e'],rfl,by decide⟩
    · exact ⟨'f',['w'],rfl,by decide⟩
    · exact ⟨'f',['w','d'],rfl,by decide⟩
    · exact ⟨'a',['w'],rfl,by decide⟩
  obtain ⟨c,cs,hword,hc⟩ := hwords r.word r.known
  obtain ⟨x,xs,hletters,hx⟩ := r.letters_cons hword
  exact ⟨x,xs,hletters,(lib.fold_space x c hx).trans hc⟩

/-- No other word is read where the prefix begins. -/
theorem readReply_text (r : Reply lib) (rest : List Char) : readReply lib (r.text++rest) = some (rest.dropWhile isSpace) := by
  have hown : ((literal lib.fold r.word.toList (r.text++rest)).bind fun p => readColon lib p.2) = some (rest.dropWhile isSpace) := by
    rw [Reply.text,List.append_assoc,literal_append lib.fold r.same,Option.bind_some,readColon_tail]
  have hother : ∀ d ds x xs, r.text++rest = x::xs → lib.fold d ≠ lib.fold x →
      ((literal lib.fold (d::ds) (r.text++rest)).bind fun p => readColon lib p.2) = none := by
    intro d ds x xs htext hne
    rw [htext,literal_head_ne lib.fold hne,Option.bind_none]
  have hstart : ∀ c cs, r.word.toList = c::cs → ∃ x xs, r.text++rest = x::xs ∧ lib.fold x = lib.fold c := by
    intro c cs hword
    obtain ⟨x,xs,hletters,hx⟩ := r.letters_cons hword
    exact ⟨x,xs++(r.tail++rest),by simp [Reply.text,hletters],hx⟩
  rw [readReply,replyWords]
  rcases List.mem_cons.mp r.known with hword | hknown
  · rw [hword] at hown
    rw [List.findSome?_cons,hown]
  rcases List.mem_cons.mp hknown with hword | hknown
  · obtain ⟨x,xs,htext,hx⟩ := hstart 'f' ['w'] (by rw [hword]; rfl)
    rw [hword] at hown
    have hre := hother 'r' ['e'] x xs htext (fold_ne (by decide) (by decide) (by decide) hx)
    rw [List.findSome?_cons,show "re".toList = 'r'::['e'] from rfl,hre,List.findSome?_cons,hown]
  rcases List.mem_cons.mp hknown with hword | hknown
  · obtain ⟨x,xs,htext,hx⟩ := hstart 'f' ['w','d'] (by rw [hword]; rfl)
    have hre := hother 'r' ['e'] x xs htext (fold_ne (by decide) (by decide) (by decide) hx)
    have hfw : ((literal lib.fold "fw".toList (r.text++rest)).bind fun p => readColon lib p.2) = none := by
      have hsame := r.same
      rw [hword] at hsame
      obtain ⟨a,b,d,hletters⟩ : ∃ a b d, r.letters = [a,b,d] := by
        have hlength : r.letters.length = 3 := by simpa using congrArg List.length hsame
        exact List.length_eq_three.mp hlength
      rw [hletters] at hsame
      have hab : [a,b].map lib.fold = "fw".toList.map lib.fold := by
        have htake := congrArg (List.take 2) hsame
        exact htake
      have hd : lib.fold d = lib.fold 'd' := by
        have hdrop := congrArg (List.drop 2) hsame
        exact (List.cons.inj hdrop).1
      have htext : r.text++rest = [a,b]++(d::(r.tail++rest)) := by simp [Reply.text,hletters]
      rw [htext,literal_append lib.fold hab,Option.bind_some,readColon_letter hd]
    rw [hword] at hown
    rw [List.findSome?_cons,show "re".toList = 'r'::['e'] from rfl,hre,List.findSome?_cons,hfw,List.findSome?_cons,hown]
  · have hword := List.mem_singleton.mp hknown
    obtain ⟨x,xs,htext,hx⟩ := hstart 'a' ['w'] (by rw [hword]; rfl)
    have hre := hother 'r' ['e'] x xs htext (fold_ne (by decide) (by decide) (by decide) hx)
    have hfw := hother 'f' ['w'] x xs htext (fold_ne (by decide) (by decide) (by decide) hx)
    have hfwd := hother 'f' ['w','d'] x xs htext (fold_ne (by decide) (by decide) (by decide) hx)
    rw [hword] at hown
    rw [List.findSome?_cons,show "re".toList = 'r'::['e'] from rfl,hre,List.findSome?_cons,show "fw".toList = 'f'::['w'] from rfl,hfw,
      List.findSome?_cons,show "fwd".toList = 'f'::['w','d'] from rfl,hfwd,List.findSome?_cons,hown]

/-- What begins with a bracket or with `New` is no reply prefix. -/
theorem readReply_none {x : Char} (hx : x = '[' ∨ x = 'N') (xs : List Char) : readReply lib (x::xs) = none := by
  have hne : ∀ c ∈ ['r','f','a'], lib.fold c ≠ lib.fold x := by
    have hletters : ∀ c ∈ ['r','f','a'], c.toNat < 128 ∧ c.toLower ≠ '['.toLower ∧ c.toLower ≠ 'N'.toLower := by
      intro c hc
      simp only [List.mem_cons,List.not_mem_nil,or_false] at hc
      rcases hc with rfl | rfl | rfl <;> decide
    intro c hc heq
    obtain ⟨hascii,hbracket,hnew⟩ := hletters c hc
    rcases hx with rfl | rfl
    · exact hbracket ((lib.fold_ascii c '[' hascii (by decide)).mp heq)
    · exact hnew ((lib.fold_ascii c 'N' hascii (by decide)).mp heq)
  have hword : ∀ word ∈ replyWords, ((literal lib.fold word.toList (x::xs)).bind fun p => readColon lib p.2) = none := by
    intro word hword
    simp only [replyWords,List.mem_cons,List.not_mem_nil,or_false] at hword
    rcases hword with rfl | rfl | rfl | rfl
    · rw [show "re".toList = 'r'::['e'] from rfl,literal_head_ne lib.fold (hne 'r' (by decide)),Option.bind_none]
    · rw [show "fw".toList = 'f'::['w'] from rfl,literal_head_ne lib.fold (hne 'f' (by decide)),Option.bind_none]
    · rw [show "fwd".toList = 'f'::['w','d'] from rfl,literal_head_ne lib.fold (hne 'f' (by decide)),Option.bind_none]
    · rw [show "aw".toList = 'a'::['w'] from rfl,literal_head_ne lib.fold (hne 'a' (by decide)),Option.bind_none]
  exact List.findSome?_eq_none_iff.mpr hword

theorem replies_not_space {rs : List (Reply lib)} {x : Char} (hx : isSpace x = false) (xs : List Char) :
    (replies rs++x::xs).dropWhile isSpace = replies rs++x::xs := by
  cases rs with
  | nil => exact List.dropWhile_cons_of_neg (by simp [hx])
  | cons r rs =>
    obtain ⟨y,ys,hletters,hy⟩ := r.not_space
    rw [replies,List.flatMap_cons,Reply.text,hletters]
    exact List.dropWhile_cons_of_neg (by simp [hy])

/-- Every reply prefix goes, and nothing of what follows. -/
theorem dropReplies_replies {rs : List (Reply lib)} {x : Char} {xs : List Char} (hx : isSpace x = false)
    (hnone : readReply lib (x::xs) = none) {k : ℕ} (hk : rs.length ≤ k) : dropReplies lib k (replies rs++x::xs) = x::xs := by
  induction rs generalizing k with
  | nil =>
    cases k with
    | zero => rfl
    | succ k =>
      rw [replies,List.flatMap_nil,List.nil_append,dropReplies,hnone]
  | cons r rs ih =>
    cases k with
    | zero => exact absurd hk (by simp)
    | succ k =>
      have hread : readReply lib (replies (r::rs)++x::xs) = some (replies rs++x::xs) := by
        rw [replies,List.flatMap_cons,List.append_assoc,readReply_text]
        exact congrArg some (replies_not_space hx xs)
      rw [dropReplies,hread]
      exact ih (Nat.le_of_succ_le_succ hk)

theorem length_replies (rs : List (Reply lib)) : rs.length ≤ (replies rs).length := by
  induction rs with
  | nil => exact Nat.zero_le _
  | cons r rs ih =>
    have hone : 1 ≤ r.text.length := by
      obtain ⟨x,xs,hletters,-⟩ := r.not_space
      simp [Reply.text,hletters]
    rw [replies,List.flatMap_cons,List.length_append,List.length_cons]
    have : rs.length ≤ (List.flatMap Reply.text rs).length := ih
    omega

theorem strip_spaces {spaces : List Char} (h : ∀ c ∈ spaces, isSpace c = true) (s : String) :
    strip (String.ofList (spaces++s.toList)) = strip s := by
  rw [strip,strip,String.toList_ofList,List.dropWhile_append_of_pos h]

/-- `_strip_re` removes the reply prefixes before a subject and nothing else than blanks. -/
theorem stripRe_replies {spaces : List Char} (hspaces : ∀ c ∈ spaces, isSpace c = true) (rs : List (Reply lib)) {subject : String}
    {x : Char} {xs : List Char} (hsubject : subject.toList = x::xs) (hx : x = '[' ∨ x = 'N') :
    stripRe lib (String.ofList (spaces++(replies rs++subject.toList))) = strip subject := by
  have hspace : isSpace x = false := by
    rcases hx with rfl | rfl <;> decide
  have hnone : readReply lib subject.toList = none := by
    rw [hsubject]
    exact readReply_none hx xs
  have hstart : (spaces++(replies rs++subject.toList)).dropWhile isSpace = replies rs++subject.toList := by
    rw [List.dropWhile_append_of_pos hspaces,hsubject,replies_not_space hspace]
  rw [stripRe,String.toList_ofList]
  simp only [hstart]
  cases rs with
  | nil =>
    simp only [replies,List.flatMap_nil,List.nil_append,hnone]
    exact strip_spaces hspaces subject
  | cons r rs =>
    have hread : readReply lib (replies (r::rs)++subject.toList) = some (replies rs++subject.toList) := by
      rw [replies,List.flatMap_cons,List.append_assoc,readReply_text,hsubject]
      exact congrArg some (replies_not_space hspace xs)
    rw [hread]
    have hlength : rs.length ≤ (replies (r::rs)++subject.toList).length := by
      have := length_replies (r::rs)
      rw [List.length_append]
      simp only [List.length_cons] at this
      omega
    dsimp only
    rw [hsubject] at hnone hlength ⊢
    rw [dropReplies_replies hspace hnone hlength,← hsubject,String.ofList_toList]

end Strip

/-! ### The round trip -/

/-- A record with a number that its field gave out. -/
structure Ticket (site : Site) where
  table : MetaTable
  listed : table ∈ site.tables
  field : MetaField
  own : field ∈ table.fields
  kind : field.dataType = .autonumber
  row : Row
  stored : row ∈ (site.physical table.id).rows
  n : ℕ
  value : row field.physName = .text (formatted field.defaultValue n)

section RoundTrip

variable {lib : Lib} {E : Engine} {site : Site} {aliases : List (String × String)}

def Ticket.key (t : Ticket site) : Value := (site.physical t.table.id).keyOf t.row

/-- The subject that `add` builds for the ticket. -/
def Ticket.subject (lib : Lib) (t : Ticket site) (recordLabel : Option String) : String :=
  commentSubject lib.toCoerceLib site t.table.physName (some t.row) recordLabel

/-- With any reply prefixes before it the subject leads back to the ticket. -/
def Returns (lib : Lib) (E : Engine) (site : Site) (aliases : List (String × String)) (t : Ticket site)
    (recordLabel : Option String) : Prop :=
  ∀ spaces, (∀ c ∈ spaces, isSpace c = true) → ∀ rs : List (Reply lib),
    findTicket lib E site aliases
      (stripRe lib (String.ofList (spaces++(replies rs++(t.subject lib recordLabel).toList)))) = .ok (some (t.table,t.key))

theorem commentSubject_cons (lib : CoerceLib) (site : Site) (tablePhys : String) (row : Option Row) (recordLabel : Option String) :
    ∃ x xs, (commentSubject lib site tablePhys row recordLabel).toList = x::xs ∧ (x = '[' ∨ x = 'N') := by
  simp only [commentSubject]
  split
  · exact ⟨'N',_,by rw [String.toList_append,String.toList_append]; rfl,Or.inr rfl⟩
  · exact ⟨'N',_,by rw [String.toList_append,String.toList_append]; rfl,Or.inr rfl⟩
  · exact ⟨'[',_,by rw [String.toList_append,String.toList_append,String.toList_append]; rfl,Or.inl rfl⟩

/-- Of a reply to the ticket the subject is left, without outer blanks. -/
theorem stripRe_subject {spaces : List Char} (hspaces : ∀ c ∈ spaces, isSpace c = true) (rs : List (Reply lib))
    (t : Ticket site) (recordLabel : Option String) :
    stripRe lib (String.ofList (spaces++(replies rs++(t.subject lib recordLabel).toList))) = strip (t.subject lib recordLabel) := by
  obtain ⟨x,xs,hsubject,hx⟩ := commentSubject_cons lib.toCoerceLib site t.table.physName (some t.row) recordLabel
  exact stripRe_replies hspaces rs hsubject hx

theorem returns_iff_findTicket {t : Ticket site} {recordLabel : Option String} : Returns lib E site aliases t recordLabel ↔
    findTicket lib E site aliases (strip (t.subject lib recordLabel)) = .ok (some (t.table,t.key)) := by
  constructor
  · intro h
    have hnone : ∀ c ∈ ([] : List Char), isSpace c = true := fun c hc => absurd hc List.not_mem_nil
    have hplain := h [] hnone []
    rwa [stripRe_subject hnone] at hplain
  · intro h spaces hspaces rs
    rw [stripRe_subject hspaces]
    exact h

/-- A reply finds its ticket exactly when the ticket is what the subject without outer blanks leads to. -/
theorem returns_iff (lib : Lib) (E : Engine) (site : Site) (aliases : List (String × String)) (t : Ticket site)
    (recordLabel : Option String) : Returns lib E site aliases t recordLabel ↔
      Leads lib E site aliases (strip (t.subject lib recordLabel)) (t.table,t.key) :=
  returns_iff_findTicket.trans findTicket_found_iff

/-! ### The ticket's own number -/

theorem toList_formatted (f : MetaField) (n : ℕ) :
    (formatted f.defaultValue n).toList = (f.defaultValue.getD "").toList++(zeroFilled 4 n).toList := by
  rw [formatted,String.toList_append]
  rfl

theorem zeroFilled_ne_nil (n : ℕ) : (zeroFilled 4 n).toList ≠ [] := by
  intro h
  rw [toList_zeroFilled] at h
  exact Nat.toDigits_ne_nil (List.append_eq_nil_iff.mp h).2

theorem formatted_ne_empty (f : MetaField) (n : ℕ) : formatted f.defaultValue n ≠ "" := by
  intro h
  have hlist := toList_formatted f n
  rw [h] at hlist
  exact zeroFilled_ne_nil n (List.append_eq_nil_iff.mp hlist.symm).2

theorem ticketNumber_own (lib : CoerceLib) {t : Ticket site} (hfirst : autonumber t.table = some t.field) :
    ticketNumber lib (some t.table) (some t.row) = some (formatted t.field.defaultValue t.n) := by
  have hsome : ticketNumber lib (some t.table) (some t.row) = match autonumber t.table,some t.row with
      | some f,some row => if row f.physName = .null ∨ row f.physName = .text "" then none else some (lib.str (row f.physName))
      | _,_ => none := rfl
  rw [hsome,hfirst]
  dsimp only
  rw [t.value,if_neg (by simp [formatted_ne_empty]),PyLib.str]

/-- What stands before a character that is no blank stays when the end is stripped. -/
theorem rdropWhile_append {α : Type*} {p : α → Bool} {y : α} (hy : p y = false) (xs ys : List α) :
    (xs++y::ys).rdropWhile p = xs++y::ys.rdropWhile p := by
  rw [List.rdropWhile,List.reverse_append,List.reverse_cons,List.append_assoc,List.dropWhile_append]
  split
  · rename_i hempty
    rw [List.isEmpty_iff] at hempty
    have hstop : ([y]++xs.reverse).dropWhile p = y::xs.reverse := List.dropWhile_cons_of_neg (by simp [hy])
    rw [hstop,List.rdropWhile,hempty]
    simp
  · simp [List.rdropWhile]

/-- The number stays at the front of the subject. -/
theorem strip_subject {t : Ticket site} (hnodup : (site.tables.map MetaTable.physName).Nodup)
    (hfirst : autonumber t.table = some t.field) (recordLabel : Option String) :
    ∃ w, (strip (t.subject lib recordLabel)).toList = '['::((formatted t.field.defaultValue t.n).toList++ ']'::w) := by
  have htable : site.tables.find? (fun mt => decide (mt.physName = t.table.physName)) = some t.table := Keyed.find_of_mem hnodup t.listed
  have hnumber := ticketNumber_own lib.toCoerceLib hfirst
  have hsubject : ∃ rest, (t.subject lib recordLabel).toList =
      '['::((formatted t.field.defaultValue t.n).toList++ ']'::rest) := by
    simp only [Ticket.subject,commentSubject,htable,hnumber]
    split
    · rename_i heq
      cases heq
    · rename_i heq
      exact absurd (Option.some.inj heq) (formatted_ne_empty t.field t.n)
    · rename_i heq
      obtain rfl := Option.some.inj heq
      generalize "New comment on " ++ _ = line
      refine ⟨' '::line.toList,?_⟩
      rw [String.toList_append,String.toList_append,String.toList_append,List.append_assoc,List.append_assoc]
      rfl
  obtain ⟨rest,hrest⟩ := hsubject
  have hopen : ('['::((formatted t.field.defaultValue t.n).toList++ ']'::rest)).dropWhile isSpace =
      '['::((formatted t.field.defaultValue t.n).toList++ ']'::rest) := List.dropWhile_cons_of_neg (by decide)
  have htrim : strip (t.subject lib recordLabel) = String.ofList (((t.subject lib recordLabel).toList.dropWhile isSpace).rdropWhile isSpace) := rfl
  refine ⟨rest.rdropWhile isSpace,?_⟩
  rw [htrim,String.toList_ofList,hrest,hopen]
  exact @rdropWhile_append _ isSpace ']' (by decide) ('['::(formatted t.field.defaultValue t.n).toList) rest

/-- A literal that also fits one place to the left is followed by no digit there. -/
theorem shifted_not_digit {ps a : List Char} {c x : Char} {t s : List Char} (ha : a.map lib.fold = ps.map lib.fold)
    (heq : c::(ps++s) = a++(x::t)) : lib.digit x = lib.digit c := by
  induction ps generalizing a c with
  | nil =>
    obtain rfl := List.map_eq_nil_iff.mp ha
    rw [(List.cons.inj heq).1]
  | cons p ps ih =>
    cases a with
    | nil => cases ha
    | cons c' a =>
      obtain ⟨rfl,hrest⟩ := List.cons.inj heq
      obtain ⟨hc,ha⟩ := List.cons.inj ha
      rw [ih ha hrest,lib.fold_digit c p hc]

theorem isDigit_iff {c : Char} : c.isDigit = true ↔ 48 ≤ c.toNat ∧ c.toNat ≤ 57 := by
  simp only [Char.isDigit,Char.toNat,UInt32.le_iff_toNat_le,ge_iff_le,Bool.and_eq_true,decide_eq_true_eq]
  exact Iff.rfl

/-- The first number of the own field in the subject is the ticket's number. -/
theorem own_first {t : Ticket site} (hnodup : (site.tables.map MetaTable.physName).Nodup)
    (hfirst : autonumber t.table = some t.field) (hclean : prefixOf t.field = t.field.defaultValue.getD "") (recordLabel : Option String) :
    First (NumberAt lib (prefixOf t.field)) none (strip (t.subject lib recordLabel)).toList (formatted t.field.defaultValue t.n) := by
  obtain ⟨w,hw⟩ := strip_subject hnodup hfirst recordLabel
  have hdigits : ∀ c ∈ (zeroFilled 4 t.n).toList, lib.digit c = true := by
    intro c hc
    have hdigit := isDigit_of_mem hc
    rw [lib.digit_ascii c (by have := isDigit_iff.mp hdigit; omega)]
    exact hdigit
  have hnumber : (formatted t.field.defaultValue t.n).toList = (prefixOf t.field).toList++(zeroFilled 4 t.n).toList := by
    rw [toList_formatted,hclean]
  have hstop : ∀ c, (']'::w).head? = some c → lib.digit c = false := by
    intro c hc
    obtain rfl := Option.some.inj hc
    rw [lib.digit_ascii _ (by decide)]
    decide
  rw [← search_iff_first _ readNumber_eq_some_iff,hw,hnumber,List.append_assoc]
  have hbracket : readNumber lib (prefixOf t.field) none
      ('['::((prefixOf t.field).toList++((zeroFilled 4 t.n).toList++ ']'::w))) = none := by
    rw [Option.eq_none_iff_forall_ne_some]
    intro m hm
    obtain ⟨a,b,v,hsplit,hread,-⟩ := (readNumber_eq_some_iff _ _ _).mp hm
    cases b with
    | nil => exact hread.nonempty rfl
    | cons x b =>
      have hdigit := hread.digits x List.mem_cons_self
      rw [shifted_not_digit hread.letters hsplit,lib.digit_ascii _ (by decide)] at hdigit
      exact absurd hdigit (by decide)
  rw [search_cons_none _ hbracket]
  apply search_here
  rw [readNumber_eq_some_iff]
  refine ⟨(prefixOf t.field).toList,(zeroFilled 4 t.n).toList,']'::w,rfl,⟨rfl,zeroFilled_ne_nil t.n,hdigits,hstop⟩,?_⟩
  rw [← hnumber,String.ofList_toList]

/-- With a prefix without outer blanks and a number that the database finds once, only a field that is listed before the
ticket's own can lead a reply to another record. -/
theorem returns_iff_undisturbed {t : Ticket site} (hfirst : autonumber t.table = some t.field)
    (hclean : prefixOf t.field = t.field.defaultValue.getD "")
    (hone : Names lib E site (t.table,t.field) (formatted t.field.defaultValue t.n) t.key) {front back : List (MetaTable × MetaField)}
    (hsplit : numberPatterns site = front++(t.table,t.field)::back) (recordLabel : Option String) :
    Returns lib E site aliases t recordLabel ↔ ∀ start p rest found, front = start++p::rest →
      Finds lib E site (strip (t.subject lib recordLabel)) p found →
      (∀ q ∈ start, ∀ other, ¬Finds lib E site (strip (t.subject lib recordLabel)) q other) → found = (t.table,t.key) := by
  have hown : byNumber lib E site (strip (t.subject lib recordLabel)) (t.table,t.field) = some (t.table,t.key) :=
    (byNumber_eq_some_iff _ _).mpr ⟨rfl,_,own_first site.namesNodup hfirst hclean recordLabel,hone⟩
  have hticket : findTicket lib E site aliases (strip (t.subject lib recordLabel)) =
      .ok (some ((front.findSome? (byNumber lib E site (strip (t.subject lib recordLabel)))).getD (t.table,t.key))) := by
    rw [findTicket,hsplit,List.findSome?_append,List.findSome?_cons,hown]
    cases front.findSome? (byNumber lib E site (strip (t.subject lib recordLabel))) <;> rfl
  rw [returns_iff_findTicket,hticket,Except.ok.injEq,Option.some.injEq]
  cases hfront : front.findSome? (byNumber lib E site (strip (t.subject lib recordLabel))) with
  | none =>
    simp only [Option.getD_none,true_iff]
    intro start p rest found heq hfound
    rw [findSome?_eq_none_iff_of byNumber_eq_some_iff] at hfront
    exact absurd hfound (hfront p (by simp [heq]) found)
  | some found =>
    rw [Option.getD_some]
    constructor
    · intro h start p rest other heq hother hsilent
      have hsome := (findSome?_eq_some_iff_of byNumber_eq_some_iff).mpr ⟨start,p,rest,heq,hother,hsilent⟩
      rw [hfront] at hsome
      exact (Option.some.inj hsome).symm.trans h
    · intro h
      obtain ⟨start,p,rest,heq,hfound,hsilent⟩ := (findSome?_eq_some_iff_of byNumber_eq_some_iff).mp hfront
      exact h start p rest found heq hfound hsilent

end RoundTrip

/-! ### A prefix inside another one -/

theorem isDigit_toLower (c : Char) : c.toLower.isDigit = c.isDigit := by
  rcases toLower_cases c with hsame | ⟨hlow,hhigh,hlower⟩
  · rw [hsame]
  · rw [Bool.eq_iff_iff,isDigit_iff,isDigit_iff]
    omega

/-- The classes on ASCII. -/
def asciiLib : Lib where
  toCoerceLib := plainLib
  digit := Char.isDigit
  word := fun c => c.isAlphanum || c == '_'
  fold := Char.toLower
  uppercase := String.toUpper
  digit_ascii := fun _ _ => rfl
  digit_word := by
    intro c hc
    simp [Char.isAlphanum,hc]
  fold_ascii := fun _ _ _ _ => Iff.rfl
  fold_digit := by
    intro c d h
    rw [← isDigit_toLower c,h,isDigit_toLower]
  fold_space := isSpace_of_toLower

def numberField (id : ℕ) (start : String) : MetaField where
  id := id
  physName := "number"
  label := "Number"
  dataType := .autonumber
  defaultValue := some start

def changes : MetaTable where
  id := 1
  physName := "change"
  label := "Changes"
  fields := [numberField 1 "C-"]
  idsNodup := by decide
  namesNodup := by decide
  namesFree := by decide

def incidents : MetaTable where
  id := 2
  physName := "incident"
  label := "Incidents"
  fields := [numberField 2 "INC-"]
  idsNodup := by decide
  namesNodup := by decide
  namesFree := by decide

def numberedRow (number : String) : Row := fun column =>
  match column with
  | "id" => .int 1
  | "number" => .text number
  | _ => .null

def numberedRows (number : String) : Physical where
  columns := ["id","number"]
  pk := "id"
  rows := [numberedRow number]
  key := id
  admits := fun _ => true

/-- One change and one incident. -/
def desk : Site where
  tables := [changes,incidents]
  physical := fun id => if id = 1 then numberedRows "C-0001" else numberedRows "INC-0001"
  numbered := [(changes,numberField 1 "C-"),(incidents,numberField 2 "INC-")]
  namesNodup := by decide
  complete := List.Perm.refl _

theorem desk_sound : desk.Sound where
  nonblank := by
    intro p hp
    rcases List.mem_cons.mp hp with rfl | hp
    · decide
    · obtain rfl := List.mem_singleton.mp hp
      decide
  distinct := by
    intro p hp
    rcases List.mem_cons.mp hp with rfl | hp
    · exact List.nodup_singleton _
    · obtain rfl := List.mem_singleton.mp hp
      exact List.nodup_singleton _

def incident : Ticket desk where
  table := incidents
  listed := List.mem_cons_of_mem _ List.mem_cons_self
  field := numberField 2 "INC-"
  own := List.mem_cons_self
  kind := rfl
  row := numberedRow "INC-0001"
  stored := List.mem_cons_self
  n := 1
  value := rfl

theorem change_found : (findTicket asciiLib textEngine desk []
    (stripRe asciiLib (String.ofList ([]++(@replies asciiLib []++(incident.subject asciiLib (some "Printer")).toList))))).map
      (Option.map fun p => p.1.physName) = .ok (some "change") := by decide

/-- The number of an incident contains that of a change. -/
theorem change_answered : ¬∀ (lib : Lib) (E : Engine) (site : Site) (aliases : List (String × String)), site.Sound →
    ∀ (t : Ticket site) (recordLabel : Option String), Returns lib E site aliases t recordLabel := by
  intro h
  have hreturns := h asciiLib textEngine desk [] desk_sound incident (some "Printer") [] (fun c hc => absurd hc List.not_mem_nil) []
  have hfound := change_found
  rw [hreturns] at hfound
  exact absurd hfound (by decide)

end TicketMail
end Biggy
