import Biggy.Csv
import Mathlib.Data.List.Nodup

/-!
# Writing comma-separated text

`write` is `csv.writer` in its default dialect: a field with a separator, a quote or a line
end in it is quoted. Whatever is written is read again, up to the limit of the field size.
-/
namespace Biggy
namespace Csv

def special (c : Char) : Bool := c = ',' || c = '"' || c = '\n' || c = '\r'

/-- The quotes in a quoted field are doubled. -/
def doubled (cs : List Char) : List Char := cs.flatMap fun c => if c = '"' then ['"','"'] else [c]

/-- `join_append`; the empty field of a row that has no other is quoted. -/
def writeField (alone : Bool) (s : String) : List Char :=
  if s.toList.any special || (alone && s = "") then '"'::(doubled s.toList ++ ['"']) else s.toList

def separated : List (List Char) → List Char
  | [] => []
  | [field] => field
  | field::fields => field ++ ','::separated fields

/-- `writerow`. -/
def writeRow (row : List String) : List Char := separated (row.map (writeField (row.length = 1))) ++ ['\r','\n']

/-- The text of a file with these rows. -/
def write (rows : List (List String)) : String := String.ofList (rows.flatMap writeRow)

/-! ### Reading it again -/

section Reading

variable {r r' r'' : Reader} {c : Char} {cs ds rest : List Char}

/-- Either the reading fails, or a part of the text takes the reader to another state. -/
def Reads (r : Reader) (cs : List Char) (r' : Reader) (rest : List Char) : Prop :=
  (∃ e, readLines r (lines cs) = ([],some e)) ∨ readLines r (lines cs) = readLines r' (lines rest)

theorem Reads.refl (r : Reader) (cs : List Char) : Reads r cs r cs := Or.inr rfl

theorem Reads.trans (h : Reads r cs r' ds) (h' : Reads r' ds r'' rest) : Reads r cs r'' rest := by
  rcases h with hfail | hsame
  · exact Or.inl hfail
  · rcases h' with ⟨e,he⟩ | hsame'
    · exact Or.inl ⟨e,hsame.trans he⟩
    · exact Or.inr (hsame.trans hsame')

theorem lines_ne_nil (h : cs ≠ []) : lines cs ≠ [] := by
  cases cs with
  | nil => exact absurd rfl h
  | cons c cs =>
    simp only [lines]
    split
    · simp
    · split <;> simp

/-- A character inside a line. -/
theorem readLines_cons (hc : c ≠ '\n') (hcs : cs ≠ []) : readLines r (lines (c::cs)) =
    match process r (some c) with
    | .error e => ([],some e)
    | .ok r' => readLines r' (lines cs) := by
  cases hlines : lines cs with
  | nil => exact absurd hlines (lines_ne_nil hcs)
  | cons l ls =>
    have hfirst : lines (c::cs) = (c::l)::ls := by simp [lines,hc,hlines]
    rw [hfirst,readLines,readLine]
    cases process r (some c) with
    | error e => rfl
    | ok r' => rfl

/-- A line feed, and the end of its line. -/
theorem readLines_newline : readLines r (lines ('\n'::cs)) =
    match (process r (some '\n')).bind fun r' => process r' none with
    | .error e => ([],some e)
    | .ok r' =>
      if r'.state = .startRecord then
        (r'.fields.reverse::(readLines {} (lines cs)).1,(readLines {} (lines cs)).2)
      else readLines r' (lines cs) := by
  have hfirst : lines ('\n'::cs) = ['\n']::lines cs := rfl
  rw [hfirst,readLines,readLine]
  cases process r (some '\n') with
  | error e => rfl
  | ok r' => rfl

theorem reads_step (hc : c ≠ '\n') (hcs : cs ≠ []) (h : process r (some c) = .ok r') : Reads r (c::cs) r' cs := by
  right
  rw [readLines_cons hc hcs,h]

/-- A character is added to the field, or the field is too large. -/
theorem reads_add {next : State} (hc : c ≠ '\n') (hcs : cs ≠ []) (h : process r (some c) = r.add c next) :
    Reads r (c::cs) { r with field := c::r.field, state := next } cs := by
  by_cases hlimit : fieldLimit ≤ r.field.length
  · left
    rw [readLines_cons hc hcs,h,Reader.add,if_pos hlimit]
    exact ⟨_,rfl⟩
  · apply reads_step hc hcs
    rw [h,Reader.add,if_neg hlimit]

theorem special_eq_false (h : special c = false) : c ≠ ',' ∧ c ≠ '"' ∧ c ≠ '\n' ∧ c ≠ '\r' := by
  simpa [special,and_assoc] using h

/-- The plain characters of a field that is not quoted. -/
theorem reads_plain (hplain : ∀ c ∈ cs, special c = false) (hrest : rest ≠ []) (fields : List String) (field : List Char) :
    Reads ⟨.inField,fields,field⟩ (cs++rest) ⟨.inField,fields,cs.reverse++field⟩ rest := by
  induction cs generalizing field with
  | nil => exact Reads.refl _ rest
  | cons c cs ih =>
    obtain ⟨hcomma,-,hfeed,hreturn⟩ := special_eq_false (hplain c List.mem_cons_self)
    have hadd : process ⟨.inField,fields,field⟩ (some c) = Reader.add ⟨.inField,fields,field⟩ c .inField := by
      simp only [process]
    have hstep : Reads ⟨.inField,fields,field⟩ (c::(cs++rest)) ⟨.inField,fields,c::field⟩ (cs++rest) :=
      reads_add hfeed (by simp [hrest]) hadd
    have hlater := ih (fun d hd => hplain d (List.mem_cons_of_mem c hd)) (c::field)
    rw [List.reverse_cons,List.append_assoc,List.singleton_append]
    exact hstep.trans hlater

/-- The characters between the quotes of a field, which may end lines. -/
theorem reads_quoted (hrest : rest ≠ []) (fields : List String) (field : List Char) :
    Reads ⟨.inQuoted,fields,field⟩ (doubled cs++rest) ⟨.inQuoted,fields,cs.reverse++field⟩ rest := by
  induction cs generalizing field with
  | nil => exact Reads.refl _ rest
  | cons c cs ih =>
    have hmore : doubled cs++rest ≠ [] := by simp [hrest]
    have hlater := ih (c::field)
    rw [List.reverse_cons,List.append_assoc,List.singleton_append]
    apply Reads.trans ?_ hlater
    by_cases hquote : c = '"'
    · subst hquote
      have hfirst : Reads ⟨.inQuoted,fields,field⟩ ('"':: '"'::(doubled cs++rest))
          ⟨.quoteInQuoted,fields,field⟩ ('"'::(doubled cs++rest)) := reads_step (by decide) (List.cons_ne_nil _ _) rfl
      exact hfirst.trans (reads_add (by decide) hmore rfl)
    · have hsingle : doubled (c::cs) = c::doubled cs := by simp [doubled,hquote]
      have hadd : process ⟨.inQuoted,fields,field⟩ (some c) = Reader.add ⟨.inQuoted,fields,field⟩ c .inQuoted := by
        simp only [process]
      rw [hsingle,List.cons_append]
      by_cases hfeed : c = '\n'
      · subst hfeed
        -- the line ends inside the quotes, so the record goes on
        by_cases hlimit : fieldLimit ≤ field.length
        · left
          rw [readLines_newline,hadd,Reader.add,if_pos hlimit]
          exact ⟨_,rfl⟩
        · right
          rw [readLines_newline,hadd,Reader.add,if_neg hlimit]
          rfl
      · exact reads_add hfeed hmore hadd

/-- The state behind a separator or the first character of a line end. -/
def closing (c : Char) : State := if c = ',' then .startField else .eatNewline

/-- A written field and what ends it. -/
theorem reads_field {alone : Bool} {s : String} {state : State} (hend : c = ',' ∨ c = '\r')
    (hstate : state = .startField ∨ state = .startRecord ∧ (s = "" → alone = true ∨ c = ',')) (hrest : rest ≠ [])
    (fields : List String) :
    Reads ⟨state,fields,[]⟩ (writeField alone s++c::rest) ⟨closing c,s::fields,[]⟩ rest := by
  have hfeed : c ≠ '\n' := by rcases hend with rfl | rfl <;> decide
  have hback : String.ofList ((s.toList.reverse++[]).reverse) = s := by simp
  rw [writeField]
  split
  · have hopen : Reads ⟨state,fields,[]⟩ ('"'::(doubled s.toList++('"'::c::rest)))
        ⟨.inQuoted,fields,[]⟩ (doubled s.toList++('"'::c::rest)) := by
      apply reads_step (by decide) (by simp)
      rcases hstate with rfl | ⟨rfl,-⟩ <;> rfl
    have hbody : Reads ⟨.inQuoted,fields,[]⟩ (doubled s.toList++('"'::c::rest))
        ⟨.inQuoted,fields,s.toList.reverse++[]⟩ ('"'::c::rest) := reads_quoted (List.cons_ne_nil _ _) fields []
    have hquote : Reads ⟨.inQuoted,fields,s.toList.reverse++[]⟩ ('"'::c::rest)
        ⟨.quoteInQuoted,fields,s.toList.reverse++[]⟩ (c::rest) := reads_step (by decide) (List.cons_ne_nil _ _) rfl
    have hclose : Reads ⟨.quoteInQuoted,fields,s.toList.reverse++[]⟩ (c::rest) ⟨closing c,s::fields,[]⟩ rest := by
      apply reads_step hfeed hrest
      rcases hend with rfl | rfl <;> simp only [process,Reader.save,hback] <;> rfl
    have hall := ((hopen.trans hbody).trans hquote).trans hclose
    simpa only [List.cons_append,List.append_assoc,List.nil_append] using hall
  · rename_i hplain
    simp only [Bool.or_eq_true,not_or,Bool.not_eq_true,List.any_eq_false,Bool.and_eq_true,decide_eq_true_eq] at hplain
    cases hs : s.toList with
    | nil =>
      have hempty : s = "" := String.toList_injective hs
      subst hempty
      apply reads_step hfeed hrest
      rcases hstate with rfl | ⟨rfl,hcomma⟩
      · rcases hend with rfl | rfl <;> rfl
      · rcases hcomma rfl with halone | rfl
        · exact absurd ⟨halone,rfl⟩ hplain.2
        · rfl
    | cons d ds =>
      rw [hs] at hplain hback
      have hd := hplain.1 d List.mem_cons_self
      obtain ⟨hdcomma,hdquote,hdfeed,hdreturn⟩ := special_eq_false (by simpa using hd)
      have hadd : process ⟨state,fields,[]⟩ (some d) = Reader.add ⟨state,fields,[]⟩ d .inField := by
        rcases hstate with rfl | ⟨rfl,-⟩ <;> simp only [process,openField]
      have hfirst : Reads ⟨state,fields,[]⟩ (d::(ds++c::rest)) ⟨.inField,fields,[d]⟩ (ds++c::rest) :=
        reads_add hdfeed (by simp) hadd
      have hds : ∀ e ∈ ds, special e = false := fun e he => by simpa using hplain.1 e (List.mem_cons_of_mem d he)
      have hbody := reads_plain hds (List.cons_ne_nil c rest) fields [d]
      have hclose : Reads ⟨.inField,fields,ds.reverse++[d]⟩ (c::rest) ⟨closing c,s::fields,[]⟩ rest := by
        apply reads_step hfeed hrest
        have hsave : String.ofList ((ds.reverse++[d]).reverse) = s := by simpa using hback
        rcases hend with rfl | rfl <;> simp only [process,Reader.save,hsave,afterEnd] <;> rfl
      exact (hfirst.trans hbody).trans hclose

/-- The fields of a row, up to its line end. -/
theorem reads_separated {alone : Bool} {row : List String} (hrow : row ≠ []) {state : State}
    (hstate : state = .startField ∨ state = .startRecord ∧ (row = [""] → alone = true)) (hrest : rest ≠ [])
    (fields : List String) :
    Reads ⟨state,fields,[]⟩ (separated (row.map (writeField alone))++ '\r'::rest) ⟨.eatNewline,row.reverse++fields,[]⟩ rest := by
  induction row generalizing state fields with
  | nil => exact absurd rfl hrow
  | cons f row ih =>
    cases row with
    | nil =>
      exact reads_field (Or.inr rfl) (hstate.imp_right fun h => ⟨h.1,fun hempty => Or.inl (h.2 (by rw [hempty]))⟩)
        hrest fields
    | cons g row =>
      have hfirst : Reads ⟨state,fields,[]⟩
          (writeField alone f++ ','::(separated ((g::row).map (writeField alone))++ '\r'::rest))
            ⟨.startField,f::fields,[]⟩ (separated ((g::row).map (writeField alone))++ '\r'::rest) :=
        reads_field (Or.inl rfl) (hstate.imp_right fun h => ⟨h.1,fun _ => Or.inr rfl⟩) (by simp) fields
      have hlater : Reads ⟨.startField,f::fields,[]⟩ (separated ((g::row).map (writeField alone))++ '\r'::rest)
          ⟨.eatNewline,(g::row).reverse++(f::fields),[]⟩ rest := ih (by simp) (Or.inl rfl) (f::fields)
      have hall := hfirst.trans hlater
      simpa [separated] using hall

/-- A written row is read, unless a field is too large. -/
theorem readLines_row (row : List String) (rest : List Char) :
    (∃ e, readLines {} (lines (writeRow row++rest)) = ([],some e)) ∨
      readLines {} (lines (writeRow row++rest)) = (row::(readLines {} (lines rest)).1,(readLines {} (lines rest)).2) := by
  cases row with
  | nil =>
    have hreturn : Reads {} ('\r':: '\n'::rest) ⟨.eatNewline,[],[]⟩ ('\n'::rest) :=
      reads_step (by decide) (List.cons_ne_nil _ _) rfl
    apply hreturn.imp_right
    intro h
    exact h.trans readLines_newline
  | cons f row =>
    have hsplit : writeRow (f::row)++rest =
        separated ((f::row).map (writeField ((f::row).length = 1)))++ '\r':: '\n'::rest := by
      simp [writeRow]
    have hfields : Reads {} (separated ((f::row).map (writeField ((f::row).length = 1)))++ '\r':: '\n'::rest)
        ⟨.eatNewline,(f::row).reverse++[],[]⟩ ('\n'::rest) :=
      reads_separated (List.cons_ne_nil f row) (Or.inr ⟨rfl,fun h => by rw [h]; rfl⟩) (List.cons_ne_nil _ _) []
    rw [hsplit]
    apply hfields.imp_right
    intro h
    have hline : readLines ⟨.eatNewline,(f::row).reverse++[],[]⟩ (lines ('\n'::rest)) =
        (((f::row).reverse++[]).reverse::(readLines {} (lines rest)).1,(readLines {} (lines rest)).2) := readLines_newline
    rw [h,hline,List.append_nil,List.reverse_reverse]

/-- What `csv.writer` writes is what `csv.reader` reads, where it reads to the end. -/
theorem read_write {rows : List (List String)} (h : (read (write rows)).2 = none) : (read (write rows)).1 = rows := by
  have hread : read (write rows) = readLines {} (lines (rows.flatMap writeRow)) := by simp [read,write]
  rw [hread] at h ⊢
  induction rows with
  | nil => rfl
  | cons row rows ih =>
    rw [List.flatMap_cons] at h ⊢
    rcases readLines_row row (rows.flatMap writeRow) with ⟨e,he⟩ | hrow
    · rw [he] at h
      cases h
    · rw [hrow] at h ⊢
      rw [ih h (by simp [read,write])]

end Reading

example : write [["a","b, \"c\""],["",""],[""]] = "a,\"b, \"\"c\"\"\"\r\n,\r\n\"\"\r\n" := by decide

/-! ### A row under its header -/

section Header

variable {α : Type*}

theorem zip_append_map (xs : List α) (f g : α → String) (more : List (Option String)) :
    (xs.map f).zip ((xs.map g).map some++more) = xs.map fun x => (f x,some (g x)) := by
  induction xs with
  | nil => rfl
  | cons x xs ih => simp only [List.map_cons,List.cons_append,List.zip_cons_cons,ih]

/-- Under distinct columns every cell is found in its own. -/
theorem cell_map {xs : List α} {f g : α → String} (hnodup : (xs.map f).Nodup) {x : α} (hx : x ∈ xs) :
    cell (xs.map f) (xs.map g) (f x) = some (g x) := by
  have hlookup : ∀ {ys : List α}, (ys.map f).Nodup → x ∈ ys →
      (ys.map fun y => (f y,some (g y))).lookup (f x) = some (some (g x)) := by
    intro ys hys hmem
    induction ys with
    | nil => cases hmem
    | cons y ys ih =>
      rw [List.map_cons,List.nodup_cons] at hys
      rw [List.map_cons,List.lookup_cons]
      rcases List.mem_cons.mp hmem with rfl | hmem
      · simp
      · have hne : f x ≠ f y := fun heq => hys.1 (heq ▸ List.mem_map_of_mem hmem)
        have hb : (f x == f y) = false := by simpa using hne
        rw [hb]
        exact ih hys.2 hmem
  have hreverse : ((xs.reverse).map f).Nodup := by
    rw [List.map_reverse]
    exact List.nodup_reverse.mpr hnodup
  rw [cell,dictRow,zip_append_map,← List.map_reverse,hlookup hreverse (List.mem_reverse.mpr hx)]
  rfl

end Header

end Csv
end Biggy
