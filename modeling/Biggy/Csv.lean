import Mathlib.Data.List.Basic
import Mathlib.Tactic.Common

/-!
# Comma-separated text

`read` is `csv.reader` in its default dialect over the lines of a text: a state machine
that takes one character at a time, with `none` for the end of a line. A record goes on
over several lines while a quoted field is open. `cell` is a value of a `csv.DictReader` row.
-/
namespace Biggy
namespace Csv

inductive State
  | startRecord | startField | inField | inQuoted | quoteInQuoted | eatNewline
  deriving DecidableEq

/-- A record that is being read: its fields and the characters of the open one, last first. -/
structure Reader where
  state : State := .startRecord
  fields : List String := []
  field : List Char := []

def fieldLimit : ℕ := 131072

def Reader.save (r : Reader) (next : State) : Reader where
  state := next
  fields := String.ofList r.field.reverse :: r.fields

def Reader.add (r : Reader) (c : Char) (next : State) : Except String Reader :=
  if fieldLimit ≤ r.field.length then .error "field larger than field limit (131072)"
  else .ok { r with field := c::r.field, state := next }

/-- The state behind the end of a field: a line end that is spelled out is still to be eaten. -/
def afterEnd : Option Char → State
  | none => .startRecord
  | some _ => .eatNewline

def openField (r : Reader) : Option Char → Except String Reader
  | some '"' => .ok { r with state := .inQuoted }
  | some ',' => .ok (r.save .startField)
  | some '\n' => .ok (r.save .eatNewline)
  | some '\r' => .ok (r.save .eatNewline)
  | some c => r.add c .inField
  | none => .ok (r.save .startRecord)

/-- `parse_process_char`. -/
def process (r : Reader) (c : Option Char) : Except String Reader :=
  match r.state with
  | .startRecord =>
    match c with
    | none => .ok r
    | some '\n' | some '\r' => .ok { r with state := .eatNewline }
    | some c => openField r (some c)
  | .startField => openField r c
  | .inField =>
    match c with
    | none | some '\n' | some '\r' => .ok (r.save (afterEnd c))
    | some ',' => .ok (r.save .startField)
    | some c => r.add c .inField
  | .inQuoted =>
    match c with
    | none => .ok r
    | some '"' => .ok { r with state := .quoteInQuoted }
    | some c => r.add c .inQuoted
  | .quoteInQuoted =>
    match c with
    | none | some '\n' | some '\r' => .ok (r.save (afterEnd c))
    | some ',' => .ok (r.save .startField)
    | some '"' => r.add '"' .inQuoted
    | some c => r.add c .inField
  | .eatNewline =>
    match c with
    | none => .ok { r with state := .startRecord }
    | some '\n' | some '\r' => .ok r
    | some _ => .error "new-line character seen in unquoted field - do you need to open the file with newline=''?"

/-- The characters of one line and its end. -/
def readLine (r : Reader) : List Char → Except String Reader
  | [] => process r none
  | c::cs =>
    match process r (some c) with
    | .error e => .error e
    | .ok r' => readLine r' cs

/-- The records of the lines, up to the exception that ends the reading. -/
def readLines (r : Reader) : List (List Char) → List (List String) × Option String
  | [] => if r.field ≠ [] ∨ r.state = .inQuoted then ([(r.save .startRecord).fields.reverse],none) else ([],none)
  | line::lines =>
    match readLine r line with
    | .error e => ([],some e)
    | .ok r' =>
      if r'.state = .startRecord then
        let later := readLines {} lines
        (r'.fields.reverse::later.1,later.2)
      else readLines r' lines

/-- The lines of a text, each with its line feed. -/
def lines : List Char → List (List Char)
  | [] => []
  | c::cs =>
    if c = '\n' then [c]::lines cs
    else
      match lines cs with
      | [] => [[c]]
      | l::ls => (c::l)::ls

def read (text : String) : List (List String) × Option String := readLines {} (lines text.toList)

/-- The items of a row under the header; a short row leaves its last columns empty. -/
def dictRow (header row : List String) : List (String × Option String) :=
  header.zip (row.map some ++ List.replicate header.length none)

/-- `row.get(name)`: the last column of a name counts. -/
def cell (header row : List String) (name : String) : Option String :=
  ((dictRow header row).reverse.lookup name).join

/-- A column that the header does not name has no cell in any row. -/
theorem cell_absent {header : List String} {name : String} (h : name ∉ header) (row : List String) :
    cell header row name = none := by
  have hnone : (dictRow header row).reverse.lookup name = none := by
    rw [List.lookup_eq_none_iff]
    intro p hp
    have hmem : p.1 ∈ header := (List.of_mem_zip (List.mem_reverse.mp hp)).1
    have hne : name ≠ p.1 := fun heq => h (heq.symm ▸ hmem)
    simpa using hne
  rw [cell,hnone]
  rfl

example : read "id,name\n7,\"Ann, \"\"A\"\"\"\r\n\n8,x" =
    ([["id","name"],["7","Ann, \"A\""],[],["8","x"]],none) := by decide

end Csv
end Biggy
