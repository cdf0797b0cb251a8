import Biggy.FormTemplates

/-!
# Dictionaries over JSON values

What the program looks up in a dict by a value that it has read: the keys of a dict as they are told apart, `value[key]` and
`value.get(key)` of a value that need not be an object, and dicts whose keys come from a file.
-/
namespace Biggy
namespace PyDict

/-- A hashable value, as dicts and sets tell it apart. -/
inductive Key
  | null
  | text (s : String)
  | number (x : PyFloat)
  deriving DecidableEq

def hash : Json → Except PyError Key
  | .null => .ok .null
  | .str s => .ok (.text s)
  | value =>
    match FormTemplates.number value with
    | some x => .ok (.number x)
    | none => .error .typeError

/-! ### Members of a value -/

/-- `value[key]`. -/
def member (value : Json) (key : String) : Except PyError Json :=
  match value with
  | .obj members =>
    match members.lookup key with
    | some found => .ok found
    | none => .error .keyError
  | _ => .error .typeError

/-- `value.get(key, default)`. -/
def getOr (value : Json) (key : String) (default : Json) : Except PyError Json :=
  match value with
  | .obj members => .ok ((members.lookup key).getD default)
  | _ => .error .attributeError

/-! ### Dicts -/

section Dict

variable {α : Type*}

/-- `dict.get(value)`. -/
def find (dict : List (Key × α)) (value : Json) : Except PyError (Option α) := (hash value).map (dict.lookup ·)

/-- `dict[value]`. -/
def need (dict : List (Key × α)) (value : Json) : Except PyError α :=
  (find dict value).bind fun found =>
    match found with
    | some a => .ok a
    | none => .error .keyError

/-- `dict[value] = a`. -/
def assign (dict : List (Key × α)) (value : Json) (a : α) : Except PyError (List (Key × α)) :=
  (hash value).map fun k => Keyed.put Prod.fst (k,a) dict

theorem mem_of_lookup {dict : List (Key × α)} {k : Key} {a : α} (h : dict.lookup k = some a) : (k,a) ∈ dict := by
  obtain ⟨before,after,rfl,-⟩ := List.lookup_eq_some_iff.mp h
  exact List.mem_append_right _ List.mem_cons_self

theorem find_mem {dict : List (Key × α)} {value : Json} {a : α} (h : find dict value = .ok (some a)) : ∃ k, (k,a) ∈ dict := by
  obtain ⟨k,-,hlookup⟩ := Outcome.map_ok h
  exact ⟨k,mem_of_lookup hlookup⟩

theorem need_find {dict : List (Key × α)} {value : Json} {a : α} (h : need dict value = .ok a) :
    find dict value = .ok (some a) := by
  obtain ⟨found,hfound,hrest⟩ := Outcome.bind_ok h
  cases found with
  | none => cases hrest
  | some b =>
    rw [hfound,Except.ok.inj hrest]

theorem need_mem {dict : List (Key × α)} {value : Json} {a : α} (h : need dict value = .ok a) : ∃ k, (k,a) ∈ dict :=
  find_mem (need_find h)

theorem mem_assign {dict more : List (Key × α)} {value : Json} {a : α} (h : assign dict value a = .ok more) {p : Key × α}
    (hp : p ∈ more) : p.2 = a ∨ p ∈ dict := by
  obtain ⟨k,-,rfl⟩ := Outcome.map_ok h
  rcases Keyed.mem_put hp with rfl | hold
  · exact Or.inl rfl
  · exact Or.inr hold

end Dict

end PyDict
end Biggy
