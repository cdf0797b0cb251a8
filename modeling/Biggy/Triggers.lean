import Biggy.Metadata

/-!
# The trigger engine's helpers

The condition test and the template rendering that triggers, feeds and SLA
policies share, and maintenance windows, which hold their alarms.
-/
namespace Biggy
namespace Triggers

/-- `_eval`. -/
def eval (py : PyLib) (op : String) (val : Value) (target : Option String) : Bool :=
  let s := match val with | .null => "" | v => py.str v
  let t := target.getD ""
  match op with
  | "eq" => s == t
  | "ne" => s != t
  | "contains" => isIn t s
  | "not_contains" => !isIn t s
  | "starts_with" => startsWith s t
  | "ends_with" => endsWith s t
  | "empty" => val.blank
  | "not_empty" => !val.blank
  | "is_true" => val.truthy || val.eqOne
  | "is_false" => val.eqZero
  | _ =>
    match py.float val, py.float (.text t) with
    | some fv, some ft =>
      match op with
      | "gt" => ft.lt fv
      | "gte" => ft.lt fv || decide (fv = ft ∧ fv ≠ .nan)
      | "lt" => fv.lt ft
      | "lte" => fv.lt ft || decide (fv = ft ∧ fv ≠ .nan)
      | _ => false
    | _, _ => false

/-- A character of `\w`. -/
def isWord (py : PyLib) (c : Char) : Bool := py.isAlnum c || c == '_'

/-- `_TOKEN.sub` from left to right; `open_` holds the characters after a brace that
may still turn out to be a placeholder, last one first. -/
def substitute (py : PyLib) (row : Row) : Option (List Char) → List Char → List Char
  | none, [] => []
  | none, c::cs => if c = '{' then substitute py row (some []) cs else c :: substitute py row none cs
  | some word, [] => '{' :: word.reverse
  | some word, c::cs =>
    if c = '}' ∧ word ≠ [] then
      (match row (String.ofList word.reverse) with | .null => [] | v => (py.str v).toList) ++
        substitute py row none cs
    else if c = '{' then '{' :: word.reverse ++ substitute py row (some []) cs
    else if isWord py c then substitute py row (some (c::word)) cs
    else '{' :: word.reverse ++ c :: substitute py row none cs

/-- `_render`. -/
def render (py : PyLib) (template : Option String) (row : Row) : String :=
  String.ofList (substitute py row none (template.getD "").toList)

end Triggers

structure MaintenanceWindow where
  tableId : Option ℕ
  startsAt : ℤ
  endsAt : ℤ
  deriving DecidableEq

namespace Maintenance

/-- The window covers the table at the given time. -/
def covers (mt : MetaTable) (now : ℤ) (w : MaintenanceWindow) : Bool :=
  decide (w.startsAt ≤ now) && decide (now < w.endsAt) && (w.tableId.isNone || w.tableId == some mt.id)

/-- `is_active(session, meta_table, at) is not None`. -/
def isActive (windows : List MaintenanceWindow) (mt : MetaTable) (now : ℤ) : Bool :=
  windows.any (covers mt now)

end Maintenance
end Biggy
