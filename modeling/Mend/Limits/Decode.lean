import Mend.Json.Basic
import Mend.Limits
import Mend.Toml.Basic

/-!
# Limits from settings

Limits are given by name, in any order and each at most once, or as a list in a fixed order. What
is not given keeps its standard value; any other name or value is refused.
-/

namespace Mend.Limits

/-- The names of the limits, in the order in which a list gives them. -/
def names : List String :=
  ["lookahead_limit", "completion_iteration_limit", "resolution_iteration_limit"]

/-- The limits with one of them set by its name. -/
def set? (limits : Limits) (name : String) (value : Nat) : Option Limits :=
  match name with
  | "lookahead_limit" => some { limits with lookahead := value }
  | "completion_iteration_limit" => some { limits with completion := value }
  | "resolution_iteration_limit" => some { limits with resolution := value }
  | _ => none

/-- The standard limits with some set by name, each at most once. -/
def ofEntries? (entries : List (String × Nat)) : Option Limits :=
  if (entries.map (·.1)).Nodup then
    entries.foldlM (fun limits (name, value) => limits.set? name value) standard
  else none

/-- The standard limits with the first ones set from a list. -/
def ofList? (values : List Nat) : Option Limits := ofEntries? (names.zip values)

/-- A JSON value as a limit. -/
def value? (json : Json) : Option Nat :=
  json.toNat?.bind fun n => if n ≤ greatest then some n else none

/-- The limits that a JSON value gives. -/
def ofJson? : Json → Option Limits
  | .object members => do
    let entries ← members.mapM fun (name, value) => (value? value).map (name, ·)
    ofEntries? entries
  | .array items => do
    guard (items.length ≤ names.length)
    ofList? (← items.mapM value?)
  | _ => none

/-- The limits as JSON. -/
def toJson (limits : Limits) : Json :=
  .object (names.zip
    [.ofNat limits.lookahead, .ofNat limits.completion, .ofNat limits.resolution])

/-! ## Settings files -/

/-- A whole number as a limit. -/
def natural? : Toml.Value → Option Nat
  | .number value => if 0 ≤ value then some value.toNat else none
  | _ => none

/-- The limits that entries of the table give. -/
def ofTable? (entries : List (Toml.Key × Toml.Value)) : Option Limits := do
  let entries ← entries.mapM fun (key, value) =>
    match key with
    | [name] => (natural? value).map (name, ·)
    | _ => none
  ofEntries? entries

/-- The name of the table that holds the limits. -/
def tableName : String := "recovery"

/-- The entry that a statement with a dotted key makes in the table of limits. -/
def dotted? : Toml.Statement → Option (Toml.Key × Toml.Value)
  | .assign (table :: key) value => if table = tableName then some (key, value) else none
  | _ => none

/-- The entry that a statement below the heading makes in the table of limits. -/
def plain? : Toml.Statement → Option (Toml.Key × Toml.Value)
  | .assign key value => some (key, value)
  | .heading _ => none

/-- The limits that a settings file gives: by a heading and the entries below it, by one value, or
by dotted keys; in only one of these ways. What a list holds behind the limits is not looked at. -/
def ofStatements? : List Toml.Statement → Option Limits
  | [] => some standard
  | .heading key :: rest =>
    if key = [tableName] then do ofTable? (← rest.mapM plain?) else none
  | [.assign [name] (.table entries)] => if name = tableName then ofTable? entries else none
  | [.assign [name] (.list values)] =>
    if name = tableName then do ofList? (← (values.take names.length).mapM natural?) else none
  | statements => do ofTable? (← statements.mapM dotted?)

end Mend.Limits
