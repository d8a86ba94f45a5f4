import ScriptNaming.Json.Value

/-!
# Reading records from JSON values

A record has named fields in a fixed order. It is written as an object, or as an array with the
values of its first fields (`Json.fields?`). In an object, names that the record does not know
are passed over, and a name that it knows may not be repeated. An open record is written as an
object only, and it reads the unknown members too before it drops them (`Json.openFields?`).

Readers for single values go from `Json` to `Option`: they answer `none` for a value of another
shape. `Json.required?` and `Json.orElse?` lift them to fields that may be missing.
-/

namespace ScriptNaming.Json

/-! ## Single values -/

/-- Reads a string. -/
def string? : Json → Option String
  | .str value => some value
  | _ => none

/-- Reads a truth value. -/
def bool? : Json → Option Bool
  | .bool value => some value
  | _ => none

/-- Reads an array whose elements are all read by `read`. -/
def list? {α : Type} (read : Json → Option α) : Json → Option (List α)
  | .arr elements => elements.mapM read
  | _ => none

/-- Reads a value that may be `null`. -/
def nullable? {α : Type} (read : Json → Option α) : Json → Option (Option α)
  | .null => some none
  | value => (read value).map some

/-- Reads one of several named values, written as its name or as an object with `null` under its
name. -/
def named? {α : Type} (values : List (String × α)) : Json → Option α
  | .str name => values.lookup name
  | .obj [(name, .null)] => values.lookup name
  | _ => none

/-! ## Fields -/

/-- The values of a record's fields. -/
abbrev Fields := String → Option Json

/-- The value under `name` among the members of an object. -/
def memberValue? (members : List (String × Json)) (name : String) : Option Json :=
  members.lookup name

/-- Whether none of `names` is repeated among the members of an object. -/
def namesOnce (names : List String) (members : List (String × Json)) : Bool :=
  names.all fun name => decide ((members.filter (·.1 == name)).length ≤ 1)

/-- The fields of a record with the names `names`. -/
def fields? (names : List String) : Json → Option Fields
  | .obj members => if namesOnce names members then some (memberValue? members) else none
  | .arr values =>
    if values.length ≤ names.length then some (fun name => (names.zip values).lookup name)
    else none
  | _ => none

/-- Whether `value`, which no field is named for, can be read: no part of it is unreadable, and it
is not deeper than `levels`. -/
def isPassable (levels : Nat) (value : Json) : Bool :=
  value.isReadable && decide (value.depth ≤ levels)

/-- The fields of an open record with the names `names`; values that no field is named for are no
deeper than `levels`. -/
def openFields? (names : List String) (levels : Nat) : Json → Option Fields
  | .obj members =>
    if namesOnce names members &&
        members.all (fun (name, value) => names.contains name || isPassable levels value) then
      some (memberValue? members)
    else none
  | _ => none

/-- Reads by `read` a field that must be there. -/
def required? {α : Type} (read : Json → Option α) (field : Option Json) : Option α :=
  field.bind read

/-- Reads by `read` a field that has the value `missing` when it is missing. -/
def orElse? {α : Type} (read : Json → Option α) (missing : α) (field : Option Json) : Option α :=
  field.elim (some missing) read

/-- Reads by `read` the elements of a list that is empty when it is missing. -/
def orEmpty? {α : Type} (read : Json → Option α) (field : Option Json) : Option (List α) :=
  orElse? (list? read) [] field

/-- Reads an optional value that may be missing or `null`. -/
def optional? {α : Type} (read : Json → Option α) (field : Option Json) : Option (Option α) :=
  orElse? (nullable? read) none field

end ScriptNaming.Json
