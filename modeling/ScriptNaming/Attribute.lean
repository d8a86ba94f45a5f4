import ScriptNaming.Marker

/-!
# Attributes

An attribute is a type name with constant positional arguments. Of an entity's attributes only
two questions are asked: whether a marker is there, and with which arguments. The first attribute
whose name denotes the marker answers both.
-/

namespace ScriptNaming

/-- A constant argument of an attribute. -/
inductive AttributeValue where
  | null
  | bool (value : Bool)
  | int (value : Int64)
  | str (value : String)
  deriving DecidableEq, Repr

/-- The text of a string argument. -/
def AttributeValue.text? : AttributeValue → Option String
  | .str value => some value
  | _ => none

/-- An attribute: the name of its type and its arguments. -/
structure Attribute where
  name : String
  args : List AttributeValue
  deriving DecidableEq, Repr

namespace Attribute

/-- The attribute for the marker `m`, with the arguments `args`. -/
def ofMarker (m : Marker) (args : List AttributeValue) : Attribute :=
  ⟨m.shortName, args⟩

/-- The arguments of the first of `attributes` that denotes `m`. -/
def args? (attributes : List Attribute) (m : Marker) : Option (List AttributeValue) :=
  (attributes.find? fun a => m.isSpelled a.name).map Attribute.args

/-- Whether some of `attributes` denotes `m`. -/
def has (attributes : List Attribute) (m : Marker) : Bool :=
  (args? attributes m).isSome

/-- The text of a marker's first argument: `none` when the marker is missing, `some none` when it
is there but its first argument is missing or is no string. -/
def text? (attributes : List Attribute) (m : Marker) : Option (Option String) :=
  (args? attributes m).map fun args => args.head?.bind AttributeValue.text?

theorem has_iff (attributes : List Attribute) (m : Marker) :
    has attributes m ↔ ∃ a ∈ attributes, m.isSpelled a.name := by
  simp [has, args?]

theorem isSome_text?_eq_has (attributes : List Attribute) (m : Marker) :
    (text? attributes m).isSome = has attributes m := by
  simp [text?, has]

end Attribute

end ScriptNaming
