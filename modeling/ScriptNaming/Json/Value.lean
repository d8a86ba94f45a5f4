/-!
# JSON values

`Json` is the value that a JSON text denotes, with the distinctions that the readers of this
library make: whole numbers are kept apart from other numbers, the members of an object keep
their order and their repetitions, and `Json.unreadable` stands for what is spelled correctly
but denotes nothing, such as a string with half of a surrogate pair. An unreadable value may be
passed over, but no reader accepts it.
-/

namespace ScriptNaming

/-- The value of a JSON text. -/
inductive Json where
  | null
  | bool (value : Bool)
  /-- A number written without fraction and exponent, other than minus zero. -/
  | int (value : Int)
  /-- Any other number, as it is written. -/
  | fraction (text : String)
  | str (value : String)
  | arr (elements : List Json)
  | obj (members : List (String × Json))
  /-- Correctly spelled, but without a value. -/
  | unreadable
  deriving Inhabited

namespace Json

mutual

/-- How many arrays and objects lie within each other in a value. -/
def depth : Json → Nat
  | .arr elements => depthOfElements elements + 1
  | .obj members => depthOfMembers members + 1
  | _ => 0

/-- The depth of the deepest element. -/
def depthOfElements : List Json → Nat
  | [] => 0
  | value :: rest => max (depth value) (depthOfElements rest)

/-- The depth of the deepest member. -/
def depthOfMembers : List (String × Json) → Nat
  | [] => 0
  | (_, value) :: rest => max (depth value) (depthOfMembers rest)

end

mutual

/-- Whether no part of a value is unreadable. -/
def isReadable : Json → Bool
  | .arr elements => areReadable elements
  | .obj members => membersAreReadable members
  | .unreadable => false
  | _ => true

/-- Whether no element has an unreadable part. -/
def areReadable : List Json → Bool
  | [] => true
  | value :: rest => isReadable value && areReadable rest

/-- Whether no member has an unreadable part. -/
def membersAreReadable : List (String × Json) → Bool
  | [] => true
  | (_, value) :: rest => isReadable value && membersAreReadable rest

end

end Json

end ScriptNaming
