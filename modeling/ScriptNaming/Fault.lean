/-!
# Faults

A `Fault` ends an operation without a result. It never reports a problem of the source program,
which is what diagnostics are for: it shows that an operation was called with something that its
caller should not have passed, such as a reference that leads out of the graph. A failed debug
assertion is a fault like any other: operations are those of a build with assertions on, and what a
release build goes on with instead is not modelled.
-/

namespace ScriptNaming

/-- The kinds of entities that a resolution answers for. -/
inductive EntityKind where
  | type
  | method
  | property
  | field
  | event
  deriving DecidableEq, Repr

/-- The word for a kind of entity. -/
def EntityKind.label : EntityKind → String
  | .type => "type"
  | .method => "method"
  | .property => "property"
  | .field => "field"
  | .event => "event"

/-- Why an operation ended without a result. -/
inductive Fault where
  /-- A reference by number that leads out of a sequence of the given length. -/
  | outOfBounds (length index : Nat)
  /-- A debug assertion fails: the enclosing types of a type are too many, or enclose each other. -/
  | nestingDenied (typeName : String)
  /-- A debug assertion fails: a type is reached through too many types in progress. -/
  | inheritanceTooDeep (typeName : String)
  /-- A debug assertion fails: a type is done without being in progress. -/
  | notInProgress
  /-- Every suffix of a base name is taken. -/
  | suffixesExhausted (base : String)
  /-- An entity that the resolution has no answer for. -/
  | unresolved (kind : EntityKind) (reference : String)
  /-- A bound on the number of steps was too small for the graph. -/
  | stepsExhausted
  deriving DecidableEq, Repr

/-- The wording of a fault. -/
def Fault.message : Fault → String
  | .outOfBounds length index =>
    "index out of bounds: the len is " ++ toString length ++ " but the index is " ++ toString index
  | .nestingDenied typeName =>
    "type nesting of " ++ typeName ++ " is cyclic or deeper than the supported limit"
  | .inheritanceTooDeep typeName =>
    "inheritance of " ++ typeName ++ " is deeper than the supported limit"
  | .notInProgress =>
    "RecursionGuard::leave() called with a key that is not in the visiting set"
  | .suffixesExhausted base => "exhausted name suffixes for base name '" ++ base ++ "'"
  | .unresolved kind reference =>
    kind.label ++ " " ++ reference ++ " was not resolved in this run"
  | .stepsExhausted => "the bound on the number of steps is too small"

/-- The element of `xs` at `i`, or the fault that `i` is out of bounds. -/
def elementOrFault {α : Type} (xs : Array α) (i : Nat) : Except Fault α :=
  match xs[i]? with
  | some x => .ok x
  | none => .error (.outOfBounds xs.size i)

theorem elementOrFault_eq_ok_iff {α : Type} {xs : Array α} {i : Nat} {x : α} :
    elementOrFault xs i = .ok x ↔ xs[i]? = some x := by
  unfold elementOrFault
  split <;> simp_all

theorem elementOrFault_eq_error_iff {α : Type} {xs : Array α} {i : Nat} {e : Fault} :
    elementOrFault xs i = .error e ↔ xs.size ≤ i ∧ e = .outOfBounds xs.size i := by
  unfold elementOrFault
  split
  · rename_i h
    simp only [reduceCtorEq, false_iff, not_and]
    intro hi
    simp [Array.getElem?_eq_none hi] at h
  · rename_i h
    simp only [Array.getElem?_eq_none_iff] at h
    simp [h, eq_comm]

end ScriptNaming
