/-!
# Script semantics

The outcome of a resolution for each kind of entity: under which name, and in which way, it is
used in script.
-/

namespace ScriptNaming

/-- How a type appears in script. -/
inductive TypeSemantics where
  /-- A type with a dotted full name. -/
  | normalType (name : String) (generatesCode : Bool)
  /-- The type has no place in script. -/
  | notUsable
  deriving DecidableEq, Repr

namespace TypeSemantics

/-- The full name in script. -/
def name? : TypeSemantics → Option String
  | normalType name _ => some name
  | notUsable => none

/-- Whether a type with the semantics `s` has a place in script. -/
def isUsable (s : TypeSemantics) : Bool := s.name?.isSome

end TypeSemantics

/-- How a method is called in script. -/
inductive MethodSemantics where
  /-- A method with a name; without a receiver where it is global. -/
  | normalMethod (name : String) (generatesCode ignoresGenericArgs isGlobal : Bool)
  /-- The call is replaced by a template. -/
  | inlineCode (template : String)
  /-- A static method that is called as an instance method on its first argument. -/
  | instanceMethodOnFirstArgument (name : String)
  /-- The method has no place in script. -/
  | notUsable
  deriving DecidableEq, Repr

namespace MethodSemantics

/-- A method with a `name` and no peculiarities. -/
def normal (name : String) : MethodSemantics := normalMethod name true false false

/-- The name under which the method is called. -/
def name? : MethodSemantics → Option String
  | normalMethod name .. => some name
  | instanceMethodOnFirstArgument name => some name
  | inlineCode _ | notUsable => none

/-- Whether the method is called plainly by its name. -/
def isNormal : MethodSemantics → Bool
  | normalMethod .. => true
  | _ => false

/-- The semantics of a method that stands for another one and so needs no code of its own. -/
def withoutCode : MethodSemantics → MethodSemantics
  | normalMethod name _ ignoresGenericArgs isGlobal =>
    normalMethod name false ignoresGenericArgs isGlobal
  | other => other

end MethodSemantics

/-- How a property is used in script. -/
inductive PropertySemantics where
  /-- As a field. -/
  | field (name : String)
  /-- Through accessor methods, as far as there are any. -/
  | getAndSet (getter setter : Option MethodSemantics)
  /-- Through the brackets of the script language, as far as there are accessors. -/
  | nativeIndexer (canGet canSet : Bool)
  /-- The property has no place in script. -/
  | notUsable
  deriving DecidableEq, Repr

/-- How a field is used in script. -/
inductive FieldSemantics where
  | field (name : String)
  /-- The field has no place in script. -/
  | notUsable
  deriving DecidableEq, Repr

/-- The name of a field. -/
def FieldSemantics.name? : FieldSemantics → Option String
  | field name => some name
  | notUsable => none

/-- How an event is used in script. -/
inductive EventSemantics where
  /-- Through methods that add and remove a handler. -/
  | addAndRemove (adder remover : Option MethodSemantics)
  /-- The event has no place in script. -/
  | notUsable
  deriving DecidableEq, Repr

end ScriptNaming
