import ScriptNaming.Graph

/-!
# Nesting and inheritance

* `TypeGraph.enclosing` lists a type and the types around it, from the inside out;
  `TypeGraph.isPublicType` and `TypeGraph.outermost` are read off that list.
* `TypeGraph.allBaseTypes` lists everything that a type inherits from, depth first and in the
  order of declaration, also where the base types form cycles.
-/

namespace ScriptNaming.TypeGraph

/-! ## Nesting -/

/-- A type and the types around it, from the inside out, as far as the given number of types. -/
def enclosingWithin (g : TypeGraph) : Nat → TypeSymbol → List TypeSymbol
  | 0, _ => []
  | steps + 1, ty =>
    match ty.declaringType.bind g.type? with
    | some outer => ty :: enclosingWithin g steps outer
    | none => [ty]

/-- The type `ty` and the types around it, from the inside out. In an acyclic graph the list cannot
be longer than the number of types. -/
def enclosing (g : TypeGraph) (ty : TypeSymbol) : List TypeSymbol :=
  g.enclosingWithin (g.types.size + 1) ty

/-- The outermost of the types around `ty`, which is `ty` itself when it is not nested. -/
def outermost (g : TypeGraph) (ty : TypeSymbol) : TypeSymbol :=
  (g.enclosing ty).getLastD ty

/-- Whether `ty` can be seen from other assemblies: it and all types around it are externally
visible. -/
def isPublicType (g : TypeGraph) (ty : TypeSymbol) : Bool :=
  (g.enclosing ty).all (·.accessibility.isExternallyVisible)

/-- Whether `m` can be seen from other assemblies: it is externally visible in a public type. -/
def isPublicMember (g : TypeGraph) (m : MemberSymbol) : Bool :=
  m.accessibility.isExternallyVisible && (g.type? m.declaringType).any g.isPublicType

/-! ## Inheritance -/

/-- The number of times that some type names some base type. -/
def inheritanceCount (g : TypeGraph) : Nat :=
  (g.types.toList.flatMap (·.baseTypes)).length

/-- The types met by going through `pending` depth first and passing over those in `seen`. Every
pending type takes a step. -/
def baseTypesFrom (g : TypeGraph) : (steps : Nat) → (pending seen : List TypeId) →
    Except Fault (List TypeId)
  | _, [], _ => .ok []
  | 0, _ :: _, _ => .error .stepsExhausted
  | steps + 1, t :: pending, seen =>
    if seen.contains t then baseTypesFrom g steps pending seen
    else do
      let ty ← g.typeOrFault t
      let rest ← baseTypesFrom g steps (ty.baseTypes ++ pending) (t :: seen)
      return t :: rest

/-- Every base class and interface that `ty` inherits from, directly or not, without `ty` itself and
without repetitions, depth first and in the order of declaration. No type's base types become
pending twice, so the steps suffice. -/
def allBaseTypes (g : TypeGraph) (ty : TypeSymbol) : Except Fault (List TypeId) :=
  g.baseTypesFrom g.inheritanceCount ty.baseTypes [ty.id]

end ScriptNaming.TypeGraph
