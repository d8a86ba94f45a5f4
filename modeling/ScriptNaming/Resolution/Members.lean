import ScriptNaming.Resolution.DataMember
import ScriptNaming.Resolution.TypeNaming
import ScriptNaming.Sorting

/-!
# The members of a type

The members of a type are resolved after those of everything that it inherits from
(`processMembers`):

1. the registries of the base types are merged;
2. the own members get their preferred names in the canonical order, which goes by kind, name,
   number of parameters and parameter types, and so does not depend on the order of declaration;
3. they are resolved in groups with the same preferred name, the groups in the order in which they
   first come up, and in each group the explicit names before the others (`namingPlan`);
4. alternate signatures follow their main methods.

Classifying a method may ask for a method of another type, whose members are then resolved first.
`ensureMembersWithin` bounds the number of types that are so begun within each other. In a graph
with `n` types no more than `n` of them can be in progress at once, so that `n + 1` is always enough
(`ensureMembers`).
-/

namespace ScriptNaming

/-! ## The canonical order -/

/-- Compares two members `a` and `b` of one type by kind, name, number of parameters and parameter
types. -/
def canonicalOrder (a b : MemberSymbol) : Ordering :=
  (compare a.kindRank b.kindRank).then <|
  (compare a.name b.name).then <|
  (compare a.parameters.length b.parameters.length).then <|
  compare a.parameterTypeList b.parameterTypeList

/-- The own members of `ty` in the canonical order. -/
def TypeGraph.canonicalMembers (g : TypeGraph) (ty : TypeSymbol) : List MemberSymbol :=
  sortBy (fun a b => (canonicalOrder a b).isLE) (g.membersOf ty)

/-! ## The order of naming -/

/-- The `members` with their preferred names, in the order in which they are resolved: grouped by
preferred name in the order of first appearance, in each group the explicit names first. -/
def namingPlan (members : List (MemberSymbol × PreferredName)) :
    List (MemberSymbol × PreferredName) :=
  (members.map (·.2.name)).eraseDups.flatMap fun name =>
    let group := members.filter (·.2.name == name)
    group.filter (·.2.isSpecified) ++ group.filter (!·.2.isSpecified)

/-- The own members of `ty` that stand in for a main method, each with that method. -/
def TypeGraph.alternates (g : TypeGraph) (ty : TypeSymbol) :
    List (MemberSymbol × MemberSymbol) :=
  (g.canonicalMembers ty).filterMap fun m =>
    match g.mainMethod ty m with
    | .unique main => some (m, main)
    | _ => none

/-- The other own members of `ty`, in the canonical order. -/
def TypeGraph.namedMembers (g : TypeGraph) (ty : TypeSymbol) : List MemberSymbol :=
  (g.canonicalMembers ty).filter fun m =>
    match g.mainMethod ty m with
    | .unique _ => false
    | _ => true

/-! ## Processing -/

/-- The semantics of a method, for which `ensure` resolves the members of its type where they are
not resolved yet. A reference that leads out of the graph has no semantics. -/
def methodSemanticsBy (g : TypeGraph) (ensure : TypeId → Resolve Unit) (m : MemberId) :
    Resolve (Option MethodSemantics) := do
  match (← get).methods.find? m with
  | some semantics => return some semantics
  | none =>
    match g.member? m with
    | none => return none
    | some member =>
      ensure member.declaringType
      return (← get).methods.find? m

/-- Resolves the own members of a usable type, starting from the names `inherited` that it
inherits. -/
def MemberContext.resolveMembers (c : MemberContext) (inherited : NameRegistry) :
    Resolve NameRegistry := do
  let members := c.graph.namedMembers c.type
  let preferred := members.map fun m => c.graph.preferredName c.options c.type c.resolved m
  report (preferred.flatMap Prod.snd)
  let plan := namingPlan (members.zip (preferred.map Prod.fst))
  let names ← plan.foldlM (fun names (m, name) => c.resolveMember m name names) inherited
  (c.graph.alternates c.type).forM fun (m, main) => resolveAlternate m main
  return names

/-- Resolves the own members of `ty` by means of `ensure`, which resolves those of another type, and
returns the names that are visible on instances of `ty`. If `ty` is not usable, all its members are
left out here and none is classified. -/
def processMembers (g : TypeGraph) (options : Options) (ensure : TypeId → Resolve Unit)
    (ty : TypeSymbol) (resolved : ResolvedType) : Resolve NameRegistry := do
  let bases ← g.allBaseTypes ty
  bases.forM ensure
  let registries := (← get).memberNames
  let inherited := NameRegistry.merged (bases.filterMap registries.find?)
  if resolved.isUsable then
    MemberContext.resolveMembers
      { graph := g, options := options, semanticsOf := methodSemanticsBy g ensure, type := ty,
        resolved := resolved } inherited
  else
    (g.canonicalMembers ty).forM markNotUsable
    return inherited

/-- Resolves the members of `t` by means of `ensure`, unless they are resolved or in progress. If
too many types are in progress, a debug assertion fails, which is a fault; that a release build goes
on without the members of `t` then is not modelled. -/
def ensureMembersBy (g : TypeGraph) (options : Options) (ensure : TypeId → Resolve Unit)
    (t : TypeId) : Resolve Unit := do
  if (← get).memberNames.contains t then return ()
  else do
    let resolved ← ensureType g options t
    let ty ← g.typeOrFault t
    match (← get).memberGuard.enter t with
    | .cycle => return ()
    | .tooDeep => throw (.inheritanceTooDeep ty.fullName)
    | .entered guard =>
      modify fun s => { s with memberGuard := guard }
      let names ← processMembers g options ensure ty resolved
      let guard ← (← get).memberGuard.leaveOrFault t
      modify fun s => { s with
        memberGuard := guard
        memberNames := s.memberNames.insert t names }

/-- Resolves the members of a type, with no more than the given number of types begun within each
other. -/
def ensureMembersWithin (g : TypeGraph) (options : Options) : Nat → TypeId → Resolve Unit
  | 0, _ => throw .stepsExhausted
  | steps + 1, t => ensureMembersBy g options (ensureMembersWithin g options steps) t

/-- Resolves the members of the type `t`, after those of the types that it depends on. -/
def ensureMembers (g : TypeGraph) (options : Options) (t : TypeId) : Resolve Unit :=
  ensureMembersWithin g options (g.types.size + 1) t

end ScriptNaming
