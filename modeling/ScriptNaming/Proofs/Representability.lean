import ScriptNaming.Proofs.MemberEntries
import ScriptNaming.Proofs.Nesting

/-!
# Types without a place in script

A marker takes a type its place in script, and with it all types that are declared in it and all
their members (`representability_propagates`). Processing the members of such a type writes nothing
down but that they have no place in script (`processMembers_onlyLeavesOut`).
-/

namespace ScriptNaming

open ResolutionState

/-! ## Types -/

theorem ResolvedType.isUsable_iff {r : ResolvedType} :
    r.isUsable ↔ r.semantics ≠ .notUsable := by
  unfold isUsable TypeSemantics.isUsable
  cases r.semantics <;> simp [TypeSemantics.name?]

theorem TypeGraph.self_mem_enclosing (g : TypeGraph) (ty : TypeSymbol) :
    ty ∈ g.enclosing ty := by
  unfold enclosing enclosingWithin
  split
  · exact .head _
  · exact .head _

/-- Where every entry in `types` follows from the one for the type around it, a type `t` is without
a place in script exactly if a marker is on it or on a type around it. -/
theorem TypeGraph.TypesFit.notUsable_iff {g : TypeGraph} {options : Options}
    {types : Table TypeId ResolvedType} (wf : g.WellFormed) (hfit : g.TypesFit options types)
    {t : TypeId} {ty : TypeSymbol} {r : ResolvedType} (hty : g.type? t = some ty)
    (hr : types.find? t = some r) :
    r.semantics = .notUsable ↔ ∃ u ∈ g.enclosing ty, u.has .nonScriptable := by
  -- Types come after the types around them, whose entries are there before.
  induction h : t.index using Nat.strong_induction_on generalizing t ty r with
  | _ n ih =>
    have haround {u : TypeId} {outer : ResolvedType} (hu : ty.declaringType = some u)
        (houter : types.find? u = some outer) : ∃ outerType,
          g.enclosing ty = ty :: g.enclosing outerType ∧
          (outer.semantics = .notUsable ↔ ∃ v ∈ g.enclosing outerType, v.has .nonScriptable) := by
      obtain ⟨outerType, houterType, -⟩ := hfit houter
      exact ⟨outerType, wf.enclosing_eq_cons hty hu houterType,
        ih u.index (h ▸ wf.outer_lt hty hu) houterType houter rfl⟩
    obtain ⟨ty', hty', hfits⟩ := hfit hr
    obtain rfl := Option.some.inj (hty.symm.trans hty')
    cases hfits with
    | marked has eq =>
      subst eq
      exact iff_of_true rfl ⟨ty, g.self_mem_enclosing ty, has⟩
    | enclosed hasNot u outer declaringType found unusable eq =>
      subst eq
      obtain ⟨outerType, henclosing, hiff⟩ := haround declaringType found
      have hnot : ¬outer.isUsable := by simp [unusable]
      obtain ⟨v, hv, has⟩ := hiff.1 (not_not.1 (mt ResolvedType.isUsable_iff.2 hnot))
      exact iff_of_true rfl ⟨v, henclosing ▸ .tail _ hv, has⟩
    | usable hasNot outer found usable taken eq =>
      subst eq
      refine iff_of_false (fun hnot => nomatch hnot) ?_
      cases hu : ty.declaringType with
      | none =>
        rw [TypeGraph.enclosing_eq_singleton hu]
        simpa using hasNot
      | some u =>
        rw [hu] at found
        cases outer with
        | none => cases found
        | some outer =>
          obtain ⟨outerType, henclosing, hiff⟩ := haround hu (Option.some.inj found)
          rw [henclosing]
          rintro ⟨v, hv, has⟩
          rcases List.mem_cons.1 hv with rfl | hv
          · exact hasNot has
          · exact ResolvedType.isUsable_iff.1 (usable outer rfl) (hiff.2 ⟨v, hv, has⟩)

/-! ## Members -/

/-- Whenever a type without a place in script is done, its members have none either. -/
theorem isLeftOut_of_done {g : TypeGraph} {options : Options} {t : TypeId} {ty : TypeSymbol}
    {s : ResolutionState} {resolved : ResolvedType} (wf : g.WellFormed) (hs : s.Reached g options)
    (ht : s.Done t) (hty : g.type? t = some ty) (hentry : s.types.find? t = some resolved)
    (hunusable : ¬resolved.isUsable) : ∀ m ∈ g.membersOf ty, m.IsLeftOut s.recordOf := by
  have stable : DependsOnRecords fun m s => m.IsLeftOut s.recordOf := fun _ _ _ h heq => h.congr heq
  refine settled_of_done wf hs ht hty stable ?_
  intro resolved' hentry' ensure hensure
  obtain rfl := Option.some.inj (hentry.symm.trans hentry')
  exact {
    member := fun husable => absurd husable hunusable
    alternate := fun husable => absurd husable hunusable
    leftOut := fun _ _ _ _ _ _ hmark => markNotUsable_isLeftOut hmark }

/-- What processing the members of a type without a place in script comes to: the members of the
base types are processed, and after that nothing changes but that the own members are left out. The
type takes over the names of the base types. -/
theorem processMembers_onlyLeavesOut {g : TypeGraph} {options : Options}
    {ensure : TypeId → Resolve Unit} {ty : TypeSymbol} {resolved : ResolvedType}
    {names : NameRegistry} {s s' : ResolutionState} (hunusable : ¬resolved.isUsable)
    (h : processMembers g options ensure ty resolved s = .ok (names, s')) :
    ∃ bases s₁, g.allBaseTypes ty = .ok bases ∧ bases.forM ensure s = .ok ((), s₁) ∧
      names = .merged (bases.filterMap s₁.memberNames.find?) ∧
      s₁.OnlyLeavesOut (g.membersOf ty) s' := by
  obtain ⟨bases, s₁, hbases, hrun, -, hrest⟩ := processMembers_eq_ok h
  obtain ⟨hmark, hnames⟩ := hrest hunusable
  exact ⟨bases, s₁, hbases, hrun, hnames,
    forM_markNotUsable_onlyLeavesOut (fun m hm => mem_sortBy.1 hm) hmark⟩

/-! ## Resolutions -/

/-- A resolution of the roots ends in the state `s`. -/
def TypeGraph.RunsTo (g : TypeGraph) (options : Options) (roots : List TypeId) (main : AssemblyId)
    (s : ResolutionState) : Prop :=
  ∃ sorted, g.sortedRoots roots = .ok sorted ∧
    ((sorted.filter (g.isResolvedRoot main)).map TypeSymbol.id).forM (resolveRoot g options)
      .initial = .ok ((), s)

/-- **Representability propagates**: a type that `r` has resolved is without a place in script
exactly if it or a type around it is marked so. When the members of such a type are done, all of
them and their accessors are without a place in script, and the names of the type are those with
which the processing of its members ended; and whenever they are processed, the members of the base
types come first, after which nothing changes but that the own members are left out, and the type
takes over the names of the base types. -/
theorem representability_propagates {g : TypeGraph} (hg : g.Built) {options : Options}
    {roots : List TypeId} {main : AssemblyId} {r : Resolution}
    (h : g.resolve options roots main = .ok r) :
    (∀ t resolved, r.types.find? t = some resolved → ∃ ty, g.type? t = some ty ∧
      (resolved.semantics = .notUsable ↔ ∃ u ∈ g.enclosing ty, u.has .nonScriptable)) ∧
    ∃ s, g.RunsTo options roots main s ∧ r = s.toResolution ∧
      ∀ t ty resolved, g.type? t = some ty → r.types.find? t = some resolved →
        resolved.semantics = .notUsable →
        (s.Done t → (∀ m ∈ g.membersOf ty, m.IsLeftOut r.recordOf) ∧
          ∃ steps s₀ names s', processMembers g options (ensureMembersWithin g options steps) ty
            resolved s₀ = .ok (names, s') ∧ s'.Later g s ∧ s.memberNames.find? t = some names) ∧
        ∀ ensure s₀ names s', processMembers g options ensure ty resolved s₀ = .ok (names, s') →
          ∃ bases s₁, g.allBaseTypes ty = .ok bases ∧ bases.forM ensure s₀ = .ok ((), s₁) ∧
            names = .merged (bases.filterMap s₁.memberNames.find?) ∧
            s₁.OnlyLeavesOut (g.membersOf ty) s' := by
  have wf := hg.wellFormed
  obtain ⟨sorted, s, hsorted, hrun, rfl⟩ := resolve_eq_ok h
  obtain ⟨hreached, -⟩ := reached_of_forM_resolveRoot wf (.initial g options) rfl hrun
  have hfit : g.TypesFit options s.types := hreached.sound.types
  refine ⟨fun t resolved hentry => ?_, s, ⟨sorted, hsorted, hrun⟩, rfl, ?_⟩
  · obtain ⟨ty, hty, -⟩ := hfit hentry
    exact ⟨ty, hty, hfit.notUsable_iff wf hty hentry⟩
  · intro t ty resolved hty hentry hsemantics
    have hunusable : ¬resolved.isUsable := fun husable =>
      ResolvedType.isUsable_iff.1 husable hsemantics
    refine ⟨fun hdone => ⟨isLeftOut_of_done wf hreached hdone hty hentry hunusable, ?_⟩,
      fun ensure s₀ names s' => processMembers_onlyLeavesOut hunusable⟩
    obtain ⟨p, rfl, hp⟩ := hreached.exists_leadsTo wf hdone
    obtain rfl := Option.some.inj (hty.symm.trans p.known)
    obtain rfl := Option.some.inj (hentry.symm.trans hp.entry)
    exact ⟨p.steps, p.before, p.names, p.after, p.run, hp.later, hp.names⟩

/-- A class that a marker takes out of script, and a class in it that inherits from a third one and
declares a method, a property, a field and an event. -/
def cellarClasses : Except Fault TypeGraph := do
  let (g, zoo) := TypeGraph.declareAssembly ∅ "Zoo"
  let (g, rack) ← g.declareType zoo { name := "Rack" }
  let (g, cellar) ← g.declareType zoo
    { name := "Cellar", attributes := [⟨"NonScriptable", []⟩] }
  let (g, shelf) ← g.declareType zoo
    { name := "Shelf", declaringType := some cellar, baseTypes := [rack] }
  let (g, _) ← g.declareMethod rack { name := "Hold" }
  let (g, _) ← g.declareMethod shelf { name := "Sort" }
  let (g, _) ← g.declareProperty shelf { name := "Width" }
  let (g, _) ← g.declareField shelf { name := "Label" }
  let (g, _) ← g.declareEvent shelf { name := "Filled" }
  return g

/-- The graph of the three classes. -/
def cellarGraph : TypeGraph := cellarClasses.toOption.getD ∅

theorem built_cellarGraph : cellarGraph.Built := by
  have hg : cellarClasses = .ok cellarGraph := eq_ok_getD (by decide +kernel)
  obtain ⟨⟨g₁, rack⟩, hrack, h⟩ := bind_eq_ok.1 hg
  obtain ⟨⟨g₂, cellar⟩, hcellar, h⟩ := bind_eq_ok.1 h
  obtain ⟨⟨g₃, shelf⟩, hshelf, h⟩ := bind_eq_ok.1 h
  obtain ⟨⟨g₄, _⟩, hhold, h⟩ := bind_eq_ok.1 h
  obtain ⟨⟨g₅, _⟩, hsort, h⟩ := bind_eq_ok.1 h
  obtain ⟨⟨g₆, _⟩, hwidth, h⟩ := bind_eq_ok.1 h
  obtain ⟨⟨g₇, _⟩, hlabel, h⟩ := bind_eq_ok.1 h
  obtain ⟨⟨g₈, _⟩, hfilled, h⟩ := bind_eq_ok.1 h
  rw [← Except.ok.inj h]
  have htypes : g₃.Built := .type (.type (.type (.assembly .empty "Zoo") hrack) hcellar) hshelf
  exact .event (.field (.property (.method (.method htypes hhold) hsort) hwidth) hlabel) hfilled

/-- The nested class has no place in script because of the class around it, and the class that it
inherits from has one. -/
theorem shelf_not_representable :
    cellarGraph.Built ∧ ∃ r, cellarGraph.resolve {} [⟨2⟩] ⟨0⟩ = .ok r ∧
      r.types.find? ⟨0⟩ = some ⟨.normalType "Rack" true, false⟩ ∧
      r.types.find? ⟨2⟩ = some .notUsable ∧ r.methods.find? ⟨1⟩ = some .notUsable ∧
      r.properties.find? ⟨2⟩ = some .notUsable ∧ r.fields.find? ⟨5⟩ = some .notUsable ∧
      r.events.find? ⟨6⟩ = some .notUsable ∧
      (∀ t resolved, r.types.find? t = some resolved → ∃ ty, cellarGraph.type? t = some ty ∧
        (resolved.semantics = .notUsable ↔
          ∃ u ∈ cellarGraph.enclosing ty, u.has .nonScriptable)) ∧
      ∃ s, cellarGraph.RunsTo {} [⟨2⟩] ⟨0⟩ s ∧ r = s.toResolution ∧
        ∀ t ty resolved, cellarGraph.type? t = some ty → r.types.find? t = some resolved →
          resolved.semantics = .notUsable →
          (s.Done t → (∀ m ∈ cellarGraph.membersOf ty, m.IsLeftOut r.recordOf) ∧
            ∃ steps s₀ names s',
              processMembers cellarGraph {} (ensureMembersWithin cellarGraph {} steps) ty resolved
                s₀ = .ok (names, s') ∧ s'.Later cellarGraph s ∧
              s.memberNames.find? t = some names) ∧
          ∀ ensure s₀ names s',
            processMembers cellarGraph {} ensure ty resolved s₀ = .ok (names, s') →
            ∃ bases s₁, cellarGraph.allBaseTypes ty = .ok bases ∧
              bases.forM ensure s₀ = .ok ((), s₁) ∧
              names = .merged (bases.filterMap s₁.memberNames.find?) ∧
              s₁.OnlyLeavesOut (cellarGraph.membersOf ty) s' := by
  have hrun : (cellarGraph.resolve {} [⟨2⟩] ⟨0⟩).toOption.any fun r =>
      r.types.find? ⟨0⟩ = some ⟨.normalType "Rack" true, false⟩ ∧
      r.types.find? ⟨2⟩ = some .notUsable ∧ r.methods.find? ⟨1⟩ = some .notUsable ∧
      r.properties.find? ⟨2⟩ = some .notUsable ∧ r.fields.find? ⟨5⟩ = some .notUsable ∧
      r.events.find? ⟨6⟩ = some .notUsable := by
    decide +kernel
  obtain ⟨r, hr, hrest⟩ := exists_of_any_toOption hrun
  obtain ⟨hrack, hshelf, hsort, hwidth, hlabel, hfilled⟩ := of_decide_eq_true hrest
  exact ⟨built_cellarGraph, r, hr, hrack, hshelf, hsort, hwidth, hlabel, hfilled,
    representability_propagates built_cellarGraph hr⟩

end ScriptNaming
