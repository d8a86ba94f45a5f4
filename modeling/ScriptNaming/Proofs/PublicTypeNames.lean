import ScriptNaming.Proofs.MinimizedTypeNames
import ScriptNaming.Proofs.RootIndependence

/-!
# Names of public types

Minimization is for what other assemblies cannot see. A public type never gets a generated name, and
as the types around it are public too, none of them does. So what a public type comes to follows
from declarations alone, whatever the options, the roots and the names that hidden types take in the
meantime (`public_types_fixed`).
-/

namespace ScriptNaming

variable {g : TypeGraph} {options options' : Options}

/-- The type `u` around a public type `t` is public. -/
theorem TypeGraph.WellFormed.isPublicType_outer (wf : g.WellFormed) {t u : TypeId}
    {ty outer : TypeSymbol} (hty : g.type? t = some ty) (hu : ty.declaringType = some u)
    (houter : g.type? u = some outer) (hpublic : g.isPublicType ty) : g.isPublicType outer := by
  rw [isPublicType, wf.enclosing_eq_cons hty hu houter, List.all_cons, Bool.and_eq_true] at hpublic
  exact hpublic.2

/-- **Minimization never changes a public type**: two resolutions `r` and `r'`, with whatever
options, from whatever roots and for whatever main assemblies, agree about every public type that
both have resolved. -/
theorem public_types_fixed (hg : g.Built) {roots roots' : List TypeId} {main main' : AssemblyId}
    {r r' : Resolution} (h : g.resolve options roots main = .ok r)
    (h' : g.resolve options' roots' main' = .ok r') {t : TypeId} {ty : TypeSymbol}
    (hty : g.type? t = some ty) (hpublic : g.isPublicType ty) {a a' : ResolvedType}
    (ha : r.types.find? t = some a) (ha' : r'.types.find? t = some a') :
    a.semantics = a'.semantics ∧ a.hasGlobalMembers = a'.hasGlobalMembers := by
  have wf := hg.wellFormed
  obtain ⟨s, rfl, hs, -⟩ := reached_of_resolve wf h
  obtain ⟨s', rfl, hs', -⟩ := reached_of_resolve wf h'
  obtain rfl : a = a' := hs.sound.types.unique_within wf
    (fun _ _ _ _ hty hu houter => wf.isPublicType_outer hty hu houter)
    (fun _ hpublic => TypeGraph.resolvedType_of_not_generatesName
      (TypeGraph.not_generatesName_of_isPublicType hpublic)
      (TypeGraph.not_generatesName_of_isPublicType hpublic)) hs'.sound.types hty hpublic ha ha'
  exact ⟨rfl, rfl⟩

/-- A public class with a public generic class in it, and a hidden class next to them. All have
their script namespace from a marker. -/
def parkTypes : Except Fault TypeGraph := do
  let attributes : List Attribute := [.ofMarker .scriptNamespace [.str "zoo"]]
  let (g, core) := TypeGraph.declareAssembly ∅ "Core"
  let (g, park) ← g.declareType core { name := "Park", space := "Parks", attributes := attributes }
  let (g, _) ← g.declareType core
    { name := "Gate", declaringType := some park, typeParameters := ["T"] }
  let (g, _) ← g.declareType core
    { name := "Keeper", space := "Parks", accessibility := .internal, attributes := attributes }
  return g

/-- The graph of the park. -/
def parkGraph : TypeGraph := parkTypes.toOption.getD ∅

theorem built_parkGraph : parkGraph.Built := by
  have hg : parkTypes = .ok parkGraph := eq_ok_getD (by decide +kernel)
  obtain ⟨⟨g₁, park⟩, hpark, h⟩ := bind_eq_ok.1 hg
  obtain ⟨⟨g₂, _⟩, hgate, h⟩ := bind_eq_ok.1 h
  obtain ⟨⟨g₃, _⟩, hkeeper, h⟩ := bind_eq_ok.1 h
  rw [← Except.ok.inj h]
  exact .type (.type (.type (.assembly .empty "Core") hpark) hgate) hkeeper

/-- The nested class is called the same with minimization and without, unlike the hidden class. -/
theorem gate_name_fixed :
    parkGraph.Built ∧ ∃ r r' ty a a', parkGraph.resolve {} [⟨1⟩, ⟨2⟩] ⟨0⟩ = .ok r ∧
      parkGraph.resolve { minimizeNames := true } [⟨0⟩, ⟨1⟩, ⟨2⟩] ⟨0⟩ = .ok r' ∧
      r.types.typeName? ⟨2⟩ = some "zoo.$Keeper" ∧ r'.types.typeName? ⟨2⟩ = some "zoo.$0" ∧
      parkGraph.type? ⟨1⟩ = some ty ∧ parkGraph.isPublicType ty ∧ r.types.find? ⟨1⟩ = some a ∧
      r'.types.find? ⟨1⟩ = some a' ∧ a.semantics = .normalType "zoo.Park$Gate$1" true ∧
      a.semantics = a'.semantics ∧ a.hasGlobalMembers = a'.hasGlobalMembers := by
  have hrun : (parkGraph.resolve {} [⟨1⟩, ⟨2⟩] ⟨0⟩).toOption.any fun r =>
      r.types.typeName? ⟨2⟩ = some "zoo.$Keeper" ∧
        r.types.find? ⟨1⟩ = some ⟨.normalType "zoo.Park$Gate$1" true, false⟩ := by
    decide +kernel
  have hrun' : (parkGraph.resolve { minimizeNames := true } [⟨0⟩, ⟨1⟩, ⟨2⟩] ⟨0⟩).toOption.any fun r =>
      r.types.typeName? ⟨2⟩ = some "zoo.$0" ∧ r.types.contains ⟨1⟩ := by
    decide +kernel
  obtain ⟨r, hr, hrest⟩ := exists_of_any_toOption hrun
  obtain ⟨r', hr', hrest'⟩ := exists_of_any_toOption hrun'
  obtain ⟨hkeeper, hgate⟩ := of_decide_eq_true hrest
  obtain ⟨hkeeper', hcontains⟩ := of_decide_eq_true hrest'
  obtain ⟨a', hgate'⟩ := Option.isSome_iff_exists.1 hcontains
  have htype : (parkGraph.type? ⟨1⟩).any parkGraph.isPublicType := by decide +kernel
  obtain ⟨ty, hty, hpublic⟩ := (Option.any_eq_true _ _).1 htype
  exact ⟨built_parkGraph, r, r', ty, _, a', hr, hr', hkeeper, hkeeper', hty, hpublic, hgate, hgate',
    rfl, public_types_fixed built_parkGraph hr hr' hty hpublic hgate hgate'⟩

end ScriptNaming
