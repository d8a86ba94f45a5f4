import ScriptNaming.Graph.Hierarchy
import ScriptNaming.Proofs.WellFormed

/-!
# Nested types

In a well-formed graph, the types around a type are those around the type that it is declared in,
and that type itself (`TypeGraph.WellFormed.enclosing_eq_cons`). In a graph that declarations put
together, a nested type shares the namespace of the type around it, and its type parameters begin
with those of that type (`TypeGraph.Built.nestsTypes`).
-/

namespace ScriptNaming.TypeGraph

/-! ## The types around a type -/

section

variable {g : TypeGraph} (wf : g.WellFormed)

include wf

/-- Types come after the types around them, so that the number of steps of a type `t` is enough. -/
theorem WellFormed.enclosingWithin_eq {t : TypeId} {ty : TypeSymbol} (hty : g.type? t = some ty)
    {steps steps' : Nat} (h : t.index < steps) (h' : t.index < steps') :
    g.enclosingWithin steps ty = g.enclosingWithin steps' ty := by
  induction steps generalizing t ty steps' with
  | zero => omega
  | succ steps ih =>
    obtain ⟨steps', rfl⟩ : ∃ k, steps' = k + 1 := ⟨steps' - 1, by omega⟩
    rw [enclosingWithin, enclosingWithin]
    cases houter : ty.declaringType.bind g.type? with
    | none => rfl
    | some outer =>
      obtain ⟨u, hu, hfound⟩ := Option.bind_eq_some_iff.1 houter
      have hlt := wf.outer_lt hty hu
      exact congrArg (ty :: ·) (ih hfound (by omega) (by omega))

omit wf in
theorem enclosing_eq_singleton {ty : TypeSymbol} (h : ty.declaringType = none) :
    g.enclosing ty = [ty] := by
  simp [enclosing, enclosingWithin, h]

theorem WellFormed.enclosing_eq_cons {t u : TypeId} {ty outer : TypeSymbol}
    (hty : g.type? t = some ty) (hu : ty.declaringType = some u) (houter : g.type? u = some outer) :
    g.enclosing ty = ty :: g.enclosing outer := by
  have hlt := wf.outer_lt hty hu
  have ht := index_lt_of_type? hty
  rw [enclosing, enclosingWithin, hu, Option.bind_some, houter]
  exact congrArg (ty :: ·) (wf.enclosingWithin_eq houter (by omega) (by omega))

end

/-! ## What nested types take over -/

/-- A nested type of `g` shares the namespace of the type around it, whose type parameters come
before its own. -/
def NestsTypes (g : TypeGraph) : Prop :=
  ∀ ⦃t ty u⦄, g.type? t = some ty → ty.declaringType = some u →
    ∃ outer, g.type? u = some outer ∧ ty.space = outer.space ∧
      outer.typeParameters <+: ty.typeParameters

theorem NestsTypes.of_types {g g' : TypeGraph} (h : g.NestsTypes) (types : g'.types = g.types) :
    g'.NestsTypes := by
  obtain ⟨assemblies, types', members⟩ := g'
  subst types
  exact h

theorem NestsTypes.declareType {g g' : TypeGraph} {assembly : AssemblyId} {d : TypeDeclaration}
    {t : TypeId} (h : g.NestsTypes) (hd : g.declareType assembly d = .ok (g', t)) :
    g'.NestsTypes := by
  obtain ⟨around, haround, hd⟩ := bind_eq_ok.1 hd
  obtain ⟨rfl, rfl⟩ := Prod.ext_iff.1 (Except.ok.inj hd)
  intro v ty u hv hu
  obtain hv | ⟨rfl, rfl⟩ := type?_push_cases hv
  · obtain ⟨outer, houter, hshared⟩ := h hv hu
    exact ⟨outer, type?_push _ houter, hshared⟩
  · change d.declaringType = some u at hu
    rw [hu] at haround
    obtain ⟨outer, houter, hsome⟩ := bind_eq_ok.1 haround
    obtain rfl := Except.ok.inj hsome
    exact ⟨outer, type?_push _ (typeOrFault_eq_ok_iff.1 houter), rfl, List.prefix_append _ _⟩

theorem Declares.nestsTypes {g g' : TypeGraph} {t : TypeId} {m : MemberSymbol}
    {accessors : List MemberSymbol} (hd : Declares g t m accessors g') (h : g.NestsTypes) :
    g'.NestsTypes := by
  -- Only the list of members of a type is changed.
  have hold {u : TypeId} {outer : TypeSymbol} (hu : g.type? u = some outer) :
      ∃ members, g'.type? u = some { outer with members := members } := by
    rw [hd.type?_eq]
    split
    · rename_i hut
      exact ⟨outer.members ++ [m.id], by rw [← hut, hu]; rfl⟩
    · exact ⟨outer.members, hu⟩
  intro v ty' u hv hu
  obtain ⟨ty, hty, hcases⟩ := hd.type?_cases hv
  have hsame : ty'.declaringType = ty.declaringType ∧ ty'.space = ty.space ∧
      ty'.typeParameters = ty.typeParameters := by
    obtain ⟨-, rfl⟩ | ⟨-, rfl⟩ := hcases <;> exact ⟨rfl, rfl, rfl⟩
  obtain ⟨hdeclaring, hspace, hparameters⟩ := hsame
  obtain ⟨outer, houter, hshared⟩ := h hty (hdeclaring.symm.trans hu)
  obtain ⟨members, hnew⟩ := hold houter
  rw [hspace, hparameters]
  exact ⟨_, hnew, hshared⟩

/-- In a graph that is put together by declarations, nested types are as their declarations make
them. -/
theorem Built.nestsTypes {g : TypeGraph} (h : g.Built) : g.NestsTypes := by
  induction h with
  | empty => exact fun _ _ _ h => nomatch h
  | @assembly g built name h =>
    obtain ⟨htypes, -⟩ := g.declareAssembly_eq name
    exact h.of_types htypes
  | type built declare h => exact h.declareType declare
  | method built declare h =>
    obtain ⟨m, hdeclares, -⟩ := declares_of_declareMethod declare
    exact hdeclares.nestsTypes h
  | property built declare h =>
    obtain ⟨m, accessors, hdeclares, -⟩ := declares_of_declareProperty declare
    exact hdeclares.nestsTypes h
  | field built declare h =>
    obtain ⟨m, hdeclares, -⟩ := declares_of_declareField declare
    exact hdeclares.nestsTypes h
  | event built declare h =>
    obtain ⟨m, accessors, hdeclares, -⟩ := declares_of_declareEvent declare
    exact hdeclares.nestsTypes h

end ScriptNaming.TypeGraph
