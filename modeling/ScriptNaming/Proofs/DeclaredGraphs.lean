import ScriptNaming.Proofs.Nesting
import Mathlib.Data.List.Nodup
import Mathlib.Data.List.Perm.Basic

/-!
# What declarations see to

A graph that declarations put together stores what it is meant to store: assemblies have one name
each, every type and member stands at its number, nesting ends, the lists of own members divide up
the members that are no accessors, and accessors are what their owners make them
(`TypeGraph.WellStored`, `TypeGraph.Built.wellStored`). This also goes for graphs whose base types
and links lead nowhere, forward or in circles.

The accessors of a member that overrides itself override nothing, since they are declared before it
has any (`TypeGraph.accessors_of_self_overriding`).
-/

namespace ScriptNaming.TypeGraph

/-! ## The names of assemblies -/

theorem assemblyNamed?_eq_none_iff {g : TypeGraph} {name : String} :
    g.assemblyNamed? name = none ↔ name ∉ g.assemblies.toList := by
  rw [assemblyNamed?, Option.map_eq_none_iff, List.findIdx?_eq_none_iff]
  constructor
  · intro h hmem
    simpa using h name hmem
  · intro h x hx
    exact beq_eq_false_iff_ne.2 fun hname => h (hname ▸ hx)

/-- Where no two assemblies have the same name, `a` is found by its name. -/
theorem assemblyNamed?_eq_some_iff {g : TypeGraph} (hg : g.assemblies.toList.Nodup) {name : String}
    {a : AssemblyId} : g.assemblyNamed? name = some a ↔ g.assemblies[a.index]? = some name := by
  rw [assemblyNamed?, Option.map_eq_some_iff, ← Array.getElem?_toList]
  constructor
  · rintro ⟨i, hi, rfl⟩
    obtain ⟨hlt, hname, -⟩ := List.findIdx?_eq_some_iff_getElem.1 hi
    rw [List.getElem?_eq_getElem hlt, eq_of_beq hname]
  · intro h
    obtain ⟨hlt, hname⟩ := List.getElem?_eq_some_iff.1 h
    refine ⟨a.index, List.findIdx?_eq_some_iff_getElem.2 ⟨hlt, beq_iff_eq.2 hname, ?_⟩, rfl⟩
    intro j hj hbeq
    have hsame := (eq_of_beq hbeq).trans hname.symm
    exact absurd ((List.Nodup.getElem_inj_iff hg).1 hsame) (Nat.ne_of_lt hj)

theorem nodup_declareAssembly {g : TypeGraph} (hg : g.assemblies.toList.Nodup) (name : String) :
    (g.declareAssembly name).1.assemblies.toList.Nodup := by
  unfold declareAssembly
  split
  · exact hg
  · rename_i hnone
    rw [Array.toList_push, ← List.concat_eq_append]
    exact hg.concat (assemblyNamed?_eq_none_iff.1 hnone)

theorem assemblies_of_declareType {g g' : TypeGraph} {assembly : AssemblyId} {d : TypeDeclaration}
    {t : TypeId} (h : g.declareType assembly d = .ok (g', t)) : g'.assemblies = g.assemblies := by
  obtain ⟨ty, rfl, -⟩ := eq_push_of_declareType h
  rfl

/-- Declared assemblies have one name each. -/
theorem Built.nodup_assemblies {g : TypeGraph} (h : g.Built) : g.assemblies.toList.Nodup := by
  induction h with
  | empty => exact .nil
  | assembly built name ih => exact nodup_declareAssembly ih name
  | type built declare ih => rwa [assemblies_of_declareType declare]
  | method built declare ih =>
    obtain ⟨m, hdeclares, -⟩ := declares_of_declareMethod declare
    rwa [hdeclares.assemblies]
  | property built declare ih =>
    obtain ⟨m, accessors, hdeclares, -⟩ := declares_of_declareProperty declare
    rwa [hdeclares.assemblies]
  | field built declare ih =>
    obtain ⟨m, hdeclares, -⟩ := declares_of_declareField declare
    rwa [hdeclares.assemblies]
  | event built declare ih =>
    obtain ⟨m, accessors, hdeclares, -⟩ := declares_of_declareEvent declare
    rwa [hdeclares.assemblies]

/-! ## The outermost type -/

theorem enclosing_eq_self_cons (g : TypeGraph) (ty : TypeSymbol) :
    ∃ around, g.enclosing ty = ty :: around := by
  rw [enclosing, enclosingWithin]
  split
  · exact ⟨_, rfl⟩
  · exact ⟨[], rfl⟩

theorem WellFormed.outermost_eq {g : TypeGraph} (wf : g.WellFormed) {t u : TypeId}
    {ty outer : TypeSymbol} (ht : g.type? t = some ty) (hu : ty.declaringType = some u)
    (houter : g.type? u = some outer) : g.outermost ty = g.outermost outer := by
  obtain ⟨around, haround⟩ := g.enclosing_eq_self_cons outer
  rw [outermost, outermost, wf.enclosing_eq_cons ht hu houter, haround, List.getLastD_cons,
    List.getLastD_cons, List.getLastD_cons]

/-- Going from the type `ty` to the type around it, and on from there, comes to an end. -/
theorem WellFormed.declaringType_outermost {g : TypeGraph} (wf : g.WellFormed) {t : TypeId}
    {ty : TypeSymbol} (ht : g.type? t = some ty) : (g.outermost ty).declaringType = none := by
  -- The type around a type has a smaller number.
  induction hn : t.index using Nat.strongRecOn generalizing t ty with
  | ind n ih =>
    cases hu : ty.declaringType with
    | none =>
      rw [outermost, enclosing_eq_singleton hu]
      exact hu
    | some u =>
      have hlt := wf.outer_lt ht hu
      have hsize := index_lt_of_type? ht
      have houter : g.type? u = some g.types[u.index] := Array.getElem?_eq_getElem (by omega)
      rw [wf.outermost_eq ht hu houter]
      exact ih u.index (hn ▸ hlt) houter rfl

/-! ## The lists of own members -/

theorem mem_types_iff {g : TypeGraph} {ty : TypeSymbol} :
    ty ∈ g.types.toList ↔ ∃ t, g.type? t = some ty := by
  rw [Array.mem_toList_iff, Array.mem_iff_getElem?]
  exact ⟨fun ⟨i, hi⟩ => ⟨⟨i⟩, hi⟩, fun ⟨t, ht⟩ => ⟨t.index, ht⟩⟩

theorem mem_members_iff {g : TypeGraph} {x : MemberSymbol} :
    x ∈ g.members.toList ↔ ∃ m, g.member? m = some x := by
  rw [Array.mem_toList_iff, Array.mem_iff_getElem?]
  exact ⟨fun ⟨i, hi⟩ => ⟨⟨i⟩, hi⟩, fun ⟨m, hm⟩ => ⟨m.index, hm⟩⟩

section

variable {g : TypeGraph} (wf : g.WellFormed)

include wf

theorem WellFormed.nodup_listed : (g.types.toList.flatMap TypeSymbol.members).Nodup := by
  rw [List.nodup_flatMap]
  constructor
  · intro ty hty
    obtain ⟨t, ht⟩ := mem_types_iff.1 hty
    refine (wf.ascending ht).imp fun hlt heq => ?_
    exact absurd (congrArg MemberId.index heq) (Nat.ne_of_lt hlt)
  · rw [List.pairwise_iff_getElem]
    intro i j hi hj hij m hm hm'
    -- A member that two types list is declared by both of them.
    have htype (k : Nat) (hk : k < g.types.toList.length) : g.type? ⟨k⟩ = some g.types.toList[k] :=
      (Array.getElem?_toList ..).symm.trans (List.getElem?_eq_getElem hk)
    obtain ⟨x, hx, hdeclaring, -⟩ := wf.listed (htype i hi) hm
    obtain ⟨x', hx', hdeclaring', -⟩ := wf.listed (htype j hj) hm'
    obtain rfl := Option.some.inj (hx.symm.trans hx')
    exact absurd (TypeId.mk.inj (hdeclaring.symm.trans hdeclaring')) (Nat.ne_of_lt hij)

theorem WellFormed.nodup_ids : (g.members.toList.map MemberSymbol.id).Nodup := by
  rw [List.Nodup, List.pairwise_map, List.pairwise_iff_getElem]
  intro i j hi hj hij hid
  have hmember (k : Nat) (hk : k < g.members.toList.length) :
      g.member? ⟨k⟩ = some g.members.toList[k] :=
    (Array.getElem?_toList ..).symm.trans (List.getElem?_eq_getElem hk)
  rw [wf.member_id (hmember i hi), wf.member_id (hmember j hj)] at hid
  exact absurd (MemberId.mk.inj hid) (Nat.ne_of_lt hij)

/-- The lists of all types together have the members that are no accessors, each of them once. -/
theorem WellFormed.listed_perm : (g.types.toList.flatMap TypeSymbol.members).Perm
    ((g.members.toList.filter (·.accessorOf.isNone)).map MemberSymbol.id) := by
  have hsublist := (List.filter_sublist (p := (·.accessorOf.isNone))
    (l := g.members.toList)).map MemberSymbol.id
  refine (List.perm_ext_iff_of_nodup wf.nodup_listed (wf.nodup_ids.sublist hsublist)).2 fun m => ?_
  rw [List.mem_flatMap, List.mem_map]
  constructor
  · rintro ⟨ty, hty, hm⟩
    obtain ⟨t, ht⟩ := mem_types_iff.1 hty
    obtain ⟨x, hx, -, hof⟩ := wf.listed ht hm
    refine ⟨x, List.mem_filter.2 ⟨mem_members_iff.2 ⟨m, hx⟩, ?_⟩, wf.member_id hx⟩
    rw [hof, Option.isNone_none]
  · rintro ⟨x, hx, rfl⟩
    obtain ⟨hmem, hof⟩ := List.mem_filter.1 hx
    obtain ⟨k, hk⟩ := mem_members_iff.1 hmem
    obtain ⟨ty, hty, hlisted⟩ := wf.declaringType hk
    rw [wf.member_id hk]
    exact ⟨ty, mem_types_iff.2 ⟨_, hty⟩, hlisted (Option.isNone_iff_eq_none.1 hof)⟩

end

/-! ## Accessors -/

/-- All accessors are what their owners make them, and those of one owner are for values of one
type. -/
def FollowsOwners (g : TypeGraph) : Prop :=
  ∀ ⦃m owner⦄, g.member? m = some owner → ∃ typeName, ∀ slot a, owner.accessor? slot = some a →
    ∃ y, g.member? a = some y ∧ FollowsOwner g owner slot typeName y

/-- What an accessor `a` has to be does not change as the graph grows from `g` to `g'`. -/
theorem FollowsOwner.mono {g g' : TypeGraph} {owner a : MemberSymbol} {slot : AccessorSlot}
    {typeName : String} (ha : FollowsOwner g owner slot typeName a)
    (hold : ∀ c x, g.member? c = some x → g'.member? c = some x) :
    FollowsOwner g' owner slot typeName a := by
  have hlink (c : MemberId) (hc : c ∈ owner.links) :
      g.linkedAccessor? owner slot c = g'.linkedAccessor? owner slot c := by
    obtain ⟨x, hx⟩ := ha.link_exists c hc
    simp only [linkedAccessor?, accessorIn?, hx, hold c x hx]
  refine { ha with link_exists := ?_, overridden := ?_, implements := ?_ }
  · intro c hc
    obtain ⟨x, hx⟩ := ha.link_exists c hc
    exact ⟨x, hold c x hx⟩
  · rw [ha.overridden]
    exact Option.bind_congr fun c hc => hlink c (MemberSymbol.mem_links.2 (.inl hc))
  · rw [ha.implements]
    exact List.filterMap_congr fun c hc => hlink c (MemberSymbol.mem_links.2 (.inr hc))

theorem Declares.followsOwners {g g' : TypeGraph} {t : TypeId} {m : MemberSymbol}
    {accessors : List MemberSymbol} {typeName : String} (h : Declares g t m accessors g')
    (hnew : AccessorsFollow g' m accessors typeName) (hg : g.FollowsOwners) :
    g'.FollowsOwners := by
  intro k owner hk
  obtain hk | ⟨rfl, rfl⟩ | ⟨i, hi, rfl⟩ := h.member?_cases hk
  · obtain ⟨typeName', hfollows⟩ := hg hk
    refine ⟨typeName', fun slot a ha => ?_⟩
    obtain ⟨y, hy, hfollow⟩ := hfollows slot a ha
    exact ⟨y, h.member?_old hy, hfollow.mono fun c x => h.member?_old⟩
  · refine ⟨typeName, fun slot a ha => ?_⟩
    obtain ⟨i, y, hi, rfl⟩ := h.slot slot a ha
    obtain ⟨slot', ha', hfollow⟩ := hnew y (List.mem_of_getElem? hi)
    obtain rfl := h.slot_unique slot slot' _ ha ha'
    exact ⟨y, h.member?_accessor hi, hfollow⟩
  · refine ⟨typeName, fun slot a ha => ?_⟩
    rw [MemberSymbol.accessor?_of_accessorOf (h.accessor i owner hi).2.2.1] at ha
    cases ha

/-- A member without accessors has none that could differ. -/
theorem accessorsFollow_nil (g : TypeGraph) (m : MemberSymbol) : AccessorsFollow g m [] "" :=
  fun _ ha => nomatch ha

theorem FollowsOwners.of_members {g g' : TypeGraph} (hg : g.FollowsOwners)
    (members : g'.members = g.members) : g'.FollowsOwners := by
  have hold (c : MemberId) : g'.member? c = g.member? c := by rw [member?, member?, members]
  intro m owner hm
  obtain ⟨typeName, hfollows⟩ := hg ((hold m).symm.trans hm)
  refine ⟨typeName, fun slot a ha => ?_⟩
  obtain ⟨y, hy, hfollow⟩ := hfollows slot a ha
  exact ⟨y, (hold a).trans hy, hfollow.mono fun c x hx => (hold c).trans hx⟩

/-- Declared accessors are what their owners make them. -/
theorem Built.followsOwners {g : TypeGraph} (h : g.Built) : g.FollowsOwners := by
  induction h with
  | empty => exact fun _ _ h => nomatch h
  | @assembly g built name ih => exact ih.of_members (g.declareAssembly_eq name).2
  | type built declare ih =>
    obtain ⟨ty, rfl, -⟩ := eq_push_of_declareType declare
    exact ih.of_members rfl
  | method built declare ih =>
    obtain ⟨m, hdeclares, -⟩ := declares_of_declareMethod declare
    exact hdeclares.followsOwners (accessorsFollow_nil _ _) ih
  | property built declare ih =>
    obtain ⟨m, accessors, hdeclares, -, -, -, -, -, hnew⟩ := declares_of_declareProperty declare
    exact hdeclares.followsOwners hnew ih
  | field built declare ih =>
    obtain ⟨m, hdeclares, -⟩ := declares_of_declareField declare
    exact hdeclares.followsOwners (accessorsFollow_nil _ _) ih
  | event built declare ih =>
    obtain ⟨m, accessors, hdeclares, -, -, -, -, -, hnew⟩ := declares_of_declareEvent declare
    exact hdeclares.followsOwners hnew ih

/-! ## The whole graph -/

/-- A graph in which everything is stored where, and as, declarations are to store it. -/
structure WellStored (g : TypeGraph) : Prop where
  type_id : ∀ ⦃t ty⦄, g.type? t = some ty → ty.id = t
  member_id : ∀ ⦃m x⦄, g.member? m = some x → x.id = m
  /-- No two assemblies have the same name. -/
  assembly_unique : g.assemblies.toList.Nodup
  assemblyNamed : ∀ name a, g.assemblyNamed? name = some a ↔ g.assemblies[a.index]? = some name
  outer_lt : ∀ ⦃t ty u⦄, g.type? t = some ty → ty.declaringType = some u → u.index < t.index
  /-- Nesting ends. -/
  outermost : ∀ ⦃t ty⦄, g.type? t = some ty → (g.outermost ty).declaringType = none
  ascending : ∀ ⦃t ty⦄, g.type? t = some ty → ty.members.Pairwise fun a b => a.index < b.index
  /-- A type lists only members of its own. -/
  own : ∀ ⦃t ty m⦄, g.type? t = some ty → m ∈ ty.members →
    ∃ x, g.member? m = some x ∧ x.declaringType = t
  /-- All types together list the members that are no accessors, each of them once. -/
  listed : (g.types.toList.flatMap TypeSymbol.members).Perm
    ((g.members.toList.filter (·.accessorOf.isNone)).map MemberSymbol.id)
  /-- The owner of an accessor has it in one place. -/
  owner : ∀ ⦃a y m⦄, g.member? a = some y → y.accessorOf = some m →
    ∃ x, g.member? m = some x ∧ ∃! slot, x.accessor? slot = some a
  accessors : g.FollowsOwners

/-- **Declarations keep the graph in order**: whatever is declared one after another, the graph is
stored as it is to be. -/
theorem Built.wellStored {g : TypeGraph} (h : g.Built) : g.WellStored where
  type_id := h.wellFormed.type_id
  member_id := h.wellFormed.member_id
  assembly_unique := h.nodup_assemblies
  assemblyNamed _ _ := assemblyNamed?_eq_some_iff h.nodup_assemblies
  outer_lt := h.wellFormed.outer_lt
  outermost _ _ := h.wellFormed.declaringType_outermost
  ascending := h.wellFormed.ascending
  own t ty m ht hm := by
    obtain ⟨x, hx, hdeclaring, -⟩ := h.wellFormed.listed ht hm
    exact ⟨x, hx, hdeclaring⟩
  listed := h.wellFormed.listed_perm
  owner a y m ha hof := by
    obtain ⟨x, slot, hx, hslot⟩ := h.wellFormed.accessorOf ha hof
    exact ⟨x, hx, slot, hslot, fun slot' hslot' => h.wellFormed.slot_unique hx hslot' hslot⟩
  accessors := h.followsOwners

/-- A class with a property that overrides itself, and in it a class with a property that overrides
the first one. -/
def nodeDeclarations : Except Fault TypeGraph := do
  let (g, core) := declareAssembly ∅ "Core"
  let (g, node) ← g.declareType core { name := "Node" }
  let (g, next) ← g.declareProperty node { name := "Next", overrides := some ⟨0⟩ }
  let (g, leaf) ← g.declareType core
    { name := "Leaf", declaringType := some node, baseTypes := [node] }
  let (g, _) ← g.declareProperty leaf { name := "Next", overrides := some next }
  return g

/-- The graph of the two classes. -/
def nodeGraph : TypeGraph := nodeDeclarations.toOption.getD ∅

theorem built_nodeGraph : nodeGraph.Built := by
  have hg : nodeDeclarations = .ok nodeGraph := eq_ok_getD (by decide +kernel)
  obtain ⟨⟨g₁, node⟩, hnode, h⟩ := bind_eq_ok.1 hg
  obtain ⟨⟨g₂, next⟩, hnext, h⟩ := bind_eq_ok.1 h
  obtain ⟨⟨g₃, leaf⟩, hleaf, h⟩ := bind_eq_ok.1 h
  obtain ⟨⟨g₄, _⟩, hoverride, h⟩ := bind_eq_ok.1 h
  rw [← Except.ok.inj h]
  have houter : g₂.Built := .property (.type (.assembly .empty "Core") hnode) hnext
  exact .property (.type houter hleaf) hoverride

theorem wellStored_nodeGraph : nodeGraph.Built ∧ nodeGraph.WellStored :=
  ⟨built_nodeGraph, built_nodeGraph.wellStored⟩

/-- The accessors of the property that overrides itself override nothing. -/
theorem accessors_of_self_overriding : nodeGraph.Built ∧
    ¬∀ ⦃m owner slot a y⦄, nodeGraph.member? m = some owner → owner.accessor? slot = some a →
      nodeGraph.member? a = some y →
        y.overridden = owner.overridden.bind (nodeGraph.accessorIn? slot) := by
  refine ⟨built_nodeGraph, fun h => ?_⟩
  have hrun : (nodeGraph.member? ⟨0⟩).any fun owner => (nodeGraph.member? ⟨1⟩).any fun y =>
      owner.accessor? .getter = some ⟨1⟩ ∧
        y.overridden ≠ owner.overridden.bind (nodeGraph.accessorIn? .getter) := by
    decide +kernel
  obtain ⟨owner, howner, hrest⟩ := (Option.any_eq_true _ _).1 hrun
  obtain ⟨y, hy, hrest⟩ := (Option.any_eq_true _ _).1 hrest
  obtain ⟨hslot, hne⟩ := of_decide_eq_true hrest
  exact hne (h howner hslot hy)

end ScriptNaming.TypeGraph
