import ScriptNaming.Proofs.Allocation
import ScriptNaming.Proofs.NamingSequence

/-!
# Accessors of members that choose their names

An accessor that follows an owner with a chosen name would like to be called by a stem and that
name. It is, unless this name is taken when the accessor comes up (`accessor_name_verbatim_iff`), as
it may be (`accessor_name_not_verbatim`).
-/

namespace ScriptNaming

open ResolutionState

/-! ## Names that are taken -/

/-- A member of a type that `t` inherits from has registered the name. -/
def Resolution.InheritsName (r : Resolution) (g : TypeGraph) (t : TypeId) (name : String) : Prop :=
  ∃ u, g.Inherits t u ∧ ∃ k, g.Declared u k ∧ (r.recordOf k).registeredName? = some name

/-- A member of the type `ty` that is named before `k` has registered the name. -/
def Resolution.RegistersBefore (r : Resolution) (g : TypeGraph) (options : Options)
    (ty : TypeSymbol) (resolved : ResolvedType) (k : MemberId) (name : String) : Prop :=
  ∃ j, [j, k].Sublist (g.namingSequence options ty resolved) ∧
    (r.recordOf j).registeredName? = some name

/-- The names in `names` are those that are taken when the member `k` of the type `ty` is named. -/
structure Resolution.TakenAt (r : Resolution) (g : TypeGraph) (options : Options) (ty : TypeSymbol)
    (resolved : ResolvedType) (k : MemberId) (names : NameRegistry) : Prop where
  before : ∀ name, r.RegistersBefore g options ty resolved k name → names.contains name
  /-- Where base types or links lead to types that come later, not all base types need be done. -/
  inherited : g.Layered → ∀ name, r.InheritsName g ty.id name → names.contains name
  only : ∀ name, names.contains name →
    r.InheritsName g ty.id name ∨ r.RegistersBefore g options ty resolved k name

section

variable {g : TypeGraph} {options : Options} {s : ResolutionState} {t : TypeId}

/-- The names that a type starts from are registered by what it inherits from. -/
theorem inheritsName_of_contains (wf : g.WellFormed) {ty : TypeSymbol} (hty : g.type? t = some ty)
    {bases : List TypeId} (hbases : g.allBaseTypes ty = .ok bases) {s₁ : ResolutionState}
    (hs₁ : s₁.Reached g options) (hlater : s₁.Later g s) {name : String}
    (h : (NameRegistry.merged (bases.filterMap s₁.memberNames.find?)).contains name) :
    s.toResolution.InheritsName g t name := by
  obtain ⟨names, hmem, hname⟩ := NameRegistry.contains_merged.1 h
  obtain ⟨b, hb, hnames⟩ := List.mem_filterMap.1 hmem
  obtain ⟨u, hu, hdone, k, ⟨x, hx, hxu⟩, hregistered⟩ :=
    exists_registered_of_contains wf hs₁ hnames hname
  refine ⟨u, .trans_left (TypeGraph.inherits_of_mem_allBaseTypes hty hbases b hb) hu, k,
    ⟨x, hx, hxu⟩, ?_⟩
  have hrecord : s.recordOf k = s₁.recordOf k := hlater.records hx (hxu ▸ hdone)
  exact (congrArg MemberRecord.registeredName? hrecord).trans hregistered

/-- Each member that comes up in a type that is done is named when these names are taken. -/
theorem exists_takenAt (wf : g.WellFormed) (hs : s.Reached g options) (ht : s.Done t) :
    ∃ ty resolved, g.type? t = some ty ∧ s.types.find? t = some resolved ∧
      ∀ k ∈ g.namingSequence options ty resolved, ∃ names names',
        s.toResolution.TakenAt g options ty resolved k names ∧
          g.NamesMember options ty resolved names k (s.recordOf k) names' := by
  obtain ⟨names, hnames⟩ := done_iff.1 ht
  obtain ⟨ty, resolved, bases, s₁, hty, hresolved, hbases, hs₁, -, hlater, hdone, hturn⟩ :=
    namesInTurn_of_done wf hs hnames
  obtain rfl := wf.type_id hty
  refine ⟨ty, resolved, hty, hresolved, fun k hk => ?_⟩
  have hnodup : (g.namingSequence options ty resolved).Nodup := nodup_namingSequence wf hty
  obtain ⟨before, after, hsplit⟩ := List.append_of_mem hk
  rw [hsplit] at hturn hnodup
  obtain ⟨names₁, names₂, hbefore, hmember, -⟩ := hturn.split
  have hregisters (name : String) : s.toResolution.RegistersBefore g options ty resolved k name ↔
      ∃ j ∈ before, (s.recordOf j).registeredName? = some name := by
    unfold Resolution.RegistersBefore
    rw [hsplit]
    simp only [sublist_pair_iff hnodup]
    rfl
  have hcontains := hbefore.contains_iff
  refine ⟨names₁, names₂, ?_, hmember⟩
  exact {
    before := fun name h => (hcontains name).2 (.inr ((hregisters name).1 h))
    inherited := fun layered name h => by
      have linked : g.Linked := { toWellFormed := wf, toLayered := layered }
      have hbases' (b : TypeId) (hb : b ∈ bases) : s.Done b := hlater.done (hdone layered b hb)
      refine (hcontains name).2 (.inl ?_)
      rw [← hlater.registries (hdone layered)]
      exact (contains_merged_iff linked hty hbases hbases' fun b _ names hnames =>
        contains_iff_of_done linked hs hnames).2 h
    only := fun name h => by
      rw [hregisters]
      exact ((hcontains name).1 h).imp_left (inheritsName_of_contains wf hty hbases hs₁ hlater) }

end

/-! ## Accessors that follow a chosen name -/

/-- The member `m` is an accessor in the type `ty`, and its owner chooses the name `x`. It has a
place in script, but no explicit name of its own, and nothing else decides over it. -/
structure Resolution.FollowsChosen (r : Resolution) (g : TypeGraph) (options : Options)
    (ty : TypeSymbol) (resolved : ResolvedType) (owner : MemberSymbol) (slot : AccessorSlot)
    (m : MemberSymbol) (x : String) : Prop where
  type : g.type? ty.id = some ty
  entry : r.types.find? ty.id = some resolved
  owns : g.Owns ty.id owner
  place : owner.accessor? slot = some m.id
  known : g.member? m.id = some m
  chosen : (g.preferredName options ty resolved owner).1 = ⟨some x, true⟩
  unspecified : ¬(g.preferredName options ty resolved m).1.isSpecified
  usable : ∃ semantics, r.methods.find? m.id = some semantics ∧ semantics ≠ .notUsable
  byDefault : g.NamesByDefault ty resolved m

/-- Nothing decides over a method without markers that has nothing to do with other methods. -/
theorem TypeGraph.NamesByDefault.of_attributes {g : TypeGraph} {ty : TypeSymbol}
    {resolved : ResolvedType} {m : MemberSymbol} (hglobal : ¬resolved.hasGlobalMembers)
    (hattributes : m.attributes = []) (hoverride : ¬m.isOverride) (himplements : m.implements = []) :
    g.NamesByDefault ty resolved m where
  notGlobal := hglobal
  unmarked preferred := by
    simp [markedMethod?, MemberSymbol.has, MemberSymbol.markerText?, hattributes, Attribute.has,
      Attribute.text?, Attribute.args?]
  notOverride := hoverride
  implementsNothing := himplements

section

variable {g : TypeGraph} {options : Options} {ty : TypeSymbol} {resolved : ResolvedType}

/-- The accessors of a type come up in the sequence, since their owners do. -/
theorem mem_namingSequence_of_accessor (wf : g.WellFormed) (hty : g.type? ty.id = some ty)
    {owner : MemberSymbol} (howner : g.Owns ty.id owner) {slot : AccessorSlot} {a : MemberId}
    (ha : owner.accessor? slot = some a) : a ∈ g.namingSequence options ty resolved := by
  have hmem : a ∈ owner.accessors := MemberSymbol.mem_accessors.2 ⟨slot, ha⟩
  have hmethod : ¬owner.isMethod := fun hmethod => by
    rw [MemberSymbol.accessors_eq_nil (.inl hmethod)] at hmem
    cases hmem
  have hnone : owner.accessorOf = none := by
    by_contra hsome
    obtain ⟨k, hk⟩ := Option.ne_none_iff_exists'.1 hsome
    cases (MemberSymbol.accessor?_of_accessorOf hk slot).symm.trans ha
  have hlisted : owner ∈ g.canonicalMembers ty := by
    obtain ⟨ty', hty', hmembers⟩ := wf.declaringType howner.1
    rw [howner.2] at hty'
    obtain rfl := Option.some.inj (hty'.symm.trans hty)
    exact mem_sortBy.2 (List.mem_filterMap.2 ⟨owner.id, hmembers hnone, howner.1⟩)
  have hnamed : owner ∈ g.namedMembers ty := by
    refine TypeGraph.mem_namedMembers.2 ⟨hlisted, fun main => ?_⟩
    simp [TypeGraph.mainMethod, hmethod]
  exact List.mem_flatMap.2 ⟨(owner, (g.preferredName options ty resolved owner).1),
    mem_plan_preferredNames.2 ⟨hnamed, rfl⟩, List.mem_append_left _ hmem⟩

namespace Resolution.FollowsChosen

variable {r : Resolution} {owner m : MemberSymbol} {slot : AccessorSlot} {x : String}

/-- Such an accessor would like to have the chosen name `x` after its stem, whatever `names` are
taken. -/
theorem preferred_eq (wf : g.WellFormed)
    (h : r.FollowsChosen g options ty resolved owner slot m x) {names : NameRegistry}
    {preferred : PreferredName} (hprefers : g.Prefers options ty resolved names m.id preferred) :
    preferred = ⟨some (slot.stem ++ x), false⟩ := by
  rcases hprefers.of_accessor wf h.owns h.place h.known with ⟨rfl, hspecified⟩ | hfollows
  · exact absurd hspecified h.unspecified
  · rw [h.chosen, MemberContext.accessorName, if_pos rfl] at hfollows
    exact (Except.ok.inj hfollows).symm

end Resolution.FollowsChosen

/-- **Accessors of members that choose their names**: an accessor that follows an owner with the
chosen name `x` has the first free name that its stem and `x` lead to. So it has just this name
unless a member of a base type, or a member of the type that is named before, has registered it. -/
theorem accessor_name_verbatim_iff (hg : g.Built) {roots : List TypeId} {main : AssemblyId}
    {r : Resolution} (h : g.resolve options roots main = .ok r) {owner m : MemberSymbol}
    {slot : AccessorSlot} {x : String}
    (hm : r.FollowsChosen g options ty resolved owner slot m x) :
    ∃ names name, r.TakenAt g options ty resolved m.id names ∧
      (r.recordOf m.id).name? = some name ∧ names.FirstFree (some (slot.stem ++ x)) name ∧
      (name = slot.stem ++ x ↔ ¬names.contains (slot.stem ++ x)) := by
  have wf := hg.wellFormed
  obtain ⟨semantics, hsemantics, husable⟩ := hm.usable
  obtain ⟨s, rfl, hs, hdone⟩ :=
    done_of_resolve wf h hm.known (.inl (Option.ne_none_iff_exists'.2 ⟨semantics, hsemantics⟩))
  obtain ⟨y, hy, hdeclaring, -⟩ := wf.accessor hm.owns.1 hm.place
  obtain rfl := Option.some.inj (hm.known.symm.trans hy)
  rw [hdeclaring, hm.owns.2] at hdone
  obtain ⟨ty', resolved', hty', hresolved', hall⟩ := exists_takenAt wf hs hdone
  obtain rfl := Option.some.inj (hty'.symm.trans hm.type)
  obtain rfl := Option.some.inj (hresolved'.symm.trans hm.entry)
  obtain ⟨taken, taken', htaken, hmember⟩ :=
    hall m.id (mem_namingSequence_of_accessor wf hm.type hm.owns hm.place)
  have horigin : (s.recordOf m.id).origin ≠ none := fun hnone => by
    obtain ⟨preferred, hprefers, hblank⟩ :=
      hmember.byDefault semantics m hsemantics husable hm.known hm.byDefault hnone
    rw [hm.preferred_eq wf hprefers] at hblank
    exact slot.ne_stem_append "" x (by simpa using (Option.some.inj hblank).symm)
  obtain ⟨preferred, hprefers, hnamed⟩ := hmember.named horigin
  obtain rfl := hm.preferred_eq wf hprefers
  obtain ⟨origin, horigin⟩ := Option.ne_none_iff_exists'.1 horigin
  obtain ⟨name, hname, hleads⟩ := hnamed origin horigin
  cases hleads with
  | chosen heq => cases heq
  | counted hnone => cases hnone
  | allocated _ hallocate =>
    have hfree := NameRegistry.firstFree_of_allocate hallocate
    exact ⟨taken, name, htaken, hname, hfree, hfree.eq_base_iff⟩

end

/-- A class with a method that is called `set_count` in script, and a class that inherits from it,
with a method that is called `get_count` and a property that chooses the name `count`. -/
def storeClasses : Except Fault TypeGraph := do
  let (g, depot) := TypeGraph.declareAssembly ∅ "Depot"
  let (g, shelf) ← g.declareType depot { name := "Shelf" }
  let (g, _) ← g.declareMethod shelf
    { name := "Refill", attributes := [.ofMarker .scriptName [.str "set_count"]] }
  let (g, store) ← g.declareType depot { name := "Store", baseTypes := [shelf] }
  let (g, _) ← g.declareMethod store
    { name := "Fetch", attributes := [.ofMarker .scriptName [.str "get_count"]] }
  let (g, _) ← g.declareProperty store
    { name := "Count", attributes := [.ofMarker .scriptName [.str "count"]] }
  return g

/-- The graph of the two classes. -/
def storeGraph : TypeGraph := storeClasses.toOption.getD ∅

theorem built_storeGraph : storeGraph.Built := by
  have hg : storeClasses = .ok storeGraph := eq_ok_getD (by decide +kernel)
  obtain ⟨⟨g₁, shelf⟩, hshelf, h⟩ := bind_eq_ok.1 hg
  obtain ⟨⟨g₂, _⟩, hrefill, h⟩ := bind_eq_ok.1 h
  obtain ⟨⟨g₃, store⟩, hstore, h⟩ := bind_eq_ok.1 h
  obtain ⟨⟨g₄, _⟩, hfetch, h⟩ := bind_eq_ok.1 h
  obtain ⟨⟨g₅, _⟩, hcount, h⟩ := bind_eq_ok.1 h
  rw [← Except.ok.inj h]
  have hbase : g₂.Built := .method (.type (.assembly .empty "Depot") hshelf) hrefill
  exact .property (.method (.type hbase hstore) hfetch) hcount

/-- Both accessors of the property follow it, and both have suffixes: the method of the class has
the name that the getter would like, and the method of the base class the name that the setter would
like. -/
theorem store_accessors : ∃ r ty resolved count,
    storeGraph.resolve {} [⟨1⟩] ⟨0⟩ = .ok r ∧ ¬r.hasErrors ∧
      ∀ p ∈ [(AccessorSlot.getter, "get_count$0"), (.setter, "set_count$0")], ∃ m,
        r.FollowsChosen storeGraph {} ty resolved count p.1 m "count" ∧
          (r.recordOf m.id).name? = some p.2 := by
  have hrun : (storeGraph.resolve {} [⟨1⟩] ⟨0⟩).toOption.any fun r =>
      (storeGraph.type? ⟨1⟩).any fun ty => (r.types.find? ⟨1⟩).any fun resolved =>
      (storeGraph.member? ⟨2⟩).any fun count =>
        ¬r.hasErrors ∧ ty.id = ⟨1⟩ ∧ count.id = ⟨2⟩ ∧ count.declaringType = ⟨1⟩ ∧
        ¬resolved.hasGlobalMembers ∧
        (storeGraph.preferredName {} ty resolved count).1 = ⟨some "count", true⟩ ∧
        ∀ p ∈ [(AccessorSlot.getter, "get_count$0"), (.setter, "set_count$0")],
          (count.accessor? p.1).any fun k => (storeGraph.member? k).any fun m =>
            m.id = k ∧ ¬(storeGraph.preferredName {} ty resolved m).1.isSpecified ∧
            r.methods.find? k = some (.normal p.2) ∧ (r.recordOf k).name? = some p.2 ∧
            m.attributes = [] ∧ ¬m.isOverride ∧ m.implements = [] := by
    decide +kernel
  obtain ⟨r, hr, hrest⟩ := exists_of_any_toOption hrun
  obtain ⟨ty, hty, hrest⟩ := (Option.any_eq_true _ _).1 hrest
  obtain ⟨resolved, hresolved, hrest⟩ := (Option.any_eq_true _ _).1 hrest
  obtain ⟨count, hcount, hrest⟩ := (Option.any_eq_true _ _).1 hrest
  obtain ⟨herrors, hid, hcountid, hdeclaring, hglobal, hchosen, hall⟩ := of_decide_eq_true hrest
  refine ⟨r, ty, resolved, count, hr, herrors, fun p hp => ?_⟩
  obtain ⟨k, hplace, hm⟩ := (Option.any_eq_true _ _).1 (hall p hp)
  obtain ⟨m, hmember, hm⟩ := (Option.any_eq_true _ _).1 hm
  obtain ⟨rfl, hunspecified, hsemantics, hname, hattributes, hoverride, himplements⟩ :=
    of_decide_eq_true hm
  refine ⟨m, ?_, hname⟩
  exact {
    type := hid ▸ hty
    entry := hid ▸ hresolved
    owns := ⟨hcountid ▸ hcount, hdeclaring.trans hid.symm⟩
    place := hplace
    known := hmember
    chosen := hchosen
    unspecified := hunspecified
    usable := ⟨_, hsemantics, nofun⟩
    byDefault := .of_attributes hglobal hattributes hoverride himplements }

/-- The name that the setter would like is taken in the base class, so that it gets a suffix. -/
theorem store_setter_not_verbatim : storeGraph.Built ∧ ∃ r ty resolved count setter,
    storeGraph.resolve {} [⟨1⟩] ⟨0⟩ = .ok r ∧
      r.FollowsChosen storeGraph {} ty resolved count .setter setter "count" ∧
      (r.recordOf setter.id).name? = some "set_count$0" ∧
      ∃ names name, r.TakenAt storeGraph {} ty resolved setter.id names ∧
        (r.recordOf setter.id).name? = some name ∧
        names.FirstFree (some (AccessorSlot.setter.stem ++ "count")) name ∧
        (name = AccessorSlot.setter.stem ++ "count" ↔
          ¬names.contains (AccessorSlot.setter.stem ++ "count")) := by
  obtain ⟨r, ty, resolved, count, hr, -, hall⟩ := store_accessors
  obtain ⟨setter, hsetter, hname⟩ := hall (.setter, "set_count$0") (by decide)
  exact ⟨built_storeGraph, r, ty, resolved, count, setter, hr, hsetter, hname,
    accessor_name_verbatim_iff built_storeGraph hr hsetter⟩

/-- The getter follows a property with a chosen name, and is not called by its stem and this name.
Nothing is reported. -/
theorem accessor_name_not_verbatim : storeGraph.Built ∧ ∃ r ty resolved count getter name,
    storeGraph.resolve {} [⟨1⟩] ⟨0⟩ = .ok r ∧ ¬r.hasErrors ∧
      r.FollowsChosen storeGraph {} ty resolved count .getter getter "count" ∧
      (r.recordOf getter.id).name? = some name ∧ name ≠ AccessorSlot.getter.stem ++ "count" := by
  obtain ⟨r, ty, resolved, count, hr, herrors, hall⟩ := store_accessors
  obtain ⟨getter, hgetter, hname⟩ := hall (.getter, "get_count$0") (by decide)
  exact ⟨built_storeGraph, r, ty, resolved, count, getter, _, hr, herrors, hgetter, hname,
    by decide⟩

end ScriptNaming
