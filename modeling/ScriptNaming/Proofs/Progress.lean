import ScriptNaming.Proofs.History
import ScriptNaming.Proofs.MemberSteps
import ScriptNaming.Resolution

/-!
# Progress of resolutions

While the members of a type are processed, its own members may get records, and other types may be
processed (`ResolutionState.Within`); `ResolutionState.Framed` says in addition which of the own
members may get records. Every step keeps to this: those that record something
(`Framed.changesAt`), requests for the members of other types (`Within.request`) and for the
semantics of a method (`methodSemanticsBy_spec`), and so processing as a whole
(`processMembers_within`).
-/

namespace ScriptNaming

/-- A member `m` of the graph that the type `t` declares, an accessor or not. -/
def TypeGraph.Declared (g : TypeGraph) (t : TypeId) (m : MemberId) : Prop :=
  ∃ x, g.member? m = some x ∧ x.declaringType = t

namespace ResolutionState

/-! ## Changes to some members -/

/-- A change of the state that leaves the records of all members alone except for those that satisfy
`K`. -/
structure ChangesAt (K : MemberId → Prop) (s s' : ResolutionState) : Prop where
  types : s'.types = s.types
  memberNames : s'.memberNames = s.memberNames
  typeGuard : s'.typeGuard = s.typeGuard
  memberGuard : s'.memberGuard = s.memberGuard
  problems : ∀ ⦃entity category⦄, s.diagnostics.contains entity category →
    s'.diagnostics.contains entity category
  records : ∀ m, ¬K m → s'.recordOf m = s.recordOf m

theorem ChangesAt.mono {K K' : MemberId → Prop} {s s' : ResolutionState} (h : s.ChangesAt K s')
    (hK : ∀ m, K m → K' m) : s.ChangesAt K' s' :=
  { h with records := fun m hm => h.records m fun hk => hm (hK m hk) }

section

variable (K : MemberId → Prop) (s : ResolutionState)

theorem ChangesAt.refl : s.ChangesAt K s where
  types := rfl
  memberNames := rfl
  typeGuard := rfl
  memberGuard := rfl
  problems _ _ h := h
  records _ _ := rfl

theorem ChangesAt.report (ds : List Diagnostic) :
    s.ChangesAt K { s with diagnostics := s.diagnostics.addAll ds } :=
  { ChangesAt.refl K s with problems := fun _ _ h => DiagnosticBag.contains_addAll.2 (.inr h) }

theorem ChangesAt.interfaceNames (names : InterfaceNames) :
    s.ChangesAt K { s with interfaceNames := names } :=
  { ChangesAt.refl K s with records := fun _ _ => rfl }

variable {K} {m : MemberId} (hm : K m)

include hm

theorem ChangesAt.method (x : MethodSemantics) :
    s.ChangesAt K { s with methods := s.methods.insert m x } :=
  { ChangesAt.refl K s with
    records := fun k hk => by
      have hmk : m ≠ k := fun h => hk (h ▸ hm)
      rw [recordOf_insert_methods, if_neg hmk] }

theorem ChangesAt.property (x : PropertySemantics) :
    s.ChangesAt K { s with properties := s.properties.insert m x } :=
  { ChangesAt.refl K s with
    records := fun k hk => by
      have hmk : m ≠ k := fun h => hk (h ▸ hm)
      rw [recordOf_insert_properties, if_neg hmk] }

theorem ChangesAt.field (x : FieldSemantics) :
    s.ChangesAt K { s with fields := s.fields.insert m x } :=
  { ChangesAt.refl K s with
    records := fun k hk => by
      have hmk : m ≠ k := fun h => hk (h ▸ hm)
      rw [recordOf_insert_fields, if_neg hmk] }

theorem ChangesAt.event (x : EventSemantics) :
    s.ChangesAt K { s with events := s.events.insert m x } :=
  { ChangesAt.refl K s with
    records := fun k hk => by
      have hmk : m ≠ k := fun h => hk (h ▸ hm)
      rw [recordOf_insert_events, if_neg hmk] }

theorem ChangesAt.origin (x : NameOrigin) :
    s.ChangesAt K { s with origins := s.origins.insert m x } :=
  { ChangesAt.refl K s with
    records := fun k hk => by
      have hmk : m ≠ k := fun h => hk (h ▸ hm)
      rw [recordOf_insert_origins, if_neg hmk] }

end

section

variable {g : TypeGraph} {options : Options} {t : TypeId} {s s' : ResolutionState}

/-- Records about the members of a type that is not done leave what is known for good alone. -/
theorem ChangesAt.extends (h : s.ChangesAt (g.Declared t) s') (ht : ¬s.Done t) :
    s.Extends g (· ≠ t) s' := by
  have hrecords {m : MemberId} {x : MemberSymbol} (hm : g.member? m = some x)
      (hx : x.declaringType ≠ t) : s'.recordOf m = s.recordOf m := by
    refine h.records m fun hdeclared => hx ?_
    obtain ⟨y, hy, hyt⟩ := hdeclared
    rwa [Option.some.inj (hm.symm.trans hy)]
  exact {
    types := fun _ _ hu => by rwa [h.types]
    names := fun _ _ hu => by rwa [h.memberNames]
    problems := h.problems
    records := fun m x hm hu => hrecords hm fun hx => ht (hx ▸ hu)
    typeGuard := h.typeGuard
    memberGuard := h.memberGuard
    inProgress := fun m x hm _ hx => hrecords hm hx }

theorem Tidy.changesAt (hs : s.Tidy g options) (ht : t ∈ s.memberGuard.visiting)
    (h : s.ChangesAt (g.Declared t) s') : s'.Tidy g options := by
  have hextends := h.extends (hs.notDone t ht)
  refine {
    types := by rw [h.types]; exact hs.types
    typesCounted := by rw [h.typeGuard]; exact hs.typesCounted
    membersCounted := by rw [h.memberGuard]; exact hs.membersCounted
    nodup := by rw [h.memberGuard]; exact hs.nodup
    notDone := fun u hu => ?_
    records := fun m hm => ?_ }
  · rw [h.memberGuard] at hu
    rw [Done, h.memberNames]
    exact hs.notDone u hu
  · by_cases hdeclared : g.Declared t m
    · obtain ⟨x, hx, rfl⟩ := hdeclared
      exact ⟨x, hx, hextends.begun (.inr ht)⟩
    · rw [h.records m hdeclared] at hm
      obtain ⟨x, hx, hbegun⟩ := hs.records hm
      exact ⟨x, hx, hextends.begun hbegun⟩

end

/-! ## States in the course of processing a type -/

/-- `s` comes up while the members of `t` are processed, which has begun in the state `s₀`. -/
structure Within (g : TypeGraph) (options : Options) (t : TypeId) (s₀ s : ResolutionState) :
    Prop where
  reached : s.Reached g options
  grown : s₀.Extends g (· ≠ t) s
  head : ∃ rest, s.memberGuard.visiting = t :: rest

namespace Within

variable {g : TypeGraph} {options : Options} {t : TypeId} {s₀ s s' : ResolutionState}

theorem mem_visiting (hs : Within g options t s₀ s) : t ∈ s.memberGuard.visiting := by
  obtain ⟨rest, hrest⟩ := hs.head
  rw [hrest]
  exact .head _

theorem notDone (hs : Within g options t s₀ s) : ¬s.Done t :=
  hs.reached.sound.notDone t hs.mem_visiting

/-- A type `u` before the one that is processed is not in progress. -/
theorem done_of_lt (hs : Within g options t s₀ s) (layered : g.Layered) {u : TypeId}
    (hlt : u.index < t.index) (hu : s.Begun u) : s.Done u := by
  rcases hu with hu | hu
  · exact hu
  obtain ⟨rest, hrest⟩ := hs.head
  have hascending := hs.reached.sound.ascending layered
  rw [hrest] at hascending hu
  rcases List.mem_cons.1 hu with rfl | hu
  · exact absurd hlt (Nat.lt_irrefl _)
  · exact absurd hlt (Nat.lt_asymm ((List.pairwise_cons.1 hascending).1 u hu))

/-- The members of `t` may get records. -/
theorem changesAt (hs : Within g options t s₀ s) (h : s.ChangesAt (g.Declared t) s') :
    Within g options t s₀ s' := by
  have hextends := h.extends hs.notDone
  refine ⟨⟨?_, ?_⟩, hs.grown.trans hextends, by rw [h.memberGuard]; exact hs.head⟩
  · exact {
      toTidy := hs.reached.sound.toTidy.changesAt hs.mem_visiting h
      chain := by rw [h.memberGuard]; exact hs.reached.sound.chain }
  · refine hs.reached.traced.later hextends.toLater fun u names hu => ?_
    rwa [h.memberNames] at hu

/-- Other types than `t` may be processed meanwhile. -/
theorem meanwhile (hs : Within g options t s₀ s) (hreached : s'.Reached g options)
    (h : s.Extends g (fun _ => True) s') : Within g options t s₀ s' :=
  ⟨hreached, hs.grown.trans (h.mono fun _ _ => trivial), by rw [h.memberGuard]; exact hs.head⟩

/-- Meanwhile a member `k` of `t` keeps its record. -/
theorem recordOf_meanwhile (hs : Within g options t s₀ s) (h : s.Extends g (fun _ => True) s')
    {k : MemberId} (hk : g.Declared t k) : s'.recordOf k = s.recordOf k := by
  obtain ⟨x, hx, rfl⟩ := hk
  exact h.inProgress hx hs.mem_visiting trivial

theorem trans (hs : Within g options t s₀ s) (hs' : Within g options t s s') :
    Within g options t s₀ s' :=
  ⟨hs'.reached, hs.grown.trans hs'.grown, hs'.head⟩

/-- Any state in the course of processing a type can be taken for the start. -/
theorem restart (hs : Within g options t s₀ s) : Within g options t s s :=
  ⟨hs.reached, .refl _ _ _, hs.head⟩

end Within

/-- `s` comes up after `s₀` while the members of `t` are processed, and of these only those that
satisfy `K` have got records. -/
structure Framed (g : TypeGraph) (options : Options) (t : TypeId) (K : MemberId → Prop)
    (s₀ s : ResolutionState) : Prop extends Within g options t s₀ s where
  frame : ∀ ⦃m⦄, g.Declared t m → ¬K m → s.recordOf m = s₀.recordOf m

namespace Framed

variable {g : TypeGraph} {options : Options} {t : TypeId} {K : MemberId → Prop}
  {s₀ s s' : ResolutionState}

theorem start (hs : Within g options t s₀ s) (K : MemberId → Prop) : Framed g options t K s s :=
  ⟨hs.restart, fun _ _ _ => rfl⟩

theorem changesAt (hs : Framed g options t K s₀ s) (hK : ∀ m, K m → g.Declared t m)
    (h : s.ChangesAt K s') : Framed g options t K s₀ s' :=
  ⟨hs.toWithin.changesAt (h.mono hK), fun m hm hk => (h.records m hk).trans (hs.frame hm hk)⟩

theorem meanwhile (hs : Framed g options t K s₀ s) (hreached : s'.Reached g options)
    (h : s.Extends g (fun _ => True) s') : Framed g options t K s₀ s' :=
  ⟨hs.toWithin.meanwhile hreached h, fun _ hm hk =>
    (hs.toWithin.recordOf_meanwhile h hm).trans (hs.frame hm hk)⟩

theorem trans (hs : Framed g options t K s₀ s) (hs' : Framed g options t K s s') :
    Framed g options t K s₀ s' :=
  ⟨hs.toWithin.trans hs'.toWithin, fun _ hm hk => (hs'.frame hm hk).trans (hs.frame hm hk)⟩

theorem mono {K' : MemberId → Prop} (hs : Framed g options t K s₀ s) (hK : ∀ m, K m → K' m) :
    Framed g options t K' s₀ s :=
  ⟨hs.toWithin, fun _ hm hk => hs.frame hm fun h => hk (hK _ h)⟩

end Framed

end ResolutionState

open ResolutionState

/-! ## Conditions that changes keep -/

/-- A condition on states that is kept when something is recorded about members that satisfy `K`. -/
def KeepsChanges (K : MemberId → Prop) (I : ResolutionState → Prop) : Prop :=
  ∀ ⦃s s'⦄, I s → s.ChangesAt K s' → I s'

namespace KeepsChanges

variable {strict : Prop} {options : Options} {K : MemberId → Prop} {I : ResolutionState → Prop}
  (keeps : KeepsChanges K I)

include keeps

theorem records : KeepsRecords strict .refl options K (Self I) where
  report ds := .self fun s _ s' hs h => by
    obtain ⟨-, rfl⟩ := Prod.ext_iff.1 (Except.ok.inj h)
    exact ⟨trivial, keeps hs (.report _ _ _)⟩
  property m x hm := .self fun s _ s' hs h => by
    obtain ⟨-, rfl⟩ := Prod.ext_iff.1 (Except.ok.inj h)
    exact ⟨trivial, keeps hs (.property _ hm _)⟩
  field m x hm := .self fun s _ s' hs h => by
    obtain ⟨-, rfl⟩ := Prod.ext_iff.1 (Except.ok.inj h)
    exact ⟨trivial, keeps hs (.field _ hm _)⟩
  event m x hm := .self fun s _ s' hs h => by
    obtain ⟨-, rfl⟩ := Prod.ext_iff.1 (Except.ok.inj h)
    exact ⟨trivial, keeps hs (.event _ hm _)⟩
  origin m x hm := .self fun s _ s' hs h => by
    obtain ⟨-, rfl⟩ := Prod.ext_iff.1 (Except.ok.inj h)
    exact ⟨trivial, keeps hs (.origin _ hm _)⟩
  counted _ s _ hs a := by
    obtain ⟨rfl, hs⟩ := hs
    exact ⟨rfl, rfl, keeps hs (.interfaceNames _ _ _)⟩

theorem method {m : MemberId} (hm : K m) (x : MethodSemantics) :
    Lockstep strict (Self I) Any (recordMethod m x) (recordMethod m x) :=
  .self fun s _ s' hs h => by
    obtain ⟨-, rfl⟩ := Prod.ext_iff.1 (Except.ok.inj h)
    exact ⟨trivial, keeps hs (.method _ hm _)⟩

theorem alternate {m : MemberSymbol} (hm : K m.id) (main : MemberSymbol) :
    Lockstep strict (Self I) Any (resolveAlternate m main) (resolveAlternate m main) := by
  unfold resolveAlternate
  split
  · exact keeps.method hm _
  · refine Lockstep.get_bind fun s s' hs => ?_
    obtain ⟨rfl, -⟩ := hs
    exact keeps.method hm _

end KeepsChanges

theorem framed_keepsChanges {g : TypeGraph} {options : Options} {t : TypeId}
    {K : MemberId → Prop} {s₀ : ResolutionState} (hK : ∀ m, K m → g.Declared t m) :
    KeepsChanges K (Framed g options t K s₀) :=
  fun _ _ hs h => hs.changesAt hK h

/-! ## Requests -/

/-- Resolves the members of types by `ensure` in such a way that other types are left alone: after
it the type is done, unless it is in progress. -/
def EnsuresMembers (g : TypeGraph) (options : Options) (ensure : TypeId → Resolve Unit) : Prop :=
  ∀ ⦃t s s'⦄, s.Reached g options → (∀ u ∈ s.memberGuard.visiting.head?, g.DependsOn u t) →
    ensure t s = .ok ((), s') →
    s'.Reached g options ∧ s.Extends g (fun _ => True) s' ∧ s'.Begun t

/-- The tools for the members of a type, where `ensure` resolves those of other types. -/
abbrev TypeGraph.memberContext (g : TypeGraph) (options : Options) (ensure : TypeId → Resolve Unit)
    (ty : TypeSymbol) (resolved : ResolvedType) : MemberContext :=
  ⟨g, options, methodSemanticsBy g ensure, ty, resolved⟩

section

variable {g : TypeGraph} {options : Options} {ensure : TypeId → Resolve Unit}
  (hensure : EnsuresMembers g options ensure) {t : TypeId} {s₀ s s' : ResolutionState}

include hensure

theorem ResolutionState.Within.request (hs : Within g options t s₀ s) {u : TypeId}
    (hu : g.DependsOn t u) (h : ensure u s = .ok ((), s')) :
    Within g options t s₀ s' ∧ s.Extends g (fun _ => True) s' ∧ s'.Begun u := by
  obtain ⟨rest, hrest⟩ := hs.head
  have hhead : ∀ v ∈ s.memberGuard.visiting.head?, g.DependsOn v u := by
    intro v hv
    rw [hrest] at hv
    rwa [← Option.some.inj hv]
  obtain ⟨hreached, hextends, hbegun⟩ := hensure hs.reached hhead h
  exact ⟨hs.meanwhile hreached hextends, hextends, hbegun⟩

/-- The semantics of a method of a type that `t` depends on: afterwards its type has been begun, and
the semantics are what is recorded then. -/
theorem methodSemanticsBy_spec (hs : Within g options t s₀ s) {b : MemberId}
    (hb : ∀ y, g.member? b = some y → g.DependsOn t y.declaringType) {r : Option MethodSemantics}
    (h : methodSemanticsBy g ensure b s = .ok (r, s')) :
    Within g options t s₀ s' ∧ s.Extends g (fun _ => True) s' ∧ r = s'.methods.find? b ∧
      ∀ y, g.member? b = some y → s'.Begun y.declaringType := by
  unfold methodSemanticsBy at h
  rw [run_get_bind] at h
  cases hfound : s.methods.find? b with
  | some semantics =>
    rw [hfound] at h
    obtain ⟨rfl, rfl⟩ := run_pure_eq_ok.1 h
    refine ⟨hs, .refl _ _ _, hfound.symm, fun y hy => ?_⟩
    have hrecord : s'.recordOf b ≠ .empty := by
      intro hempty
      have hmethod := congrArg MemberRecord.method hempty
      cases hfound.symm.trans hmethod
    obtain ⟨x, hx, hbegun⟩ := hs.reached.sound.records hrecord
    rwa [Option.some.inj (hy.symm.trans hx)]
  | none =>
    rw [hfound] at h
    cases hmember : g.member? b with
    | none =>
      rw [hmember] at h
      obtain ⟨rfl, rfl⟩ := run_pure_eq_ok.1 h
      exact ⟨hs, .refl _ _ _, hfound.symm, fun y hy => nomatch hy⟩
    | some y =>
      rw [hmember] at h
      dsimp only at h
      rw [run_bind_eq_ok] at h
      obtain ⟨_, s₁, hrun, h⟩ := h
      rw [run_get_bind] at h
      obtain ⟨rfl, rfl⟩ := run_pure_eq_ok.1 h
      obtain ⟨hwithin, hextends, hbegun⟩ := hs.request hensure (hb y hmember) hrun
      refine ⟨hwithin, hextends, rfl, fun x hx => ?_⟩
      rwa [← Option.some.inj hx]

omit hensure in
theorem keepsRecords_framed {strict : Prop} {K : MemberId → Prop}
    (hK : ∀ m, K m → g.Declared t m) :
    KeepsRecords strict .refl options K (Self (Framed g options t K s₀)) :=
  (framed_keepsChanges hK).records

omit hensure in
theorem recordMethod_framed {strict : Prop} {K : MemberId → Prop}
    (hK : ∀ m, K m → g.Declared t m) {m : MemberId} (hm : K m) (x : MethodSemantics) :
    Lockstep strict (Self (Framed g options t K s₀)) Any (recordMethod m x) (recordMethod m x) :=
  (framed_keepsChanges hK).method hm x

omit hensure in
theorem resolveAlternate_framed {strict : Prop} {K : MemberId → Prop}
    (hK : ∀ m, K m → g.Declared t m) {m : MemberSymbol} (hm : K m.id) (main : MemberSymbol) :
    Lockstep strict (Self (Framed g options t K s₀)) Any (resolveAlternate m main)
      (resolveAlternate m main) :=
  (framed_keepsChanges hK).alternate hm main

/-- A member `m` that stands in the graph under its number, declared by the type `t`. -/
def TypeGraph.Owns (g : TypeGraph) (t : TypeId) (m : MemberSymbol) : Prop :=
  g.member? m.id = some m ∧ m.declaringType = t

omit hensure in
theorem TypeGraph.Owns.declared {m : MemberSymbol} (hm : g.Owns t m) : g.Declared t m.id :=
  ⟨m, hm⟩

omit hensure in
theorem TypeGraph.Owns.accessor (wf : g.WellFormed) {m : MemberSymbol} (hm : g.Owns t m)
    {slot : AccessorSlot} {a : MemberId} (ha : m.accessor? slot = some a) :
    g.Declared t a ∧ ∀ x, g.member? a = some x → g.Owns t x := by
  obtain ⟨y, hy, htype, -⟩ := wf.accessor hm.1 ha
  refine ⟨⟨y, hy, htype.trans hm.2⟩, fun x hx => ?_⟩
  obtain rfl := Option.some.inj (hx.symm.trans hy)
  exact ⟨wf.member_id hx ▸ hx, htype.trans hm.2⟩

omit hensure in
/-- The type `t` declares its members `m` and their accessors. -/
theorem TypeGraph.Owns.declared_of_covers (wf : g.WellFormed) {m : MemberSymbol} (hm : g.Owns t m)
    {k : MemberId} (hk : m.Covers k) : g.Declared t k := by
  rcases hk with rfl | hk
  · exact hm.declared
  · obtain ⟨slot, hslot⟩ := MemberSymbol.mem_accessors.1 hk
    exact (hm.accessor wf hslot).1

omit hensure in
theorem TypeGraph.owns_of_mem_membersOf (wf : g.WellFormed) {ty : TypeSymbol}
    (hty : g.type? t = some ty) {m : MemberSymbol} (hm : m ∈ g.membersOf ty) : g.Owns t m := by
  obtain ⟨k, hk, hmember⟩ := List.mem_filterMap.1 hm
  obtain ⟨x, hx, htype, -⟩ := wf.listed hty hk
  obtain rfl := Option.some.inj (hmember.symm.trans hx)
  exact ⟨wf.member_id hmember ▸ hmember, htype⟩

omit hensure in
theorem TypeGraph.owns_of_mem_canonicalMembers (wf : g.WellFormed) {ty : TypeSymbol}
    (hty : g.type? t = some ty) {m : MemberSymbol} (hm : m ∈ g.canonicalMembers ty) :
    g.Owns t m :=
  owns_of_mem_membersOf wf hty (mem_sortBy.1 hm)

/-- A method `b` that an own member `m` of `t` is linked to may be asked for. -/
theorem methodSemanticsBy_framed {strict : Prop} {K : MemberId → Prop} {m : MemberSymbol}
    (hm : g.Owns t m) {b : MemberId} (hb : b ∈ m.links) :
    Lockstep strict (Self (Framed g options t K s₀)) Eq (methodSemanticsBy g ensure b)
      (methodSemanticsBy g ensure b) := by
  refine .self fun s r s' hs h => ⟨rfl, ?_⟩
  obtain ⟨hwithin, hextends, -⟩ := methodSemanticsBy_spec hensure hs.toWithin
    (fun y hy => .inr ⟨m.id, m, hm.1, hm.2, b, hb, y, hy, rfl⟩) h
  exact hs.meanwhile hwithin.reached hextends

/-- Looking for semantics that `m` could take over records nothing about the members of `t`
itself. -/
theorem inheritedMethod?_framed {m : MemberSymbol} (hs : Within g options t s₀ s)
    (hm : g.Owns t m) {isSpecified : Bool} {r : Option MethodSemantics}
    (h : inheritedMethod? g (methodSemanticsBy g ensure) m isSpecified s = .ok (r, s')) :
    Framed g options t (fun _ => False) s s' := by
  have hself : Lockstep True (Self (Framed g options t (fun _ => False) s)) Eq
      (inheritedMethod? g (methodSemanticsBy g ensure) m isSpecified)
      (inheritedMethod? g (methodSemanticsBy g ensure) (m.renumber .refl) isSpecified) :=
    inheritedMethod?_lockstep (.refl g) (keepsRecords_framed fun _ h => h.elim) isSpecified
      fun b hb => methodSemanticsBy_framed hensure hm hb
  rw [MemberSymbol.renumber_refl] at hself
  exact hself.invariant (.start hs _) h

/-- An own member of a type that `K` has the number of, with those of its accessors. -/
def TypeGraph.OwnsIn (g : TypeGraph) (t : TypeId) (K : MemberId → Prop) (m : MemberSymbol) : Prop :=
  g.Owns t m ∧ ∀ k, m.Covers k → K k

omit hensure in
theorem TypeGraph.Owns.ownsIn (wf : g.WellFormed) {m : MemberSymbol} (hm : g.Owns t m) :
    g.OwnsIn t (g.Declared t) m :=
  ⟨hm, fun _ hk => hm.declared_of_covers wf hk⟩

omit hensure in
/-- A condition that is kept by records about own members of a type, and by requests for the methods
that these are linked to, is kept when the members are resolved. -/
theorem KeepsChanges.members (wf : g.WellFormed) {K : MemberId → Prop} {I : ResolutionState → Prop}
    (keeps : KeepsChanges K I) {strict : Prop}
    {lookup lookup' : MemberId → Resolve (Option MethodSemantics)}
    (hlookup : ∀ m, g.Owns t m → ∀ b ∈ m.links,
      Lockstep strict (Self I) Eq (lookup b) (lookup' b)) {ty : TypeSymbol}
    (resolved : ResolvedType) :
    KeepsMembers strict .refl ⟨g, options, lookup, ty, resolved⟩ ⟨g, options, lookup', ty, resolved⟩
      (g.OwnsIn t K) K (Self I) where
  contexts := ⟨.refl g, rfl, .refl ty, rfl⟩
  records := keeps.records
  own m hm := hm.2 m.id (.inl rfl)
  accessor m hm slot a ha := by
    have hmem : a ∈ m.accessors := MemberSymbol.mem_accessors.2 ⟨slot, ha⟩
    refine ⟨hm.2 a (.inr hmem), fun x hx => ⟨(hm.1.accessor wf ha).2 x hx, fun k hk => ?_⟩⟩
    -- An accessor covers nothing but itself.
    obtain ⟨y, hy, -, howner⟩ := wf.accessor hm.1.1 ha
    obtain rfl := Option.some.inj (hy.symm.trans hx)
    rcases hk with rfl | hk
    · exact wf.member_id hy ▸ hm.2 a (.inr hmem)
    · obtain ⟨slot', hslot'⟩ := MemberSymbol.mem_accessors.1 hk
      cases (MemberSymbol.accessor?_of_accessorOf howner slot').symm.trans hslot'
  notUsable _ hm _ k hk := keeps.method (hm.2 k hk) _
  method m _ _ _ hm hp hn :=
    resolveMethod_lockstep (.refl g) keeps.records (fun _ x hm => keeps.method hm x) (.refl ty) hn
      resolved hp (hm.2 m.id (.inl rfl)) (hlookup m hm.1)

theorem keepsMembers_framed (wf : g.WellFormed) (strict : Prop) {ty : TypeSymbol}
    (resolved : ResolvedType) :
    KeepsMembers strict .refl (g.memberContext options ensure ty resolved)
      (g.memberContext options ensure ty resolved) (g.OwnsIn t (g.Declared t)) (g.Declared t)
      (Self (Framed g options t (g.Declared t) s₀)) :=
  (framed_keepsChanges fun _ hm => hm).members wf (fun _ hm _ hb =>
    methodSemanticsBy_framed hensure hm hb) resolved

theorem forM_request {bases : List TypeId} (hbases : ∀ b ∈ bases, g.DependsOn t b)
    (hs : Within g options t s₀ s) (h : bases.forM ensure s = .ok ((), s')) :
    Within g options t s₀ s' ∧ s.Extends g (fun _ => True) s' ∧ ∀ b ∈ bases, s'.Begun b := by
  induction bases generalizing s with
  | nil =>
    obtain ⟨-, rfl⟩ := run_pure_eq_ok.1 h
    exact ⟨hs, .refl _ _ _, fun b hb => nomatch hb⟩
  | cons b bases ih =>
    change (ensure b >>= fun _ => bases.forM ensure) s = _ at h
    rw [run_bind_eq_ok] at h
    obtain ⟨_, s₁, hrun, h⟩ := h
    obtain ⟨hs₁, hextends, hbegun⟩ := hs.request hensure (hbases b (.head _)) hrun
    obtain ⟨hs', hextends', hbegun'⟩ := ih (fun b hb => hbases b (.tail _ hb)) hs₁ h
    refine ⟨hs', hextends.trans hextends', fun c hc => ?_⟩
    rcases List.mem_cons.1 hc with rfl | hc
    · exact hextends'.begun hbegun
    · exact hbegun' c hc

omit hensure in
/-- The members of `ty` are resolved after those of its base types, with the names of these or
without any. -/
theorem processMembers_eq_ok {ty : TypeSymbol} {resolved : ResolvedType} {names : NameRegistry}
    (h : processMembers g options ensure ty resolved s = .ok (names, s')) :
    ∃ bases s₁, g.allBaseTypes ty = .ok bases ∧ bases.forM ensure s = .ok ((), s₁) ∧
      (resolved.isUsable → (g.memberContext options ensure ty resolved).resolveMembers
        (.merged (bases.filterMap s₁.memberNames.find?)) s₁ = .ok (names, s')) ∧
      (¬resolved.isUsable → (g.canonicalMembers ty).forM markNotUsable s₁ = .ok ((), s') ∧
        names = .merged (bases.filterMap s₁.memberNames.find?)) := by
  unfold processMembers at h
  rw [run_bind_eq_ok] at h
  obtain ⟨bases, s₀', hlift, h⟩ := h
  obtain ⟨hbases, rfl⟩ := run_liftM_eq_ok.1 hlift
  rw [run_bind_eq_ok] at h
  obtain ⟨_, s₁, hrun, h⟩ := h
  rw [run_get_bind] at h
  refine ⟨bases, s₁, hbases, hrun, fun husable => ?_, fun husable => ?_⟩
  · rwa [if_pos husable] at h
  · rw [if_neg husable, run_bind_eq_ok] at h
    obtain ⟨_, s₂, hmark, h⟩ := h
    obtain ⟨rfl, rfl⟩ := run_pure_eq_ok.1 h
    exact ⟨hmark, rfl⟩

/-- A member `m` that the type `t` lists, so that it is no accessor. -/
def TypeGraph.Lists (g : TypeGraph) (t : TypeId) (m : MemberSymbol) : Prop :=
  g.Owns t m ∧ m.accessorOf = none

omit hensure in
theorem TypeGraph.lists_of_mem_canonicalMembers (wf : g.WellFormed) (hty : g.type? t = some ty)
    (hm : m ∈ g.canonicalMembers ty) : g.Lists t m := by
  refine ⟨TypeGraph.owns_of_mem_canonicalMembers wf hty hm, ?_⟩
  obtain ⟨k, hk, hmember⟩ := List.mem_filterMap.1 (mem_sortBy.1 hm)
  obtain ⟨x, hx, -, haccessor⟩ := wf.listed hty hk
  rwa [Option.some.inj (hmember.symm.trans hx)]

omit hensure in
/-- The `main` method of `m` is an own member of its type. -/
theorem TypeGraph.mem_membersOf_of_mainMethod {ty : TypeSymbol} {m main : MemberSymbol}
    (h : g.mainMethod ty m = .unique main) : main ∈ g.membersOf ty := by
  unfold mainMethod at h
  split at h
  · split at h
    · rename_i candidate hcandidates
      obtain rfl := MainMethod.unique.inj h
      have hmem : candidate ∈ g.mainCandidates ty m := by
        rw [hcandidates]
        exact .head _
      exact (List.mem_filter.1 (List.mem_filter.1 hmem).1).1
    · cases h
  · cases h

omit hensure in
theorem owns_of_mem_namedMembers (wf : g.WellFormed) {ty : TypeSymbol}
    (hty : g.type? t = some ty) {m : MemberSymbol} (hm : m ∈ g.namedMembers ty) : g.Owns t m :=
  TypeGraph.owns_of_mem_canonicalMembers wf hty (TypeGraph.mem_namedMembers.1 hm).1

omit hensure in
theorem owns_of_mem_alternates (wf : g.WellFormed) {ty : TypeSymbol}
    (hty : g.type? t = some ty) {p : MemberSymbol × MemberSymbol} (hp : p ∈ g.alternates ty) :
    g.Owns t p.1 ∧ g.Owns t p.2 := by
  obtain ⟨hm, hmain⟩ := TypeGraph.mem_alternates.1 hp
  exact ⟨TypeGraph.owns_of_mem_canonicalMembers wf hty hm,
    TypeGraph.owns_of_mem_membersOf wf hty (TypeGraph.mem_membersOf_of_mainMethod hmain)⟩

omit hensure in
/-- Asking for the semantics of a method keeps what asking for the members of its type keeps. -/
theorem methodSemanticsBy_self {strict : Prop} {I : ResolutionState → Prop}
    {ensure' : TypeId → Resolve Unit} {b : MemberId}
    (hensure : ∀ y, g.member? b = some y →
      Lockstep strict (Self I) Any (ensure y.declaringType) (ensure' y.declaringType)) :
    Lockstep strict (Self I) Eq (methodSemanticsBy g ensure b) (methodSemanticsBy g ensure' b) := by
  unfold methodSemanticsBy
  refine Lockstep.get_bind fun s s' hs => ?_
  obtain ⟨rfl, -⟩ := hs
  cases s.methods.find? b with
  | some semantics => exact .pure rfl
  | none =>
    cases hb : g.member? b with
    | none => exact .pure rfl
    | some y =>
      refine (hensure y hb).bind fun _ _ _ => Lockstep.get_bind fun s s' hs => ?_
      obtain ⟨rfl, -⟩ := hs
      exact .pure rfl

omit hensure in
theorem KeepsChanges.markNotUsable (wf : g.WellFormed) {I : ResolutionState → Prop}
    (keeps : KeepsChanges (g.Declared t) I) {strict : Prop} {ty : TypeSymbol}
    (hty : g.type? t = some ty) {resolved : ResolvedType} (husable : ¬resolved.isUsable) :
    Lockstep strict (Self I) Any ((g.canonicalMembers ty).forM markNotUsable)
      ((g.canonicalMembers ty).forM markNotUsable) := by
  have k : KeepsMembers strict .refl ⟨g, {}, fun _ => pure none, ty, resolved⟩
      ⟨g, {}, fun _ => pure none, ty, resolved⟩ (g.OwnsIn t (g.Declared t)) (g.Declared t)
      (Self I) :=
    keeps.members wf (fun _ _ _ _ => .pure rfl) resolved
  exact markSameNotUsable_lockstep k
    (fun m hm => (TypeGraph.owns_of_mem_canonicalMembers wf hty hm).ownsIn wf) husable

section

omit hensure

variable (wf : g.WellFormed) {I : ResolutionState → Prop} (keeps : KeepsChanges (g.Declared t) I)
  {strict : Prop} {ensure' : TypeId → Resolve Unit}
  (hrequests : ∀ u, g.DependsOn t u → Lockstep strict (Self I) Any (ensure u) (ensure' u))
  {ty : TypeSymbol} (hty : g.type? t = some ty) {resolved : ResolvedType}

include wf keeps hrequests hty

/-- A condition `I` that is kept by records about the own members of `ty`, and by requests for the
types that it depends on, is kept when the members are resolved. -/
theorem KeepsChanges.resolveMembers (names : NameRegistry) :
    Lockstep strict (Self I) NameRegistry.SameNames
      ((g.memberContext options ensure ty resolved).resolveMembers names)
      ((g.memberContext options ensure' ty resolved).resolveMembers names) := by
  have k : KeepsMembers strict .refl (g.memberContext options ensure ty resolved)
      (g.memberContext options ensure' ty resolved) (g.OwnsIn t (g.Declared t)) (g.Declared t)
      (Self I) :=
    keeps.members wf (fun m hm b hb => methodSemanticsBy_self fun y hy =>
      hrequests _ (.inr ⟨m.id, m, hm.1, hm.2, b, hb, y, hy, rfl⟩)) resolved
  refine resolveSameMembers_lockstep k
    (fun m hm => (owns_of_mem_namedMembers wf hty hm).ownsIn wf) (fun p hp => ?_) (.refl _)
  exact keeps.alternate (owns_of_mem_alternates wf hty hp).1.declared p.2

/-- The members of `ty` are processed alike with requests `ensure` and `ensure'` that are answered
alike. -/
theorem KeepsChanges.processMembers :
    Lockstep strict (Self I) NameRegistry.SameNames (processMembers g options ensure ty resolved)
      (processMembers g options ensure' ty resolved) := by
  unfold ScriptNaming.processMembers
  cases hbases : g.allBaseTypes ty with
  | error e => exact fun _ _ _ => trivial
  | ok bases =>
    have hall : List.Forall₂ (fun b b' => b' = b ∧ g.DependsOn t b) bases bases :=
      List.forall₂_same.2 fun b hb =>
        ⟨rfl, .inl (TypeGraph.inherits_of_mem_allBaseTypes hty hbases b hb)⟩
    refine Lockstep.bind (Lockstep.lift (V := fun l l' => l' = l ∧ l = bases) ⟨rfl, rfl⟩)
      fun l l' hl => ?_
    obtain ⟨rfl, rfl⟩ := hl
    refine (Lockstep.forM (fun b b' hb => ?_) hall).bind fun _ _ _ => ?_
    · rw [hb.1]
      exact hrequests b hb.2
    refine Lockstep.get_bind fun s s' hs => ?_
    obtain ⟨rfl, -⟩ := hs
    by_cases husable : resolved.isUsable
    · rw [if_pos husable, if_pos husable]
      exact keeps.resolveMembers wf hrequests hty _
    · rw [if_neg husable, if_neg husable]
      exact (keeps.markNotUsable wf hty husable).bind fun _ _ _ => .pure (.refl _)

end

omit hensure in
/-- After the base types of `ty` have been asked for, the rest of the processing keeps what records
about the own members and further requests keep. -/
theorem processMembers_after_bases (wf : g.WellFormed) {ty : TypeSymbol}
    (hty : g.type? t = some ty) {resolved : ResolvedType} {names : NameRegistry}
    (h : processMembers g options ensure ty resolved s = .ok (names, s')) :
    ∃ bases s₁, g.allBaseTypes ty = .ok bases ∧ bases.forM ensure s = .ok ((), s₁) ∧
      ∀ I : ResolutionState → Prop, KeepsChanges (g.Declared t) I →
        (∀ u, g.DependsOn t u → ∀ s s', I s → ensure u s = .ok ((), s') → I s') → I s₁ → I s' := by
  obtain ⟨bases, s₁, hbases, hrun, husable, hunusable⟩ := processMembers_eq_ok h
  refine ⟨bases, s₁, hbases, hrun, fun I keeps hrequests hI => ?_⟩
  have hself (u : TypeId) (hu : g.DependsOn t u) :
      Lockstep True (Self I) Any (ensure u) (ensure u) :=
    .self fun s _ s' hs hrun => ⟨trivial, hrequests u hu s s' hs hrun⟩
  by_cases hresolved : resolved.isUsable
  · exact (keeps.resolveMembers wf hself hty _).invariant hI (husable hresolved)
  · have hmark : Lockstep True (Self I) Any ((g.canonicalMembers ty).forM markNotUsable)
        ((g.canonicalMembers ty).forM markNotUsable) := keeps.markNotUsable wf hty hresolved
    exact hmark.invariant hI (hunusable hresolved).1

/-- The members of `ty` are processed in states of the kind described. -/
theorem processMembers_within (wf : g.WellFormed) {ty : TypeSymbol} (hty : g.type? t = some ty)
    {resolved : ResolvedType} {names : NameRegistry} (hs : Within g options t s₀ s)
    (h : processMembers g options ensure ty resolved s = .ok (names, s')) :
    Within g options t s₀ s' := by
  have hrequest (u : TypeId) (hu : g.DependsOn t u) :
      Lockstep True (Self (Framed g options t (g.Declared t) s₀)) Any (ensure u) (ensure u) :=
    .self fun s _ s' hs hrun => by
      obtain ⟨hs', hextends, -⟩ := hs.toWithin.request hensure hu hrun
      exact ⟨trivial, hs.meanwhile hs'.reached hextends⟩
  have hframed : Framed g options t (g.Declared t) s₀ s := ⟨hs, fun m hm hnot => absurd hm hnot⟩
  have keeps : KeepsChanges (g.Declared t) (Framed g options t (g.Declared t) s₀) :=
    framed_keepsChanges fun _ hm => hm
  exact ((keeps.processMembers wf hrequest hty).invariant hframed h).toWithin

/-- The own members of `ty` come up when its base types have been asked for, and nothing is recorded
about them by then. -/
theorem processMembers_own {ty : TypeSymbol} (hty : g.type? t = some ty) {resolved : ResolvedType}
    {names : NameRegistry} (hs : Within g options t s₀ s)
    (hempty : ∀ k, g.Declared t k → s.recordOf k = .empty)
    (h : processMembers g options ensure ty resolved s = .ok (names, s')) :
    ∃ bases s₁, g.allBaseTypes ty = .ok bases ∧ Within g options t s₀ s₁ ∧
      (g.Layered → ∀ b ∈ bases, s₁.Done b) ∧ (∀ k, g.Declared t k → s₁.recordOf k = .empty) ∧
      (resolved.isUsable → (g.memberContext options ensure ty resolved).resolveMembers
        (.merged (bases.filterMap s₁.memberNames.find?)) s₁ = .ok (names, s')) ∧
      (¬resolved.isUsable → (g.canonicalMembers ty).forM markNotUsable s₁ = .ok ((), s') ∧
        names = .merged (bases.filterMap s₁.memberNames.find?)) := by
  obtain ⟨bases, s₁, hbases, hrun, hrest⟩ := processMembers_eq_ok h
  have hinherits := TypeGraph.inherits_of_mem_allBaseTypes hty hbases
  obtain ⟨hs₁, hextends, hbegun⟩ :=
    forM_request hensure (fun b hb => .inl (hinherits b hb)) hs hrun
  exact ⟨bases, s₁, hbases, hs₁, fun layered b hb =>
    hs₁.done_of_lt layered (layered.inherits_lt (hinherits b hb)) (hbegun b hb),
    fun k hk => (hs.recordOf_meanwhile hextends hk).trans (hempty k hk), hrest⟩

end

end ScriptNaming
