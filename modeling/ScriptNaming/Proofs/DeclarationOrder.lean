import ScriptNaming.Proofs.MemberSteps
import ScriptNaming.Resolution

/-!
# Independence of the order of declaration

Neither the order in which types and members are declared nor their numbers show in a resolution.
Along a run, the states for a graph and for its renumbered form stay the same up to numbers
(`ResolutionState.Renumbered`), through the resolution of types (`ensureType_lockstep`), of the
members of a type (`ensureMembers_lockstep`) and of all roots (`resolve_renumbered`).
-/

namespace ScriptNaming

/-! ## States -/

/-- The tables `t` and `t'` have the same entries, up to `σ`, which renumbers the keys. -/
def Table.Renumbered {κ α : Type} [DecidableEq κ] (σ : κ ≃ κ) (t t' : Table κ α) : Prop :=
  ∀ k, t'.find? (σ k) = t.find? k

theorem Table.Renumbered.insert {κ α : Type} [DecidableEq κ] {σ : κ ≃ κ} {t t' : Table κ α}
    (h : t.Renumbered σ t') (k : κ) (v : α) : (t.insert k v).Renumbered σ (t'.insert (σ k) v) := by
  intro k'
  rw [find?_insert, find?_insert, h k']
  simp only [σ.injective.eq_iff]

/-- The counterparts of the types in progress are in progress, in the same order. -/
structure Guard.Renumbered (ρ : Renumbering) (guard guard' : Guard) : Prop where
  visiting : guard'.visiting = guard.visiting.map ρ.type
  depth : guard'.depth = guard.depth

/-- Two states hold the same, up to the numbers of types and members. -/
structure ResolutionState.Renumbered (ρ : Renumbering) (s s' : ResolutionState) : Prop where
  types : s.types.Renumbered ρ.type s'.types
  typeNames : s'.typeNames = s.typeNames
  memberNames : ∀ t, Option.Rel NameRegistry.SameNames (s.memberNames.find? t)
    (s'.memberNames.find? (ρ.type t))
  methods : s.methods.Renumbered ρ.member s'.methods
  properties : s.properties.Renumbered ρ.member s'.properties
  fields : s.fields.Renumbered ρ.member s'.fields
  events : s.events.Renumbered ρ.member s'.events
  origins : s.origins.Renumbered ρ.member s'.origins
  interfaceNames : s'.interfaceNames = s.interfaceNames
  diagnostics : s'.diagnostics = s.diagnostics
  typeGuard : s.typeGuard.Renumbered ρ s'.typeGuard
  memberGuard : s.memberGuard.Renumbered ρ s'.memberGuard

theorem ResolutionState.Renumbered.initial (ρ : Renumbering) :
    ResolutionState.initial.Renumbered ρ .initial where
  types _ := rfl
  typeNames := rfl
  memberNames _ := .none
  methods _ := rfl
  properties _ := rfl
  fields _ := rfl
  events _ := rfl
  origins _ := rfl
  interfaceNames := rfl
  diagnostics := rfl
  typeGuard := ⟨rfl, rfl⟩
  memberGuard := ⟨rfl, rfl⟩

variable {ρ : Renumbering} {g h : TypeGraph} {options : Options}

theorem keepsRecords_renumbered (ρ : Renumbering) (options : Options) :
    KeepsRecords True ρ options (fun _ => True) (ResolutionState.Renumbered ρ) where
  report ds := .modify fun s s' hs => { hs with diagnostics := by rw [hs.diagnostics] }
  property m x _ := .modify fun s s' hs => { hs with properties := hs.properties.insert m x }
  field m x _ := .modify fun s s' hs => { hs with fields := hs.fields.insert m x }
  event m x _ := .modify fun s s' hs => { hs with events := hs.events.insert m x }
  origin m x _ := .modify fun s s' hs => { hs with origins := hs.origins.insert m x }
  counted _ s s' hs a := by
    rw [hs.interfaceNames]
    exact ⟨rfl, { hs with interfaceNames := rfl }⟩

theorem recordMethod_renumbered (m : MemberId) (semantics : MethodSemantics) :
    Lockstep True (ResolutionState.Renumbered ρ) Any (recordMethod m semantics)
      (recordMethod (ρ.member m) semantics) :=
  .modify fun _ _ hs => { hs with methods := hs.methods.insert m semantics }

/-! ## Guards -/

/-- The counterpart of what comes of an attempt to begin with a type. -/
inductive Guard.Admission.Renumbered (ρ : Renumbering) : Admission → Admission → Prop
  | entered {guard guard' : Guard} (h : guard.Renumbered ρ guard') :
    Renumbered ρ (.entered guard) (.entered guard')
  | cycle : Renumbered ρ .cycle .cycle
  | tooDeep : Renumbered ρ .tooDeep .tooDeep

namespace Guard.Renumbered

variable {guard guard' : Guard} (hg : guard.Renumbered ρ guard')

include hg

theorem contains (t : TypeId) :
    guard'.visiting.contains (ρ.type t) = guard.visiting.contains t := by
  rw [Bool.eq_iff_iff, hg.visiting]
  simp

theorem push (t : TypeId) : (guard.push t).Renumbered ρ (guard'.push (ρ.type t)) where
  visiting := by rw [visiting_push, visiting_push, hg.visiting, List.map_cons]
  depth := congrArg (· + 1) hg.depth

theorem leave (t : TypeId) : (guard.leave t).Renumbered ρ (guard'.leave (ρ.type t)) where
  visiting := by rw [Guard.leave, Guard.leave, hg.visiting, List.map_erase ρ.type.injective]
  depth := congrArg (· - 1) hg.depth

theorem enter (t : TypeId) : (guard.enter t).Renumbered ρ (guard'.enter (ρ.type t)) := by
  unfold Guard.enter
  rw [hg.contains, hg.depth]
  split
  · exact .tooDeep
  split
  · exact .cycle
  · exact .entered (hg.push t)

theorem leaveOrFault (t : TypeId) :
    SameOutcome True (Guard.Renumbered ρ) (guard.leaveOrFault t)
      (guard'.leaveOrFault (ρ.type t)) := by
  rw [Guard.leaveOrFault, Guard.leaveOrFault, hg.contains]
  split
  · exact hg.leave t
  · trivial

end Guard.Renumbered

/-! ## Types -/

section

variable (e : TypeGraph.Renumbered ρ g h)

include e

theorem computeTypeBy_lockstep {outer outer' : TypeId → Resolve ResolvedType}
    (houter : ∀ t, Lockstep True (ResolutionState.Renumbered ρ) Eq (outer t) (outer' (ρ.type t)))
    {ty ty' : TypeSymbol} (hty : TypeSymbol.Renumbered ρ ty ty') :
    Lockstep True (ResolutionState.Renumbered ρ) Eq (computeTypeBy g options outer ty)
      (computeTypeBy h options outer' ty') := by
  have hmapM : Lockstep True (ResolutionState.Renumbered ρ) Eq (ty.declaringType.mapM outer)
      (ty'.declaringType.mapM outer') := by
    rw [hty.declaringType]
    cases ty.declaringType with
    | none => exact .pure rfl
    | some t => exact (houter t).bind fun r r' hr => .pure (congrArg some hr)
  unfold computeTypeBy
  rw [hty.has]
  split
  · exact .pure rfl
  refine hmapM.bind fun r r' hr => ?_
  subst hr
  split
  · exact .pure rfl
  refine Lockstep.get_bind fun s s' hs => ?_
  have htaken : s'.takenTypeNames = s.takenTypeNames := by
    funext space
    rw [ResolutionState.takenTypeNames, ResolutionState.takenTypeNames, hs.typeNames]
  rw [htaken, e.resolvedType hty]
  exact ((keepsRecords_renumbered ρ options).report _).bind fun _ _ _ => .pure rfl

theorem resolveTypeBy_lockstep {outer outer' : TypeId → Resolve ResolvedType}
    (houter : ∀ t, Lockstep True (ResolutionState.Renumbered ρ) Eq (outer t) (outer' (ρ.type t)))
    (t : TypeId) :
    Lockstep True (ResolutionState.Renumbered ρ) Any (resolveTypeBy g options outer t)
      (resolveTypeBy h options outer' (ρ.type t)) := by
  unfold resolveTypeBy
  refine (Lockstep.lift (e.typeOrFault t)).bind fun ty ty' hty => ?_
  refine Lockstep.get_bind fun s s' hs => ?_
  have hguard := hs.typeGuard.enter t
  generalize s.typeGuard.enter t = admission at hguard ⊢
  generalize s'.typeGuard.enter (ρ.type t) = admission' at hguard ⊢
  cases hguard with
  | cycle => exact .throw
  | tooDeep => exact .throw
  | entered hguard =>
    refine (Lockstep.modify fun s s' hs => ?_).bind fun _ _ _ => ?_
    · exact { hs with typeGuard := hguard }
    refine (computeTypeBy_lockstep e houter hty.2.2).bind fun r r' hr => ?_
    subst hr
    refine Lockstep.get_bind fun s s' hs => ?_
    refine (Lockstep.lift (hs.typeGuard.leaveOrFault t)).bind
      fun left left' hleft => Lockstep.modify fun s s' hs => ?_
    exact { hs with
      types := hs.types.insert t r
      typeNames := by rw [hs.typeNames]
      typeGuard := hleft }

omit e in
theorem entryOrFault_lockstep (t : TypeId) :
    Lockstep True (ResolutionState.Renumbered ρ) Eq (entryOrFault t) (entryOrFault (ρ.type t)) := by
  unfold entryOrFault
  refine Lockstep.get_bind fun s s' hs => ?_
  rw [hs.types t]
  cases s.types.find? t with
  | some r => exact .pure rfl
  | none => exact .throw

theorem ensureTypeWithin_lockstep (steps : ℕ) (t : TypeId) :
    Lockstep True (ResolutionState.Renumbered ρ) Eq (ensureTypeWithin g options steps t)
      (ensureTypeWithin h options steps (ρ.type t)) := by
  induction steps generalizing t with
  | zero => exact .throw
  | succ steps ih =>
    unfold ensureTypeWithin
    refine Lockstep.get_bind fun s s' hs => ?_
    rw [hs.types t]
    cases s.types.find? t with
    | some r => exact .pure rfl
    | none => exact (resolveTypeBy_lockstep e ih t).bind fun _ _ _ => entryOrFault_lockstep t

/-- A type is resolved in lockstep with its counterpart. -/
theorem ensureType_lockstep (t : TypeId) :
    Lockstep True (ResolutionState.Renumbered ρ) Eq (ensureType g options t)
      (ensureType h options (ρ.type t)) := by
  rw [ensureType, ensureType, e.size_types]
  exact ensureTypeWithin_lockstep e _ t

/-! ## Members -/

section

variable {ensure ensure' : TypeId → Resolve Unit}
  (hensure : ∀ t, Lockstep True (ResolutionState.Renumbered ρ) Any (ensure t) (ensure' (ρ.type t)))

include hensure

theorem methodSemanticsBy_lockstep (m : MemberId) :
    Lockstep True (ResolutionState.Renumbered ρ) Eq (methodSemanticsBy g ensure m)
      (methodSemanticsBy h ensure' (ρ.member m)) := by
  unfold methodSemanticsBy
  refine Lockstep.get_bind fun s s' hs => ?_
  rw [hs.methods m, e.members m]
  cases s.methods.find? m with
  | some semantics => exact .pure rfl
  | none =>
    cases g.member? m with
    | none => exact .pure rfl
    | some member =>
      refine (hensure member.declaringType).bind fun _ _ _ => ?_
      exact Lockstep.get_bind fun s s' hs => .pure (hs.methods m).symm

/-- Nothing that happens to the members of `ty` tells the two graphs apart. -/
theorem keepsMembers_renumbered {ty ty' : TypeSymbol} (hty : TypeSymbol.Renumbered ρ ty ty')
    (resolved : ResolvedType) :
    KeepsMembers True ρ ⟨g, options, methodSemanticsBy g ensure, ty, resolved⟩
      ⟨h, options, methodSemanticsBy h ensure', ty', resolved⟩ (fun _ => True) (fun _ => True)
      (ResolutionState.Renumbered ρ) where
  contexts := ⟨e, rfl, hty, rfl⟩
  records := keepsRecords_renumbered ρ options
  own _ _ := trivial
  accessor _ _ _ _ _ := ⟨trivial, fun _ _ => trivial⟩
  notUsable _ _ _ m _ := recordMethod_renumbered m .notUsable
  method m preferred names names' _ hp hn := by
    refine resolveMethod_lockstep e (keepsRecords_renumbered ρ options)
      (fun m x _ => recordMethod_renumbered m x) hty hn resolved hp trivial fun b _ => ?_
    exact methodSemanticsBy_lockstep e hensure b

omit e hensure in
theorem resolveAlternate_lockstep (m main : MemberSymbol) :
    Lockstep True (ResolutionState.Renumbered ρ) Any (resolveAlternate m main)
      (resolveAlternate (m.renumber ρ) (main.renumber ρ)) := by
  unfold resolveAlternate
  rw [MemberSymbol.has_renumber]
  split
  · exact recordMethod_renumbered m.id .notUsable
  refine Lockstep.get_bind fun s s' hs => ?_
  rw [MemberSymbol.id_renumber, MemberSymbol.id_renumber, hs.methods main.id]
  exact recordMethod_renumbered m.id _

theorem processMembers_lockstep (apart : g.TellsMembersApart) {t : TypeId} {ty ty' : TypeSymbol}
    (ht : g.type? t = some ty) (hty : TypeSymbol.Renumbered ρ ty ty') (resolved : ResolvedType) :
    Lockstep True (ResolutionState.Renumbered ρ) NameRegistry.SameNames
      (processMembers g options ensure ty resolved)
      (processMembers h options ensure' ty' resolved) := by
  have k : KeepsMembers True ρ ⟨g, options, methodSemanticsBy g ensure, ty, resolved⟩
      ⟨h, options, methodSemanticsBy h ensure', ty', resolved⟩ (fun _ => True) (fun _ => True)
      (ResolutionState.Renumbered ρ) :=
    keepsMembers_renumbered e hensure hty resolved
  unfold processMembers
  refine (Lockstep.lift (e.allBaseTypes hty)).bind fun bases bases' hbases => ?_
  subst hbases
  have hall : List.Forall₂ (fun b b' => b' = ρ.type b) bases (bases.map ρ.type) := by
    rw [List.forall₂_map_right_iff, List.forall₂_same]
    exact fun _ _ => rfl
  refine (Lockstep.forM (fun b b' hb => hb ▸ hensure b) hall).bind fun _ _ _ => ?_
  refine Lockstep.get_bind fun s s' hs => ?_
  have hinherited : (NameRegistry.merged (bases.filterMap s.memberNames.find?)).SameNames
      (.merged ((bases.map ρ.type).filterMap s'.memberNames.find?)) := by
    rw [List.filterMap_map]
    refine .merged (List.rel_filterMap (R := Eq) (fun b b' hb => ?_) (List.forall₂_eq_eq_eq ▸ rfl))
    subst hb
    exact hs.memberNames b
  dsimp only
  split
  · exact MemberContext.resolveMembers_lockstep k (e.namedMembers apart ht hty) (fun _ _ => trivial)
      (e.alternates apart ht hty) (fun p _ => resolveAlternate_lockstep p.1 p.2) hinherited
  · rename_i husable
    rw [e.canonicalMembers apart ht hty]
    exact (forM_markNotUsable_lockstep k (fun _ _ => trivial) husable).bind
      fun _ _ _ => .pure hinherited

theorem ensureMembersBy_lockstep (apart : g.TellsMembersApart) (t : TypeId) :
    Lockstep True (ResolutionState.Renumbered ρ) Any (ensureMembersBy g options ensure t)
      (ensureMembersBy h options ensure' (ρ.type t)) := by
  unfold ensureMembersBy
  refine Lockstep.get_bind fun s s' hs => ?_
  have hcontains : s'.memberNames.contains (ρ.type t) = s.memberNames.contains t := by
    have ht := hs.memberNames t
    rw [Table.contains, Table.contains]
    generalize s.memberNames.find? t = found at ht ⊢
    generalize s'.memberNames.find? (ρ.type t) = found' at ht ⊢
    cases ht <;> rfl
  rw [hcontains]
  split
  · exact .pure trivial
  refine (ensureType_lockstep e t).bind fun resolved resolved' hresolved => ?_
  subst hresolved
  refine (Lockstep.lift (e.typeOrFault t)).bind fun ty ty' hty => ?_
  refine Lockstep.get_bind fun s s' hs => ?_
  have hguard := hs.memberGuard.enter t
  generalize s.memberGuard.enter t = admission at hguard ⊢
  generalize s'.memberGuard.enter (ρ.type t) = admission' at hguard ⊢
  cases hguard with
  | cycle => exact .pure trivial
  | tooDeep => exact .throw
  | entered hguard =>
    refine (Lockstep.modify fun s s' hs => ?_).bind fun _ _ _ => ?_
    · exact { hs with memberGuard := hguard }
    refine (processMembers_lockstep e hensure apart hty.1 hty.2.2 resolved).bind
      fun names names' hnames => ?_
    refine Lockstep.get_bind fun s s' hs => ?_
    refine (Lockstep.lift (hs.memberGuard.leaveOrFault t)).bind
      fun left left' hleft => Lockstep.modify fun s s' hs => ?_
    refine { hs with
      memberNames := fun u => ?_
      memberGuard := hleft }
    rw [Table.find?_insert, Table.find?_insert]
    simp only [ρ.type.injective.eq_iff]
    split
    · exact .some hnames
    · exact hs.memberNames u

end

/-- The members of `t` are resolved in lockstep with those of its counterpart. -/
theorem ensureMembers_lockstep (apart : g.TellsMembersApart) (t : TypeId) :
    Lockstep True (ResolutionState.Renumbered ρ) Any (ensureMembers g options t)
      (ensureMembers h options (ρ.type t)) := by
  have hwithin (steps : ℕ) : ∀ t, Lockstep True (ResolutionState.Renumbered ρ) Any
      (ensureMembersWithin g options steps t) (ensureMembersWithin h options steps (ρ.type t)) := by
    induction steps with
    | zero => exact fun t => .throw
    | succ steps ih => exact ensureMembersBy_lockstep e ih apart
  rw [ensureMembers, ensureMembers, e.size_types]
  exact hwithin _ t

/-! ## Roots -/

omit e in
theorem lookupOrder_map (f : TypeId → TypeId) (roots : List TypeId) :
    lookupOrder (roots.map f) = (lookupOrder roots).map f := by
  match roots with
  | [] => rfl
  | [_] => rfl
  | _ :: _ :: _ => rfl

/-- No two types of a graph have the same full name. -/
def TypeGraph.TellsTypesApart (g : TypeGraph) : Prop :=
  ∀ ⦃t u a b⦄, g.type? t = some a → g.type? u = some b → a.fullName = b.fullName → t = u

/-- A type `a` of the graph `g` and its counterpart `a'` in `h`. -/
def TypeGraph.Counterparts (ρ : Renumbering) (g h : TypeGraph) (a a' : TypeSymbol) : Prop :=
  ∃ t, g.type? t = some a ∧ h.type? (ρ.type t) = some a' ∧ TypeSymbol.Renumbered ρ a a'

section

variable (apart : g.TellsTypesApart) {a b a' b' : TypeSymbol}
  (ha : TypeGraph.Counterparts ρ g h a a') (hb : TypeGraph.Counterparts ρ g h b b')

include apart ha hb

omit e in
/-- Counterparts are the same type if and only if they have the same full name. -/
theorem TypeGraph.TellsTypesApart.eq_iff :
    (a = b ↔ a.fullName = b.fullName) ∧ (a' = b' ↔ a.fullName = b.fullName) := by
  obtain ⟨t, hta, hta', hra⟩ := ha
  obtain ⟨u, hub, hub', hrb⟩ := hb
  have hname (hab : a.fullName = b.fullName) : a = b ∧ a' = b' := by
    obtain rfl := apart hta hub hab
    exact ⟨Option.some.inj (hta.symm.trans hub), Option.some.inj (hta'.symm.trans hub')⟩
  refine ⟨⟨fun hab => hab ▸ rfl, fun hab => (hname hab).1⟩, fun hab => ?_, fun hab => (hname hab).2⟩
  rw [← hra.fullName, ← hrb.fullName, hab]

omit e in
theorem rootLE_counterparts : rootLE a' b' = rootLE a b := by
  obtain ⟨hab, hab'⟩ := apart.eq_iff ha hb
  obtain ⟨_, -, -, hra⟩ := ha
  obtain ⟨_, -, -, hrb⟩ := hb
  unfold rootLE
  rw [hra.fullName, hrb.fullName]
  by_cases hname : a.fullName = b.fullName
  · rw [hab.2 hname, hab'.2 hname]
    simp
  · have hne : compare a.fullName b.fullName ≠ .eq := by
      rwa [ne_eq, Std.compare_eq_iff_eq]
    cases hcompare : compare a.fullName b.fullName with
    | lt => rfl
    | eq => exact absurd hcompare hne
    | gt => rfl

end

theorem sortedRoots_lockstep (apart : g.TellsTypesApart) (roots : List TypeId) :
    SameOutcome True (List.Forall₂ (TypeGraph.Counterparts ρ g h)) (g.sortedRoots roots)
      (h.sortedRoots (roots.map ρ.type)) := by
  have hlookup : List.Forall₂ (fun t t' => t' = ρ.type t) (lookupOrder roots)
      ((lookupOrder roots).map ρ.type) := by
    rw [List.forall₂_map_right_iff, List.forall₂_same]
    exact fun _ _ => rfl
  have htypes : SameOutcome True (List.Forall₂ (TypeGraph.Counterparts ρ g h))
      ((lookupOrder roots).mapM g.typeOrFault)
      (((lookupOrder roots).map ρ.type).mapM h.typeOrFault) := by
    refine SameOutcome.mapM (fun t t' ht => ?_) hlookup
    subst ht
    exact (e.typeOrFault t).mono fun a a' ha => ⟨t, ha⟩
  unfold TypeGraph.sortedRoots
  rw [lookupOrder_map]
  refine htypes.bind fun l l' hl => ?_
  have hrootLE (a a' b b' : TypeSymbol) (ha : TypeGraph.Counterparts ρ g h a a')
      (hb : TypeGraph.Counterparts ρ g h b b') : rootLE a' b' = rootLE a b :=
    rootLE_counterparts apart ha hb
  have hsorted : List.Forall₂ (TypeGraph.Counterparts ρ g h) (sortBy rootLE l)
      (sortBy rootLE l') := forall₂_sortBy hrootLE hl
  change List.Forall₂ _ (sortBy rootLE l).eraseReps (sortBy rootLE l').eraseReps
  refine forall₂_eraseReps (fun a a' b b' ha hb => ?_) hsorted
  obtain ⟨hab, hab'⟩ := apart.eq_iff ha hb
  rw [Bool.eq_iff_iff, beq_iff_eq, beq_iff_eq, hab, hab']

/-- Two resolutions have the same entries, up to the numbers that are their keys, and the same
diagnostics in the same order. -/
structure Resolution.Renumbered (ρ : Renumbering) (r r' : Resolution) : Prop where
  types : r.types.Renumbered ρ.type r'.types
  methods : r.methods.Renumbered ρ.member r'.methods
  properties : r.properties.Renumbered ρ.member r'.properties
  fields : r.fields.Renumbered ρ.member r'.fields
  events : r.events.Renumbered ρ.member r'.events
  origins : r.origins.Renumbered ρ.member r'.origins
  diagnostics : r'.diagnostics.toList = r.diagnostics.toList

theorem resolve_lockstep (types : g.TellsTypesApart) (members : g.TellsMembersApart)
    (roots : List TypeId) (main : AssemblyId) :
    SameOutcome True (Resolution.Renumbered ρ) (g.resolve options roots main)
      (h.resolve options (roots.map ρ.type) main) := by
  unfold TypeGraph.resolve
  refine (sortedRoots_lockstep e types roots).bind fun l l' hl => ?_
  have hresolved : List.Forall₂ (TypeGraph.Counterparts ρ g h) (l.filter (g.isResolvedRoot main))
      (l'.filter (h.isResolvedRoot main)) := by
    refine List.rel_filter (fun a a' ha => ?_) hl
    obtain ⟨t, -, -, hra⟩ := ha
    simp only [TypeGraph.isResolvedRoot, hra.assembly, e.isPublicType hra]
  have hids : List.Forall₂ (fun t t' => t' = ρ.type t)
      ((l.filter (g.isResolvedRoot main)).map TypeSymbol.id)
      ((l'.filter (h.isResolvedRoot main)).map TypeSymbol.id) :=
    List.rel_map (fun a a' ha => ha.choose_spec.2.2.id) hresolved
  have hroots : Lockstep True (ResolutionState.Renumbered ρ) Any
      (((l.filter (g.isResolvedRoot main)).map TypeSymbol.id).forM (resolveRoot g options))
      (((l'.filter (h.isResolvedRoot main)).map TypeSymbol.id).forM (resolveRoot h options)) := by
    refine Lockstep.forM (fun t t' ht => ?_) hids
    subst ht
    exact (ensureType_lockstep e t).bind fun _ _ _ => ensureMembers_lockstep e members t
  refine (hroots (.initial ρ)).bind fun p p' hp => ?_
  obtain ⟨-, hs⟩ := hp
  exact ⟨hs.types, hs.methods, hs.properties, hs.fields, hs.events, hs.origins,
    congrArg DiagnosticBag.toList hs.diagnostics⟩

/-- **Neither numbers nor the order of declaration show**: resolutions of two graphs that differ, by
`ρ`, only in the numbers of types and members and in the order of declaration among the own members
of each type come to the same, with all numbers moved along. One has a result exactly when the other
one has, and then all entries are the same, and so are the diagnostics with their order. -/
theorem resolve_renumbered (types : g.TellsTypesApart) (members : g.TellsMembersApart)
    (options : Options) (roots : List TypeId) (main : AssemblyId) :
    ((∃ r, g.resolve options roots main = .ok r) ↔
      ∃ r', h.resolve options (roots.map ρ.type) main = .ok r') ∧
    ∀ r r', g.resolve options roots main = .ok r →
      h.resolve options (roots.map ρ.type) main = .ok r' → r.Renumbered ρ r' := by
  have hresolve : SameOutcome True (Resolution.Renumbered ρ) (g.resolve options roots main)
      (h.resolve options (roots.map ρ.type) main) :=
    resolve_lockstep e types members roots main
  constructor
  · cases hg : g.resolve options roots main with
    | error fault =>
      cases hh : h.resolve options (roots.map ρ.type) main with
      | error fault' => simp
      | ok r' =>
        rw [hg, hh] at hresolve
        exact (hresolve trivial).elim
    | ok r =>
      cases hh : h.resolve options (roots.map ρ.type) main with
      | error fault' =>
        rw [hg, hh] at hresolve
        exact (hresolve trivial).elim
      | ok r' => simp
  · intro r r' hg hh
    rwa [hg, hh] at hresolve

end

/-! ## An example -/

/-- A public class of the example, without markers. -/
def exampleClass (t : TypeId) (name : String) (baseTypes : List TypeId) (members : List MemberId) :
    TypeSymbol :=
  ⟨t, name, "Demo", "Demo." ++ name, .class, .public, false, ⟨0⟩, [], none, baseTypes, members, []⟩

/-- A public method of the example, without parameters and markers. -/
def exampleMethod (m : MemberId) (name : String) (t : TypeId) : MemberSymbol :=
  ⟨m, name, t, .public, {}, none, [], [], .method ⟨[], [], none⟩⟩

/-- A class `Shape` with two methods, and a class `Circle` that derives from it. -/
def shapes : TypeGraph where
  assemblies := #["Demo"]
  types := #[exampleClass ⟨0⟩ "Shape" [] [⟨0⟩, ⟨1⟩], exampleClass ⟨1⟩ "Circle" [⟨0⟩] []]
  members := #[exampleMethod ⟨0⟩ "Draw" ⟨0⟩, exampleMethod ⟨1⟩ "draw" ⟨0⟩]

/-- The same classes and methods, each declared in the other order. -/
def reorderedShapes : TypeGraph where
  assemblies := #["Demo"]
  types := #[exampleClass ⟨0⟩ "Circle" [⟨1⟩] [], exampleClass ⟨1⟩ "Shape" [] [⟨0⟩, ⟨1⟩]]
  members := #[exampleMethod ⟨0⟩ "draw" ⟨1⟩, exampleMethod ⟨1⟩ "Draw" ⟨1⟩]

/-- The renumbering between the two. -/
def shapesRenumbering : Renumbering := ⟨Equiv.swap ⟨0⟩ ⟨1⟩, Equiv.swap ⟨0⟩ ⟨1⟩⟩

theorem renumbered_shapes : TypeGraph.Renumbered shapesRenumbering shapes reorderedShapes where
  types := by
    rintro ⟨_ | _ | i⟩
    · exact .some ⟨rfl, rfl, rfl, rfl, rfl, rfl, rfl, rfl, rfl, rfl, rfl, .swap _ _ _, rfl⟩
    · exact .some ⟨rfl, rfl, rfl, rfl, rfl, rfl, rfl, rfl, rfl, rfl, rfl, .refl _, rfl⟩
    · exact .none
  members := by
    rintro ⟨_ | _ | i⟩
    · rfl
    · rfl
    · rfl

/-- Both methods of `Shape` would like to be called `draw`. The one whose name comes later gets the
suffix, in whichever order they are declared. -/
theorem resolve_reorderedShapes :
    TypeGraph.Renumbered shapesRenumbering shapes reorderedShapes ∧ shapes.TellsTypesApart ∧
    shapes.TellsMembersApart ∧
    ((∃ r, shapes.resolve {} [⟨1⟩] ⟨0⟩ = .ok r) ↔
      ∃ r', reorderedShapes.resolve {} ([⟨1⟩].map shapesRenumbering.type) ⟨0⟩ = .ok r') ∧
    ∃ r r', shapes.resolve {} [⟨1⟩] ⟨0⟩ = .ok r ∧
      reorderedShapes.resolve {} ([⟨1⟩].map shapesRenumbering.type) ⟨0⟩ = .ok r' ∧
      r.Renumbered shapesRenumbering r' ∧
      r.methods.find? ⟨1⟩ = some (.normalMethod "draw$0" true false false) ∧
      r'.methods.find? ⟨0⟩ = some (.normalMethod "draw$0" true false false) := by
  have types : shapes.TellsTypesApart := by
    rintro ⟨_ | _ | i⟩ ⟨_ | _ | j⟩ a b ha hb hab <;> cases ha <;> cases hb <;>
      first | rfl | exact absurd hab (by decide)
  have members : shapes.TellsMembersApart := by
    rintro ⟨_ | _ | i⟩ ty hty <;> cases hty <;> decide
  have hrun : (shapes.resolve {} [⟨1⟩] ⟨0⟩).toOption.any fun r =>
      r.methods.find? ⟨1⟩ = some (.normalMethod "draw$0" true false false) := by
    decide +kernel
  have hrun' : (reorderedShapes.resolve {} ([⟨1⟩].map shapesRenumbering.type) ⟨0⟩).toOption.any
      fun r => r.methods.find? ⟨0⟩ = some (.normalMethod "draw$0" true false false) := by
    decide +kernel
  obtain ⟨r, hr, hdraw⟩ := exists_of_any_toOption hrun
  obtain ⟨r', hr', hdraw'⟩ := exists_of_any_toOption hrun'
  obtain ⟨hboth, hsame⟩ := resolve_renumbered renumbered_shapes types members {} [⟨1⟩] ⟨0⟩
  exact ⟨renumbered_shapes, types, members, hboth, r, r', hr, hr', hsame r r' hr hr',
    of_decide_eq_true hdraw, of_decide_eq_true hdraw'⟩

end ScriptNaming
