import ScriptNaming.Proofs.DiagnosticLogs
import ScriptNaming.Proofs.Lockstep
import ScriptNaming.Proofs.MethodOutcomes
import ScriptNaming.Proofs.ReachedStates

/-!
# The codes of reports

A resolution reports problems under a few codes (`reportCodes`), and none of them has a colon. So
the diagnostics of a resolution show a log of its reports (`resolve_shows`), and what is found for
an entity and a code was reported about that entity.

`AreCoded ds` says that some diagnostics have such codes, and `Coded x` that a step reports no
others. There is one lemma for each function that makes diagnostics and one for each that reports
them.
-/

namespace ScriptNaming

/-! ## Codes -/

/-- The codes under which problems are reported. -/
def reportCodes : List String :=
  ["Namespace", "Name", "GlobalMethods", "InvalidName", "NoMainMethod",
    "ScriptSkipOnInterfaceMember", "ScriptSkipOnOverridable",
    "ScriptSkipOnInterfaceImplementation", "ScriptSkipParameterCount",
    "NonStaticWithAlias", "InlineCodeOnInterfaceMember", "InlineCodeOnOverridable",
    "InlineCodeOnInterfaceImplementation", "InlineCodeInvalidPlaceholder",
    "InstanceMethodOnFirstArgument", "CannotSpecifyName", "CannotSpecifyIgnoreGenericArguments",
    "MultipleInterfaceImplementations", "InterfaceMethodWithEmptyName", "OverridableWithEmptyName",
    "StaticWithEmptyName", "IndexerCannotHaveScriptAlias", "InstancePropertyCannotHaveScriptAlias",
    "InterfacePropertyCannotBeIntrinsic", "OverridingPropertyCannotBeIntrinsic",
    "OverridablePropertyCannotBeIntrinsic", "ImplementingPropertyCannotBeIntrinsic",
    "NativeIndexerArgument"]

theorem reportCodes_colon_free : ∀ code ∈ reportCodes, ':' ∉ code.toList := by
  decide +kernel

/-- All of the diagnostics `ds` have codes of reports. -/
def AreCoded (ds : List Diagnostic) : Prop := ∀ d ∈ ds, d.category ∈ reportCodes

namespace AreCoded

variable {ds es : List Diagnostic} {category : String} {kind : DiagnosticKind}
  {message : String → String}

theorem nil : AreCoded [] := nofun

theorem append (h : AreCoded ds) (h' : AreCoded es) : AreCoded (ds ++ es) :=
  fun d hd => (List.mem_append.1 hd).elim (h d) (h' d)

theorem singleton {d : Diagnostic} (h : d.category ∈ reportCodes) : AreCoded [d] := by
  intro d' hd'
  rwa [List.mem_singleton.1 hd']

theorem ofType {ty : TypeSymbol} (h : category ∈ reportCodes) :
    AreCoded [typeDiagnostic ty category kind message] := singleton h

theorem ofMember {g : TypeGraph} {m : MemberSymbol} (h : category ∈ reportCodes) :
    AreCoded [memberDiagnostic g m category kind message] := singleton h

theorem ite {p : Prop} [Decidable p] (h : AreCoded ds) : AreCoded (if p then ds else []) := by
  split
  · exact h
  · exact nil

end AreCoded

/-! ## Steps -/

/-- The diagnostics in `bag` come of a log with codes of reports. -/
def DiagnosticBag.IsCoded (bag : DiagnosticBag) : Prop :=
  ∃ log, AreCoded log ∧ bag = DiagnosticBag.addAll ∅ log

/-- A step `x` after which the diagnostics still come of a log of reports. -/
def Coded {α : Type} (x : Resolve α) : Prop :=
  Lockstep False (Self fun s => s.diagnostics.IsCoded) Eq x x

namespace Coded

variable {α β : Type} {x : Resolve α}

theorem pure {a : α} : Coded (Pure.pure a : Resolve α) := Lockstep.pure rfl

theorem bind {f : α → Resolve β} (h : Coded x) (hf : ∀ a, Coded (f a)) : Coded (x >>= f) :=
  Lockstep.bind h fun a _ hab => hab ▸ hf a

theorem get_bind {f : ResolutionState → Resolve α} (hf : ∀ s, Coded (f s)) :
    Coded (get >>= f) :=
  Lockstep.get_bind fun s _ hst => hst.1 ▸ hf s

theorem throw {e : Fault} : Coded (MonadExcept.throw e : Resolve α) := Lockstep.throw

theorem lift {e : Except Fault α} : Coded (liftM e : Resolve α) :=
  .self fun _ _ _ hs h => ⟨rfl, (run_liftM_eq_ok.1 h).2 ▸ hs⟩

theorem modify {f : ResolutionState → ResolutionState}
    (hf : ∀ s, (f s).diagnostics = s.diagnostics) : Coded (modify f : Resolve PUnit) := by
  refine .self fun s _ s' hs h => ⟨rfl, ?_⟩
  obtain ⟨-, rfl⟩ := Prod.ext_iff.1 (Except.ok.inj h)
  rwa [hf]

theorem report {ds : List Diagnostic} (hds : AreCoded ds) : Coded (report ds) := by
  refine .self fun s _ s' hs h => ⟨rfl, ?_⟩
  obtain rfl := report_eq_ok h
  obtain ⟨log, hlog, hbag⟩ := hs
  exact ⟨log ++ ds, hlog.append hds, by rw [hbag, DiagnosticBag.addAll_append]⟩

theorem forM {f : α → Resolve PUnit} (hf : ∀ a, Coded (f a)) (l : List α) : Coded (l.forM f) := by
  induction l with
  | nil => exact .pure
  | cons a l ih => exact (hf a).bind fun _ => ih

theorem foldlM {f : β → α → Resolve β} (hf : ∀ b a, Coded (f b a)) (l : List α) (b : β) :
    Coded (l.foldlM f b) := by
  induction l generalizing b with
  | nil => exact .pure
  | cons a l ih => exact (hf b a).bind ih

theorem mapM {f : α → Resolve β} (hf : ∀ a, Coded (f a)) (l : List α) : Coded (l.mapM f) := by
  induction l with
  | nil => exact .pure
  | cons a l ih =>
    rw [List.mapM_cons]
    exact (hf a).bind fun _ => ih.bind fun _ => .pure

end Coded

/-! ## Reports about types -/

section

variable (g : TypeGraph) (options : Options) (ty : TypeSymbol) (outer : Option ResolvedType)
  (taken : String → NameSet)

theorem scriptSpace_coded : AreCoded (g.scriptSpace ty).2 := by
  unfold TypeGraph.scriptSpace
  dsimp only
  split
  · exact .nil
  · split
    · exact .ite (.ofType (by decide))
    · exact .append (.ite (.ofType (by decide))) (.ofType (by decide))

theorem defaultTypeName_coded : AreCoded (g.defaultTypeName ty outer).2 := by
  cases outer with
  | some outer => exact .nil
  | none => exact scriptSpace_coded g ty

theorem derivedTypeName_coded : AreCoded (g.derivedTypeName options taken ty outer).2 := by
  unfold TypeGraph.derivedTypeName
  dsimp only
  split
  · exact scriptSpace_coded g ty
  · exact defaultTypeName_coded g ty outer

theorem scriptTypeName_coded : AreCoded (g.scriptTypeName options taken ty outer).2 := by
  unfold TypeGraph.scriptTypeName
  split
  · exact derivedTypeName_coded g options ty outer taken
  · split
    · exact scriptSpace_coded g ty
    · exact .append (.ofType (by decide)) (derivedTypeName_coded g options ty outer taken)

theorem globalMethods_coded : AreCoded (g.globalMethods ty).2 := by
  unfold TypeGraph.globalMethods
  dsimp only
  split
  · exact .nil
  repeat' split
  · exact .ofType (by decide)
  · exact .ofType (by decide)
  · exact .ofType (by decide)
  · exact .nil

theorem resolvedType_coded : AreCoded (g.resolvedType options taken ty outer).2 :=
  .append (.append (.ite (.ofType (by decide))) (scriptTypeName_coded g options ty outer taken))
    (globalMethods_coded g ty)

end

theorem computeTypeBy_coded {g : TypeGraph} {options : Options}
    {outerType : TypeId → Resolve ResolvedType} (houter : ∀ t, Coded (outerType t))
    (ty : TypeSymbol) : Coded (computeTypeBy g options outerType ty) := by
  unfold computeTypeBy
  split
  · exact .pure
  refine .bind ?_ fun outer => ?_
  · cases ty.declaringType with
    | none => exact .pure
    | some t => exact (houter t).bind fun _ => .pure
  · split
    · exact .pure
    · exact .get_bind fun s =>
        (Coded.report (resolvedType_coded g options ty outer s.takenTypeNames)).bind fun _ => .pure

/-! ## Reports about members -/

section

variable (g : TypeGraph) (options : Options) (ty : TypeSymbol) (resolved : ResolvedType)
  (m : MemberSymbol) (isSpecified : Bool)

theorem ownPreferredName_coded : AreCoded (g.ownPreferredName options resolved m).2 := by
  unfold TypeGraph.ownPreferredName
  split
  · dsimp only
    split
    · exact .nil
    · exact .ofMember (by decide)
  · repeat' split
    all_goals exact .nil

theorem preferredName_coded : AreCoded (g.preferredName options ty resolved m).2 := by
  unfold TypeGraph.preferredName
  split
  · exact ownPreferredName_coded g options resolved m
  · exact ownPreferredName_coded g options resolved _
  · exact .ofMember (by decide)

theorem roleProblem_coded (article : String) {marker : Marker}
    (hmarker : marker = .scriptSkip ∨ marker = .inlineCode) (role : HierarchyRole) :
    AreCoded [g.roleProblem m article marker role] := by
  refine .ofMember ?_
  rcases hmarker with rfl | rfl <;> cases role <;> decide

theorem skippedMethod_coded : AreCoded (g.skippedMethod ty m).2 := by
  unfold TypeGraph.skippedMethod
  dsimp only
  split
  · exact roleProblem_coded g m "a" (.inl rfl) _
  · split <;> dsimp only <;> split
    · exact .nil
    · exact .ofMember (by decide)
    · exact .nil
    · exact .ofMember (by decide)

theorem inlinedMethod_coded (code : String) : AreCoded (g.inlinedMethod ty m code).2 := by
  unfold TypeGraph.inlinedMethod
  split
  · exact roleProblem_coded g m "an" (.inr rfl) _
  · intro d hd
    obtain ⟨placeholder, -, rfl⟩ := List.mem_map.1 hd
    unfold TypeGraph.placeholderProblem
    split
    · exact AreCoded.ofMember (by decide) _ (.head _)
    · exact AreCoded.ofMember (by decide) _ (.head _)

theorem markedMethod?_coded {preferred : Option String} {marked : MethodSemantics × List Diagnostic}
    (h : g.markedMethod? ty m preferred = some marked) : AreCoded marked.2 := by
  unfold TypeGraph.markedMethod? at h
  split at h
  · obtain rfl := Option.some.inj h
    exact skippedMethod_coded g ty m
  split at h
  · obtain rfl := Option.some.inj h
    unfold TypeGraph.aliasedMethod
    split
    · exact .nil
    · exact .ofMember (by decide)
  split at h
  · obtain rfl := Option.some.inj h
    exact inlinedMethod_coded g ty m _
  split at h
  · obtain rfl := Option.some.inj h
    unfold TypeGraph.firstArgumentMethod
    split
    · exact .nil
    · exact .ofMember (by decide)
  · cases h

theorem blankNamedMethod_coded : AreCoded (g.blankNamedMethod ty m).2 := by
  unfold TypeGraph.blankNamedMethod
  split
  · rename_i category reason hproblem
    refine .ofMember ?_
    unfold blankNameProblem? at hproblem
    split at hproblem
    · cases hproblem
      decide
    split at hproblem
    · cases hproblem
      decide
    split at hproblem
    · cases hproblem
      decide
    · cases hproblem
  · exact .nil

theorem overrideMarkerProblems_coded : AreCoded (g.overrideMarkerProblems m isSpecified) :=
  .append (.ite (.ofMember (by decide))) (.ite (.ofMember (by decide)))

theorem implementationMarkerProblems_coded :
    AreCoded (g.implementationMarkerProblems m isSpecified) :=
  .ite (.ofMember (by decide))

theorem implementationProblems_coded (implemented : List (Option MethodSemantics)) :
    AreCoded (g.implementationProblems m implemented) :=
  .ite (.ofMember (by decide))

end

/-! ## Methods -/

section

variable {g : TypeGraph} {semanticsOf : MemberId → Resolve (Option MethodSemantics)}
  (hsem : ∀ b, Coded (semanticsOf b)) (ty : TypeSymbol) (resolved : ResolvedType)
  (m : MemberSymbol) (preferred : PreferredName) (names : NameRegistry)

theorem recordMethod_coded (k : MemberId) (x : MethodSemantics) : Coded (recordMethod k x) :=
  .modify fun _ => rfl

theorem nameMember_coded : Coded (nameMember ty m preferred names) := by
  refine .bind ?_ fun _ => Coded.bind (.modify fun _ => rfl) fun _ => .pure
  unfold finalName
  split
  · exact .pure
  · unfold uniqueName
    split
    · exact .get_bind fun _ => Coded.bind (.modify fun _ => rfl) fun _ => .pure
    · exact Coded.lift.bind fun _ => .pure

theorem namedMethod_coded : Coded (namedMethod g ty m preferred names) := by
  unfold namedMethod
  split
  · exact (Coded.report (blankNamedMethod_coded g ty m)).bind fun _ => .pure
  · exact (nameMember_coded ty m preferred names).bind fun _ => .pure

include hsem

theorem firstDisagreement_coded (name : Option String) (ms : List MemberId) :
    Coded (firstDisagreement semanticsOf name ms) := by
  induction ms with
  | nil => exact .pure
  | cons b ms ih =>
    refine (hsem b).bind fun x => ?_
    split
    · exact .pure
    · exact ih

theorem reportDisagreement_coded (x : MethodSemantics) :
    Coded (reportDisagreement g semanticsOf m x) := by
  unfold reportDisagreement
  split
  · refine (firstDisagreement_coded hsem _ _).bind fun other => ?_
    cases other with
    | none => exact .pure
    | some other => exact Coded.lift.bind fun _ => .report (.ofMember (by decide))
  · exact .pure

theorem overridingMethod_coded (isSpecified : Bool) :
    Coded (overridingMethod g semanticsOf m isSpecified) := by
  refine (Coded.report (overrideMarkerProblems_coded g m isSpecified)).bind fun _ => ?_
  cases m.overridden with
  | none => exact .pure
  | some b =>
    refine (hsem b).bind fun x => ?_
    cases x with
    | none => exact .pure
    | some x => exact (reportDisagreement_coded hsem m x).bind fun _ => .pure

theorem implementingMethod_coded (isSpecified : Bool) :
    Coded (implementingMethod g semanticsOf m isSpecified) :=
  (Coded.report (implementationMarkerProblems_coded g m isSpecified)).bind fun _ =>
    (Coded.mapM hsem m.implements).bind fun implemented =>
      (Coded.report (implementationProblems_coded g m implemented)).bind fun _ => .pure

theorem inheritedMethod?_coded (isSpecified : Bool) :
    Coded (inheritedMethod? g semanticsOf m isSpecified) := by
  have himplementing : Coded (if m.implements.isEmpty then pure none
      else implementingMethod g semanticsOf m isSpecified) := by
    split
    · exact .pure
    · exact implementingMethod_coded hsem m isSpecified
  unfold inheritedMethod?
  dsimp only
  split
  · refine (overridingMethod_coded hsem m isSpecified).bind fun overriding => ?_
    cases overriding with
    | some x => exact .pure
    | none => exact himplementing
  · exact himplementing

theorem resolveMethod_coded :
    Coded (resolveMethod g semanticsOf ty resolved m preferred names) := by
  refine .bind ?_ fun _ => (recordMethod_coded _ _).bind fun _ => .pure
  unfold classifyMethod
  split
  · exact .pure
  split
  · exact .pure
  cases hmarked : g.markedMethod? ty m preferred.name with
  | some marked => exact (Coded.report (markedMethod?_coded g ty m hmarked)).bind fun _ => .pure
  | none =>
    refine (inheritedMethod?_coded hsem m preferred.isSpecified).bind fun inherited => ?_
    cases inherited with
    | some x => exact .pure
    | none => exact namedMethod_coded ty m preferred names

end

theorem resolveAlternate_coded (m main : MemberSymbol) : Coded (resolveAlternate m main) := by
  unfold resolveAlternate
  split
  · exact recordMethod_coded _ _
  · exact .get_bind fun _ => recordMethod_coded _ _

/-! ## Members -/

section

variable (m : MemberSymbol)

theorem markNotUsable_coded : Coded (markNotUsable m) := by
  unfold markNotUsable
  split
  · exact recordMethod_coded _ _
  · exact .modify fun _ => rfl
  · exact Coded.bind (.modify fun _ => rfl) fun _ => .forM (recordMethod_coded · _) _
  · exact Coded.bind (.modify fun _ => rfl) fun _ => .forM (recordMethod_coded · _) _

variable {c : MemberContext} (hsem : ∀ b, Coded (c.semanticsOf b)) (preferred : PreferredName)
  (names : NameRegistry)

theorem propertyProblem_coded {category : String} (h : category ∈ reportCodes)
    (predicate : String) : AreCoded [c.propertyProblem m category predicate] :=
  .ofMember h

theorem aliasedProperty_coded {callee : String} {d : Diagnostic}
    (h : c.aliasedProperty m callee = .error d) : AreCoded [d] := by
  unfold MemberContext.aliasedProperty at h
  split at h
  · obtain rfl := Except.error.inj h
    exact propertyProblem_coded m (by decide) _
  split at h
  · obtain rfl := Except.error.inj h
    exact propertyProblem_coded m (by decide) _
  · cases h

theorem intrinsicProperty_coded {name : Option String} {d : Diagnostic}
    (h : c.intrinsicProperty m name = .error d) : AreCoded [d] := by
  unfold MemberContext.intrinsicProperty at h
  split at h
  · rename_i role _
    obtain rfl := Except.error.inj h
    exact propertyProblem_coded m (by cases role <;> decide) _
  split at h
  · cases h
  split at h
  · cases h
  · obtain rfl := Except.error.inj h
    exact propertyProblem_coded m (by decide) _

include hsem

theorem resolveAccessor?_coded (slot : AccessorSlot) :
    Coded (c.resolveAccessor? m slot preferred names) := by
  unfold MemberContext.resolveAccessor?
  split
  · exact .pure
  · refine .bind ?_ fun _ => .pure
    refine Coded.lift.bind fun x => ?_
    have hpreferred := preferredName_coded c.graph c.options c.type c.resolved x
    generalize c.graph.preferredName c.options c.type c.resolved x = own at hpreferred ⊢
    refine (Coded.report hpreferred).bind fun _ => ?_
    dsimp only
    split
    · exact resolveMethod_coded hsem _ _ _ _ _
    · exact Coded.lift.bind fun _ => resolveMethod_coded hsem _ _ _ _ _

theorem accessedProperty_coded : Coded (c.accessedProperty m preferred names) :=
  (resolveAccessor?_coded m hsem preferred names .getter).bind fun p =>
    (resolveAccessor?_coded m hsem preferred p.2 .setter).bind fun _ => .pure

theorem unaliasedProperty_coded : Coded (c.unaliasedProperty m preferred names) := by
  unfold MemberContext.unaliasedProperty
  split
  · split
    · exact .pure
    · rename_i d hintrinsic
      exact (Coded.report (intrinsicProperty_coded m hintrinsic)).bind fun _ =>
        accessedProperty_coded m hsem preferred names
  · exact accessedProperty_coded m hsem preferred names

theorem classifyProperty_coded : Coded (c.classifyProperty m preferred names) := by
  unfold MemberContext.classifyProperty
  split
  · exact .pure
  · rename_i d halias
    obtain ⟨callee, -, haliased⟩ := Option.map_eq_some_iff.1 halias
    exact (Coded.report (aliasedProperty_coded m haliased)).bind fun _ =>
      unaliasedProperty_coded m hsem preferred names
  · exact unaliasedProperty_coded m hsem preferred names

theorem resolveMember_coded : Coded (c.resolveMember m preferred names) := by
  unfold MemberContext.resolveMember
  split
  · exact (resolveMethod_coded hsem _ _ _ _ _).bind fun _ => .pure
  unfold MemberContext.resolveDataMember
  split
  · exact (markNotUsable_coded m).bind fun _ => .pure
  split
  · exact .pure
  · exact (classifyProperty_coded m hsem preferred names).bind fun _ =>
      Coded.bind (.modify fun _ => rfl) fun _ => .pure
  · exact (nameMember_coded _ m preferred names).bind fun _ =>
      Coded.bind (.modify fun _ => rfl) fun _ => .pure
  · exact (resolveAccessor?_coded m hsem preferred names .adder).bind fun p =>
      (resolveAccessor?_coded m hsem preferred p.2 .remover).bind fun _ =>
        Coded.bind (.modify fun _ => rfl) fun _ => .pure

end

/-! ## Whole resolutions -/

section

variable (g : TypeGraph) (options : Options)

theorem resolveTypeBy_coded {outerType : TypeId → Resolve ResolvedType}
    (houter : ∀ t, Coded (outerType t)) (t : TypeId) :
    Coded (resolveTypeBy g options outerType t) := by
  refine Coded.lift.bind fun ty => .get_bind fun s => ?_
  split
  · exact Coded.bind (.modify fun _ => rfl) fun _ => (computeTypeBy_coded houter ty).bind
      fun resolved => .get_bind fun s => Coded.lift.bind fun guard => .modify fun _ => rfl
  · exact .throw
  · exact .throw

theorem ensureTypeWithin_coded (steps : Nat) (t : TypeId) :
    Coded (ensureTypeWithin g options steps t) := by
  induction steps generalizing t with
  | zero => exact .throw
  | succ steps ih =>
    refine .get_bind fun s => ?_
    split
    · exact .pure
    · refine (resolveTypeBy_coded g options ih t).bind fun _ => .get_bind fun s => ?_
      split
      · exact .pure
      · exact .throw

variable {ensure : TypeId → Resolve Unit} (hensure : ∀ t, Coded (ensure t))

include hensure

theorem methodSemanticsBy_coded (b : MemberId) : Coded (methodSemanticsBy g ensure b) := by
  refine .get_bind fun s => ?_
  split
  · exact .pure
  · split
    · exact .pure
    · exact (hensure _).bind fun _ => .get_bind fun _ => .pure

theorem processMembers_coded (ty : TypeSymbol) (resolved : ResolvedType) :
    Coded (processMembers g options ensure ty resolved) := by
  refine Coded.lift.bind fun bases => (Coded.forM hensure bases).bind fun _ => .get_bind fun s => ?_
  split
  · refine .bind (.report ?_) fun _ => .bind ?_ fun _ => .bind ?_ fun _ => .pure
    · intro d hd
      obtain ⟨p, hp, hd⟩ := List.mem_flatMap.1 hd
      obtain ⟨m, -, rfl⟩ := List.mem_map.1 hp
      exact preferredName_coded _ _ _ _ m d hd
    · exact Coded.foldlM (fun names (p : MemberSymbol × PreferredName) =>
        resolveMember_coded p.1 (methodSemanticsBy_coded g hensure) p.2 names) _ _
    · exact Coded.forM (fun p : MemberSymbol × MemberSymbol => resolveAlternate_coded p.1 p.2) _
  · exact (Coded.forM markNotUsable_coded _).bind fun _ => .pure

theorem ensureMembersBy_coded (t : TypeId) : Coded (ensureMembersBy g options ensure t) := by
  refine .get_bind fun s => ?_
  split
  · exact .pure
  refine (ensureTypeWithin_coded g options _ t).bind fun resolved => Coded.lift.bind fun ty =>
    .get_bind fun s => ?_
  split
  · exact .pure
  · exact .throw
  · exact Coded.bind (.modify fun _ => rfl) fun _ =>
      (processMembers_coded g options hensure ty resolved).bind fun names =>
        .get_bind fun _ => Coded.lift.bind fun _ => .modify fun _ => rfl

end

theorem ensureMembersWithin_coded (g : TypeGraph) (options : Options) (steps : Nat) (t : TypeId) :
    Coded (ensureMembersWithin g options steps t) := by
  induction steps generalizing t with
  | zero => exact .throw
  | succ steps ih => exact ensureMembersBy_coded g options ih t

/-- **The diagnostics of a resolution show its reports**: those of `r` are the ones of a log whose
codes are all among a few without colons. -/
theorem resolve_shows {g : TypeGraph} {options : Options} {roots : List TypeId} {main : AssemblyId}
    {r : Resolution} (h : g.resolve options roots main = .ok r) :
    ∃ log, AreCoded log ∧ r.diagnostics.Shows log := by
  obtain ⟨sorted, s, -, hrun, rfl⟩ := resolve_eq_ok h
  have hroot (t : TypeId) : Coded (resolveRoot g options t) :=
    (ensureTypeWithin_coded g options _ t).bind fun _ => ensureMembersWithin_coded g options _ t
  obtain ⟨log, hlog, hbag⟩ := (Coded.forM hroot _).invariant ⟨[], .nil, rfl⟩ hrun
  refine ⟨log, hlog, ?_⟩
  rw [ResolutionState.toResolution, hbag]
  exact DiagnosticBag.shows_addAll fun d hd => reportCodes_colon_free _ (hlog d hd)

end ScriptNaming
