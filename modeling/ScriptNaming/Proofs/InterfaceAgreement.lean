import ScriptNaming.Document.Linking
import ScriptNaming.Proofs.ClassifiedMethods

/-!
# Interface agreement

An instance method that implements methods of other types is called by the name under which these
are called, whether it takes the name over from what it overrides or from the first method that it
implements, or a conflict has been reported (`implemented_names_eq`).

Both ways ask for all the implemented methods. Their types come earlier, so that each of them is
done when the answer is there (`MethodDone`), and the agreement that is checked then is final
(`Agrees`).
-/

namespace ScriptNaming

open ResolutionState

/-- The categories of reports about a method that cannot be called like everything that it
implements: it is linked to methods of different names, or a marker of its own is misplaced. -/
def interfaceConflictCategories : List String :=
  ["MultipleInterfaceImplementations", "ScriptSkipOnInterfaceMember", "ScriptSkipOnOverridable",
    "ScriptSkipOnInterfaceImplementation", "NonStaticWithAlias", "InlineCodeOnInterfaceMember",
    "InlineCodeOnOverridable", "InlineCodeOnInterfaceImplementation",
    "InstanceMethodOnFirstArgument"]

theorem MisplacedCategory.mem_interfaceConflictCategories {role : HierarchyRole}
    {category : String} (h : MisplacedCategory role category) :
    category ∈ interfaceConflictCategories := by
  cases h with
  | placed marker decides => rcases decides with rfl | rfl <;> cases role <;> decide
  | aliased => decide
  | firstArgument => decide

theorem exists_hierarchyRole_of_implements (ty : TypeSymbol) {m : MemberSymbol}
    (h : m.implements ≠ []) : ∃ role, hierarchyRole? ty m = some role := by
  have himplements : !m.implements.isEmpty := by simpa using h
  rw [hierarchyRole?, if_pos himplements]
  split_ifs <;> exact ⟨_, rfl⟩

/-- The instance method `m` is classified, and it implements methods, all of which belong to other
types. -/
structure TypeGraph.Implements (g : TypeGraph) (m : MemberSymbol) : Prop
    extends g.Classifies m where
  isInstance : m.isStatic = false
  nonempty : m.implements ≠ []
  otherType : ∀ b ∈ m.implements, ∀ y, g.member? b = some y → y.declaringType ≠ m.declaringType

/-! ## Methods of types that are done -/

/-- The type of the method `b` is done, so that what is recorded for the method is final. -/
def MethodDone (g : TypeGraph) (b : MemberId) (s : ResolutionState) : Prop :=
  ∃ y, g.member? b = some y ∧ s.Done y.declaringType

section

variable {g : TypeGraph} {b : MemberId} {s s' : ResolutionState}

theorem MethodDone.later (h : MethodDone g b s) (hlater : s.Later g s') : MethodDone g b s' := by
  obtain ⟨y, hy, hdone⟩ := h
  exact ⟨y, hy, hlater.done hdone⟩

theorem MethodDone.find?_eq (h : MethodDone g b s) (hlater : s.Later g s') :
    s'.methods.find? b = s.methods.find? b := by
  obtain ⟨y, hy, hdone⟩ := h
  exact congrArg MemberRecord.method (hlater.records hy hdone)

end

/-- The name under which the method `b` is called in a state, if any is recorded. -/
def scriptName? (s : ResolutionState) (b : MemberId) : Option String :=
  (s.methods.find? b).bind MethodSemantics.name?

/-! ## Agreement -/

/-- A conflict about the method `m` has been reported. -/
def ConflictReported (g : TypeGraph) (m : MemberSymbol) (s : ResolutionState) : Prop :=
  ∃ category ∈ interfaceConflictCategories, s.diagnostics.contains (g.qualifiedName m) category

/-- With the semantics `x` the method `m` is called like all that it implements, unless something of
this has no semantics, or a conflict has been reported. -/
def Agrees (g : TypeGraph) (m : MemberSymbol) (x : MethodSemantics) (s : ResolutionState) : Prop :=
  ConflictReported g m s ∨ ((∀ b ∈ m.implements, MethodDone g b s) ∧
    ((∀ b ∈ m.implements, s.methods.contains b) → ∀ b ∈ m.implements, scriptName? s b = x.name?))

/-- If the method `m` is called plainly by a name, then in agreement with what it implements. -/
def AgreesWithImplemented (g : TypeGraph) (m : MemberSymbol) (s : ResolutionState) : Prop :=
  ∀ x, s.methods.find? m.id = some x → x.isNormal → Agrees g m x s

section

variable {g : TypeGraph} {m : MemberSymbol} {x : MethodSemantics} {s s' : ResolutionState}

theorem ConflictReported.later (h : ConflictReported g m s) (hlater : s.Later g s') :
    ConflictReported g m s' := by
  obtain ⟨category, hcategory, hreported⟩ := h
  exact ⟨category, hcategory, hlater.problems hreported⟩

theorem Agrees.later (h : Agrees g m x s) (hlater : s.Later g s') : Agrees g m x s' := by
  refine h.imp (fun h => h.later hlater) fun ⟨hdone, hagree⟩ => ?_
  refine ⟨fun b hb => (hdone b hb).later hlater, fun hall b hb => ?_⟩
  have hall' : ∀ c ∈ m.implements, s.methods.contains c := fun c hc => by
    have hcontains := hall c hc
    rwa [Table.contains, (hdone c hc).find?_eq hlater] at hcontains
  rw [scriptName?, (hdone b hb).find?_eq hlater]
  exact hagree hall' b hb

theorem conflictReported_of_mem {ds : List Diagnostic} {d : Diagnostic} (hd : d ∈ ds)
    (hentity : d.entity = g.qualifiedName m) (hcategory : d.category ∈ interfaceConflictCategories) :
    ConflictReported g m { s with diagnostics := s.diagnostics.addAll ds } := by
  refine ⟨d.category, hcategory, DiagnosticBag.contains_addAll.2 (.inl ⟨d, hd, ?_⟩)⟩
  rw [Diagnostic.key, hentity]

end

section

variable {g : TypeGraph} {options : Options} {ensure : TypeId → Resolve Unit}
  (hensure : EnsuresMembers g options ensure) {ty : TypeSymbol} {resolved : ResolvedType}
  {m : MemberSymbol} {preferred : PreferredName} {names names' : NameRegistry}
  {s₀ s s' : ResolutionState} (layered : g.Layered) (hm : g.Implements m)

include hensure layered hm

/-! ## Requests for implemented methods -/

/-- After a request for a method `b` that `m` implements, its type is done. -/
theorem methodSemanticsBy_implemented (hs : Within g options m.declaringType s₀ s) {b : MemberId}
    (hb : b ∈ m.implements) {r : Option MethodSemantics}
    (h : methodSemanticsBy g ensure b s = .ok (r, s')) :
    Within g options m.declaringType s s' ∧ MethodDone g b s' ∧ r = s'.methods.find? b := by
  have hlink : b ∈ m.links := MemberSymbol.mem_links.2 (.inr hb)
  have hlinks (y : MemberSymbol) (hy : g.member? b = some y) :
      g.LinksTo m.declaringType y.declaringType :=
    ⟨m.id, m, hm.known, rfl, b, hlink, y, hy, rfl⟩
  obtain ⟨hs', -, hr, hbegun⟩ :=
    methodSemanticsBy_spec hensure hs.restart (fun y hy => .inr (hlinks y hy)) h
  obtain ⟨y, hy⟩ := layered.link_exists hm.known hlink
  have hlt : y.declaringType.index < m.declaringType.index :=
    Nat.lt_of_le_of_ne (layered.link_le (hlinks y hy)) fun heq =>
      hm.otherType b hb y hy (TypeId.eq_of_index heq)
  exact ⟨hs', ⟨y, hy, hs'.done_of_lt layered hlt (hbegun y hy)⟩, hr⟩

/-- If no disagreement is found, then all the methods `bs` have the given `name`. -/
theorem firstDisagreement_spec (hs : Within g options m.declaringType s₀ s)
    {name : Option String} {bs : List MemberId} (hbs : ∀ b ∈ bs, b ∈ m.implements)
    {r : Option MemberId}
    (h : firstDisagreement (methodSemanticsBy g ensure) name bs s = .ok (r, s')) :
    Within g options m.declaringType s s' ∧
      (r = none → ∀ b ∈ bs, MethodDone g b s' ∧ scriptName? s' b = name) := by
  induction bs generalizing s s₀ with
  | nil =>
    obtain ⟨-, rfl⟩ := run_pure_eq_ok.1 h
    exact ⟨hs.restart, fun _ => List.forall_mem_nil _⟩
  | cons b bs ih =>
    rw [firstDisagreement, run_bind_eq_ok] at h
    obtain ⟨found, s₁, hfound, h⟩ := h
    obtain ⟨hs₁, hdone, rfl⟩ :=
      methodSemanticsBy_implemented hensure layered hm hs (hbs b (.head _)) hfound
    split at h
    · obtain ⟨rfl, rfl⟩ := run_pure_eq_ok.1 h
      exact ⟨hs₁, fun hnone => absurd hnone (Option.some_ne_none b)⟩
    · rename_i hname
      obtain ⟨hs', hrest⟩ := ih hs₁ (fun c hc => hbs c (.tail _ hc)) h
      refine ⟨hs₁.trans hs', fun hnone c hc => ?_⟩
      rcases List.mem_cons.1 hc with rfl | hc
      · have hlater := hs'.grown.toLater
        refine ⟨hdone.later hlater, ?_⟩
        rw [scriptName?, hdone.find?_eq hlater]
        exact not_not.1 hname
      · exact hrest hnone c hc

/-- The semantics of all the methods `bs` that `m` implements, which are final. -/
theorem mapM_methodSemanticsBy_spec (hs : Within g options m.declaringType s₀ s)
    {bs : List MemberId} (hbs : ∀ b ∈ bs, b ∈ m.implements) {l : List (Option MethodSemantics)}
    (h : bs.mapM (methodSemanticsBy g ensure) s = .ok (l, s')) :
    Within g options m.declaringType s s' ∧ (∀ b ∈ bs, MethodDone g b s') ∧
      l = bs.map s'.methods.find? := by
  induction bs generalizing s s₀ l with
  | nil =>
    obtain ⟨rfl, rfl⟩ := run_pure_eq_ok.1 h
    exact ⟨hs.restart, fun b hb => (nomatch hb), rfl⟩
  | cons b bs ih =>
    rw [List.mapM_cons, run_bind_eq_ok] at h
    obtain ⟨found, s₁, hfound, h⟩ := h
    rw [run_bind_eq_ok] at h
    obtain ⟨rest, s₂, hmap, h⟩ := h
    obtain ⟨rfl, rfl⟩ := run_pure_eq_ok.1 h
    obtain ⟨hs₁, hdone, rfl⟩ :=
      methodSemanticsBy_implemented hensure layered hm hs (hbs b (.head _)) hfound
    obtain ⟨hs', hrest, rfl⟩ := ih hs₁ (fun c hc => hbs c (.tail _ hc)) hmap
    have hlater := hs'.grown.toLater
    refine ⟨hs₁.trans hs', fun c hc => ?_, ?_⟩
    · rcases List.mem_cons.1 hc with rfl | hc
      · exact hdone.later hlater
      · exact hrest c hc
    · rw [List.map_cons, hdone.find?_eq hlater]

/-! ## What the method takes over -/

/-- An override `m` that takes over a plain name `x` has been compared with everything that it
implements. -/
theorem reportDisagreement_agrees (hs : Within g options m.declaringType s₀ s)
    {x : MethodSemantics} (hx : x.isNormal) {u : Unit}
    (h : reportDisagreement g (methodSemanticsBy g ensure) m x s = .ok (u, s')) :
    Agrees g m x s' := by
  rw [reportDisagreement, if_pos hx, run_bind_eq_ok] at h
  obtain ⟨disagreement, s₁, hfirst, h⟩ := h
  obtain ⟨-, hnone⟩ := firstDisagreement_spec hensure layered hm hs (fun _ hb => hb) hfirst
  cases disagreement with
  | none =>
    obtain ⟨-, rfl⟩ := run_pure_eq_ok.1 h
    exact .inr ⟨fun b hb => (hnone rfl b hb).1, fun _ b hb => (hnone rfl b hb).2⟩
  | some other =>
    dsimp only at h
    rw [run_bind_eq_ok] at h
    obtain ⟨_, s₂, hlift, h⟩ := h
    obtain ⟨-, rfl⟩ := run_liftM_eq_ok.1 hlift
    obtain rfl := report_eq_ok h
    exact .inl (conflictReported_of_mem (.head _) rfl (.head _))

/-- An override takes over nothing, or semantics in agreement with what it implements. -/
theorem overridingMethod_agrees (hs : Within g options m.declaringType s₀ s) {isSpecified : Bool}
    {r : Option MethodSemantics}
    (h : overridingMethod g (methodSemanticsBy g ensure) m isSpecified s = .ok (r, s')) :
    Within g options m.declaringType s s' ∧ ∀ x, r = some x → x.isNormal → Agrees g m x s' := by
  have hown : g.Owns m.declaringType m := ⟨hm.known, rfl⟩
  unfold overridingMethod at h
  rw [run_bind_eq_ok] at h
  obtain ⟨_, s₁, hreport, h⟩ := h
  obtain rfl := report_eq_ok hreport
  have hs₁ := hs.restart.changesAt (.report _ _ (g.overrideMarkerProblems m isSpecified))
  cases hoverridden : m.overridden with
  | none =>
    rw [hoverridden] at h
    obtain ⟨rfl, rfl⟩ := run_pure_eq_ok.1 h
    exact ⟨hs₁, fun x hx => nomatch hx⟩
  | some b =>
    rw [hoverridden] at h
    dsimp only at h
    have hlink : b ∈ m.links := MemberSymbol.mem_links.2 (.inl hoverridden)
    rw [run_bind_eq_ok] at h
    obtain ⟨found, s₂, hfound, h⟩ := h
    obtain ⟨hs₂, -⟩ := methodSemanticsBy_spec hensure hs₁
      (fun y hy => .inr ⟨m.id, m, hm.known, rfl, b, hlink, y, hy, rfl⟩) hfound
    cases found with
    | none =>
      obtain ⟨rfl, rfl⟩ := run_pure_eq_ok.1 h
      exact ⟨hs₂, fun x hx => nomatch hx⟩
    | some y =>
      dsimp only at h
      rw [run_bind_eq_ok] at h
      obtain ⟨_, s₃, hdisagreement, h⟩ := h
      obtain ⟨rfl, rfl⟩ := run_pure_eq_ok.1 h
      have hs₃ := reportDisagreement_framed hensure hs₂ hown hdisagreement
      refine ⟨hs₂.trans hs₃.toWithin, fun x hx hnormal => ?_⟩
      obtain rfl := Option.some.inj hx
      exact reportDisagreement_agrees hensure layered hm hs₂ hnormal hdisagreement

/-- An implementation takes over semantics in agreement with everything that it implements, unless
the first of these has none. -/
theorem implementingMethod_agrees (hs : Within g options m.declaringType s₀ s) {isSpecified : Bool}
    {r : Option MethodSemantics}
    (h : implementingMethod g (methodSemanticsBy g ensure) m isSpecified s = .ok (r, s')) :
    Within g options m.declaringType s s' ∧
      ∀ x : MethodSemantics, (∀ y, r = some y → y = x) → Agrees g m x s' := by
  unfold implementingMethod at h
  rw [run_bind_eq_ok] at h
  obtain ⟨_, s₁, hreport, h⟩ := h
  obtain rfl := report_eq_ok hreport
  have hs₁ := hs.restart.changesAt (.report _ _ (g.implementationMarkerProblems m isSpecified))
  rw [run_bind_eq_ok] at h
  obtain ⟨implemented, s₂, hmap, h⟩ := h
  obtain ⟨hs₂, hdone, rfl⟩ :=
    mapM_methodSemanticsBy_spec hensure layered hm hs₁ (fun _ hb => hb) hmap
  rw [run_bind_eq_ok] at h
  obtain ⟨_, s₃, hreport, h⟩ := h
  obtain rfl := report_eq_ok hreport
  obtain ⟨rfl, rfl⟩ := run_pure_eq_ok.1 h
  have hchange := ChangesAt.report (g.Declared m.declaringType) s₂
    (g.implementationProblems m (m.implements.map s₂.methods.find?))
  refine ⟨(hs₁.trans hs₂).changesAt hchange, fun x hx => ?_⟩
  by_cases hconflict : (m.implements.map s₂.methods.find?).any fun y =>
      y.bind MethodSemantics.name? !=
        (m.implements.map s₂.methods.find?).head?.join.bind MethodSemantics.name?
  · refine .inl ?_
    rw [TypeGraph.implementationProblems, if_pos hconflict]
    exact conflictReported_of_mem (.head _) rfl (.head _)
  refine Agrees.later (.inr ⟨hdone, fun hall b hb => ?_⟩) (hs₂.later_of_changesAt hchange)
  -- The first of the implemented methods has semantics, which are those of `m`.
  obtain ⟨b₀, rest, himplements⟩ := List.exists_cons_of_ne_nil hm.nonempty
  obtain ⟨y, hy⟩ := Option.isSome_iff_exists.1 (hall b₀ (himplements ▸ .head _))
  have hhead : (m.implements.map s₂.methods.find?).head?.join = some y := by
    rw [himplements, List.map_cons, List.head?_cons, hy]
    rfl
  have hyx : y = x := hx y hhead
  rw [hhead, Bool.not_eq_true, List.any_eq_false] at hconflict
  have hname := hconflict _ (List.mem_map_of_mem hb)
  rw [Bool.not_eq_true, bne_eq_false_iff_eq] at hname
  rw [scriptName?, hname, hyx]
  rfl

/-- What a method takes over from other types is in agreement with what it implements; it only takes
over nothing if something of this has no semantics. -/
theorem inheritedMethod?_agrees (hs : Within g options m.declaringType s₀ s) {isSpecified : Bool}
    {r : Option MethodSemantics}
    (h : inheritedMethod? g (methodSemanticsBy g ensure) m isSpecified s = .ok (r, s')) :
    Within g options m.declaringType s s' ∧
      ∀ x : MethodSemantics, x.isNormal → (∀ y, r = some y → y = x) → Agrees g m x s' := by
  have hnonempty : ¬m.implements.isEmpty := by simpa using hm.nonempty
  obtain ⟨y, hoverriding, rfl⟩ | ⟨s₁, hnothing, hrest⟩ := inheritedMethod?_eq_ok h
  · obtain ⟨hs', hagrees⟩ := overridingMethod_agrees hensure layered hm hs hoverriding
    refine ⟨hs', fun x hnormal hx => hagrees x ?_ hnormal⟩
    rw [hx y rfl]
  · have hs₁ : Within g options m.declaringType s s₁ := by
      obtain hoverriding | ⟨-, rfl⟩ := hnothing
      · exact (overridingMethod_agrees hensure layered hm hs hoverriding).1
      · exact hs.restart
    obtain ⟨hempty, -⟩ | ⟨-, himplementing⟩ := hrest
    · exact absurd hempty hnonempty
    · obtain ⟨hs', hagrees⟩ := implementingMethod_agrees hensure layered hm hs₁ himplementing
      exact ⟨hs₁.trans hs', fun x _ hx => hagrees x hx⟩

/-! ## The method itself -/

/-- When the method `m` is resolved to `x`, it is called in agreement with what it implements. -/
theorem resolveMethod_agrees (hs : Within g options m.declaringType s₀ s)
    (hglobal : ¬resolved.hasGlobalMembers) {x : MethodSemantics}
    (h : resolveMethod g (methodSemanticsBy g ensure) ty resolved m preferred names s =
      .ok ((x, names'), s')) : AgreesWithImplemented g m s' := by
  have hdeclared : g.Declared m.declaringType m.id := ⟨m, hm.known, rfl⟩
  obtain ⟨s₁, hclassify, rfl⟩ := resolveMethod_eq_ok h
  intro x' hx' hnormal
  obtain rfl := Option.some.inj ((Table.find?_insert_self _ _ _).symm.trans hx')
  obtain ⟨hexcluded, -⟩ | ⟨ds, hmarked, -, rfl⟩ | ⟨found, s₂, hinherited, hrest⟩ :=
    classifyMethod_eq_ok hclassify
  · exact (hexcluded.elim hm.scriptable hglobal).elim
  · obtain ⟨role, hrole⟩ := exists_hierarchyRole_of_implements ty hm.nonempty
    obtain ⟨d, hd, hentity, hcategory⟩ :=
      TypeGraph.exists_misplaced_of_markedMethod? hrole hm.isInstance hmarked
    exact .inl (conflictReported_of_mem (s := { s with methods := s.methods.insert m.id x }) hd
      hentity hcategory.mem_interfaceConflictCategories)
  obtain ⟨hs₂, hagrees⟩ := inheritedMethod?_agrees hensure layered hm hs hinherited
  have hnaming : s₂.ChangesAt (g.Declared m.declaringType) s₁ ∧ ∀ y, found = some y → y = x := by
    obtain ⟨rfl, -, rfl⟩ | ⟨rfl, hnamed⟩ := hrest
    · exact ⟨.refl _ _, fun y hy => (Option.some.inj hy).symm⟩
    · exact ⟨namedMethod_changesAt hdeclared hnamed, fun y hy => nomatch hy⟩
  obtain ⟨hchange, hfound⟩ := hnaming
  exact (hagrees x hnormal hfound).later
    (hs₂.later_of_changesAt (hchange.trans (.method _ hdeclared x)))

omit hensure in
theorem AgreesWithImplemented.judges : JudgesMethod g options m (AgreesWithImplemented g m) where
  unrecorded s hnone x hx := by
    rw [hnone] at hx
    cases hx
  later s s' h hlater hsame x hx hnormal := by
    rw [hsame] at hx
    exact (h x hx hnormal).later hlater
  classified _ _ _ _ _ _ _ _ _ _ hensure hs hglobal h :=
    resolveMethod_agrees hensure layered hm hs hglobal h

end

/-! ## Resolutions -/

/-- **Interface agreement**: in a resolution `r` of the graph `g` of a document, an instance method
`m` of a usable type that is called plainly by a name has the name of every method that it
implements, if all of these belong to other types and have semantics, and no conflict has been
reported. -/
theorem implemented_names_eq {d : GraphDocument} {g : TypeGraph} (hd : d.link = .ok g)
    {options : Options} {roots : List TypeId} {main : AssemblyId} {r : Resolution}
    (h : g.resolve options roots main = .ok r) {m : MemberSymbol} (hm : g.Implements m)
    {resolved : ResolvedType} (ht : r.types.find? m.declaringType = some resolved)
    (husable : resolved.isUsable) (hglobal : ¬resolved.hasGlobalMembers)
    (himplemented : ∀ b ∈ m.implements, r.methods.contains b)
    (hreported : ∀ category ∈ interfaceConflictCategories,
      ¬r.diagnostics.contains (g.qualifiedName m) category)
    {name : String} {generatesCode ignoresGenericArgs isGlobal : Bool}
    (hx : r.methods.find? m.id =
      some (.normalMethod name generatesCode ignoresGenericArgs isGlobal)) :
    ∀ b ∈ m.implements, ∀ y, r.methods.find? b = some y → y.name? = some name := by
  have linked := GraphDocument.linked hd
  obtain ⟨s, rfl, hagrees⟩ := (AgreesWithImplemented.judges linked.toLayered hm).of_resolve
    linked.toWellFormed hm.toClassifies h ht husable hglobal hx
  intro b hb y hy
  rcases hagrees _ hx rfl with ⟨category, hcategory, hconflict⟩ | ⟨-, hnames⟩
  · exact absurd hconflict (hreported category hcategory)
  · have hname := hnames himplemented b hb
    have hfound : s.methods.find? b = some y := hy
    rwa [scriptName?, hfound] at hname

/-- An interface with a method `Talk`, and a class that implements this method under another name in
its source. -/
def talkers : GraphDocument where
  assemblies := []
  types := [
    ⟨"ITalker", "Zoo", "Zoo", .interface, .public, false, [], none, [], [],
      [exampleMethodEntry "Talk" false none], [], [], []⟩,
    exampleClassEntry "Parrot" ["Zoo.ITalker"]
      [⟨"Squawk", .public, ⟨false, false, false, false⟩, [], [], none,
        [⟨"Zoo.ITalker", "Talk", none⟩], []⟩] []]

/-- The graph of the example. -/
def talkerGraph : TypeGraph := talkers.link.toOption.getD ∅

theorem link_talkers : talkers.link = .ok talkerGraph :=
  eq_ok_getD (by decide +kernel)

/-- The implementation of the interface's method. -/
def parrotSquawk : MemberSymbol :=
  ⟨⟨1⟩, "Squawk", ⟨1⟩, .public, {}, none, [⟨0⟩], [], .method ⟨[], [], none⟩⟩

theorem implements_parrotSquawk : talkerGraph.Implements parrotSquawk where
  known := by decide +kernel
  scriptable := by decide
  ownerScriptable _ _ h := nomatch h
  noMainMethod _ _ _ _ h := nomatch h
  isInstance := rfl
  nonempty := by decide
  otherType b hb y hy := by
    obtain rfl := List.mem_singleton.1 hb
    have hother : (talkerGraph.member? ⟨0⟩).all fun y => y.declaringType ≠ ⟨1⟩ := by decide +kernel
    rw [hy] at hother
    exact of_decide_eq_true hother

theorem parrotSquawk_name_eq :
    talkers.link = .ok talkerGraph ∧ talkerGraph.Implements parrotSquawk ∧
      ∃ r resolved, talkerGraph.resolve {} [⟨1⟩] ⟨0⟩ = .ok r ∧
        r.types.find? parrotSquawk.declaringType = some resolved ∧ resolved.isUsable ∧
        ¬resolved.hasGlobalMembers ∧ (∀ b ∈ parrotSquawk.implements, r.methods.contains b) ∧
        (∀ category ∈ interfaceConflictCategories,
          ¬r.diagnostics.contains (talkerGraph.qualifiedName parrotSquawk) category) ∧
        r.methods.find? parrotSquawk.id = some (.normal "talk") ∧
        ∀ b ∈ parrotSquawk.implements, ∀ y, r.methods.find? b = some y →
          y.name? = some "talk" := by
  have h : (talkerGraph.resolve {} [⟨1⟩] ⟨0⟩).toOption.any fun r =>
      (r.types.find? ⟨1⟩).any (fun t => t.isUsable ∧ ¬t.hasGlobalMembers) ∧
        (∀ b ∈ parrotSquawk.implements, r.methods.contains b) ∧
        (∀ category ∈ interfaceConflictCategories,
          ¬r.diagnostics.contains (talkerGraph.qualifiedName parrotSquawk) category) ∧
        r.methods.find? ⟨1⟩ = some (.normal "talk") := by
    decide +kernel
  obtain ⟨r, hr, hentries⟩ := exists_of_any_toOption h
  obtain ⟨htype, hall, hreported, hx⟩ := of_decide_eq_true hentries
  obtain ⟨resolved, ht, hresolved⟩ := (Option.any_eq_true _ _).1 htype
  obtain ⟨husable, hglobal⟩ := of_decide_eq_true hresolved
  exact ⟨link_talkers, implements_parrotSquawk, r, resolved, hr, ht, husable, hglobal, hall,
    hreported, hx, implemented_names_eq link_talkers hr implements_parrotSquawk ht husable hglobal
      hall hreported hx⟩

end ScriptNaming
