import ScriptNaming.Proofs.MethodOutcomes
import ScriptNaming.Proofs.WellFormed
import ScriptNaming.Resolution.DataMember

/-!
# What resolving a member comes to

Inversion lemmas for the steps that resolve properties, fields and events (`classifyProperty_eq_ok`,
`resolveDataMember_eq_ok`) or leave a member out of script (`markNotUsable_eq_ok`): from a result
they lead back to the rule that applied, to the records that it made and to the steps for the
accessors.
-/

namespace ScriptNaming

namespace MemberSymbol

variable {m : MemberSymbol} {a : MemberId}

/-! ## Accessors by kind -/

/-- A method or a field `m` has no accessors. -/
theorem accessors_eq_nil (h : m.isMethod ∨ m.kind = .field) : m.accessors = [] := by
  refine List.eq_nil_iff_forall_not_mem.2 fun a ha => ?_
  obtain ⟨slot, hslot⟩ := mem_accessors.1 ha
  unfold isMethod at h
  unfold accessor? at hslot
  cases hkind : m.kind with
  | method data =>
    rw [hkind] at hslot
    cases hslot
  | field =>
    rw [hkind] at hslot
    cases hslot
  | property data =>
    rw [hkind] at h
    cases h <;> contradiction
  | event data =>
    rw [hkind] at h
    cases h <;> contradiction

theorem accessor?_of_property {data : PropertyData} (hkind : m.kind = .property data)
    (ha : a ∈ m.accessors) : m.accessor? .getter = some a ∨ m.accessor? .setter = some a := by
  obtain ⟨slot, hslot⟩ := mem_accessors.1 ha
  cases slot with
  | getter => exact .inl hslot
  | setter => exact .inr hslot
  | adder | remover =>
    unfold accessor? at hslot
    rw [hkind] at hslot
    cases hslot

theorem accessor?_of_event {data : EventData} (hkind : m.kind = .event data)
    (ha : a ∈ m.accessors) : m.accessor? .adder = some a ∨ m.accessor? .remover = some a := by
  obtain ⟨slot, hslot⟩ := mem_accessors.1 ha
  cases slot with
  | adder => exact .inl hslot
  | remover => exact .inr hslot
  | getter | setter =>
    unfold accessor? at hslot
    rw [hkind] at hslot
    cases hslot

/-- A property `m` that may have an alias has one. -/
def HasValidAlias (m : MemberSymbol) : Prop := m.has .scriptAlias ∧ m.isStatic ∧ ¬m.isIndexer

/-- Whether the property `m` is used without accessor methods: as a field, through the brackets of
the script language, or through an alias. -/
def LeavesOutAccessors (m : MemberSymbol) : PropertySemantics → Prop
  | .field _ => True
  | .nativeIndexer _ _ => True
  | .getAndSet _ _ => m.HasValidAlias
  | .notUsable => False

/-- The semantics of the property `m` speak of an accessor exactly if `m` has that accessor. -/
def MatchesAccessors (m : MemberSymbol) : PropertySemantics → Prop
  | .getAndSet getter setter => getter.isSome = (m.accessor? .getter).isSome ∧
      setter.isSome = (m.accessor? .setter).isSome
  | .nativeIndexer canGet canSet => canGet = (m.accessor? .getter).isSome ∧
      canSet = (m.accessor? .setter).isSome
  | .field _ | .notUsable => True

end MemberSymbol

section

variable {m : MemberSymbol} {s s' : ResolutionState}

/-- What the first record of `markNotUsable` comes to: the member's own one. -/
inductive LeftOut (m : MemberSymbol) (s : ResolutionState) : ResolutionState → Prop
  | method (hkind : m.isMethod) :
    LeftOut m s { s with methods := s.methods.insert m.id .notUsable }
  | property {data : PropertyData} (hkind : m.kind = .property data) :
    LeftOut m s { s with properties := s.properties.insert m.id .notUsable }
  | field (hkind : m.kind = .field) :
    LeftOut m s { s with fields := s.fields.insert m.id .notUsable }
  | event {data : EventData} (hkind : m.kind = .event data) :
    LeftOut m s { s with events := s.events.insert m.id .notUsable }

/-- A member is left out of script, and then its accessors are. -/
theorem markNotUsable_eq_ok {u : Unit} (h : markNotUsable m s = .ok (u, s')) :
    ∃ s₁, LeftOut m s s₁ ∧ m.accessors.forM (recordMethod · .notUsable) s₁ = .ok ((), s') := by
  unfold markNotUsable at h
  cases hkind : m.kind with
  | method data =>
    rw [hkind] at h
    have hmethod : m.isMethod := by rw [MemberSymbol.isMethod, hkind]
    rw [MemberSymbol.accessors_eq_nil (.inl hmethod)]
    exact ⟨s', recordMethod_eq_ok h ▸ .method hmethod, rfl⟩
  | field =>
    rw [hkind] at h
    rw [MemberSymbol.accessors_eq_nil (.inr hkind)]
    obtain ⟨-, rfl⟩ := Prod.ext_iff.1 (Except.ok.inj h)
    exact ⟨_, .field hkind, rfl⟩
  | property data =>
    rw [hkind] at h
    exact ⟨_, .property hkind, h⟩
  | event data =>
    rw [hkind] at h
    exact ⟨_, .event hkind, h⟩

end

namespace MemberContext

variable {c : MemberContext} {m : MemberSymbol} {preferred : PreferredName}
  {names names' : NameRegistry} {s s' : ResolutionState}

/-! ## Accessors -/

/-- An accessor `a` of `m` is resolved as a method, by an explicit name of its own or else by a name
that follows from that of its owner. -/
theorem resolveAccessor_eq_ok {slot : AccessorSlot} {a : MemberId} {x : MethodSemantics}
    (h : c.resolveAccessor m slot preferred a names s = .ok ((x, names'), s')) :
    ∃ y ds name, c.graph.member? a = some y ∧
      (name = (c.graph.preferredName c.options c.type c.resolved y).1 ∧ name.isSpecified ∨
        c.accessorName m slot preferred names = .ok name) ∧
      resolveMethod c.graph c.semanticsOf c.type c.resolved y name names
        { s with diagnostics := s.diagnostics.addAll ds } = .ok ((x, names'), s') := by
  unfold resolveAccessor at h
  rw [run_bind_eq_ok] at h
  obtain ⟨y, s₁, hmember, h⟩ := h
  obtain ⟨hy, rfl⟩ := run_liftM_eq_ok.1 hmember
  dsimp only at h
  rw [run_bind_eq_ok] at h
  obtain ⟨_, s₂, hreport, h⟩ := h
  obtain rfl := report_eq_ok hreport
  refine ⟨y, (c.graph.preferredName c.options c.type c.resolved y).2, ?_⟩
  split at h
  · rename_i hspecified
    exact ⟨_, TypeGraph.memberOrFault_eq_ok_iff.1 hy, .inl ⟨rfl, hspecified⟩, h⟩
  · rw [run_bind_eq_ok] at h
    obtain ⟨name, s₃, hlift, h⟩ := h
    obtain ⟨hname, rfl⟩ := run_liftM_eq_ok.1 hlift
    exact ⟨name, TypeGraph.memberOrFault_eq_ok_iff.1 hy, .inr hname, h⟩

/-- In a place without an accessor nothing happens. -/
theorem resolveAccessor?_eq_ok {slot : AccessorSlot} {x : Option MethodSemantics}
    (h : c.resolveAccessor? m slot preferred names s = .ok ((x, names'), s')) :
    (m.accessor? slot = none ∧ x = none ∧ names' = names ∧ s' = s) ∨
    ∃ a y, m.accessor? slot = some a ∧ x = some y ∧
      c.resolveAccessor m slot preferred a names s = .ok ((y, names'), s') := by
  unfold resolveAccessor? at h
  cases ha : m.accessor? slot with
  | none =>
    rw [ha] at h
    obtain ⟨hp, rfl⟩ := run_pure_eq_ok.1 h
    obtain ⟨rfl, rfl⟩ := Prod.mk.inj hp
    exact .inl ⟨rfl, rfl, rfl, rfl⟩
  | some a =>
    rw [ha] at h
    dsimp only at h
    rw [run_bind_eq_ok] at h
    obtain ⟨⟨y, names₁⟩, s₁, haccessor, h⟩ := h
    obtain ⟨hp, rfl⟩ := run_pure_eq_ok.1 h
    obtain ⟨rfl, rfl⟩ := Prod.mk.inj hp
    exact .inr ⟨a, y, rfl, rfl, haccessor⟩

/-! ## Properties -/

/-- An alias is valid for static properties that are no indexers. -/
theorem aliasedProperty_cases (c : MemberContext) (m : MemberSymbol) (callee : String) :
    ((m.isStatic ∧ ¬m.isIndexer) ∧ ∃ getter setter, m.MatchesAccessors (.getAndSet getter setter) ∧
        c.aliasedProperty m callee = .ok (.getAndSet getter setter)) ∨
      ¬(m.isStatic ∧ ¬m.isIndexer) ∧ ∃ d, c.aliasedProperty m callee = .error d := by
  unfold aliasedProperty
  by_cases hindexer : m.isIndexer
  · rw [if_pos hindexer]
    exact .inr ⟨fun h => h.2 hindexer, _, rfl⟩
  · rw [if_neg hindexer]
    by_cases hstatic : m.isStatic
    · rw [if_neg (by simp [hstatic])]
      exact .inl ⟨⟨hstatic, hindexer⟩, _, _, ⟨Option.isSome_map, Option.isSome_map⟩, rfl⟩
    · rw [if_pos (by simp [hstatic])]
      exact .inr ⟨fun h => hstatic h.1, _, rfl⟩

/-- A property of the script language is used as a field, whose name it enters, or through
brackets. -/
theorem intrinsicProperty_eq_ok {preferred name? : Option String} {x : PropertySemantics}
    (h : c.intrinsicProperty m preferred = .ok (x, name?)) :
    (∃ name, x = .field name ∧ name? = some name) ∨
      (∃ canGet canSet, x = .nativeIndexer canGet canSet ∧ m.MatchesAccessors x) ∧
        name? = none := by
  unfold intrinsicProperty at h
  split at h
  · cases h
  split_ifs at h
  · obtain ⟨rfl, rfl⟩ := Prod.mk.inj (Except.ok.inj h)
    exact .inl ⟨_, rfl, rfl⟩
  · obtain ⟨rfl, rfl⟩ := Prod.mk.inj (Except.ok.inj h)
    exact .inr ⟨⟨_, _, rfl, rfl, rfl⟩, rfl⟩

theorem accessedProperty_eq_ok {x : PropertySemantics}
    (h : c.accessedProperty m preferred names s = .ok ((x, names'), s')) :
    ∃ getter setter names₁ s₁, x = .getAndSet getter setter ∧
      c.resolveAccessor? m .getter preferred names s = .ok ((getter, names₁), s₁) ∧
      c.resolveAccessor? m .setter preferred names₁ s₁ = .ok ((setter, names'), s') := by
  unfold accessedProperty at h
  rw [run_bind_eq_ok] at h
  obtain ⟨⟨getter, names₁⟩, s₁, hgetter, h⟩ := h
  rw [run_bind_eq_ok] at h
  obtain ⟨⟨setter, names₂⟩, s₂, hsetter, h⟩ := h
  obtain ⟨hp, rfl⟩ := run_pure_eq_ok.1 h
  obtain ⟨rfl, rfl⟩ := Prod.mk.inj hp
  exact ⟨getter, setter, names₁, s₁, rfl, hgetter, hsetter⟩

/-- What it comes to that a property is classified as `x`. -/
inductive PropertyOutcome (c : MemberContext) (m : MemberSymbol) (preferred : PreferredName)
    (x : PropertySemantics) (names names' : NameRegistry) (s s' : ResolutionState) : Prop
  /-- The property is used without its accessors, and enters its name if it is used as a field. -/
  | direct (hx : m.LeavesOutAccessors x) (hmatches : m.MatchesAccessors x)
    (hnames : ∀ name, names'.contains name ↔ names.contains name ∨ x = .field name)
    (ds : List Diagnostic) (hstate : s' = { s with diagnostics := s.diagnostics.addAll ds })
  /-- The accessors of the property are resolved. -/
  | accessed (hx : ¬m.LeavesOutAccessors x) (ds : List Diagnostic)
    (haccessed : c.accessedProperty m preferred names
      { s with diagnostics := s.diagnostics.addAll ds } = .ok ((x, names'), s'))

theorem PropertyOutcome.after_reports {x : PropertySemantics} {ds : List Diagnostic}
    (h : PropertyOutcome c m preferred x names names'
      { s with diagnostics := s.diagnostics.addAll ds } s') :
    PropertyOutcome c m preferred x names names' s s' := by
  have hreports (es : List Diagnostic) :
      (s.diagnostics.addAll ds).addAll es = s.diagnostics.addAll (ds ++ es) :=
    (DiagnosticBag.addAll_append _ _ _).symm
  cases h with
  | direct hx hmatches hnames es hstate =>
    rw [hreports] at hstate
    exact .direct hx hmatches hnames _ hstate
  | accessed hx es haccessed =>
    rw [hreports] at haccessed
    exact .accessed hx _ haccessed

/-- A property without an alias is a field or an indexer of the script language, or its accessors
are resolved. -/
theorem unaliasedProperty_eq_ok {x : PropertySemantics} (hnot : ¬m.HasValidAlias)
    (h : c.unaliasedProperty m preferred names s = .ok ((x, names'), s')) :
    PropertyOutcome c m preferred x names names' s s' := by
  have haccessed (ds : List Diagnostic) (h : c.accessedProperty m preferred names
      { s with diagnostics := s.diagnostics.addAll ds } = .ok ((x, names'), s')) :
      PropertyOutcome c m preferred x names names' s s' := by
    obtain ⟨getter, setter, -, -, rfl, -⟩ := accessedProperty_eq_ok h
    exact .accessed hnot ds h
  unfold unaliasedProperty at h
  split at h
  · cases hintrinsic : c.intrinsicProperty m preferred.name with
    | ok p =>
      rw [hintrinsic] at h
      obtain ⟨y, name?⟩ := p
      obtain ⟨hp, rfl⟩ := run_pure_eq_ok.1 h
      obtain ⟨rfl, rfl⟩ := Prod.mk.inj hp
      obtain ⟨name, rfl, rfl⟩ | ⟨⟨canGet, canSet, rfl, hmatches⟩, rfl⟩ :=
        intrinsicProperty_eq_ok hintrinsic
      · refine .direct trivial trivial (fun name' => ?_) [] rfl
        rw [Option.elim_some, NameRegistry.contains_add, or_comm, PropertySemantics.field.injEq]
      · exact .direct trivial hmatches (fun name => (or_iff_left fun h => nomatch h).symm) [] rfl
    | error d =>
      rw [hintrinsic] at h
      dsimp only at h
      rw [report, run_modify_bind] at h
      exact haccessed [d] h
  · exact haccessed [] h

theorem classifyProperty_eq_ok {x : PropertySemantics}
    (h : c.classifyProperty m preferred names s = .ok ((x, names'), s')) :
    PropertyOutcome c m preferred x names names' s s' := by
  have hhas : (m.markerText? .scriptAlias).isSome = m.has .scriptAlias :=
    Attribute.isSome_text?_eq_has m.attributes .scriptAlias
  unfold classifyProperty at h
  cases halias : m.markerText? .scriptAlias with
  | none =>
    rw [halias] at h hhas
    refine unaliasedProperty_eq_ok (fun hvalid => ?_) h
    cases hhas.trans hvalid.1
  | some callee =>
    rw [halias, Option.map_some] at h
    rw [halias] at hhas
    obtain ⟨hvalid, getter, setter, hmatches, haliased⟩ | ⟨hinvalid, d, haliased⟩ :=
      aliasedProperty_cases c m (callee.getD "")
    · rw [haliased] at h
      obtain ⟨hp, rfl⟩ := run_pure_eq_ok.1 h
      obtain ⟨rfl, rfl⟩ := Prod.mk.inj hp
      have hleaves : m.LeavesOutAccessors (.getAndSet getter setter) := ⟨hhas.symm, hvalid⟩
      exact .direct hleaves hmatches (fun name => (or_iff_left fun h => nomatch h).symm) [] rfl
    · rw [haliased] at h
      dsimp only at h
      rw [report, run_modify_bind] at h
      exact (unaliasedProperty_eq_ok (fun hvalid => hinvalid hvalid.2) h).after_reports

/-! ## Members of all kinds -/

/-- A member that has a place in script and is not a method gets its own record last. -/
theorem resolveDataMember_eq_ok
    (h : c.resolveDataMember m preferred names s = .ok (names', s')) :
    (names' = names ∧ markNotUsable m s = .ok ((), s')) ∨
    (m.isMethod ∧ names' = names ∧ s' = s) ∨
    (∃ data x s₁, m.kind = .property data ∧
      c.classifyProperty m preferred names s = .ok ((x, names'), s₁) ∧
      s' = { s₁ with properties := s₁.properties.insert m.id x }) ∨
    (∃ name s₁, m.kind = .field ∧
      nameMember c.type m preferred names s = .ok ((name, names'), s₁) ∧
      s' = { s₁ with fields := s₁.fields.insert m.id (.field name) }) ∨
    ∃ data adder remover names₁ s₁ s₂, m.kind = .event data ∧
      c.resolveAccessor? m .adder preferred names s = .ok ((adder, names₁), s₁) ∧
      c.resolveAccessor? m .remover preferred names₁ s₁ = .ok ((remover, names'), s₂) ∧
      s' = { s₂ with events := s₂.events.insert m.id (.addAndRemove adder remover) } := by
  unfold resolveDataMember at h
  split at h
  · rw [run_bind_eq_ok] at h
    obtain ⟨_, s₁, hmark, h⟩ := h
    obtain ⟨rfl, rfl⟩ := run_pure_eq_ok.1 h
    exact .inl ⟨rfl, hmark⟩
  refine .inr ?_
  cases hkind : m.kind with
  | method data =>
    rw [hkind] at h
    have hmethod : m.isMethod := by rw [MemberSymbol.isMethod, hkind]
    exact .inl ⟨hmethod, run_pure_eq_ok.1 h⟩
  | property data =>
    rw [hkind] at h
    dsimp only at h
    rw [run_bind_eq_ok] at h
    obtain ⟨⟨x, names₁⟩, s₁, hclassify, h⟩ := h
    obtain ⟨rfl, rfl⟩ := Prod.mk.inj (Except.ok.inj h)
    exact .inr (.inl ⟨data, x, s₁, rfl, hclassify, rfl⟩)
  | field =>
    rw [hkind] at h
    dsimp only at h
    rw [run_bind_eq_ok] at h
    obtain ⟨⟨name, names₁⟩, s₁, hname, h⟩ := h
    obtain ⟨rfl, rfl⟩ := Prod.mk.inj (Except.ok.inj h)
    exact .inr (.inr (.inl ⟨name, s₁, rfl, hname, rfl⟩))
  | event data =>
    rw [hkind] at h
    dsimp only at h
    rw [run_bind_eq_ok] at h
    obtain ⟨⟨adder, names₁⟩, s₁, hadder, h⟩ := h
    rw [run_bind_eq_ok] at h
    obtain ⟨⟨remover, names₂⟩, s₂, hremover, h⟩ := h
    obtain ⟨rfl, rfl⟩ := Prod.mk.inj (Except.ok.inj h)
    exact .inr (.inr (.inr ⟨data, adder, remover, names₁, s₁, s₂, rfl, hadder, hremover, rfl⟩))

/-- A member is resolved as a method or otherwise. -/
theorem resolveMember_eq_ok (h : c.resolveMember m preferred names s = .ok (names', s')) :
    (m.isMethod ∧ ∃ x, resolveMethod c.graph c.semanticsOf c.type c.resolved m preferred names s =
        .ok ((x, names'), s')) ∨
      ¬m.isMethod ∧ c.resolveDataMember m preferred names s = .ok (names', s') := by
  unfold resolveMember at h
  split at h
  · rename_i hmethod
    rw [run_bind_eq_ok] at h
    obtain ⟨⟨x, names₁⟩, s₁, hresolve, h⟩ := h
    obtain ⟨rfl, rfl⟩ := run_pure_eq_ok.1 h
    exact .inl ⟨hmethod, x, hresolve⟩
  · rename_i hmethod
    exact .inr ⟨hmethod, h⟩

end MemberContext

end ScriptNaming
