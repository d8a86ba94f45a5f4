import ScriptNaming.Proofs.LeftOutMembers
import ScriptNaming.Proofs.NameUniqueness
import ScriptNaming.Proofs.NamingOrder
import Mathlib.Data.List.Nodup

/-!
# The sequence of naming

The members of a type are named one after the other, in the order of the naming plan, and the
accessors of a property or an event right before it (`TypeGraph.namingSequence`). Whenever a type is
done, its names have come about in this way (`namesInTurn_of_done`): each member has been named from
a registry with the inherited names and those that the members before it have registered
(`NamesInTurn.split`).
-/

namespace ScriptNaming

open ResolutionState

/-! ## Members that are named -/

namespace TypeGraph

/-- What the preferred name of a member of the type `ty` is when the names in `names` are taken. An
accessor has an explicit name of its own, or it follows its owner. -/
inductive Prefers (g : TypeGraph) (options : Options) (ty : TypeSymbol) (resolved : ResolvedType)
    (names : NameRegistry) : MemberId → PreferredName → Prop
  | own {m : MemberSymbol} (listed : g.Lists ty.id m) :
    Prefers g options ty resolved names m.id (g.preferredName options ty resolved m).1
  | accessor {owner m : MemberSymbol} {slot : AccessorSlot} {preferred : PreferredName}
    (listed : g.Lists ty.id owner) (place : owner.accessor? slot = some m.id)
    (known : g.member? m.id = some m)
    (follows : preferred = (g.preferredName options ty resolved m).1 ∧ preferred.isSpecified ∨
      (g.memberContext options (fun _ => pure ()) ty resolved).accessorName owner slot
        (g.preferredName options ty resolved owner).1 names = .ok preferred) :
    Prefers g options ty resolved names m.id preferred

/-- Nothing decides over a method of a usable type before its preferred name does. -/
structure NamesByDefault (g : TypeGraph) (ty : TypeSymbol) (resolved : ResolvedType)
    (m : MemberSymbol) : Prop where
  notGlobal : ¬resolved.hasGlobalMembers
  unmarked : ∀ preferred, g.markedMethod? ty m preferred = none
  notOverride : ¬m.isOverride
  implementsNothing : m.implements = []

/-- The member `k`, which has the record `r`, is named when the names in `names` are taken, and
those in `names'` are taken afterwards. -/
structure NamesMember (g : TypeGraph) (options : Options) (ty : TypeSymbol)
    (resolved : ResolvedType) (names : NameRegistry) (k : MemberId) (r : MemberRecord)
    (names' : NameRegistry) : Prop where
  registered : ∀ name, names'.contains name ↔ names.contains name ∨ r.registeredName? = some name
  named : r.origin ≠ none →
    ∃ preferred, g.Prefers options ty resolved names k preferred ∧ r.NamedFrom preferred names
  /-- A method of its type that nothing else decides over has a name, unless it is blank. -/
  byDefault : ∀ x m, r.method = some x → x ≠ .notUsable → g.member? k = some m →
    g.NamesByDefault ty resolved m → r.origin = none →
      ∃ preferred, g.Prefers options ty resolved names k preferred ∧ preferred.name = some ""

/-- The members of the list, which have the records in `recordOf`, are named one after the other, so
that the names in `names` are taken at first and those in `names'` in the end. -/
inductive NamesInTurn (g : TypeGraph) (options : Options) (ty : TypeSymbol)
    (resolved : ResolvedType) (recordOf : MemberId → MemberRecord) :
    NameRegistry → List MemberId → NameRegistry → Prop
  | nil (names : NameRegistry) : NamesInTurn g options ty resolved recordOf names [] names
  | cons {names names₁ names' : NameRegistry} {k : MemberId} {l : List MemberId}
    (first : g.NamesMember options ty resolved names k (recordOf k) names₁)
    (rest : NamesInTurn g options ty resolved recordOf names₁ l names') :
    NamesInTurn g options ty resolved recordOf names (k :: l) names'

/-- The members of `ty` and their accessors in the order in which they are named. -/
def namingSequence (g : TypeGraph) (options : Options) (ty : TypeSymbol)
    (resolved : ResolvedType) : List MemberId :=
  (namingPlan (g.preferredNames options ty resolved)).flatMap fun p => p.1.accessors ++ [p.1.id]

end TypeGraph

/-- The record of a member that has not been named, and not been resolved as a method either. -/
structure MemberRecord.IsUnnamed (r : MemberRecord) : Prop where
  origin : r.origin = none
  registered : r.registeredName? = none
  method : ∀ x, r.method = some x → x = .notUsable

theorem MemberRecord.IsUnnamed.of_empty {r : MemberRecord} (h : r = .empty) : r.IsUnnamed := by
  subst h
  exact ⟨rfl, rfl, nofun⟩

section

variable {g : TypeGraph} {options : Options} {ty : TypeSymbol} {resolved : ResolvedType}
  {recordOf recordOf' : MemberId → MemberRecord} {names names' names'' : NameRegistry}

/-- A method or a field has the preferred name that it has in the naming plan. -/
theorem TypeGraph.Prefers.eq_of_lists (wf : g.WellFormed) {m : MemberSymbol}
    {preferred : PreferredName} (hm : g.Lists ty.id m)
    (h : g.Prefers options ty resolved names m.id preferred) :
    preferred = (g.preferredName options ty resolved m).1 := by
  generalize hk : m.id = k at h
  cases h with
  | @own x listed =>
    have hx := listed.1.1
    rw [← hk, hm.1.1] at hx
    rw [Option.some.inj hx]
  | @accessor owner x slot _ listed place known _ =>
    obtain ⟨y, hy, -, haccessor⟩ := wf.accessor listed.1.1 place
    rw [← hk, hm.1.1] at hy
    rw [← Option.some.inj hy, hm.2] at haccessor
    cases haccessor

/-- An accessor `m` has one `owner` that it may follow, and one place `slot` there. -/
theorem TypeGraph.Prefers.of_accessor (wf : g.WellFormed) {owner m : MemberSymbol}
    {slot : AccessorSlot} {preferred : PreferredName} (howner : g.Owns ty.id owner)
    (hplace : owner.accessor? slot = some m.id) (hm : g.member? m.id = some m)
    (h : g.Prefers options ty resolved names m.id preferred) :
    preferred = (g.preferredName options ty resolved m).1 ∧ preferred.isSpecified ∨
      (g.memberContext options (fun _ => pure ()) ty resolved).accessorName owner slot
        (g.preferredName options ty resolved owner).1 names = .ok preferred := by
  obtain ⟨y, hy, -, hof⟩ := wf.accessor howner.1 hplace
  obtain rfl := Option.some.inj (hm.symm.trans hy)
  generalize hk : m.id = k at h
  cases h with
  | @own x listed =>
    have hx := listed.1.1
    rw [← hk, hm] at hx
    rw [Option.some.inj hx, listed.2] at hof
    cases hof
  | @accessor owner' x slot' _ listed place known follows =>
    rw [← hk, hm] at known
    obtain rfl := Option.some.inj known
    obtain ⟨y, hy, -, hof'⟩ := wf.accessor listed.1.1 place
    obtain rfl := Option.some.inj (hm.symm.trans hy)
    have hid : owner.id = owner'.id := Option.some.inj (hof.symm.trans hof')
    have howner' := listed.1.1
    rw [← hid, howner.1] at howner'
    obtain rfl := Option.some.inj howner'
    obtain rfl := wf.slot_unique howner.1 hplace place
    exact follows

/-- The allocated name of a member `k` is the first free one, and it is taken from then on. -/
theorem TypeGraph.NamesMember.firstFree {k : MemberId} {r : MemberRecord}
    (h : g.NamesMember options ty resolved names k r names') (horigin : r.origin = some .allocated) :
    ∃ preferred name, g.Prefers options ty resolved names k preferred ∧ r.name? = some name ∧
      names.FirstFree preferred.name name ∧ names'.contains name := by
  obtain ⟨preferred, hprefers, hnamed⟩ := h.named (horigin ▸ nofun)
  obtain ⟨name, hname, hleads⟩ := hnamed .allocated horigin
  refine ⟨preferred, name, hprefers, hname, ?_, (h.registered name).2 (.inr ?_)⟩
  · cases hleads with
    | allocated _ hallocate => exact NameRegistry.firstFree_of_allocate hallocate
  · rw [MemberRecord.registeredName?, horigin, if_pos (by rfl), hname]

/-- Nothing happens about a member without a name. -/
theorem MemberRecord.IsUnnamed.namesMember {r : MemberRecord} (h : r.IsUnnamed) (k : MemberId) :
    g.NamesMember options ty resolved names k r names where
  registered name := by
    rw [h.registered]
    exact (or_iff_left (Option.some_ne_none name).symm).symm
  named hnamed := absurd h.origin hnamed
  byDefault x _ hx hne := absurd (h.method x hx) hne

/-- A member that is no method, and has no name of its own, may register one as a field. -/
theorem namesMember_of_data {r : MemberRecord} {k : MemberId} (horigin : r.origin = none)
    (hmethod : r.method = none) (hnames : ∀ name, names'.contains name ↔
      names.contains name ∨ r.property = some (.field name)) :
    g.NamesMember options ty resolved names k r names' where
  registered name := by rw [hnames, MemberRecord.registeredName?_of_origin horigin]
  named hnamed := absurd horigin hnamed
  byDefault x _ hx := absurd (hmethod.symm.trans hx) (Option.some_ne_none x).symm

namespace TypeGraph.NamesInTurn

variable {l l' : List MemberId}

theorem single {k : MemberId} (h : g.NamesMember options ty resolved names k (recordOf k) names') :
    g.NamesInTurn options ty resolved recordOf names [k] names' :=
  .cons h (.nil _)

theorem append (h : g.NamesInTurn options ty resolved recordOf names l names')
    (h' : g.NamesInTurn options ty resolved recordOf names' l' names'') :
    g.NamesInTurn options ty resolved recordOf names (l ++ l') names'' := by
  induction h with
  | nil _ => exact h'
  | cons first _ ih => exact .cons first (ih h')

theorem congr (h : g.NamesInTurn options ty resolved recordOf names l names')
    (heq : ∀ k ∈ l, recordOf' k = recordOf k) :
    g.NamesInTurn options ty resolved recordOf' names l names' := by
  induction h with
  | nil _ => exact .nil _
  | cons first _ ih =>
    refine .cons ?_ (ih fun j hj => heq j (.tail _ hj))
    rw [heq _ (.head _)]
    exact first

theorem of_unnamed (h : ∀ k ∈ l, (recordOf k).IsUnnamed) (names : NameRegistry) :
    g.NamesInTurn options ty resolved recordOf names l names := by
  induction l with
  | nil => exact .nil _
  | cons k l ih =>
    exact .cons ((h k (.head _)).namesMember k) (ih fun j hj => h j (.tail _ hj))

/-- The names that come in from `names` to `names'` are those that the members in `l` register. -/
theorem contains_iff (h : g.NamesInTurn options ty resolved recordOf names l names')
    (name : String) : names'.contains name ↔
      names.contains name ∨ ∃ k ∈ l, (recordOf k).registeredName? = some name := by
  induction h with
  | nil _ => simp
  | cons first _ ih =>
    rw [ih, first.registered, or_assoc]
    simp only [List.mem_cons, exists_eq_or_imp]

theorem of_append {before after : List MemberId}
    (h : g.NamesInTurn options ty resolved recordOf names (before ++ after) names') :
    ∃ names₁, g.NamesInTurn options ty resolved recordOf names before names₁ ∧
      g.NamesInTurn options ty resolved recordOf names₁ after names' := by
  induction before generalizing names with
  | nil => exact ⟨names, .nil _, h⟩
  | cons k before ih =>
    cases h with
    | cons first rest =>
      obtain ⟨names₁, hbefore, hafter⟩ := ih rest
      exact ⟨names₁, .cons first hbefore, hafter⟩

/-- Each member `k` is named when those in `before` have their names. -/
theorem split {before after : List MemberId} {k : MemberId}
    (h : g.NamesInTurn options ty resolved recordOf names (before ++ k :: after) names') :
    ∃ names₁ names₂, g.NamesInTurn options ty resolved recordOf names before names₁ ∧
      g.NamesMember options ty resolved names₁ k (recordOf k) names₂ ∧
      g.NamesInTurn options ty resolved recordOf names₂ after names' := by
  obtain ⟨names₁, hbefore, hrest⟩ := h.of_append
  cases hrest with
  | cons first rest => exact ⟨names₁, _, hbefore, first, rest⟩

end TypeGraph.NamesInTurn

end

/-! ## Methods and accessors -/

/-- A method that nothing else decides over is left out of script or named by its preferred name. -/
theorem classifyMethod_of_namesByDefault {g : TypeGraph}
    {semanticsOf : MemberId → Resolve (Option MethodSemantics)} {ty : TypeSymbol}
    {resolved : ResolvedType} {m : MemberSymbol} (h : g.NamesByDefault ty resolved m)
    (preferred : PreferredName) (names : NameRegistry) :
    classifyMethod g semanticsOf ty resolved m preferred names =
      if m.has .nonScriptable then pure (.notUsable, names)
      else namedMethod g ty m preferred names := by
  have hinherited : inheritedMethod? g semanticsOf m preferred.isSpecified = pure none := by
    rw [inheritedMethod?, if_neg h.notOverride, pure_bind]
    simp only [h.implementsNothing, List.isEmpty_nil, if_true]
  rw [classifyMethod, if_neg h.notGlobal, h.unmarked]
  simp only [hinherited, pure_bind]

section

variable {g : TypeGraph} {options : Options} {ensure : TypeId → Resolve Unit} {ty : TypeSymbol}
  {resolved : ResolvedType} {m : MemberSymbol} {preferred : PreferredName}
  {inherited names names' : NameRegistry} {s₀ s s' : ResolutionState}

/-- Without an origin recorded for its name, such a method is left out of script or has a blank
name. -/
theorem resolveMethod_of_namesByDefault {semanticsOf : MemberId → Resolve (Option MethodSemantics)}
    {x : MethodSemantics} (hm : g.NamesByDefault ty resolved m) (hx : x ≠ .notUsable)
    (h : resolveMethod g semanticsOf ty resolved m preferred names s = .ok ((x, names'), s'))
    (horigin : s'.origins.find? m.id = none) : preferred.name = some "" := by
  obtain ⟨s₁, hclassify, rfl⟩ := resolveMethod_eq_ok h
  rw [classifyMethod_of_namesByDefault hm] at hclassify
  split at hclassify
  · obtain ⟨hp, -⟩ := run_pure_eq_ok.1 hclassify
    exact absurd (Prod.ext_iff.1 hp).1 hx
  · unfold namedMethod at hclassify
    split at hclassify
    · assumption
    · rw [run_bind_eq_ok] at hclassify
      obtain ⟨⟨name, names₁⟩, s₂, hname, hclassify⟩ := hclassify
      obtain ⟨-, rfl⟩ := run_pure_eq_ok.1 hclassify
      obtain ⟨-, counts, origin, rfl, -⟩ := nameMember_eq_ok hname
      cases (Table.find?_insert_self _ _ _).symm.trans horigin

variable (hensure : EnsuresMembers g options ensure)

include hensure

theorem resolveMethod_namesMember {x : MethodSemantics} (hs : Within g options ty.id s₀ s)
    (hm : g.Owns ty.id m) (hempty : s.recordOf m.id = .empty)
    (hpreferred : g.Prefers options ty resolved names m.id preferred)
    (h : resolveMethod g (methodSemanticsBy g ensure) ty resolved m preferred names s =
      .ok ((x, names'), s')) :
    g.NamesMember options ty resolved names m.id (s'.recordOf m.id) names' := by
  have hmethod : s'.methods.find? m.id = some x := by
    obtain ⟨s₁, -, rfl⟩ := resolveMethod_eq_ok h
    exact Table.find?_insert_self _ _ _
  have hregistered (name : String) : names'.contains name ↔
      names.contains name ∨ (s'.recordOf m.id).registeredName? = some name := by
    obtain ⟨s₁, hs₁, hcases⟩ := resolveMethod_cases hensure hs hm h
    have hempty₁ : s₁.recordOf m.id = .empty := (hs₁.frame hm.declared not_false).trans hempty
    obtain ⟨rfl, rfl⟩ | ⟨own, counts, origin, hname, rfl, -, rfl⟩ := hcases
    · have horigin : s₁.origins.find? m.id = none := congrArg MemberRecord.origin hempty₁
      have hproperty : s₁.properties.find? m.id = none := congrArg MemberRecord.property hempty₁
      simp [MemberRecord.registeredName?, recordOf, horigin, hproperty]
    · have hfield : s₁.fields.find? m.id = none := congrArg MemberRecord.field hempty₁
      simp [MemberRecord.registeredName?, MemberRecord.name?, recordOf, hfield, hname,
        NameRegistry.contains_add, or_comm]
  exact {
    registered := hregistered
    named := fun _ => ⟨preferred, hpreferred, (resolveMethod_named hensure hs hm hempty h).2⟩
    byDefault := fun y z hy hne hz hdefault horigin => by
      obtain rfl := Option.some.inj (hmethod.symm.trans hy)
      obtain rfl := Option.some.inj (hm.1.symm.trans hz)
      exact ⟨preferred, hpreferred, resolveMethod_of_namesByDefault hdefault hne h horigin⟩ }

theorem resolveAccessor?_namesInTurn (wf : g.WellFormed) {slot : AccessorSlot}
    {x : Option MethodSemantics} (hs : Within g options ty.id s₀ s) (hm : g.Lists ty.id m)
    (hempty : ∀ a, m.accessor? slot = some a → s.recordOf a = .empty)
    (h : (g.memberContext options ensure ty resolved).resolveAccessor? m slot
      (g.preferredName options ty resolved m).1 names s = .ok ((x, names'), s')) :
    g.NamesInTurn options ty resolved s'.recordOf names (m.accessor? slot).toList names' := by
  obtain ⟨hnone, -, rfl, rfl⟩ | ⟨a, y, ha, -, haccessor⟩ := MemberContext.resolveAccessor?_eq_ok h
  · rw [hnone]
    exact .nil _
  · obtain ⟨z, ds, name, hz, hname, hmethod⟩ := MemberContext.resolveAccessor_eq_ok haccessor
    obtain rfl := wf.member_id hz
    have hreport := (Framed.start hs fun _ => False).changesAt (fun _ h => h.elim) (.report _ _ ds)
    rw [ha]
    exact .single (resolveMethod_namesMember hensure hreport.toWithin
      ((hm.1.accessor wf ha).2 z hz) (hempty z.id ha) (.accessor hm ha hz hname) hmethod)

/-- The accessors of `m` in the places `slot` and `slot'` are named one after the other. -/
theorem resolveAccessors_namesInTurn (wf : g.WellFormed) {slot slot' : AccessorSlot}
    (hslot : slot ≠ slot') {x x' : Option MethodSemantics} {names₁ : NameRegistry}
    {s₁ : ResolutionState} (hs : Within g options ty.id s₀ s)
    (hn : Naming g ty.id inherited names s) (hm : g.Lists ty.id m)
    (hempty : ∀ a ∈ m.accessors, s.recordOf a = .empty)
    (hslots : m.accessors = (m.accessor? slot).toList ++ (m.accessor? slot').toList)
    (h : (g.memberContext options ensure ty resolved).resolveAccessor? m slot
      (g.preferredName options ty resolved m).1 names s = .ok ((x, names₁), s₁))
    (h' : (g.memberContext options ensure ty resolved).resolveAccessor? m slot'
      (g.preferredName options ty resolved m).1 names₁ s₁ = .ok ((x', names'), s')) :
    g.NamesInTurn options ty resolved s'.recordOf names m.accessors names' := by
  have hmem {slot : AccessorSlot} {a : MemberId} (ha : m.accessor? slot = some a) :
      a ∈ m.accessors := MemberSymbol.mem_accessors.2 ⟨slot, ha⟩
  have hother {a : MemberId} (ha : m.accessor? slot = some a) : m.accessor? slot' ≠ some a :=
    fun ha' => hslot (wf.slot_unique hm.1.1 ha ha')
  obtain ⟨hframed, hn₁⟩ := resolveAccessor?_naming hensure wf hs hn hm.1
    (fun a ha => hempty a (hmem ha)) h
  have hempty₁ (a : MemberId) (ha : m.accessor? slot' = some a) : s₁.recordOf a = .empty :=
    (hframed.frame (hm.1.accessor wf ha).1 fun ha' => hother ha' ha).trans (hempty a (hmem ha))
  obtain ⟨hframed', -⟩ :=
    resolveAccessor?_naming hensure wf hframed.toWithin hn₁ hm.1 hempty₁ h'
  rw [hslots]
  have hfirst := resolveAccessor?_namesInTurn hensure wf hs hm (fun a ha => hempty a (hmem ha)) h
  refine (hfirst.congr fun a ha => ?_).append
    (resolveAccessor?_namesInTurn hensure wf hframed.toWithin hm hempty₁ h')
  have ha : m.accessor? slot = some a := Option.mem_toList.1 ha
  exact hframed'.frame (hm.1.accessor wf ha).1 (hother ha)

/-! ## Members of all kinds -/

omit hensure in
theorem MemberSymbol.accessors_of_property {data : PropertyData} (hkind : m.kind = .property data) :
    m.accessors = (m.accessor? .getter).toList ++ (m.accessor? .setter).toList := by
  simp only [accessors, List.filterMap_cons, List.filterMap_nil, accessor?, hkind]
  cases data.getter <;> cases data.setter <;> rfl

omit hensure in
theorem MemberSymbol.accessors_of_event {data : EventData} (hkind : m.kind = .event data) :
    m.accessors = (m.accessor? .adder).toList ++ (m.accessor? .remover).toList := by
  simp only [accessors, List.filterMap_cons, List.filterMap_nil, accessor?, hkind]
  cases data.adder <;> cases data.remover <;> rfl

omit hensure in
/-- Members that are left out have no names. -/
theorem ResolutionState.OnlyLeavesOut.isUnnamed {ms : List MemberSymbol} {k : MemberId}
    (h : s.OnlyLeavesOut ms s') (hempty : s.recordOf k = .empty) : (s'.recordOf k).IsUnnamed := by
  have horigin : s'.origins.find? k = none := by
    rw [h.origins]
    exact congrArg MemberRecord.origin hempty
  refine ⟨horigin, Option.eq_none_iff_forall_ne_some.2 fun name hname => ?_, fun x hx => ?_⟩
  · have hfield : s'.properties.find? k = some (.field name) :=
      (MemberRecord.registeredName?_of_origin horigin).1 hname
    rcases h.properties k with heq | ⟨heq, -⟩
    · cases (heq.trans (congrArg MemberRecord.property hempty)).symm.trans hfield
    · cases heq.symm.trans hfield
  · rcases h.methods k with heq | ⟨heq, -⟩
    · cases (heq.trans (congrArg MemberRecord.method hempty)).symm.trans hx
    · exact Option.some.inj (hx.symm.trans heq)

omit hensure in
/-- After the accessors of `m` comes `m` itself. -/
theorem TypeGraph.NamesInTurn.own {s₁ : ResolutionState} {names₁ : NameRegistry}
    (wf : g.WellFormed) (hm : g.Lists ty.id m)
    (h : g.NamesInTurn options ty resolved s₁.recordOf names m.accessors names₁)
    (hchange : ChangesAt (· = m.id) s₁ s')
    (hown : g.NamesMember options ty resolved names₁ m.id (s'.recordOf m.id) names') :
    g.NamesInTurn options ty resolved s'.recordOf names (m.accessors ++ [m.id]) names' := by
  refine (h.congr fun a ha => hchange.records a ?_).append (.single hown)
  rintro rfl
  exact hm.not_mem_accessors wf ha

/-- The accessors of a property are named if it is used through them. -/
theorem classifyProperty_namesInTurn (wf : g.WellFormed) {data : PropertyData}
    (hkind : m.kind = .property data) {x : PropertySemantics} (hs : Within g options ty.id s₀ s)
    (hn : Naming g ty.id inherited names s) (hm : g.Lists ty.id m)
    (hempty : ∀ k, m.Covers k → s.recordOf k = .empty)
    (h : (g.memberContext options ensure ty resolved).classifyProperty m
      (g.preferredName options ty resolved m).1 names s = .ok ((x, names'), s')) :
    s'.recordOf m.id = .empty ∧
      ∃ names₁, g.NamesInTurn options ty resolved s'.recordOf names m.accessors names₁ ∧
        ∀ name, names'.contains name ↔ names₁.contains name ∨ x = .field name := by
  have haccessors (a : MemberId) (ha : a ∈ m.accessors) : s.recordOf a = .empty :=
    hempty a (.inr ha)
  have hself := hempty m.id (.inl rfl)
  cases MemberContext.classifyProperty_eq_ok h with
  | direct hx hmatches hnames ds hstate =>
    subst hstate
    exact ⟨hself, names, .of_unnamed (fun a ha => .of_empty (haccessors a ha)) _, hnames⟩
  | accessed hx ds haccessed =>
    obtain ⟨hreport, hn'⟩ := report_naming hs hn ds
    obtain ⟨getter, setter, names₁, s₁, rfl, hgetter, hsetter⟩ :=
      MemberContext.accessedProperty_eq_ok haccessed
    have hturn := resolveAccessors_namesInTurn hensure wf (by decide) hreport.toWithin hn' hm
      haccessors (MemberSymbol.accessors_of_property hkind) hgetter hsetter
    obtain ⟨hframed, -⟩ := resolveAccessors_naming hensure wf (by decide) hreport.toWithin hn'
      hm.1 haccessors hgetter hsetter
    refine ⟨(hframed.frame hm.1.declared (hm.not_mem_accessors wf)).trans hself, names', hturn,
      fun name => (or_iff_left nofun).symm⟩

/-- A property or an event is named after its accessors, a field by itself. -/
theorem resolveDataMember_namesInTurn (wf : g.WellFormed) (hs : Within g options ty.id s₀ s)
    (hn : Naming g ty.id inherited names s) (hm : g.Lists ty.id m)
    (hempty : ∀ k, m.Covers k → s.recordOf k = .empty)
    (h : (g.memberContext options ensure ty resolved).resolveDataMember m
      (g.preferredName options ty resolved m).1 names s = .ok (names', s')) :
    g.NamesInTurn options ty resolved s'.recordOf names (m.accessors ++ [m.id]) names' := by
  have hself := hempty m.id (.inl rfl)
  have hcovers (k : MemberId) (hk : k ∈ m.accessors ++ [m.id]) : s.recordOf k = .empty :=
    hempty k ((List.mem_append.1 hk).symm.imp_left List.mem_singleton.1)
  obtain ⟨rfl, hmark⟩ | ⟨-, rfl, rfl⟩ | ⟨data, x, s₁, hkind, hclassify, rfl⟩ |
    ⟨name, s₁, hkind, hname, rfl⟩ | ⟨data, adder, remover, names₁, s₁, s₂, hkind, hadder, hremover, rfl⟩ :=
    MemberContext.resolveDataMember_eq_ok h
  · have honly := markNotUsable_onlyLeavesOut (.head []) hmark
    exact .of_unnamed (fun k hk => honly.isUnnamed (hcovers k hk)) _
  · exact .of_unnamed (fun k hk => .of_empty (hcovers k hk)) _
  · obtain ⟨hempty₁, names₁, hturn, hnames⟩ :=
      classifyProperty_namesInTurn hensure wf hkind hs hn hm hempty hclassify
    refine hturn.own wf hm (.property (K := (· = m.id)) s₁ rfl x) (namesMember_of_data
      (congrArg MemberRecord.origin hempty₁) (congrArg MemberRecord.method hempty₁) fun name => ?_)
    simp only [hnames, recordOf, Table.find?_insert_self, Option.some.injEq]
  · obtain ⟨rfl, counts, origin, rfl, hleads⟩ := nameMember_eq_ok hname
    have horigin : (s.origins.insert m.id origin).find? m.id = some origin :=
      Table.find?_insert_self _ _ _
    have hmethod : s.methods.find? m.id = none := congrArg MemberRecord.method hself
    rw [MemberSymbol.accessors_eq_nil (.inr hkind)]
    refine .single {
      registered := fun own => ?_
      named := fun _ => ⟨_, .own hm, fun origin' horigin' => ?_⟩
      byDefault := fun x _ hx => absurd (hmethod.symm.trans hx) (Option.some_ne_none x).symm }
    · simp only [MemberRecord.registeredName?, MemberRecord.name?, recordOf, horigin,
        Table.find?_insert_self, Option.isSome_some, if_true, FieldSemantics.name?,
        NameRegistry.contains_add, Option.some.injEq, or_comm]
    · obtain rfl := Option.some.inj (horigin.symm.trans horigin')
      refine ⟨name, ?_, hleads⟩
      simp only [recordOf, MemberRecord.name?, Table.find?_insert_self, FieldSemantics.name?]
  · have haccessors (a : MemberId) (ha : a ∈ m.accessors) := hempty a (.inr ha)
    have hturn := resolveAccessors_namesInTurn hensure wf (by decide) hs hn hm haccessors
      (MemberSymbol.accessors_of_event hkind) hadder hremover
    obtain ⟨hframed, -⟩ := resolveAccessors_naming hensure wf (by decide) hs hn hm.1 haccessors
      hadder hremover
    have hempty₂ : s₂.recordOf m.id = .empty :=
      (hframed.frame hm.1.declared (hm.not_mem_accessors wf)).trans hself
    have hproperty : s₂.properties.find? m.id = none := congrArg MemberRecord.property hempty₂
    refine hturn.own wf hm (.event (K := (· = m.id)) s₂ rfl (.addAndRemove adder remover))
      (namesMember_of_data (congrArg MemberRecord.origin hempty₂)
        (congrArg MemberRecord.method hempty₂) fun name => ?_)
    simp only [recordOf, hproperty, reduceCtorEq, or_false]

/-- Whatever kind a member is of, it is named after its accessors. -/
theorem resolveMember_namesInTurn (wf : g.WellFormed) (hs : Within g options ty.id s₀ s)
    (hn : Naming g ty.id inherited names s) (hm : g.Lists ty.id m)
    (hempty : ∀ k, m.Covers k → s.recordOf k = .empty)
    (h : (g.memberContext options ensure ty resolved).resolveMember m
      (g.preferredName options ty resolved m).1 names s = .ok (names', s')) :
    g.NamesInTurn options ty resolved s'.recordOf names (m.accessors ++ [m.id]) names' := by
  obtain ⟨hmethod, x, hresolve⟩ | ⟨-, hdata⟩ := MemberContext.resolveMember_eq_ok h
  · rw [MemberSymbol.accessors_eq_nil (.inl hmethod)]
    exact .single (resolveMethod_namesMember hensure hs hm.1 (hempty m.id (.inl rfl)) (.own hm)
      hresolve)
  · exact resolveDataMember_namesInTurn hensure wf hs hn hm hempty hdata

/-! ## All members of a type -/

omit hensure in
theorem MemberSymbol.mem_accessors_append {k : MemberId} :
    k ∈ m.accessors ++ [m.id] ↔ m.Covers k := by
  rw [List.mem_append, List.mem_singleton, or_comm, MemberSymbol.Covers]

omit hensure in
theorem TypeGraph.Lists.nodup_accessors (wf : g.WellFormed) {t : TypeId} (hm : g.Lists t m) :
    m.accessors.Nodup :=
  List.Nodup.filterMap (fun _ _ _ ha ha' => wf.slot_unique hm.1.1 ha ha') (by decide)

omit hensure in
/-- No member comes up twice in the sequence. -/
theorem nodup_namingSequence (wf : g.WellFormed) (hty : g.type? ty.id = some ty) :
    (g.namingSequence options ty resolved).Nodup := by
  have hapart : (g.memberContext options (fun _ => pure ()) ty resolved).plan.Pairwise
      fun p q => p.1.Apart q.1 := plan_apart wf hty
  refine List.nodup_flatMap.2 ⟨fun p hp => ?_, hapart.imp fun h k hk hk' => ?_⟩
  · have hlists : g.Lists ty.id p.1 := lists_of_mem_plan wf hty p hp
    refine List.nodup_append'.2 ⟨hlists.nodup_accessors wf, List.nodup_singleton _, ?_⟩
    exact List.disjoint_singleton.2 (hlists.not_mem_accessors wf)
  · exact h k (MemberSymbol.mem_accessors_append.1 hk') (MemberSymbol.mem_accessors_append.1 hk)

/-- The members of `plan` are named one after the other. -/
theorem foldlM_namesInTurn (wf : g.WellFormed) {plan : List (MemberSymbol × PreferredName)}
    (hplan : ∀ p ∈ plan, g.Lists ty.id p.1 ∧ p.2 = (g.preferredName options ty resolved p.1).1)
    (hapart : plan.Pairwise fun p q => p.1.Apart q.1) (hs : Within g options ty.id s₀ s)
    (hn : Naming g ty.id inherited names s)
    (hempty : ∀ p ∈ plan, ∀ k, p.1.Covers k → s.recordOf k = .empty)
    (h : plan.foldlM (fun names p =>
      (g.memberContext options ensure ty resolved).resolveMember p.1 p.2 names) names s =
        .ok (names', s')) :
    Framed g options ty.id (fun k => ∃ p ∈ plan, p.1.Covers k) s s' ∧
      g.NamesInTurn options ty resolved s'.recordOf names
        (plan.flatMap fun p => p.1.accessors ++ [p.1.id]) names' := by
  induction plan generalizing s₀ s names with
  | nil =>
    obtain ⟨rfl, rfl⟩ := run_pure_eq_ok.1 h
    exact ⟨.start hs _, .nil _⟩
  | cons p plan ih =>
    rw [List.foldlM_cons, run_bind_eq_ok] at h
    obtain ⟨names₁, s₁, hstep, h⟩ := h
    obtain ⟨hlists, hpreferred⟩ := hplan p (.head _)
    obtain ⟨hfirst, hrest⟩ := List.pairwise_cons.1 hapart
    have hdeclared {q : MemberSymbol × PreferredName} (hq : q ∈ p :: plan) {k : MemberId}
        (hk : q.1.Covers k) : g.Declared ty.id k := (hplan q hq).1.1.declared_of_covers wf hk
    rw [hpreferred] at hstep
    have hturn :=
      resolveMember_namesInTurn hensure wf hs hn hlists (hempty p (.head _)) hstep
    obtain ⟨hs₁, hn₁⟩ := resolveMember_settles hensure wf hlists hs hn (hempty p (.head _)) hstep
    obtain ⟨hs', hturn'⟩ := ih (fun q hq => hplan q (.tail _ hq)) hrest hs₁.toWithin hn₁
      (fun q hq k hk => (hs₁.frame (hdeclared (.tail _ hq) hk) (hfirst q hq k hk)).trans
        (hempty q (.tail _ hq) k hk)) h
    refine ⟨(hs₁.mono fun k hk => ⟨p, .head _, hk⟩).trans (hs'.mono ?_), ?_⟩
    · rintro k ⟨q, hq, hk⟩
      exact ⟨q, .tail _ hq, hk⟩
    · -- Those that come after the first member leave its record alone.
      rw [List.flatMap_cons]
      refine (hturn.congr fun k hk => hs'.frame ?_ ?_).append hturn'
      · exact hdeclared (.head _) (MemberSymbol.mem_accessors_append.1 hk)
      · rintro ⟨q, hq, hqk⟩
        exact hfirst q hq k hqk (MemberSymbol.mem_accessors_append.1 hk)

/-- The own members of a usable type. -/
theorem resolveMembers_namesInTurn (wf : g.WellFormed) (hty : g.type? ty.id = some ty)
    (hs : Within g options ty.id s₀ s) (hn : Naming g ty.id inherited names s)
    (hempty : ∀ k, g.Declared ty.id k → s.recordOf k = .empty)
    (h : (g.memberContext options ensure ty resolved).resolveMembers names s = .ok (names', s')) :
    g.NamesInTurn options ty resolved s'.recordOf names
      (g.namingSequence options ty resolved) names' := by
  obtain ⟨s₁, hplan, halternates⟩ := MemberContext.resolveMembers_eq_ok h
  rw [MemberContext.resolveNamed, report, run_modify_bind] at hplan
  obtain ⟨hreport, hn'⟩ := report_naming hs hn
    (g.memberContext options ensure ty resolved).planProblems
  have hlists : ∀ p ∈ namingPlan (g.preferredNames options ty resolved), g.Lists ty.id p.1 :=
    lists_of_mem_plan wf hty
  have hapart : (g.memberContext options ensure ty resolved).plan.Pairwise
      fun p q => p.1.Apart q.1 := plan_apart wf hty
  obtain ⟨hs₁, hturn⟩ := foldlM_namesInTurn hensure wf
    (fun p hp => ⟨hlists p hp, (mem_plan_preferredNames.1 hp).2⟩) hapart hreport.toWithin hn'
    (fun p hp k hk => hempty k ((hlists p hp).1.declared_of_covers wf hk)) hplan
  -- Alternate signatures get their records last, and these are others.
  obtain ⟨-, hs₂⟩ := forM_resolveAlternate_spec hs₁.toWithin
    (fun p hp => (owns_of_mem_alternates wf hty hp).1) halternates
  refine hturn.congr fun k hk => ?_
  obtain ⟨p, hp, hk⟩ := List.mem_flatMap.1 hk
  have hcovers := MemberSymbol.mem_accessors_append.1 hk
  refine hs₂.frame ((hlists p hp).1.declared_of_covers wf hcovers) ?_
  rintro ⟨q, hq, rfl⟩
  exact named_apart_alternates wf hty (mem_plan_preferredNames.1 hp).1 hq q.1.id (.inl rfl) hcovers

/-- The members of `ty` are named in turn, starting from the names of its base types. -/
theorem processMembers_namesInTurn (wf : g.WellFormed) (hty : g.type? ty.id = some ty)
    (hs : Within g options ty.id s₀ s) (hempty : ∀ k, g.Declared ty.id k → s.recordOf k = .empty)
    (h : processMembers g options ensure ty resolved s = .ok (names', s')) :
    ∃ bases, g.allBaseTypes ty = .ok bases ∧
      ∃ s₁ : ResolutionState, Within g options ty.id s₀ s₁ ∧ s₁.Later g s' ∧
      (g.Layered → ∀ b ∈ bases, s₁.Done b) ∧
      g.NamesInTurn options ty resolved s'.recordOf (.merged (bases.filterMap s₁.memberNames.find?))
        (g.namingSequence options ty resolved) names' := by
  obtain ⟨bases, s₁, hbases, hs₁, hdone, hempty₁, husable, hunusable⟩ :=
    processMembers_own hensure hty hs hempty h
  have hstart : Naming g ty.id (.merged (bases.filterMap s₁.memberNames.find?))
      (.merged (bases.filterMap s₁.memberNames.find?)) s₁ := .start hempty₁
  refine ⟨bases, hbases, s₁, hs₁, ?_⟩
  by_cases hresolved : resolved.isUsable
  · have hrun := husable hresolved
    obtain ⟨hs', -⟩ := resolveMembers_naming hensure wf hty hs₁ hstart hempty₁ hrun
    exact ⟨hs'.grown.toLater, hdone,
      resolveMembers_namesInTurn hensure wf hty hs₁ hstart hempty₁ hrun⟩
  · obtain ⟨hmark, rfl⟩ := hunusable hresolved
    obtain ⟨hs', -⟩ := markNotUsable_naming wf hty hs₁ hstart hempty₁ hmark
    have honly := forM_markNotUsable_onlyLeavesOut (fun _ hm => hm) hmark
    refine ⟨hs'.grown.toLater, hdone, .of_unnamed (fun k hk => ?_) _⟩
    obtain ⟨p, hp, hk⟩ := List.mem_flatMap.1 hk
    exact honly.isUnnamed (hempty₁ k ((lists_of_mem_plan wf hty p hp).1.declared_of_covers wf
      (MemberSymbol.mem_accessors_append.1 hk)))

end

/-! ## Resolutions -/

section

variable {g : TypeGraph} {options : Options} {t : TypeId} {s : ResolutionState}

/-- Whenever a type is done, its members have been named in turn, starting from the names that its
base types had in an earlier state. They are done in that state, unless base types or links lead to
types that come later. -/
theorem namesInTurn_of_done (wf : g.WellFormed) (hs : s.Reached g options) {names : NameRegistry}
    (ht : s.memberNames.find? t = some names) :
    ∃ ty resolved bases, ∃ s₁ : ResolutionState, g.type? t = some ty ∧
      s.types.find? t = some resolved ∧ g.allBaseTypes ty = .ok bases ∧
      s₁.Reached g options ∧ ¬s₁.Done t ∧ s₁.Later g s ∧ (g.Layered → ∀ b ∈ bases, s₁.Done b) ∧
      g.NamesInTurn options ty resolved s.recordOf (.merged (bases.filterMap s₁.memberNames.find?))
        (g.namingSequence options ty resolved) names := by
  obtain ⟨p, rfl, hp⟩ := hs.exists_leadsTo wf (done_iff.2 ⟨names, ht⟩)
  obtain rfl := Option.some.inj (hp.names.symm.trans ht)
  obtain ⟨bases, hbases, s₁, hs₁, hlater, hdone, hturn⟩ := processMembers_namesInTurn
    (ensureMembersWithin_spec wf p.steps) wf p.known hp.before p.unrecorded p.run
  refine ⟨p.type, p.resolved, bases, s₁, p.known, hp.entry, hbases, hs₁.reached, hs₁.notDone,
    hlater.trans hp.later, hdone, hturn.congr fun k hk => hp.records k ?_⟩
  obtain ⟨q, hq, hk⟩ := List.mem_flatMap.1 hk
  exact (lists_of_mem_plan wf p.known q hq).1.declared_of_covers wf
    (MemberSymbol.mem_accessors_append.1 hk)

theorem ResolutionState.Later.size_lt {s₁ : ResolutionState} (h : s₁.Later g s)
    (hnot : ¬s₁.Done t) (hdone : s.Done t) : s₁.memberNames.size < s.memberNames.size := by
  have hkeys (s : ResolutionState) (u : TypeId) : s.Done u ↔ u ∈ s.memberNames.keys :=
    s.memberNames.contains_iff_mem_keys u
  have hsubset : t :: s₁.memberNames.keys ⊆ s.memberNames.keys :=
    List.cons_subset.2 ⟨(hkeys s t).1 hdone, fun u hu => (hkeys s u).1 (h.done ((hkeys s₁ u).2 hu))⟩
  have hnodup : (t :: s₁.memberNames.keys).Nodup :=
    List.nodup_cons.2 ⟨fun hmem => hnot ((hkeys s₁ t).2 hmem), s₁.memberNames.nodup_keys⟩
  have hle := (hnodup.subperm hsubset).length_le
  rwa [List.length_cons, Table.length_keys, Table.length_keys] at hle

/-- Whatever inherits from what, a `name` is visible in a type `t` only if a member of `t` has
registered it, or a member of a type that `t` inherits from. -/
theorem exists_registered_of_contains (wf : g.WellFormed) (hs : s.Reached g options)
    {names : NameRegistry} (ht : s.memberNames.find? t = some names) {name : String}
    (hname : names.contains name) : ∃ u, Relation.ReflTransGen g.NamesBase t u ∧ s.Done u ∧
      ∃ k, g.Declared u k ∧ (s.recordOf k).registeredName? = some name := by
  induction hsize : s.memberNames.size using Nat.strongRecOn generalizing s t names with
  | ind n ih =>
    subst hsize
    have hdone : s.Done t := done_iff.2 ⟨names, ht⟩
    obtain ⟨ty, resolved, bases, s₁, hty, -, hbases, hs₁, hnot, hlater, -, hturn⟩ :=
      namesInTurn_of_done wf hs ht
    obtain rfl := wf.type_id hty
    rcases (hturn.contains_iff name).1 hname with hinherited | ⟨k, hk, hregistered⟩
    · obtain ⟨names', hmem, hname'⟩ := NameRegistry.contains_merged.1 hinherited
      obtain ⟨b, hb, hnames'⟩ := List.mem_filterMap.1 hmem
      obtain ⟨u, hu, hudone, k, ⟨x, hx, hxu⟩, hregistered⟩ :=
        ih _ (hlater.size_lt hnot hdone) hs₁ hnames' hname' rfl
      refine ⟨u, (TypeGraph.inherits_of_mem_allBaseTypes hty hbases b hb).to_reflTransGen.trans hu,
        hlater.done hudone, k, ⟨x, hx, hxu⟩, ?_⟩
      rwa [hlater.records hx (hxu ▸ hudone)]
    · obtain ⟨p, hp, hk⟩ := List.mem_flatMap.1 hk
      exact ⟨ty.id, .refl, hdone, k, (lists_of_mem_plan wf hty p hp).1.declared_of_covers wf
        (MemberSymbol.mem_accessors_append.1 hk), hregistered⟩

end

end ScriptNaming
