import ScriptNaming.Document.Linking
import ScriptNaming.Proofs.MinimizedTypeNames
import ScriptNaming.Proofs.ReachedStates

/-!
# Independence of the roots

Without minimization it does not matter which other types are resolved, or in which order: two
resolutions of the graph of a document agree about every type and every member that both of them
resolve (`resolve_roots_irrelevant`).

The entry for a type is a function of its declaration and of the entry for the type around it
(`TypeGraph.TypesFit.unique`). The members of a type are processed side by side in the two
resolutions (`Alongside`). What is asked about earlier types is settled by induction, as none of
them is in progress then; what is asked about the type itself is answered alike, as its records are
the same in both (`TypeGraph.settled`).
-/

namespace ScriptNaming

variable {g : TypeGraph} {options : Options}

/-! ## Types -/

/-- The entry for `ty` is determined by the entry for the type around it, if neither options nor
names that are taken matter for `ty`. -/
theorem TypeGraph.FitsType.unique {options' : Options} {types types' : Table TypeId ResolvedType}
    {ty : TypeSymbol} {r r' : ResolvedType}
    (h : g.FitsType options types ty r) (h' : g.FitsType options' types' ty r')
    (hsame : ∀ taken taken' outer,
      g.resolvedType options taken ty outer = g.resolvedType options' taken' ty outer)
    (houter : ∀ u, ty.declaringType = some u → ∀ a a', types.find? u = some a →
      types'.find? u = some a' → a = a') : r = r' := by
  have hboth {outer outer' : Option ResolvedType}
      (hfound : ty.declaringType.map types.find? = outer.map some)
      (hfound' : ty.declaringType.map types'.find? = outer'.map some) : outer = outer' := by
    cases hu : ty.declaringType with
    | none =>
      rw [hu] at hfound hfound'
      rw [Option.map_eq_none_iff.1 hfound.symm, Option.map_eq_none_iff.1 hfound'.symm]
    | some u =>
      rw [hu] at hfound hfound'
      obtain ⟨a, rfl, ha⟩ := Option.map_eq_some_iff.1 hfound.symm
      obtain ⟨a', rfl, ha'⟩ := Option.map_eq_some_iff.1 hfound'.symm
      exact congrArg some (houter u hu a a' ha.symm ha'.symm)
  cases h with
  | marked has eq =>
    cases h' with
    | marked _ eq' => exact eq.trans eq'.symm
    | enclosed hasNot => exact absurd has hasNot
    | usable hasNot => exact absurd has hasNot
  | enclosed hasNot u outer declaringType found unusable eq =>
    have hfound : ty.declaringType.map types.find? = (some outer).map some := by
      rw [declaringType, Option.map_some, found, Option.map_some]
    cases h' with
    | marked has => exact absurd has hasNot
    | enclosed _ _ _ _ _ _ eq' => exact eq.trans eq'.symm
    | usable _ outer' found' usable =>
      have hunusable := usable outer (hboth hfound found').symm
      rw [unusable] at hunusable
      cases hunusable
  | usable hasNot outer found usable taken eq =>
    cases h' with
    | marked has => exact absurd has hasNot
    | enclosed _ u outer' declaringType found' unusable =>
      have hfound : ty.declaringType.map types'.find? = (some outer').map some := by
        rw [declaringType, Option.map_some, found', Option.map_some]
      have husable := usable outer' (hboth found hfound)
      rw [unusable] at husable
      cases husable
    | usable _ outer' found' _ taken' eq' =>
      rw [eq, eq', hboth found found', hsame taken taken']

/-- Entries that fit the declarations are the same in all tables for the types of a class that
options and taken names do not matter for. The class contains with each type the type around it. -/
theorem TypeGraph.TypesFit.unique_within (wf : g.WellFormed) {options' : Options}
    {P : TypeSymbol → Prop}
    (hclosed : ∀ ⦃t ty u outer⦄, g.type? t = some ty → ty.declaringType = some u →
      g.type? u = some outer → P ty → P outer)
    (hsame : ∀ ty, P ty → ∀ taken taken' outer,
      g.resolvedType options taken ty outer = g.resolvedType options' taken' ty outer)
    {types types' : Table TypeId ResolvedType} (h : g.TypesFit options types)
    (h' : g.TypesFit options' types') {t : TypeId} {ty : TypeSymbol} {r r' : ResolvedType}
    (hty : g.type? t = some ty) (hP : P ty) (hr : types.find? t = some r)
    (hr' : types'.find? t = some r') : r = r' := by
  induction hn : t.index using Nat.strongRecOn generalizing t ty r r' with
  | _ n ih =>
    obtain ⟨ty₁, hty₁, hfit⟩ := h hr
    obtain ⟨ty₂, hty₂, hfit'⟩ := h' hr'
    obtain rfl := Option.some.inj (hty.symm.trans hty₁)
    obtain rfl := Option.some.inj (hty.symm.trans hty₂)
    refine hfit.unique hfit' (hsame ty hP) fun u hu a a' ha ha' => ?_
    obtain ⟨outer, houter, -⟩ := h ha
    exact ih u.index (hn ▸ wf.outer_lt hty hu) houter (hclosed hty hu houter hP) ha ha' rfl

/-- Entries for a type `t` that fit its declaration are the same in all tables. -/
theorem TypeGraph.TypesFit.unique (wf : g.WellFormed) (hmin : options.minimizeNames = false)
    {types types' : Table TypeId ResolvedType} (h : g.TypesFit options types)
    (h' : g.TypesFit options types') {t : TypeId} {r r' : ResolvedType}
    (hr : types.find? t = some r) (hr' : types'.find? t = some r') : r = r' := by
  obtain ⟨ty, hty, -⟩ := h hr
  exact unique_within wf (fun _ _ _ _ _ _ _ _ => trivial) (P := fun _ => True)
    (fun _ _ => TypeGraph.resolvedType_of_not_generatesName (not_generatesName_of_keepsNames hmin)
      (not_generatesName_of_keepsNames hmin)) h h' hty trivial hr hr'

/-! ## Members -/

open ResolutionState

/-- Any two states in which the type `t` is done agree about its members and about the names that
are taken on its instances. -/
def TypeGraph.Settled (g : TypeGraph) (options : Options) (t : TypeId) : Prop :=
  ∀ ⦃s s' : ResolutionState⦄, s.Reached g options → s'.Reached g options →
    ∀ ⦃names names'⦄, s.memberNames.find? t = some names → s'.memberNames.find? t = some names' →
      names.SameNames names' ∧ ∀ m, g.Declared t m → s.recordOf m = s'.recordOf m

/-- The members of a type are processed in two resolutions, which agree about them so far. -/
structure Alongside (g : TypeGraph) (options : Options) (t : TypeId)
    (s₀ s₀' s s' : ResolutionState) : Prop where
  left : Within g options t s₀ s
  right : Within g options t s₀' s'
  agree : ∀ m, g.Declared t m → s.recordOf m = s'.recordOf m

variable {t : TypeId} {s₀ s₀' : ResolutionState}

theorem keepsRecords_alongside (hmin : options.minimizeNames = false) :
    KeepsRecords False .refl options (g.Declared t) (Alongside g options t s₀ s₀') where
  report ds := .modify fun s s' h => {
    left := h.left.changesAt (.report _ _ _)
    right := h.right.changesAt (.report _ _ _)
    agree := h.agree }
  property m x hm := .modify fun s s' h => {
    left := h.left.changesAt (.property _ hm _)
    right := h.right.changesAt (.property _ hm _)
    agree := fun k hk => by
      rw [Renumbering.member_refl, recordOf_insert_properties, recordOf_insert_properties,
        h.agree k hk] }
  field m x hm := .modify fun s s' h => {
    left := h.left.changesAt (.field _ hm _)
    right := h.right.changesAt (.field _ hm _)
    agree := fun k hk => by
      rw [Renumbering.member_refl, recordOf_insert_fields, recordOf_insert_fields, h.agree k hk] }
  event m x hm := .modify fun s s' h => {
    left := h.left.changesAt (.event _ hm _)
    right := h.right.changesAt (.event _ hm _)
    agree := fun k hk => by
      rw [Renumbering.member_refl, recordOf_insert_events, recordOf_insert_events, h.agree k hk] }
  origin m x hm := .modify fun s s' h => {
    left := h.left.changesAt (.origin _ hm _)
    right := h.right.changesAt (.origin _ hm _)
    agree := fun k hk => by
      rw [Renumbering.member_refl, recordOf_insert_origins, recordOf_insert_origins, h.agree k hk] }
  counted hcounted := by
    rw [hmin] at hcounted
    cases hcounted

theorem recordMethod_alongside {m : MemberId} (hm : g.Declared t m) (x : MethodSemantics) :
    Lockstep False (Alongside g options t s₀ s₀') Any (recordMethod m x) (recordMethod m x) :=
  .modify fun s s' h => {
    left := h.left.changesAt (.method _ hm _)
    right := h.right.changesAt (.method _ hm _)
    agree := fun k hk => by rw [recordOf_insert_methods, recordOf_insert_methods, h.agree k hk] }

theorem resolveAlternate_alongside {m main : MemberSymbol} (hm : g.Owns t m)
    (hmain : g.Owns t main) : Lockstep False (Alongside g options t s₀ s₀') Any
      (resolveAlternate m main) (resolveAlternate m main) := by
  unfold resolveAlternate
  split
  · exact recordMethod_alongside hm.declared _
  · refine Lockstep.get_bind fun s s' h => ?_
    have hmethod : s.methods.find? main.id = s'.methods.find? main.id :=
      congrArg MemberRecord.method (h.agree main.id hmain.declared)
    rw [hmethod]
    exact recordMethod_alongside hm.declared _

section

variable {ensure ensure' : TypeId → Resolve Unit} (hensure : EnsuresMembers g options ensure)
  (hensure' : EnsuresMembers g options ensure')

/-- While other types than `t` are processed, the two resolutions go on to agree. -/
theorem Alongside.meanwhile {s s' s₁ s₁' : ResolutionState}
    (h : Alongside g options t s₀ s₀' s s') (hs : Within g options t s₀ s₁)
    (hs' : Within g options t s₀' s₁') (hextends : s.Extends g (fun _ => True) s₁)
    (hextends' : s'.Extends g (fun _ => True) s₁') : Alongside g options t s₀ s₀' s₁ s₁' where
  left := hs
  right := hs'
  agree m hm := by
    rw [h.left.recordOf_meanwhile hextends hm, h.right.recordOf_meanwhile hextends' hm]
    exact h.agree m hm

variable (linked : g.Linked) (hsettled : ∀ u : TypeId, u.index < t.index → g.Settled options u)

include hensure hensure' linked hsettled

/-- A method `b` that an own member `m` of `t` is linked to is known alike, whether it belongs to
`t` itself or to an earlier type. -/
theorem methodSemanticsBy_alongside {m : MemberSymbol} (hm : g.Owns t m) {b : MemberId}
    (hb : b ∈ m.links) : Lockstep False (Alongside g options t s₀ s₀') Eq
      (methodSemanticsBy g ensure b) (methodSemanticsBy g ensure' b) := by
  intro s s' h
  cases hx : methodSemanticsBy g ensure b s with
  | error e =>
    cases methodSemanticsBy g ensure' b s' with
    | error e' => trivial
    | ok q => exact not_false
  | ok p =>
    cases hy : methodSemanticsBy g ensure' b s' with
    | error e' => exact not_false
    | ok q =>
      have hlinks (y : MemberSymbol) (hy : g.member? b = some y) : g.LinksTo t y.declaringType :=
        ⟨m.id, m, hm.1, hm.2, b, hb, y, hy, rfl⟩
      obtain ⟨hs, hextends, hr, hbegun⟩ :=
        methodSemanticsBy_spec hensure h.left (fun y hy => .inr (hlinks y hy)) hx
      obtain ⟨hs', hextends', hr', hbegun'⟩ :=
        methodSemanticsBy_spec hensure' h.right (fun y hy => .inr (hlinks y hy)) hy
      have halongside := h.meanwhile hs hs' hextends hextends'
      refine ⟨?_, halongside⟩
      obtain ⟨y, hy⟩ := linked.link_exists hm.1 hb
      have hrecord : p.2.recordOf b = q.2.recordOf b := by
        rcases Nat.lt_or_eq_of_le (linked.link_le (hlinks y hy)) with hlt | heq
        · obtain ⟨names, hnames⟩ :=
            done_iff.1 (hs.done_of_lt linked.toLayered hlt (hbegun y hy))
          obtain ⟨names', hnames'⟩ :=
            done_iff.1 (hs'.done_of_lt linked.toLayered hlt (hbegun' y hy))
          exact (hsettled _ hlt hs.reached hs'.reached hnames hnames').2 b ⟨y, hy, rfl⟩
        · exact halongside.agree b ⟨y, hy, TypeId.eq_of_index heq⟩
      rw [hr, hr']
      exact congrArg MemberRecord.method hrecord

theorem keepsMembers_alongside (hmin : options.minimizeNames = false) {ty : TypeSymbol}
    (resolved : ResolvedType) :
    KeepsMembers False .refl (g.memberContext options ensure ty resolved)
      (g.memberContext options ensure' ty resolved) (g.Owns t) (g.Declared t)
      (Alongside g options t s₀ s₀') where
  contexts := ⟨.refl g, rfl, .refl ty, rfl⟩
  records := keepsRecords_alongside hmin
  own _ hm := hm.declared
  accessor _ hm _ _ ha := hm.accessor linked.toWellFormed ha
  notUsable _ hm _ _ hk := recordMethod_alongside (hm.declared_of_covers linked.toWellFormed hk) _
  method _ _ _ _ hm hp hn :=
    resolveMethod_lockstep (.refl g) (keepsRecords_alongside hmin)
      (fun _ x hm => recordMethod_alongside hm x) (.refl ty) hn resolved hp hm.declared
      fun _ hb => methodSemanticsBy_alongside hensure hensure' linked hsettled hm hb

/-- The registries of the base types of `ty` are the same, as these come earlier. -/
theorem inherited_alongside {ty : TypeSymbol} (hty : g.type? t = some ty) {bases : List TypeId}
    (hbases : g.allBaseTypes ty = .ok bases) {s s' s₁ s₁' : ResolutionState}
    (h : Alongside g options t s₀ s₀' s s') (hrun : bases.forM ensure s = .ok ((), s₁))
    (hrun' : bases.forM ensure' s' = .ok ((), s₁')) :
    Alongside g options t s₀ s₀' s₁ s₁' ∧
      (NameRegistry.merged (bases.filterMap s₁.memberNames.find?)).SameNames
        (.merged (bases.filterMap s₁'.memberNames.find?)) := by
  have hinherits := TypeGraph.inherits_of_mem_allBaseTypes hty hbases
  obtain ⟨hs, hextends, hbegun⟩ :=
    forM_request hensure (fun b hb => .inl (hinherits b hb)) h.left hrun
  obtain ⟨hs', hextends', hbegun'⟩ :=
    forM_request hensure' (fun b hb => .inl (hinherits b hb)) h.right hrun'
  refine ⟨h.meanwhile hs hs' hextends hextends', .merged ?_⟩
  have hall : List.Forall₂ (fun b b' => b' = b ∧ b ∈ bases) bases bases :=
    List.forall₂_same.2 fun b hb => ⟨rfl, hb⟩
  refine List.rel_filterMap (fun b b' hb => ?_) hall
  obtain ⟨rfl, hb⟩ := hb
  have hlt := linked.inherits_lt (hinherits _ hb)
  obtain ⟨names, hnames⟩ := done_iff.1 (hs.done_of_lt linked.toLayered hlt (hbegun _ hb))
  obtain ⟨names', hnames'⟩ := done_iff.1 (hs'.done_of_lt linked.toLayered hlt (hbegun' _ hb))
  rw [hnames, hnames']
  exact .some (hsettled _ hlt hs.reached hs'.reached hnames hnames').1

theorem processMembers_alongside (hmin : options.minimizeNames = false) {ty : TypeSymbol}
    (hty : g.type? t = some ty) {resolved : ResolvedType} {names names' : NameRegistry}
    {s s' s₁ s₁' : ResolutionState} (h : Alongside g options t s₀ s₀' s s')
    (hrun : processMembers g options ensure ty resolved s = .ok (names, s₁))
    (hrun' : processMembers g options ensure' ty resolved s' = .ok (names', s₁')) :
    names.SameNames names' ∧ Alongside g options t s₀ s₀' s₁ s₁' := by
  have k : KeepsMembers False .refl (g.memberContext options ensure ty resolved)
      (g.memberContext options ensure' ty resolved) (g.Owns t) (g.Declared t)
      (Alongside g options t s₀ s₀') :=
    keepsMembers_alongside hensure hensure' linked hsettled hmin resolved
  obtain ⟨bases, s₂, hbases, hforM, husable, hunusable⟩ := processMembers_eq_ok hrun
  obtain ⟨bases', s₂', hbases', hforM', husable', hunusable'⟩ := processMembers_eq_ok hrun'
  obtain rfl := Except.ok.inj (hbases.symm.trans hbases')
  obtain ⟨h₂, hinherited⟩ :=
    inherited_alongside hensure hensure' linked hsettled hty hbases h hforM hforM'
  by_cases hresolved : resolved.isUsable
  · have halternate (p : MemberSymbol × MemberSymbol) (hp : p ∈ g.alternates ty) :
        Lockstep False (Alongside g options t s₀ s₀') Any (resolveAlternate p.1 p.2)
          (resolveAlternate p.1 p.2) := by
      obtain ⟨hm, hmain⟩ := owns_of_mem_alternates linked.toWellFormed hty hp
      exact resolveAlternate_alongside hm hmain
    have hmembers := resolveSameMembers_lockstep k
      (fun m hm => owns_of_mem_namedMembers linked.toWellFormed hty hm) halternate hinherited
    exact hmembers.of_ok h₂ (husable hresolved) (husable' hresolved)
  · have hmark := markSameNotUsable_lockstep k (fun m hm =>
      TypeGraph.owns_of_mem_canonicalMembers linked.toWellFormed hty hm) hresolved
    obtain ⟨hmarked, rfl⟩ := hunusable hresolved
    obtain ⟨hmarked', rfl⟩ := hunusable' hresolved
    exact ⟨hinherited, (hmark.of_ok h₂ hmarked hmarked').2⟩

end

/-- What is resolved for the members of a type is the same in all states. -/
theorem TypeGraph.settled (linked : g.Linked) (hmin : options.minimizeNames = false) (t : TypeId) :
    g.Settled options t := by
  induction hn : t.index using Nat.strongRecOn generalizing t with
  | _ n ih =>
    intro s s' hs hs' names names' hnames hnames'
    obtain ⟨p, hid, rfl, hlater, hbefore⟩ := hs.traced.exists_processing hnames
    obtain ⟨p', hid', rfl, hlater', hbefore'⟩ := hs'.traced.exists_processing hnames'
    have htype : p'.type = p.type := by
      have hknown := p'.known
      rw [hid', ← hid] at hknown
      exact Option.some.inj (hknown.symm.trans p.known)
    have hresolved : p'.resolved = p.resolved := by
      refine TypesFit.unique linked.toWellFormed hmin p'.sound.types p.sound.types p'.entry ?_
      rw [htype]
      exact p.entry
    have hwithin : Within g options t p.before p.before := hid ▸ p.within_before hbefore
    have hwithin' : Within g options t p'.before p'.before := hid' ▸ p'.within_before hbefore'
    have halongside : Alongside g options t p.before p'.before p.before p'.before := by
      refine ⟨hwithin, hwithin', fun m hm => ?_⟩
      obtain ⟨x, hx, htx⟩ := hm
      rw [p.fresh hx (htx.trans hid.symm), p'.fresh hx (htx.trans hid'.symm)]
    have hrun' := p'.run
    rw [htype, hresolved] at hrun'
    obtain ⟨hsame, hafter⟩ := processMembers_alongside
      (ensureMembersWithin_spec linked.toWellFormed p.steps)
      (ensureMembersWithin_spec linked.toWellFormed p'.steps) linked
      (fun u hu => ih u.index (hn ▸ hu) u rfl) hmin (hid ▸ p.known) halongside p.run hrun'
    refine ⟨hsame, fun m hm => ?_⟩
    obtain ⟨x, hx, rfl⟩ := hm
    rw [hlater.records hx (hid ▸ p.done_finished), hlater'.records hx (hid' ▸ p'.done_finished)]
    exact hafter.agree m ⟨x, hx, rfl⟩

/-! ## Resolutions -/

/-- The entries that `table` and `table'` have in common are the same. -/
def Table.Agrees {κ α : Type} [DecidableEq κ] (table table' : Table κ α) : Prop :=
  ∀ ⦃k a a'⦄, table.find? k = some a → table'.find? k = some a' → a = a'

/-- Two resolutions agree about what they both have resolved. -/
structure Resolution.Agrees (r r' : Resolution) : Prop where
  types : r.types.Agrees r'.types
  methods : r.methods.Agrees r'.methods
  properties : r.properties.Agrees r'.properties
  fields : r.fields.Agrees r'.fields
  events : r.events.Agrees r'.events

/-- A member with records in two final states `s` and `s'` has the same record there. -/
theorem recordOf_unique (linked : g.Linked) (hmin : options.minimizeNames = false)
    {s s' : ResolutionState} (hs : s.Reached g options) (hs' : s'.Reached g options)
    (hvisiting : s.memberGuard.visiting = []) (hvisiting' : s'.memberGuard.visiting = [])
    {m : MemberId} (hm : s.recordOf m ≠ .empty) (hm' : s'.recordOf m ≠ .empty) :
    s.recordOf m = s'.recordOf m := by
  obtain ⟨x, names, hx, hnames⟩ := hs.sound.names_of_record hvisiting hm
  obtain ⟨x', names', hx', hnames'⟩ := hs'.sound.names_of_record hvisiting' hm'
  obtain rfl := Option.some.inj (hx.symm.trans hx')
  exact (TypeGraph.settled linked hmin x.declaringType hs hs' hnames hnames').2 m ⟨x, hx, rfl⟩

/-- **Roots do not matter without minimization**: two resolutions `r` and `r'` of the graph `g` of a
document, from whatever roots and for whatever main assemblies, agree about everything that both
have resolved. -/
theorem resolve_roots_irrelevant {d : GraphDocument} {g : TypeGraph} (hd : d.link = .ok g)
    {options : Options} (hmin : options.minimizeNames = false) {roots roots' : List TypeId}
    {main main' : AssemblyId} {r r' : Resolution} (h : g.resolve options roots main = .ok r)
    (h' : g.resolve options roots' main' = .ok r') : r.Agrees r' := by
  have linked := GraphDocument.linked hd
  obtain ⟨s, rfl, hs, hvisiting⟩ := reached_of_resolve linked.toWellFormed h
  obtain ⟨s', rfl, hs', hvisiting'⟩ := reached_of_resolve linked.toWellFormed h'
  have hunique {m : MemberId} (hm : s.recordOf m ≠ .empty) (hm' : s'.recordOf m ≠ .empty) :
      s.recordOf m = s'.recordOf m :=
    recordOf_unique linked hmin hs hs' hvisiting hvisiting' hm hm'
  -- A table is read off the records by a projection, which is `none` for the empty record.
  have hagrees {α : Type} (table : ResolutionState → Table MemberId α)
      (entry : MemberRecord → Option α)
      (hentry : ∀ s m, entry (recordOf s m) = (table s).find? m) (hempty : entry .empty = none) :
      (table s).Agrees (table s') := by
    intro m a a' ha ha'
    rw [← hentry] at ha ha'
    have hm : s.recordOf m ≠ .empty := fun h => by
      rw [h, hempty] at ha
      cases ha
    have hm' : s'.recordOf m ≠ .empty := fun h => by
      rw [h, hempty] at ha'
      cases ha'
    rw [hunique hm hm', ha'] at ha
    exact Option.some.inj ha.symm
  exact {
    types := fun t a a' ha ha' =>
      hs.sound.types.unique linked.toWellFormed hmin hs'.sound.types ha ha'
    methods := hagrees ResolutionState.methods MemberRecord.method (fun _ _ => rfl) rfl
    properties := hagrees ResolutionState.properties MemberRecord.property (fun _ _ => rfl) rfl
    fields := hagrees ResolutionState.fields MemberRecord.field (fun _ _ => rfl) rfl
    events := hagrees ResolutionState.events MemberRecord.event (fun _ _ => rfl) rfl }

theorem resolve_animals_roots_irrelevant :
    animals.link = .ok animalGraph ∧ ∃ r r',
      animalGraph.resolve {} [⟨0⟩] ⟨0⟩ = .ok r ∧ r.methods.contains ⟨0⟩ ∧
      animalGraph.resolve {} [⟨1⟩] ⟨1⟩ = .ok r' ∧ r'.methods.contains ⟨0⟩ ∧ r.Agrees r' := by
  have h : (animalGraph.resolve {} [⟨0⟩] ⟨0⟩).toOption.any (·.methods.contains ⟨0⟩) := by
    decide +kernel
  have h' : (animalGraph.resolve {} [⟨1⟩] ⟨1⟩).toOption.any (·.methods.contains ⟨0⟩) := by
    decide +kernel
  obtain ⟨r, hr, hmethod⟩ := exists_of_any_toOption h
  obtain ⟨r', hr', hmethod'⟩ := exists_of_any_toOption h'
  exact ⟨link_animals, r, r', hr, hmethod, hr', hmethod',
    resolve_roots_irrelevant link_animals rfl hr hr'⟩

end ScriptNaming
