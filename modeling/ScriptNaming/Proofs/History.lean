import ScriptNaming.Proofs.Layered
import ScriptNaming.Proofs.ResolvedTypes
import ScriptNaming.Resolution.Members

/-!
# Histories of states

The states of a resolution are sound (`ResolutionState.Sound`): the types in progress depend on each
other, and members have records only if their type has been begun. What is recorded about the
members of a type that is done stays as it is (`ResolutionState.Later`), and so does what is
recorded about types in progress while other types are processed (`ResolutionState.Extends`).

Every type that is done has been processed once (`Processing`), from a state with a history of its
own (`Traced`).
-/

namespace ScriptNaming

/-- Processing the members of `t` may ask for those of `u`. -/
def TypeGraph.DependsOn (g : TypeGraph) (t u : TypeId) : Prop := g.Inherits t u ∨ g.LinksTo t u

theorem TypeGraph.Layered.dependsOn_le {g : TypeGraph} (layered : g.Layered) {t u : TypeId}
    (h : g.DependsOn t u) : u.index ≤ t.index := by
  rcases h with h | h
  · exact Nat.le_of_lt (layered.inherits_lt h)
  · exact layered.link_le h

/-! ## Records -/

/-- Everything that a state records about one member. -/
structure MemberRecord where
  method : Option MethodSemantics
  property : Option PropertySemantics
  field : Option FieldSemantics
  event : Option EventSemantics
  origin : Option NameOrigin

/-- The record of a member about which nothing is known. -/
def MemberRecord.empty : MemberRecord := ⟨none, none, none, none, none⟩

namespace ResolutionState

/-- What `s` records about `m`. -/
def recordOf (s : ResolutionState) (m : MemberId) : MemberRecord :=
  ⟨s.methods.find? m, s.properties.find? m, s.fields.find? m, s.events.find? m, s.origins.find? m⟩

section

variable (s : ResolutionState) (m k : MemberId)

theorem recordOf_insert_methods (x : MethodSemantics) :
    recordOf { s with methods := s.methods.insert m x } k =
      if m = k then { s.recordOf k with method := some x } else s.recordOf k := by
  simp only [recordOf, Table.find?_insert]
  split <;> rfl

theorem recordOf_insert_properties (x : PropertySemantics) :
    recordOf { s with properties := s.properties.insert m x } k =
      if m = k then { s.recordOf k with property := some x } else s.recordOf k := by
  simp only [recordOf, Table.find?_insert]
  split <;> rfl

theorem recordOf_insert_fields (x : FieldSemantics) :
    recordOf { s with fields := s.fields.insert m x } k =
      if m = k then { s.recordOf k with field := some x } else s.recordOf k := by
  simp only [recordOf, Table.find?_insert]
  split <;> rfl

theorem recordOf_insert_events (x : EventSemantics) :
    recordOf { s with events := s.events.insert m x } k =
      if m = k then { s.recordOf k with event := some x } else s.recordOf k := by
  simp only [recordOf, Table.find?_insert]
  split <;> rfl

theorem recordOf_insert_origins (x : NameOrigin) :
    recordOf { s with origins := s.origins.insert m x } k =
      if m = k then { s.recordOf k with origin := some x } else s.recordOf k := by
  simp only [recordOf, Table.find?_insert]
  split <;> rfl

end

/-- The members of `t` are resolved. -/
def Done (s : ResolutionState) (t : TypeId) : Prop := s.memberNames.contains t

/-- The members of `t` are resolved or in progress. -/
def Begun (s : ResolutionState) (t : TypeId) : Prop := s.Done t ∨ t ∈ s.memberGuard.visiting

theorem done_iff {s : ResolutionState} {t : TypeId} :
    s.Done t ↔ ∃ names, s.memberNames.find? t = some names := by
  rw [Done, Table.contains, Option.isSome_iff_exists]

/-! ## Growth -/

/-- What is known for good in a state is still known in a later one. -/
structure Later (g : TypeGraph) (s s' : ResolutionState) : Prop where
  types : ∀ ⦃t r⦄, s.types.find? t = some r → s'.types.find? t = some r
  names : ∀ ⦃t names⦄, s.memberNames.find? t = some names → s'.memberNames.find? t = some names
  problems : ∀ ⦃entity category⦄, s.diagnostics.contains entity category →
    s'.diagnostics.contains entity category
  records : ∀ ⦃m x⦄, g.member? m = some x → s.Done x.declaringType →
    s'.recordOf m = s.recordOf m

/-- A later state with the same types in progress, in which the records of those among them that
satisfy `others` are the same. -/
structure Extends (g : TypeGraph) (others : TypeId → Prop) (s s' : ResolutionState) : Prop
    extends Later g s s' where
  typeGuard : s'.typeGuard = s.typeGuard
  memberGuard : s'.memberGuard = s.memberGuard
  inProgress : ∀ ⦃m x⦄, g.member? m = some x → x.declaringType ∈ s.memberGuard.visiting →
    others x.declaringType → s'.recordOf m = s.recordOf m

variable {g : TypeGraph} {others : TypeId → Prop} {s s' s'' : ResolutionState}

theorem Later.refl (g : TypeGraph) (s : ResolutionState) : Later g s s where
  types _ _ h := h
  names _ _ h := h
  problems _ _ h := h
  records _ _ _ _ := rfl

theorem Later.done (h : Later g s s') {t : TypeId} (ht : s.Done t) : s'.Done t := by
  obtain ⟨names, hnames⟩ := done_iff.1 ht
  exact done_iff.2 ⟨names, h.names hnames⟩

theorem Later.trans (h : Later g s s') (h' : Later g s' s'') : Later g s s'' where
  types _ _ ht := h'.types (h.types ht)
  names _ _ ht := h'.names (h.names ht)
  problems _ _ hp := h'.problems (h.problems hp)
  records _ _ hm ht := (h'.records hm (h.done ht)).trans (h.records hm ht)

/-- The registries of the types in `l` stay the same, as these are done. -/
theorem Later.registries (h : Later g s s') {l : List TypeId} (hl : ∀ t ∈ l, s.Done t) :
    l.filterMap s'.memberNames.find? = l.filterMap s.memberNames.find? := by
  refine List.filterMap_congr fun t ht => ?_
  obtain ⟨names, hnames⟩ := done_iff.1 (hl t ht)
  rw [hnames, h.names hnames]

theorem Extends.refl (g : TypeGraph) (others : TypeId → Prop) (s : ResolutionState) :
    Extends g others s s where
  toLater := .refl g s
  typeGuard := rfl
  memberGuard := rfl
  inProgress _ _ _ _ _ := rfl

theorem Extends.trans (h : Extends g others s s') (h' : Extends g others s' s'') :
    Extends g others s s'' where
  toLater := h.toLater.trans h'.toLater
  typeGuard := h'.typeGuard.trans h.typeGuard
  memberGuard := h'.memberGuard.trans h.memberGuard
  inProgress _ _ hm ht ho :=
    (h'.inProgress hm (by rwa [h.memberGuard]) ho).trans (h.inProgress hm ht ho)

theorem Extends.mono {fewer : TypeId → Prop} (h : Extends g others s s')
    (hfewer : ∀ t, fewer t → others t) : Extends g fewer s s' :=
  { h with inProgress := fun _ _ hm ht ho => h.inProgress hm ht (hfewer _ ho) }

theorem Extends.begun (h : Extends g others s s') {t : TypeId} (ht : s.Begun t) : s'.Begun t := by
  rcases ht with ht | ht
  · exact .inl (h.done ht)
  · exact .inr (by rwa [h.memberGuard])

/-- Resolving a type has nothing to do with the record of a member `m`. -/
theorem TypesGrow.recordOf (h : s.TypesGrow s') (m : MemberId) : s'.recordOf m = s.recordOf m := by
  rw [ResolutionState.recordOf, h.methods, h.properties, h.fields, h.events, h.origins]
  rfl

theorem TypesGrow.extends (h : s.TypesGrow s') (g : TypeGraph) (others : TypeId → Prop) :
    Extends g others s s' where
  types := h.types
  names _ _ ht := by rwa [h.memberNames]
  problems := h.problems
  records m _ _ _ := h.recordOf m
  typeGuard := h.typeGuard
  memberGuard := h.memberGuard
  inProgress m _ _ _ _ := h.recordOf m

/-! ## Soundness -/

/-- What holds of all states of a resolution, whatever it asks for. -/
structure Tidy (g : TypeGraph) (options : Options) (s : ResolutionState) : Prop where
  types : g.TypesFit options s.types
  typesCounted : s.typeGuard.IsCounted
  membersCounted : s.memberGuard.IsCounted
  nodup : s.memberGuard.visiting.Nodup
  notDone : ∀ t ∈ s.memberGuard.visiting, ¬s.Done t
  records : ∀ ⦃m⦄, s.recordOf m ≠ .empty →
    ∃ x, g.member? m = some x ∧ s.Begun x.declaringType

/-- What holds of all states of a resolution. -/
structure Sound (g : TypeGraph) (options : Options) (s : ResolutionState) : Prop
    extends Tidy g options s where
  /-- Each type in progress was begun because the one before it depends on it. -/
  chain : s.memberGuard.visiting.IsChain fun u t => g.DependsOn t u

variable {options : Options}

theorem Tidy.initial (g : TypeGraph) (options : Options) : Tidy g options .initial where
  types _ _ h := nomatch h
  typesCounted := Guard.isCounted_empty
  membersCounted := Guard.isCounted_empty
  nodup := .nil
  notDone _ h := nomatch h
  records _ h := absurd rfl h

theorem Sound.initial (g : TypeGraph) (options : Options) : Sound g options .initial :=
  { Tidy.initial g options with chain := .nil }

theorem Tidy.grow (hs : Tidy g options s) (h : s.TypesGrow s')
    (types : g.TypesFit options s'.types) : Tidy g options s' where
  types := types
  typesCounted := by rw [h.typeGuard]; exact hs.typesCounted
  membersCounted := by rw [h.memberGuard]; exact hs.membersCounted
  nodup := by rw [h.memberGuard]; exact hs.nodup
  notDone t ht := by
    rw [h.memberGuard] at ht
    rw [Done, h.memberNames]
    exact hs.notDone t ht
  records m hm := by
    rw [h.recordOf] at hm
    obtain ⟨x, hx, ht⟩ := hs.records hm
    exact ⟨x, hx, (h.extends g fun _ => True).begun ht⟩

theorem Sound.grow (hs : Sound g options s) (h : s.TypesGrow s')
    (types : g.TypesFit options s'.types) : Sound g options s' where
  toTidy := hs.toTidy.grow h types
  chain := by rw [h.memberGuard]; exact hs.chain

/-- Nothing is recorded about a member `m` of a type `t` that has not been begun. -/
theorem Tidy.recordOf_eq_empty (hs : Tidy g options s) {t : TypeId} (ht : ¬s.Begun t)
    {m : MemberId} {x : MemberSymbol} (hm : g.member? m = some x) (hx : x.declaringType = t) :
    s.recordOf m = .empty := by
  by_contra hrecord
  obtain ⟨y, hy, hbegun⟩ := hs.records hrecord
  obtain rfl := Option.some.inj (hm.symm.trans hy)
  exact ht (hx ▸ hbegun)

/-- In a layered graph, the types in progress come in ascending order, the latest first. -/
theorem Sound.ascending (hs : Sound g options s) (layered : g.Layered) :
    s.memberGuard.visiting.Pairwise fun u t => u.index < t.index := by
  have hle : s.memberGuard.visiting.Pairwise fun u t => u.index ≤ t.index := by
    have hchain : s.memberGuard.visiting.IsChain fun u t => u.index ≤ t.index :=
      hs.chain.imp fun _ _ h => layered.dependsOn_le h
    have : IsTrans TypeId fun u t => u.index ≤ t.index := ⟨fun _ _ _ => Nat.le_trans⟩
    exact hchain.pairwise
  exact (hle.and hs.nodup).imp fun h => Nat.lt_of_le_of_ne h.1 fun hindex =>
    h.2 (TypeId.eq_of_index hindex)

end ResolutionState

/-! ## Processing -/

/-- The processing of the members of one type in the course of a resolution. -/
structure Processing (g : TypeGraph) (options : Options) where
  type : TypeSymbol
  resolved : ResolvedType
  steps : Nat
  /-- The state in which the type has just been begun. -/
  before : ResolutionState
  names : NameRegistry
  after : ResolutionState
  known : g.type? type.id = some type
  sound : before.Sound g options
  head : ∃ rest, before.memberGuard.visiting = type.id :: rest
  entry : before.types.find? type.id = some resolved
  fresh : ∀ ⦃m x⦄, g.member? m = some x → x.declaringType = type.id → before.recordOf m = .empty
  run : processMembers g options (ensureMembersWithin g options steps) type resolved before =
    .ok (names, after)

/-- The state in which the type of `p` is done. -/
def Processing.finished {g : TypeGraph} {options : Options} (p : Processing g options) :
    ResolutionState :=
  { p.after with
    memberGuard := p.after.memberGuard.leave p.type.id
    memberNames := p.after.memberNames.insert p.type.id p.names }

/-- Every type that is done in a state has been processed, from a state of which the same holds. -/
inductive Traced (g : TypeGraph) (options : Options) : ResolutionState → Prop
  | intro {s : ResolutionState} (processing : TypeId → Option (Processing g options))
    (found : ∀ t names, s.memberNames.find? t = some names → ∃ p, processing t = some p ∧
      p.type.id = t ∧ p.names = names ∧ p.finished.Later g s)
    (before : ∀ t p, processing t = some p → Traced g options p.before) : Traced g options s

namespace Traced

variable {g : TypeGraph} {options : Options} {s s' : ResolutionState}

/-- A type that is done has been processed. -/
theorem exists_processing (h : Traced g options s) {t : TypeId} {names : NameRegistry}
    (ht : s.memberNames.find? t = some names) : ∃ p : Processing g options,
      p.type.id = t ∧ p.names = names ∧ p.finished.Later g s ∧ Traced g options p.before := by
  obtain ⟨processing, found, before⟩ := h
  obtain ⟨p, hp, hid, hnames, hlater⟩ := found t names ht
  exact ⟨p, hid, hnames, hlater, before t p hp⟩

theorem of_exists (h : ∀ t names, s.memberNames.find? t = some names → ∃ p : Processing g options,
    p.type.id = t ∧ p.names = names ∧ p.finished.Later g s ∧ Traced g options p.before) :
    Traced g options s := by
  classical
  have hchoose (t : TypeId) : ∃ o : Option (Processing g options),
      (∀ names, s.memberNames.find? t = some names → ∃ p, o = some p ∧ p.type.id = t ∧
        p.names = names ∧ p.finished.Later g s) ∧ ∀ p, o = some p → Traced g options p.before := by
    cases ht : s.memberNames.find? t with
    | none => exact ⟨none, fun _ h => (nomatch h), fun _ h => nomatch h⟩
    | some names =>
      obtain ⟨p, hid, hnames, hlater, hbefore⟩ := h t names ht
      refine ⟨some p, fun names' hnames' => ?_, fun p' hp' => ?_⟩
      · exact ⟨p, rfl, hid, hnames.trans (Option.some.inj hnames'), hlater⟩
      · rwa [← Option.some.inj hp']
  choose processing found before using hchoose
  exact .intro processing found before

theorem initial (g : TypeGraph) (options : Options) : Traced g options .initial :=
  .of_exists fun _ _ h => nomatch h

theorem later (h : Traced g options s) (hlater : s.Later g s')
    (hnames : ∀ t names, s'.memberNames.find? t = some names →
      s.memberNames.find? t = some names) : Traced g options s' := by
  refine .of_exists fun t names ht => ?_
  obtain ⟨p, hid, hp, hplater, hbefore⟩ := h.exists_processing (hnames t names ht)
  exact ⟨p, hid, hp, hplater.trans hlater, hbefore⟩

end Traced

/-- A state that is sound and has a history. -/
structure ResolutionState.Reached (g : TypeGraph) (options : Options) (s : ResolutionState) :
    Prop where
  sound : s.Sound g options
  traced : Traced g options s

theorem ResolutionState.Reached.initial (g : TypeGraph) (options : Options) :
    ResolutionState.initial.Reached g options :=
  ⟨.initial g options, .initial g options⟩

end ScriptNaming
