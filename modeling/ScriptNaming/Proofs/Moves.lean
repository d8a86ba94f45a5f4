import Mathlib.Logic.Relation
import ScriptNaming.Proofs.MemberEntries

/-!
# Moves

As far as members go, a resolution is a sequence of moves: each member that gets a record gets it
once, with a name of its own or without one (`ResolutionState.Move`), in whatever order types and
members come up, and nothing else counts out names or says where names come from. What every move
keeps therefore holds at the end of every resolution (`moves_of_resolve`).
-/

namespace ScriptNaming

open ResolutionState

namespace ResolutionState

/-- A move from one state to another, as far as records of members go. -/
inductive Move (g : TypeGraph) (s : ResolutionState) : ResolutionState → Prop
  /-- Nothing is recorded about members. -/
  | aside {s' : ResolutionState} (records : ∀ k, s'.recordOf k = s.recordOf k)
    (origins : s'.origins = s.origins) (counts : s'.interfaceNames = s.interfaceNames) : Move g s s'
  /-- A member gets a record without a name of its own. -/
  | unnamed {k : MemberId} {s' : ResolutionState} (fresh : s.recordOf k = .empty)
    (frame : ∀ j, j ≠ k → s'.recordOf j = s.recordOf j) (origins : s'.origins = s.origins)
    (counts : s'.interfaceNames = s.interfaceNames) : Move g s s'
  /-- A member gets a record with a name of its own. -/
  | named {m : MemberSymbol} {ty : TypeSymbol} {preferred : PreferredName} {names : NameRegistry}
    {name : String} {origin : NameOrigin} {s₁ s' : ResolutionState}
    (known : g.member? m.id = some m) (type : g.type? m.declaringType = some ty)
    (fresh : s.recordOf m.id = .empty)
    (final : finalName ty preferred names s = .ok ((name, origin), s₁))
    (frame : ∀ j, j ≠ m.id → s'.recordOf j = s.recordOf j)
    (origins : s'.origins = s.origins.insert m.id origin)
    (counts : s'.interfaceNames = s₁.interfaceNames)
    (record : (s'.recordOf m.id).name? = some name) : Move g s s'

/-- A sequence of moves. -/
abbrev Moves (g : TypeGraph) : ResolutionState → ResolutionState → Prop :=
  Relation.ReflTransGen (Move g)

variable {g : TypeGraph} {s s' : ResolutionState}

theorem Moves.of_aside (records : ∀ k, s'.recordOf k = s.recordOf k)
    (origins : s'.origins = s.origins) (counts : s'.interfaceNames = s.interfaceNames) :
    Moves g s s' :=
  .single (.aside records origins counts)

theorem Moves.report (ds : List Diagnostic) :
    Moves g s { s with diagnostics := s.diagnostics.addAll ds } :=
  Moves.of_aside (fun _ => rfl) rfl rfl

theorem TypesGrow.moves (h : s.TypesGrow s') : Moves g s s' :=
  Moves.of_aside h.recordOf h.origins h.interfaceNames

/-- A change to the record of one member about which nothing was known. -/
theorem Moves.of_changesAt {k : MemberId} (fresh : s.recordOf k = .empty)
    (change : s.ChangesAt (· = k) s') (origins : s'.origins = s.origins)
    (counts : s'.interfaceNames = s.interfaceNames) : Moves g s s' :=
  .single (.unnamed fresh change.records origins counts)

theorem Moves.method {k : MemberId} (fresh : s.recordOf k = .empty) (x : MethodSemantics) :
    Moves g s { s with methods := s.methods.insert k x } :=
  Moves.of_changesAt fresh (.method (K := (· = k)) s rfl x) rfl rfl

end ResolutionState

/-- Requests `ensure` for the members of types are sequences of moves. -/
def MakesMoves (g : TypeGraph) (options : Options) (ensure : TypeId → Resolve Unit) : Prop :=
  ∀ ⦃t s s'⦄, s.Reached g options → (∀ u ∈ s.memberGuard.visiting.head?, g.DependsOn u t) →
    ensure t s = .ok ((), s') → Moves g s s'

section

variable {g : TypeGraph} {options : Options} {ensure : TypeId → Resolve Unit}
  (hensure : EnsuresMembers g options ensure) (hmoves : MakesMoves g options ensure) {t : TypeId}
  {ty : TypeSymbol} {resolved : ResolvedType} {m : MemberSymbol} {preferred : PreferredName}
  {names names' : NameRegistry} {s₀ s s₁ s' : ResolutionState}

/-! ## Requests -/

section

include hensure hmoves

/-- Requests for types that `t` depends on continue a sequence of moves. -/
theorem request_moves {u : TypeId} (hu : g.DependsOn t u) :
    Lockstep True (Self fun s₁ => Within g options t s s₁ ∧ Moves g s s₁) Any (ensure u)
      (ensure u) := by
  refine .self fun s₁ _ s₂ h hrun => ?_
  obtain ⟨hs₁, hmoves₁⟩ := h
  obtain ⟨hs₂, -, -⟩ := hs₁.request hensure hu hrun
  obtain ⟨rest, hrest⟩ := hs₁.head
  have hhead : ∀ v ∈ s₁.memberGuard.visiting.head?, g.DependsOn v u := by
    intro v hv
    rw [hrest] at hv
    rwa [← Option.some.inj hv]
  exact ⟨trivial, hs₂, hmoves₁.trans (hmoves hs₁.reached hhead hrun)⟩

theorem forM_request_moves {bases : List TypeId} (hbases : ∀ b ∈ bases, g.DependsOn t b)
    (hs : Within g options t s₀ s) (h : bases.forM ensure s = .ok ((), s')) : Moves g s s' := by
  have hall : List.Forall₂ (fun b b' => b' = b ∧ g.DependsOn t b) bases bases :=
    List.forall₂_same.2 fun b hb => ⟨rfl, hbases b hb⟩
  have hself : Lockstep True (Self fun s₁ => Within g options t s s₁ ∧ Moves g s s₁) Any
      (bases.forM ensure) (bases.forM ensure) :=
    .forM (fun b b' hb => by
      rw [hb.1]
      exact request_moves hensure hmoves hb.2) hall
  exact (hself.invariant ⟨hs.restart, .refl⟩ h).2

/-- Looking for semantics that `m` could take over is a sequence of moves. -/
theorem inheritedMethod?_moves (hs : Within g options t s₀ s) (hm : g.Owns t m)
    {isSpecified : Bool} {r : Option MethodSemantics}
    (h : inheritedMethod? g (methodSemanticsBy g ensure) m isSpecified s = .ok (r, s')) :
    Moves g s s' := by
  have hrecords : KeepsRecords True .refl {} (fun _ => False)
      (Self fun s₁ => Within g options t s s₁ ∧ Moves g s s₁) := {
    report := fun ds => .self fun s₁ _ s₂ hs₁ hrun => by
      obtain rfl := report_eq_ok hrun
      exact ⟨trivial, hs₁.1.changesAt (.report _ _ ds), hs₁.2.trans (Moves.report ds)⟩
    property := fun _ _ hk => hk.elim
    field := fun _ _ hk => hk.elim
    event := fun _ _ hk => hk.elim
    origin := fun _ _ hk => hk.elim
    counted := fun hminimize => absurd hminimize (by decide) }
  have hself : Lockstep True (Self fun s₁ => Within g options t s s₁ ∧ Moves g s s₁) Eq
      (inheritedMethod? g (methodSemanticsBy g ensure) m isSpecified)
      (inheritedMethod? g (methodSemanticsBy g ensure) (m.renumber .refl) isSpecified) :=
    inheritedMethod?_lockstep (.refl g) hrecords isSpecified fun b hb =>
      methodSemanticsBy_self fun y hy =>
        request_moves hensure hmoves (.inr ⟨m.id, m, hm.1, hm.2, b, hb, y, hy, rfl⟩)
  rw [MemberSymbol.renumber_refl] at hself
  exact (hself.invariant ⟨hs.restart, .refl⟩ h).2

end

/-! ## Names -/

/-- A member `m` is named by its final `name`, and it is recorded where that comes from. -/
theorem nameMember_eq_final {name : String} (h : nameMember ty m preferred names s =
      .ok ((name, names'), s')) : ∃ origin s₁,
    finalName ty preferred names s = .ok ((name, origin), s₁) ∧
      s' = { s₁ with origins := s₁.origins.insert m.id origin } := by
  unfold nameMember at h
  rw [run_bind_eq_ok] at h
  obtain ⟨⟨final, origin⟩, s₁, hfinal, h⟩ := h
  obtain ⟨hp, rfl⟩ := Prod.ext_iff.1 (Except.ok.inj h)
  obtain ⟨rfl, -⟩ := Prod.mk.inj hp
  exact ⟨origin, s₁, hfinal, rfl⟩

/-- Naming a member and recording the name is one move. -/
theorem nameMember_moves {name : String} (hm : g.Owns t m) (hty : g.type? t = some ty)
    (hempty : s.recordOf m.id = .empty)
    (h : nameMember ty m preferred names s = .ok ((name, names'), s₁))
    (change : s₁.ChangesAt (· = m.id) s') (origins : s'.origins = s₁.origins)
    (counts : s'.interfaceNames = s₁.interfaceNames)
    (record : (s'.recordOf m.id).name? = some name) : Moves g s s' := by
  obtain ⟨origin, s₂, hfinal, rfl⟩ := nameMember_eq_final h
  obtain ⟨⟨counts₂, rfl⟩, -⟩ := finalName_eq_ok hfinal
  refine .single (.named hm.1 (hm.2 ▸ hty) hempty hfinal (fun j hj => ?_) origins counts record)
  refine (change.records j hj).trans ?_
  rw [recordOf_insert_origins, if_neg (Ne.symm hj)]
  rfl

/-! ## Methods and accessors -/

section

include hensure hmoves

/-- A method without a record is resolved in a sequence of moves. -/
theorem resolveMethod_moves {x : MethodSemantics} (hs : Within g options t s₀ s) (hm : g.Owns t m)
    (hty : g.type? t = some ty) (hempty : s.recordOf m.id = .empty)
    (h : resolveMethod g (methodSemanticsBy g ensure) ty resolved m preferred names s =
      .ok ((x, names'), s')) : Moves g s s' := by
  obtain ⟨s₁, hclassify, rfl⟩ := resolveMethod_eq_ok h
  obtain ⟨-, -, rfl⟩ | ⟨ds, -, -, rfl⟩ | ⟨found, s₂, hinherited, hrest⟩ :=
    classifyMethod_eq_ok hclassify
  · exact Moves.method hempty x
  · exact (Moves.method hempty x).trans (Moves.report ds)
  have hmoves₂ := inheritedMethod?_moves hensure hmoves hs hm hinherited
  have hframed := inheritedMethod?_framed hensure hs hm hinherited
  have hempty₂ : s₂.recordOf m.id = .empty := (hframed.frame hm.declared not_false).trans hempty
  refine hmoves₂.trans ?_
  obtain ⟨-, -, rfl⟩ | ⟨-, hnamed⟩ := hrest
  · exact Moves.method hempty₂ x
  obtain ⟨-, ds, rfl⟩ | ⟨name, hx, hname⟩ := namedMethod_eq_ok hnamed
  · exact (Moves.method hempty₂ x).trans (Moves.report ds)
  · obtain ⟨-, counts, origin, rfl, -⟩ := nameMember_eq_ok hname
    have hfield : s₂.fields.find? m.id = none := congrArg MemberRecord.field hempty₂
    refine nameMember_moves hm hty hempty₂ hname (.method (K := (· = m.id)) _ rfl x) rfl rfl ?_
    simp only [recordOf, MemberRecord.name?, hfield, Table.find?_insert_self, Option.bind_some, hx]

theorem resolveAccessor?_moves (wf : g.WellFormed) {slot : AccessorSlot}
    {x : Option MethodSemantics} (hs : Within g options t s₀ s) (hm : g.Owns t m)
    (hty : g.type? t = some ty) (hempty : ∀ a, m.accessor? slot = some a → s.recordOf a = .empty)
    (h : (g.memberContext options ensure ty resolved).resolveAccessor? m slot preferred names s =
      .ok ((x, names'), s')) : Moves g s s' := by
  obtain ⟨-, -, -, rfl⟩ | ⟨a, y, ha, -, haccessor⟩ := MemberContext.resolveAccessor?_eq_ok h
  · exact .refl
  obtain ⟨z, ds, name, hz, -, hmethod⟩ := MemberContext.resolveAccessor_eq_ok haccessor
  have hown : g.Owns t z := (hm.accessor wf ha).2 z hz
  obtain rfl := wf.member_id hz
  have hreported := hs.changesAt (.report (g.Declared t) _ ds)
  exact (Moves.report ds).trans
    (resolveMethod_moves hensure hmoves hreported hown hty (hempty z.id ha) hmethod)

/-- The accessors of `m` in the places `slot` and `slot'` are resolved one after the other. -/
theorem resolveAccessors_moves (wf : g.WellFormed) {slot slot' : AccessorSlot}
    (hslot : slot ≠ slot') {x x' : Option MethodSemantics} {names₁ : NameRegistry}
    (hs : Within g options t s₀ s) (hm : g.Owns t m) (hty : g.type? t = some ty)
    (hempty : ∀ a ∈ m.accessors, s.recordOf a = .empty)
    (h : (g.memberContext options ensure ty resolved).resolveAccessor? m slot preferred names s =
      .ok ((x, names₁), s₁))
    (h' : (g.memberContext options ensure ty resolved).resolveAccessor? m slot' preferred names₁ s₁
      = .ok ((x', names'), s')) : Moves g s s' := by
  have hrecord {place : AccessorSlot} {a : MemberId} (ha : m.accessor? place = some a) :
      s.recordOf a = .empty := hempty a (MemberSymbol.mem_accessors.2 ⟨place, ha⟩)
  obtain ⟨hframed, -, -⟩ := resolveAccessor?_embeds hensure wf hs hm (fun _ ha => hrecord ha) h
  have hempty₁ (a : MemberId) (ha : m.accessor? slot' = some a) : s₁.recordOf a = .empty := by
    refine (hframed.frame (hm.accessor wf ha).1 fun ha' => hslot ?_).trans (hrecord ha)
    exact wf.slot_unique hm.1 ha' ha
  exact (resolveAccessor?_moves hensure hmoves wf hs hm hty (fun _ ha => hrecord ha) h).trans
    (resolveAccessor?_moves hensure hmoves wf hframed.toWithin hm hty hempty₁ h')

end

/-! ## Members of all kinds -/

theorem LeftOut.moves (h : LeftOut m s s') (hempty : s.recordOf m.id = .empty) : Moves g s s' := by
  cases h with
  | method hkind => exact Moves.method hempty .notUsable
  | property hkind => exact Moves.of_changesAt hempty (.property (K := (· = m.id)) s rfl _) rfl rfl
  | field hkind => exact Moves.of_changesAt hempty (.field (K := (· = m.id)) s rfl _) rfl rfl
  | event hkind => exact Moves.of_changesAt hempty (.event (K := (· = m.id)) s rfl _) rfl rfl

theorem LeftOut.frame (h : LeftOut m s s') {k : MemberId} (hk : k ≠ m.id) :
    s'.recordOf k = s.recordOf k := by
  cases h with
  | method hkind => rw [recordOf_insert_methods, if_neg hk.symm]
  | property hkind => rw [recordOf_insert_properties, if_neg hk.symm]
  | field hkind => rw [recordOf_insert_fields, if_neg hk.symm]
  | event hkind => rw [recordOf_insert_events, if_neg hk.symm]

/-- No accessor of `m` has two places. -/
theorem TypeGraph.Owns.nodup_accessors (wf : g.WellFormed) (hm : g.Owns t m) :
    m.accessors.Nodup :=
  .filterMap (fun _ _ _ ha ha' => wf.slot_unique hm.1 ha ha') (by decide)

theorem forM_recordMethod_moves {as : List MemberId} {x : MethodSemantics} (hnodup : as.Nodup)
    (hempty : ∀ a ∈ as, s.recordOf a = .empty)
    (h : as.forM (recordMethod · x) s = .ok ((), s')) : Moves g s s' := by
  induction as generalizing s with
  | nil =>
    obtain ⟨-, rfl⟩ := run_pure_eq_ok.1 h
    exact .refl
  | cons a as ih =>
    change (recordMethod a x >>= fun _ => as.forM (recordMethod · x)) s = _ at h
    rw [run_bind_eq_ok] at h
    obtain ⟨_, s₁, hrecord, h⟩ := h
    obtain rfl := recordMethod_eq_ok hrecord
    obtain ⟨hnot, hnodup⟩ := List.nodup_cons.1 hnodup
    refine (Moves.method (hempty a (.head _)) x).trans (ih hnodup (fun b hb => ?_) h)
    rw [recordOf_insert_methods, if_neg (ne_of_mem_of_not_mem hb hnot).symm]
    exact hempty b (.tail _ hb)

/-- Leaving a member out of script is a sequence of moves. -/
theorem markNotUsable_moves (wf : g.WellFormed) (hm : g.Lists t m)
    (hempty : ∀ k, m.Covers k → s.recordOf k = .empty) (h : markNotUsable m s = .ok ((), s')) :
    Moves g s s' := by
  obtain ⟨s₁, hfirst, hrest⟩ := markNotUsable_eq_ok h
  have hother {a : MemberId} (ha : a ∈ m.accessors) : a ≠ m.id := by
    rintro rfl
    exact hm.not_mem_accessors wf ha
  refine (hfirst.moves (hempty m.id (.inl rfl))).trans
    (forM_recordMethod_moves (hm.1.nodup_accessors wf) (fun a ha => ?_) hrest)
  exact (hfirst.frame (hother ha)).trans (hempty a (.inr ha))

section

include hensure hmoves

/-- A member other than a method is resolved in a sequence of moves, with its own record last. -/
theorem resolveDataMember_moves (wf : g.WellFormed) (hs : Within g options t s₀ s)
    (hm : g.Lists t m) (hty : g.type? t = some ty)
    (hempty : ∀ k, m.Covers k → s.recordOf k = .empty)
    (h : (g.memberContext options ensure ty resolved).resolveDataMember m preferred names s =
      .ok (names', s')) : Moves g s s' := by
  have hown : s.recordOf m.id = .empty := hempty m.id (.inl rfl)
  have haccessors (a : MemberId) (ha : a ∈ m.accessors) : s.recordOf a = .empty :=
    hempty a (.inr ha)
  have hlast {s s₁ : ResolutionState} (hs₁ : Framed g options t (· ∈ m.accessors) s s₁)
      (hown : s.recordOf m.id = .empty) : s₁.recordOf m.id = .empty :=
    (hs₁.frame hm.1.declared (hm.not_mem_accessors wf)).trans hown
  obtain ⟨-, hmark⟩ | ⟨-, -, rfl⟩ | ⟨data, x, s₁, hkind, hclassify, rfl⟩ |
    ⟨name, s₁, -, hname, rfl⟩ |
    ⟨data, adder, remover, names₁, s₁, s₂, hkind, hadder, hremover, rfl⟩ :=
    MemberContext.resolveDataMember_eq_ok h
  · exact markNotUsable_moves wf hm hempty hmark
  · exact .refl
  · have hproperty {s₁ : ResolutionState} (hs₁ : s₁.recordOf m.id = .empty) :
        Moves g s₁ { s₁ with properties := s₁.properties.insert m.id x } :=
      Moves.of_changesAt hs₁ (.property (K := (· = m.id)) s₁ rfl x) rfl rfl
    cases MemberContext.classifyProperty_eq_ok hclassify with
    | direct _ _ _ ds hstate =>
      subst hstate
      exact (hproperty hown).trans (Moves.report ds)
    | accessed _ ds haccessed =>
      obtain ⟨getter, setter, names₁, s₂, rfl, hgetter, hsetter⟩ :=
        MemberContext.accessedProperty_eq_ok haccessed
      have hreported := hs.changesAt (.report (g.Declared t) _ ds)
      have hslots (a : MemberId) (ha : a ∈ m.accessors) :
          m.accessor? .getter = some a ∨ m.accessor? .setter = some a :=
        MemberSymbol.accessor?_of_property hkind ha
      obtain ⟨hframed, -⟩ := resolveAccessors_embed hensure wf hreported hm.1 (by decide) hslots
        haccessors hgetter hsetter
      exact ((Moves.report ds).trans (resolveAccessors_moves hensure hmoves wf (by decide) hreported
        hm.1 hty haccessors hgetter hsetter)).trans (hproperty (hlast hframed hown))
  · obtain ⟨-, counts, origin, rfl, -⟩ := nameMember_eq_ok hname
    refine nameMember_moves hm.1 hty hown hname
      (.field (K := (· = m.id)) _ rfl (.field name)) rfl rfl ?_
    simp only [recordOf, MemberRecord.name?, Table.find?_insert_self, FieldSemantics.name?]
  · have hslots (a : MemberId) (ha : a ∈ m.accessors) :
        m.accessor? .adder = some a ∨ m.accessor? .remover = some a :=
      MemberSymbol.accessor?_of_event hkind ha
    obtain ⟨hframed, -⟩ := resolveAccessors_embed hensure wf hs hm.1 (by decide) hslots
      haccessors hadder hremover
    have hevent : Moves g s₂ { s₂ with
        events := s₂.events.insert m.id (.addAndRemove adder remover) } :=
      Moves.of_changesAt (hlast hframed hown) (.event (K := (· = m.id)) s₂ rfl _) rfl rfl
    exact (resolveAccessors_moves hensure hmoves wf (by decide) hs hm.1 hty haccessors hadder
      hremover).trans hevent

theorem resolveMember_moves (wf : g.WellFormed) (hs : Within g options t s₀ s)
    (hm : g.Lists t m) (hty : g.type? t = some ty)
    (hempty : ∀ k, m.Covers k → s.recordOf k = .empty)
    (h : (g.memberContext options ensure ty resolved).resolveMember m preferred names s =
      .ok (names', s')) : Moves g s s' := by
  obtain ⟨-, x, hmethod⟩ | ⟨-, hdata⟩ := MemberContext.resolveMember_eq_ok h
  · exact resolveMethod_moves hensure hmoves hs hm.1 hty (hempty m.id (.inl rfl)) hmethod
  · exact resolveDataMember_moves hensure hmoves wf hs hm hty hempty hdata

/-! ## All members of a type -/

omit hensure hmoves in
/-- A step that only runs `x` continues a sequence of moves if `x` is one. -/
theorem settles_moves_of_run {x : Resolve Unit}
    (hframed : ∀ s, Lockstep True (Self (Framed g options t m.Covers s)) Any x x)
    (hx : ∀ ⦃s s'⦄, (∀ k, m.Covers k → s.recordOf k = .empty) → x s = .ok ((), s') →
      Moves g s s') (start : ResolutionState) :
    Settles False g options t (fun _ s => Moves g start s) (fun _ _ => True) m fun names => do
      x
      return names := by
  intro s₀ s names hs hstart hempty
  refine .intro False.elim fun names' s' h => ?_
  rw [run_bind_eq_ok] at h
  obtain ⟨_, s₁, hrun, h⟩ := h
  obtain ⟨-, rfl⟩ := run_pure_eq_ok.1 h
  exact ⟨(hframed s).invariant (.start hs _) hrun, hstart.trans (hx hempty hrun), trivial⟩

/-- The members of `ty` are processed in a sequence of moves. -/
theorem processMembers_moves (wf : g.WellFormed) (hty : g.type? t = some ty)
    (hs : Within g options t s₀ s) (hempty : ∀ k, g.Declared t k → s.recordOf k = .empty)
    (h : processMembers g options ensure ty resolved s = .ok (names', s')) : Moves g s s' := by
  obtain ⟨bases, s₁, hbases, hrequests, husable, hunusable⟩ := processMembers_eq_ok h
  have hdepends (b : TypeId) (hb : b ∈ bases) : g.DependsOn t b :=
    .inl (TypeGraph.inherits_of_mem_allBaseTypes hty hbases b hb)
  obtain ⟨hs₁, hextends, -⟩ := forM_request hensure hdepends hs hrequests
  have hmoves₁ := forM_request_moves hensure hmoves hdepends hs hrequests
  have hempty₁ (k : MemberId) (hk : g.Declared t k) : s₁.recordOf k = .empty :=
    (hs.recordOf_meanwhile hextends hk).trans (hempty k hk)
  have stable : DependsOnRecords fun _ _ => True := fun _ _ _ _ _ => trivial
  refine hmoves₁.trans ?_
  by_cases hresolved : resolved.isUsable
  · have settles : SettlesMembers False (g.memberContext options ensure ty resolved) t
        (fun _ s => Moves g s₁ s) fun _ _ => True := {
      report := fun _ _ ds hstart => hstart.trans (Moves.report ds)
      member := fun m hm preferred hpreferred s₂ s names hs hstart hempty =>
        .intro False.elim fun _ _ hrun =>
          ⟨resolveMember_framed hensure wf hs hm hpreferred hrun,
            hstart.trans (resolveMember_moves hensure hmoves wf hs hm hty hempty hrun), trivial⟩
      alternate := fun p hp => by
        have hown : g.Owns t p.1 := (owns_of_mem_alternates wf hty hp).1
        have hcovers (k : MemberId) (hk : p.1.Covers k) : g.Declared t k :=
          hown.declared_of_covers wf hk
        refine settles_moves_of_run (fun s => resolveAlternate_framed hcovers (.inl rfl) p.2)
          (fun s s' hempty hrun => ?_) s₁
        obtain ⟨x, rfl⟩ := resolveAlternate_eq_ok hrun
        exact Moves.method (hempty p.1.id (.inl rfl)) x }
    obtain ⟨-, hstart, -⟩ :=
      (resolveMembers_settles wf stable settles hty hs₁ .refl hempty₁).of_ok (husable hresolved)
    exact hstart
  · obtain ⟨hmark, -⟩ := hunusable hresolved
    have hrun : (do
        (g.canonicalMembers ty).forM markNotUsable
        return names' : Resolve NameRegistry) s₁ = .ok (names', s') :=
      run_bind_eq_ok.2 ⟨(), s', hmark, rfl⟩
    obtain ⟨-, hstart, -⟩ := (forM_markNotUsable_settles wf stable hty hs₁ .refl hempty₁
      fun m hm => settles_moves_of_run (markNotUsable_framed wf hm hresolved)
        (fun _ _ hempty hmark => markNotUsable_moves wf hm hempty hmark) s₁).of_ok hrun
    exact hstart

end

end

/-! ## Resolutions -/

section

variable {g : TypeGraph} {options : Options} {s s' : ResolutionState}

theorem ensureMembersWithin_moves (wf : g.WellFormed) (steps : Nat) :
    MakesMoves g options (ensureMembersWithin g options steps) := by
  induction steps with
  | zero => exact fun _ _ _ _ _ h => nomatch h
  | succ steps ih =>
    intro t s s' hs hhead h
    obtain ⟨-, rfl⟩ | ⟨hdone, resolved, s₁, ty, hresolve, hty, hrest⟩ := ensureMembersBy_eq_ok h
    · exact .refl
    obtain ⟨hgrow, hfit, -⟩ := ensureType_spec hs.sound.types hresolve
    refine hgrow.moves.trans ?_
    obtain ⟨-, rfl⟩ | ⟨henter, names, s₂, hrun, rfl⟩ := hrest
    · exact .refl
    have hs₁ := hs.grow hgrow hfit
    have hfresh : ¬s₁.Begun t := hgrow.not_begun_of_enter hdone henter
    rw [← hgrow.memberGuard] at hhead
    have hbegin : Within g options t (s₁.begin t) (s₁.begin t) :=
      ⟨hs₁.begin hfresh hhead, .refl _ _ _, _, rfl⟩
    have hempty (k : MemberId) (hk : g.Declared t k) : (s₁.begin t).recordOf k = .empty := by
      obtain ⟨x, hx, hxt⟩ := hk
      exact hs₁.sound.recordOf_eq_empty hfresh hx hxt
    have hprocess : Moves g (s₁.begin t) s₂ :=
      processMembers_moves (ensureMembersWithin_spec wf steps) ih wf hty hbegin hempty hrun
    have hstart : Moves g s₁ (s₁.begin t) := Moves.of_aside (fun _ => rfl) rfl rfl
    have hfinish : Moves g s₂ (s₂.finish t names) := Moves.of_aside (fun _ => rfl) rfl rfl
    exact (hstart.trans hprocess).trans hfinish

theorem forM_resolveRoot_moves (wf : g.WellFormed) {roots : List TypeId}
    (hs : s.Reached g options) (hvisiting : s.memberGuard.visiting = [])
    (h : roots.forM (resolveRoot g options) s = .ok ((), s')) : Moves g s s' := by
  induction roots generalizing s with
  | nil =>
    obtain ⟨-, rfl⟩ := run_pure_eq_ok.1 h
    exact .refl
  | cons t roots ih =>
    change (resolveRoot g options t >>= fun _ => roots.forM (resolveRoot g options)) s = _ at h
    rw [run_bind_eq_ok] at h
    obtain ⟨_, s₂, hroot, h⟩ := h
    have hone : [t].forM (resolveRoot g options) s = .ok ((), s₂) :=
      run_bind_eq_ok.2 ⟨(), s₂, hroot, rfl⟩
    obtain ⟨hs₂, hvisiting₂⟩ := reached_of_forM_resolveRoot wf hs hvisiting hone
    rw [resolveRoot, run_bind_eq_ok] at hroot
    obtain ⟨resolved, s₁, hresolve, hmembers⟩ := hroot
    obtain ⟨hgrow, hfit, -⟩ := ensureType_spec hs.sound.types hresolve
    have hhead : ∀ u ∈ s₁.memberGuard.visiting.head?, g.DependsOn u t := by
      intro u hu
      rw [hgrow.memberGuard, hvisiting] at hu
      cases hu
    exact (hgrow.moves.trans (ensureMembersWithin_moves wf _ (hs.grow hgrow hfit) hhead
      hmembers)).trans (ih hs₂ hvisiting₂ h)

/-- A resolution is a sequence of moves. -/
theorem moves_of_resolve (wf : g.WellFormed) {roots : List TypeId} {main : AssemblyId}
    {r : Resolution} (h : g.resolve options roots main = .ok r) :
    ∃ s : ResolutionState, r = s.toResolution ∧ Moves g .initial s := by
  obtain ⟨sorted, s, -, hrun, rfl⟩ := resolve_eq_ok h
  exact ⟨s, rfl, forM_resolveRoot_moves wf (.initial g options) rfl hrun⟩

end

end ScriptNaming
