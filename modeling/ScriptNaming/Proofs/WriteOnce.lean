import ScriptNaming.Proofs.Course

/-!
# Tables are written once

Whatever is asked for in the course of a resolution, no entry of a table is changed by it, and no
type has its members processed twice (`tables_write_once`). This goes for all graphs that
declarations put together, also where types inherit from each other and members override each
other, so that types are asked for while their members are processed.

`InRun` has the states in which a resolution can make a request: between the steps by which it
resolves types, begins with the members of a type and records something about them. A resolution
goes through such states only (`inRun_of_resolve`, `processMembers_requests`).
-/

namespace ScriptNaming

open ResolutionState

/-- Every entry in the tables of a state is also in those of another one, with the same value. -/
structure ResolutionState.KeepsTables (s s' : ResolutionState) : Prop where
  types : ∀ t r, s.types.find? t = some r → s'.types.find? t = some r
  methods : ∀ m x, s.methods.find? m = some x → s'.methods.find? m = some x
  properties : ∀ m x, s.properties.find? m = some x → s'.properties.find? m = some x
  fields : ∀ m x, s.fields.find? m = some x → s'.fields.find? m = some x
  events : ∀ m x, s.events.find? m = some x → s'.events.find? m = some x
  memberNames : ∀ t names, s.memberNames.find? t = some names →
    s'.memberNames.find? t = some names

/-- The states in the midst of a resolution, each with the types whose members have been begun
before, in that order. -/
inductive InRun (g : TypeGraph) (options : Options) : List TypeId → ResolutionState → Prop
  | initial : InRun g options [] .initial
  | type {l : List TypeId} {s s' : ResolutionState} {t : TypeId} {resolved : ResolvedType}
    (before : InRun g options l s) (run : ensureType g options t s = .ok (resolved, s')) :
    InRun g options l s'
  /-- A type is about to be resolved, after the type around it. -/
  | enterType {l : List TypeId} {s : ResolutionState} {t : TypeId} {guard : Guard}
    (before : InRun g options l s) (enter : s.typeGuard.enter t = .entered guard) :
    InRun g options l { s with typeGuard := guard }
  | begin {l : List TypeId} {s : ResolutionState} {t : TypeId} {guard : Guard}
    (before : InRun g options l s) (undone : ¬s.memberNames.contains t)
    (enter : s.memberGuard.enter t = .entered guard) :
    InRun g options (l ++ [t]) { s with memberGuard := guard }
  /-- Something happens while the latest of the types in progress is processed. -/
  | course {l l' : List TypeId} {s s' : ResolutionState} (before : InRun g options l s)
    (course : Course g options s.memberGuard.visiting.head? s l' s') : InRun g options (l ++ l') s'

section

variable {g : TypeGraph} {options : Options} {l : List TypeId} {s s' : ResolutionState}

/-- In the midst of a resolution the tables are tidy, and each of the types that have been begun has
been begun once. -/
theorem InRun.tidy (h : InRun g options l s) :
    s.Tidy g options ∧ l.Nodup ∧ ∀ t, t ∈ l ↔ s.Begun t := by
  induction h with
  | initial =>
    refine ⟨.initial g options, .nil, fun t => ⟨fun h => (nomatch h), fun h => ?_⟩⟩
    rcases h with h | h
    · cases h
    · cases h
  | type before run ih =>
    obtain ⟨hs, hnodup, hbegun⟩ := ih
    obtain ⟨hs', hgrow, -⟩ := hs.ensureType run
    exact ⟨hs', hnodup, fun t => (hbegun t).trans hgrow.begun_iff.symm⟩
  | enterType before enter ih =>
    obtain ⟨hs, hnodup, hbegun⟩ := ih
    exact ⟨{ hs with typesCounted := hs.typesCounted.enter enter }, hnodup, hbegun⟩
  | @begin l s t guard before undone enter ih =>
    obtain ⟨hs, hnodup, hbegun⟩ := ih
    have fresh : ¬s.Begun t := (TypesGrow.refl s).not_begun_of_enter undone enter
    obtain ⟨-, -, rfl⟩ := Guard.enter_eq_entered_iff.1 enter
    have ht : t ∉ l := fun h => fresh ((hbegun t).1 h)
    refine ⟨hs.begin fresh, ?_, fun u => ?_⟩
    · exact hnodup.append (List.nodup_singleton t) (List.disjoint_singleton.2 ht)
    · rw [List.mem_append, List.mem_singleton, hbegun, or_comm]
      exact begun_begin_iff.symm
  | @course l l' s s' before course ih =>
    obtain ⟨hs, hnodup, hbegun⟩ := ih
    have houtcome := course.outcome hs fun t ht => List.mem_of_mem_head? ht
    refine ⟨houtcome.tidy, ?_, fun t => ?_⟩
    · exact hnodup.append houtcome.nodup fun t ht ht' => houtcome.fresh t ht' ((hbegun t).1 ht)
    · rw [List.mem_append]
      constructor
      · rintro (ht | ht)
        · exact houtcome.grown.begun ((hbegun t).1 ht)
        · exact .inl (houtcome.done t ht)
      · intro ht
        exact (houtcome.begun t ht).imp_left (hbegun t).2

/-! ## What requests keep -/

/-- A course that works on none of the types in progress changes no entry of `s`: members with a
record belong to types that have been begun before. -/
theorem CourseOutcome.keepsTables (h : CourseOutcome g options none s l s')
    (hs : s.Tidy g options) : s.KeepsTables s' := by
  have hrecord {m : MemberId} (hm : s.recordOf m ≠ .empty) : s'.recordOf m = s.recordOf m := by
    obtain ⟨x, hx, hdone | hvisiting⟩ := hs.records hm
    · exact h.grown.records hx hdone
    · exact h.grown.inProgress hx hvisiting (Option.some_ne_none _).symm
  -- A member with an entry has a record, so that all its entries stay.
  have hentry {α : Type} (entry : MemberRecord → Option α) (hempty : entry .empty = none)
      {m : MemberId} {x : α} (hx : entry (s.recordOf m) = some x) :
      entry (s'.recordOf m) = some x := by
    rw [hrecord, hx]
    intro hm
    rw [hm, hempty] at hx
    cases hx
  exact {
    types := fun _ _ ht => h.grown.types ht
    methods := fun _ _ hx => hentry MemberRecord.method rfl hx
    properties := fun _ _ hx => hentry MemberRecord.property rfl hx
    fields := fun _ _ hx => hentry MemberRecord.field rfl hx
    events := fun _ _ hx => hentry MemberRecord.event rfl hx
    memberNames := fun _ _ ht => h.grown.names ht }

theorem ResolutionState.TypesGrow.keepsTables (h : s.TypesGrow s') : s.KeepsTables s' where
  types _ _ ht := h.types ht
  methods _ _ hx := by rwa [h.methods]
  properties _ _ hx := by rwa [h.properties]
  fields _ _ hx := by rwa [h.fields]
  events _ _ hx := by rwa [h.events]
  memberNames _ _ ht := by rwa [h.memberNames]

variable (wf : g.WellFormed)

include wf

theorem ResolutionState.Tidy.keepsTables_of_ensureMembers (hs : s.Tidy g options) {steps : Nat}
    {t : TypeId} (h : ensureMembersWithin g options steps t s = .ok ((), s')) :
    s.KeepsTables s' := by
  obtain ⟨⟨l, hcourse⟩, -⟩ := course_of_ensureMembersWithin wf steps none hs h
  exact (hcourse.outcome hs fun _ ht => nomatch ht).keepsTables hs

omit wf in
/-- The semantics of a method are there, or the members of its type are asked for. -/
theorem methodSemanticsBy_eq_ok {ensure : TypeId → Resolve Unit} {b : MemberId}
    {r : Option MethodSemantics} (h : methodSemanticsBy g ensure b s = .ok (r, s')) :
    s' = s ∨ ∃ t, ensure t s = .ok ((), s') := by
  unfold methodSemanticsBy at h
  rw [run_get_bind] at h
  cases hfound : s.methods.find? b with
  | some semantics =>
    rw [hfound] at h
    exact .inl (run_pure_eq_ok.1 h).2
  | none =>
    rw [hfound] at h
    cases hmember : g.member? b with
    | none =>
      rw [hmember] at h
      exact .inl (run_pure_eq_ok.1 h).2
    | some y =>
      rw [hmember] at h
      dsimp only at h
      rw [run_bind_eq_ok] at h
      obtain ⟨_, s₁, hrun, h⟩ := h
      rw [run_get_bind] at h
      obtain ⟨-, rfl⟩ := run_pure_eq_ok.1 h
      exact .inr ⟨y.declaringType, hrun⟩

theorem ResolutionState.Tidy.keepsTables_of_methodSemantics (hs : s.Tidy g options) {steps : Nat}
    {b : MemberId} {r : Option MethodSemantics}
    (h : methodSemanticsBy g (ensureMembersWithin g options steps) b s = .ok (r, s')) :
    s.KeepsTables s' := by
  obtain rfl | ⟨t, hrun⟩ := methodSemanticsBy_eq_ok h
  · exact (TypesGrow.refl s').keepsTables
  · exact hs.keepsTables_of_ensureMembers wf hrun

/-! ## The states of resolutions -/

/-- The processing of the members of `ty` depends on requests only in states in the midst of the
resolution: where these are answered in the same way, it comes to the same. -/
theorem processMembers_requests {t : TypeId} {ty : TypeSymbol} (hty : g.type? t = some ty)
    (hs : InRun g options l s) (hhead : s.memberGuard.visiting.head? = some t) {steps : Nat}
    {ensure : TypeId → Resolve Unit}
    (hensure : ∀ l s, InRun g options l s → ∀ u,
      ensure u s = ensureMembersWithin g options steps u s) (resolved : ResolvedType) :
    SameOutcome True (fun p q => p.1.SameNames q.1 ∧ p.2 = q.2)
      (processMembers g options ensure ty resolved s)
      (processMembers g options (ensureMembersWithin g options steps) ty resolved s) := by
  let I (s : ResolutionState) : Prop :=
    (∃ l, InRun g options l s) ∧ s.memberGuard.visiting.head? = some t
  have keeps : KeepsChanges (g.Declared t) I := by
    rintro s s' ⟨⟨l, hs⟩, hhead⟩ change
    have hcourse : Course g options s.memberGuard.visiting.head? s [] s' := hhead ▸ .record change
    exact ⟨⟨_, hs.course hcourse⟩, by rw [change.memberGuard, hhead]⟩
  have hrequests (u : TypeId) (_ : g.DependsOn t u) :
      Lockstep True (Self I) Any (ensure u) (ensureMembersWithin g options steps u) := by
    rintro s _ ⟨rfl, ⟨l, hs⟩, hhead⟩
    rw [hensure l s hs]
    cases hrun : ensureMembersWithin g options steps u s with
    | error e => trivial
    | ok p =>
      obtain ⟨⟨⟩, s'⟩ := p
      obtain ⟨⟨l', hcourse⟩, -⟩ :=
        course_of_ensureMembersWithin wf steps s.memberGuard.visiting.head? hs.tidy.1 hrun
      have houtcome := hcourse.outcome hs.tidy.1 fun t ht => List.mem_of_mem_head? ht
      exact ⟨trivial, rfl, ⟨_, hs.course hcourse⟩, by rw [houtcome.grown.memberGuard, hhead]⟩
  refine ((keeps.processMembers wf hrequests hty) ⟨rfl, ⟨l, hs⟩, hhead⟩).mono ?_
  exact fun p q hpq => ⟨hpq.1, hpq.2.1⟩

theorem inRun_of_forM_resolveRoot {roots : List TypeId} (hs : InRun g options l s)
    (h : roots.forM (resolveRoot g options) s = .ok ((), s')) : ∃ l', InRun g options l' s' := by
  induction roots generalizing l s with
  | nil =>
    obtain ⟨-, rfl⟩ := run_pure_eq_ok.1 h
    exact ⟨l, hs⟩
  | cons t roots ih =>
    change (resolveRoot g options t >>= fun _ => roots.forM (resolveRoot g options)) s = _ at h
    rw [run_bind_eq_ok] at h
    obtain ⟨_, s₂, hroot, h⟩ := h
    rw [resolveRoot, run_bind_eq_ok] at hroot
    obtain ⟨resolved, s₁, htype, hmembers⟩ := hroot
    have hs₁ := hs.type htype
    obtain ⟨⟨l', hcourse⟩, -⟩ :=
      course_of_ensureMembersWithin wf _ s₁.memberGuard.visiting.head? hs₁.tidy.1 hmembers
    exact ih (hs₁.course hcourse) h

omit wf in
/-- A resolution ends in such a state. -/
theorem inRun_of_resolve (hg : g.Built) {roots : List TypeId} {main : AssemblyId} {r : Resolution}
    (h : g.resolve options roots main = .ok r) :
    ∃ l s, InRun g options l s ∧ r = s.toResolution := by
  obtain ⟨sorted, s, -, hrun, rfl⟩ := resolve_eq_ok h
  obtain ⟨l, hs⟩ := inRun_of_forM_resolveRoot hg.wellFormed .initial hrun
  exact ⟨l, s, hs, rfl⟩

end

/-- **Tables are written once**: in the midst `s` of a resolution, resolving a type, resolving the
members of a type and asking for the semantics of a method keep every entry of every table. Each of
the types `l` that have been begun has been begun once. -/
theorem tables_write_once {g : TypeGraph} (hg : g.Built) {options : Options} {l : List TypeId}
    {s : ResolutionState} (hs : InRun g options l s) :
    (∀ t resolved s', ensureType g options t s = .ok (resolved, s') → s.KeepsTables s') ∧
    (∀ steps t s', ensureMembersWithin g options steps t s = .ok ((), s') → s.KeepsTables s') ∧
    (∀ steps b r s', methodSemanticsBy g (ensureMembersWithin g options steps) b s = .ok (r, s') →
      s.KeepsTables s') ∧
    l.Nodup ∧ ∀ t, t ∈ l ↔ s.Begun t := by
  obtain ⟨htidy, hnodup, hbegun⟩ := hs.tidy
  refine ⟨fun t resolved s' h => ?_, fun steps t s' h => ?_, fun steps b r s' h => ?_, hnodup,
    hbegun⟩
  · obtain ⟨-, hgrow, -⟩ := htidy.ensureType h
    exact hgrow.keepsTables
  · exact htidy.keepsTables_of_ensureMembers hg.wellFormed h
  · exact htidy.keepsTables_of_methodSemantics hg.wellFormed h

/-- Two classes that inherit from each other, with methods that override each other. -/
def mutualHeirs : Except Fault TypeGraph := do
  let (g, zoo) := TypeGraph.declareAssembly ∅ "Zoo"
  let (g, cat) ← g.declareType zoo { name := "Cat", baseTypes := [⟨1⟩] }
  let (g, dog) ← g.declareType zoo { name := "Dog", baseTypes := [cat] }
  let (g, meow) ← g.declareMethod cat
    { name := "Speak", modifiers := { isOverride := true }, overrides := some ⟨1⟩ }
  let (g, _) ← g.declareMethod dog
    { name := "Speak", modifiers := { isOverride := true }, overrides := some meow }
  return g

/-- The graph of the two classes. -/
def heirGraph : TypeGraph := mutualHeirs.toOption.getD ∅

theorem built_heirGraph : heirGraph.Built := by
  have hg : mutualHeirs = .ok heirGraph := eq_ok_getD (by decide +kernel)
  obtain ⟨⟨g₁, cat⟩, hcat, h⟩ := bind_eq_ok.1 hg
  obtain ⟨⟨g₂, dog⟩, hdog, h⟩ := bind_eq_ok.1 h
  obtain ⟨⟨g₃, meow⟩, hmeow, h⟩ := bind_eq_ok.1 h
  obtain ⟨⟨g₄, bark⟩, hbark, h⟩ := bind_eq_ok.1 h
  rw [← Except.ok.inj h]
  exact .method (.method (.type (.type (.assembly .empty "Zoo") hcat) hdog) hmeow) hbark

/-- The second class is asked for while the members of the first one are processed. -/
theorem heirs_write_once :
    heirGraph.Built ∧ ∃ s s', InRun heirGraph {} [⟨0⟩] s ∧ s.Begun ⟨0⟩ ∧
      ensureMembersWithin heirGraph {} 3 ⟨1⟩ s = .ok ((), s') ∧ s'.Done ⟨1⟩ ∧
      s.KeepsTables s' := by
  have hrun : (ensureType heirGraph {} ⟨0⟩ .initial).toOption.any fun p =>
      ¬p.2.memberNames.contains ⟨0⟩ ∧
        p.2.memberGuard.enter ⟨0⟩ = .entered (p.2.begin ⟨0⟩).memberGuard ∧
        (ensureMembersWithin heirGraph {} 3 ⟨1⟩ (p.2.begin ⟨0⟩)).toOption.any fun q =>
          q.2.memberNames.contains ⟨1⟩ := by
    decide +kernel
  obtain ⟨⟨resolved, s⟩, htype, hrest⟩ := exists_of_any_toOption hrun
  obtain ⟨hundone, henter, hmembers⟩ := of_decide_eq_true hrest
  obtain ⟨⟨⟨⟩, s'⟩, hrequest, hdone⟩ := exists_of_any_toOption hmembers
  have hs : InRun heirGraph {} [⟨0⟩] (s.begin ⟨0⟩) := (InRun.initial.type htype).begin hundone henter
  obtain ⟨-, hkeeps, -, -, hbegun⟩ := tables_write_once built_heirGraph hs
  exact ⟨built_heirGraph, s.begin ⟨0⟩, s', hs, (hbegun ⟨0⟩).1 (.head _), hrequest, hdone,
    hkeeps 3 ⟨1⟩ s' hrequest⟩

end ScriptNaming
