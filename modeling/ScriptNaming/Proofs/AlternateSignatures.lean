import ScriptNaming.Proofs.NamingOrder
import ScriptNaming.Proofs.Representability

/-!
# Alternate signatures

A method with an `AlternateSignature` stands for the one other method of its type that shares its
name and has no such marker (`TypeGraph.StandsFor`). It gets no name of its own: the members that
are named come first, and then each alternate signature takes over what its main method came to
(`MemberContext.TakesOver`). By then the main method has its entry, in whatever way it was resolved,
so that there is always something to take over (`MemberContext.TakesOver.follows`), and since
entries stay as they are, the alternate signature still follows its main method in the end
(`alternates_follow_main`).
-/

namespace ScriptNaming

open ResolutionState

/-! ## Main methods -/

/-- The method `a` of a type is an alternate signature of its method `main`: that is the only method
with the same name without an `AlternateSignature`. -/
structure TypeGraph.StandsFor (g : TypeGraph) (ty : TypeSymbol) (a main : MemberSymbol) : Prop where
  own : a ∈ g.membersOf ty
  method : a.isMethod
  marked : a.has .alternateSignature
  mainOwn : main ∈ g.membersOf ty
  mainMethod : main.isMethod
  sameName : main.name = a.name
  unmarked : ¬main.has .alternateSignature
  only : ∀ x ∈ g.membersOf ty, x.isMethod → x.name = a.name → ¬x.has .alternateSignature → x = main

instance (g : TypeGraph) (ty : TypeSymbol) (a main : MemberSymbol) :
    Decidable (g.StandsFor ty a main) :=
  decidable_of_iff (a ∈ g.membersOf ty ∧ a.isMethod ∧ a.has .alternateSignature ∧
      main ∈ g.membersOf ty ∧ main.isMethod ∧ main.name = a.name ∧
      ¬main.has .alternateSignature ∧ ∀ x ∈ g.membersOf ty, x.isMethod → x.name = a.name →
        ¬x.has .alternateSignature → x = main)
    ⟨fun ⟨own, method, marked, mainOwn, mainMethod, sameName, unmarked, only⟩ =>
      ⟨own, method, marked, mainOwn, mainMethod, sameName, unmarked, only⟩,
    fun h => ⟨h.own, h.method, h.marked, h.mainOwn, h.mainMethod, h.sameName, h.unmarked, h.only⟩⟩

namespace TypeGraph.StandsFor

variable {g : TypeGraph} {t : TypeId} {ty : TypeSymbol} {a main : MemberSymbol}

theorem mainCandidates_eq (h : g.StandsFor ty a main) (wf : g.WellFormed)
    (hty : g.type? t = some ty) : g.mainCandidates ty a = [main] := by
  have hnodup : (g.membersOf ty).Nodup :=
    (sortBy_perm _ _).nodup_iff.1 (canonicalMembers_nodup wf hty)
  have hne : main.id ≠ a.id := fun hid => by
    have hsame := (owns_of_mem_membersOf wf hty h.mainOwn).1
    rw [hid, (owns_of_mem_membersOf wf hty h.own).1] at hsame
    exact h.unmarked (Option.some.inj hsame ▸ h.marked)
  rw [TypeGraph.mainCandidates, TypeGraph.methodsNamed]
  refine List.perm_singleton.1 ((List.perm_ext_iff_of_nodup ((hnodup.filter _).filter _)
    (List.nodup_singleton main)).2 fun x => ?_)
  rw [List.mem_filter, List.mem_filter, List.mem_singleton]
  simp only [Bool.and_eq_true, beq_iff_eq, bne_iff_ne, Bool.not_eq_true']
  constructor
  · rintro ⟨⟨hx, hmethod, hname⟩, -, hmarker⟩
    exact h.only x hx hmethod hname (by simp [hmarker])
  · rintro rfl
    exact ⟨⟨h.mainOwn, h.mainMethod, h.sameName⟩, hne, by simpa using h.unmarked⟩

/-- An alternate signature `a` is resolved after the members that are named, with its main method
`main`. -/
theorem mem_alternates (h : g.StandsFor ty a main) (wf : g.WellFormed)
    (hty : g.type? t = some ty) : (a, main) ∈ g.alternates ty := by
  refine TypeGraph.mem_alternates.2 ⟨mem_sortBy.2 h.own, ?_⟩
  rw [TypeGraph.mainMethod, if_pos (by rw [h.method, h.marked]; rfl), h.mainCandidates_eq wf hty]

theorem main_mem_namedMembers (h : g.StandsFor ty a main) : main ∈ g.namedMembers ty := by
  refine mem_namedMembers.2 ⟨mem_sortBy.2 h.mainOwn, fun x hx => ?_⟩
  rw [TypeGraph.mainMethod, if_neg (by simp [h.unmarked])] at hx
  cases hx

end TypeGraph.StandsFor

/-! ## What is taken over -/

/-- `a.FollowsMain x y`: the semantics `y` of the alternate signature `a` follow from the semantics
`x` of its main method. -/
inductive MemberSymbol.FollowsMain (a : MemberSymbol) : MethodSemantics → MethodSemantics → Prop
  /-- The alternate signature itself is left out of script. -/
  | leftOut {x : MethodSemantics} (has : a.has .nonScriptable) : a.FollowsMain x .notUsable
  /-- The alternate signature is called like its main method and has no code. -/
  | called {name : String} {code ignoresGenericArgs isGlobal : Bool}
    (hasNot : ¬a.has .nonScriptable) :
    a.FollowsMain (.normalMethod name code ignoresGenericArgs isGlobal)
      (.normalMethod name false ignoresGenericArgs isGlobal)
  | shared {x : MethodSemantics} (hasNot : ¬a.has .nonScriptable) (special : ¬x.isNormal) :
    a.FollowsMain x x

/-- Where `main` has its semantics, resolving `a` records what follows from them, and nothing else
happens. -/
theorem resolveAlternate_follows {a main : MemberSymbol} {s s' : ResolutionState}
    {x : MethodSemantics} (hmain : s.methods.find? main.id = some x)
    (h : resolveAlternate a main s = .ok ((), s')) :
    ∃ y, a.FollowsMain x y ∧ s' = { s with methods := s.methods.insert a.id y } := by
  unfold resolveAlternate at h
  split_ifs at h with has
  · exact ⟨.notUsable, .leftOut has, recordMethod_eq_ok h⟩
  · rw [run_get_bind, hmain, Option.getD_some] at h
    refine ⟨x.withoutCode, ?_, recordMethod_eq_ok h⟩
    cases x with
    | normalMethod => exact .called has
    | inlineCode | instanceMethodOnFirstArgument | notUsable =>
      exact .shared has (by simp [MethodSemantics.isNormal])

/-! ## The run over the members of a type -/

/-- When `c` resolves the own members of its type, from the state `s` and the names `inherited` on,
the step from `s₁` to `s₂` resolves the alternate signature `a` of `main`, after the members that
are named and the alternate signatures before it. The members that are named leave the registry
`names` behind. -/
def MemberContext.TakesOver (c : MemberContext) (inherited names : NameRegistry)
    (s : ResolutionState) (a main : MemberSymbol) (s₁ s₂ : ResolutionState) : Prop :=
  ∃ s₀ before after, c.resolveNamed inherited s = .ok (names, s₀) ∧
    c.graph.alternates c.type = before ++ (a, main) :: after ∧
    before.forM (fun p => resolveAlternate p.1 p.2) s₀ = .ok ((), s₁) ∧
    resolveAlternate a main s₁ = .ok ((), s₂)

section

variable {g : TypeGraph} {options : Options} {ensure : TypeId → Resolve Unit}
  {t : TypeId} {ty : TypeSymbol} {resolved : ResolvedType} {a main : MemberSymbol}
  {inherited names names' : NameRegistry} {s₀ s s' s₁ s₂ : ResolutionState}

/-- A run over the alternate signatures, split at `a`. -/
theorem forM_resolveAlternate_split {before after : List (MemberSymbol × MemberSymbol)}
    (h : (before ++ (a, main) :: after).forM (fun p => resolveAlternate p.1 p.2) s =
      .ok ((), s')) :
    ∃ s₁ s₂, before.forM (fun p => resolveAlternate p.1 p.2) s = .ok ((), s₁) ∧
      resolveAlternate a main s₁ = .ok ((), s₂) ∧
      after.forM (fun p => resolveAlternate p.1 p.2) s₂ = .ok ((), s') := by
  rw [List.forM_eq_forM, List.forM_append, run_bind_eq_ok] at h
  obtain ⟨_, s₁, hbefore, h⟩ := h
  change (resolveAlternate a main >>= fun _ => after.forM fun p => resolveAlternate p.1 p.2) s₁ = _
    at h
  rw [run_bind_eq_ok] at h
  obtain ⟨_, s₂, hstep, hafter⟩ := h
  exact ⟨s₁, s₂, hbefore, hstep, hafter⟩

/-- When the own members of a type are resolved, so is each of its alternate signatures. -/
theorem MemberContext.exists_takesOver {c : MemberContext}
    (hrun : c.resolveMembers inherited s = .ok (names, s'))
    (h : (a, main) ∈ c.graph.alternates c.type) :
    ∃ s₁ s₂, c.TakesOver inherited names s a main s₁ s₂ := by
  obtain ⟨s₀, hnamed, halternates⟩ := resolveMembers_eq_ok hrun
  obtain ⟨before, after, hsplit⟩ := List.append_of_mem h
  rw [hsplit] at halternates
  obtain ⟨s₁, s₂, hbefore, hstep, -⟩ := forM_resolveAlternate_split halternates
  exact ⟨s₁, s₂, s₀, before, after, hnamed, hsplit, hbefore, hstep⟩

/-- After `a`, the run over the members of a type goes on with the alternate signatures that are
left. -/
theorem MemberContext.TakesOver.rest {c : MemberContext}
    (h : c.TakesOver inherited names s a main s₁ s₂)
    (hrun : c.resolveMembers inherited s = .ok (names', s')) :
    ∃ s₀ before after, c.resolveNamed inherited s = .ok (names, s₀) ∧
      c.graph.alternates c.type = before ++ (a, main) :: after ∧
      before.forM (fun p => resolveAlternate p.1 p.2) s₀ = .ok ((), s₁) ∧
      resolveAlternate a main s₁ = .ok ((), s₂) ∧
      after.forM (fun p => resolveAlternate p.1 p.2) s₂ = .ok ((), s') := by
  obtain ⟨s₀, before, after, hnamed, hsplit, hbefore, hstep⟩ := h
  refine ⟨s₀, before, after, hnamed, hsplit, hbefore, hstep, ?_⟩
  obtain ⟨s₀', hnamed', halternates⟩ := resolveMembers_eq_ok hrun
  obtain ⟨rfl, rfl⟩ := Prod.mk.inj (Except.ok.inj (hnamed.symm.trans hnamed'))
  rw [hsplit] at halternates
  obtain ⟨s₁', s₂', hbefore', hstep', hafter⟩ := forM_resolveAlternate_split halternates
  obtain ⟨-, rfl⟩ := Prod.mk.inj (Except.ok.inj (hbefore.symm.trans hbefore'))
  obtain ⟨-, rfl⟩ := Prod.mk.inj (Except.ok.inj (hstep.symm.trans hstep'))
  exact hafter

variable (wf : g.WellFormed) (hty : g.type? t = some ty) (hfor : g.StandsFor ty a main)

include wf hty hfor

/-- When the members that are named are resolved, `main` has its semantics, and nothing is recorded
about `a`. -/
theorem TypeGraph.StandsFor.after_named (hensure : EnsuresMembers g options ensure)
    (husable : resolved.isUsable) (hs : Within g options t s₀ s)
    (hempty : ∀ k, g.Declared t k → s.recordOf k = .empty)
    (h : (g.memberContext options ensure ty resolved).resolveNamed inherited s =
      .ok (names, s')) :
    Within g options t s s' ∧ (∃ x, s'.methods.find? main.id = some x) ∧
      s'.recordOf a.id = .empty := by
  obtain ⟨hs', -, hagrees, hempty'⟩ := (resolveNamed_settles wf (fun _ _ _ h heq => h.congr heq)
    ((leavesBehind_agrees hensure wf).settlesMembers hensure wf hty husable) hty hs trivial
    hempty).of_ok h
  have hentry := (hagrees main hfor.main_mem_namedMembers).hasEntries.own
  rw [MemberRecord.hasOwnEntry_of_isMethod hfor.mainMethod] at hentry
  exact ⟨hs', Option.isSome_iff_exists.1 hentry,
    hempty' (a, main) (hfor.mem_alternates wf hty) a.id (.inl rfl)⟩

/-- In the run over the alternate signatures, the semantics `x` of `main` stay as they are, and what
follows from them is recorded for `a` in one step and stays as well. -/
theorem TypeGraph.StandsFor.in_alternates {before after : List (MemberSymbol × MemberSymbol)}
    {x : MethodSemantics} (hsplit : g.alternates ty = before ++ (a, main) :: after)
    (hs : Within g options t s₀ s) (hx : s.methods.find? main.id = some x)
    (hbefore : before.forM (fun p => resolveAlternate p.1 p.2) s = .ok ((), s₁))
    (hstep : resolveAlternate a main s₁ = .ok ((), s₂))
    (hafter : after.forM (fun p => resolveAlternate p.1 p.2) s₂ = .ok ((), s')) :
    ∃ y, s₁.methods.find? main.id = some x ∧ a.FollowsMain x y ∧
      s₂ = { s₁ with methods := s₁.methods.insert a.id y } ∧
      s'.methods.find? main.id = some x ∧ s'.methods.find? a.id = some y ∧
      s'.origins = s.origins := by
  have hmem {p : MemberSymbol × MemberSymbol} (hp : p ∈ before ∨ p = (a, main) ∨ p ∈ after) :
      p ∈ g.alternates ty := by
    rw [hsplit, List.mem_append, List.mem_cons]
    exact hp
  have howns {p : MemberSymbol × MemberSymbol} (hp : p ∈ before ∨ p = (a, main) ∨ p ∈ after) :
      g.Owns t p.1 ∧ g.Owns t p.2 := owns_of_mem_alternates wf hty (hmem hp)
  obtain ⟨hown, hmainOwn⟩ := howns (.inr (.inl rfl))
  -- No alternate signature has the number of the main method, and no two have the same number.
  have hmainApart {p : MemberSymbol × MemberSymbol} (hp : p ∈ before ∨ p = (a, main) ∨ p ∈ after) :
      p.1.id ≠ main.id := fun hid =>
    named_apart_alternates wf hty hfor.main_mem_namedMembers (hmem hp) p.1.id (.inl rfl) (.inl hid)
  have happart := alternates_apart wf hty
  rw [hsplit] at happart
  obtain ⟨-, hrest, -⟩ := List.pairwise_append.1 happart
  obtain ⟨hselfApart, -⟩ := List.pairwise_cons.1 hrest
  obtain ⟨horigins₁, hs₁⟩ :=
    forM_resolveAlternate_spec hs (fun p hp => (howns (.inl hp)).1) hbefore
  have hx₁ : s₁.methods.find? main.id = some x := by
    have hkept := hs₁.frame hmainOwn.declared fun ⟨p, hp, hid⟩ => hmainApart (.inl hp) hid
    exact (congrArg MemberRecord.method hkept).trans hx
  obtain ⟨y, hy, rfl⟩ := resolveAlternate_follows hx₁ hstep
  obtain ⟨horigins', hs'⟩ := forM_resolveAlternate_spec
    (hs₁.toWithin.changesAt (.method (K := g.Declared t) s₁ hown.declared y))
    (fun p hp => (howns (.inr (.inr hp))).1) hafter
  refine ⟨y, hx₁, hy, rfl, ?_, ?_, horigins'.trans horigins₁⟩
  · have hkept := hs'.frame hmainOwn.declared fun ⟨p, hp, hid⟩ => hmainApart (.inr (.inr hp)) hid
    have hne : a.id ≠ main.id := hmainApart (.inr (.inl rfl))
    exact (congrArg MemberRecord.method hkept).trans ((Table.find?_insert_of_ne _ _ hne).trans hx₁)
  · have hkept := hs'.frame hown.declared fun ⟨p, hp, hid⟩ =>
      hselfApart p hp p.1.id (.inl rfl) (.inl hid)
    exact (congrArg MemberRecord.method hkept).trans (Table.find?_insert_self _ _ _)

/-- When `a` is resolved, `main` has its semantics, and all that happens is that what follows from
them is recorded for `a`. Both entries stay as they are till the members of the type are resolved,
and `a` gets no name of its own. -/
theorem MemberContext.TakesOver.follows (hensure : EnsuresMembers g options ensure)
    (husable : resolved.isUsable) (hs : Within g options t s₀ s)
    (hempty : ∀ k, g.Declared t k → s.recordOf k = .empty)
    (hrun : (g.memberContext options ensure ty resolved).resolveMembers inherited s =
      .ok (names', s'))
    (h : (g.memberContext options ensure ty resolved).TakesOver inherited names s a main s₁ s₂) :
    ∃ x y, s₁.methods.find? main.id = some x ∧ a.FollowsMain x y ∧
      s₂ = { s₁ with methods := s₁.methods.insert a.id y } ∧
      s'.methods.find? main.id = some x ∧ s'.methods.find? a.id = some y ∧
      s'.origins.find? a.id = none := by
  obtain ⟨s₀', before, after, hnamed, hsplit, hbefore, hstep, hafter⟩ := h.rest hrun
  obtain ⟨hs₀, ⟨x, hx⟩, hrecord⟩ := hfor.after_named wf hty hensure husable hs hempty hnamed
  obtain ⟨y, hx₁, hy, hs₂, hx', hy', horigins⟩ :=
    hfor.in_alternates wf hty hsplit hs₀ hx hbefore hstep hafter
  refine ⟨x, y, hx₁, hy, hs₂, hx', hy', ?_⟩
  rw [horigins]
  exact congrArg MemberRecord.origin hrecord

end

/-! ## Resolutions -/

section

variable {g : TypeGraph} {options : Options} {p : Processing g options} {a main : MemberSymbol}
  {s : ResolutionState}

/-- When the members of its type are processed, as `p` tells, the step from `s₁` to `s₂` resolves
the alternate signature `a` of `main`. The members of the base types come first, and the names of
the type are those that the members with names of their own leave behind. -/
def Processing.TakesOver (p : Processing g options) (a main : MemberSymbol)
    (s₁ s₂ : ResolutionState) : Prop :=
  ∃ bases s, g.allBaseTypes p.type = .ok bases ∧
    bases.forM (ensureMembersWithin g options p.steps) p.before = .ok ((), s) ∧
    (g.memberContext options (ensureMembersWithin g options p.steps) p.type p.resolved).TakesOver
      (.merged (bases.filterMap s.memberNames.find?)) p.names s a main s₁ s₂

/-- Behind a usable type that is done, each alternate signature `a` has taken over the semantics of
its main method `main`, in a step in which nothing else happened, and both still have the same
entries. -/
theorem Processing.LeadsTo.follows_main (wf : g.WellFormed) (hp : p.LeadsTo s)
    (husable : p.resolved.isUsable) (hfor : g.StandsFor p.type a main) :
    (∃ s₁ s₂, p.TakesOver a main s₁ s₂) ∧ ∀ s₁ s₂, p.TakesOver a main s₁ s₂ →
      ∃ x y, s₁.methods.find? main.id = some x ∧ a.FollowsMain x y ∧
        s₂ = { s₁ with methods := s₁.methods.insert a.id y } ∧
        s.methods.find? main.id = some x ∧ s.methods.find? a.id = some y ∧
        s.origins.find? a.id = none := by
  have hensure : EnsuresMembers g options (ensureMembersWithin g options p.steps) :=
    ensureMembersWithin_spec wf p.steps
  have hmem : (a, main) ∈ g.alternates p.type := hfor.mem_alternates wf p.known
  obtain ⟨hown, hmainOwn⟩ := owns_of_mem_alternates wf p.known hmem
  obtain ⟨bases, s₀, hbases, hrequests, hresolve, -⟩ := processMembers_eq_ok p.run
  have hinherits := TypeGraph.inherits_of_mem_allBaseTypes p.known hbases
  obtain ⟨hs₀, hextends, -⟩ :=
    forM_request hensure (fun b hb => .inl (hinherits b hb)) hp.before hrequests
  have hempty (k : MemberId) (hk : g.Declared p.type.id k) : s₀.recordOf k = .empty :=
    (hp.before.recordOf_meanwhile hextends hk).trans (p.unrecorded k hk)
  constructor
  · obtain ⟨s₁, s₂, h⟩ := MemberContext.exists_takesOver (hresolve husable) hmem
    exact ⟨s₁, s₂, bases, s₀, hbases, hrequests, h⟩
  · rintro s₁ s₂ ⟨bases', s₀', hbases', hrequests', h⟩
    obtain rfl := Except.ok.inj (hbases.symm.trans hbases')
    obtain ⟨-, rfl⟩ := Prod.mk.inj (Except.ok.inj (hrequests.symm.trans hrequests'))
    obtain ⟨x, y, hx₁, hy, hs₂, hx, hy', horigin⟩ :=
      h.follows wf p.known hfor hensure husable hs₀ hempty (hresolve husable)
    have hrecord := hp.records _ hown.declared
    refine ⟨x, y, hx₁, hy, hs₂, ?_, (congrArg MemberRecord.method hrecord).trans hy',
      (congrArg MemberRecord.origin hrecord).trans horigin⟩
    exact (congrArg MemberRecord.method (hp.records _ hmainOwn.declared)).trans hx

end

/-- **Alternate signatures follow their main method**: in a resolution `r`, the semantics of an
alternate signature `a` of a usable type whose members are processed follow from those of its main
method `main`, and `a` has no name of its own. A step of the processing resolves `a`; by then `main`
has the semantics that it has in the end, and all that the step does is record those of `a`: no name
is registered and nothing is reported. -/
theorem alternates_follow_main {g : TypeGraph} (hg : g.Built) {options : Options}
    {roots : List TypeId} {assembly : AssemblyId} {r : Resolution}
    (h : g.resolve options roots assembly = .ok r) :
    ∃ s, g.RunsTo options roots assembly s ∧ r = s.toResolution ∧
      ∀ t ty resolved, s.Done t → g.type? t = some ty → r.types.find? t = some resolved →
        resolved.isUsable → ∀ a main, g.StandsFor ty a main →
        (∃ x y, r.methods.find? main.id = some x ∧ r.methods.find? a.id = some y ∧
          a.FollowsMain x y) ∧
        r.origins.find? a.id = none ∧
        (∃ p : Processing g options, p.type = ty ∧ p.LeadsTo s ∧
          ∃ s₁ s₂, p.TakesOver a main s₁ s₂) ∧
        ∀ p : Processing g options, p.type = ty → p.LeadsTo s → ∀ s₁ s₂,
          p.TakesOver a main s₁ s₂ →
            (∃ x, s₁.methods.find? main.id = some x ∧ r.methods.find? main.id = some x) ∧
            ∃ y, s₂ = { s₁ with methods := s₁.methods.insert a.id y } := by
  have wf := hg.wellFormed
  obtain ⟨sorted, s, hsorted, hrun, rfl⟩ := resolve_eq_ok h
  obtain ⟨hreached, -⟩ := reached_of_forM_resolveRoot wf (.initial g options) rfl hrun
  refine ⟨s, ⟨sorted, hsorted, hrun⟩, rfl, ?_⟩
  intro t ty resolved hdone hty hentry husable a main hfor
  obtain ⟨p, rfl, hp⟩ := hreached.exists_leadsTo wf hdone
  obtain rfl := Option.some.inj (hty.symm.trans p.known)
  obtain rfl := Option.some.inj (hentry.symm.trans hp.entry)
  obtain ⟨⟨s₁, s₂, htakes⟩, hfollows⟩ := hp.follows_main wf husable hfor
  obtain ⟨x, y, -, hy, -, hx, hy', horigin⟩ := hfollows s₁ s₂ htakes
  refine ⟨⟨x, y, hx, hy', hy⟩, horigin, ⟨p, rfl, hp, s₁, s₂, htakes⟩, ?_⟩
  intro q hq hleads s₁' s₂' htakes'
  have hresolved : q.resolved.isUsable := by
    have hsame := hleads.entry
    rw [hq] at hsame
    rwa [← Option.some.inj (hentry.symm.trans hsame)]
  obtain ⟨x', y', hx₁, -, hs₂, hx', -⟩ :=
    (hleads.follows_main wf hresolved (hq ▸ hfor)).2 s₁' s₂' htakes'
  exact ⟨⟨x', hx₁, hx'⟩, y', hs₂⟩

/-- A type of which a method has its entry in the end is done. -/
theorem TypeGraph.RunsTo.done {g : TypeGraph} (wf : g.WellFormed) {options : Options}
    {roots : List TypeId} {assembly : AssemblyId} {s : ResolutionState}
    (h : g.RunsTo options roots assembly s) {m : MemberId} {x : MemberSymbol}
    (hx : g.member? m = some x) (hm : s.methods.find? m ≠ none) : s.Done x.declaringType := by
  obtain ⟨sorted, -, hrun⟩ := h
  obtain ⟨hs, hvisiting⟩ := reached_of_forM_resolveRoot wf (.initial g options) rfl hrun
  obtain ⟨x', names, hx', hnames⟩ :=
    hs.sound.names_of_record hvisiting fun hempty => hm (congrArg MemberRecord.method hempty)
  obtain rfl := Option.some.inj (hx.symm.trans hx')
  exact done_iff.2 ⟨names, hnames⟩

/-- A class with a method for which two alternate signatures stand, the second one left out of
script, and a method with inline code for which a third one stands. -/
def printerClass : Except Fault TypeGraph := do
  let (g, office) := TypeGraph.declareAssembly ∅ "Office"
  let (g, printer) ← g.declareType office { name := "Printer" }
  let (g, _) ← g.declareMethod printer
    { name := "Format", parameters := [⟨"format", "System.String"⟩, ⟨"arg", "System.Object"⟩],
      attributes := [.ofMarker .alternateSignature []] }
  let (g, _) ← g.declareMethod printer
    { name := "Format", parameters := [⟨"arg", "System.Object"⟩],
      attributes := [.ofMarker .alternateSignature [], .ofMarker .nonScriptable []] }
  let (g, _) ← g.declareMethod printer
    { name := "Format", parameters := [⟨"format", "System.String"⟩] }
  let (g, _) ← g.declareMethod printer
    { name := "Log", parameters := [⟨"text", "System.String"⟩],
      attributes := [.ofMarker .inlineCode [.str "console.log(\x7btext\x7d)"]] }
  let (g, _) ← g.declareMethod printer
    { name := "Log", attributes := [.ofMarker .alternateSignature []] }
  return g

/-- The graph of the class. -/
def printerGraph : TypeGraph := printerClass.toOption.getD ∅

theorem built_printerGraph : printerGraph.Built := by
  have hg : printerClass = .ok printerGraph := eq_ok_getD (by decide +kernel)
  obtain ⟨⟨g₁, printer⟩, hprinter, h⟩ := bind_eq_ok.1 hg
  obtain ⟨⟨g₂, _⟩, hformat, h⟩ := bind_eq_ok.1 h
  obtain ⟨⟨g₃, _⟩, hhidden, h⟩ := bind_eq_ok.1 h
  obtain ⟨⟨g₄, _⟩, hmain, h⟩ := bind_eq_ok.1 h
  obtain ⟨⟨g₅, _⟩, hlog, h⟩ := bind_eq_ok.1 h
  obtain ⟨⟨g₆, _⟩, hshort, h⟩ := bind_eq_ok.1 h
  rw [← Except.ok.inj h]
  have htype : g₁.Built := .type (.assembly .empty "Office") hprinter
  exact .method (.method (.method (.method (.method htype hformat) hhidden) hmain) hlog) hshort

/-- The first alternate signature of the class shares the name `format` of its main method and has
no code, and it does so by the way in which it is resolved; the second one is left out of script,
and the third one shares the inline code of its main method. -/
theorem printer_alternates_follow :
    printerGraph.Built ∧ ∃ r s ty resolved main a, printerGraph.resolve {} [⟨0⟩] ⟨0⟩ = .ok r ∧
      r.methods.find? ⟨1⟩ = some .notUsable ∧
      r.methods.find? ⟨3⟩ = some (.inlineCode "console.log(\x7btext\x7d)") ∧
      r.methods.find? ⟨4⟩ = some (.inlineCode "console.log(\x7btext\x7d)") ∧
      printerGraph.RunsTo {} [⟨0⟩] ⟨0⟩ s ∧ r = s.toResolution ∧ s.Done ⟨0⟩ ∧
      printerGraph.type? ⟨0⟩ = some ty ∧ r.types.find? ⟨0⟩ = some resolved ∧ resolved.isUsable ∧
      printerGraph.member? ⟨2⟩ = some main ∧ printerGraph.member? ⟨0⟩ = some a ∧
      printerGraph.StandsFor ty a main ∧
      (∃ x y, r.methods.find? main.id = some x ∧ r.methods.find? a.id = some y ∧
        a.FollowsMain x y ∧ x = .normalMethod "format" true false false ∧
        y = .normalMethod "format" false false false) ∧
      r.origins.find? a.id = none ∧
      (∃ p : Processing printerGraph {}, p.type = ty ∧ p.LeadsTo s ∧
        ∃ s₁ s₂, p.TakesOver a main s₁ s₂) ∧
      ∀ p : Processing printerGraph {}, p.type = ty → p.LeadsTo s → ∀ s₁ s₂,
        p.TakesOver a main s₁ s₂ →
          (∃ x, s₁.methods.find? main.id = some x ∧ r.methods.find? main.id = some x) ∧
          ∃ y, s₂ = { s₁ with methods := s₁.methods.insert a.id y } := by
  have hrun : (printerGraph.resolve {} [⟨0⟩] ⟨0⟩).toOption.any fun r =>
      (printerGraph.type? ⟨0⟩).any fun ty => (r.types.find? ⟨0⟩).any fun resolved =>
      (printerGraph.member? ⟨2⟩).any fun main => (printerGraph.member? ⟨0⟩).any fun a =>
        r.methods.find? ⟨1⟩ = some .notUsable ∧
        r.methods.find? ⟨3⟩ = some (.inlineCode "console.log(\x7btext\x7d)") ∧
        r.methods.find? ⟨4⟩ = some (.inlineCode "console.log(\x7btext\x7d)") ∧
        resolved.isUsable ∧ main.declaringType = ⟨0⟩ ∧ printerGraph.StandsFor ty a main ∧
        r.methods.find? ⟨2⟩ = some (.normalMethod "format" true false false) ∧
        r.methods.find? main.id = some (.normalMethod "format" true false false) ∧
        r.methods.find? a.id = some (.normalMethod "format" false false false) := by
    decide +kernel
  obtain ⟨r, hr, hrest⟩ := exists_of_any_toOption hrun
  obtain ⟨ty, hty, hrest⟩ := (Option.any_eq_true _ _).1 hrest
  obtain ⟨resolved, hresolved, hrest⟩ := (Option.any_eq_true _ _).1 hrest
  obtain ⟨main, hmain, hrest⟩ := (Option.any_eq_true _ _).1 hrest
  obtain ⟨a, ha, hrest⟩ := (Option.any_eq_true _ _).1 hrest
  obtain ⟨hhidden, hlog, hshort, husable, howner, hfor, hentry, hmainEntry, haEntry⟩ :=
    of_decide_eq_true hrest
  obtain ⟨s, hruns, rfl, hfollows⟩ := alternates_follow_main built_printerGraph hr
  have hdone : s.Done ⟨0⟩ := by
    rw [← howner]
    exact hruns.done built_printerGraph.wellFormed hmain
      fun hnone => nomatch hentry.symm.trans hnone
  obtain ⟨⟨x, y, hx, hy, hxy⟩, hrest⟩ :=
    hfollows ⟨0⟩ ty resolved hdone hty hresolved husable a main hfor
  exact ⟨built_printerGraph, _, s, ty, resolved, main, a, hr, hhidden, hlog, hshort, hruns, rfl,
    hdone, hty, hresolved, husable, hmain, ha, hfor, ⟨x, y, hx, hy, hxy,
    Option.some.inj (hx.symm.trans hmainEntry), Option.some.inj (hy.symm.trans haEntry)⟩, hrest⟩

end ScriptNaming
