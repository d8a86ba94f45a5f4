import ScriptNaming.Proofs.Naming
import ScriptNaming.Proofs.ReachedStates

/-!
# The members of types that are done

A type that is done has been processed once, and its members have been resolved one after the other,
each of them at a time when nothing was recorded about it. What the step for a member leaves behind
in the records of the member and its accessors is therefore still there in every later state
(`LeavesBehind`, `settled_of_done`).
-/

namespace ScriptNaming

open ResolutionState

/-- Only methods have a main method. -/
theorem TypeGraph.isMethod_of_mainMethod {g : TypeGraph} {ty : TypeSymbol} {m main : MemberSymbol}
    (h : g.mainMethod ty m = .unique main) : m.isMethod := by
  unfold mainMethod at h
  split at h
  · rename_i hmethod
    exact (Bool.and_eq_true_iff.1 hmethod).1
  · cases h

/-- `Post` holds of each member of the type `t` after the step that resolves it, if nothing is
recorded before about the member and its accessors. The members of a type without a place in script
are left out, the others are resolved in their own way, or follow their main method. -/
structure LeavesBehind (c : MemberContext) (t : TypeId)
    (Post : MemberSymbol → ResolutionState → Prop) : Prop where
  member : c.resolved.isUsable → ∀ ⦃m⦄, c.graph.Lists t m →
    ∀ ⦃preferred names names' s₀ s s'⦄, Within c.graph c.options t s₀ s →
      (∀ k, m.Covers k → s.recordOf k = .empty) →
      c.resolveMember m preferred names s = .ok (names', s') → Post m s'
  alternate : c.resolved.isUsable → ∀ ⦃m main⦄, m.isMethod → ∀ ⦃s s'⦄,
    (∀ k, m.Covers k → s.recordOf k = .empty) → resolveAlternate m main s = .ok ((), s') → Post m s'
  leftOut : ¬c.resolved.isUsable → ∀ ⦃m s s'⦄, c.graph.Lists t m →
    (∀ k, m.Covers k → s.recordOf k = .empty) → markNotUsable m s = .ok ((), s') → Post m s'

section

variable {g : TypeGraph} {options : Options} {ensure : TypeId → Resolve Unit}
  (hensure : EnsuresMembers g options ensure) {t : TypeId} {ty : TypeSymbol}
  {resolved : ResolvedType} {m : MemberSymbol} {Post : MemberSymbol → ResolutionState → Prop}
  {names names' : NameRegistry} {s₀ s s' : ResolutionState}

/-! ## Steps -/

/-- A step that only runs `x` settles a member if `x` keeps to the records of the member. -/
theorem settles_of_run {x : Resolve Unit}
    (hframed : ∀ s, Lockstep True (Self (Framed g options t m.Covers s)) Any x x)
    (hpost : ∀ ⦃s s'⦄, (∀ k, m.Covers k → s.recordOf k = .empty) → x s = .ok ((), s') → Post m s') :
    Settles False g options t (fun _ _ => True) Post m fun names => do
      x
      return names := by
  intro s₀ s names hs _ hempty
  refine .intro False.elim fun names' s' h => ?_
  rw [run_bind_eq_ok] at h
  obtain ⟨_, s₁, hrun, h⟩ := h
  obtain ⟨-, rfl⟩ := run_pure_eq_ok.1 h
  exact ⟨(hframed s).invariant (.start hs _) hrun, trivial, hpost hempty hrun⟩

/-- A member that is left out of script gets no records but its own and those of its accessors. -/
theorem markNotUsable_framed (wf : g.WellFormed) (hm : g.Lists t m) (hunusable : ¬resolved.isUsable)
    (s : ResolutionState) :
    Lockstep True (Self (Framed g options t m.Covers s)) Any (markNotUsable m)
      (markNotUsable m) := by
  obtain ⟨ty, -⟩ := wf.declaringType hm.1.1
  have hcovers (k : MemberId) (hk : m.Covers k) : g.Declared t k := hm.1.declared_of_covers wf hk
  have k : KeepsMembers True .refl ⟨g, options, fun _ => pure none, ty, resolved⟩
      ⟨g, options, fun _ => pure none, ty, resolved⟩ (g.OwnsIn t m.Covers) m.Covers
      (Self (Framed g options t m.Covers s)) :=
    (framed_keepsChanges hcovers).members wf (fun _ _ _ _ => .pure rfl) resolved
  have hself := markNotUsable_lockstep k ⟨hm.1, fun _ hk => hk⟩ (.inr hunusable)
  rwa [MemberSymbol.renumber_refl] at hself

include hensure

/-- A member that is resolved gets no records but its own and those of its accessors. -/
theorem resolveMember_framed (wf : g.WellFormed) (hs : Within g options t s₀ s) (hm : g.Lists t m)
    {preferred : PreferredName} (hpreferred : preferred.name = none → options.minimizeNames)
    (h : (g.memberContext options ensure ty resolved).resolveMember m preferred names s =
      .ok (names', s')) : Framed g options t m.Covers s s' := by
  have hcovers (k : MemberId) (hk : m.Covers k) : g.Declared t k := hm.1.declared_of_covers wf hk
  have hself : Lockstep True (Self (Framed g options t m.Covers s)) NameRegistry.SameNames
      ((g.memberContext options ensure ty resolved).resolveMember m preferred names)
      ((g.memberContext options ensure ty resolved).resolveMember (m.renumber .refl) preferred
        names) :=
    MemberContext.resolveMember_lockstep
      ((framed_keepsChanges hcovers).members wf
        (fun _ hx _ hb => methodSemanticsBy_framed hensure hx hb) resolved)
      ⟨hm.1, fun _ hk => hk⟩ hpreferred (.refl names)
  rw [MemberSymbol.renumber_refl] at hself
  exact hself.invariant (.start hs _) h

theorem LeavesBehind.settlesMembers (wf : g.WellFormed) (hty : g.type? t = some ty)
    (husable : resolved.isUsable)
    (h : LeavesBehind (g.memberContext options ensure ty resolved) t Post) :
    SettlesMembers False (g.memberContext options ensure ty resolved) t (fun _ _ => True) Post where
  report _ _ _ _ := trivial
  member m hm preferred hpreferred s₀ s names hs _ hempty :=
    .intro False.elim fun _ _ hrun =>
      ⟨resolveMember_framed hensure wf hs hm hpreferred hrun, trivial,
        h.member husable hm hs hempty hrun⟩
  alternate p hp := by
    obtain ⟨-, hmain⟩ := TypeGraph.mem_alternates.1 hp
    have hown : g.Owns t p.1 := (owns_of_mem_alternates wf hty hp).1
    have hcovers (k : MemberId) (hk : p.1.Covers k) : g.Declared t k :=
      hown.declared_of_covers wf hk
    exact settles_of_run (fun s => resolveAlternate_framed hcovers (.inl rfl) p.2)
      fun _ _ hempty hrun => h.alternate husable (TypeGraph.isMethod_of_mainMethod hmain) hempty hrun

/-! ## Types that are done -/

/-- After the members of `ty` are processed, what their steps leave behind holds of all of them. -/
theorem LeavesBehind.settled (wf : g.WellFormed) (stable : DependsOnRecords Post)
    (hty : g.type? t = some ty) (hs : Within g options t s₀ s)
    (hempty : ∀ k, g.Declared t k → s.recordOf k = .empty)
    (h : LeavesBehind (g.memberContext options ensure ty resolved) t Post)
    (hrun : processMembers g options ensure ty resolved s = .ok (names', s')) :
    ∀ m ∈ g.canonicalMembers ty, Post m s' := by
  obtain ⟨bases, s₁, hbases, hrequests, husable, hunusable⟩ := processMembers_eq_ok hrun
  obtain ⟨hs₁, hextends, -⟩ := forM_request hensure
    (fun b hb => .inl (TypeGraph.inherits_of_mem_allBaseTypes hty hbases b hb)) hs hrequests
  have hempty₁ (k : MemberId) (hk : g.Declared t k) : s₁.recordOf k = .empty :=
    (hs.recordOf_meanwhile hextends hk).trans (hempty k hk)
  by_cases hresolved : resolved.isUsable
  · obtain ⟨-, -, hall⟩ := (resolveMembers_settles wf stable
      (h.settlesMembers hensure wf hty hresolved) hty hs₁ trivial hempty₁).of_ok (husable hresolved)
    exact hall
  · obtain ⟨hmark, -⟩ := hunusable hresolved
    have hrun₁ : (do
        (g.canonicalMembers ty).forM markNotUsable
        return names' : Resolve NameRegistry) s₁ = .ok (names', s') :=
      run_bind_eq_ok.2 ⟨(), s', hmark, rfl⟩
    have hsettles (m : MemberSymbol) (hm : g.Lists t m) :
        Settles False g options t (fun _ _ => True) Post m fun names => do
          markNotUsable m
          return names :=
      settles_of_run (markNotUsable_framed wf hm hresolved)
        fun _ _ hempty hmark => h.leftOut hresolved hm hempty hmark
    obtain ⟨-, -, hall⟩ := (forM_markNotUsable_settles wf stable hty hs₁ trivial hempty₁
      hsettles).of_ok hrun₁
    exact hall

end

/-- Whenever a type is done, what the steps for its members leave behind holds of all of them. -/
theorem settled_of_done {g : TypeGraph} {options : Options} {t : TypeId} {ty : TypeSymbol}
    {s : ResolutionState} {Post : MemberSymbol → ResolutionState → Prop} (wf : g.WellFormed)
    (hs : s.Reached g options) (ht : s.Done t) (hty : g.type? t = some ty)
    (stable : DependsOnRecords Post)
    (h : ∀ ⦃resolved⦄, s.types.find? t = some resolved → ∀ ⦃ensure⦄,
      EnsuresMembers g options ensure →
      LeavesBehind (g.memberContext options ensure ty resolved) t Post) :
    ∀ m ∈ g.membersOf ty, Post m s := by
  obtain ⟨p, rfl, hp⟩ := hs.exists_leadsTo wf ht
  obtain rfl := Option.some.inj (hty.symm.trans p.known)
  have hensure : EnsuresMembers g options (ensureMembersWithin g options p.steps) :=
    ensureMembersWithin_spec wf p.steps
  intro m hm
  have hpost := (h hp.entry hensure).settled hensure wf stable p.known hp.before p.unrecorded p.run
    m (mem_sortBy.2 hm)
  exact stable hpost fun k hk =>
    hp.records k ((TypeGraph.owns_of_mem_membersOf wf hty hm).declared_of_covers wf hk)

end ScriptNaming
