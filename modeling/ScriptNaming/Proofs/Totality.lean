import ScriptNaming.Proofs.Closure
import ScriptNaming.Proofs.MemberSuccess

/-!
# Resolutions succeed

In the graph of a document that is shallow and has fewer members than there are suffixes, every
resolution of roots of the graph has a result (`resolve_succeeds`). A request for the members of a
type is answered with one step more than there are types up to it (`answersWithin`), because types
only depend on earlier ones and on themselves.
-/

namespace ScriptNaming

open ResolutionState

section

variable {g : TypeGraph} {options : Options} {t : TypeId} {ty : TypeSymbol} {s : ResolutionState}
  (linked : g.Linked) (shallow : g.Shallow) (hmembers : g.members.size < maxNameAllocationAttempts)

/-! ## Types and their members -/

include linked shallow

/-- A type is resolved while no other one is. -/
theorem ensureType_steady (hty : g.type? t = some ty) (hfit : g.TypesFit options s.types)
    (hs : s.Steady) :
    EndsIn True (fun r s' => ResolvesTo g options t s r s' ∧ s'.Steady)
      (ensureType g options t s) := by
  have hresolve : EndsIn True (fun _ s' => s'.FewTypeNames) (ensureType g options t s) :=
    ensureType_endsIn linked.toWellFormed shallow hty hfit hs.typeGuard hs.typeNames
  refine hresolve.withRun.mono fun r s' h => ?_
  obtain ⟨hrun, hfew⟩ := h
  have hto := ensureType_spec hfit hrun
  exact ⟨hto, hs.grow hto.grow hfew⟩

/-- Within the given number of `steps`, requests for the members of types are answered that have
fewer types before them, and for those of types that have been begun. -/
def AnswersWithin (g : TypeGraph) (options : Options) (steps : Nat) : Prop :=
  ∀ ⦃t ty s⦄, g.type? t = some ty → 0 < steps → (s.Begun t ∨ t.index + 1 < steps) →
    s.Reached g options → (∀ u ∈ s.memberGuard.visiting.head?, g.DependsOn u t) → s.Steady →
    EndsIn True (fun _ s' => s'.Steady) (ensureMembersWithin g options steps t s)

omit shallow in
/-- The types that a type `t` depends on come before it, or are `t` itself, which is in progress
then. -/
theorem AnswersWithin.answersRequests {steps : Nat} (h : AnswersWithin g options steps)
    (hty : g.type? t = some ty) (hlt : t.index < steps) :
    AnswersRequests g options (ensureMembersWithin g options steps) t := by
  intro u hu s₀ s hs
  obtain ⟨hwithin, hsteady⟩ := hs
  have hle := linked.dependsOn_le hu
  obtain ⟨tyu, htyu⟩ := TypeGraph.exists_type?_of_index_lt hty hle
  have hbegun : s.Begun u ∨ u.index + 1 < steps := by
    rcases Nat.lt_or_eq_of_le hle with hbefore | hsame
    · exact .inr (by omega)
    · obtain rfl := TypeId.eq_of_index hsame
      exact .inl (.inr hwithin.mem_visiting)
  have hhead : ∀ v ∈ s.memberGuard.visiting.head?, g.DependsOn v u := by
    obtain ⟨rest, hrest⟩ := hwithin.head
    intro v hv
    rw [hrest] at hv
    rwa [← Option.some.inj hv]
  have hrequest := h htyu (by omega) hbegun hwithin.reached hhead hsteady
  refine hrequest.withRun.mono fun _ s' h' => ⟨?_, h'.2⟩
  exact (hwithin.request (ensureMembersWithin_spec linked.toWellFormed steps) hu h'.1).1

include hmembers

omit shallow in
/-- A type that is begun is processed, and done afterwards. -/
theorem AnswersWithin.begin {steps : Nat} (h : AnswersWithin g options steps)
    (hty : g.type? t = some ty) (hlt : t.index < steps) (hs : s.Reached g options)
    (hfresh : ¬s.Begun t) (hhead : ∀ u ∈ s.memberGuard.visiting.head?, g.DependsOn u t)
    (hsteady : s.Steady) (resolved : ResolvedType) :
    EndsIn True (fun _ s' => s'.Steady) ((do
      let names ← processMembers g options (ensureMembersWithin g options steps) ty resolved
      let guard ← (← get).memberGuard.leaveOrFault t
      modify fun s => { s with
        memberGuard := guard
        memberNames := s.memberNames.insert t names } : Resolve Unit) (s.begin t)) := by
  have hensure : EnsuresMembers g options (ensureMembersWithin g options steps) :=
    ensureMembersWithin_spec linked.toWellFormed steps
  have hwithin : Within g options t (s.begin t) (s.begin t) :=
    ⟨hs.begin hfresh hhead, .refl _ _ _, _, rfl⟩
  have hempty (k : MemberId) (hk : g.Declared t k) : (s.begin t).recordOf k = .empty := by
    obtain ⟨x, hx, hxt⟩ := hk
    exact hs.sound.recordOf_eq_empty hfresh hx hxt
  have hbegin : (s.begin t).Steady := hsteady.apart rfl
  refine (processMembers_endsIn hmembers hensure (h.answersRequests linked hty hlt) linked hty hwithin
    hbegin hempty).withRun.bind fun names s₁ h₁ => ?_
  obtain ⟨hrun, hsteady₁⟩ := h₁
  have hafter := processMembers_within hensure linked.toWellFormed hty hwithin hrun
  have hleave : s₁.memberGuard.leaveOrFault t = .ok (s₁.memberGuard.leave t) :=
    Guard.leaveOrFault_eq_ok_iff.2 ⟨hafter.mem_visiting, rfl⟩
  rw [run_get_bind, run_bind_of_ok (run_liftM_eq_ok.2 ⟨hleave, rfl⟩)]
  exact hsteady₁.apart rfl

/-- Requests for members are answered within `steps`. -/
theorem answersWithin (steps : Nat) : AnswersWithin g options steps := by
  induction steps with
  | zero => exact fun _ _ _ _ hpos => absurd hpos (Nat.lt_irrefl 0)
  | succ steps ih =>
    intro t ty s hty _ hsteps hs hhead hsteady
    rw [ensureMembersWithin, ensureMembersBy, run_get_bind]
    by_cases hdone : s.memberNames.contains t
    · rw [if_pos hdone]
      exact hsteady
    rw [if_neg hdone]
    refine (ensureType_steady linked shallow hty hs.sound.types hsteady).bind
      fun resolved s₁ h₁ => ?_
    obtain ⟨⟨hgrow, hfit, -, -⟩, hsteady₁⟩ := h₁
    have hs₁ := hs.grow hgrow hfit
    have hlookup : g.typeOrFault t = .ok ty := TypeGraph.typeOrFault_eq_ok_iff.2 hty
    rw [run_bind_of_ok (run_liftM_eq_ok.2 ⟨hlookup, rfl⟩), run_get_bind]
    cases hguard : s₁.memberGuard.enter t with
    | tooDeep =>
      have hroom := hs₁.sound.length_visiting_lt linked.toLayered shallow
      rw [Guard.enter, if_neg (Nat.not_le_of_lt hroom)] at hguard
      split at hguard <;> cases hguard
    | cycle => exact hsteady₁
    | entered guard =>
      obtain ⟨-, -, rfl⟩ := Guard.enter_eq_entered_iff.1 hguard
      have hfresh : ¬s₁.Begun t := hgrow.not_begun_of_enter hdone hguard
      have hlt := hsteps.resolve_left fun h => hfresh (hgrow.begun_iff.2 h)
      rw [← hgrow.memberGuard] at hhead
      dsimp only
      rw [run_modify_bind]
      exact ih.begin linked hmembers hty (by omega) hs₁ hfresh hhead hsteady₁ resolved

/-! ## Roots -/

theorem forM_resolveRoot_endsIn {roots : List TypeId}
    (hroots : ∀ t ∈ roots, ∃ ty, g.type? t = some ty) (hs : s.Reached g options)
    (hvisiting : s.memberGuard.visiting = []) (hsteady : s.Steady) :
    EndsIn True (fun _ s' => s'.Steady) (roots.forM (resolveRoot g options) s) := by
  induction roots generalizing s with
  | nil => exact hsteady
  | cons t roots ih =>
    obtain ⟨ty, hty⟩ := hroots t (.head _)
    have hroot : EndsIn True (fun _ s' => s'.Steady) (resolveRoot g options t s) := by
      refine (ensureType_steady linked shallow hty hs.sound.types hsteady).bind
        fun resolved s₁ h₁ => ?_
      obtain ⟨⟨hgrow, hfit, -, -⟩, hsteady₁⟩ := h₁
      have hlt := TypeGraph.index_lt_of_type? hty
      refine answersWithin linked shallow hmembers _ hty (Nat.succ_pos _)
        (.inr (Nat.succ_lt_succ hlt)) (hs.grow hgrow hfit) ?_ hsteady₁
      rw [hgrow.memberGuard, hvisiting]
      exact fun u hu => nomatch hu
    refine hroot.withRun.bind fun _ s₁ h₁ => ?_
    obtain ⟨hrun, hsteady₁⟩ := h₁
    have hone : [t].forM (resolveRoot g options) s = .ok ((), s₁) :=
      run_bind_eq_ok.2 ⟨(), s₁, hrun, rfl⟩
    obtain ⟨hs₁, hvisiting₁⟩ := reached_of_forM_resolveRoot linked.toWellFormed hs hvisiting hone
    exact ih (fun u hu => hroots u (.tail _ hu)) hs₁ hvisiting₁ hsteady₁

end

/-! ## Resolutions -/

/-- The references in a graph lead to types and members of the graph. -/
structure TypeGraph.RefersInside (g : TypeGraph) : Prop where
  around : ∀ ⦃t ty u⦄, g.type? t = some ty → ty.declaringType = some u → u.index < g.types.size
  bases : ∀ ⦃t ty b⦄, g.type? t = some ty → b ∈ ty.baseTypes → b.index < g.types.size
  members : ∀ ⦃t ty m⦄, g.type? t = some ty → m ∈ ty.members → m.index < g.members.size
  declaringType : ∀ ⦃m x⦄, g.member? m = some x → x.declaringType.index < g.types.size
  accessors : ∀ ⦃m x a⦄, g.member? m = some x → a ∈ x.accessors → a.index < g.members.size
  links : ∀ ⦃m x b⦄, g.member? m = some x → b ∈ x.links → b.index < g.members.size

theorem TypeGraph.Linked.refersInside {g : TypeGraph} (linked : g.Linked) : g.RefersInside where
  around _ _ _ hty hu := (linked.outer_lt hty hu).trans (index_lt_of_type? hty)
  bases _ ty _ hty hb := (linked.base_lt ⟨ty, hty, hb⟩).trans (index_lt_of_type? hty)
  members _ _ _ hty hm := by
    obtain ⟨x, hx, -⟩ := linked.listed hty hm
    exact index_lt_of_member? hx
  declaringType _ _ hx := by
    obtain ⟨ty, hty, -⟩ := linked.declaringType hx
    exact index_lt_of_type? hty
  accessors _ _ _ hx ha := by
    obtain ⟨slot, hslot⟩ := MemberSymbol.mem_accessors.1 ha
    obtain ⟨y, hy, -⟩ := linked.accessor hx hslot
    exact index_lt_of_member? hy
  links _ _ _ hx hb := by
    obtain ⟨y, hy⟩ := linked.link_exists hx hb
    exact index_lt_of_member? hy

/-- A resolution of roots runs without a fault, and has come to the state `s` at its end. -/
structure TypeGraph.EndsAt (g : TypeGraph) (options : Options) (roots : List TypeId)
    (main : AssemblyId) (s : ResolutionState) : Prop where
  run : ∃ sorted, g.sortedRoots roots = .ok sorted ∧
    ((sorted.filter (g.isResolvedRoot main)).map TypeSymbol.id).forM (resolveRoot g options)
      .initial = .ok ((), s)
  result : g.resolve options roots main = .ok s.toResolution
  /-- No assembly has used up more names than there are members. Counts only go up. -/
  counted : ∀ a, s.interfaceNames.used a ≤ g.members.size
  /-- In no namespace more names are taken, and left out for generated ones, than there are
  types. -/
  typeNames : ∀ space, (s.takenTypeNames space).size ≤ g.types.size

/-- **Resolutions of documents succeed**: in the graph `g` of a document that has fewer members than
there are suffixes to try, and in which every chain of different types that refer to each other is
shorter than the supported depth, a resolution of any `roots` in `g` has a result. All references in
the graph lead to something, and no count exceeds the size of the graph. -/
theorem resolve_succeeds {d : GraphDocument} {g : TypeGraph} (hd : d.link = .ok g)
    (hmembers : g.members.size < maxNameAllocationAttempts) (shallow : g.Shallow)
    (options : Options) {roots : List TypeId} (hroots : ∀ t ∈ roots, t.index < g.types.size)
    (main : AssemblyId) : g.RefersInside ∧ ∃ s, g.EndsAt options roots main s := by
  have linked := GraphDocument.linked hd
  obtain ⟨sorted, hsorted, hknown⟩ := TypeGraph.exists_sortedRoots hroots
  have hresolved : ∀ t ∈ (sorted.filter (g.isResolvedRoot main)).map TypeSymbol.id,
      ∃ ty, g.type? t = some ty := by
    intro t ht
    obtain ⟨ty, hty, rfl⟩ := List.mem_map.1 ht
    obtain ⟨u, hu⟩ := hknown ty (List.mem_filter.1 hty).1
    exact ⟨ty, linked.type_id hu ▸ hu⟩
  have hends := forM_resolveRoot_endsIn linked shallow hmembers hresolved (.initial g options) rfl
    .initial
  obtain ⟨_, s, hrun, hsteady⟩ := hends.exists_ok trivial
  obtain ⟨hs, -⟩ :=
    reached_of_forM_resolveRoot linked.toWellFormed (.initial g options) rfl hrun
  refine ⟨linked.refersInside, s, ⟨sorted, hsorted, hrun⟩, ?_, fun a => ?_, fun space => ?_⟩
  · unfold TypeGraph.resolve
    exact bind_eq_ok.2 ⟨sorted, hsorted, bind_eq_ok.2 ⟨((), s), hrun, rfl⟩⟩
  · exact (hsteady.counted a).trans hs.sound.size_origins_le
  · exact (hsteady.typeNames space).trans hs.sound.size_types_le

theorem animals_resolve_succeeds :
    animals.link = .ok animalGraph ∧ animalGraph.members.size < maxNameAllocationAttempts ∧
      animalGraph.Shallow ∧ (∀ t ∈ [(⟨1⟩ : TypeId)], t.index < animalGraph.types.size) ∧
      animalGraph.RefersInside ∧ ∃ s, animalGraph.EndsAt {} [⟨1⟩] ⟨0⟩ s := by
  have hsizes : animalGraph.members.size < maxNameAllocationAttempts ∧
      animalGraph.types.size < maxTypeNestingDepth ∧
      ∀ t ∈ [(⟨1⟩ : TypeId)], t.index < animalGraph.types.size := by
    decide +kernel
  obtain ⟨hmembers, htypes, hroots⟩ := hsizes
  have shallow := (GraphDocument.linked link_animals).shallow_of_size_lt htypes
  exact ⟨link_animals, hmembers, shallow, hroots,
    resolve_succeeds link_animals hmembers shallow {} hroots ⟨0⟩⟩

end ScriptNaming
