import ScriptNaming.Proofs.Progress

/-!
# The states that resolutions reach

A type is begun, its members are processed, and it is done: all that keeps states sound and gives
them a history (`ResolutionState.Reached.begin`, `Processing.extends_finished` and the lemmas
around it). So the final state of a resolution is sound and has a history (`reached_of_resolve`).
-/

namespace ScriptNaming

open ResolutionState

/-! ## Beginning and finishing types -/

theorem Guard.mem_of_enter_eq_cycle {guard : Guard} {t : TypeId} (h : guard.enter t = .cycle) :
    t ∈ guard.visiting := by
  unfold enter at h
  split_ifs at h with _ hmem
  simpa using hmem

variable {g : TypeGraph} {options : Options} {t : TypeId} {s : ResolutionState}

theorem ResolutionState.Reached.grow (hs : s.Reached g options) {s' : ResolutionState}
    (h : s.TypesGrow s') (types : g.TypesFit options s'.types) : s'.Reached g options := by
  refine ⟨hs.sound.grow h types, hs.traced.later (h.extends g fun _ => True).toLater ?_⟩
  intro u names hu
  rwa [h.memberNames] at hu

theorem ResolutionState.TypesGrow.begun_iff (h : s.TypesGrow s') {t : TypeId} :
    s'.Begun t ↔ s.Begun t := by
  rw [Begun, Begun, Done, Done, h.memberNames, h.memberGuard]

/-- The two tests by which a type is begun tell that it has not been begun before. -/
theorem ResolutionState.TypesGrow.not_begun_of_enter (h : s.TypesGrow s') {t : TypeId}
    (hdone : ¬s.memberNames.contains t) {guard : Guard}
    (henter : s'.memberGuard.enter t = .entered guard) : ¬s'.Begun t := by
  obtain ⟨-, hmem, -⟩ := Guard.enter_eq_entered_iff.1 henter
  exact not_or.2 ⟨by rwa [Done, h.memberNames], hmem⟩

/-- The state in which the type `t` has just been begun. -/
def ResolutionState.begin (s : ResolutionState) (t : TypeId) : ResolutionState :=
  { s with memberGuard := s.memberGuard.push t }

/-- The state in which the members of the type `t` are done, with the given `names`. -/
def ResolutionState.finish (s : ResolutionState) (t : TypeId) (names : NameRegistry) :
    ResolutionState :=
  { s with
    memberGuard := s.memberGuard.leave t
    memberNames := s.memberNames.insert t names }

/-- The last steps by which the members of a type are done. -/
theorem eq_finish_of_leave {s' : ResolutionState} {names : NameRegistry}
    (h : (do
      let guard ← (← get).memberGuard.leaveOrFault t
      modify fun s => { s with memberGuard := guard, memberNames := s.memberNames.insert t names } :
      Resolve Unit) s = .ok ((), s')) : s' = s.finish t names := by
  rw [run_get_bind, run_bind_eq_ok] at h
  obtain ⟨guard, s₁, hleave, h⟩ := h
  obtain ⟨hguard, rfl⟩ := run_liftM_eq_ok.1 hleave
  obtain ⟨-, rfl⟩ := Guard.leaveOrFault_eq_ok_iff.1 hguard
  exact (Prod.ext_iff.1 (Except.ok.inj h)).2.symm

theorem ResolutionState.later_begin (s : ResolutionState) (t : TypeId) : s.Later g (s.begin t) :=
  { Later.refl g s with records := fun _ _ _ _ => rfl }

theorem ResolutionState.begun_begin_iff {u : TypeId} :
    (s.begin t).Begun u ↔ u = t ∨ s.Begun u := by
  change s.Done u ∨ u ∈ t :: s.memberGuard.visiting ↔ u = t ∨ s.Done u ∨ _
  rw [List.mem_cons, or_left_comm]

theorem ResolutionState.begun_begin {u : TypeId} (hu : s.Begun u) (t : TypeId) :
    (s.begin t).Begun u :=
  begun_begin_iff.2 (.inr hu)

theorem ResolutionState.Tidy.begin (hs : s.Tidy g options) (ht : ¬s.Begun t) :
    (s.begin t).Tidy g options where
  types := hs.types
  typesCounted := hs.typesCounted
  membersCounted := hs.membersCounted.push t
  nodup := List.nodup_cons.2 ⟨(not_or.1 ht).2, hs.nodup⟩
  notDone u hu := by
    rcases List.mem_cons.1 hu with rfl | hu
    · exact (not_or.1 ht).1
    · exact hs.notDone u hu
  records m hm := by
    obtain ⟨x, hx, hbegun⟩ := hs.records hm
    exact ⟨x, hx, begun_begin hbegun t⟩

theorem ResolutionState.Reached.begin (hs : s.Reached g options) (ht : ¬s.Begun t)
    (hhead : ∀ u ∈ s.memberGuard.visiting.head?, g.DependsOn u t) :
    (s.begin t).Reached g options where
  sound := { hs.sound.toTidy.begin ht with chain := hs.sound.chain.cons hhead }
  traced := hs.traced.later (s.later_begin t) fun _ _ hu => hu

section

variable {s' : ResolutionState} {names : NameRegistry}

theorem ResolutionState.done_finish (s : ResolutionState) (t : TypeId) (names : NameRegistry) :
    (s.finish t names).Done t :=
  done_iff.2 ⟨names, Table.find?_insert_self _ _ _⟩

theorem ResolutionState.later_finish (ht : ¬s.Done t) (names : NameRegistry) :
    s.Later g (s.finish t names) where
  types _ _ h := h
  names u names' hu := by
    have hne : t ≠ u := by
      rintro rfl
      exact ht (done_iff.2 ⟨names', hu⟩)
    exact (Table.find?_insert_of_ne _ _ hne).trans hu
  problems _ _ h := h
  records _ _ _ _ := rfl

variable (hbegin : (s.begin t).Extends g (· ≠ t) s') (hs' : s'.Tidy g options)

include hbegin

theorem ResolutionState.visiting_of_begin :
    s'.memberGuard.visiting = t :: s.memberGuard.visiting := by
  rw [hbegin.memberGuard]
  rfl

theorem ResolutionState.memberGuard_finish : (s'.finish t names).memberGuard = s.memberGuard := by
  have hguard : s'.memberGuard = s.memberGuard.push t := hbegin.memberGuard
  rw [finish, hguard, Guard.leave_push]

/-- The types begun before are the ones that are begun when a type is done. -/
theorem ResolutionState.begun_finish_iff {u : TypeId} :
    (s'.finish t names).Begun u ↔ u = t ∨ s'.Begun u := by
  have hmem : u ∈ s'.memberGuard.visiting ↔ u = t ∨ u ∈ s.memberGuard.visiting := by
    rw [visiting_of_begin hbegin, List.mem_cons]
  have hdone : (s'.finish t names).Done u ↔ u = t ∨ s'.Done u := by
    rw [Done, Done, finish, Table.contains_insert, Bool.or_eq_true, decide_eq_true_eq,
      @eq_comm _ t u]
  have hguard : (s'.finish t names).memberGuard = s.memberGuard := memberGuard_finish hbegin
  rw [Begun, Begun, hdone, hguard, hmem]
  by_cases heq : u = t
  · simp [heq]
  · simp [heq]

include hs'

theorem ResolutionState.not_done_of_begin : ¬s'.Done t :=
  hs'.notDone t (by rw [visiting_of_begin hbegin]; exact .head _)

/-- When the members of a type are done, the types that were in progress before are again, with the
same records. -/
theorem ResolutionState.extends_finish : s.Extends g (fun _ => True) (s'.finish t names) := by
  have hnodup := hs'.nodup
  rw [visiting_of_begin hbegin, List.nodup_cons] at hnodup
  have hlater := later_finish (g := g) (not_done_of_begin hbegin hs') names
  refine ⟨((s.later_begin t).trans hbegin.toLater).trans hlater, hbegin.typeGuard,
    memberGuard_finish hbegin, fun m x hm hx _ => ?_⟩
  have hne : x.declaringType ≠ t := fun h => hnodup.1 (h ▸ hx)
  exact hbegin.inProgress hm (.tail _ hx) hne

theorem ResolutionState.Tidy.finish (hs : s.Tidy g options) :
    (s'.finish t names).Tidy g options := by
  have hguard : (s'.finish t names).memberGuard = s.memberGuard := memberGuard_finish hbegin
  have hnodup := hs'.nodup
  rw [visiting_of_begin hbegin, List.nodup_cons] at hnodup
  refine {
    types := hs'.types
    typesCounted := hs'.typesCounted
    membersCounted := hs'.membersCounted.leave (by rw [visiting_of_begin hbegin]; exact .head _)
    nodup := by rw [hguard]; exact hs.nodup
    notDone := fun u hu => ?_
    records := fun m hm => ?_ }
  · rw [hguard] at hu
    have hne : t ≠ u := fun h => hnodup.1 (h ▸ hu)
    have hnot := hs'.notDone u (by rw [visiting_of_begin hbegin]; exact .tail _ hu)
    rw [done_iff] at hnot ⊢
    rintro ⟨names, hfound⟩
    exact hnot ⟨names, (Table.find?_insert_of_ne _ _ hne).symm.trans hfound⟩
  · obtain ⟨x, hx, hbegun⟩ := hs'.records (m := m) hm
    refine ⟨x, hx, ?_⟩
    rcases hbegun with hdone | hmem
    · exact .inl ((later_finish (g := g) (not_done_of_begin hbegin hs') names).done hdone)
    · rw [visiting_of_begin hbegin] at hmem
      rcases List.mem_cons.1 hmem with heq | hmem
      · exact .inl (heq ▸ s'.done_finish t names)
      · exact .inr (by rwa [hguard])

end

namespace Processing

variable {p : Processing g options} (hstart : p.before = s.begin p.type.id)
  (hafter : Within g options p.type.id p.before p.after)

theorem done_finished (p : Processing g options) : p.finished.Done p.type.id :=
  p.after.done_finish p.type.id p.names

theorem within_before (p : Processing g options) (hbefore : Traced g options p.before) :
    Within g options p.type.id p.before p.before :=
  ⟨⟨p.sound, hbefore⟩, .refl _ _ _, p.head⟩

include hafter

theorem later_finished : p.after.Later g p.finished :=
  later_finish hafter.notDone p.names

include hstart

theorem extends_begin : (s.begin p.type.id).Extends g (· ≠ p.type.id) p.after :=
  hstart ▸ hafter.grown

theorem extends_finished : s.Extends g (fun _ => True) p.finished :=
  extends_finish (extends_begin hstart hafter) hafter.reached.sound.toTidy

theorem sound_finished (hs : s.Sound g options) : p.finished.Sound g options := by
  have hbegin := extends_begin hstart hafter
  have hguard : p.finished.memberGuard = s.memberGuard := memberGuard_finish hbegin
  exact {
    toTidy := hafter.reached.sound.toTidy.finish hbegin hs.toTidy
    chain := by rw [hguard]; exact hs.chain }

theorem traced_finished (hs : Traced g options s) : Traced g options p.finished := by
  refine .of_exists fun u names hu => ?_
  by_cases heq : p.type.id = u
  · subst heq
    have hself : p.finished.memberNames.find? p.type.id = some p.names :=
      Table.find?_insert_self _ _ _
    refine ⟨p, rfl, Option.some.inj (hself.symm.trans hu), .refl _ _, ?_⟩
    rw [hstart]
    exact hs.later (s.later_begin p.type.id) fun _ _ hu => hu
  · have hfound := (Table.find?_insert_of_ne _ _ heq).symm.trans hu
    obtain ⟨q, hq, hnames, hlater, hbefore⟩ := hafter.reached.traced.exists_processing hfound
    exact ⟨q, hq, hnames, hlater.trans (later_finished hafter), hbefore⟩

end Processing

/-! ## Resolutions -/

/-- A request for the members of a type changes nothing if they are done, and otherwise resolves the
type; its members are processed unless they are in progress. -/
theorem ensureMembersBy_eq_ok {ensure : TypeId → Resolve Unit} {s' : ResolutionState}
    (h : ensureMembersBy g options ensure t s = .ok ((), s')) :
    (s.Done t ∧ s' = s) ∨ ¬s.Done t ∧ ∃ resolved s₁ ty,
      ensureType g options t s = .ok (resolved, s₁) ∧ g.type? t = some ty ∧
        (t ∈ s₁.memberGuard.visiting ∧ s' = s₁ ∨
          s₁.memberGuard.enter t = .entered (s₁.begin t).memberGuard ∧ ∃ names s₂,
            processMembers g options ensure ty resolved (s₁.begin t) = .ok (names, s₂) ∧
              s' = s₂.finish t names) := by
  rw [ensureMembersBy, run_get_bind] at h
  by_cases hdone : s.memberNames.contains t
  · rw [if_pos hdone] at h
    obtain ⟨-, rfl⟩ := run_pure_eq_ok.1 h
    exact .inl ⟨hdone, rfl⟩
  rw [if_neg hdone, run_bind_eq_ok] at h
  obtain ⟨resolved, s₁, hresolve, h⟩ := h
  rw [run_bind_eq_ok] at h
  obtain ⟨ty, s₂, hlift, h⟩ := h
  obtain ⟨hty, rfl⟩ := run_liftM_eq_ok.1 hlift
  rw [TypeGraph.typeOrFault_eq_ok_iff] at hty
  rw [run_get_bind] at h
  refine .inr ⟨hdone, resolved, s₂, ty, hresolve, hty, ?_⟩
  cases hguard : s₂.memberGuard.enter t with
  | tooDeep =>
    rw [hguard] at h
    cases h
  | cycle =>
    rw [hguard] at h
    obtain ⟨-, rfl⟩ := run_pure_eq_ok.1 h
    exact .inl ⟨Guard.mem_of_enter_eq_cycle hguard, rfl⟩
  | entered guard =>
    rw [hguard] at h
    obtain ⟨-, -, rfl⟩ := Guard.enter_eq_entered_iff.1 hguard
    dsimp only at h
    rw [run_modify_bind, run_bind_eq_ok] at h
    obtain ⟨names, s₃, hrun, h⟩ := h
    exact .inr ⟨rfl, names, s₃, hrun, eq_finish_of_leave h⟩

theorem ensureMembersBy_spec (wf : g.WellFormed) {steps : Nat}
    (hensure : EnsuresMembers g options (ensureMembersWithin g options steps)) :
    EnsuresMembers g options (ensureMembersWithin g options (steps + 1)) := by
  intro t s s' hs hhead h
  obtain ⟨hdone, rfl⟩ | ⟨hdone, resolved, s₁, ty, hresolve, hty, hrest⟩ := ensureMembersBy_eq_ok h
  · exact ⟨hs, .refl _ _ _, .inl hdone⟩
  obtain ⟨hgrow, hfit, hentry⟩ := ensureType_spec hs.sound.types hresolve
  have hs₁ := hs.grow hgrow hfit
  have hextends := hgrow.extends g fun _ => True
  rw [← hgrow.memberGuard] at hhead
  obtain ⟨hmem, rfl⟩ | ⟨henter, names, s₂, hrun, rfl⟩ := hrest
  · exact ⟨hs₁, hextends, .inr hmem⟩
  obtain rfl := wf.type_id hty
  have hfresh : ¬s₁.Begun ty.id := hgrow.not_begun_of_enter hdone henter
  have hbegin := hs₁.begin hfresh hhead
  have hafter : Within g options ty.id (s₁.begin ty.id) s₂ :=
    processMembers_within hensure wf hty ⟨hbegin, .refl _ _ _, _, rfl⟩ hrun
  let p : Processing g options := {
    type := ty, resolved, steps, before := s₁.begin ty.id, names, after := s₂
    known := hty
    sound := hbegin.sound
    head := ⟨_, rfl⟩
    entry := hentry
    fresh := fun m x hm hx => hs₁.sound.recordOf_eq_empty hfresh hm hx
    run := hrun }
  have hstart : p.before = s₁.begin p.type.id := rfl
  exact ⟨⟨p.sound_finished hstart hafter hs₁.sound, p.traced_finished hstart hafter hs₁.traced⟩,
    hextends.trans (p.extends_finished hstart hafter), .inl p.done_finished⟩

theorem ensureMembersWithin_spec (wf : g.WellFormed) (steps : Nat) :
    EnsuresMembers g options (ensureMembersWithin g options steps) := by
  induction steps with
  | zero => exact fun t s s' _ _ h => nomatch h
  | succ steps ih => exact ensureMembersBy_spec wf ih

/-- The processing of the members of its type is what is behind the type being done in the state
`s`: since then, its names and the records of its members have stayed as they were. -/
structure Processing.LeadsTo (p : Processing g options) (s : ResolutionState) : Prop where
  names : s.memberNames.find? p.type.id = some p.names
  before : Within g options p.type.id p.before p.before
  after : Within g options p.type.id p.before p.after
  later : p.after.Later g s
  records : ∀ k, g.Declared p.type.id k → s.recordOf k = p.after.recordOf k

namespace Processing

variable {p : Processing g options}

/-- Nothing is recorded about the members of the type of `p` when their processing begins. -/
theorem unrecorded (p : Processing g options) (k : MemberId) (hk : g.Declared p.type.id k) :
    p.before.recordOf k = .empty := by
  obtain ⟨x, hx, hxt⟩ := hk
  exact p.fresh hx hxt

theorem LeadsTo.entry (h : p.LeadsTo s) : s.types.find? p.type.id = some p.resolved := by
  refine h.later.types ?_
  exact h.after.grown.types p.entry

end Processing

/-- Behind every type that is done is the processing of its members. -/
theorem ResolutionState.Reached.exists_leadsTo (wf : g.WellFormed) (hs : s.Reached g options)
    (ht : s.Done t) : ∃ p : Processing g options, p.type.id = t ∧ p.LeadsTo s := by
  obtain ⟨names, hnames⟩ := done_iff.1 ht
  obtain ⟨p, rfl, rfl, hlater, hbefore⟩ := hs.traced.exists_processing hnames
  have hstart := p.within_before hbefore
  have hafter := processMembers_within (ensureMembersWithin_spec wf p.steps) wf p.known hstart p.run
  refine ⟨p, rfl, hnames, hstart, hafter, (p.later_finished hafter).trans hlater, ?_⟩
  rintro k ⟨x, hx, hxt⟩
  exact hlater.records hx (by rw [hxt]; exact p.done_finished)

theorem reached_of_forM_resolveRoot (wf : g.WellFormed) {roots : List TypeId} {s' : ResolutionState}
    (hs : s.Reached g options) (hvisiting : s.memberGuard.visiting = [])
    (h : roots.forM (resolveRoot g options) s = .ok ((), s')) :
    s'.Reached g options ∧ s'.memberGuard.visiting = [] := by
  induction roots generalizing s with
  | nil =>
    obtain ⟨-, rfl⟩ := run_pure_eq_ok.1 h
    exact ⟨hs, hvisiting⟩
  | cons t roots ih =>
    change (resolveRoot g options t >>= fun _ => roots.forM (resolveRoot g options)) s = _ at h
    rw [run_bind_eq_ok] at h
    obtain ⟨_, s₂, hroot, h⟩ := h
    rw [resolveRoot, run_bind_eq_ok] at hroot
    obtain ⟨resolved, s₁, hresolve, hmembers⟩ := hroot
    obtain ⟨hgrow, hfit, -⟩ := ensureType_spec hs.sound.types hresolve
    have hvisiting₁ : s₁.memberGuard.visiting = [] := by rw [hgrow.memberGuard, hvisiting]
    obtain ⟨hs₂, hextends, -⟩ := ensureMembersWithin_spec wf _ (hs.grow hgrow hfit)
      (by rw [hvisiting₁]; exact fun u hu => nomatch hu) hmembers
    exact ih hs₂ (by rw [hextends.memberGuard, hvisiting₁]) h

/-- A resolution resolves the `roots` that count, one after the other. -/
theorem resolve_eq_ok {roots : List TypeId} {main : AssemblyId} {r : Resolution}
    (h : g.resolve options roots main = .ok r) :
    ∃ (sorted : List TypeSymbol) (s : ResolutionState), g.sortedRoots roots = .ok sorted ∧
      ((sorted.filter (g.isResolvedRoot main)).map TypeSymbol.id).forM (resolveRoot g options)
        .initial = .ok ((), s) ∧ r = s.toResolution := by
  unfold TypeGraph.resolve at h
  obtain ⟨sorted, hsorted, h⟩ := bind_eq_ok.1 h
  obtain ⟨⟨_, s⟩, hrun, h⟩ := bind_eq_ok.1 h
  exact ⟨sorted, s, hsorted, hrun, (Except.ok.inj h).symm⟩

/-- The final state of a resolution is sound and has a history, and no type is in progress. -/
theorem reached_of_resolve (wf : g.WellFormed) {roots : List TypeId} {main : AssemblyId}
    {r : Resolution} (h : g.resolve options roots main = .ok r) :
    ∃ s : ResolutionState, r = s.toResolution ∧ s.Reached g options ∧
      s.memberGuard.visiting = [] := by
  obtain ⟨sorted, s, -, hrun, rfl⟩ := resolve_eq_ok h
  obtain ⟨hs, hvisiting⟩ := reached_of_forM_resolveRoot wf (.initial g options) rfl hrun
  exact ⟨s, rfl, hs, hvisiting⟩

/-- While no type is in progress, a member with a record belongs to a type that is done. -/
theorem ResolutionState.Sound.names_of_record (hs : s.Sound g options)
    (hvisiting : s.memberGuard.visiting = []) {m : MemberId} (hm : s.recordOf m ≠ .empty) :
    ∃ x names, g.member? m = some x ∧ s.memberNames.find? x.declaringType = some names := by
  obtain ⟨x, hx, hbegun⟩ := hs.records hm
  rw [Begun, hvisiting, or_iff_left List.not_mem_nil, done_iff] at hbegun
  obtain ⟨names, hnames⟩ := hbegun
  exact ⟨x, names, hx, hnames⟩

/-- A member of which a resolution tells how to call it, or where its name comes from, belongs to a
type that is done. -/
theorem done_of_resolve (wf : g.WellFormed) {roots : List TypeId} {main : AssemblyId}
    {r : Resolution} (h : g.resolve options roots main = .ok r) {m : MemberId} {x : MemberSymbol}
    (hx : g.member? m = some x) (hm : r.methods.find? m ≠ none ∨ r.origins.find? m ≠ none) :
    ∃ s : ResolutionState, r = s.toResolution ∧ s.Reached g options ∧ s.Done x.declaringType := by
  obtain ⟨s, rfl, hs, hvisiting⟩ := reached_of_resolve wf h
  have hrecord : s.recordOf m ≠ .empty := fun hempty => by
    rcases hm with hm | hm
    · exact hm (congrArg MemberRecord.method hempty)
    · exact hm (congrArg MemberRecord.origin hempty)
  obtain ⟨x', names, hx', hnames⟩ := hs.sound.names_of_record hvisiting hrecord
  obtain rfl := Option.some.inj (hx.symm.trans hx')
  exact ⟨s, rfl, hs, done_iff.2 ⟨names, hnames⟩⟩

end ScriptNaming
