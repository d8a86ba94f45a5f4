import ScriptNaming.Proofs.ReachedStates

/-!
# Courses of events

What happens in a resolution is a course of events (`Course`): types are resolved, something is
recorded about members of the type in progress, and the members of types are processed, in the
middle of which the same goes on for other types. Every request for the members of a type is such a
course (`course_of_ensureMembersWithin`), in any graph, so also where types inherit from each other
or members override each other.

A course leaves alone what it does not work on, it processes no type twice, and none that has been
begun before it (`Course.outcome`).
-/

namespace ScriptNaming

open ResolutionState

/-- A course of events from one state to another, where something may be recorded about the members
of the type `level`. The list has the types whose members are processed, in the order in which they
are begun. -/
inductive Course (g : TypeGraph) (options : Options) :
    (level : Option TypeId) → ResolutionState → List TypeId → ResolutionState → Prop
  | nothing {level : Option TypeId} {s : ResolutionState} : Course g options level s [] s
  | both {level : Option TypeId} {s s' s'' : ResolutionState} {l l' : List TypeId}
    (first : Course g options level s l s') (second : Course g options level s' l' s'') :
    Course g options level s (l ++ l') s''
  | record {t : TypeId} {s s' : ResolutionState} (change : s.ChangesAt (g.Declared t) s') :
    Course g options (some t) s [] s'
  /-- The members of a type are asked for that has been begun already. -/
  | again {level : Option TypeId} {t : TypeId} {resolved : ResolvedType} {s s' : ResolutionState}
    (type : ensureType g options t s = .ok (resolved, s')) (begun : s.Begun t) :
    Course g options level s [] s'
  /-- The members of a type are processed, after its base types have been begun. -/
  | process {level : Option TypeId} {t : TypeId} {ty : TypeSymbol} {resolved : ResolvedType}
    {steps : Nat} {names : NameRegistry} {s s₁ s₂ : ResolutionState} {l : List TypeId}
    (known : g.type? t = some ty) (undone : ¬s.memberNames.contains t)
    (type : ensureType g options t s = .ok (resolved, s₁))
    (enter : s₁.memberGuard.enter t = .entered (s₁.begin t).memberGuard)
    (run : processMembers g options (ensureMembersWithin g options steps) ty resolved (s₁.begin t) =
      .ok (names, s₂))
    (inside : Course g options (some t) (s₁.begin t) l s₂)
    (bases : ∀ bases, g.allBaseTypes ty = .ok bases → ∀ b ∈ bases, s₂.Begun b) :
    Course g options level s (t :: l) (s₂.finish t names)

section

variable {g : TypeGraph} {options : Options} {level : Option TypeId} {s s' : ResolutionState}
  {l : List TypeId}

/-! ## What a course comes to -/

/-- What is known after a course of events in which the types `l` are processed. -/
structure CourseOutcome (g : TypeGraph) (options : Options) (level : Option TypeId)
    (s : ResolutionState) (l : List TypeId) (s' : ResolutionState) : Prop where
  tidy : s'.Tidy g options
  /-- Only the records of the type `level` may have changed. -/
  grown : s.Extends g (fun t => level ≠ some t) s'
  nodup : l.Nodup
  fresh : ∀ t ∈ l, ¬s.Begun t
  done : ∀ t ∈ l, s'.Done t
  begun : ∀ t, s'.Begun t → s.Begun t ∨ t ∈ l

/-- Nothing is processed where `s'` extends `s` and no more types have been begun. -/
theorem CourseOutcome.of_extends (hs' : s'.Tidy g options)
    (h : s.Extends g (fun t => level ≠ some t) s') (hbegun : ∀ t, s'.Begun t → s.Begun t) :
    CourseOutcome g options level s [] s' where
  tidy := hs'
  grown := h
  nodup := .nil
  fresh _ h := nomatch h
  done _ h := nomatch h
  begun t ht := .inl (hbegun t ht)

/-- Resolving a type is part of any course. -/
theorem ResolutionState.Tidy.ensureType (hs : s.Tidy g options) {t : TypeId} {r : ResolvedType}
    (h : ensureType g options t s = .ok (r, s')) :
    s'.Tidy g options ∧ s.TypesGrow s' ∧ s'.types.find? t = some r := by
  obtain ⟨hgrow, hfit, hfound⟩ := ensureType_spec hs.types h
  exact ⟨hs.grow hgrow hfit, hgrow, hfound⟩

theorem CourseOutcome.of_ensureType (hs : s.Tidy g options) {t : TypeId} {r : ResolvedType}
    (h : ensureType g options t s = .ok (r, s')) (level : Option TypeId) :
    CourseOutcome g options level s [] s' := by
  obtain ⟨htidy, hgrow, -⟩ := hs.ensureType h
  exact .of_extends htidy (hgrow.extends g _) fun _ h => hgrow.begun_iff.1 h

/-- One course after another: none of the types in `l` that the first one is done with is processed
in the second one. -/
theorem CourseOutcome.append {s'' : ResolutionState} {l' : List TypeId}
    (h : CourseOutcome g options level s l s') (h' : CourseOutcome g options level s' l' s'') :
    CourseOutcome g options level s (l ++ l') s'' where
  tidy := h'.tidy
  grown := h.grown.trans h'.grown
  nodup := h.nodup.append h'.nodup fun t ht ht' => h'.fresh t ht' (.inl (h.done t ht))
  fresh t ht := by
    rcases List.mem_append.1 ht with ht | ht
    · exact h.fresh t ht
    · exact fun hbegun => h'.fresh t ht (h.grown.begun hbegun)
  done t ht := by
    rcases List.mem_append.1 ht with ht | ht
    · exact h'.grown.done (h.done t ht)
    · exact h'.done t ht
  begun t ht := by
    rcases h'.begun t ht with ht | ht
    · exact (h.begun t ht).imp_right (List.mem_append_left _)
    · exact .inr (List.mem_append_right _ ht)

/-- What happens while the members of `t` are processed happens to types other than `t`. -/
theorem CourseOutcome.finish {t : TypeId} (h : CourseOutcome g options (some t) (s.begin t) l s')
    (hs : s.Tidy g options) (hfresh : ¬s.Begun t) (level : Option TypeId) (names : NameRegistry) :
    CourseOutcome g options level s (t :: l) (s'.finish t names) := by
  have hbegin : (s.begin t).Extends g (· ≠ t) s' :=
    h.grown.mono fun u hu heq => hu (Option.some.inj heq).symm
  have hlater : s'.Later g (s'.finish t names) :=
    later_finish (not_done_of_begin hbegin h.tidy) names
  have hnot : t ∉ l := fun ht => h.fresh t ht (.inr (.head _))
  exact {
    tidy := h.tidy.finish hbegin hs
    grown := (extends_finish hbegin h.tidy).mono fun _ _ => trivial
    nodup := List.nodup_cons.2 ⟨hnot, h.nodup⟩
    fresh := fun u hu => by
      rcases List.mem_cons.1 hu with rfl | hu
      · exact hfresh
      · exact fun hbegun => h.fresh u hu (begun_begin hbegun t)
    done := fun u hu => by
      rcases List.mem_cons.1 hu with rfl | hu
      · exact s'.done_finish u names
      · exact hlater.done (h.done u hu)
    begun := fun u hu => by
      rw [begun_finish_iff hbegin] at hu
      rcases hu with rfl | hu
      · exact .inr (.head _)
      · rcases h.begun u hu with hu | hu
        · rcases begun_begin_iff.1 hu with rfl | hu
          · exact .inr (.head _)
          · exact .inl hu
        · exact .inr (.tail _ hu) }

/-- A course processes each type in `l` once and none that has been begun before, and it leaves
alone what is known for good, and the records of all types in progress but the one that it works on,
`level`. -/
theorem Course.outcome (h : Course g options level s l s') (hs : s.Tidy g options)
    (hlevel : ∀ t, level = some t → t ∈ s.memberGuard.visiting) :
    CourseOutcome g options level s l s' := by
  induction h with
  | nothing => exact .of_extends hs (.refl _ _ _) fun _ h => h
  | both first second ih ih' =>
    have h := ih hs hlevel
    exact h.append (ih' h.tidy fun t ht => by
      rw [h.grown.memberGuard]
      exact hlevel t ht)
  | @record t s s' change =>
    have ht := hlevel t rfl
    exact .of_extends (hs.changesAt ht change)
      ((change.extends (hs.notDone t ht)).mono fun u hu heq => hu (heq ▸ rfl)) fun u hu => by
        rwa [Begun, Done, change.memberNames, change.memberGuard] at hu
  | again type begun => exact .of_ensureType hs type _
  | @process level t ty resolved steps names s s₁ s₂ l known undone type enter run inside bases ih =>
    obtain ⟨hs₁, hgrow, -⟩ := hs.ensureType type
    have hfresh₁ : ¬s₁.Begun t := hgrow.not_begun_of_enter undone enter
    have h := ih (hs₁.begin hfresh₁) fun u hu => by
      obtain rfl := Option.some.inj hu
      exact .head _
    exact (CourseOutcome.of_ensureType hs type level).append (h.finish hs₁ hfresh₁ level names)

/-! ## Requests are courses -/

/-- Requests for members by `ensure` are courses of events, whatever is in progress; afterwards the
type has been begun. -/
def RunsCourses (g : TypeGraph) (options : Options) (ensure : TypeId → Resolve Unit) : Prop :=
  ∀ (level : Option TypeId) ⦃t s s'⦄, s.Tidy g options → ensure t s = .ok ((), s') →
    (∃ l, Course g options level s l s') ∧ s'.Begun t

variable {ensure : TypeId → Resolve Unit} (hensure : RunsCourses g options ensure) {t : TypeId}

/-- Some course at the level of `t` leads from one state to another. -/
def Leads (g : TypeGraph) (options : Options) (t : TypeId) (s s' : ResolutionState) : Prop :=
  ∃ l, Course g options (some t) s l s'

theorem leads_keepsChanges (g : TypeGraph) (options : Options) (t : TypeId) (s : ResolutionState) :
    KeepsChanges (g.Declared t) (Leads g options t s) :=
  fun _ _ ⟨_, hcourse⟩ change => ⟨_, hcourse.both (.record change)⟩

include hensure

theorem Leads.request (hs : s.Tidy g options) (ht : t ∈ s.memberGuard.visiting) {u : TypeId}
    {s₁ : ResolutionState} (h : Leads g options t s s₁) (hrun : ensure u s₁ = .ok ((), s')) :
    Leads g options t s s' := by
  obtain ⟨l, hcourse⟩ := h
  have hs₁ := (hcourse.outcome hs fun v hv => Option.some.inj hv ▸ ht).tidy
  obtain ⟨⟨l', hcourse'⟩, -⟩ := hensure (some t) hs₁ hrun
  exact ⟨_, hcourse.both hcourse'⟩

theorem forM_leads {bases : List TypeId} (hs : s.Tidy g options)
    (ht : t ∈ s.memberGuard.visiting) (h : bases.forM ensure s = .ok ((), s')) :
    Leads g options t s s' ∧ ∀ b ∈ bases, s'.Begun b := by
  induction bases generalizing s with
  | nil =>
    obtain ⟨-, rfl⟩ := run_pure_eq_ok.1 h
    exact ⟨⟨[], .nothing⟩, fun b hb => nomatch hb⟩
  | cons b bases ih =>
    change (ensure b >>= fun _ => bases.forM ensure) s = _ at h
    rw [run_bind_eq_ok] at h
    obtain ⟨_, s₁, hrun, h⟩ := h
    obtain ⟨⟨l, hcourse⟩, hbegun⟩ := hensure (some t) hs hrun
    have hlevel : ∀ u, some t = some u → u ∈ s.memberGuard.visiting :=
      fun u hu => Option.some.inj hu ▸ ht
    have houtcome := hcourse.outcome hs hlevel
    have ht₁ : t ∈ s₁.memberGuard.visiting := by rwa [houtcome.grown.memberGuard]
    obtain ⟨⟨l', hcourse'⟩, hbegun'⟩ := ih houtcome.tidy ht₁ h
    refine ⟨⟨_, hcourse.both hcourse'⟩, fun c hc => ?_⟩
    rcases List.mem_cons.1 hc with rfl | hc
    · exact (hcourse'.outcome houtcome.tidy fun u hu => Option.some.inj hu ▸ ht₁).grown.begun
        hbegun
    · exact hbegun' c hc

/-- The members of a type in progress are processed in a course of events, at the end of which its
base types have been begun. -/
theorem processMembers_leads (wf : g.WellFormed) {ty : TypeSymbol} (hty : g.type? t = some ty)
    {resolved : ResolvedType} {names : NameRegistry} (hs : s.Tidy g options)
    (ht : t ∈ s.memberGuard.visiting)
    (h : processMembers g options ensure ty resolved s = .ok (names, s')) :
    Leads g options t s s' ∧
      ∀ bases, g.allBaseTypes ty = .ok bases → ∀ b ∈ bases, s'.Begun b := by
  obtain ⟨bases, s₁, hbases, hrun, hrest⟩ := processMembers_after_bases wf hty h
  obtain ⟨⟨l, hcourse⟩, hbegun⟩ := forM_leads hensure hs ht hrun
  have houtcome := hcourse.outcome hs fun v hv => Option.some.inj hv ▸ ht
  have ht₁ : t ∈ s₁.memberGuard.visiting := by rwa [houtcome.grown.memberGuard]
  obtain ⟨l', hcourse'⟩ := hrest (Leads g options t s₁) (leads_keepsChanges g options t s₁)
    (fun u _ s s' hleads hrequest => hleads.request hensure houtcome.tidy ht₁ hrequest)
    ⟨[], .nothing⟩
  have houtcome' := hcourse'.outcome houtcome.tidy fun v hv => Option.some.inj hv ▸ ht₁
  refine ⟨⟨_, hcourse.both hcourse'⟩, fun bases' hbases' b hb => ?_⟩
  obtain rfl := Except.ok.inj (hbases.symm.trans hbases')
  exact houtcome'.grown.begun (hbegun b hb)

omit hensure

/-- Every request for the members of a type is a course of events. -/
theorem course_of_ensureMembersWithin (wf : g.WellFormed) (steps : Nat) :
    RunsCourses g options (ensureMembersWithin g options steps) := by
  induction steps with
  | zero => exact fun _ _ _ _ _ h => nomatch h
  | succ steps ih =>
    intro level t s s' hs h
    obtain ⟨hdone, rfl⟩ | ⟨hdone, resolved, s₁, ty, htype, hty, hrest⟩ := ensureMembersBy_eq_ok h
    · exact ⟨⟨[], .nothing⟩, .inl hdone⟩
    obtain ⟨hs₁, hgrow, -⟩ := hs.ensureType htype
    obtain ⟨hmem, rfl⟩ | ⟨henter, names, s₂, hrun, rfl⟩ := hrest
    · exact ⟨⟨[], .again htype (hgrow.begun_iff.1 (.inr hmem))⟩, .inr hmem⟩
    have hbegin := hs₁.begin (hgrow.not_begun_of_enter hdone henter)
    obtain ⟨⟨l, hcourse⟩, hbases⟩ := processMembers_leads ih wf hty hbegin (.head _) hrun
    exact ⟨⟨_, .process hty hdone htype henter hrun hcourse hbases⟩, .inl (s₂.done_finish t names)⟩

end

end ScriptNaming
