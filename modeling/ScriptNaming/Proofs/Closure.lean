import ScriptNaming.Proofs.MemberEntries
import ScriptNaming.Proofs.Roots
import ScriptNaming.Proofs.WriteOnce

/-!
# What a resolution comes to

A resolution processes a set of types that has the roots in it and, with each type, everything that
it inherits from (`Resolution.ClosedOver`, `resolve_closedOver`). The members of these types have
all their entries, other members have none, and entries for types come from resolving these types.
This goes for all graphs that declarations put together, also where types inherit from each other,
so that a type is passed over while it is in progress.

Resolving a type resolves the type around it first, unless a marker takes the type its place in
script: so it is not the case that all types around a processed type are resolved
(`veiledGraph_not_closedOver`).
-/

namespace ScriptNaming

open ResolutionState

section

variable {g : TypeGraph} {options : Options} {level : Option TypeId} {s s' : ResolutionState}
  {l : List TypeId} {t : TypeId}

/-! ## Courses of events -/

/-- A type has an entry, and everything that it inherits from has been begun. -/
structure ResolutionState.Closes (s : ResolutionState) (g : TypeGraph) (t : TypeId) : Prop where
  entry : s.types.contains t
  bases : ∃ ty bases, g.type? t = some ty ∧ g.allBaseTypes ty = .ok bases ∧ ∀ b ∈ bases, s.Begun b

/-- There is an entry for `u` because of a type that has been begun. -/
def ResolutionState.Owes (s : ResolutionState) (g : TypeGraph) (u : TypeId) : Prop :=
  ∃ t, s.Begun t ∧ Relation.ReflTransGen g.ResolvesAfter t u

theorem ResolutionState.Later.contains_type (h : s.Later g s') (ht : s.types.contains t) :
    s'.types.contains t := by
  obtain ⟨r, hr⟩ := Option.isSome_iff_exists.1 ht
  exact Option.isSome_iff_exists.2 ⟨r, h.types hr⟩

section

variable {others : TypeId → Prop}

theorem ResolutionState.Closes.extends (ht : s.Closes g t) (h : s.Extends g others s') :
    s'.Closes g t := by
  obtain ⟨ty, bases, hty, hbases, hbegun⟩ := ht.bases
  exact ⟨h.toLater.contains_type ht.entry, ty, bases, hty, hbases,
    fun b hb => h.begun (hbegun b hb)⟩

theorem ResolutionState.Owes.extends (ht : s.Owes g t) (h : s.Extends g others s') :
    s'.Owes g t := by
  obtain ⟨u, hu, hpath⟩ := ht
  exact ⟨u, h.begun hu, hpath⟩

end

/-- What a course of events adds is closed. -/
structure CourseClosure (g : TypeGraph) (s : ResolutionState) (l : List TypeId)
    (s' : ResolutionState) : Prop where
  types : ∀ u, s'.types.contains u → s.types.contains u ∨ s'.Owes g u
  processed : ∀ t ∈ l, s'.Closes g t

/-- In a course of events, types get entries because of types that are begun, and the base types of
those that are processed are begun as well. -/
theorem Course.closure (h : Course g options level s l s') (hs : s.Tidy g options)
    (hlevel : ∀ t, level = some t → t ∈ s.memberGuard.visiting) : CourseClosure g s l s' := by
  induction h with
  | nothing => exact ⟨fun u hu => .inl hu, fun t ht => nomatch ht⟩
  | both first second ih ih' =>
    have houtcome := first.outcome hs hlevel
    have hlevel' := fun t ht => houtcome.grown.memberGuard ▸ hlevel t ht
    have hgrown := (second.outcome houtcome.tidy hlevel').grown
    have h := ih hs hlevel
    have h' := ih' houtcome.tidy hlevel'
    refine ⟨fun u hu => ?_, fun t ht => ?_⟩
    · rcases h'.types u hu with hu | hu
      · exact (h.types u hu).imp_right fun hu => hu.extends hgrown
      · exact .inr hu
    · rcases List.mem_append.1 ht with ht | ht
      · exact (h.processed t ht).extends hgrown
      · exact h'.processed t ht
  | record change =>
    refine ⟨fun u hu => .inl ?_, fun t ht => nomatch ht⟩
    rwa [change.types] at hu
  | again type begun =>
    obtain ⟨hgrow, -, -, hadded⟩ := ensureType_spec hs.types type
    refine ⟨fun u hu => (hadded hu).imp_right fun hpath => ?_, fun t ht => nomatch ht⟩
    exact ⟨_, hgrow.begun_iff.2 begun, hpath⟩
  | @process level t ty resolved steps names s s₁ s₂ l known undone type enter run inside bases ih =>
    obtain ⟨hgrow, hfit, hfound, hadded⟩ := ensureType_spec hs.types type
    have hbegin₁ := (hs.grow hgrow hfit).begin (hgrow.not_begun_of_enter undone enter)
    have hlevel₁ : ∀ u, some t = some u → u ∈ (s₁.begin t).memberGuard.visiting := fun u hu =>
      Option.some.inj hu ▸ .head _
    have houtcome := inside.outcome hbegin₁ hlevel₁
    have hbegin : (s₁.begin t).Extends g (· ≠ t) s₂ :=
      houtcome.grown.mono fun u hu heq => hu (Option.some.inj heq).symm
    have h := ih hbegin₁ hlevel₁
    have hfinish {u : TypeId} (hu : s₂.Begun u) : (s₂.finish t names).Begun u :=
      (begun_finish_iff hbegin).2 (.inr hu)
    have howes {u : TypeId} (hu : s₂.Owes g u) : (s₂.finish t names).Owes g u := by
      obtain ⟨v, hv, hpath⟩ := hu
      exact ⟨v, hfinish hv, hpath⟩
    obtain ⟨bases', -, hbases', -⟩ := processMembers_eq_ok run
    refine ⟨fun u hu => ?_, fun u hu => ?_⟩
    · rcases h.types u hu with hu | hu
      · refine (hadded hu).imp_right fun hpath => ⟨t, ?_, hpath⟩
        exact (begun_finish_iff hbegin).2 (.inl rfl)
      · exact .inr (howes hu)
    · rcases List.mem_cons.1 hu with rfl | hu
      · have hentry : s₁.types.contains u := Option.isSome_iff_exists.2 ⟨_, hfound⟩
        exact ⟨hbegin.toLater.contains_type hentry, ty, bases', known, hbases',
          fun b hb => hfinish (bases bases' hbases' b hb)⟩
      · obtain ⟨hentry, ty', bases'', hty', hbases'', hbegun⟩ := h.processed u hu
        exact ⟨hentry, ty', bases'', hty', hbases'', fun b hb => hfinish (hbegun b hb)⟩

/-! ## Roots -/

/-- There are no entries for types but those that types which have been begun ask for, and with each
of these types its base types have been begun. -/
structure ResolutionState.Closed (s : ResolutionState) (g : TypeGraph) : Prop where
  types : ∀ u, s.types.contains u → s.Owes g u
  begun : ∀ t, s.Begun t → s.Closes g t

theorem ResolutionState.Closed.initial (g : TypeGraph) : ResolutionState.initial.Closed g where
  types u h := nomatch h
  begun t h := by
    rcases h with h | h
    · cases h
    · cases h

/-- A resolved root has been begun, and the rest is closed again. -/
theorem ResolutionState.Closed.resolveRoot (wf : g.WellFormed) (hs : s.Tidy g options)
    (hclosed : s.Closed g)
    (h : resolveRoot g options t s = .ok ((), s')) :
    s'.Tidy g options ∧ s.Extends g (fun _ => True) s' ∧ s'.Closed g ∧ s'.Begun t := by
  rw [ScriptNaming.resolveRoot, run_bind_eq_ok] at h
  obtain ⟨resolved, s₁, htype, hmembers⟩ := h
  obtain ⟨hgrow, hfit, -, hadded⟩ := ensureType_spec hs.types htype
  have hs₁ := hs.grow hgrow hfit
  obtain ⟨⟨l, hcourse⟩, ht⟩ := course_of_ensureMembersWithin wf _ none hs₁ hmembers
  have hnone (u : TypeId) (hu : none = some u) : False := Option.some_ne_none u hu.symm
  have houtcome := hcourse.outcome hs₁ fun u hu => (hnone u hu).elim
  have hclosure := hcourse.closure hs₁ fun u hu => (hnone u hu).elim
  have hextends : s.Extends g (fun _ => True) s' := (hgrow.extends g _).trans
    (houtcome.grown.mono fun u _ => (Option.some_ne_none u).symm)
  refine ⟨houtcome.tidy, hextends, ⟨fun u hu => ?_, fun u hu => ?_⟩, ht⟩
  · rcases hclosure.types u hu with hu | hu
    · rcases hadded hu with hu | hpath
      · exact (hclosed.types u hu).extends hextends
      · exact ⟨t, ht, hpath⟩
    · exact hu
  · rcases houtcome.begun u hu with hu | hu
    · exact (hclosed.begun u (hgrow.begun_iff.1 hu)).extends hextends
    · exact hclosure.processed u hu

theorem closed_of_forM_resolveRoot (wf : g.WellFormed) {roots : List TypeId}
    (hs : s.Tidy g options) (hclosed : s.Closed g)
    (h : roots.forM (resolveRoot g options) s = .ok ((), s')) :
    s.Extends g (fun _ => True) s' ∧ s'.Closed g ∧ ∀ t ∈ roots, s'.Begun t := by
  induction roots generalizing s with
  | nil =>
    obtain ⟨-, rfl⟩ := run_pure_eq_ok.1 h
    exact ⟨.refl _ _ _, hclosed, fun t ht => nomatch ht⟩
  | cons t roots ih =>
    change (resolveRoot g options t >>= fun _ => roots.forM (resolveRoot g options)) s = _ at h
    rw [run_bind_eq_ok] at h
    obtain ⟨_, s₁, hroot, h⟩ := h
    obtain ⟨hs₁, hextends, hclosed₁, ht⟩ := hclosed.resolveRoot wf hs hroot
    obtain ⟨hextends', hclosed', hroots⟩ := ih hs₁ hclosed₁ h
    refine ⟨hextends.trans hextends', hclosed', fun u hu => ?_⟩
    rcases List.mem_cons.1 hu with rfl | hu
    · exact hextends'.begun ht
    · exact hroots u hu

end

/-! ## Resolutions -/

/-- The types `P` are processed in a resolution of the roots. They have the roots that count in
them, and with a type all that it inherits from; entries for types come from going `outward` from
them; their members have all their entries, and other members have none. -/
structure Resolution.ClosedOver (r : Resolution) (g : TypeGraph) (roots : List TypeId)
    (main : AssemblyId) (outward : TypeId → TypeId → Prop) (P : Set TypeId) : Prop where
  roots : ∀ t ∈ roots, ∃ ty, g.type? t = some ty ∧ (g.isResolvedRoot main ty → t ∈ P)
  bases : ∀ t ∈ P, ∃ ty bases, g.type? t = some ty ∧ g.allBaseTypes ty = .ok bases ∧
    ∀ b ∈ bases, b ∈ P
  types : ∀ u, r.types.contains u ↔ ∃ t ∈ P, Relation.ReflTransGen outward t u
  members : ∀ t ∈ P, ∀ ty, g.type? t = some ty → ∀ m ∈ g.membersOf ty, m.HasEntries r.recordOf
  outside : ∀ m x, g.member? m = some x → x.declaringType ∉ P → r.recordOf m = .empty

/-- Where `t` has an entry, the types that are resolved before it have entries as well. -/
theorem TypeGraph.TypesFit.contains {g : TypeGraph} {options : Options}
    {types : Table TypeId ResolvedType} (hfit : g.TypesFit options types) {t u : TypeId}
    (ht : types.contains t) (hpath : Relation.ReflTransGen g.ResolvesAfter t u) :
    types.contains u := by
  induction hpath with
  | refl => exact ht
  | @tail v w _ hstep ih =>
    obtain ⟨r, hr⟩ := Option.isSome_iff_exists.1 ih
    obtain ⟨ty, hty, hfits⟩ := hfit hr
    obtain ⟨ty', hty', hscriptable, houter⟩ := hstep
    obtain rfl := Option.some.inj (hty.symm.trans hty')
    cases hfits with
    | marked has eq => exact absurd has hscriptable
    | enclosed hasNot x outer declaringType found unusable eq =>
      obtain rfl := Option.some.inj (houter.symm.trans declaringType)
      exact Option.isSome_iff_exists.2 ⟨outer, found⟩
    | usable hasNot outer found usable taken eq =>
      rw [houter] at found
      cases outer with
      | none => cases found
      | some outer => exact Option.isSome_iff_exists.2 ⟨outer, Option.some.inj found⟩

/-- **Resolutions are closed**: in a graph that declarations put together, a resolution that has a
result has processed a set `P` of types, the roots that count and everything that these depend on by
inheritance. All members of the types in `P` have their entries, and no others have any; the types
with entries are those that it takes to resolve the ones in `P`. -/
theorem resolve_closedOver {g : TypeGraph} (hg : g.Built) {options : Options}
    {roots : List TypeId} {main : AssemblyId} {r : Resolution}
    (h : g.resolve options roots main = .ok r) :
    ∃ P : Set TypeId, r.ClosedOver g roots main g.ResolvesAfter P := by
  have wf := hg.wellFormed
  obtain ⟨sorted, s, hsorted, hrun, rfl⟩ := resolve_eq_ok h
  obtain ⟨hreached, hvisiting⟩ := reached_of_forM_resolveRoot wf (.initial g options) rfl hrun
  obtain ⟨-, hclosed, hroots⟩ :=
    closed_of_forM_resolveRoot wf (.initial g options) (.initial g) hrun
  have hdone {t : TypeId} (ht : s.Begun t) : s.Done t := by
    rcases ht with ht | ht
    · exact ht
    · rw [hvisiting] at ht
      cases ht
  refine ⟨{t | s.Done t}, ?_⟩
  exact {
    roots := fun t ht => by
      obtain ⟨ty, hmem, hty⟩ := TypeGraph.exists_mem_sortedRoots hsorted ht
      refine ⟨ty, hty, fun hresolved => hdone (hroots t (List.mem_map.2 ⟨ty, ?_, wf.type_id hty⟩))⟩
      exact List.mem_filter.2 ⟨hmem, hresolved⟩
    bases := fun t ht => by
      obtain ⟨-, ty, bases, hty, hbases, hbegun⟩ := hclosed.begun t (.inl ht)
      exact ⟨ty, bases, hty, hbases, fun b hb => hdone (hbegun b hb)⟩
    types := fun u => by
      constructor
      · intro hu
        obtain ⟨t, ht, hpath⟩ := hclosed.types u hu
        exact ⟨t, hdone ht, hpath⟩
      · rintro ⟨t, ht, hpath⟩
        exact hreached.sound.types.contains (hclosed.begun t (.inl ht)).entry hpath
    members := fun t ht ty hty => hasEntries_of_done wf hreached ht hty
    outside := fun m x hx hnot => hreached.sound.toTidy.recordOf_eq_empty
      (fun hbegun => hnot (hdone hbegun)) hx rfl }

/-- The second class inherits from the first one, and the first from the second. -/
theorem heirs_closedOver :
    heirGraph.Built ∧ ∃ r, heirGraph.resolve {} [⟨0⟩] ⟨0⟩ = .ok r ∧
      ∃ P : Set TypeId, r.ClosedOver heirGraph [⟨0⟩] ⟨0⟩ heirGraph.ResolvesAfter P := by
  have hrun : (heirGraph.resolve {} [⟨0⟩] ⟨0⟩).toOption.any fun _ => true := by decide +kernel
  obtain ⟨r, hr, -⟩ := exists_of_any_toOption hrun
  exact ⟨built_heirGraph, r, hr, resolve_closedOver built_heirGraph hr⟩

/-! ## Types around processed types -/

/-- A class with a nested one that a marker takes out of script. -/
def veiledClass : Except Fault TypeGraph := do
  let (g, zoo) := TypeGraph.declareAssembly ∅ "Zoo"
  let (g, keeper) ← g.declareType zoo { name := "Keeper" }
  let (g, _) ← g.declareType zoo
    { name := "Diary", declaringType := some keeper, attributes := [⟨"NonScriptable", []⟩] }
  return g

/-- The graph of the two classes. -/
def veiledGraph : TypeGraph := veiledClass.toOption.getD ∅

theorem built_veiledGraph : veiledGraph.Built := by
  have hg : veiledClass = .ok veiledGraph := eq_ok_getD (by decide +kernel)
  obtain ⟨⟨g₁, keeper⟩, hkeeper, h⟩ := bind_eq_ok.1 hg
  obtain ⟨⟨g₂, diary⟩, hdiary, h⟩ := bind_eq_ok.1 h
  rw [← Except.ok.inj h]
  exact .type (.type (.assembly .empty "Zoo") hkeeper) hdiary

/-- The nested class is processed, and there is no entry for the class around it. -/
theorem veiledGraph_not_closedOver :
    veiledGraph.Built ∧ (∀ t b, veiledGraph.NamesBase t b → (veiledGraph.type? b).isSome) ∧
      ∃ r, veiledGraph.resolve {} [⟨1⟩] ⟨0⟩ = .ok r ∧
        ¬∃ P : Set TypeId, r.ClosedOver veiledGraph [⟨1⟩] ⟨0⟩ veiledGraph.NestedIn P := by
  have hrun : (veiledGraph.resolve {} [⟨1⟩] ⟨0⟩).toOption.any fun r => !r.types.contains ⟨0⟩ := by
    decide +kernel
  have hdiary : (veiledGraph.type? ⟨1⟩).any fun ty =>
      veiledGraph.isResolvedRoot ⟨0⟩ ty ∧ ty.declaringType = some ⟨0⟩ := by
    decide +kernel
  have hbases : veiledGraph.types.all fun ty => ty.baseTypes.isEmpty := by decide +kernel
  obtain ⟨r, hr, hentry⟩ := exists_of_any_toOption hrun
  obtain ⟨ty, hty, htest⟩ := (Option.any_eq_true _ _).1 hdiary
  obtain ⟨hresolved, houter⟩ := of_decide_eq_true htest
  refine ⟨built_veiledGraph, ?_, r, hr, ?_⟩
  · rintro t b ⟨ty', hty', hb⟩
    have hempty := Array.all_eq_true'.1 hbases ty' (Array.mem_of_getElem? hty')
    rw [List.isEmpty_iff.1 hempty] at hb
    cases hb
  · rintro ⟨P, closed⟩
    obtain ⟨ty', hty', hprocessed⟩ := closed.roots ⟨1⟩ (.head _)
    obtain rfl := Option.some.inj (hty.symm.trans hty')
    have hkeeper := (closed.types ⟨0⟩).2
      ⟨⟨1⟩, hprocessed hresolved, .single ⟨ty, hty, houter⟩⟩
    rw [hkeeper] at hentry
    cases hentry

end ScriptNaming
