import ScriptNaming.Proofs.MethodOutcomes
import ScriptNaming.Proofs.Progress

/-!
# Members one after the other

The members of a type have their records apart (`plan_apart`, `alternates_apart`,
`named_apart_alternates`), so that they are resolved one after the other, each of them once. What
the step for one member comes to, as long as nothing is recorded before about the member and its
accessors (`Settles`), all steps together come to (`resolveMembers_settles`,
`forM_markNotUsable_settles`).
-/

namespace ScriptNaming

open ResolutionState

/-- The step `x` resolves the member `m`, about which and about whose accessors nothing is recorded
so far: only these get records, `Inv` goes on to hold of the registry and the state, and `Post`
comes to hold. In the `total` case the step succeeds. -/
def Settles (total : Prop) (g : TypeGraph) (options : Options) (t : TypeId)
    (Inv : NameRegistry → ResolutionState → Prop) (Post : MemberSymbol → ResolutionState → Prop)
    (m : MemberSymbol) (x : NameRegistry → Resolve NameRegistry) : Prop :=
  ∀ ⦃s₀ s : ResolutionState⦄ ⦃names : NameRegistry⦄, Within g options t s₀ s → Inv names s →
    (∀ k, m.Covers k → s.recordOf k = .empty) →
    EndsIn total (fun names' s' => Framed g options t m.Covers s s' ∧ Inv names' s' ∧ Post m s')
      (x names s)

/-- What holds of a member as long as its record and those of its accessors stay the same. -/
def DependsOnRecords (Post : MemberSymbol → ResolutionState → Prop) : Prop :=
  ∀ ⦃m s s'⦄, Post m s → (∀ k, m.Covers k → s'.recordOf k = s.recordOf k) → Post m s'

section

variable {total : Prop} {g : TypeGraph} {options : Options} {t : TypeId} {ty : TypeSymbol}
  {resolved : ResolvedType} {ensure : TypeId → Resolve Unit} {m : MemberSymbol}
  {Inv : NameRegistry → ResolutionState → Prop} {Post : MemberSymbol → ResolutionState → Prop}
  {names : NameRegistry} {s₀ s s' : ResolutionState}

/-! ## Records that are apart -/

/-- Different members `m` and `m'` of a type have no accessors in common, and none is an accessor of
another. -/
theorem TypeGraph.Lists.apart (wf : g.WellFormed) {m' : MemberSymbol} (hm : g.Lists t m)
    (hm' : g.Lists t m') (hne : m ≠ m') : m.Apart m' := by
  intro k hk
  have howner {x : MemberSymbol} (hx : g.Lists t x) {a : MemberId} (ha : a ∈ x.accessors) :
      ∃ y, g.member? a = some y ∧ y.accessorOf = some x.id := by
    obtain ⟨slot, hslot⟩ := MemberSymbol.mem_accessors.1 ha
    obtain ⟨y, hy, -, haccessor⟩ := wf.accessor hx.1.1 hslot
    exact ⟨y, hy, haccessor⟩
  have hids : m.id ≠ m'.id := by
    intro h
    have hsame := hm'.1.1
    rw [← h, hm.1.1] at hsame
    exact hne (Option.some.inj hsame)
  have hnot {x x' : MemberSymbol} (hx : g.Lists t x) (hx' : g.Lists t x') :
      x'.id ∉ x.accessors := by
    intro hmem
    obtain ⟨y, hy, haccessor⟩ := howner hx hmem
    rw [Option.some.inj (hy.symm.trans hx'.1.1), hx'.2] at haccessor
    cases haccessor
  rcases hk with rfl | hk
  · rintro (h | h)
    · exact hids h.symm
    · exact hnot hm hm' h
  · rintro (rfl | h)
    · exact hnot hm' hm hk
    · obtain ⟨y, hy, haccessor⟩ := howner hm h
      obtain ⟨y', hy', haccessor'⟩ := howner hm' hk
      obtain rfl := Option.some.inj (hy.symm.trans hy')
      exact hids (Option.some.inj (haccessor.symm.trans haccessor'))

theorem canonicalMembers_nodup (wf : g.WellFormed) (hty : g.type? t = some ty) :
    (g.canonicalMembers ty).Nodup := by
  have hmembers : ty.members.Nodup :=
    (wf.ascending hty).imp fun h => fun heq => absurd h (heq ▸ Nat.lt_irrefl _)
  refine (sortBy_perm _ _).nodup_iff.2 (hmembers.filterMap fun k k' m hk hk' => ?_)
  rw [← wf.member_id hk, ← wf.member_id hk']

/-- The members of `ty` that are named are apart from each other. -/
theorem plan_apart (wf : g.WellFormed) (hty : g.type? t = some ty) :
    (g.memberContext options ensure ty resolved).plan.Pairwise fun p q => p.1.Apart q.1 := by
  have hlists {m : MemberSymbol} (hm : m ∈ g.namedMembers ty) : g.Lists t m :=
    TypeGraph.lists_of_mem_canonicalMembers wf hty (TypeGraph.mem_namedMembers.1 hm).1
  have hplan := (g.memberContext options ensure ty resolved).map_fst_plan_perm
  have hnodup : ((g.memberContext options ensure ty resolved).plan.map Prod.fst).Nodup :=
    hplan.nodup_iff.2 ((canonicalMembers_nodup wf hty).filter _)
  refine List.pairwise_map.1 (hnodup.pairwise_of_forall_ne fun m hm m' hm' hne => ?_)
  exact (hlists (hplan.mem_iff.1 hm)).apart wf (hlists (hplan.mem_iff.1 hm')) hne

/-- The members of `ty` that have a main method are apart from each other. -/
theorem alternates_apart (wf : g.WellFormed) (hty : g.type? t = some ty) :
    (g.alternates ty).Pairwise fun p q => p.1.Apart q.1 := by
  have hlists {m : MemberSymbol} (hm : m ∈ g.canonicalMembers ty) : g.Lists t m :=
    TypeGraph.lists_of_mem_canonicalMembers wf hty hm
  refine List.pairwise_filterMap.2
    ((canonicalMembers_nodup wf hty).pairwise_of_forall_ne fun m hm m' hm' hne => ?_)
  intro p hp q hq
  split at hp
  · split at hq
    · rw [← Option.some.inj hp, ← Option.some.inj hq]
      exact (hlists hm).apart wf (hlists hm') hne
    · cases hq
  · cases hp

/-- A member `m` that is named is apart from those that have a main method. -/
theorem named_apart_alternates (wf : g.WellFormed) (hty : g.type? t = some ty)
    (hm : m ∈ g.namedMembers ty) {p : MemberSymbol × MemberSymbol} (hp : p ∈ g.alternates ty) :
    m.Apart p.1 := by
  obtain ⟨hmem, hnot⟩ := TypeGraph.mem_namedMembers.1 hm
  obtain ⟨hmem', hmain⟩ := TypeGraph.mem_alternates.1 hp
  have hne : m ≠ p.1 := fun h => hnot p.2 (h ▸ hmain)
  exact (TypeGraph.lists_of_mem_canonicalMembers wf hty hmem).apart wf
    (TypeGraph.lists_of_mem_canonicalMembers wf hty hmem') hne

/-! ## All members of a type -/

/-- Resolves the own members of a usable type that are named, in the order of the plan, from the
names `inherited` on. -/
def MemberContext.resolveNamed (c : MemberContext) (inherited : NameRegistry) :
    Resolve NameRegistry := do
  report c.planProblems
  c.plan.foldlM (fun names p => c.resolveMember p.1 p.2 names) inherited

variable (wf : g.WellFormed) (stable : DependsOnRecords Post)

include wf stable

/-- Members of `l` whose records are apart are resolved by `f` one after the other. -/
theorem foldlM_settles {α : Type} (member : α → MemberSymbol)
    {f : NameRegistry → α → Resolve NameRegistry} {l : List α}
    (hf : ∀ a ∈ l, g.Owns t (member a) ∧ Settles total g options t Inv Post (member a) (f · a))
    (hapart : l.Pairwise fun a b => (member a).Apart (member b))
    (hs : Within g options t s₀ s) (hinv : Inv names s)
    (hempty : ∀ a ∈ l, ∀ k, (member a).Covers k → s.recordOf k = .empty) :
    EndsIn total (fun names' s' => Framed g options t (fun k => ∃ a ∈ l, (member a).Covers k) s s' ∧
      Inv names' s' ∧ ∀ a ∈ l, Post (member a) s') (l.foldlM f names s) := by
  induction l generalizing s₀ s names with
  | nil => exact ⟨.start hs _, hinv, fun a ha => nomatch ha⟩
  | cons a l ih =>
    rw [List.foldlM_cons]
    obtain ⟨hfirst, hrest⟩ := List.pairwise_cons.1 hapart
    refine ((hf a (.head _)).2 hs hinv (hempty a (.head _))).bind fun names₁ s₁ h => ?_
    obtain ⟨hs₁, hinv₁, hpost⟩ := h
    have hempty₁ (b : α) (hb : b ∈ l) (k : MemberId) (hk : (member b).Covers k) :
        s₁.recordOf k = .empty := by
      have hdeclared := (hf b (.tail _ hb)).1.declared_of_covers wf hk
      exact (hs₁.frame hdeclared (hfirst b hb k hk)).trans (hempty b (.tail _ hb) k hk)
    refine (ih (fun b hb => hf b (.tail _ hb)) hrest hs₁.toWithin hinv₁ hempty₁).mono
      fun names' s' h => ?_
    obtain ⟨hs', hinv', hposts⟩ := h
    refine ⟨(hs₁.mono fun k hk => ⟨a, .head _, hk⟩).trans (hs'.mono fun k hk => ?_), hinv',
      fun b hb => ?_⟩
    · obtain ⟨b, hb, hk⟩ := hk
      exact ⟨b, .tail _ hb, hk⟩
    · rcases List.mem_cons.1 hb with rfl | hb
      · -- The members that follow leave the records of the first one alone.
        refine stable hpost fun k hk => hs'.frame ?_ ?_
        · exact (hf b (.head _)).1.declared_of_covers wf hk
        · rintro ⟨c, hc, hck⟩
          exact hfirst c hc k hck hk
      · exact hposts b hb

/-- Each member `a` is resolved at some point, when those in `before` have their records. -/
theorem foldlM_settles_at {α : Type} (member : α → MemberSymbol)
    {f : NameRegistry → α → Resolve NameRegistry} {before after : List α} {a : α}
    {names' : NameRegistry}
    (hf : ∀ b ∈ before ++ a :: after,
      g.Owns t (member b) ∧ Settles total g options t Inv Post (member b) (f · b))
    (hapart : (before ++ a :: after).Pairwise fun b c => (member b).Apart (member c))
    (hs : Within g options t s₀ s) (hinv : Inv names s)
    (hempty : ∀ b ∈ before ++ a :: after, ∀ k, (member b).Covers k → s.recordOf k = .empty)
    (h : (before ++ a :: after).foldlM f names s = .ok (names', s')) :
    ∃ names₁ s₁ names₂ s₂, Within g options t s s₁ ∧ Inv names₁ s₁ ∧
      (∀ k, (member a).Covers k → s₁.recordOf k = .empty) ∧ f names₁ a s₁ = .ok (names₂, s₂) ∧
      (∀ k, (member a).Covers k → s'.recordOf k = s₂.recordOf k) ∧
      ∀ b ∈ before, ∀ k, (member b).Covers k → s'.recordOf k = s₁.recordOf k := by
  have hbefore (b : α) (hb : b ∈ before) : b ∈ before ++ a :: after := List.mem_append_left _ hb
  have hself : a ∈ before ++ a :: after := List.mem_append_right _ (.head _)
  have hafter (b : α) (hb : b ∈ after) : b ∈ before ++ a :: after :=
    List.mem_append_right _ (.tail _ hb)
  have hdeclared {b : α} (hb : b ∈ before ++ a :: after) {k : MemberId}
      (hk : (member b).Covers k) : g.Declared t k := (hf b hb).1.declared_of_covers wf hk
  obtain ⟨hbeforeApart, hrest, hcross⟩ := List.pairwise_append.1 hapart
  obtain ⟨hselfApart, hafterApart⟩ := List.pairwise_cons.1 hrest
  rw [List.foldlM_append, run_bind_eq_ok] at h
  obtain ⟨names₁, s₁, hfirst, h⟩ := h
  rw [List.foldlM_cons, run_bind_eq_ok] at h
  obtain ⟨names₂, s₂, hstep, hlast⟩ := h
  obtain ⟨hs₁, hinv₁, -⟩ := (foldlM_settles wf stable member (fun b hb => hf b (hbefore b hb))
    hbeforeApart hs hinv fun b hb => hempty b (hbefore b hb)).of_ok hfirst
  have hempty₁ {b : α} (hb : b ∈ a :: after) (k : MemberId) (hk : (member b).Covers k) :
      s₁.recordOf k = .empty := by
    have hmem : b ∈ before ++ a :: after := List.mem_append_right _ hb
    refine (hs₁.frame (hdeclared hmem hk) ?_).trans (hempty b hmem k hk)
    rintro ⟨c, hc, hck⟩
    exact hcross c hc b hb k hk hck
  obtain ⟨hs₂, hinv₂, -⟩ := ((hf a hself).2 hs₁.toWithin hinv₁ (hempty₁ (.head _))).of_ok hstep
  have hempty₂ (b : α) (hb : b ∈ after) (k : MemberId) (hk : (member b).Covers k) :
      s₂.recordOf k = .empty :=
    (hs₂.frame (hdeclared (hafter b hb) hk) (hselfApart b hb k hk)).trans
      (hempty₁ (.tail _ hb) k hk)
  obtain ⟨hs', -, -⟩ := (foldlM_settles wf stable member (fun b hb => hf b (hafter b hb))
    hafterApart hs₂.toWithin hinv₂ hempty₂).of_ok hlast
  refine ⟨names₁, s₁, names₂, s₂, hs₁.toWithin, hinv₁, hempty₁ (.head _), hstep,
    fun k hk => hs'.frame (hdeclared hself hk) ?_, fun b hb k hk => ?_⟩
  · rintro ⟨c, hc, hck⟩
    exact hselfApart c hc k hck hk
  · have hk' := hdeclared (hbefore b hb) hk
    refine (hs'.frame hk' ?_).trans (hs₂.frame hk' fun hak => hcross b hb a (.head _) k hak hk)
    rintro ⟨c, hc, hck⟩
    exact hcross b hb c (.tail _ hc) k hck hk

omit wf stable in
/-- Steps `f` that leave the registry `names` alone. -/
theorem foldlM_eq_forM {α : Type} (f : α → Resolve Unit) (l : List α) (names : NameRegistry) :
    (l.foldlM (fun names a => do f a; return names) names : Resolve NameRegistry) = do
      l.forM f
      return names := by
  induction l with
  | nil => rfl
  | cons a l ih =>
    change _ = (f a >>= fun _ => l.forM f) >>= fun _ => pure names
    rw [List.foldlM_cons, bind_assoc, bind_assoc]
    refine bind_congr fun _ => ?_
    rw [pure_bind, ih]

/-- What it takes to resolve the members of a usable type one after the other. -/
structure SettlesMembers (total : Prop) (c : MemberContext) (t : TypeId)
    (Inv : NameRegistry → ResolutionState → Prop)
    (Post : MemberSymbol → ResolutionState → Prop) : Prop where
  report : ∀ ⦃names s⦄ ds, Inv names s →
    Inv names { s with diagnostics := s.diagnostics.addAll ds }
  member : ∀ m, c.graph.Lists t m → ∀ preferred : PreferredName,
    (preferred.name = none → c.options.minimizeNames) →
    Settles total c.graph c.options t Inv Post m (c.resolveMember m preferred)
  alternate : ∀ p ∈ c.graph.alternates c.type, Settles total c.graph c.options t Inv Post p.1
    fun names => do
      resolveAlternate p.1 p.2
      return names

omit wf stable in
/-- The members that are named come before those that have a main method. -/
theorem MemberContext.resolveMembers_eq_resolveNamed_bind (c : MemberContext)
    (inherited : NameRegistry) : c.resolveMembers inherited = (do
      let names ← c.resolveNamed inherited
      (c.graph.alternates c.type).forM fun p => resolveAlternate p.1 p.2
      return names) := by
  rw [resolveMembers_eq, resolveNamed, bind_assoc]

omit wf stable in
theorem MemberContext.resolveMembers_eq_ok {c : MemberContext}
    (h : c.resolveMembers names s = .ok (names', s')) :
    ∃ s₁, c.resolveNamed names s = .ok (names', s₁) ∧
      (c.graph.alternates c.type).forM (fun p => resolveAlternate p.1 p.2) s₁ = .ok ((), s') := by
  rw [resolveMembers_eq_resolveNamed_bind, run_bind_eq_ok] at h
  obtain ⟨names₁, s₁, hnamed, h⟩ := h
  rw [run_bind_eq_ok] at h
  obtain ⟨_, s₂, halternates, h⟩ := h
  obtain ⟨rfl, rfl⟩ := run_pure_eq_ok.1 h
  exact ⟨s₁, hnamed, halternates⟩

/-- The own members of a usable type that are named. Nothing is recorded by then about those that
have a main method. -/
theorem resolveNamed_settles
    (settles : SettlesMembers total (g.memberContext options ensure ty resolved) t Inv Post)
    (hty : g.type? t = some ty) (hs : Within g options t s₀ s) (hinv : Inv names s)
    (hempty : ∀ k, g.Declared t k → s.recordOf k = .empty) :
    EndsIn total (fun names' s' => Within g options t s s' ∧ Inv names' s' ∧
        (∀ m ∈ g.namedMembers ty, Post m s') ∧
        ∀ p ∈ g.alternates ty, ∀ k, p.1.Covers k → s'.recordOf k = .empty)
      ((g.memberContext options ensure ty resolved).resolveNamed names s) := by
  have hplanApart : (g.memberContext options ensure ty resolved).plan.Pairwise
      fun p q => p.1.Apart q.1 := plan_apart wf hty
  have hnamed (p : MemberSymbol × PreferredName)
      (hp : p ∈ (g.memberContext options ensure ty resolved).plan) : p.1 ∈ g.namedMembers ty :=
    (MemberContext.mem_plan.1 hp).1
  have hmember (p : MemberSymbol × PreferredName)
      (hp : p ∈ (g.memberContext options ensure ty resolved).plan) : g.Owns t p.1 ∧
        Settles total g options t Inv Post p.1
          ((g.memberContext options ensure ty resolved).resolveMember p.1 p.2) := by
    have hm : g.Lists t p.1 := TypeGraph.lists_of_mem_canonicalMembers wf hty
      (TypeGraph.mem_namedMembers.1 (hnamed p hp)).1
    refine ⟨hm.1, settles.member p.1 hm p.2 ?_⟩
    rw [(MemberContext.mem_plan.1 hp).2]
    exact TypeGraph.minimizeNames_of_preferredName
  rw [MemberContext.resolveNamed, report, run_modify_bind]
  have hs₁ := (Framed.start hs fun _ => False).changesAt (fun _ h => h.elim)
    (.report _ _ (g.memberContext options ensure ty resolved).planProblems)
  refine (foldlM_settles wf stable Prod.fst hmember hplanApart hs₁.toWithin
    (settles.report _ hinv) (fun p hp k hk =>
      hempty k ((hmember p hp).1.declared_of_covers wf hk))).mono fun names₂ s₂ h => ?_
  obtain ⟨hs₂, hinv₂, hpost₂⟩ := h
  refine ⟨hs₁.toWithin.trans hs₂.toWithin, hinv₂, fun m hm => ?_, fun p hp k hk => ?_⟩
  · exact hpost₂ (m, (g.preferredName options ty resolved m).1) (MemberContext.mem_plan.2 ⟨hm, rfl⟩)
  · have hdeclared := (owns_of_mem_alternates wf hty hp).1.declared_of_covers wf hk
    refine (hs₂.frame hdeclared ?_).trans (hempty k hdeclared)
    rintro ⟨q, hq, hkq⟩
    exact named_apart_alternates wf hty (hnamed q hq) hp k hk hkq

/-- The own members of a usable type. -/
theorem resolveMembers_settles
    (settles : SettlesMembers total (g.memberContext options ensure ty resolved) t Inv Post)
    (hty : g.type? t = some ty) (hs : Within g options t s₀ s) (hinv : Inv names s)
    (hempty : ∀ k, g.Declared t k → s.recordOf k = .empty) :
    EndsIn total (fun names' s' => Within g options t s s' ∧ Inv names' s' ∧
        ∀ m ∈ g.canonicalMembers ty, Post m s')
      ((g.memberContext options ensure ty resolved).resolveMembers names s) := by
  rw [MemberContext.resolveMembers_eq_resolveNamed_bind]
  refine (resolveNamed_settles wf stable settles hty hs hinv hempty).bind fun names₂ s₂ h => ?_
  obtain ⟨hs₂, hinv₂, hpost₂, hempty₂⟩ := h
  rw [← foldlM_eq_forM]
  refine (foldlM_settles wf stable Prod.fst
    (fun p hp => ⟨(owns_of_mem_alternates wf hty hp).1, settles.alternate p hp⟩)
    (alternates_apart wf hty) hs₂ hinv₂ hempty₂).mono fun names₃ s₃ h => ?_
  obtain ⟨hs₃, hinv₃, hpost₃⟩ := h
  refine ⟨hs₂.trans hs₃.toWithin, hinv₃, fun m hm => ?_⟩
  by_cases hmain : ∃ main, g.mainMethod ty m = .unique main
  · obtain ⟨main, hmain⟩ := hmain
    exact hpost₃ (m, main) (TypeGraph.mem_alternates.2 ⟨hm, hmain⟩)
  · have hm' : m ∈ g.namedMembers ty :=
      TypeGraph.mem_namedMembers.2 ⟨hm, fun main h => hmain ⟨main, h⟩⟩
    refine stable (hpost₂ m hm') fun k hk => hs₃.frame ?_ ?_
    · exact (TypeGraph.lists_of_mem_canonicalMembers wf hty hm).1.declared_of_covers wf hk
    · rintro ⟨q, hq, hkq⟩
      exact named_apart_alternates wf hty hm' hq k hkq hk

/-- The own members of a type without a place in script. -/
theorem forM_markNotUsable_settles (hty : g.type? t = some ty) (hs : Within g options t s₀ s)
    (hinv : Inv names s) (hempty : ∀ k, g.Declared t k → s.recordOf k = .empty)
    (hmark : ∀ m, g.Lists t m → Settles total g options t Inv Post m fun names => do
      markNotUsable m
      return names) :
    EndsIn total (fun names' s' => Within g options t s s' ∧ Inv names' s' ∧
        ∀ m ∈ g.canonicalMembers ty, Post m s')
      ((do
        (g.canonicalMembers ty).forM markNotUsable
        return names : Resolve NameRegistry) s) := by
  have hlists {m : MemberSymbol} (hm : m ∈ g.canonicalMembers ty) : g.Lists t m :=
    TypeGraph.lists_of_mem_canonicalMembers wf hty hm
  have hapart := (canonicalMembers_nodup wf hty).pairwise_of_forall_ne
    fun m hm m' hm' hne => (hlists hm).apart wf (hlists hm') hne
  rw [← foldlM_eq_forM]
  refine (foldlM_settles wf stable (fun m => m)
    (fun m hm => ⟨(hlists hm).1, hmark m (hlists hm)⟩) hapart hs hinv
    (fun m hm k hk => hempty k ((hlists hm).1.declared_of_covers wf hk))).mono fun names' s' h => ?_
  exact ⟨h.1.toWithin, h.2⟩

end

end ScriptNaming
