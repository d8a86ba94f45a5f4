import ScriptNaming.Proofs.MethodOutcomes
import ScriptNaming.Proofs.ReachedStates

/-!
# Steps without diagnostics

No step takes a diagnostic back, so that a run which ends without diagnostics has had none all the
time, and what is reported elsewhere did not happen in it. `Clean H J Q x` says this of a step `x`,
and that in a run without diagnostics it keeps `J` and comes to a result with `Q`. The premise `H`
is what the steps before have come to in such a run: it cannot be an ordinary hypothesis, because
that `x` takes no diagnostic back has to hold in all runs.

There is one lemma for each connective and one for each function that resolves methods, for the
condition that all names in the tables have a property `P` (`TypeGraph.NamesIn`). What `P` has to
admit is collected in `AdmitsNames` and, for the preferred names of members, in
`PreferredName.Admissible`.
-/

namespace ScriptNaming

open ResolutionState

/-! ## The judgement -/

/-- A run of `x` that ends without diagnostics begins without them. If `H` holds and it begins in a
state with `J`, it ends in a state with `J` and its result has `Q`. -/
def Clean {α : Type} (H : Prop) (J : ResolutionState → Prop) (Q : α → Prop) (x : Resolve α) : Prop :=
  ∀ ⦃s a s'⦄, x s = .ok (a, s') → s'.diagnostics.isEmpty →
    s.diagnostics.isEmpty ∧ (H → J s → J s' ∧ Q a)

namespace Clean

variable {α β : Type} {H : Prop} {J : ResolutionState → Prop} {Q : α → Prop} {W : β → Prop}
  {x : Resolve α}

theorem mono {H' : Prop} {Q' : α → Prop} (h : Clean H J Q x) (hH : H' → H)
    (hQ : H' → ∀ a, Q a → Q' a) : Clean H' J Q' x := by
  intro s a s' hrun hclean
  obtain ⟨hbefore, hkeeps⟩ := h hrun hclean
  exact ⟨hbefore, fun hH' hs => (hkeeps (hH hH') hs).imp_right (hQ hH' a)⟩

/-- A result may be forgotten. -/
theorem drop (h : Clean H J Q x) : Clean H J (fun _ => True) x :=
  h.mono id fun _ _ _ => trivial

theorem pure {a : α} (h : H → Q a) : Clean H J Q (Pure.pure a : Resolve α) := by
  intro s b s' hrun hclean
  obtain ⟨rfl, rfl⟩ := run_pure_eq_ok.1 hrun
  exact ⟨hclean, fun hH hs => ⟨hs, h hH⟩⟩

theorem bind {f : α → Resolve β} (h : Clean H J Q x) (hf : ∀ a, Clean (H ∧ Q a) J W (f a)) :
    Clean H J W (x >>= f) := by
  intro s b s' hrun hclean
  obtain ⟨a, s₁, hx, hfa⟩ := run_bind_eq_ok.1 hrun
  obtain ⟨hclean₁, hrest⟩ := hf a hfa hclean
  obtain ⟨hbefore, hkeeps⟩ := h hx hclean₁
  refine ⟨hbefore, fun hH hs => ?_⟩
  obtain ⟨hs₁, ha⟩ := hkeeps hH hs
  exact hrest ⟨hH, ha⟩ hs₁

/-- After the state is read, it may be used that it has `J`. -/
theorem get_bind {f : ResolutionState → Resolve α} (h : ∀ s, Clean (H ∧ J s) J Q (f s)) :
    Clean H J Q (get >>= f) := by
  intro s a s' hrun hclean
  obtain ⟨hbefore, hkeeps⟩ := h s hrun hclean
  exact ⟨hbefore, fun hH hs => hkeeps ⟨hH, hs⟩ hs⟩

theorem throw {e : Fault} : Clean H J Q (MonadExcept.throw e : Resolve α) :=
  fun _ _ _ h => nomatch h

/-- What a lifted step comes to holds whatever has happened before. -/
theorem lift_bind {e : Except Fault α} {f : α → Resolve β} (hf : ∀ a, e = .ok a → Clean H J W (f a)) :
    Clean H J W ((liftM e : Resolve α) >>= f) := by
  intro s b s' hrun hclean
  obtain ⟨a, s₁, hlift, hfa⟩ := run_bind_eq_ok.1 hrun
  obtain ⟨ha, rfl⟩ := run_liftM_eq_ok.1 hlift
  exact hf a ha hfa hclean

theorem modify {f : ResolutionState → ResolutionState}
    (hf : ∀ s, (f s).diagnostics = s.diagnostics) (h : H → ∀ s, J s → J (f s)) :
    Clean H J (fun _ => True) (modify f : Resolve PUnit) := by
  intro s _ s' hrun hclean
  obtain ⟨-, rfl⟩ := Prod.ext_iff.1 (Except.ok.inj hrun)
  exact ⟨hf s ▸ hclean, fun hH hs => ⟨h hH s hs, trivial⟩⟩

/-- A run without diagnostics reports nothing, so that `ds` has none. -/
theorem report {ds : List Diagnostic} : Clean H J (fun _ => ds = []) (report ds) := by
  intro s _ s' hrun hclean
  obtain rfl := report_eq_ok hrun
  obtain ⟨hbefore, rfl⟩ := DiagnosticBag.isEmpty_addAll_iff.1 hclean
  exact ⟨hbefore, fun _ hs => ⟨hs, rfl⟩⟩

theorem forM {f : α → Resolve PUnit} {l : List α} (hf : ∀ a ∈ l, Clean H J (fun _ => True) (f a)) :
    Clean H J (fun _ => True) (l.forM f) := by
  induction l with
  | nil => exact .pure fun _ => trivial
  | cons a l ih =>
    refine (hf a (.head _)).bind fun _ => ?_
    exact (ih fun b hb => hf b (.tail _ hb)).mono And.left fun _ _ h => h

theorem foldlM {f : β → α → Resolve β} {l : List α}
    (hf : ∀ b, ∀ a ∈ l, Clean H J (fun _ => True) (f b a)) (b : β) :
    Clean H J (fun _ => True) (l.foldlM f b) := by
  induction l generalizing b with
  | nil => exact .pure fun _ => trivial
  | cons a l ih =>
    rw [List.foldlM_cons]
    refine (hf b a (.head _)).bind fun c => ?_
    exact (ih (fun c a ha => hf c a (.tail _ ha)) c).mono And.left fun _ _ h => h

theorem mapM {f : α → Resolve β} {l : List α} (hf : ∀ a, Clean H J W (f a)) :
    Clean H J (fun bs => ∀ b ∈ bs, W b) (l.mapM f) := by
  induction l with
  | nil => exact .pure fun _ b hb => nomatch hb
  | cons a l ih =>
    rw [List.mapM_cons]
    refine (hf a).bind fun b => (ih.mono And.left fun _ _ h => h).bind fun bs => .pure ?_
    rintro ⟨⟨-, hb⟩, hbs⟩ c hc
    rcases List.mem_cons.1 hc with rfl | hc
    · exact hb
    · exact hbs c hc

end Clean

/-! ## Names in the tables -/

/-- The name that a method is called by, if it has one. -/
def MethodSemantics.names (x : MethodSemantics) : List String := x.name?.toList

/-- The names that a property is used by: its own one or those of its accessors. -/
def PropertySemantics.names : PropertySemantics → List String
  | .field name => [name]
  | .getAndSet getter setter =>
    (getter.elim [] MethodSemantics.names) ++ (setter.elim [] MethodSemantics.names)
  | .nativeIndexer _ _ | .notUsable => []

/-- The name of a field, if it has one. -/
def FieldSemantics.names (x : FieldSemantics) : List String := x.name?.toList

/-- The names of the accessors of an event. -/
def EventSemantics.names : EventSemantics → List String
  | .addAndRemove adder remover =>
    (adder.elim [] MethodSemantics.names) ++ (remover.elim [] MethodSemantics.names)
  | .notUsable => []

theorem Table.forall_insert {κ α : Type} [DecidableEq κ] {t : Table κ α} {R : α → Prop} {k : κ}
    {v : α} (h : ∀ ⦃k v⦄, t.find? k = some v → R v) (hv : R v) :
    ∀ ⦃k' v'⦄, (t.insert k v).find? k' = some v' → R v' := by
  intro k' v' hfound
  rw [Table.find?_insert] at hfound
  split at hfound
  · obtain rfl := Option.some.inj hfound
    exact hv
  · exact h hfound

/-- The entries for types fit the declarations, and all names in the tables for members have the
property `P`. -/
structure TypeGraph.NamesIn (g : TypeGraph) (options : Options) (P : String → Prop)
    (s : ResolutionState) : Prop where
  types : g.TypesFit options s.types
  methods : ∀ ⦃m x⦄, s.methods.find? m = some x → ∀ name ∈ x.names, P name
  properties : ∀ ⦃m x⦄, s.properties.find? m = some x → ∀ name ∈ x.names, P name
  fields : ∀ ⦃m x⦄, s.fields.find? m = some x → ∀ name ∈ x.names, P name
  events : ∀ ⦃m x⦄, s.events.find? m = some x → ∀ name ∈ x.names, P name

section

variable {g : TypeGraph} {options : Options} {P : String → Prop} {H : Prop}

theorem TypeGraph.NamesIn.initial (g : TypeGraph) (options : Options) (P : String → Prop) :
    g.NamesIn options P .initial where
  types := (Tidy.initial g options).types
  methods _ _ h := nomatch h
  properties _ _ h := nomatch h
  fields _ _ h := nomatch h
  events _ _ h := nomatch h

/-! ## Records -/

theorem recordMethod_clean {m : MemberId} {x : MethodSemantics}
    (hx : H → ∀ name ∈ x.names, P name) :
    Clean H (g.NamesIn options P) (fun _ => True) (recordMethod m x) :=
  .modify (fun _ => rfl) fun hH _ hs => { hs with methods := Table.forall_insert hs.methods (hx hH) }

theorem recordProperty_clean {m : MemberId} {x : PropertySemantics}
    (hx : H → ∀ name ∈ x.names, P name) :
    Clean H (g.NamesIn options P) (fun _ => True) (recordProperty m x) :=
  .modify (fun _ => rfl) fun hH _ hs =>
    { hs with properties := Table.forall_insert hs.properties (hx hH) }

theorem recordField_clean {m : MemberId} {x : FieldSemantics}
    (hx : H → ∀ name ∈ x.names, P name) :
    Clean H (g.NamesIn options P) (fun _ => True) (recordField m x) :=
  .modify (fun _ => rfl) fun hH _ hs => { hs with fields := Table.forall_insert hs.fields (hx hH) }

theorem recordEvent_clean {m : MemberId} {x : EventSemantics}
    (hx : H → ∀ name ∈ x.names, P name) :
    Clean H (g.NamesIn options P) (fun _ => True) (recordEvent m x) :=
  .modify (fun _ => rfl) fun hH _ hs => { hs with events := Table.forall_insert hs.events (hx hH) }

theorem recordOrigin_clean {m : MemberId} {origin : NameOrigin} :
    Clean H (g.NamesIn options P) (fun _ => True) (recordOrigin m origin) :=
  .modify (fun _ => rfl) fun _ _ hs => { hs with }

theorem markNotUsable_clean {m : MemberSymbol} :
    Clean H (g.NamesIn options P) (fun _ => True) (markNotUsable m) := by
  have hmethod {m : MemberId} {H : Prop} :
      Clean H (g.NamesIn options P) (fun _ => True) (recordMethod m .notUsable) :=
    recordMethod_clean fun _ name hname => nomatch hname
  unfold markNotUsable
  cases m.kind with
  | method data => exact hmethod
  | field => exact recordField_clean fun _ name hname => nomatch hname
  | property data =>
    exact (recordProperty_clean fun _ name hname => nomatch hname).bind fun _ =>
      .forM fun a _ => hmethod
  | event data =>
    exact (recordEvent_clean fun _ name hname => nomatch hname).bind fun _ =>
      .forM fun a _ => hmethod

end

/-! ## Rules that report nothing -/

namespace TypeGraph

variable {g : TypeGraph} {ty : TypeSymbol} {m : MemberSymbol}

theorem skippedMethod_names (h : (g.skippedMethod ty m).2 = []) :
    (g.skippedMethod ty m).1.names = [] := by
  cases hrole : hierarchyRole? ty m with
  | some role => simp [skippedMethod, hrole] at h
  | none => by_cases hstatic : m.isStatic <;>
      simp [skippedMethod, hrole, hstatic, MethodSemantics.names, MethodSemantics.name?]

theorem inlinedMethod_names {code : String} (h : (g.inlinedMethod ty m code).2 = []) :
    (g.inlinedMethod ty m code).1.names = [] := by
  cases hrole : hierarchyRole? ty m with
  | some role => simp [inlinedMethod, hrole] at h
  | none => simp [inlinedMethod, hrole, MethodSemantics.names, MethodSemantics.name?]

theorem aliasedMethod_names {callee : String} (h : (g.aliasedMethod m callee).2 = []) :
    (g.aliasedMethod m callee).1.names = [] := by
  by_cases hstatic : m.isStatic
  · simp [aliasedMethod, hstatic, MethodSemantics.names, MethodSemantics.name?]
  · simp [aliasedMethod, hstatic] at h

theorem blankNamedMethod_names (h : (g.blankNamedMethod ty m).2 = []) :
    (g.blankNamedMethod ty m).1.names = [] := by
  cases hproblem : blankNameProblem? ty m with
  | some problem => simp [blankNamedMethod, hproblem] at h
  | none => simp [blankNamedMethod, hproblem, MethodSemantics.names, MethodSemantics.name?]

/-- Markers that decide without a report leave a method without a name, except that one that is
called on its first argument has its preferred name. -/
theorem markedMethod?_names {preferred : Option String} {x : MethodSemantics}
    (h : g.markedMethod? ty m preferred = some (x, [])) :
    x.names = [] ∨
      m.has .instanceMethodOnFirstArgument ∧ x.names = [preferred.getD m.name] := by
  have hdecided {p : MethodSemantics × List Diagnostic} (hp : p.2 = [] → p.1.names = [])
      (h : some p = some (x, [])) : x.names = [] := by
    obtain rfl := Option.some.inj h
    exact hp rfl
  unfold markedMethod? at h
  split at h
  · exact .inl (hdecided skippedMethod_names h)
  split at h
  · exact .inl (hdecided aliasedMethod_names h)
  split at h
  · exact .inl (hdecided inlinedMethod_names h)
  split at h
  · rename_i has
    refine .inr ⟨has, ?_⟩
    by_cases hstatic : m.isStatic
    · simp only [firstArgumentMethod, hstatic, if_true, Option.some.injEq, Prod.mk.injEq] at h
      rw [← h.1]
      rfl
    · simp [firstArgumentMethod, hstatic] at h
  · cases h

end TypeGraph

section

variable {g : TypeGraph} {options : Options} {P : String → Prop} {H : Prop}

/-! ## Preferred names -/

/-- A property of names that is kept by what is put before and behind them. -/
structure AdmitsNames (P : String → Prop) : Prop where
  suffixed : ∀ base i, base = "" ∨ P base → P (NameRegistry.suffixed base i)
  counted : ∀ n, P (InterfaceNames.nameAt n)
  accessor : ∀ (slot : AccessorSlot) base, base = "" ∨ P base → P (slot.stem ++ base)

/-- A preferred name of a member has the property `P`, unless it is blank and there is a rule for
members with a blank name. -/
structure PreferredName.Admissible (preferred : PreferredName) (P : String → Prop)
    (resolved : ResolvedType) (m : MemberSymbol) : Prop where
  source : P m.name
  named : ∀ ⦃name⦄, preferred.name = some name → name = "" ∨ P name
  blank : preferred.name = some "" → m.kind = .field ∨ m.has .intrinsicProperty ∨
    m.has .instanceMethodOnFirstArgument ∨ resolved.hasGlobalMembers → P ""

theorem AdmitsNames.allocate (admits : AdmitsNames P) {names : NameRegistry}
    {base : Option String} {name : String} (hbase : ∀ b, base = some b → P b)
    (h : names.allocate base = .ok name) : P name := by
  cases NameRegistry.firstFree_of_allocate h with
  | base => exact hbase name rfl
  | suffixed =>
    refine admits.suffixed _ _ ?_
    cases base with
    | none => exact .inl rfl
    | some b => exact .inr (hbase b rfl)

variable (admits : AdmitsNames P) {ty : TypeSymbol} {m : MemberSymbol} {preferred : PreferredName}
  {names : NameRegistry}

include admits

theorem finalName_clean (hp : H → ∀ name, preferred.name = some name → P name) :
    Clean H (g.NamesIn options P) (fun p => P p.1) (finalName ty preferred names) := by
  unfold finalName
  split
  · exact .pure fun hH => hp hH _ rfl
  · rename_i name isSpecified _
    unfold uniqueName
    split
    · intro s p s' hrun hclean
      obtain ⟨rfl, rfl⟩ := Prod.ext_iff.1 (Except.ok.inj hrun)
      exact ⟨hclean, fun _ hs => ⟨{ hs with }, admits.counted _⟩⟩
    · refine .lift_bind fun final hfinal => .pure fun hH => ?_
      exact admits.allocate (hp hH) hfinal

theorem nameMember_clean (hp : H → ∀ name, preferred.name = some name → P name) :
    Clean H (g.NamesIn options P) (fun p => P p.1) (nameMember ty m preferred names) := by
  unfold nameMember
  refine (finalName_clean admits hp).bind fun p => recordOrigin_clean.bind fun _ => .pure ?_
  exact fun h => h.1.2

theorem namedMethod_clean (hp : H → ∀ name, preferred.name = some name → name = "" ∨ P name) :
    Clean H (g.NamesIn options P) (fun p => ∀ name ∈ p.1.names, P name)
      (namedMethod g ty m preferred names) := by
  unfold namedMethod
  split
  · refine Clean.report.bind fun _ => .pure fun h name hname => ?_
    rw [TypeGraph.blankNamedMethod_names h.2] at hname
    cases hname
  · rename_i hnonblank
    refine (nameMember_clean admits fun hH name hname => ?_).bind fun p => .pure fun h name hname => ?_
    · exact (hp hH name hname).resolve_left fun hblank => hnonblank (hblank ▸ hname)
    · obtain rfl := List.mem_singleton.1 hname
      exact h.2

end

/-! ## Methods -/

section

variable {g : TypeGraph} {options : Options} {P : String → Prop} {H : Prop}
  {semanticsOf : MemberId → Resolve (Option MethodSemantics)}
  (hsem : ∀ b, Clean True (g.NamesIn options P) (fun o => ∀ x ∈ o, ∀ name ∈ x.names, P name)
    (semanticsOf b))

section

include hsem

theorem firstDisagreement_clean (name : Option String) (ms : List MemberId) :
    Clean H (g.NamesIn options P) (fun _ => True) (firstDisagreement semanticsOf name ms) := by
  induction ms generalizing H with
  | nil => exact .pure fun _ => trivial
  | cons m ms ih =>
    rw [firstDisagreement]
    refine ((hsem m).mono (fun _ => trivial) fun _ _ h => h).bind fun x => ?_
    split
    · exact .pure fun _ => trivial
    · exact ih

theorem reportDisagreement_clean (m : MemberSymbol) (x : MethodSemantics) :
    Clean H (g.NamesIn options P) (fun _ => True) (reportDisagreement g semanticsOf m x) := by
  unfold reportDisagreement
  split
  · refine (firstDisagreement_clean hsem _ _).bind fun other => ?_
    cases other with
    | none => exact .pure fun _ => trivial
    | some other => exact .lift_bind fun y _ => Clean.report.drop
  · exact .pure fun _ => trivial

theorem overridingMethod_clean (m : MemberSymbol) (isSpecified : Bool) :
    Clean H (g.NamesIn options P) (fun o => ∀ x ∈ o, ∀ name ∈ x.names, P name)
      (overridingMethod g semanticsOf m isSpecified) := by
  unfold overridingMethod
  refine Clean.report.bind fun _ => ?_
  split
  · exact .pure fun _ x hx => nomatch hx
  · refine ((hsem _).mono (fun _ => trivial) fun _ _ h => h).bind fun o => ?_
    cases o with
    | none => exact .pure fun _ x hx => nomatch hx
    | some semantics =>
      exact (reportDisagreement_clean hsem m semantics).bind fun _ => .pure fun h => h.1.2

theorem implementingMethod_clean (m : MemberSymbol) (isSpecified : Bool) :
    Clean H (g.NamesIn options P) (fun o => ∀ x ∈ o, ∀ name ∈ x.names, P name)
      (implementingMethod g semanticsOf m isSpecified) := by
  unfold implementingMethod
  refine Clean.report.bind fun _ => ?_
  refine (Clean.mapM fun b => (hsem b).mono (fun _ => trivial) fun _ _ h => h).bind
    fun implemented => Clean.report.bind fun _ => .pure fun h x hx => ?_
  obtain ⟨⟨-, hall⟩, -⟩ := h
  have hhead : implemented.head? = some (some x) := Option.join_eq_some_iff.1 hx
  exact hall (some x) (List.mem_of_mem_head? hhead) x rfl

theorem inheritedMethod?_clean (m : MemberSymbol) (isSpecified : Bool) :
    Clean H (g.NamesIn options P) (fun o => ∀ x ∈ o, ∀ name ∈ x.names, P name)
      (inheritedMethod? g semanticsOf m isSpecified) := by
  have himplementing {H : Prop} :
      Clean H (g.NamesIn options P) (fun o => ∀ x ∈ o, ∀ name ∈ x.names, P name)
        (if m.implements.isEmpty then return none
          else implementingMethod g semanticsOf m isSpecified) := by
    split
    · exact .pure fun _ x hx => nomatch hx
    · exact implementingMethod_clean hsem m isSpecified
  unfold inheritedMethod?
  dsimp only
  split
  · refine (overridingMethod_clean hsem m isSpecified).bind fun o => ?_
    cases o with
    | some semantics => exact .pure fun h => h.2
    | none => exact himplementing
  · exact himplementing

end

variable (admits : AdmitsNames P) {ty : TypeSymbol} {resolved : ResolvedType} {m : MemberSymbol}
  {preferred : PreferredName} {names : NameRegistry}

include hsem admits

theorem classifyMethod_clean (hp : H → preferred.Admissible P resolved m) :
    Clean H (g.NamesIn options P) (fun p => ∀ name ∈ p.1.names, P name)
      (classifyMethod g semanticsOf ty resolved m preferred names) := by
  have hdefault (hH : H)
      (hblank : m.has .instanceMethodOnFirstArgument ∨ resolved.hasGlobalMembers) :
      P (preferred.name.getD m.name) := by
    cases hname : preferred.name with
    | none => exact (hp hH).source
    | some name =>
      rcases (hp hH).named hname with rfl | hadmitted
      · exact (hp hH).blank hname (.inr (.inr hblank))
      · exact hadmitted
  unfold classifyMethod
  split
  · exact .pure fun _ name hname => nomatch hname
  split
  · rename_i hglobal
    refine .pure fun hH name hname => ?_
    obtain rfl := List.mem_singleton.1 hname
    exact hdefault hH (.inr hglobal)
  split
  · rename_i semantics ds hmarked
    refine Clean.report.bind fun _ => .pure fun h name hname => ?_
    obtain ⟨hH, rfl⟩ := h
    rcases TypeGraph.markedMethod?_names hmarked with hnone | ⟨has, hnames⟩
    · rw [hnone] at hname
      cases hname
    · rw [hnames] at hname
      obtain rfl := List.mem_singleton.1 hname
      exact hdefault hH (.inl has)
  · refine (inheritedMethod?_clean hsem m preferred.isSpecified).bind fun o => ?_
    cases o with
    | some semantics => exact .pure fun h => h.2 semantics rfl
    | none => exact namedMethod_clean admits fun h => (hp h.1).named

theorem resolveMethod_clean (hp : H → preferred.Admissible P resolved m) :
    Clean H (g.NamesIn options P) (fun p => ∀ name ∈ p.1.names, P name)
      (resolveMethod g semanticsOf ty resolved m preferred names) := by
  unfold resolveMethod
  refine (classifyMethod_clean hsem admits hp).bind fun p => ?_
  exact (recordMethod_clean fun h => h.2).bind fun _ => .pure fun h => h.1.2

end

theorem resolveAlternate_clean {g : TypeGraph} {options : Options} {P : String → Prop} {H : Prop}
    {m main : MemberSymbol} (hm : H → P m.name) :
    Clean H (g.NamesIn options P) (fun _ => True) (resolveAlternate m main) := by
  have hcode (x : MethodSemantics) : x.withoutCode.names = x.names := by cases x <;> rfl
  unfold resolveAlternate
  split
  · refine recordMethod_clean fun _ name hname => ?_
    cases hname
  · refine .get_bind fun s => recordMethod_clean fun h name hname => ?_
    rw [hcode] at hname
    cases hmain : s.methods.find? main.id with
    | none =>
      rw [hmain] at hname
      obtain rfl := List.mem_singleton.1 hname
      exact hm h.1
    | some x =>
      rw [hmain] at hname
      exact h.2.methods hmain name hname

end ScriptNaming
