import ScriptNaming.Proofs.Progress

/-!
# The same answers to requests

`Alike strict I x y` says that two steps come to the same from every state that satisfies a
condition `I`, and that they keep the condition; a `strict` comparison also says that they do not
end for want of steps. There is one lemma for each connective, and one for each function that
resolves members: two ways of answering requests that are alike make the functions alike, up to
`processMembers_alike`. The condition may be about anything but the records about members
(`IgnoresRecords`).

Unlike the comparison in lockstep, this one tells the faults and the holders of names apart, so that
nothing at all depends on which of the two ways is taken.
-/

namespace ScriptNaming

open ResolutionState

/-! ## The judgement -/

/-- An outcome that keeps the condition `I`. If it has to be `strict`, steps suffice for it. -/
def Keeps {α : Type} (strict : Prop) (I : ResolutionState → Prop) :
    Except Fault (α × ResolutionState) → Prop
  | .ok (_, s) => I s
  | .error e => strict → e ≠ .stepsExhausted

theorem Keeps.ne_error {α : Type} {I : ResolutionState → Prop}
    {r : Except Fault (α × ResolutionState)} (h : Keeps True I r) :
    r ≠ .error .stepsExhausted := by
  rintro rfl
  exact h trivial rfl

/-- From a state that satisfies `I`, two steps come to the same outcome, which keeps `I`. -/
def Alike {α : Type} (strict : Prop) (I : ResolutionState → Prop) (x y : Resolve α) : Prop :=
  ∀ ⦃s⦄, I s → x s = y s ∧ Keeps strict I (x s)

namespace Alike

variable {α β : Type} {strict : Prop} {I : ResolutionState → Prop} {x y : Resolve α}

theorem of_keeps (h : ∀ s, I s → Keeps strict I (x s)) : Alike strict I x x := fun s hs => ⟨rfl, h s hs⟩

/-- Where steps need not suffice, only results have to keep the condition. -/
theorem of_ok (heq : ∀ s, I s → x s = y s) (hok : ∀ s a s', I s → y s = .ok (a, s') → I s') :
    Alike False I x y := by
  intro s hs
  refine ⟨heq s hs, ?_⟩
  rw [heq s hs]
  cases hrun : y s with
  | error e => exact fun h => h.elim
  | ok p => exact hok s p.1 p.2 hs hrun

theorem pure (a : α) : Alike strict I (Pure.pure a : Resolve α) (Pure.pure a) :=
  .of_keeps fun _ hs => hs

/-- After a step the two go on alike in the states that it may come to. -/
theorem bind_at {J : ResolutionState → Prop} {f f' : α → Resolve β} (h : Alike strict I x y)
    {s : ResolutionState} (hs : I s) (hf : ∀ a s', x s = .ok (a, s') → I s' →
      f a s' = f' a s' ∧ Keeps strict J (f a s')) :
    (x >>= f) s = (y >>= f') s ∧ Keeps strict J ((x >>= f) s) := by
  obtain ⟨heq, hx⟩ := h hs
  change (x s >>= fun p => f p.1 p.2) = (y s >>= fun p => f' p.1 p.2) ∧
    Keeps strict J (x s >>= fun p => f p.1 p.2)
  rw [← heq]
  rcases hrun : x s with e | ⟨a, s'⟩
  · rw [hrun] at hx
    exact ⟨rfl, hx⟩
  · rw [hrun] at hx
    exact hf a s' hrun hx

theorem bind {f f' : α → Resolve β} (h : Alike strict I x y) (hf : ∀ a, Alike strict I (f a) (f' a)) :
    Alike strict I (x >>= f) (y >>= f') :=
  fun _ hs => h.bind_at hs fun a _ _ hs' => hf a hs'

/-- After the state is read, it may be used that it satisfies `I`. -/
theorem get_bind {f f' : ResolutionState → Resolve α} (h : ∀ s, I s → Alike strict I (f s) (f' s)) :
    Alike strict I (get >>= f) (get >>= f') :=
  fun s hs => h s hs hs

theorem lift {e : Except Fault α} (h : strict → e ≠ .error .stepsExhausted) :
    Alike strict I (liftM e : Resolve α) (liftM e) := by
  refine .of_keeps fun s hs => ?_
  rcases e with e | a
  · exact fun hstrict he => h hstrict (congrArg _ he)
  · exact hs

theorem throw {e : Fault} (h : e ≠ .stepsExhausted) :
    Alike strict I (MonadExcept.throw e : Resolve α) (MonadExcept.throw e) :=
  .of_keeps fun _ _ _ => h

theorem forM {f f' : α → Resolve PUnit} (hf : ∀ a, Alike strict I (f a) (f' a)) (l : List α) :
    Alike strict I (l.forM f) (l.forM f') := by
  induction l with
  | nil => exact .pure _
  | cons a l ih => exact (hf a).bind fun _ => ih

theorem mapM {f f' : α → Resolve β} (hf : ∀ a, Alike strict I (f a) (f' a)) (l : List α) :
    Alike strict I (l.mapM f) (l.mapM f') := by
  induction l with
  | nil => exact .pure _
  | cons a l ih =>
    rw [List.mapM_cons, List.mapM_cons]
    exact (hf a).bind fun b => ih.bind fun bs => .pure _

theorem foldlM {f f' : β → α → Resolve β} (hf : ∀ b a, Alike strict I (f b a) (f' b a)) (l : List α)
    (b : β) : Alike strict I (l.foldlM f b) (l.foldlM f' b) := by
  induction l generalizing b with
  | nil => exact .pure _
  | cons a l ih => exact (hf b a).bind fun c => ih c

end Alike

/-! ## Faults of another kind -/

theorem ok_ne_error {ε α : Type} {a : α} {e : ε} : Except.ok a ≠ .error e := nofun

theorem bind_ne_error {ε α β : Type} {x : Except ε α} {f : α → Except ε β} {e : ε}
    (hx : x ≠ .error e) (hf : ∀ a, x = .ok a → f a ≠ .error e) : (x >>= f) ≠ .error e := by
  cases x with
  | error e' => exact fun h => hx (congrArg _ (Except.error.inj h))
  | ok a => exact hf a rfl

theorem mapM_ne_error {ε α β : Type} {f : α → Except ε β} {e : ε} (hf : ∀ a, f a ≠ .error e)
    (l : List α) : l.mapM f ≠ .error e := by
  induction l with
  | nil => exact nofun
  | cons a l ih =>
    rw [List.mapM_cons]
    exact bind_ne_error (hf a) fun b _ => bind_ne_error ih fun bs _ => nofun

theorem elementOrFault_ne_stepsExhausted {α : Type} (xs : Array α) (i : Nat) :
    elementOrFault xs i ≠ .error .stepsExhausted := by
  intro h
  obtain ⟨-, h⟩ := elementOrFault_eq_error_iff.1 h
  cases h

theorem allocate_ne_stepsExhausted (names : NameRegistry) (base : Option String) :
    names.allocate base ≠ .error .stepsExhausted := by
  have hsuffixed (base : String) : names.allocateSuffixed base ≠ .error .stepsExhausted := by
    unfold NameRegistry.allocateSuffixed
    split <;> simp
  unfold NameRegistry.allocate
  split
  · split
    · exact hsuffixed _
    · simp
  · exact hsuffixed ""

theorem accessorName_ne_stepsExhausted (c : MemberContext) (owner : MemberSymbol)
    (slot : AccessorSlot) (preferred : PreferredName) (names : NameRegistry) :
    c.accessorName owner slot preferred names ≠ .error .stepsExhausted := by
  unfold MemberContext.accessorName
  dsimp only
  split_ifs
  · simp
  · simp
  · have hallocate := allocate_ne_stepsExhausted names (some (slot.stem ++ preferred.name.getD ""))
    cases h : names.allocate (some (slot.stem ++ preferred.name.getD "")) with
    | error e => exact fun he => hallocate (h.trans (congrArg _ (Except.error.inj he)))
    | ok name => simp [Except.map]

/-! ## Records -/

/-- Nothing has changed but diagnostics, records about members and the names counted out. -/
structure ResolutionState.SameTypes (s s' : ResolutionState) : Prop where
  types : s'.types = s.types
  typeNames : s'.typeNames = s.typeNames
  memberNames : s'.memberNames = s.memberNames
  typeGuard : s'.typeGuard = s.typeGuard
  memberGuard : s'.memberGuard = s.memberGuard

/-- A condition `I` that has nothing to do with the records about members. -/
def IgnoresRecords (I : ResolutionState → Prop) : Prop :=
  ∀ ⦃s s' : ResolutionState⦄, I s → s.SameTypes s' → I s'

namespace IgnoresRecords

variable {strict : Prop} {I : ResolutionState → Prop} (keeps : IgnoresRecords I)

include keeps

theorem report_alike (ds : List Diagnostic) : Alike strict I (report ds) (report ds) :=
  .of_keeps fun _ hs => keeps hs ⟨rfl, rfl, rfl, rfl, rfl⟩

theorem recordMethod_alike (m : MemberId) (x : MethodSemantics) :
    Alike strict I (recordMethod m x) (recordMethod m x) :=
  .of_keeps fun _ hs => keeps hs ⟨rfl, rfl, rfl, rfl, rfl⟩

theorem recordProperty_alike (m : MemberId) (x : PropertySemantics) :
    Alike strict I (recordProperty m x) (recordProperty m x) :=
  .of_keeps fun _ hs => keeps hs ⟨rfl, rfl, rfl, rfl, rfl⟩

theorem recordField_alike (m : MemberId) (x : FieldSemantics) :
    Alike strict I (recordField m x) (recordField m x) :=
  .of_keeps fun _ hs => keeps hs ⟨rfl, rfl, rfl, rfl, rfl⟩

theorem recordEvent_alike (m : MemberId) (x : EventSemantics) :
    Alike strict I (recordEvent m x) (recordEvent m x) :=
  .of_keeps fun _ hs => keeps hs ⟨rfl, rfl, rfl, rfl, rfl⟩

theorem recordOrigin_alike (m : MemberId) (x : NameOrigin) :
    Alike strict I (recordOrigin m x) (recordOrigin m x) :=
  .of_keeps fun _ hs => keeps hs ⟨rfl, rfl, rfl, rfl, rfl⟩

theorem markNotUsable_alike (m : MemberSymbol) :
    Alike strict I (markNotUsable m) (markNotUsable m) := by
  have haccessors : Alike strict I (m.accessors.forM (recordMethod · .notUsable))
      (m.accessors.forM (recordMethod · .notUsable)) :=
    .forM (fun a => keeps.recordMethod_alike a _) _
  unfold markNotUsable
  cases m.kind with
  | method data => exact keeps.recordMethod_alike _ _
  | field => exact keeps.recordField_alike _ _
  | property data => exact (keeps.recordProperty_alike _ _).bind fun _ => haccessors
  | event data => exact (keeps.recordEvent_alike _ _).bind fun _ => haccessors

theorem resolveAlternate_alike (m main : MemberSymbol) :
    Alike strict I (resolveAlternate m main) (resolveAlternate m main) := by
  unfold resolveAlternate
  split
  · exact keeps.recordMethod_alike _ _
  · exact .get_bind fun s _ => keeps.recordMethod_alike _ _

/-! ## Names -/

theorem finalName_alike (ty : TypeSymbol) (preferred : PreferredName) (names : NameRegistry) :
    Alike strict I (finalName ty preferred names) (finalName ty preferred names) := by
  unfold finalName
  split
  · exact .pure _
  unfold uniqueName
  split
  · exact .of_keeps fun _ hs => keeps hs ⟨rfl, rfl, rfl, rfl, rfl⟩
  · exact (Alike.lift fun _ => allocate_ne_stepsExhausted _ _).bind fun _ => .pure _

theorem nameMember_alike (ty : TypeSymbol) (m : MemberSymbol) (preferred : PreferredName)
    (names : NameRegistry) :
    Alike strict I (nameMember ty m preferred names) (nameMember ty m preferred names) := by
  unfold nameMember
  exact (keeps.finalName_alike ty preferred names).bind fun p =>
    (keeps.recordOrigin_alike m.id p.2).bind fun _ => .pure _

theorem namedMethod_alike (g : TypeGraph) (ty : TypeSymbol) (m : MemberSymbol)
    (preferred : PreferredName) (names : NameRegistry) :
    Alike strict I (namedMethod g ty m preferred names) (namedMethod g ty m preferred names) := by
  unfold namedMethod
  split
  · exact (keeps.report_alike _).bind fun _ => .pure _
  · exact (keeps.nameMember_alike ty m preferred names).bind fun _ => .pure _

end IgnoresRecords

section

variable {strict : Prop} {I : ResolutionState → Prop} (keeps : IgnoresRecords I) {g : TypeGraph}
  {lookup lookup' : MemberId → Resolve (Option MethodSemantics)}
  (hlookup : ∀ b, Alike strict I (lookup b) (lookup' b))

include keeps hlookup

/-! ## Methods -/

omit keeps in
theorem firstDisagreement_alike (name : Option String) (ms : List MemberId) :
    Alike strict I (firstDisagreement lookup name ms) (firstDisagreement lookup' name ms) := by
  induction ms with
  | nil => exact .pure _
  | cons m ms ih =>
    rw [firstDisagreement, firstDisagreement]
    refine (hlookup m).bind fun semantics => ?_
    split
    · exact .pure _
    · exact ih

theorem reportDisagreement_alike (m : MemberSymbol) (semantics : MethodSemantics) :
    Alike strict I (reportDisagreement g lookup m semantics) (reportDisagreement g lookup' m semantics) := by
  unfold reportDisagreement
  split
  · refine (firstDisagreement_alike hlookup _ _).bind fun found => ?_
    cases found with
    | none => exact .pure _
    | some other =>
      exact (Alike.lift fun _ => elementOrFault_ne_stepsExhausted _ _).bind fun _ => keeps.report_alike _
  · exact .pure _

theorem overridingMethod_alike (m : MemberSymbol) (isSpecified : Bool) :
    Alike strict I (overridingMethod g lookup m isSpecified)
      (overridingMethod g lookup' m isSpecified) := by
  unfold overridingMethod
  refine (keeps.report_alike _).bind fun _ => ?_
  cases m.overridden with
  | none => exact .pure _
  | some overridden =>
    refine (hlookup overridden).bind fun found => ?_
    cases found with
    | none => exact .pure _
    | some semantics =>
      exact (reportDisagreement_alike keeps hlookup m semantics).bind fun _ => .pure _

theorem implementingMethod_alike (m : MemberSymbol) (isSpecified : Bool) :
    Alike strict I (implementingMethod g lookup m isSpecified)
      (implementingMethod g lookup' m isSpecified) := by
  unfold implementingMethod
  refine (keeps.report_alike _).bind fun _ => ?_
  refine (Alike.mapM hlookup m.implements).bind fun implemented => ?_
  exact (keeps.report_alike _).bind fun _ => .pure _

theorem inheritedMethod?_alike (m : MemberSymbol) (isSpecified : Bool) :
    Alike strict I (inheritedMethod? g lookup m isSpecified)
      (inheritedMethod? g lookup' m isSpecified) := by
  have himplementing : Alike strict I
      (if m.implements.isEmpty then return none else implementingMethod g lookup m isSpecified)
      (if m.implements.isEmpty then return none
        else implementingMethod g lookup' m isSpecified) := by
    split
    · exact .pure _
    · exact implementingMethod_alike keeps hlookup m isSpecified
  unfold inheritedMethod?
  dsimp only
  split
  · refine (overridingMethod_alike keeps hlookup m isSpecified).bind fun overriding => ?_
    cases overriding with
    | some semantics => exact .pure _
    | none => exact himplementing
  · exact himplementing

theorem classifyMethod_alike (ty : TypeSymbol) (resolved : ResolvedType) (m : MemberSymbol)
    (preferred : PreferredName) (names : NameRegistry) :
    Alike strict I (classifyMethod g lookup ty resolved m preferred names)
      (classifyMethod g lookup' ty resolved m preferred names) := by
  unfold classifyMethod
  split
  · exact .pure _
  split
  · exact .pure _
  cases g.markedMethod? ty m preferred.name with
  | some marked => exact (keeps.report_alike _).bind fun _ => .pure _
  | none =>
    refine (inheritedMethod?_alike keeps hlookup m preferred.isSpecified).bind fun inherited => ?_
    cases inherited with
    | some semantics => exact .pure _
    | none => exact keeps.namedMethod_alike g ty m preferred names

theorem resolveMethod_alike (ty : TypeSymbol) (resolved : ResolvedType) (m : MemberSymbol)
    (preferred : PreferredName) (names : NameRegistry) :
    Alike strict I (resolveMethod g lookup ty resolved m preferred names)
      (resolveMethod g lookup' ty resolved m preferred names) := by
  unfold resolveMethod
  exact (classifyMethod_alike keeps hlookup ty resolved m preferred names).bind fun p =>
    (keeps.recordMethod_alike m.id p.1).bind fun _ => .pure _

end

/-! ## Properties, fields and events -/

namespace MemberContext

/-- The tools `c` with another way `lookup` of getting the semantics of methods. -/
abbrev asking (c : MemberContext) (lookup : MemberId → Resolve (Option MethodSemantics)) :
    MemberContext :=
  { c with semanticsOf := lookup }

section

variable (c : MemberContext) (lookup : MemberId → Resolve (Option MethodSemantics))

theorem accessorName_asking : (c.asking lookup).accessorName = c.accessorName := rfl

theorem aliasedProperty_asking : (c.asking lookup).aliasedProperty = c.aliasedProperty := rfl

theorem intrinsicProperty_asking : (c.asking lookup).intrinsicProperty = c.intrinsicProperty := rfl

end

variable {strict : Prop} {I : ResolutionState → Prop} (keeps : IgnoresRecords I) (c : MemberContext)
  {lookup : MemberId → Resolve (Option MethodSemantics)}
  (hlookup : ∀ b, Alike strict I (c.semanticsOf b) (lookup b)) (m : MemberSymbol)
  (preferred : PreferredName) (names : NameRegistry)

include keeps hlookup

theorem resolveAccessor_alike (slot : AccessorSlot) (accessor : MemberId) :
    Alike strict I (c.resolveAccessor m slot preferred accessor names)
      ((c.asking lookup).resolveAccessor m slot preferred accessor names) := by
  unfold resolveAccessor
  rw [accessorName_asking c lookup]
  dsimp only
  refine (Alike.lift fun _ => elementOrFault_ne_stepsExhausted _ _).bind fun a => ?_
  refine (keeps.report_alike _).bind fun _ => ?_
  by_cases hspecified : (c.graph.preferredName c.options c.type c.resolved a).1.isSpecified
  · rw [if_pos hspecified, if_pos hspecified]
    exact (Alike.pure _).bind fun name => resolveMethod_alike keeps hlookup _ _ _ _ _
  · rw [if_neg hspecified, if_neg hspecified]
    exact (Alike.lift fun _ => accessorName_ne_stepsExhausted c m slot preferred names).bind
      fun name => resolveMethod_alike keeps hlookup _ _ _ _ _

theorem resolveAccessor?_alike (slot : AccessorSlot) :
    Alike strict I (c.resolveAccessor? m slot preferred names)
      ((c.asking lookup).resolveAccessor? m slot preferred names) := by
  unfold resolveAccessor?
  cases m.accessor? slot with
  | none => exact .pure _
  | some accessor =>
    exact (resolveAccessor_alike keeps c hlookup m preferred names slot accessor).bind
      fun _ => .pure _

theorem accessedProperty_alike :
    Alike strict I (c.accessedProperty m preferred names)
      ((c.asking lookup).accessedProperty m preferred names) := by
  unfold accessedProperty
  refine (resolveAccessor?_alike keeps c hlookup m preferred names .getter).bind fun getter => ?_
  exact (resolveAccessor?_alike keeps c hlookup m preferred getter.2 .setter).bind fun _ => .pure _

theorem unaliasedProperty_alike :
    Alike strict I (c.unaliasedProperty m preferred names)
      ((c.asking lookup).unaliasedProperty m preferred names) := by
  unfold unaliasedProperty
  rw [intrinsicProperty_asking c lookup]
  split
  · cases c.intrinsicProperty m preferred.name with
    | ok intrinsic => exact .pure _
    | error d =>
      exact (keeps.report_alike _).bind fun _ =>
        accessedProperty_alike keeps c hlookup m preferred names
  · exact accessedProperty_alike keeps c hlookup m preferred names

theorem classifyProperty_alike :
    Alike strict I (c.classifyProperty m preferred names)
      ((c.asking lookup).classifyProperty m preferred names) := by
  unfold classifyProperty
  rw [aliasedProperty_asking c lookup]
  rcases (m.markerText? .scriptAlias).map _ with _ | d | semantics
  · exact unaliasedProperty_alike keeps c hlookup m preferred names
  · exact (keeps.report_alike _).bind fun _ =>
      unaliasedProperty_alike keeps c hlookup m preferred names
  · exact .pure _

theorem resolveDataMember_alike :
    Alike strict I (c.resolveDataMember m preferred names)
      ((c.asking lookup).resolveDataMember m preferred names) := by
  unfold resolveDataMember
  split
  · exact (keeps.markNotUsable_alike m).bind fun _ => .pure _
  cases m.kind with
  | method data => exact .pure _
  | property data =>
    exact (classifyProperty_alike keeps c hlookup m preferred names).bind fun p =>
      (keeps.recordProperty_alike m.id p.1).bind fun _ => .pure _
  | field =>
    exact (keeps.nameMember_alike c.type m preferred names).bind fun p =>
      (keeps.recordField_alike m.id (.field p.1)).bind fun _ => .pure _
  | event data =>
    refine (resolveAccessor?_alike keeps c hlookup m preferred names .adder).bind fun adder => ?_
    refine (resolveAccessor?_alike keeps c hlookup m preferred adder.2 .remover).bind
      fun remover => ?_
    exact (keeps.recordEvent_alike m.id _).bind fun _ => .pure _

theorem resolveMember_alike :
    Alike strict I (c.resolveMember m preferred names)
      ((c.asking lookup).resolveMember m preferred names) := by
  unfold resolveMember
  split
  · exact (resolveMethod_alike keeps hlookup c.type c.resolved m preferred names).bind
      fun _ => .pure _
  · exact resolveDataMember_alike keeps c hlookup m preferred names

omit m preferred

theorem resolveMembers_alike :
    Alike strict I (c.resolveMembers names) ((c.asking lookup).resolveMembers names) := by
  rw [resolveMembers_eq, resolveMembers_eq]
  refine (keeps.report_alike c.planProblems).bind fun _ => ?_
  refine Alike.bind (.foldlM (fun names p => ?_) c.plan names) fun names => ?_
  · exact resolveMember_alike keeps c hlookup p.1 p.2 names
  · refine Alike.bind (.forM (fun p => ?_) (c.graph.alternates c.type)) fun _ => .pure _
    exact keeps.resolveAlternate_alike p.1 p.2

end MemberContext

/-! ## Types -/

section

variable {strict : Prop} {I : ResolutionState → Prop} {g : TypeGraph} {options : Options}
  {ensure ensure' : TypeId → Resolve Unit} (hensure : ∀ t, Alike strict I (ensure t) (ensure' t))

include hensure

/-- Requests for the semantics of a method go on to requests for the members of its type. -/
theorem methodSemanticsBy_alike (b : MemberId) :
    Alike strict I (methodSemanticsBy g ensure b) (methodSemanticsBy g ensure' b) := by
  unfold methodSemanticsBy
  refine .get_bind fun s _ => ?_
  cases s.methods.find? b with
  | some semantics => exact .pure _
  | none =>
    cases g.member? b with
    | none => exact .pure _
    | some y => exact (hensure y.declaringType).bind fun _ => .get_bind fun s _ => .pure _

/-- The members of `ty` are processed alike if requests are answered alike. -/
theorem processMembers_alike (keeps : IgnoresRecords I) {ty : TypeSymbol}
    (hbases : strict → g.allBaseTypes ty ≠ .error .stepsExhausted) (resolved : ResolvedType) :
    Alike strict I (processMembers g options ensure ty resolved)
      (processMembers g options ensure' ty resolved) := by
  unfold processMembers
  refine (Alike.lift hbases).bind fun bases => ?_
  refine (Alike.forM hensure bases).bind fun _ => .get_bind fun s _ => ?_
  dsimp only
  split
  · exact (g.memberContext options ensure ty resolved).resolveMembers_alike keeps
      (methodSemanticsBy_alike hensure) _
  · exact (Alike.forM keeps.markNotUsable_alike _).bind fun _ => .pure _

end

end ScriptNaming
