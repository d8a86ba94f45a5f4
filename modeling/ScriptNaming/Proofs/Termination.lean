import ScriptNaming.Proofs.SameRequests
import ScriptNaming.Proofs.Shallow
import ScriptNaming.Proofs.WriteOnce

/-!
# Requests end

Resolving the members of a type, processing them, classifying a method and asking for the semantics
of a method call each other. The measure of this recursion is the number of types whose members are
neither resolved nor in progress (`ResolutionState.remaining`): the members of a type are processed
only after that type has left them, and a type that has left them is answered without recursion.

`Ends` says of a request that it has an outcome after a bounded number of calls within each other,
and that both guards are afterwards as they were before, with the types in progress and with the
depth, which is the number of these types all along (`InRun.guards_counted`). `requests_end` has
this for all the functions of the recursion, in the midst of any resolution, whatever types inherit
from each other and whatever members override each other. Thus no resolution ends for want of steps
(`resolve_ne_stepsExhausted`).
-/

namespace ScriptNaming

open ResolutionState

/-! ## Base types and types around a type -/

namespace TypeGraph

variable {g : TypeGraph}

/-- Every type in `pending` takes a step, and so does every base type of a type that is not `seen`
yet. -/
theorem baseTypesFrom_ne_stepsExhausted {steps : Nat} {pending seen : List TypeId}
    (hsteps : pending.length + g.unseen seen ≤ steps) :
    g.baseTypesFrom steps pending seen ≠ .error .stepsExhausted := by
  induction steps generalizing pending seen with
  | zero =>
    obtain rfl : pending = [] := List.length_eq_zero_iff.1 (by omega)
    exact ok_ne_error
  | succ steps ih =>
    cases pending with
    | nil => exact ok_ne_error
    | cons t pending =>
      rw [List.length_cons] at hsteps
      rw [baseTypesFrom]
      split
      · exact ih (by omega)
      rename_i hseen
      refine bind_ne_error (elementOrFault_ne_stepsExhausted _ _) fun ty hty => ?_
      refine bind_ne_error (ih ?_) fun l _ => ok_ne_error
      have hcount := unseen_eq_add (typeOrFault_eq_ok_iff.1 hty)
        fun h => hseen (List.contains_iff_mem.2 h)
      rw [List.length_append]
      omega

/-- Everything that `ty` inherits from is found, also where base types form cycles. -/
theorem allBaseTypes_ne_stepsExhausted {ty : TypeSymbol} (hty : g.type? ty.id = some ty) :
    g.allBaseTypes ty ≠ .error .stepsExhausted := by
  refine baseTypesFrom_ne_stepsExhausted ?_
  rw [inheritanceCount_eq_unseen, unseen_eq_add hty List.not_mem_nil]

end TypeGraph

section

variable {g : TypeGraph} {options : Options}

theorem entryOrFault_alike (t : TypeId) :
    Alike True (fun _ => True) (entryOrFault t) (entryOrFault t) := by
  refine .get_bind fun s _ => ?_
  cases s.types.find? t with
  | some resolved => exact .pure _
  | none => exact .throw nofun

theorem resolveTypeBy_alike {outer : TypeId → Resolve ResolvedType} {t : TypeId}
    (houter : ∀ ty u, g.type? t = some ty → ty.declaringType = some u →
      Alike True (fun _ => True) (outer u) (outer u)) :
    Alike True (fun _ => True) (resolveTypeBy g options outer t) (resolveTypeBy g options outer t) := by
  have keeps : IgnoresRecords fun _ => True := fun _ _ _ _ => trivial
  have hmodify (f : ResolutionState → ResolutionState) :
      Alike True (fun _ => True) (modify f : Resolve PUnit) (modify f) :=
    .of_keeps fun _ _ => trivial
  have hleave (s : ResolutionState) : s.typeGuard.leaveOrFault t ≠ .error .stepsExhausted := by
    unfold Guard.leaveOrFault
    split <;> simp
  intro s hs
  refine (Alike.lift (I := fun _ => True) fun _ => elementOrFault_ne_stepsExhausted _ _).bind_at hs
    fun ty s' hrun _ => ?_
  obtain ⟨hty, rfl⟩ := run_liftM_eq_ok.1 hrun
  have haround : Alike True (fun _ => True) (ty.declaringType.mapM outer)
      (ty.declaringType.mapM outer) := by
    cases hu : ty.declaringType with
    | none => exact .pure _
    | some u =>
      exact (houter ty u (TypeGraph.typeOrFault_eq_ok_iff.1 hty) hu).bind fun _ => .pure _
  have hcompute : Alike True (fun _ => True) (computeTypeBy g options outer ty)
      (computeTypeBy g options outer ty) := by
    unfold computeTypeBy
    split
    · exact .pure _
    refine haround.bind fun found => ?_
    split
    · exact .pure _
    · exact .get_bind fun s _ => (keeps.report_alike _).bind fun _ => .pure _
  rw [run_get_bind]
  cases s'.typeGuard.enter t with
  | cycle => exact ⟨rfl, fun _ => nofun⟩
  | tooDeep => exact ⟨rfl, fun _ => nofun⟩
  | entered guard =>
    refine Alike.bind (hmodify _) (fun _ => hcompute.bind fun r => ?_) trivial
    exact .get_bind fun s _ => (Alike.lift fun _ => hleave s).bind fun _ => hmodify _

variable (wf : g.WellFormed)

include wf

/-- The type around a type `t` comes before it, so that resolving `t` takes no more steps than there
are types up to it. -/
theorem ensureTypeWithin_alike {steps : Nat} {t : TypeId}
    (hsteps : min t.index g.types.size < steps) :
    Alike True (fun _ => True) (ensureTypeWithin g options steps t)
      (ensureTypeWithin g options steps t) := by
  induction steps generalizing t with
  | zero => exact absurd hsteps (Nat.not_lt_zero _)
  | succ steps ih =>
    unfold ensureTypeWithin
    refine .get_bind fun s _ => ?_
    cases s.types.find? t with
    | some resolved => exact .pure _
    | none =>
      refine (resolveTypeBy_alike fun ty u hty hu => ih ?_).bind fun _ => entryOrFault_alike t
      have hlt := wf.outer_lt hty hu
      have ht := TypeGraph.index_lt_of_type? hty
      omega

theorem ensureType_keeps (t : TypeId) (s : ResolutionState) :
    Keeps True (fun _ => True) (ensureType g options t s) :=
  (ensureTypeWithin_alike wf (Nat.lt_succ_of_le (Nat.min_le_right _ _)) trivial).2

end

/-! ## The measure -/

namespace ResolutionState

instance (s : ResolutionState) (t : TypeId) : Decidable (s.Begun t) :=
  inferInstanceAs (Decidable (s.memberNames.contains t ∨ t ∈ s.memberGuard.visiting))

/-- The types of `g` whose members are neither resolved nor in progress. -/
def remaining (s : ResolutionState) (g : TypeGraph) : List TypeId :=
  g.typeIds.filter fun t => ¬s.Begun t

variable {g : TypeGraph} {s s' : ResolutionState}

theorem mem_remaining {t : TypeId} :
    t ∈ s.remaining g ↔ (∃ ty, g.type? t = some ty) ∧ ¬s.Begun t := by
  rw [remaining, List.mem_filter, decide_eq_true_eq]
  refine and_congr_left fun _ => ?_
  rw [TypeGraph.typeIds, List.mem_map]
  constructor
  · rintro ⟨i, hi, rfl⟩
    exact ⟨_, Array.getElem?_eq_getElem (List.mem_range.1 hi)⟩
  · rintro ⟨ty, hty⟩
    exact ⟨t.index, List.mem_range.2 (TypeGraph.index_lt_of_type? hty), rfl⟩

/-- Where more types have been begun in `s'`, fewer remain. -/
theorem remaining_eq_filter (h : ∀ t, s.Begun t → s'.Begun t) :
    s'.remaining g = (s.remaining g).filter fun t => ¬s'.Begun t := by
  rw [remaining, remaining, List.filter_filter]
  refine List.filter_congr fun t _ => ?_
  by_cases ht : s'.Begun t
  · simp [ht]
  · simp [ht, mt (h t) ht]

theorem length_remaining_le (h : ∀ t, s.Begun t → s'.Begun t) :
    (s'.remaining g).length ≤ (s.remaining g).length := by
  rw [remaining_eq_filter h]
  exact List.length_filter_le _ _

/-- To begin a type takes it away from those that remain. -/
theorem length_remaining_lt (h : ∀ t, s.Begun t → s'.Begun t) {t : TypeId}
    (ht : t ∈ s.remaining g) (hbegun : s'.Begun t) :
    (s'.remaining g).length < (s.remaining g).length := by
  rw [remaining_eq_filter h, List.length_filter_lt_length_iff_exists]
  exact ⟨t, ht, by simp [hbegun]⟩

theorem length_remaining_le_size (s : ResolutionState) (g : TypeGraph) :
    (s.remaining g).length ≤ g.types.size := by
  have hle := List.length_filter_le (fun t => decide ¬s.Begun t) g.typeIds
  rwa [TypeGraph.typeIds, List.length_map, List.length_range] at hle

/-- A state in the midst of a request, with no more than `n` remaining types and with the guards
`types` and `members`. -/
structure Amid (g : TypeGraph) (options : Options) (n : Nat) (types members : Guard)
    (s : ResolutionState) : Prop where
  fit : g.TypesFit options s.types
  remaining : (s.remaining g).length ≤ n
  typeGuard : s.typeGuard = types
  memberGuard : s.memberGuard = members

variable {options : Options} {n : Nat} {types members : Guard}

theorem amid_ignoresRecords : IgnoresRecords (Amid g options n types members) := by
  intro s s' hs change
  have hbegun (t : TypeId) : s.Begun t → s'.Begun t := by
    rw [Begun, Begun, Done, Done, change.memberNames, change.memberGuard]
    exact id
  exact {
    fit := by rw [change.types]; exact hs.fit
    remaining := (length_remaining_le hbegun).trans hs.remaining
    typeGuard := change.typeGuard.trans hs.typeGuard
    memberGuard := change.memberGuard.trans hs.memberGuard }

theorem Amid.grow (hs : Amid g options n types members s) (h : s.TypesGrow s')
    (fit : g.TypesFit options s'.types) : Amid g options n types members s' where
  fit := fit
  remaining := (length_remaining_le fun _ => h.begun_iff.2).trans hs.remaining
  typeGuard := h.typeGuard.trans hs.typeGuard
  memberGuard := h.memberGuard.trans hs.memberGuard

/-- A type that has not been begun is one of the remaining types until it is begun. -/
theorem Amid.begin (hs : Amid g options n types members s) {t : TypeId} {ty : TypeSymbol}
    (hty : g.type? t = some ty) (hfresh : ¬s.Begun t) :
    ∃ k, n = k + 1 ∧ Amid g options k types (members.push t) (s.begin t) := by
  have hlt : ((s.begin t).remaining g).length < (s.remaining g).length :=
    length_remaining_lt (fun _ hu => begun_begin hu t) (mem_remaining.2 ⟨⟨ty, hty⟩, hfresh⟩)
      (begun_begin_iff.2 (.inl rfl))
  have hle := hs.remaining
  obtain ⟨k, rfl⟩ : ∃ k, n = k + 1 := ⟨n - 1, by omega⟩
  refine ⟨k, rfl, hs.fit, by omega, hs.typeGuard, ?_⟩
  rw [ResolutionState.begin, hs.memberGuard]

/-- When a type is done, the guards are as they were before it was begun. -/
theorem Amid.finish {t : TypeId} {k : Nat} (hs : Amid g options k types (members.push t) s)
    (hk : k ≤ n) (names : NameRegistry) : Amid g options n types members (s.finish t names) := by
  have hguard : (s.finish t names).memberGuard = members := by
    rw [ResolutionState.finish, hs.memberGuard, Guard.leave_push]
  have hbegun (u : TypeId) (hu : s.Begun u) : (s.finish t names).Begun u := by
    rcases hu with hdone | hmem
    · refine .inl ?_
      rw [Done, ResolutionState.finish, Table.contains_insert, Bool.or_eq_true]
      exact .inr hdone
    · rw [hs.memberGuard] at hmem
      rcases List.mem_cons.1 hmem with rfl | hmem
      · exact .inl (s.done_finish u names)
      · exact .inr (hguard ▸ hmem)
  exact {
    fit := hs.fit
    remaining := (length_remaining_le hbegun).trans (hs.remaining.trans hk)
    typeGuard := hs.typeGuard
    memberGuard := hguard }

end ResolutionState

/-! ## Requests -/

section

variable {g : TypeGraph} {options : Options} (wf : g.WellFormed) {types members : Guard}

include wf

theorem ensureType_alike {n : Nat} (t : TypeId) :
    Alike True (Amid g options n types members) (ensureType g options t) (ensureType g options t) := by
  refine .of_keeps fun s hs => ?_
  have hkeeps : Keeps True (fun _ => True) (ensureType g options t s) :=
    ensureType_keeps wf t s
  cases hrun : ensureType g options t s with
  | error e =>
    rw [hrun] at hkeeps
    exact hkeeps
  | ok p =>
    obtain ⟨r, s'⟩ := p
    obtain ⟨hgrow, hfit, -⟩ := ensureType_spec hs.fit hrun
    exact hs.grow hgrow hfit

/-- Where more steps are left than types remain, the number of steps makes no difference to a
request for `t`, and they suffice. -/
theorem ensureMembersWithin_alike {n steps steps' : Nat} (h : n < steps) (h' : n < steps')
    (t : TypeId) : Alike True (Amid g options n types members) (ensureMembersWithin g options steps t)
      (ensureMembersWithin g options steps' t) := by
  induction steps generalizing n steps' types members t with
  | zero => exact absurd h (Nat.not_lt_zero _)
  | succ steps ih =>
    obtain ⟨steps', rfl⟩ : ∃ k, steps' = k + 1 := ⟨steps' - 1, by omega⟩
    intro s hs
    rw [ensureMembersWithin, ensureMembersWithin, ensureMembersBy, ensureMembersBy, run_get_bind,
      run_get_bind]
    by_cases hdone : s.memberNames.contains t
    · rw [if_pos hdone, if_pos hdone]
      exact ⟨rfl, hs⟩
    rw [if_neg hdone, if_neg hdone]
    refine (ensureType_alike wf t).bind_at hs fun resolved s₁ htype hs₁ => ?_
    obtain ⟨hgrow, -, -⟩ := ensureType_spec hs.fit htype
    refine (Alike.lift fun _ => elementOrFault_ne_stepsExhausted _ _).bind_at hs₁ fun ty s₂ hrun _ => ?_
    obtain ⟨hty, rfl⟩ := run_liftM_eq_ok.1 hrun
    rw [run_get_bind, run_get_bind]
    cases henter : s₂.memberGuard.enter t with
    | cycle => exact ⟨rfl, hs₁⟩
    | tooDeep => exact ⟨rfl, fun _ h => by cases h⟩
    | entered guard =>
      have hfresh : ¬s₂.Begun t := hgrow.not_begun_of_enter hdone henter
      obtain ⟨-, -, rfl⟩ := Guard.enter_eq_entered_iff.1 henter
      -- The type itself leaves the remaining ones, so that a step less is enough for the others.
      obtain ⟨k, rfl, hbegin⟩ := hs₁.begin (TypeGraph.typeOrFault_eq_ok_iff.1 hty) hfresh
      obtain rfl := wf.type_id (TypeGraph.typeOrFault_eq_ok_iff.1 hty)
      dsimp only
      rw [run_modify_bind, run_modify_bind]
      refine (processMembers_alike (fun u => ih (by omega) (by omega) u) amid_ignoresRecords
        (fun _ => TypeGraph.allBaseTypes_ne_stepsExhausted (TypeGraph.typeOrFault_eq_ok_iff.1 hty))
        resolved).bind_at hbegin fun names s₃ _ hs₃ => ⟨rfl, ?_⟩
      have hleave : s₃.memberGuard.leaveOrFault ty.id = .ok (s₃.memberGuard.leave ty.id) := by
        refine Guard.leaveOrFault_eq_ok_iff.2 ⟨?_, rfl⟩
        rw [hs₃.memberGuard]
        exact .head _
      rw [run_get_bind, hleave]
      exact hs₃.finish (Nat.le_succ k) names

end

/-! ## Ends -/

/-- The recursion `x`, which is bounded by a number of steps, ends in the state `s`: `n` steps are
enough for an outcome, which further steps do not change, and when there is a result, the types in
progress and the depths of both guards are as they were before, and no more types remain. -/
structure Ends {α : Type} (g : TypeGraph) (n : Nat) (x : Nat → Resolve α) (s : ResolutionState) :
    Prop where
  sufficed : x n s ≠ .error .stepsExhausted
  same : ∀ steps, n ≤ steps → x steps s = x n s
  typeGuard : ∀ a s', x n s = .ok (a, s') → s'.typeGuard = s.typeGuard
  memberGuard : ∀ a s', x n s = .ok (a, s') → s'.memberGuard = s.memberGuard
  remaining : ∀ a s', x n s = .ok (a, s') → (s'.remaining g).length ≤ (s.remaining g).length

theorem Ends.of_alike {α : Type} {g : TypeGraph} {options : Options} {n : Nat} {x : Nat → Resolve α}
    {s : ResolutionState} (fit : g.TypesFit options s.types)
    (h : ∀ steps, n ≤ steps → Alike True
      (Amid g options (s.remaining g).length s.typeGuard s.memberGuard) (x steps) (x n)) :
    Ends g n x s := by
  have hs : Amid g options (s.remaining g).length s.typeGuard s.memberGuard s :=
    ⟨fit, Nat.le_refl _, rfl, rfl⟩
  have hkeeps := (h n (Nat.le_refl n) hs).2
  have hok (a : α) (s' : ResolutionState) (hrun : x n s = .ok (a, s')) :
      Amid g options (s.remaining g).length s.typeGuard s.memberGuard s' := by
    rwa [hrun] at hkeeps
  exact {
    sufficed := hkeeps.ne_error
    same := fun steps hsteps => (h steps hsteps hs).1
    typeGuard := fun a s' hrun => (hok a s' hrun).typeGuard
    memberGuard := fun a s' hrun => (hok a s' hrun).memberGuard
    remaining := fun a s' hrun => (hok a s' hrun).remaining }

/-- A type that has been begun is answered for in the same way however requests for other types are
answered: it makes none. -/
theorem ensureMembersBy_of_begun {g : TypeGraph} {options : Options} (wf : g.WellFormed)
    {s : ResolutionState} (fit : g.TypesFit options s.types) {t : TypeId} (ht : s.Begun t)
    (ensure ensure' : TypeId → Resolve Unit) :
    ensureMembersBy g options ensure t s = ensureMembersBy g options ensure' t s := by
  have hs : Amid g options (s.remaining g).length s.typeGuard s.memberGuard s :=
    ⟨fit, Nat.le_refl _, rfl, rfl⟩
  rw [ensureMembersBy, ensureMembersBy, run_get_bind, run_get_bind]
  by_cases hdone : s.memberNames.contains t
  · rw [if_pos hdone, if_pos hdone]
  rw [if_neg hdone, if_neg hdone]
  refine ((ensureType_alike wf t).bind_at (J := fun _ => True) hs fun resolved s₁ _ hs₁ => ?_).1
  refine (Alike.lift fun _ => elementOrFault_ne_stepsExhausted _ _).bind_at hs₁ fun ty s₂ _ hs₂ => ?_
  rw [run_get_bind, run_get_bind]
  cases henter : s₂.memberGuard.enter t with
  | cycle => exact ⟨rfl, trivial⟩
  | tooDeep => exact ⟨rfl, fun _ h => by cases h⟩
  | entered guard =>
    obtain ⟨-, hmem, -⟩ := Guard.enter_eq_entered_iff.1 henter
    rw [hs₂.memberGuard] at hmem
    exact absurd ht (not_or.2 ⟨hdone, hmem⟩)

/-- In the midst of any resolution the depth of each guard of `s` is the number of types in
progress. -/
theorem InRun.guards_counted {g : TypeGraph} {options : Options} {l : List TypeId}
    {s : ResolutionState} (hs : InRun g options l s) :
    s.typeGuard.IsCounted ∧ s.memberGuard.IsCounted :=
  ⟨hs.tidy.1.typesCounted, hs.tidy.1.membersCounted⟩

/-- **Requests end**, in the midst `s` of any resolution of any graph `g` that declarations put
together, after no more calls within each other than there are remaining types, and one. This goes
for resolving and for processing the members of a type, for classifying a method and for asking for
its semantics. Each type that is begun leaves the remaining ones, and no type that has been begun
gives rise to further requests. -/
theorem requests_end {g : TypeGraph} (hg : g.Built) {options : Options} {l : List TypeId}
    {s : ResolutionState} (hs : InRun g options l s) :
    (∀ t, Ends g ((s.remaining g).length + 1)
      (fun steps => ensureMembersWithin g options steps t) s) ∧
    (∀ t ty resolved, g.type? t = some ty → Ends g ((s.remaining g).length + 1)
      (fun steps => processMembers g options (ensureMembersWithin g options steps) ty resolved)
        s) ∧
    (∀ ty resolved m preferred names, Ends g ((s.remaining g).length + 1)
      (fun steps => classifyMethod g (methodSemanticsBy g (ensureMembersWithin g options steps)) ty
        resolved m preferred names) s) ∧
    (∀ b, Ends g ((s.remaining g).length + 1)
      (fun steps => methodSemanticsBy g (ensureMembersWithin g options steps) b) s) ∧
    (∀ t resolved s₁ guard, ¬s.Done t → ensureType g options t s = .ok (resolved, s₁) →
      s₁.memberGuard.enter t = .entered guard →
      (remaining { s₁ with memberGuard := guard } g).length < (s.remaining g).length) ∧
    (∀ t, s.Begun t → ∀ ensure ensure', ensureMembersBy g options ensure t s =
      ensureMembersBy g options ensure' t s) := by
  obtain ⟨htidy, -⟩ := hs.tidy
  have wf := hg.wellFormed
  have hensure (steps : Nat) (hsteps : (s.remaining g).length + 1 ≤ steps) (t : TypeId) :
      Alike True (Amid g options (s.remaining g).length s.typeGuard s.memberGuard)
        (ensureMembersWithin g options steps t)
        (ensureMembersWithin g options ((s.remaining g).length + 1) t) :=
    ensureMembersWithin_alike wf hsteps (Nat.lt_succ_self _) t
  refine ⟨fun t => ?_, fun t ty resolved hty => ?_, fun ty resolved m preferred names => ?_,
    fun b => ?_, fun t resolved s₁ guard hdone htype henter => ?_, fun t ht => ?_⟩
  · exact .of_alike htidy.types fun steps hsteps => hensure steps hsteps t
  · obtain rfl := wf.type_id hty
    exact .of_alike htidy.types fun steps hsteps => processMembers_alike (hensure steps hsteps)
      amid_ignoresRecords (fun _ => TypeGraph.allBaseTypes_ne_stepsExhausted hty) resolved
  · exact .of_alike htidy.types fun steps hsteps => classifyMethod_alike amid_ignoresRecords
      (methodSemanticsBy_alike (hensure steps hsteps)) ty resolved m preferred names
  · exact .of_alike htidy.types fun steps hsteps => methodSemanticsBy_alike (hensure steps hsteps) b
  · obtain ⟨hgrow, hfit, hfound⟩ := ensureType_spec htidy.types htype
    obtain ⟨ty, hty, -⟩ := hfit hfound
    have hfresh := hgrow.not_begun_of_enter hdone henter
    obtain ⟨-, -, rfl⟩ := Guard.enter_eq_entered_iff.1 henter
    have hremain : t ∈ s.remaining g := mem_remaining.2 ⟨⟨ty, hty⟩, mt hgrow.begun_iff.2 hfresh⟩
    exact length_remaining_lt (fun u hu => begun_begin (hgrow.begun_iff.2 hu) t) hremain
      (begun_begin_iff.2 (.inl rfl))
  · exact ensureMembersBy_of_begun wf htidy.types ht

/-- The members of the second of two classes that inherit from each other are resolved while those
of the first one are in progress: one type remains. -/
theorem heirs_requests_end :
    heirGraph.Built ∧ ∃ s s', InRun heirGraph {} [⟨0⟩] s ∧ s.remaining heirGraph = [⟨1⟩] ∧
      ensureMembersWithin heirGraph {} 2 ⟨1⟩ s = .ok ((), s') ∧
      s'.memberGuard = ⟨[⟨0⟩], 1⟩ ∧ s'.remaining heirGraph = [] ∧
      Ends heirGraph 2 (fun steps => ensureMembersWithin heirGraph {} steps ⟨1⟩) s := by
  have hrun : (ensureType heirGraph {} ⟨0⟩ .initial).toOption.any fun p =>
      ¬p.2.memberNames.contains ⟨0⟩ ∧
        p.2.memberGuard.enter ⟨0⟩ = .entered (p.2.begin ⟨0⟩).memberGuard ∧
        (p.2.begin ⟨0⟩).remaining heirGraph = [⟨1⟩] ∧
        (ensureMembersWithin heirGraph {} 2 ⟨1⟩ (p.2.begin ⟨0⟩)).toOption.any fun q =>
          q.2.memberGuard = ⟨[⟨0⟩], 1⟩ ∧ q.2.remaining heirGraph = [] := by
    decide +kernel
  obtain ⟨⟨resolved, s⟩, htype, hrest⟩ := exists_of_any_toOption hrun
  obtain ⟨hundone, henter, hremaining, hmembers⟩ := of_decide_eq_true hrest
  obtain ⟨⟨⟨⟩, s'⟩, hrequest, hafter⟩ := exists_of_any_toOption hmembers
  obtain ⟨hguard, hnone⟩ := of_decide_eq_true hafter
  have hs : InRun heirGraph {} [⟨0⟩] (s.begin ⟨0⟩) := (InRun.initial.type htype).begin hundone henter
  have hends := (requests_end built_heirGraph hs).1 ⟨1⟩
  rw [hremaining] at hends
  exact ⟨built_heirGraph, s.begin ⟨0⟩, s', hs, hremaining, hrequest, hguard, hnone, hends⟩

/-! ## Resolutions -/

/-- No resolution of a graph that declarations put together ends for want of steps. -/
theorem resolve_ne_stepsExhausted {g : TypeGraph} (hg : g.Built) (options : Options)
    (roots : List TypeId) (main : AssemblyId) :
    g.resolve options roots main ≠ .error .stepsExhausted := by
  have hsorted : g.sortedRoots roots ≠ .error .stepsExhausted :=
    bind_ne_error (mapM_ne_error (fun t => elementOrFault_ne_stepsExhausted _ _) _) fun _ _ => ok_ne_error
  have hroot (t : TypeId) : Alike True (Amid g options g.types.size ∅ ∅) (resolveRoot g options t)
      (resolveRoot g options t) :=
    (ensureType_alike hg.wellFormed t).bind fun _ =>
      ensureMembersWithin_alike hg.wellFormed (Nat.lt_succ_self _) (Nat.lt_succ_self _) t
  have hinitial : Amid g options g.types.size ∅ ∅ .initial :=
    ⟨(Tidy.initial g options).types, length_remaining_le_size _ g, rfl, rfl⟩
  refine bind_ne_error hsorted fun sorted _ => bind_ne_error ?_ fun _ _ => ok_ne_error
  exact (Alike.forM hroot _ hinitial).2.ne_error

end ScriptNaming
