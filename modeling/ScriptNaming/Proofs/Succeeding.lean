import ScriptNaming.Proofs.Layered
import ScriptNaming.Proofs.Outcome
import ScriptNaming.Resolution.Method

/-!
# Steps that succeed

A step succeeds under an invariant of states (`Succeeds`) if from every state with the invariant it
comes to a result and to a state with the invariant again. Steps that are put together from such
steps succeed as well. So a method finds what it takes over from other types, if the requests for
the semantics of the methods that it is linked to succeed (`inheritedMethod?_succeeds`).
-/

namespace ScriptNaming

/-- From every state with the invariant `I`, the step has a result, and it keeps `I`. -/
def Succeeds {α : Type} (I : ResolutionState → Prop) (x : Resolve α) : Prop :=
  ∀ ⦃s⦄, I s → EndsIn True (fun _ s' => I s') (x s)

namespace Succeeds

variable {α β : Type} {I : ResolutionState → Prop}

theorem pure (a : α) : Succeeds I (Pure.pure a : Resolve α) := fun _ hs => hs

theorem bind {x : Resolve α} {f : α → Resolve β} (h : Succeeds I x) (hf : ∀ a, Succeeds I (f a)) :
    Succeeds I (x >>= f) :=
  fun _ hs => (h hs).bind fun a _ hs' => hf a hs'

theorem change {f : ResolutionState → ResolutionState} (hf : ∀ s, I s → I (f s)) :
    Succeeds I (modify f : Resolve PUnit) :=
  fun s hs => hf s hs

/-- What does not look at the state succeeds if it has a result. -/
theorem lift {e : Except Fault α} (h : ∃ a, e = .ok a) : Succeeds I (liftM e : Resolve α) := by
  obtain ⟨a, rfl⟩ := h
  exact fun _ hs => hs

theorem forM {f : α → Resolve PUnit} {as : List α} (hf : ∀ a ∈ as, Succeeds I (f a)) :
    Succeeds I (as.forM f) := by
  induction as with
  | nil => exact .pure _
  | cons a as ih => exact (hf a (.head _)).bind fun _ => ih fun b hb => hf b (.tail _ hb)

theorem mapM {f : α → Resolve β} {as : List α} (hf : ∀ a ∈ as, Succeeds I (f a)) :
    Succeeds I (as.mapM f) := by
  induction as with
  | nil => exact .pure _
  | cons a as ih =>
    rw [List.mapM_cons]
    refine (hf a (.head _)).bind fun b => ?_
    exact (ih fun b hb => hf b (.tail _ hb)).bind fun bs => .pure _

end Succeeds

/-! ## Overrides and implementations -/

section

variable {g : TypeGraph} {I : ResolutionState → Prop}
  {semanticsOf : MemberId → Resolve (Option MethodSemantics)} {m : MemberSymbol}

theorem firstDisagreement_succeeds (name : Option String) {ms : List MemberId}
    (hsem : ∀ b ∈ ms, Succeeds I (semanticsOf b)) :
    Succeeds I (firstDisagreement semanticsOf name ms) := by
  induction ms with
  | nil => exact .pure _
  | cons b ms ih =>
    rw [firstDisagreement]
    refine (hsem b (.head _)).bind fun semantics => ?_
    split
    · exact .pure _
    · exact ih fun c hc => hsem c (.tail _ hc)

/-- The first disagreement `b` is with one of the methods `ms` that are compared. -/
theorem mem_of_firstDisagreement {name : Option String} {ms : List MemberId} {b : MemberId}
    {s s' : ResolutionState} (h : firstDisagreement semanticsOf name ms s = .ok (some b, s')) :
    b ∈ ms := by
  induction ms generalizing s with
  | nil => cases (run_pure_eq_ok.1 h).1
  | cons c ms ih =>
    rw [firstDisagreement, run_bind_eq_ok] at h
    obtain ⟨semantics, s₁, -, h⟩ := h
    split at h
    · obtain rfl := Option.some.inj (run_pure_eq_ok.1 h).1
      exact .head _
    · exact .tail _ (ih h)

variable (layered : g.Layered) (hm : g.member? m.id = some m)
  (hreport : ∀ ds, Succeeds I (report ds)) (hsem : ∀ b ∈ m.links, Succeeds I (semanticsOf b))

include hsem hreport

section

include layered hm

theorem reportDisagreement_succeeds (semantics : MethodSemantics) :
    Succeeds I (reportDisagreement g semanticsOf m semantics) := by
  unfold reportDisagreement
  split
  · intro s hs
    have hfirst : Succeeds I (firstDisagreement semanticsOf semantics.name? m.implements) :=
      firstDisagreement_succeeds _ fun b hb => hsem b (MemberSymbol.mem_links.2 (.inr hb))
    refine (hfirst hs).withRun.bind fun found s₁ h => ?_
    obtain ⟨hfound, hs₁⟩ := h
    cases found with
    | none => exact hs₁
    | some b =>
      have hb : b ∈ m.links := MemberSymbol.mem_links.2 (.inr (mem_of_firstDisagreement hfound))
      obtain ⟨other, hother⟩ := layered.link_exists hm hb
      have hlookup : ∃ x, g.memberOrFault b = .ok x :=
        ⟨other, TypeGraph.memberOrFault_eq_ok_iff.2 hother⟩
      exact ((Succeeds.lift hlookup).bind fun x => hreport _) hs₁
  · exact .pure _

theorem overridingMethod_succeeds (isSpecified : Bool) :
    Succeeds I (overridingMethod g semanticsOf m isSpecified) := by
  unfold overridingMethod
  refine (hreport _).bind fun _ => ?_
  cases hb : m.overridden with
  | none => exact .pure _
  | some b =>
    refine (hsem b (MemberSymbol.mem_links.2 (.inl hb))).bind fun found => ?_
    cases found with
    | none => exact .pure _
    | some semantics =>
      exact (reportDisagreement_succeeds layered hm hreport hsem semantics).bind fun _ => .pure _

end

theorem implementingMethod_succeeds (isSpecified : Bool) :
    Succeeds I (implementingMethod g semanticsOf m isSpecified) := by
  have himplemented : Succeeds I (m.implements.mapM semanticsOf) :=
    .mapM fun b hb => hsem b (MemberSymbol.mem_links.2 (.inr hb))
  unfold implementingMethod
  refine (hreport _).bind fun _ => himplemented.bind fun implemented => ?_
  exact (hreport _).bind fun _ => .pure _

include layered hm in
/-- Looking for semantics that `m` could take over succeeds where requests for them do. -/
theorem inheritedMethod?_succeeds (isSpecified : Bool) :
    Succeeds I (inheritedMethod? g semanticsOf m isSpecified) := by
  have himplementing : Succeeds I (if m.implements.isEmpty then return none
      else implementingMethod g semanticsOf m isSpecified) := by
    split
    · exact .pure _
    · exact implementingMethod_succeeds hreport hsem isSpecified
  unfold inheritedMethod?
  dsimp only
  by_cases hoverride : m.isOverride
  · rw [if_pos hoverride]
    refine (overridingMethod_succeeds layered hm hreport hsem isSpecified).bind fun found => ?_
    cases found with
    | some semantics => exact .pure _
    | none => exact himplementing
  · rw [if_neg hoverride]
    exact himplementing

end

end ScriptNaming
