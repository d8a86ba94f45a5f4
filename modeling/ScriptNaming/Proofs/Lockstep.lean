import ScriptNaming.Resolution.State
import Mathlib.Data.List.Forall2

/-!
# Steps in lockstep

`Lockstep strict R V x y` compares two steps of resolutions: from states that `R` relates, `x` and
`y` come to results that `V` relates and to states that `R` relates again. A `strict` comparison
also says that one of them ends in a fault where the other does.

The lemmas of this module go along the way in which steps are put together, one for each
connective, so that a fact about two resolutions is proved one function at a time. A relation of
states with themselves makes an invariant of it (`Lockstep.invariant`).
-/

namespace ScriptNaming

variable {α β α' β' : Type} {strict : Prop}

/-! ## Outcomes -/

/-- Two outcomes are the same up to `V`: both are results that `V` relates, or both are faults. In
a comparison that is not `strict`, a fault goes with everything. -/
def SameOutcome (strict : Prop) (V : α → β → Prop) : Except Fault α → Except Fault β → Prop
  | .ok a, .ok b => V a b
  | .error _, .error _ => True
  | _, _ => ¬strict

namespace SameOutcome

variable {V : α → β → Prop} {W : α' → β' → Prop} {x : Except Fault α} {y : Except Fault β}

theorem mono {V' : α → β → Prop} (h : SameOutcome strict V x y) (hV : ∀ a b, V a b → V' a b) :
    SameOutcome strict V' x y := by
  rcases x with e | a <;> rcases y with e' | b
  · trivial
  · exact h
  · exact h
  · exact hV a b h

theorem of_strict (h : SameOutcome True V x y) : SameOutcome strict V x y := by
  rcases x with e | a <;> rcases y with e' | b
  · trivial
  · exact (h trivial).elim
  · exact (h trivial).elim
  · exact h

theorem bind {f : α → Except Fault α'} {f' : β → Except Fault β'}
    (h : SameOutcome strict V x y) (hf : ∀ a b, V a b → SameOutcome strict W (f a) (f' b)) :
    SameOutcome strict W (x >>= f) (y >>= f') := by
  rcases x with e | a <;> rcases y with e' | b
  · trivial
  · change SameOutcome strict W (.error e) (f' b)
    rcases f' b with e' | b'
    · trivial
    · exact h
  · change SameOutcome strict W (f a) (.error e')
    rcases f a with e | a'
    · trivial
    · exact h
  · exact hf a b h

/-- A fallible function that keeps lists in step takes lists `as` and `bs` that are related by `U`
to lists that are related by `W`. -/
theorem mapM {U : α → β → Prop} {f : α → Except Fault α'} {f' : β → Except Fault β'}
    (hf : ∀ a b, U a b → SameOutcome strict W (f a) (f' b)) {as : List α} {bs : List β}
    (h : List.Forall₂ U as bs) :
    SameOutcome strict (List.Forall₂ W) (as.mapM f) (bs.mapM f') := by
  induction h with
  | nil => exact .nil
  | cons hab _ ih =>
    rw [List.mapM_cons, List.mapM_cons]
    refine (hf _ _ hab).bind fun a b hab => ih.bind fun as bs h => ?_
    exact List.Forall₂.cons hab h

end SameOutcome

/-! ## Steps -/

/-- From states that `R` relates, two steps come to results that `V` relates and to states that `R`
relates again, or to faults. -/
def Lockstep (strict : Prop) (R : ResolutionState → ResolutionState → Prop) (V : α → β → Prop)
    (x : Resolve α) (y : Resolve β) : Prop :=
  ∀ ⦃s t : ResolutionState⦄, R s t →
    SameOutcome strict (fun p q => V p.1 q.1 ∧ R p.2 q.2) (x s) (y t)

/-- The relation between results that all carry no information. -/
abbrev Any : α → β → Prop := fun _ _ => True

/-- An invariant `I` as a relation of states with themselves. -/
abbrev Self (I : ResolutionState → Prop) (s t : ResolutionState) : Prop := s = t ∧ I s

namespace Lockstep

variable {R : ResolutionState → ResolutionState → Prop} {V : α → β → Prop} {W : α' → β' → Prop}
  {x : Resolve α} {y : Resolve β}

theorem bind {f : α → Resolve α'} {f' : β → Resolve β'} (h : Lockstep strict R V x y)
    (hf : ∀ a b, V a b → Lockstep strict R W (f a) (f' b)) :
    Lockstep strict R W (x >>= f) (y >>= f') :=
  fun _ _ hst => (h hst).bind fun p q hpq => hf p.1 q.1 hpq.1 hpq.2

theorem pure {a : α} {b : β} (h : V a b) :
    Lockstep strict R V (Pure.pure a : Resolve α) (Pure.pure b : Resolve β) :=
  fun _ _ hst => ⟨h, hst⟩

/-- After the state is read, what `R` says of the two states is known of the values read. -/
theorem get_bind {f : ResolutionState → Resolve α} {f' : ResolutionState → Resolve β}
    (h : ∀ s t, R s t → Lockstep strict R V (f s) (f' t)) :
    Lockstep strict R V (get >>= f) (get >>= f') :=
  fun s t hst => h s t hst hst

theorem throw {e e' : Fault} :
    Lockstep strict R V (MonadExcept.throw e : Resolve α) (MonadExcept.throw e' : Resolve β) :=
  fun _ _ _ => trivial

theorem modify {f f' : ResolutionState → ResolutionState} (h : ∀ s t, R s t → R (f s) (f' t)) :
    Lockstep strict R Any (modify f : Resolve PUnit) (modify f' : Resolve PUnit) :=
  fun s t hst => ⟨trivial, h s t hst⟩

/-- What does not look at the state is in step if its outcomes `e` and `e'` are the same. -/
theorem lift {e : Except Fault α} {e' : Except Fault β} (h : SameOutcome strict V e e') :
    Lockstep strict R V (liftM e : Resolve α) (liftM e' : Resolve β) := by
  intro s t hst
  rcases e with e | a <;> rcases e' with e' | b
  · trivial
  · exact h
  · exact h
  · exact ⟨h, hst⟩

theorem forM {U : α → β → Prop} {f : α → Resolve PUnit} {f' : β → Resolve PUnit}
    (hf : ∀ a b, U a b → Lockstep strict R Any (f a) (f' b)) {as : List α} {bs : List β}
    (h : List.Forall₂ U as bs) : Lockstep strict R Any (as.forM f) (bs.forM f') := by
  induction h with
  | nil => exact .pure trivial
  | cons hab _ ih => exact (hf _ _ hab).bind fun _ _ _ => ih

theorem foldlM {U : α → β → Prop} {f : α' → α → Resolve α'} {f' : β' → β → Resolve β'}
    (hf : ∀ a b c d, W a b → U c d → Lockstep strict R W (f a c) (f' b d)) {as : List α}
    {bs : List β} (h : List.Forall₂ U as bs) {a : α'} {b : β'} (hab : W a b) :
    Lockstep strict R W (as.foldlM f a) (bs.foldlM f' b) := by
  induction h generalizing a b with
  | nil => exact .pure hab
  | cons hcd _ ih => exact (hf _ _ _ _ hab hcd).bind fun a b hab => ih hab

theorem mapM {U : α → β → Prop} {f : α → Resolve α'} {f' : β → Resolve β'} {as : List α}
    {bs : List β} (h : List.Forall₂ U as bs)
    (hf : ∀ a ∈ as, ∀ b, U a b → Lockstep strict R W (f a) (f' b)) :
    Lockstep strict R (List.Forall₂ W) (as.mapM f) (bs.mapM f') := by
  induction h with
  | nil => exact .pure .nil
  | cons hab _ ih =>
    rw [List.mapM_cons, List.mapM_cons]
    refine (hf _ (.head _) _ hab).bind fun a b hab => ?_
    refine (ih fun a ha b => hf a (.tail _ ha) b).bind fun as bs h => ?_
    exact .pure (.cons hab h)

/-- Two runs of `x` and `y` in lockstep that both have a result. -/
theorem of_ok (h : Lockstep strict R V x y) {s t s' t' : ResolutionState} {a : α} {b : β}
    (hst : R s t) (hx : x s = .ok (a, s')) (hy : y t = .ok (b, t')) : V a b ∧ R s' t' := by
  have hxy := h hst
  rwa [hx, hy] at hxy

/-- A step `x` is in lockstep with itself for an invariant `I` that it keeps. -/
theorem self {I : ResolutionState → Prop} {V : α → α → Prop}
    (h : ∀ s a s', I s → x s = .ok (a, s') → V a a ∧ I s') : Lockstep strict (Self I) V x x := by
  rintro s _ ⟨rfl, hs⟩
  cases hx : x s with
  | error e => trivial
  | ok p =>
    obtain ⟨hV, hI⟩ := h s p.1 p.2 hs hx
    exact ⟨hV, rfl, hI⟩

/-- A further invariant `J` may be kept on top of `I`. -/
theorem strengthen {I J : ResolutionState → Prop} {V : α → β → Prop} {x : Resolve α}
    {y : Resolve β} (h : Lockstep strict (Self I) V x y)
    (hJ : ∀ s a s', I s → J s → x s = .ok (a, s') → J s') :
    Lockstep strict (Self fun s => I s ∧ J s) V x y := by
  rintro s _ ⟨rfl, hI, hs⟩
  have hst := h (s := s) ⟨rfl, hI⟩
  cases hx : x s with
  | error e =>
    rw [hx] at hst
    cases hy : y s with
    | error e' => trivial
    | ok q => rwa [hy] at hst
  | ok p =>
    rw [hx] at hst
    cases hy : y s with
    | error e' => rwa [hy] at hst
    | ok q =>
      rw [hy] at hst
      obtain ⟨hV, hstate, hI'⟩ := hst
      exact ⟨hV, hstate, hI', hJ s p.1 p.2 hI hs hx⟩

/-- A step `x` that is in lockstep with itself keeps the invariant `I`. -/
theorem invariant {I : ResolutionState → Prop} {V : α → α → Prop}
    (h : Lockstep strict (Self I) V x x) {s s' : ResolutionState} {a : α}
    (hs : I s) (hx : x s = .ok (a, s')) : I s' :=
  (h.of_ok ⟨rfl, hs⟩ hx hx).2.2

end Lockstep

end ScriptNaming
