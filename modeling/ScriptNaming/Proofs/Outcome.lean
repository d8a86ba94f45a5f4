import ScriptNaming.Resolution.State
import Mathlib.Data.List.Forall2

/-!
# Outcomes of steps

A step that succeeds is taken apart into the steps that it is put together from: `bind_eq_ok` for
steps that may only fail, and `run_bind_eq_ok` for those of a resolution, which have a state as
well. `EndsIn` is what a step is required to come to, and may include that it succeeds.
-/

namespace ScriptNaming

/-! ## Fallible steps -/

section Fallible

variable {ε α β : Type}

/-- A step that succeeds consists of steps that succeed. -/
theorem bind_eq_ok {x : Except ε α} {f : α → Except ε β} {b : β} :
    (x >>= f) = .ok b ↔ ∃ a, x = .ok a ∧ f a = .ok b := by
  cases x with
  | error e => exact ⟨fun h => (nomatch h), fun ⟨_, h, _⟩ => (nomatch h)⟩
  | ok a =>
    constructor
    · exact fun h => ⟨a, rfl, h⟩
    · rintro ⟨a', ha, h⟩
      obtain rfl := Except.ok.inj ha
      exact h

theorem exists_bind_of_ok {x : Except ε α} {f : α → Except ε β} {a : α} (hx : x = .ok a)
    (hf : ∃ b, f a = .ok b) : ∃ b, (x >>= f) = .ok b :=
  hf.imp fun _ hb => bind_eq_ok.2 ⟨a, hx, hb⟩

theorem exists_bind {x : Except ε α} {f : α → Except ε β} (hx : ∃ a, x = .ok a)
    (hf : ∀ a, ∃ b, f a = .ok b) : ∃ b, (x >>= f) = .ok b := by
  obtain ⟨a, ha⟩ := hx
  exact exists_bind_of_ok ha (hf a)

section

variable {R : α → β → Prop} {l : List α} {l' : List β}

theorem exists_of_getElem?_left (h : List.Forall₂ R l l') {i : Nat} {a : α} (hi : l[i]? = some a) :
    ∃ b, l'[i]? = some b ∧ R a b := by
  induction h generalizing i with
  | nil => cases hi
  | cons hab _ ih =>
    cases i with
    | zero => exact ⟨_, rfl, Option.some.inj hi ▸ hab⟩
    | succ i => exact ih hi

theorem exists_of_mem_left (h : List.Forall₂ R l l') {a : α} (ha : a ∈ l) : ∃ b ∈ l', R a b := by
  obtain ⟨i, hi⟩ := List.mem_iff_getElem?.1 ha
  obtain ⟨b, hb, hR⟩ := exists_of_getElem?_left h hi
  exact ⟨b, List.mem_of_getElem? hb, hR⟩

theorem exists_of_mem_right (h : List.Forall₂ R l l') {b : β} (hb : b ∈ l') : ∃ a ∈ l, R a b :=
  exists_of_mem_left h.flip hb

theorem forall₂_toList {o : Option α} {o' : Option β} (h : Option.Rel R o o') :
    List.Forall₂ R o.toList o'.toList := by
  cases h with
  | none => exact .nil
  | some h => exact .cons h .nil

end

theorem rel_imp {R S : α → β → Prop} {o : Option α} {o' : Option β} (h : Option.Rel R o o')
    (hRS : ∀ a b, R a b → S a b) : Option.Rel S o o' := by
  cases h with
  | none => exact .none
  | some h => exact .some (hRS _ _ h)

variable {f : α → Except ε β}

/-- Steps `f` that all succeed take the elements of `l` to the results `l'` one by one. -/
theorem forall₂_of_mapM {l : List α} {l' : List β} (h : l.mapM f = .ok l') :
    List.Forall₂ (fun a b => f a = .ok b) l l' := by
  induction l generalizing l' with
  | nil =>
    obtain rfl := Except.ok.inj h
    exact .nil
  | cons a l ih =>
    rw [List.mapM_cons] at h
    obtain ⟨b, hb, h⟩ := bind_eq_ok.1 h
    obtain ⟨l₀, hl, h⟩ := bind_eq_ok.1 h
    obtain rfl := Except.ok.inj h
    exact .cons hb (ih hl)

theorem exists_of_mem_mapM {l : List α} {l' : List β} (h : l.mapM f = .ok l') {b : β}
    (hb : b ∈ l') : ∃ a ∈ l, f a = .ok b :=
  exists_of_mem_right (forall₂_of_mapM h) hb

theorem exists_mem_of_mapM {l : List α} {l' : List β} (h : l.mapM f = .ok l') {a : α}
    (ha : a ∈ l) : ∃ b ∈ l', f a = .ok b :=
  exists_of_mem_left (forall₂_of_mapM h) ha

/-- Steps `f` that all succeed on `l` have results together. -/
theorem exists_mapM {l : List α} (h : ∀ a ∈ l, ∃ b, f a = .ok b) : ∃ l', l.mapM f = .ok l' := by
  induction l with
  | nil => exact ⟨[], rfl⟩
  | cons a l ih =>
    obtain ⟨b, hb⟩ := h a (.head _)
    obtain ⟨l', hl'⟩ := ih fun c hc => h c (.tail _ hc)
    exact ⟨b :: l', by rw [List.mapM_cons, hb, hl']; rfl⟩

theorem rel_of_option_mapM {o : Option α} {o' : Option β} (h : o.mapM f = .ok o') :
    Option.Rel (fun a b => f a = .ok b) o o' := by
  cases o with
  | none =>
    obtain rfl := Except.ok.inj h
    exact .none
  | some a =>
    obtain ⟨b, hb, h⟩ := bind_eq_ok.1 h
    obtain rfl := Except.ok.inj h
    exact .some hb

theorem exists_option_mapM {o : Option α} (h : ∀ a, o = some a → ∃ b, f a = .ok b) :
    ∃ o', o.mapM f = .ok o' := by
  cases o with
  | none => exact ⟨none, rfl⟩
  | some a =>
    obtain ⟨b, hb⟩ := h a rfl
    exact ⟨some b, bind_eq_ok.2 ⟨b, hb, rfl⟩⟩

theorem exists_of_option_mapM {o : Option α} {b : β} (h : o.mapM f = .ok (some b)) :
    ∃ a, o = some a ∧ f a = .ok b := by
  cases rel_of_option_mapM h with
  | some hb => exact ⟨_, rfl, hb⟩

/-- What `I` says at the first place of `l`, and every step of a fold carries from one place to the
next, holds at the end. -/
theorem foldlM_places {f : β → α → Except ε β} {l : List α} {I : Nat → β → Prop}
    (hf : ∀ i a b b', l[i]? = some a → I i b → f b a = .ok b' → I (i + 1) b') {b b' : β}
    (hb : I 0 b) (h : l.foldlM f b = .ok b') : I l.length b' := by
  induction l generalizing b I with
  | nil =>
    obtain rfl := Except.ok.inj h
    exact hb
  | cons a l ih =>
    rw [List.foldlM_cons] at h
    obtain ⟨c, hc, h⟩ := bind_eq_ok.1 h
    exact ih (I := fun i => I (i + 1)) (fun i => hf (i + 1)) (hf 0 a b c rfl hb hc) h

/-- An invariant `I` that every step `f` of a fold keeps is kept by the fold. -/
theorem foldlM_invariant {f : β → α → Except ε β} {I : β → Prop}
    (hf : ∀ b a b', I b → f b a = .ok b' → I b') {l : List α} {b b' : β} (hb : I b)
    (h : l.foldlM f b = .ok b') : I b' :=
  foldlM_places (I := fun _ => I) (fun _ a b b' _ => hf b a b') hb h

/-- A fold over `l` whose steps all succeed in turn has a result. -/
theorem exists_foldlM {f : β → α → Except ε β} {l : List α} {I : Nat → β → Prop}
    (hf : ∀ i a b, l[i]? = some a → I i b → ∃ b', f b a = .ok b' ∧ I (i + 1) b') {b : β}
    (hb : I 0 b) : ∃ b', l.foldlM f b = .ok b' := by
  induction l generalizing b I with
  | nil => exact ⟨b, rfl⟩
  | cons a l ih =>
    obtain ⟨c, hc, hIc⟩ := hf 0 a b rfl hb
    obtain ⟨b', hb'⟩ := ih (I := fun i => I (i + 1)) (fun i => hf (i + 1)) hIc
    exact ⟨b', bind_eq_ok.2 ⟨c, hc, hb'⟩⟩

theorem mapError_eq_ok {ε' : Type} {x : Except ε α} {f : ε → ε'} {a : α} :
    x.mapError f = .ok a ↔ x = .ok a := by
  cases x with
  | error e => exact ⟨fun h => (nomatch h), fun h => (nomatch h)⟩
  | ok a' => exact ⟨fun h => congrArg _ (Except.ok.inj h), fun h => congrArg _ (Except.ok.inj h)⟩

theorem exists_mapError {ε' : Type} {x : Except ε α} {f : ε → ε'} (h : ∃ a, x = .ok a) :
    ∃ a, x.mapError f = .ok a :=
  h.imp fun _ ha => mapError_eq_ok.2 ha

/-- A result of `x` that passes the test `p` is there. -/
theorem exists_of_any_toOption {x : Except ε α} {p : α → Bool} (h : x.toOption.any p) :
    ∃ a, x = .ok a ∧ p a := by
  cases x with
  | error e => cases h
  | ok a => exact ⟨a, rfl, h⟩

/-- Where `x` has a result, the default `a` does not count. -/
theorem eq_ok_getD {x : Except ε α} {a : α} (h : x.toOption.isSome) :
    x = .ok (x.toOption.getD a) := by
  cases x with
  | error e => cases h
  | ok b => rfl

end Fallible

/-! ## Steps of a resolution -/

section Resolve

variable {α β : Type} {s s' : ResolutionState}

theorem run_bind_eq_ok {x : Resolve α} {f : α → Resolve β} {b : β} :
    (x >>= f) s = .ok (b, s') ↔ ∃ a s₁, x s = .ok (a, s₁) ∧ f a s₁ = .ok (b, s') := by
  constructor
  · intro h
    obtain ⟨⟨a, s₁⟩, hx, hf⟩ := bind_eq_ok.1 h
    exact ⟨a, s₁, hx, hf⟩
  · rintro ⟨a, s₁, hx, hf⟩
    exact bind_eq_ok.2 ⟨(a, s₁), hx, hf⟩

theorem run_pure_eq_ok {a b : α} :
    (pure a : Resolve α) s = .ok (b, s') ↔ b = a ∧ s' = s := by
  constructor
  · intro h
    obtain ⟨ha, hs⟩ := Prod.ext_iff.1 (Except.ok.inj h)
    exact ⟨ha.symm, hs.symm⟩
  · rintro ⟨rfl, rfl⟩
    rfl

theorem run_liftM_eq_ok {e : Except Fault α} {a : α} :
    (liftM e : Resolve α) s = .ok (a, s') ↔ e = .ok a ∧ s' = s := by
  constructor
  · intro h
    obtain ⟨a', ha, h⟩ := bind_eq_ok.1 h
    obtain ⟨rfl, rfl⟩ := Prod.ext_iff.1 (Except.ok.inj h)
    exact ⟨ha, rfl⟩
  · rintro ⟨rfl, rfl⟩
    rfl

/-- A step `f` for what may be missing in `o` is taken where it is there. -/
theorem run_option_mapM_eq_ok {o : Option β} {f : β → Resolve α} {r : Option α} :
    o.mapM f s = .ok (r, s') ↔
      (o = none ∧ r = none ∧ s' = s) ∨ ∃ b a, o = some b ∧ r = some a ∧ f b s = .ok (a, s') := by
  cases o with
  | none =>
    rw [Option.mapM_none, run_pure_eq_ok]
    simp
  | some b =>
    rw [Option.mapM_some, map_eq_pure_bind, run_bind_eq_ok]
    constructor
    · rintro ⟨a, s₁, hf, h⟩
      obtain ⟨rfl, rfl⟩ := run_pure_eq_ok.1 h
      exact .inr ⟨b, a, rfl, rfl, hf⟩
    · rintro (⟨h, -⟩ | ⟨b', a, hb, rfl, hf⟩)
      · cases h
      · obtain rfl := Option.some.inj hb
        exact ⟨a, s', hf, rfl⟩

/-- What follows a step that succeeds starts from its outcome. -/
theorem run_bind_of_ok {x : Resolve α} {f : α → Resolve β} {a : α} (h : x s = .ok (a, s')) :
    (x >>= f) s = f a s' := by
  change (x s >>= fun p => f p.1 p.2) = f a s'
  rw [h]
  rfl

/-- After the state `s` is read, what follows depends on `s`. -/
theorem run_get_bind {f : ResolutionState → Resolve α} : (get >>= f) s = f s s := rfl

theorem run_modify_bind {f : ResolutionState → ResolutionState} {y : Resolve α} :
    ((modify f : Resolve PUnit) >>= fun _ => y) s = y (f s) := rfl

/-- The result and the state that a step comes to satisfy `Q`. A `total` requirement is that there
are any. -/
def EndsIn (total : Prop) (Q : α → ResolutionState → Prop) :
    Except Fault (α × ResolutionState) → Prop
  | .ok (a, s) => Q a s
  | .error _ => ¬total

namespace EndsIn

variable {total : Prop} {Q : α → ResolutionState → Prop} {P : β → ResolutionState → Prop}
  {r : Except Fault (α × ResolutionState)}

theorem intro (htotal : total → ∃ p, r = .ok p) (h : ∀ a s', r = .ok (a, s') → Q a s') :
    EndsIn total Q r := by
  rcases r with e | ⟨a, s'⟩
  · intro ht
    obtain ⟨p, hp⟩ := htotal ht
    cases hp
  · exact h a s' rfl

theorem of_ok (h : EndsIn total Q r) {a : α} (hr : r = .ok (a, s')) : Q a s' := by
  subst hr
  exact h

/-- A step `r` that is total succeeds. -/
theorem exists_ok (h : EndsIn total Q r) (ht : total) : ∃ a s', r = .ok (a, s') ∧ Q a s' := by
  rcases r with e | ⟨a, s'⟩
  · exact absurd ht h
  · exact ⟨a, s', rfl, h⟩

theorem mono {Q' : α → ResolutionState → Prop} (h : EndsIn total Q r)
    (hQ : ∀ a s', Q a s' → Q' a s') : EndsIn total Q' r := by
  rcases r with e | ⟨a, s'⟩
  · exact h
  · exact hQ a s' h

/-- What a step comes to is known besides. -/
theorem withRun (h : EndsIn total Q r) : EndsIn total (fun a s' => r = .ok (a, s') ∧ Q a s') r := by
  rcases r with e | ⟨a, s'⟩
  · exact h
  · exact ⟨rfl, h⟩

theorem bind {x : Resolve α} {f : α → Resolve β} (h : EndsIn total Q (x s))
    (hf : ∀ a s', Q a s' → EndsIn total P (f a s')) : EndsIn total P ((x >>= f) s) := by
  change EndsIn total P (x s >>= fun p => f p.1 p.2)
  rcases hx : x s with e | ⟨a, s'⟩
  · rw [hx] at h
    exact h
  · exact hf a s' (h.of_ok hx)

end EndsIn

end Resolve

end ScriptNaming
