import Std.Data.ExtTreeSet

/-!
# Free names

`firstFree?` goes through a sequence of candidate names and takes the first one that is free.
Generated names of types and of members are both found in this way.
-/

namespace ScriptNaming

/-- A set of names. -/
abbrev NameSet := Std.ExtTreeSet String

/-- The first of the names `name i`, `name (i + 1)`, … that is not taken, among the given number of
them. -/
def firstFree? (isTaken : String → Bool) (name : Nat → String) : (attempts i : Nat) → Option String
  | 0, _ => none
  | attempts + 1, i =>
    if isTaken (name i) then firstFree? isTaken name attempts (i + 1) else some (name i)

theorem firstFree?_eq_some_iff {isTaken : String → Bool} {name : Nat → String}
    {attempts i : Nat} {s : String} :
    firstFree? isTaken name attempts i = some s ↔
      ∃ k < attempts, s = name (i + k) ∧ isTaken (name (i + k)) = false ∧
        ∀ l < k, isTaken (name (i + l)) = true := by
  induction attempts generalizing i with
  | zero => simp [firstFree?]
  | succ attempts ih =>
    have hstep (l : Nat) : i + (l + 1) = i + 1 + l := by omega
    rw [firstFree?]
    cases h : isTaken (name i) with
    | true =>
      rw [if_pos rfl, ih]
      constructor
      · rintro ⟨k, hk, rfl, hfree, htaken⟩
        refine ⟨k + 1, by omega, by rw [hstep k], by rwa [hstep k], fun l hl => ?_⟩
        cases l with
        | zero => exact h
        | succ l => rw [hstep l]; exact htaken l (by omega)
      · rintro ⟨k, hk, rfl, hfree, htaken⟩
        cases k with
        | zero => simp [h] at hfree
        | succ k =>
          rw [hstep k] at hfree ⊢
          exact ⟨k, by omega, rfl, hfree, fun l hl => hstep l ▸ htaken (l + 1) (by omega)⟩
    | false =>
      rw [if_neg (by decide)]
      constructor
      · intro h'
        exact ⟨0, by omega, (Option.some.inj h').symm, h, fun l hl => absurd hl (by omega)⟩
      · rintro ⟨k, _, rfl, _, htaken⟩
        cases k with
        | zero => rfl
        | succ k => simpa [h] using htaken 0 (by omega)

end ScriptNaming
