import ScriptNaming.Proofs.Numerals
import ScriptNaming.Proofs.Registry
import Mathlib.Data.List.Nodup
import Mathlib.Data.List.Perm.Subperm

/-!
# Allocation succeeds

Different numbers make different suffixes (`Base62.encode_injective`), so that in a registry with
fewer names than there are suffixes to try, a free name is found (`exists_allocate`). It is the
first one of all that may be tried (`allocate_firstFree`).
-/

namespace ScriptNaming

theorem firstFree?_eq_none_iff {isTaken : String → Bool} {name : Nat → String}
    {attempts i : Nat} :
    firstFree? isTaken name attempts i = none ↔ ∀ k < attempts, isTaken (name (i + k)) := by
  induction attempts generalizing i with
  | zero => simp [firstFree?]
  | succ attempts ih =>
    rw [firstFree?]
    split
    · rename_i htaken
      rw [ih]
      constructor
      · intro h k hk
        cases k with
        | zero => exact htaken
        | succ k =>
          have := h k (by omega)
          rwa [Nat.add_right_comm] at this
      · intro h k hk
        have := h (k + 1) (by omega)
        rwa [← Nat.add_assoc, Nat.add_right_comm] at this
    · rename_i hfree
      exact iff_of_false (Option.some_ne_none _) fun h => hfree (h 0 (by omega))

/-- Of more different names than are in `taken`, one is free. -/
theorem exists_firstFree? {isTaken : String → Bool} {name : Nat → String}
    (hname : Function.Injective name) {taken : List String} (htaken : ∀ s, isTaken s → s ∈ taken)
    {attempts : Nat} (hattempts : taken.length < attempts) :
    ∃ s, firstFree? isTaken name attempts 0 = some s := by
  cases hfree : firstFree? isTaken name attempts 0 with
  | some s => exact ⟨s, rfl⟩
  | none =>
    -- All the names are taken, by as many.
    rw [firstFree?_eq_none_iff] at hfree
    have hnodup : ((List.range attempts).map name).Nodup := List.nodup_range.map hname
    have hsubset : (List.range attempts).map name ⊆ taken := by
      intro s hs
      obtain ⟨i, hi, rfl⟩ := List.mem_map.1 hs
      have hi := hfree i (List.mem_range.1 hi)
      rw [Nat.zero_add] at hi
      exact htaken _ hi
    have hle := (List.subperm_of_subset hnodup hsubset).length_le
    rw [List.length_map, List.length_range] at hle
    omega

namespace NameRegistry

theorem suffixed_injective (base : String) {i j : Nat} (h : suffixed base i = suffixed base j) :
    i = j := by
  have hlist := congrArg String.toList h
  simp only [suffixed, String.toList_append] at hlist
  exact Base62.encode_injective (String.toList_injective (List.append_cancel_left hlist))

theorem ne_suffixed (base : String) (i : Nat) : base ≠ suffixed base i := by
  intro h
  have hlength := congrArg String.length h
  have hmark : "$".length = 1 := rfl
  simp only [suffixed, String.length_append, hmark] at hlength
  omega

/-- The name `base` itself is used exactly if it is free. -/
theorem FirstFree.eq_base_iff {names : NameRegistry} {base name : String}
    (h : names.FirstFree (some base) name) : name = base ↔ ¬names.contains base := by
  cases h with
  | base free => exact iff_of_true rfl (Bool.eq_false_iff.1 free)
  | suffixed taken _ _ =>
    exact iff_of_false (ne_suffixed base _).symm fun hfree => hfree (taken base rfl)

/-- With fewer names in `names` than suffixes to try, allocation succeeds. -/
theorem exists_allocate {names : NameRegistry} {l : List String}
    (hl : ∀ name, names.contains name → name ∈ l) (hlength : l.length < maxNameAllocationAttempts)
    (base : Option String) : ∃ name, names.allocate base = .ok name := by
  have hsuffixed (base : String) : ∃ name, names.allocateSuffixed base = .ok name := by
    obtain ⟨name, hfree⟩ := exists_firstFree? (fun _ _ => suffixed_injective base) hl hlength
    exact ⟨name, by rw [allocateSuffixed, hfree]⟩
  cases base with
  | none => exact hsuffixed ""
  | some base =>
    rw [allocate]
    split
    · exact hsuffixed base
    · exact ⟨base, rfl⟩

theorem mem_sortedNames {names : NameRegistry} {name : String} :
    name ∈ names.sortedNames ↔ names.contains name :=
  Std.ExtTreeMap.mem_keys

theorem nodup_sortedNames (names : NameRegistry) : names.sortedNames.Nodup :=
  Std.ExtTreeMap.nodup_keys

theorem length_sortedNames (names : NameRegistry) : names.sortedNames.length = names.size :=
  Std.ExtTreeMap.length_keys

/-- **Allocation takes the first free name**: in a registry with fewer names than there are suffixes
to try, it takes `base` itself where it is given and free, and otherwise the name with the first
suffix that no other member has taken. -/
theorem allocate_firstFree {names : NameRegistry} (hsize : names.size < maxNameAllocationAttempts)
    (base : Option String) :
    ∃ name, names.allocate base = .ok name ∧ names.contains name = false ∧
      names.FirstFree base name := by
  rw [← length_sortedNames] at hsize
  obtain ⟨name, hname⟩ := exists_allocate (fun _ => mem_sortedNames.2) hsize base
  have hfirst := firstFree_of_allocate hname
  exact ⟨name, hname, hfirst.free, hfirst⟩

/-- Where `add` and its first suffix are taken, the second suffix is next. -/
theorem overloads_allocate_firstFree :
    let names : NameRegistry := (add (add ∅ "add" ⟨0⟩) "add$0" ⟨1⟩)
    names.size < maxNameAllocationAttempts ∧ names.allocate (some "add") = .ok "add$1" ∧
      names.contains "add$1" = false ∧ names.FirstFree (some "add") "add$1" := by
  intro names
  have hsize : names.size < maxNameAllocationAttempts := by decide +kernel
  have hadd : (names.allocate (some "add")).toOption = some "add$1" := by decide +kernel
  obtain ⟨name, hname, hfree, hfirst⟩ := allocate_firstFree hsize (some "add")
  obtain rfl : name = "add$1" := by
    rw [hname] at hadd
    exact Option.some.inj hadd
  exact ⟨hsize, hname, hfree, hfirst⟩

end NameRegistry

end ScriptNaming
