import ScriptNaming.Proofs.InterfaceNames

/-!
# Generated names of classes and of interfaces

The name `$I` with a numeral that is counted out for an interface member is also `$` with a numeral
that begins with the digit `I` (`InterfaceNames.nameAt_eq_suffixed`). It is generated for a member
of a class exactly if all names before it are taken, and these are more than a thousand
(`generated_name_issued_iff`), as they may be (`generated_name_issued`).
-/

namespace ScriptNaming

namespace Base62

/-- The numeral of `n` after that of `a` multiplies `a` by a power of the base. -/
theorem digits_append {a : Nat} (ha : 0 < a) (n : Nat) :
    digits (a * 62 ^ (digits n).length + n) = digits a ++ digits n := by
  induction n using Nat.strongRecOn with
  | ind n ih =>
    rcases Nat.lt_or_ge n 62 with hn | hn
    · have hquotient : (a * 62 + n) / 62 = a := by omega
      have hremainder : (a * 62 + n) % 62 = n := by omega
      rw [digits_of_lt hn, List.length_singleton, Nat.pow_one, digits_of_le (by omega), hquotient,
        hremainder]
    · -- The last digit is that of `n`, and the others are by induction those of its quotient.
      have hlength : (digits n).length = (digits (n / 62)).length + 1 := by
        rw [digits_of_le hn, List.length_append, List.length_singleton]
      have hshift : a * 62 ^ (digits n).length = a * 62 ^ (digits (n / 62)).length * 62 := by
        rw [hlength, Nat.pow_succ, Nat.mul_assoc]
      have hquotient : (a * 62 ^ (digits n).length + n) / 62 =
          a * 62 ^ (digits (n / 62)).length + n / 62 := by omega
      have hremainder : (a * 62 ^ (digits n).length + n) % 62 = n % 62 := by omega
      rw [digits_of_le (by omega), hquotient, hremainder, ih (n / 62) (by omega), digits_of_le hn,
        List.append_assoc]

end Base62

namespace InterfaceNames

/-! ## Names that are counted out -/

/-- The names that come of requests for the assemblies in the list, one after the other, from the
counts `names` on. -/
def issued (names : InterfaceNames) : List AssemblyId → List String
  | [] => []
  | a :: rest => (names.next a).1 :: issued (names.next a).2 rest

/-- Each assembly is given as many names as `calls` ask for it, from its next number on. -/
theorem mem_issued {names : InterfaceNames} {calls : List AssemblyId} {name : String} :
    name ∈ names.issued calls ↔ ∃ a n, names.used a < n ∧ n ≤ names.used a + calls.count a ∧
      name = nameAt n := by
  induction calls generalizing names with
  | nil =>
    simp only [issued, List.not_mem_nil, List.count_nil, false_iff]
    rintro ⟨a, n, hlt, hle, -⟩
    omega
  | cons b calls ih =>
    rw [issued, List.mem_cons, ih]
    constructor
    · rintro (rfl | ⟨a, n, hlt, hle, rfl⟩)
      · exact ⟨b, names.used b + 1, by omega, by rw [List.count_cons_self]; omega, rfl⟩
      · refine ⟨a, n, ?_, ?_, rfl⟩
        · exact Nat.lt_of_le_of_lt (used_next_le names b a).1 hlt
        · by_cases hab : b = a
          · subst hab
            rw [used_next, if_pos rfl] at hle
            rw [List.count_cons_self]
            omega
          · rw [used_next, if_neg hab] at hle
            rw [List.count_cons_of_ne hab]
            exact hle
    · rintro ⟨a, n, hlt, hle, rfl⟩
      by_cases hab : b = a
      · subst hab
        rw [List.count_cons_self] at hle
        by_cases hn : n = names.used b + 1
        · exact .inl (by rw [hn]; rfl)
        · refine .inr ⟨b, n, ?_, ?_, rfl⟩
          · rw [used_next, if_pos rfl]
            omega
          · rw [used_next, if_pos rfl]
            omega
      · rw [List.count_cons_of_ne hab] at hle
        refine .inr ⟨a, n, ?_, ?_, rfl⟩
        · rwa [used_next, if_neg hab]
        · rwa [used_next, if_neg hab]

/-! ## The same names as suffixes -/

/-- The number whose numeral is an `I` and the numeral of `n`. -/
def suffixNumber (n : Nat) : Nat := 18 * 62 ^ (Base62.digits n).length + n

theorem nameAt_eq_suffixed (n : Nat) : nameAt n = NameRegistry.suffixed "" (suffixNumber n) := by
  have hdigits : Base62.digits (suffixNumber n) = Base62.digits 18 ++ Base62.digits n :=
    Base62.digits_append (by decide) n
  have hdigit : Base62.digits 18 = ['I'] := Base62.digits_of_lt (by decide)
  apply String.toList_injective
  simp only [nameAt, NameRegistry.suffixed, String.toList_append, Base62.toList_encode, hdigits,
    hdigit]
  rfl

theorem le_suffixNumber {n : Nat} (hn : 0 < n) : 1117 ≤ suffixNumber n := by
  have hlength : 0 < (Base62.digits n).length := List.length_pos_iff.2 (Base62.digits_ne_nil n)
  have hpow : 62 ^ 1 ≤ 62 ^ (Base62.digits n).length := Nat.pow_le_pow_right (by decide) hlength
  unfold suffixNumber
  omega

end InterfaceNames

namespace NameRegistry

/-- A name without a base is the first suffix that is free in `names`. -/
theorem allocate_none_eq_ok_iff {names : NameRegistry} {name : String} :
    names.allocate none = .ok name ↔ ∃ i < maxNameAllocationAttempts, name = suffixed "" i ∧
      names.contains (suffixed "" i) = false ∧ ∀ j < i, names.contains (suffixed "" j) :=
  allocateSuffixed_eq_ok_iff

theorem allocate_none_suffixed_iff {names : NameRegistry} {i : Nat} :
    names.allocate none = .ok (suffixed "" i) ↔ i < maxNameAllocationAttempts ∧
      names.contains (suffixed "" i) = false ∧ ∀ j < i, names.contains (suffixed "" j) := by
  rw [allocate_none_eq_ok_iff]
  constructor
  · rintro ⟨k, hk, hname, hfree, hlower⟩
    obtain rfl := suffixed_injective "" hname
    exact ⟨hk, hfree, hlower⟩
  · rintro ⟨hi, hfree, hlower⟩
    exact ⟨i, hi, rfl, hfree, hlower⟩

/-- If the first `i` suffixes are taken, so many names are there at least. -/
theorem le_size_of_suffixed {names : NameRegistry} {i : Nat}
    (h : ∀ j < i, names.contains (suffixed "" j)) : i ≤ names.size := by
  have hnodup : ((List.range i).map (suffixed "")).Nodup :=
    List.nodup_range.map fun _ _ => suffixed_injective ""
  have hsubset : (List.range i).map (suffixed "") ⊆ names.sortedNames := by
    intro name hname
    obtain ⟨j, hj, rfl⟩ := List.mem_map.1 hname
    exact mem_sortedNames.2 (h j (List.mem_range.1 hj))
  have hle := (List.subperm_of_subset hnodup hsubset).length_le
  rwa [List.length_map, List.length_range, length_sortedNames] at hle

/-! ## Registries filled with suffixes -/

/-- The registry with the first `count` names that have the base `base` and a suffix. -/
def filled (base : String) (count : Nat) : NameRegistry :=
  (List.range count).foldl (fun names i => names.add (suffixed base i) ⟨i⟩) ∅

theorem contains_filled {base name : String} {count : Nat} :
    (filled base count).contains name ↔ ∃ i < count, name = suffixed base i := by
  induction count with
  | zero => simp [filled]
  | succ count ih =>
    have hstep : filled base (count + 1) =
        (filled base count).add (suffixed base count) ⟨count⟩ := by
      rw [filled, List.range_succ, List.foldl_append]
      rfl
    rw [hstep, contains_add, ih]
    constructor
    · rintro (rfl | ⟨i, hi, rfl⟩)
      · exact ⟨count, by omega, rfl⟩
      · exact ⟨i, by omega, rfl⟩
    · rintro ⟨i, hi, rfl⟩
      by_cases heq : i = count
      · exact .inl (by rw [heq])
      · exact .inr ⟨i, by omega, rfl⟩

/-- No more names than `count` are filled in. -/
theorem size_filled_le (base : String) (count : Nat) : (filled base count).size ≤ count := by
  have hsubset : (filled base count).sortedNames ⊆ (List.range count).map (suffixed base) := by
    intro name hname
    obtain ⟨i, hi, rfl⟩ := contains_filled.1 (mem_sortedNames.1 hname)
    exact List.mem_map_of_mem (List.mem_range.2 hi)
  have hle := (List.subperm_of_subset (nodup_sortedNames _) hsubset).length_le
  rwa [length_sortedNames, List.length_map, List.length_range] at hle

/-- The name after the `count` names that are filled in is the next one to be generated. -/
theorem allocate_filled {count : Nat} (h : count < maxNameAllocationAttempts) :
    (filled "" count).allocate none = .ok (suffixed "" count) := by
  refine allocate_none_suffixed_iff.2 ⟨h, ?_, fun j hj => contains_filled.2 ⟨j, hj, rfl⟩⟩
  rw [Bool.eq_false_iff]
  intro hcontains
  obtain ⟨i, hi, hname⟩ := contains_filled.1 hcontains
  exact absurd (suffixed_injective "" hname) (by omega)

end NameRegistry

open InterfaceNames NameRegistry

/-- **Generated names are apart from counted ones** until all names before them are taken: the name
that is generated from `names` is one of those that `calls` for interface members count out exactly
if `names` has every name with a suffix before it. No such registry has fewer than 1117 names, so
that from any of these a name is generated that is never counted out. -/
theorem generated_name_issued_iff (names : NameRegistry) (calls : List AssemblyId) :
    ((∃ name, names.allocate none = .ok name ∧ name ∈ (∅ : InterfaceNames).issued calls) ↔
      ∃ a n, 0 < n ∧ n ≤ calls.count a ∧ suffixNumber n < maxNameAllocationAttempts ∧
        names.contains (nameAt n) = false ∧
        ∀ j < suffixNumber n, names.contains (suffixed "" j)) ∧
    (names.size < 1117 →
      ∃ name, names.allocate none = .ok name ∧ name ∉ (∅ : InterfaceNames).issued calls) := by
  have hused (a : AssemblyId) : (∅ : InterfaceNames).used a = 0 := rfl
  have hissued : (∃ name, names.allocate none = .ok name ∧
      name ∈ (∅ : InterfaceNames).issued calls) ↔
      ∃ a n, 0 < n ∧ n ≤ calls.count a ∧ suffixNumber n < maxNameAllocationAttempts ∧
        names.contains (nameAt n) = false ∧
        ∀ j < suffixNumber n, names.contains (suffixed "" j) := by
    constructor
    · rintro ⟨name, hname, hmem⟩
      obtain ⟨a, n, hpos, hle, rfl⟩ := mem_issued.1 hmem
      rw [hused] at hpos hle
      rw [nameAt_eq_suffixed, allocate_none_suffixed_iff] at hname
      rw [Nat.zero_add] at hle
      exact ⟨a, n, hpos, hle, hname.1, by rw [nameAt_eq_suffixed]; exact hname.2.1, hname.2.2⟩
    · rintro ⟨a, n, hpos, hle, hattempts, hfree, hlower⟩
      rw [nameAt_eq_suffixed] at hfree
      refine ⟨nameAt n, ?_, mem_issued.2 ⟨a, n, ?_, ?_, rfl⟩⟩
      · rw [nameAt_eq_suffixed]
        exact allocate_none_suffixed_iff.2 ⟨hattempts, hfree, hlower⟩
      · rwa [hused]
      · rwa [hused, Nat.zero_add]
  refine ⟨hissued, fun hsize => ?_⟩
  obtain ⟨name, hname, -⟩ :=
    allocate_firstFree (Nat.lt_trans hsize (by decide : 1117 < maxNameAllocationAttempts)) none
  refine ⟨name, hname, fun hmem => ?_⟩
  obtain ⟨-, n, hpos, -, -, -, hlower⟩ := hissued.1 ⟨name, hname, hmem⟩
  have hsuffixes := le_size_of_suffixed hlower
  have hmany := le_suffixNumber hpos
  omega

/-- From a registry with the first 1116 suffixes, which end with `$Hz`, the name `$I0` is generated.
It is not counted out, as the numbers of counted names begin at 1. -/
theorem generated_name_not_issued :
    (filled "" 1116).contains "$Hz" ∧ (filled "" 1116).size < 1117 ∧
      (filled "" 1116).allocate none = .ok "$I0" ∧
      "$I0" ∉ (∅ : InterfaceNames).issued [⟨0⟩, ⟨1⟩, ⟨0⟩] := by
  have hlast : (filled "" 1116).contains "$Hz" :=
    contains_filled.2 ⟨1115, by decide, by decide +kernel⟩
  have hsize : (filled "" 1116).size < 1117 := Nat.lt_succ_of_le (size_filled_le "" 1116)
  have hnext : (filled "" 1116).allocate none = .ok "$I0" :=
    (allocate_filled (by decide)).trans (congrArg Except.ok (by decide +kernel))
  obtain ⟨name, hname, hapart⟩ :=
    (generated_name_issued_iff (filled "" 1116) [⟨0⟩, ⟨1⟩, ⟨0⟩]).2 hsize
  obtain rfl := Except.ok.inj (hname.symm.trans hnext)
  exact ⟨hlast, hsize, hnext, hapart⟩

/-- From a registry with the first 1117 suffixes the name is generated that the first interface
member of an assembly is given. -/
theorem generated_name_issued :
    (filled "" 1117).allocate none = .ok "$I1" ∧
      "$I1" ∈ (∅ : InterfaceNames).issued [⟨0⟩] := by
  have hname : suffixed "" 1117 = "$I1" := by decide +kernel
  refine ⟨hname ▸ allocate_filled (by decide), ?_⟩
  decide +kernel

end ScriptNaming
