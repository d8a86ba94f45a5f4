import ScriptNaming.Proofs.SortedLists
import ScriptNaming.Resolution.Members

/-!
# The canonical order

The canonical order of members is total and transitive (`canonicalOrder_total`,
`canonicalOrder_trans`), so that the members of a type whose members it tells apart come in one
order only, however they are declared (`sortBy_eq_of_perm`). Naming goes through the same members in
another order (`namingPlan_perm`).
-/

namespace ScriptNaming

/-! ## Comparing members -/

/-- The canonical order as a lexicographic one. -/
theorem canonicalOrder_eq : canonicalOrder =
    compareLex (compareOn MemberSymbol.kindRank) (compareLex (compareOn MemberSymbol.name)
      (compareLex (compareOn fun m => m.parameters.length)
        (compareOn MemberSymbol.parameterTypeList))) :=
  rfl

instance : Std.TransCmp canonicalOrder := by
  rw [canonicalOrder_eq]
  infer_instance

theorem canonicalOrder_total (a b : MemberSymbol) :
    (canonicalOrder a b).isLE ∨ (canonicalOrder b a).isLE :=
  isLE_total a b

theorem canonicalOrder_trans (a b c : MemberSymbol) (hab : (canonicalOrder a b).isLE)
    (hbc : (canonicalOrder b c).isLE) : (canonicalOrder a c).isLE :=
  Std.TransCmp.isLE_trans hab hbc

theorem canonicalOrder_antisymm {a b : MemberSymbol} (hab : (canonicalOrder a b).isLE)
    (hba : (canonicalOrder b a).isLE) : canonicalOrder a b = .eq :=
  Std.OrientedCmp.isLE_antisymm hab hba

/-- The canonical order tells the own members of each type apart. -/
def TypeGraph.TellsMembersApart (g : TypeGraph) : Prop :=
  ∀ ⦃t ty⦄, g.type? t = some ty → ∀ a ∈ g.membersOf ty, ∀ b ∈ g.membersOf ty,
    canonicalOrder a b = .eq → a = b

/-! ## The order of naming -/

/-- The elements of a list, group by group for some values of `f`. -/
theorem flatMap_eraseDups_perm {α β : Type} [BEq β] [LawfulBEq β] (f : α → β) (l : List α)
    (bs : List β) :
    (bs.eraseDups.flatMap fun b => l.filter (f · == b)).Perm (l.filter (bs.contains <| f ·)) := by
  induction hn : bs.length using Nat.strongRecOn generalizing bs with
  | _ n ih =>
    cases bs with
    | nil => simp
    | cons b bs =>
      have hlength : (bs.filter (!· == b)).length < n := by
        rw [← hn]
        exact Nat.lt_succ_of_le (List.length_filter_le _ bs)
      have hrest := ih _ hlength _ rfl
      have hsplit := (List.filter_append_perm (f · == b) (l.filter ((b :: bs).contains <| f ·)))
      rw [List.eraseDups_cons, List.flatMap_cons]
      refine (hrest.append_left _).trans (.trans (.of_eq ?_) hsplit)
      rw [List.filter_filter, List.filter_filter]
      congr 1
      · refine List.filter_congr fun a _ => ?_
        by_cases h : f a = b <;> simp [h]
      · refine List.filter_congr fun a _ => ?_
        by_cases h : f a = b <;> simp [h]

/-- The order of naming only rearranges. -/
theorem namingPlan_perm (members : List (MemberSymbol × PreferredName)) :
    (namingPlan members).Perm members := by
  have hgroups := flatMap_eraseDups_perm (fun p : MemberSymbol × PreferredName => p.2.name) members
    (members.map (·.2.name))
  have hall : members.filter (fun p => (members.map (·.2.name)).contains p.2.name) = members := by
    refine List.filter_eq_self.2 fun p hp => ?_
    rw [List.contains_iff_mem]
    exact List.mem_map_of_mem hp
  rw [hall] at hgroups
  refine .trans (List.Perm.flatMap_left _ fun name _ => ?_) hgroups
  exact List.filter_append_perm _ _

theorem mem_namingPlan {members : List (MemberSymbol × PreferredName)}
    {p : MemberSymbol × PreferredName} : p ∈ namingPlan members ↔ p ∈ members :=
  (namingPlan_perm members).mem_iff

end ScriptNaming
