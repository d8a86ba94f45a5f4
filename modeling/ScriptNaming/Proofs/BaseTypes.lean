import ScriptNaming.Proofs.Shallow

/-!
# Everything that a type inherits from

The base types of a type are listed with a stack of pending types, on which a type may lie several
times before it is seen. The list is nevertheless that of the recursive traversal
(`TypeGraph.Traverses`), which is the only one there is, and it is complete: what is visited is
closed under base types (`TypeGraph.Traverses.base_mem`). Both hold whatever types inherit from each
other (`TypeGraph.allBaseTypes_eq_preorder`).
-/

namespace ScriptNaming

namespace TypeGraph

variable {g : TypeGraph}

namespace Traverses

variable {ts visited visited' : List TypeId}

theorem unique (h : g.Traverses ts visited visited') {visited'' : List TypeId}
    (h' : g.Traverses ts visited visited'') : visited' = visited'' := by
  induction h generalizing visited'' with
  | done _ =>
    cases h'
    rfl
  | skip seen _ ih =>
    cases h' with
    | skip _ after => exact ih after
    | visit new => exact absurd seen new
  | visit new type _ _ ihBelow ihAfter =>
    cases h' with
    | skip seen => exact absurd seen new
    | visit _ type' below after =>
      obtain rfl := Option.some.inj (type.symm.trans type')
      obtain rfl := ihBelow below
      exact ihAfter after

/-- The base types of a type that is visited on the way are visited afterwards. -/
theorem base_mem (h : g.Traverses ts visited visited') {t b : TypeId} (ht : t ∈ visited')
    (hnew : t ∉ visited) (hb : g.NamesBase t b) : b ∈ visited' := by
  induction h with
  | done _ => exact absurd ht hnew
  | skip _ _ ih => exact ih ht hnew
  | @visit u ty rest visited visited₁ visited' _ type below after ihBelow ihAfter =>
    by_cases ht₁ : t ∈ visited₁
    · refine after.subset ?_
      rcases eq_or_ne t u with rfl | hne
      · obtain ⟨ty', hty', hb⟩ := hb
        obtain rfl := Option.some.inj (type.symm.trans hty')
        exact below.row_subset hb
      · exact ihBelow ht₁ (by simp [hnew, hne])
    · exact ihAfter ht ht₁

/-- A traversal from `t` reaches everything that `t` inherits from. -/
theorem mem_of_inherits {t : TypeId} (h : g.Traverses [t] [] visited') {u : TypeId}
    (hu : g.Inherits t u) : u ∈ visited' := by
  have ht : t ∈ visited' := h.row_subset (.head _)
  induction hu with
  | single hb => exact h.base_mem ht List.not_mem_nil hb
  | tail _ hb ih => exact h.base_mem ih List.not_mem_nil hb

end Traverses

/-- **The base types of a type are listed in preorder**: in a graph that no base type leads out of,
whatever types inherit from each other, all that `ty` inherits from is listed, without `ty` itself
and without repetitions, and in the order in which the recursive traversal that begins at `ty`
visits it. -/
theorem allBaseTypes_eq_preorder (h : g.BasesExist) {ty : TypeSymbol}
    (hty : g.type? ty.id = some ty) :
    ∃ bases, g.allBaseTypes ty = .ok bases ∧ bases.Nodup ∧
      (∀ u, u ∈ bases ↔ u ≠ ty.id ∧ g.Inherits ty.id u) ∧
      ∀ visited, g.Traverses [ty.id] [] visited ↔ visited = ty.id :: bases := by
  obtain ⟨bases, hbases⟩ := h.exists_allBaseTypes hty
  have hpreorder : g.Traverses [ty.id] [] (ty.id :: bases) :=
    .visit List.not_mem_nil hty (traverses_of_allBaseTypes hbases) (.done _)
  obtain ⟨hself, hnodup⟩ := List.nodup_cons.1 (nodup_of_allBaseTypes hbases)
  refine ⟨bases, hbases, hnodup, fun u => ⟨fun hu => ?_, fun ⟨hne, hu⟩ => ?_⟩, fun visited => ?_⟩
  · exact ⟨fun heq => hself (heq ▸ hu), inherits_of_mem_allBaseTypes hty hbases u hu⟩
  · exact (List.mem_cons.1 (hpreorder.mem_of_inherits hu)).resolve_left hne
  · exact ⟨fun hvisited => hvisited.unique hpreorder, fun heq => heq ▸ hpreorder⟩

/-- Classes of which one inherits from itself, from two others, and by way of each of these from a
fourth one that inherits from the first. -/
def tangledHeirs : Except Fault TypeGraph := do
  let (g, zoo) := declareAssembly ∅ "Zoo"
  let (g, cat) ← g.declareType zoo { name := "Cat", baseTypes := [⟨1⟩, ⟨2⟩, ⟨0⟩] }
  let (g, _) ← g.declareType zoo { name := "Lion", baseTypes := [⟨3⟩] }
  let (g, _) ← g.declareType zoo { name := "Lynx", baseTypes := [⟨3⟩, cat] }
  let (g, _) ← g.declareType zoo { name := "Puma", baseTypes := [cat] }
  return g

/-- The graph of the four classes. -/
def tangledGraph : TypeGraph := tangledHeirs.toOption.getD ∅

/-- The second class is listed with the one behind it before the third. -/
theorem tangledGraph_preorder :
    tangledGraph.BasesExist ∧ ∃ ty, tangledGraph.type? ty.id = some ty ∧
      tangledGraph.allBaseTypes ty = .ok [⟨1⟩, ⟨3⟩, ⟨2⟩] ∧
      tangledGraph.Traverses [ty.id] [] [⟨0⟩, ⟨1⟩, ⟨3⟩, ⟨2⟩] := by
  have hbases : tangledGraph.types.all fun ty => ty.baseTypes.all fun b =>
      (tangledGraph.type? b).isSome := by
    decide +kernel
  have hexist : tangledGraph.BasesExist := by
    rintro t b ⟨ty, hty, hb⟩
    have hall := Array.all_eq_true'.1 hbases ty (Array.mem_of_getElem? hty)
    exact Option.isSome_iff_exists.1 (List.all_eq_true.1 hall b hb)
  have hcat : (tangledGraph.type? ⟨0⟩).any fun ty => ty.id = ⟨0⟩ ∧
      tangledGraph.allBaseTypes ty = .ok [⟨1⟩, ⟨3⟩, ⟨2⟩] := by
    decide +kernel
  obtain ⟨ty, hty, htest⟩ := (Option.any_eq_true _ _).1 hcat
  obtain ⟨hid, hlist⟩ := of_decide_eq_true htest
  rw [← hid] at hty
  obtain ⟨bases, hbases, -, -, hpreorder⟩ := allBaseTypes_eq_preorder hexist hty
  obtain rfl := Except.ok.inj (hlist.symm.trans hbases)
  exact ⟨hexist, ty, hty, hlist, (hpreorder _).2 (by rw [hid])⟩

end TypeGraph

end ScriptNaming
