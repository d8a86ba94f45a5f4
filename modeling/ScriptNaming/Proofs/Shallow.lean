import ScriptNaming.Proofs.History
import ScriptNaming.Proofs.Renumbering

/-!
# Shallow graphs

In a shallow graph, chains of different types that refer to each other are short
(`TypeGraph.Shallow`). The types that are in progress at the same time make such a chain, with types
between them that are inherited from on the way, so that there are never too many of them
(`ResolutionState.Sound.length_visiting_lt`).

Going through everything that a type inherits from takes no more steps than there are base types
named in the graph, whatever types inherit from each other
(`TypeGraph.BasesExist.exists_allBaseTypes`).
-/

namespace ScriptNaming

/-- Things with different numbers below `n` are no more than that. -/
theorem length_le_of_nodup {α : Type} {l : List α} (hl : l.Nodup) (index : α → Nat)
    (hindex : ∀ a b, index a = index b → a = b) {n : Nat} (hn : ∀ a ∈ l, index a < n) :
    l.length ≤ n := by
  have hnodup : (l.map index).Nodup := hl.map hindex
  have hsubset : l.map index ⊆ List.range n := by
    intro i hi
    obtain ⟨a, ha, rfl⟩ := List.mem_map.1 hi
    exact List.mem_range.2 (hn a ha)
  have hle := (List.subperm_of_subset hnodup hsubset).length_le
  rwa [List.length_map, List.length_range] at hle

namespace TypeGraph

/-- The type `t` refers to the type `u`: as the type around it, as a base type, or by a member, or
an accessor, that overrides or implements a member of `u`. -/
def RefersTo (g : TypeGraph) (t u : TypeId) : Prop :=
  g.NestedIn t u ∨ g.NamesBase t u ∨ g.LinksTo t u

/-- Every chain of different types of `g` each of which refers to the next has less than the
supported length. -/
def Shallow (g : TypeGraph) : Prop :=
  ∀ l : List TypeId, l.Nodup → l.IsChain g.RefersTo → l.length < maxTypeNestingDepth

theorem exists_type?_of_index_lt {g : TypeGraph} {t u : TypeId} {ty : TypeSymbol}
    (ht : g.type? t = some ty) (hu : u.index ≤ t.index) : ∃ ty, g.type? u = some ty :=
  ⟨_, Array.getElem?_eq_getElem (Nat.lt_of_le_of_lt hu (index_lt_of_type? ht))⟩

variable {g : TypeGraph}

/-! ## Stacks of types -/

/-- Types in ascending order, each of which the next one refers to. -/
structure Stack (g : TypeGraph) (l : List TypeId) : Prop where
  chain : l.IsChain fun u t => g.RefersTo t u
  ascending : l.Pairwise fun u t => u.index < t.index

theorem Stack.singleton (t : TypeId) : g.Stack [t] := ⟨.singleton t, List.pairwise_singleton _ t⟩

theorem Stack.push {l : List TypeId} {t u : TypeId} (h : g.Stack (t :: l)) (hu : g.RefersTo t u)
    (hlt : u.index < t.index) : g.Stack (u :: t :: l) where
  chain := .cons_cons hu h.chain
  ascending := by
    refine List.pairwise_cons.2 ⟨fun v hv => ?_, h.ascending⟩
    rcases List.mem_cons.1 hv with rfl | hv
    · exact hlt
    · exact Nat.lt_trans hlt ((List.pairwise_cons.1 h.ascending).1 v hv)

/-- A stack is as short as a chain. -/
theorem Shallow.length_lt (shallow : g.Shallow) {l : List TypeId} (h : g.Stack l) :
    l.length < maxTypeNestingDepth := by
  rw [← List.length_reverse]
  refine shallow l.reverse (List.nodup_reverse.2 ?_) (List.isChain_reverse.2 h.chain)
  exact h.ascending.imp fun hlt heq => Nat.ne_of_lt hlt (congrArg TypeId.index heq)

/-- The types between `t` and a type `u` that it inherits from go on a stack. -/
theorem Layered.exists_stack_of_inherits (layered : g.Layered) {l : List TypeId} {t u : TypeId}
    (h : g.Stack (t :: l)) (hu : g.Inherits t u) :
    ∃ l', g.Stack (u :: l') ∧ (t :: l).length ≤ l'.length := by
  induction hu with
  | single hbase => exact ⟨t :: l, h.push (.inr (.inl hbase)) (layered.base_lt hbase), le_rfl⟩
  | tail _ hbase ih =>
    obtain ⟨l', hl', hlength⟩ := ih
    refine ⟨_ :: l', hl'.push (.inr (.inl hbase)) (layered.base_lt hbase), ?_⟩
    exact Nat.le_succ_of_le hlength

/-- The types of a list `l` that depend on each other stand on a stack with others between them. -/
theorem Layered.exists_stack (layered : g.Layered) {l : List TypeId}
    (hchain : l.IsChain fun u t => g.DependsOn t u)
    (hascending : l.Pairwise fun u t => u.index < t.index) :
    l = [] ∨ ∃ t l', l.head? = some t ∧ g.Stack (t :: l') ∧ l.length ≤ (t :: l').length := by
  induction l with
  | nil => exact .inl rfl
  | cons u l ih =>
    obtain ⟨hfirst, hrest⟩ := List.pairwise_cons.1 hascending
    rcases ih hchain.tail hrest with rfl | ⟨t, l', ht, hstack, hlength⟩
    · exact .inr ⟨u, [], rfl, .singleton u, le_rfl⟩
    obtain ⟨rest, rfl⟩ := List.head?_eq_some_iff.1 ht
    rcases (List.isChain_cons_cons.1 hchain).1 with hinherits | hlinks
    · obtain ⟨l'', hstack', hlength'⟩ := layered.exists_stack_of_inherits hstack hinherits
      refine .inr ⟨u, l'', rfl, hstack', ?_⟩
      simp only [List.length_cons] at hlength hlength' ⊢
      omega
    · refine .inr ⟨u, t :: l', rfl, hstack.push (.inr (.inr hlinks)) (hfirst t (.head _)), ?_⟩
      simp only [List.length_cons] at hlength ⊢
      omega

/-! ## Few types -/

/-- A type refers to no later types. -/
theorem Linked.refersTo_lt (linked : g.Linked) {t u : TypeId} (h : g.RefersTo t u) (hne : t ≠ u) :
    u.index < t.index ∧ t.index < g.types.size := by
  rcases h with ⟨ty, hty, hu⟩ | hbase | hlink
  · exact ⟨linked.outer_lt hty hu, index_lt_of_type? hty⟩
  · obtain ⟨ty, hty, -⟩ := id hbase
    exact ⟨linked.base_lt hbase, index_lt_of_type? hty⟩
  · obtain ⟨m, x, hx, rfl, -⟩ := id hlink
    obtain ⟨ty, hty, -⟩ := linked.declaringType hx
    refine ⟨Nat.lt_of_le_of_ne (linked.link_le hlink) fun h => hne ?_, index_lt_of_type? hty⟩
    exact (TypeId.eq_of_index h).symm

theorem Linked.descending (linked : g.Linked) {l : List TypeId} (hnodup : l.Nodup)
    (hchain : l.IsChain g.RefersTo) : l.Pairwise fun t u => u.index < t.index := by
  have hsteps : l.IsChain fun t u => u.index < t.index := by
    induction l with
    | nil => exact .nil
    | cons t l ih =>
      obtain ⟨hfirst, hrest⟩ := List.nodup_cons.1 hnodup
      refine (ih hrest hchain.tail).cons fun u hu => ?_
      have hne : t ≠ u := fun h => hfirst (h ▸ List.mem_of_mem_head? hu)
      exact (linked.refersTo_lt (hchain.rel_head? hu) hne).1
  have : IsTrans TypeId fun t u => u.index < t.index := ⟨fun _ _ _ h h' => Nat.lt_trans h' h⟩
  exact hsteps.pairwise

/-- A graph with few types is shallow. -/
theorem Linked.shallow_of_size_lt (linked : g.Linked)
    (hsize : g.types.size < maxTypeNestingDepth) : g.Shallow := by
  intro l hnodup hchain
  rcases l with _ | ⟨t, _ | ⟨u, rest⟩⟩
  · exact Nat.zero_lt_of_lt hsize
  · exact Nat.lt_of_lt_of_le Nat.one_lt_two (by decide)
  · -- The first type of the chain is the latest one.
    have hne : t ≠ u := fun h => (List.nodup_cons.1 hnodup).1 (h ▸ .head _)
    have ht := (linked.refersTo_lt (List.isChain_cons_cons.1 hchain).1 hne).2
    have hdescending := (List.pairwise_cons.1 (linked.descending hnodup hchain)).1
    refine Nat.lt_of_le_of_lt (length_le_of_nodup hnodup TypeId.index
      (fun _ _ => TypeId.eq_of_index) fun v hv => ?_) hsize
    rcases List.mem_cons.1 hv with rfl | hv
    · exact ht
    · exact Nat.lt_trans (hdescending v hv) ht

/-! ## Base types -/

/-- The number of times that a type of `g` which has not been `seen` names a base type. -/
def unseen (g : TypeGraph) (seen : List TypeId) : Nat :=
  ∑ i ∈ Finset.range g.types.size,
    if (⟨i⟩ : TypeId) ∈ seen then 0 else (g.type? ⟨i⟩).elim 0 fun ty => ty.baseTypes.length

theorem unseen_eq_add {seen : List TypeId} {t : TypeId} {ty : TypeSymbol}
    (hty : g.type? t = some ty) (ht : t ∉ seen) :
    g.unseen seen = ty.baseTypes.length + g.unseen (t :: seen) := by
  have hmem : t.index ∈ Finset.range g.types.size := Finset.mem_range.2 (index_lt_of_type? hty)
  rw [unseen, unseen, ← Finset.add_sum_erase _ _ hmem, ← Finset.add_sum_erase _ _ hmem,
    if_neg ht, if_pos (.head _), hty, Option.elim_some, Nat.zero_add]
  refine congrArg _ (Finset.sum_congr rfl fun i hi => ?_)
  have hne : (⟨i⟩ : TypeId) ≠ t := fun h => (Finset.mem_erase.1 hi).1 (congrArg TypeId.index h)
  simp only [List.mem_cons, hne, false_or]

/-- No base type leads out of the graph `g`. -/
def BasesExist (g : TypeGraph) : Prop :=
  ∀ ⦃t b⦄, g.NamesBase t b → ∃ ty, g.type? b = some ty

theorem Linked.basesExist (linked : g.Linked) : g.BasesExist := by
  rintro t b ⟨ty, hty, hb⟩
  exact exists_type?_of_index_lt hty (Nat.le_of_lt (linked.base_lt ⟨ty, hty, hb⟩))

/-- Each type in `pending` takes a step, and so does each base type of a type that is not `seen`
yet. -/
theorem BasesExist.exists_baseTypesFrom (h : g.BasesExist) {steps : Nat}
    {pending seen : List TypeId} (hpending : ∀ b ∈ pending, ∃ ty, g.type? b = some ty)
    (hsteps : pending.length + g.unseen seen ≤ steps) :
    ∃ l, g.baseTypesFrom steps pending seen = .ok l := by
  induction steps generalizing pending seen with
  | zero =>
    cases pending with
    | nil => exact ⟨[], rfl⟩
    | cons b pending =>
      rw [List.length_cons] at hsteps
      omega
  | succ steps ih =>
    cases pending with
    | nil => exact ⟨[], rfl⟩
    | cons b pending =>
      rw [List.length_cons] at hsteps
      have hrest : ∀ c ∈ pending, ∃ ty, g.type? c = some ty := fun c hc => hpending c (.tail _ hc)
      rw [baseTypesFrom]
      split
      · exact ih hrest (by omega)
      · rename_i hseen
        obtain ⟨ty, hty⟩ := hpending b (.head _)
        have hcount := unseen_eq_add hty fun h => hseen (List.contains_iff_mem.2 h)
        have hbases (c : TypeId) (hc : c ∈ ty.baseTypes ++ pending) :
            ∃ ty, g.type? c = some ty := by
          rcases List.mem_append.1 hc with hc | hc
          · exact h ⟨ty, hty, hc⟩
          · exact hrest c hc
        have hcount' : (ty.baseTypes ++ pending).length + g.unseen (b :: seen) ≤ steps := by
          rw [List.length_append]
          omega
        obtain ⟨l, hl⟩ := ih hbases hcount'
        exact ⟨b :: l, bind_eq_ok.2 ⟨ty, typeOrFault_eq_ok_iff.2 hty, bind_eq_ok.2 ⟨l, hl, rfl⟩⟩⟩

/-- Before any type is seen, all base types in `g` are named by types that have not been seen. -/
theorem inheritanceCount_eq_unseen (g : TypeGraph) : g.inheritanceCount = g.unseen [] := by
  rw [inheritanceCount_eq_sum, unseen]
  exact Finset.sum_congr rfl fun i _ => (if_neg List.not_mem_nil).symm

theorem BasesExist.exists_allBaseTypes (h : g.BasesExist) {ty : TypeSymbol}
    (hty : g.type? ty.id = some ty) : ∃ bases, g.allBaseTypes ty = .ok bases := by
  refine h.exists_baseTypesFrom (fun b hb => h ⟨ty, hty, hb⟩) ?_
  rw [inheritanceCount_eq_unseen, unseen_eq_add hty List.not_mem_nil]

theorem Linked.exists_allBaseTypes (linked : g.Linked) {t : TypeId} {ty : TypeSymbol}
    (hty : g.type? t = some ty) : ∃ bases, g.allBaseTypes ty = .ok bases := by
  obtain rfl := linked.type_id hty
  exact linked.basesExist.exists_allBaseTypes hty

end TypeGraph

/-- In a shallow graph, there are never too many types in progress. -/
theorem ResolutionState.Sound.length_visiting_lt {g : TypeGraph} {options : Options}
    {s : ResolutionState} (hs : s.Sound g options) (layered : g.Layered) (shallow : g.Shallow) :
    s.memberGuard.depth < maxTypeNestingDepth := by
  rw [hs.membersCounted]
  rcases layered.exists_stack hs.chain (hs.ascending layered) with hnil | ⟨t, l, -, hstack, hlength⟩
  · rw [hnil]
    decide
  · exact Nat.lt_of_le_of_lt hlength (shallow.length_lt hstack)

end ScriptNaming
