import ScriptNaming.Proofs.SortedLists
import ScriptNaming.Proofs.WellFormed
import ScriptNaming.Resolution

/-!
# Roots

A resolution takes up its roots in an order that does not depend on how they are listed
(`TypeGraph.sortedRoots_congr`): types that share a full name are told apart by their numbers, so
that the order is total, and repetitions stand next to each other. So nothing but the set of the
roots matters to a resolution (`resolve_roots_congr`).
-/

namespace ScriptNaming

/-! ## The order of roots -/

/-- Types in the order of their full names, and of their numbers where they share a full name. -/
def rootOrder : TypeSymbol → TypeSymbol → Ordering :=
  compareLex (compareOn TypeSymbol.fullName) (compareOn fun ty => ty.id.index)

instance : Std.TransCmp rootOrder := by
  unfold rootOrder
  infer_instance

theorem rootLE_eq (a b : TypeSymbol) : rootLE a b = (rootOrder a b).isLE := rfl

theorem rootLE_total (a b : TypeSymbol) : rootLE a b ∨ rootLE b a := by
  rw [rootLE_eq, rootLE_eq]
  exact isLE_total a b

theorem rootLE_trans (a b c : TypeSymbol) (hab : rootLE a b) (hbc : rootLE b c) : rootLE a c := by
  rw [rootLE_eq] at hab hbc ⊢
  exact Std.TransCmp.isLE_trans hab hbc

theorem id_eq_of_rootLE {a b : TypeSymbol} (hab : rootLE a b) (hba : rootLE b a) : a.id = b.id := by
  have heq : rootOrder a b = .eq := Std.OrientedCmp.isLE_antisymm hab hba
  have hindex := (compareLex_eq_eq.1 heq).2
  exact congrArg TypeId.mk (Std.LawfulEqCmp.eq_of_compare hindex)

/-! ## Sorted roots -/

theorem mem_lookupOrder {roots : List TypeId} {t : TypeId} :
    t ∈ lookupOrder roots ↔ t ∈ roots := by
  match roots with
  | [] => rfl
  | [_] => rfl
  | a :: b :: rest =>
    simp only [lookupOrder, List.mem_cons]
    exact or_left_comm

namespace TypeGraph

variable {g : TypeGraph} {roots : List TypeId}

/-- The `roots` that are in the graph are found. -/
theorem exists_lookup (hroots : ∀ t ∈ roots, t.index < g.types.size) :
    ∃ types, (lookupOrder roots).mapM g.typeOrFault = .ok types := by
  refine exists_mapM fun t ht => ?_
  have hlt := hroots t (mem_lookupOrder.1 ht)
  exact ⟨g.types[t.index], typeOrFault_eq_ok_iff.2 (Array.getElem?_eq_getElem hlt)⟩

theorem mem_of_lookup {types : List TypeSymbol}
    (h : (lookupOrder roots).mapM g.typeOrFault = .ok types) {ty : TypeSymbol} :
    ty ∈ types ↔ ∃ t ∈ roots, g.type? t = some ty := by
  constructor
  · intro hty
    obtain ⟨t, ht, hlookup⟩ := exists_of_mem_mapM h hty
    exact ⟨t, mem_lookupOrder.1 ht, typeOrFault_eq_ok_iff.1 hlookup⟩
  · rintro ⟨t, ht, hty⟩
    obtain ⟨ty', hty', hlookup⟩ := exists_mem_of_mapM h (mem_lookupOrder.2 ht)
    exact Option.some.inj (hty.symm.trans (typeOrFault_eq_ok_iff.1 hlookup)) ▸ hty'

/-- The types that `roots` are sorted to are the types of `roots`. -/
theorem mem_sortedRoots_iff {sorted : List TypeSymbol} (h : g.sortedRoots roots = .ok sorted)
    {ty : TypeSymbol} : ty ∈ sorted ↔ ∃ t ∈ roots, g.type? t = some ty := by
  obtain ⟨types, htypes, h⟩ := bind_eq_ok.1 h
  obtain rfl := Except.ok.inj h
  rw [mem_eraseReps, mem_sortBy, mem_of_lookup htypes]

theorem exists_mem_sortedRoots {sorted : List TypeSymbol} (h : g.sortedRoots roots = .ok sorted)
    {t : TypeId} (ht : t ∈ roots) : ∃ ty ∈ sorted, g.type? t = some ty := by
  obtain ⟨types, htypes, -⟩ := bind_eq_ok.1 h
  obtain ⟨ty, -, hlookup⟩ := exists_mem_of_mapM htypes (mem_lookupOrder.2 ht)
  have hty := typeOrFault_eq_ok_iff.1 hlookup
  exact ⟨ty, (mem_sortedRoots_iff h).2 ⟨t, ht, hty⟩, hty⟩

/-- The `roots` that are in the graph can be sorted. -/
theorem exists_sortedRoots (hroots : ∀ t ∈ roots, t.index < g.types.size) :
    ∃ sorted, g.sortedRoots roots = .ok sorted ∧ ∀ ty ∈ sorted, ∃ t, g.type? t = some ty := by
  obtain ⟨types, htypes⟩ := exists_lookup hroots
  have hsorted : g.sortedRoots roots = .ok (sortBy rootLE types).eraseReps :=
    bind_eq_ok.2 ⟨types, htypes, rfl⟩
  refine ⟨_, hsorted, fun ty hty => ?_⟩
  obtain ⟨t, -, ht⟩ := (mem_sortedRoots_iff hsorted).1 hty
  exact ⟨t, ht⟩

/-- The `roots` of the graph are sorted alike however they are listed. -/
theorem sortedRoots_congr (wf : g.WellFormed) (hroots : ∀ t ∈ roots, t.index < g.types.size)
    {roots' : List TypeId} (hsame : ∀ t, t ∈ roots ↔ t ∈ roots') :
    g.sortedRoots roots = g.sortedRoots roots' := by
  obtain ⟨types, htypes⟩ := exists_lookup hroots
  obtain ⟨types', htypes'⟩ := exists_lookup fun t ht => hroots t ((hsame t).2 ht)
  have heq : (sortBy rootLE types).eraseReps = (sortBy rootLE types').eraseReps := by
    refine eraseReps_sortBy_congr rootLE_total rootLE_trans (fun ty => ?_)
      fun a ha b hb hab hba => ?_
    · simp only [mem_of_lookup htypes, mem_of_lookup htypes', hsame]
    · obtain ⟨t, -, ht⟩ := (mem_of_lookup htypes).1 ha
      obtain ⟨u, -, hu⟩ := (mem_of_lookup htypes).1 hb
      have hid := id_eq_of_rootLE hab hba
      rw [wf.type_id ht, wf.type_id hu] at hid
      exact Option.some.inj (ht.symm.trans (hid ▸ hu))
  rw [sortedRoots, sortedRoots, htypes, htypes']
  exact congrArg Except.ok heq

end TypeGraph

/-- **Only the set of roots matters**: resolutions of the same roots of `g`, listed as `roots` or in
another order and more often as `roots'`, come to the same. -/
theorem resolve_roots_congr {g : TypeGraph} (hg : g.Built) {roots roots' : List TypeId}
    (hroots : ∀ t ∈ roots, t.index < g.types.size) (hsame : ∀ t, t ∈ roots ↔ t ∈ roots')
    (options : Options) (main : AssemblyId) :
    g.resolve options roots main = g.resolve options roots' main := by
  rw [TypeGraph.resolve, TypeGraph.resolve, TypeGraph.sortedRoots_congr hg.wellFormed hroots hsame]

/-- Two hidden classes with the same full name. -/
def twinTypes : Except Fault TypeGraph := do
  let (g, core) := TypeGraph.declareAssembly ∅ "Core"
  let (g, _) ← g.declareType core { name := "List", space := "Data", accessibility := .internal }
  let (g, _) ← g.declareType core
    { name := "List", space := "Data", accessibility := .internal, typeParameters := ["T"] }
  return g

/-- The graph of the twins. -/
def twinGraph : TypeGraph := twinTypes.toOption.getD ∅

theorem built_twinGraph : twinGraph.Built := by
  have hg : twinTypes = .ok twinGraph := eq_ok_getD (by decide +kernel)
  obtain ⟨⟨g₁, plain⟩, hplain, h⟩ := bind_eq_ok.1 hg
  obtain ⟨⟨g₂, list⟩, hlist, h⟩ := bind_eq_ok.1 h
  rw [← Except.ok.inj h]
  exact .type (.type (.assembly .empty "Core") hplain) hlist

/-- The first of the twins gets the first name `$0` also where the other one is listed first. -/
theorem twins_resolve_congr : twinGraph.Built ∧
    (∀ t ∈ [(⟨1⟩ : TypeId), ⟨0⟩, ⟨1⟩], t.index < twinGraph.types.size) ∧
    (∀ t, t ∈ [(⟨1⟩ : TypeId), ⟨0⟩, ⟨1⟩] ↔ t ∈ [(⟨0⟩ : TypeId), ⟨1⟩]) ∧
    ∃ r, twinGraph.resolve { minimizeNames := true } [⟨1⟩, ⟨0⟩, ⟨1⟩] ⟨0⟩ = .ok r ∧
      twinGraph.resolve { minimizeNames := true } [⟨0⟩, ⟨1⟩] ⟨0⟩ = .ok r ∧
      r.types.find? ⟨0⟩ = some ⟨.normalType "Data.$0" true, false⟩ ∧
      r.types.find? ⟨1⟩ = some ⟨.normalType "Data.$1" true, false⟩ := by
  have hroots : ∀ t ∈ [(⟨1⟩ : TypeId), ⟨0⟩, ⟨1⟩], t.index < twinGraph.types.size := by
    decide +kernel
  have hsame (t : TypeId) : t ∈ [(⟨1⟩ : TypeId), ⟨0⟩, ⟨1⟩] ↔ t ∈ [(⟨0⟩ : TypeId), ⟨1⟩] := by
    simp only [List.mem_cons, List.not_mem_nil, or_false]
    exact ⟨fun h => h.elim .inr id, fun h => h.elim (fun h => .inr (.inl h)) .inl⟩
  have hrun : (twinGraph.resolve { minimizeNames := true } [⟨0⟩, ⟨1⟩] ⟨0⟩).toOption.any fun r =>
      r.types.find? ⟨0⟩ = some ⟨.normalType "Data.$0" true, false⟩ ∧
      r.types.find? ⟨1⟩ = some ⟨.normalType "Data.$1" true, false⟩ := by
    decide +kernel
  obtain ⟨r, hr, hnames⟩ := exists_of_any_toOption hrun
  have heq := resolve_roots_congr built_twinGraph hroots hsame { minimizeNames := true } ⟨0⟩
  exact ⟨built_twinGraph, hroots, hsame, r, heq.trans hr, hr, of_decide_eq_true hnames⟩

end ScriptNaming
