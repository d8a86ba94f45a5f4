import ScriptNaming.Proofs.Moves
import ScriptNaming.Proofs.Steady

/-!
# Names of interface members

The members of interfaces whose names are counted out have the first names of their assembly, in
the order in which they came up (`Numbered`, `numbered_of_resolve`). Two of them have different
names if their assembly is the same (`counted_names_distinct`), and otherwise the same name if they
came up at the same place (`counted_names_shared_iff`), also where one type inherits both
(`counted_names_shared`).
-/

namespace ScriptNaming

open ResolutionState

/-- The names that are counted out are different. -/
theorem InterfaceNames.nameAt_injective {m n : Nat} (h : nameAt m = nameAt n) : m = n := by
  have hlist := congrArg String.toList h
  simp only [nameAt, String.toList_append] at hlist
  exact Base62.encode_injective (String.toList_injective (List.append_cancel_left hlist))

/-- The assembly of the interface that declares the member `m`. -/
def TypeGraph.interfaceAssembly? (g : TypeGraph) (m : MemberId) : Option AssemblyId := do
  let x ← g.member? m
  let ty ← g.type? x.declaringType
  if ty.isInterface then some ty.assembly else none

/-- The members of interfaces of the assembly `a` whose names are counted out, in the order in which
they were named. -/
def TypeGraph.countedMembers (g : TypeGraph) (origins : Table MemberId NameOrigin)
    (a : AssemblyId) : List MemberId :=
  origins.keys.filter fun m => origins.find? m = some .counted ∧ g.interfaceAssembly? m = some a

section

variable {g : TypeGraph} {origins : Table MemberId NameOrigin} {a : AssemblyId} {m : MemberId}

theorem TypeGraph.mem_countedMembers : m ∈ g.countedMembers origins a ↔
    origins.find? m = some .counted ∧ g.interfaceAssembly? m = some a := by
  rw [countedMembers, List.mem_filter, decide_eq_true_iff, and_iff_right_iff_imp]
  rintro ⟨hcounted, -⟩
  rw [← Table.contains_iff_mem_keys, Table.contains, hcounted]
  rfl

/-- A member that is named comes after all others. -/
theorem TypeGraph.countedMembers_insert (hm : origins.find? m = none) (origin : NameOrigin) :
    g.countedMembers (origins.insert m origin) a = g.countedMembers origins a ++
      if origin = .counted ∧ g.interfaceAssembly? m = some a then [m] else [] := by
  have hnot : m ∉ origins.keys := by
    rw [← Table.contains_iff_mem_keys, Table.contains, hm]
    exact Bool.false_ne_true
  have hold : origins.keys.filter (fun k => (origins.insert m origin).find? k = some .counted ∧
      g.interfaceAssembly? k = some a) = g.countedMembers origins a := by
    refine List.filter_congr fun k hk => ?_
    have hne : m ≠ k := fun heq => hnot (heq ▸ hk)
    rw [Table.find?_insert_of_ne _ _ hne]
  rw [countedMembers, Table.keys_insert, if_neg hnot, List.filter_append, hold,
    List.filter_singleton, Table.find?_insert_self]
  simp only [Option.some.injEq, Bool.cond_decide]

end

/-! ## Counting -/

/-- A final `name` is the next name of the assembly of `ty`, if it is counted out; otherwise nothing
is counted. -/
theorem finalName_counts {ty : TypeSymbol} {preferred : PreferredName} {names : NameRegistry}
    {name : String} {origin : NameOrigin} {s s' : ResolutionState}
    (h : finalName ty preferred names s = .ok ((name, origin), s')) :
    (origin = .counted ∧ ty.isInterface ∧
      name = InterfaceNames.nameAt (s.interfaceNames.used ty.assembly + 1) ∧
      s'.interfaceNames = (s.interfaceNames.next ty.assembly).2) ∨
    origin ≠ .counted ∧ s'.interfaceNames = s.interfaceNames := by
  unfold finalName at h
  split at h
  · obtain ⟨hp, rfl⟩ := run_pure_eq_ok.1 h
    obtain ⟨-, rfl⟩ := Prod.mk.inj hp
    exact .inr ⟨nofun, rfl⟩
  · unfold uniqueName at h
    split at h
    · rename_i hcounted
      obtain ⟨hp, rfl⟩ := Prod.ext_iff.1 (Except.ok.inj h)
      obtain ⟨rfl, rfl⟩ := Prod.mk.inj hp
      exact .inl ⟨rfl, (Bool.and_eq_true_iff.1 hcounted).2, rfl, rfl⟩
    · rw [run_bind_eq_ok] at h
      obtain ⟨final, s₁, hlift, h⟩ := h
      obtain ⟨-, rfl⟩ := run_liftM_eq_ok.1 hlift
      obtain ⟨hp, rfl⟩ := run_pure_eq_ok.1 h
      obtain ⟨-, rfl⟩ := Prod.mk.inj hp
      exact .inr ⟨nofun, rfl⟩

/-- The members of each assembly of `g` whose names are counted out have the first names of the
assembly in `s`, one after the other. -/
def Numbered (g : TypeGraph) (s : ResolutionState) : Prop :=
  ∀ a, (g.countedMembers s.origins a).map (fun m => (s.recordOf m).name?) =
    (List.range (s.interfaceNames.used a)).map fun i => some (InterfaceNames.nameAt (i + 1))

namespace Numbered

variable {g : TypeGraph} {s s' : ResolutionState}

theorem initial (g : TypeGraph) : Numbered g .initial := fun _ => rfl

/-- Names stay where their members keep their records and nothing else is named. -/
theorem congr (h : Numbered g s)
    (records : ∀ m, s.origins.find? m ≠ none → s'.recordOf m = s.recordOf m)
    (origins : s'.origins = s.origins) (counts : s'.interfaceNames = s.interfaceNames) :
    Numbered g s' := by
  intro a
  rw [origins, counts, ← h a]
  refine List.map_congr_left fun m hm => ?_
  have hcounted := (TypeGraph.mem_countedMembers.1 hm).1
  rw [records m (by rw [hcounted]; exact nofun)]

/-- One move from `s` to `s'` takes the next name of one assembly at most. -/
theorem move (h : Numbered g s) (hmove : s.Move g s') : Numbered g s' := by
  cases hmove with
  | aside records origins counts => exact h.congr (fun m _ => records m) origins counts
  | @unnamed k _ fresh frame origins counts =>
    refine h.congr (fun m hm => frame m ?_) origins counts
    rintro rfl
    exact hm (congrArg MemberRecord.origin fresh)
  | @named m ty _ _ name origin s₁ _ known type fresh final frame origins counts record =>
    have hnone : s.origins.find? m.id = none := congrArg MemberRecord.origin fresh
    have hassembly (a : AssemblyId) : g.interfaceAssembly? m.id = some a ↔
        ty.isInterface ∧ ty.assembly = a := by
      simp only [TypeGraph.interfaceAssembly?, known, type, Option.bind_eq_bind, Option.bind_some,
        Option.ite_none_right_eq_some, Option.some.injEq]
    intro a
    -- The names that were counted out before stay as they are.
    have hold : (g.countedMembers s.origins a).map (fun k => (s'.recordOf k).name?) =
        (List.range (s.interfaceNames.used a)).map fun i =>
          some (InterfaceNames.nameAt (i + 1)) := by
      rw [← h a]
      refine List.map_congr_left fun k hk => ?_
      have hcounted := (TypeGraph.mem_countedMembers.1 hk).1
      rw [frame k]
      rintro rfl
      cases hnone.symm.trans hcounted
    rw [origins, TypeGraph.countedMembers_insert hnone, List.map_append, hold, counts]
    obtain ⟨rfl, hinterface, rfl, hcounts⟩ | ⟨hnot, hcounts⟩ := finalName_counts final
    · rw [hcounts, InterfaceNames.used_next]
      by_cases ha : ty.assembly = a
      · subst ha
        rw [if_pos ⟨rfl, (hassembly _).2 ⟨hinterface, rfl⟩⟩, if_pos rfl, List.range_succ,
          List.map_append, List.map_singleton, List.map_singleton, record]
      · have hother : ¬(NameOrigin.counted = .counted ∧ g.interfaceAssembly? m.id = some a) :=
          fun hand => ha ((hassembly a).1 hand.2).2
        rw [if_neg hother, if_neg ha, List.map_nil, List.append_nil]
    · rw [if_neg fun hand => hnot hand.1, hcounts, List.map_nil, List.append_nil]

theorem moves (h : Numbered g s) (hmoves : Moves g s s') : Numbered g s' := by
  induction hmoves with
  | refl => exact h
  | tail _ hmove ih => exact ih.move hmove

/-- A member whose name is counted out has the name with the number of its place. -/
theorem name?_eq (h : Numbered g s) {a : AssemblyId} {m : MemberId}
    (hm : m ∈ g.countedMembers s.origins a) : (s.recordOf m).name? =
      some (InterfaceNames.nameAt ((g.countedMembers s.origins a).idxOf m + 1)) := by
  have hplace := List.idxOf_lt_length_of_mem hm
  have hnames := congrArg (·[(g.countedMembers s.origins a).idxOf m]?) (h a)
  have hlength : (g.countedMembers s.origins a).length = s.interfaceNames.used a := by
    have hlengths := congrArg List.length (h a)
    rwa [List.length_map, List.length_map, List.length_range] at hlengths
  simp only [List.getElem?_map, List.getElem?_eq_getElem hplace, List.getElem_idxOf,
    List.getElem?_range (hlength ▸ hplace), Option.map_some, Option.some.injEq] at hnames
  exact hnames

end Numbered

/-- At the end of the resolution `r` the names that are counted out are the first names of each
assembly `a`. -/
theorem numbered_of_resolve {g : TypeGraph} (wf : g.WellFormed) {options : Options}
    {roots : List TypeId} {main : AssemblyId} {r : Resolution}
    (h : g.resolve options roots main = .ok r) {a : AssemblyId} {m : MemberId}
    (hcounted : r.origins.find? m = some .counted) (hm : g.interfaceAssembly? m = some a) :
    (r.recordOf m).name? =
      some (InterfaceNames.nameAt ((g.countedMembers r.origins a).idxOf m + 1)) := by
  obtain ⟨s, rfl, hmoves⟩ := moves_of_resolve wf h
  exact ((Numbered.initial g).moves hmoves).name?_eq
    (TypeGraph.mem_countedMembers.2 ⟨hcounted, hm⟩)

/-! ## Names in one assembly -/

/-- **Counted names are unique in an assembly**: in a resolution `r`, two members `m` and `m'` that
interfaces of the same assembly `a` declare, and whose names are counted out, have names that
differ. -/
theorem counted_names_distinct {g : TypeGraph} (hg : g.Built) {options : Options}
    {roots : List TypeId} {main : AssemblyId} {r : Resolution}
    (h : g.resolve options roots main = .ok r) {a : AssemblyId} {m m' : MemberId}
    (hm : g.interfaceAssembly? m = some a) (hm' : g.interfaceAssembly? m' = some a) (hne : m ≠ m')
    (hcounted : r.origins.find? m = some .counted)
    (hcounted' : r.origins.find? m' = some .counted) :
    ∃ name name', (r.recordOf m).name? = some name ∧ (r.recordOf m').name? = some name' ∧
      name ≠ name' := by
  refine ⟨_, _, numbered_of_resolve hg.wellFormed h hcounted hm,
    numbered_of_resolve hg.wellFormed h hcounted' hm', fun hname => hne ?_⟩
  have hplace := Nat.succ.inj (InterfaceNames.nameAt_injective hname)
  exact (List.idxOf_inj (TypeGraph.mem_countedMembers.2 ⟨hcounted, hm⟩)).1 hplace

/-- A class of the assembly `Plugin` that implements two interfaces of `Plugin`, with a property and
a method, and one of `Core`, with a method. -/
def duckAssemblies : Except Fault TypeGraph := do
  let (g, core) := TypeGraph.declareAssembly ∅ "Core"
  let (g, plugin) := g.declareAssembly "Plugin"
  let (g, walker) ← g.declareType core
    { name := "IWalker", kind := .interface, accessibility := .internal }
  let (g, swimmer) ← g.declareType plugin
    { name := "ISwimmer", kind := .interface, accessibility := .internal }
  let (g, diver) ← g.declareType plugin
    { name := "IDiver", kind := .interface, accessibility := .internal }
  let (g, _) ← g.declareType plugin { name := "Duck", baseTypes := [walker, swimmer, diver] }
  let (g, _) ← g.declareMethod walker { name := "Walk" }
  let (g, _) ← g.declareProperty swimmer { name := "Speed", setter := none }
  let (g, _) ← g.declareMethod diver { name := "Dive" }
  return g

/-- The graph of the class and the interfaces. -/
def duckGraph : TypeGraph := duckAssemblies.toOption.getD ∅

theorem built_duckGraph : duckGraph.Built := by
  have hg : duckAssemblies = .ok duckGraph := eq_ok_getD (by decide +kernel)
  obtain ⟨⟨g₁, walker⟩, hwalker, h⟩ := bind_eq_ok.1 hg
  obtain ⟨⟨g₂, swimmer⟩, hswimmer, h⟩ := bind_eq_ok.1 h
  obtain ⟨⟨g₃, diver⟩, hdiver, h⟩ := bind_eq_ok.1 h
  obtain ⟨⟨g₄, _⟩, hduck, h⟩ := bind_eq_ok.1 h
  obtain ⟨⟨g₅, _⟩, hwalk, h⟩ := bind_eq_ok.1 h
  obtain ⟨⟨g₆, _⟩, hspeed, h⟩ := bind_eq_ok.1 h
  obtain ⟨⟨g₇, _⟩, hdive, h⟩ := bind_eq_ok.1 h
  rw [← Except.ok.inj h]
  have hinterfaces : g₃.Built :=
    .type (.type (.type (.assembly (.assembly .empty "Core") "Plugin") hwalker) hswimmer) hdiver
  have htypes : g₄.Built := .type hinterfaces hduck
  exact .method (.property (.method htypes hwalk) hspeed) hdive

/-- The accessor of the property and the method belong to different interfaces. -/
theorem duck_names_distinct :
    duckGraph.Built ∧ ∃ r, duckGraph.resolve { minimizeNames := true } [⟨3⟩] ⟨1⟩ = .ok r ∧
      duckGraph.interfaceAssembly? ⟨2⟩ = some ⟨1⟩ ∧ duckGraph.interfaceAssembly? ⟨3⟩ = some ⟨1⟩ ∧
      (⟨2⟩ : MemberId) ≠ ⟨3⟩ ∧ r.origins.find? ⟨2⟩ = some .counted ∧
      r.origins.find? ⟨3⟩ = some .counted ∧
      ∃ name name', (r.recordOf ⟨2⟩).name? = some name ∧ (r.recordOf ⟨3⟩).name? = some name' ∧
        name ≠ name' := by
  have hrun : (duckGraph.resolve { minimizeNames := true } [⟨3⟩] ⟨1⟩).toOption.any fun r =>
      duckGraph.interfaceAssembly? ⟨2⟩ = some ⟨1⟩ ∧ duckGraph.interfaceAssembly? ⟨3⟩ = some ⟨1⟩ ∧
      r.origins.find? ⟨2⟩ = some .counted ∧ r.origins.find? ⟨3⟩ = some .counted := by
    decide +kernel
  obtain ⟨r, hr, hrest⟩ := exists_of_any_toOption hrun
  obtain ⟨hspeed, hdive, hcounted, hcounted'⟩ := of_decide_eq_true hrest
  have hne : (⟨2⟩ : MemberId) ≠ ⟨3⟩ := by decide
  exact ⟨built_duckGraph, r, hr, hspeed, hdive, hne, hcounted, hcounted',
    counted_names_distinct built_duckGraph hr hspeed hdive hne hcounted hcounted'⟩

/-! ## Names in different assemblies -/

/-- An interface of the assembly `a` among the types that `t` inherits from declares the member. -/
def TypeGraph.InheritsFrom (g : TypeGraph) (t : TypeId) (a : AssemblyId) (m : MemberId) : Prop :=
  ∃ ty bases x, g.type? t = some ty ∧ g.allBaseTypes ty = .ok bases ∧ g.member? m = some x ∧
    x.declaringType ∈ bases ∧ g.interfaceAssembly? m = some a

instance (g : TypeGraph) (t : TypeId) (a : AssemblyId) (m : MemberId) :
    Decidable (g.InheritsFrom t a m) :=
  decidable_of_iff ((g.type? t).any fun ty => (g.allBaseTypes ty).toOption.any fun bases =>
      (g.member? m).any fun x => x.declaringType ∈ bases ∧ g.interfaceAssembly? m = some a) <| by
    constructor
    · intro h
      obtain ⟨ty, hty, h⟩ := (Option.any_eq_true _ _).1 h
      obtain ⟨bases, hbases, h⟩ := exists_of_any_toOption h
      obtain ⟨x, hx, h⟩ := (Option.any_eq_true _ _).1 h
      obtain ⟨hmem, ha⟩ := of_decide_eq_true h
      exact ⟨ty, bases, x, hty, hbases, hx, hmem, ha⟩
    · rintro ⟨ty, bases, x, hty, hbases, hx, hmem, ha⟩
      rw [hty, Option.any_some, hbases, Except.toOption, Option.any_some, hx, Option.any_some]
      exact decide_eq_true ⟨hmem, ha⟩

/-- **Counted names are shared between assemblies only**: in a resolution `r`, two members that the
type `t` inherits from interfaces of the assemblies `a` and `a'`, and whose names are counted out,
have the same name exactly if `a` and `a'` are different and the members were named at the same
place there. -/
theorem counted_names_shared_iff {g : TypeGraph} (hg : g.Built) {options : Options}
    {roots : List TypeId} {main : AssemblyId} {r : Resolution}
    (h : g.resolve options roots main = .ok r) {t : TypeId} {a a' : AssemblyId} {m m' : MemberId}
    (hm : g.InheritsFrom t a m) (hm' : g.InheritsFrom t a' m') (hne : m ≠ m')
    (hcounted : r.origins.find? m = some .counted)
    (hcounted' : r.origins.find? m' = some .counted) :
    ∃ name name', (r.recordOf m).name? = some name ∧ (r.recordOf m').name? = some name' ∧
      (name = name' ↔ a ≠ a' ∧ (g.countedMembers r.origins a).idxOf m =
        (g.countedMembers r.origins a').idxOf m') := by
  obtain ⟨-, -, -, -, -, -, -, ha⟩ := hm
  obtain ⟨-, -, -, -, -, -, -, ha'⟩ := hm'
  refine ⟨_, _, numbered_of_resolve hg.wellFormed h hcounted ha,
    numbered_of_resolve hg.wellFormed h hcounted' ha', ?_⟩
  constructor
  · intro hname
    have hplace := Nat.succ.inj (InterfaceNames.nameAt_injective hname)
    refine ⟨?_, hplace⟩
    rintro rfl
    exact hne ((List.idxOf_inj (TypeGraph.mem_countedMembers.2 ⟨hcounted, ha⟩)).1 hplace)
  · rintro ⟨-, hplace⟩
    rw [hplace]

/-- The members that the class inherits from interfaces of different assemblies. -/
theorem duck_inheritsFrom : duckGraph.InheritsFrom ⟨3⟩ ⟨0⟩ ⟨0⟩ ∧
    duckGraph.InheritsFrom ⟨3⟩ ⟨1⟩ ⟨2⟩ := by
  decide +kernel

/-- The first names that are counted out in the two assemblies are the same. -/
theorem duck_names_shared_iff :
    duckGraph.Built ∧ ∃ r, duckGraph.resolve { minimizeNames := true } [⟨3⟩] ⟨1⟩ = .ok r ∧
      duckGraph.InheritsFrom ⟨3⟩ ⟨0⟩ ⟨0⟩ ∧ duckGraph.InheritsFrom ⟨3⟩ ⟨1⟩ ⟨2⟩ ∧
      (⟨0⟩ : MemberId) ≠ ⟨2⟩ ∧ r.origins.find? ⟨0⟩ = some .counted ∧
      r.origins.find? ⟨2⟩ = some .counted ∧
      ∃ name name', (r.recordOf ⟨0⟩).name? = some name ∧ (r.recordOf ⟨2⟩).name? = some name' ∧
        (name = name' ↔ (⟨0⟩ : AssemblyId) ≠ ⟨1⟩ ∧
          (duckGraph.countedMembers r.origins ⟨0⟩).idxOf ⟨0⟩ =
            (duckGraph.countedMembers r.origins ⟨1⟩).idxOf ⟨2⟩) := by
  have hrun : (duckGraph.resolve { minimizeNames := true } [⟨3⟩] ⟨1⟩).toOption.any fun r =>
      r.origins.find? ⟨0⟩ = some .counted ∧ r.origins.find? ⟨2⟩ = some .counted := by
    decide +kernel
  obtain ⟨r, hr, hrest⟩ := exists_of_any_toOption hrun
  obtain ⟨hcounted, hcounted'⟩ := of_decide_eq_true hrest
  obtain ⟨hwalk, hspeed⟩ := duck_inheritsFrom
  have hne : (⟨0⟩ : MemberId) ≠ ⟨2⟩ := by decide
  exact ⟨built_duckGraph, r, hr, hwalk, hspeed, hne, hcounted, hcounted',
    counted_names_shared_iff built_duckGraph hr hwalk hspeed hne hcounted hcounted'⟩

/-- A class may inherit the same name from interfaces of different assemblies. -/
theorem counted_names_shared :
    duckGraph.Built ∧ ∃ r, duckGraph.resolve { minimizeNames := true } [⟨3⟩] ⟨1⟩ = .ok r ∧
      (r.types.find? ⟨3⟩).isSome ∧ duckGraph.InheritsFrom ⟨3⟩ ⟨0⟩ ⟨0⟩ ∧
      duckGraph.InheritsFrom ⟨3⟩ ⟨1⟩ ⟨2⟩ ∧ (⟨0⟩ : MemberId) ≠ ⟨2⟩ ∧
      r.origins.find? ⟨0⟩ = some .counted ∧ r.origins.find? ⟨2⟩ = some .counted ∧
      (r.recordOf ⟨0⟩).name? = some "$I1" ∧ (r.recordOf ⟨2⟩).name? = some "$I1" := by
  have hrun : (duckGraph.resolve { minimizeNames := true } [⟨3⟩] ⟨1⟩).toOption.any fun r =>
      (r.types.find? ⟨3⟩).isSome ∧ r.origins.find? ⟨0⟩ = some .counted ∧
      r.origins.find? ⟨2⟩ = some .counted ∧ (r.recordOf ⟨0⟩).name? = some "$I1" ∧
      (r.recordOf ⟨2⟩).name? = some "$I1" := by
    decide +kernel
  obtain ⟨r, hr, hrest⟩ := exists_of_any_toOption hrun
  obtain ⟨htype, hcounted, hcounted', hname, hname'⟩ := of_decide_eq_true hrest
  obtain ⟨hwalk, hspeed⟩ := duck_inheritsFrom
  have hne : (⟨0⟩ : MemberId) ≠ ⟨2⟩ := by decide
  exact ⟨built_duckGraph, r, hr, htype, hwalk, hspeed, hne, hcounted, hcounted', hname, hname'⟩

end ScriptNaming
