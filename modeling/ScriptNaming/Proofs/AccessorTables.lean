import ScriptNaming.Proofs.MemberEntries

/-!
# Accessors in two tables

What becomes of an accessor stands in two places, with the property or event that it belongs to and
in the table of methods. At the end of every resolution the two agree (`accessor_tables_agree`).
-/

namespace ScriptNaming

open ResolutionState

/-- Where something is recorded about `k`, it is a member of a type that is done, or an accessor of
such a member. -/
theorem ResolutionState.Sound.exists_covering {g : TypeGraph} {options : Options}
    {s : ResolutionState} (wf : g.WellFormed) (hs : s.Sound g options)
    (hvisiting : s.memberGuard.visiting = []) {k : MemberId} (hk : s.recordOf k ≠ .empty) :
    ∃ t ty m, s.Done t ∧ g.type? t = some ty ∧ m ∈ g.membersOf ty ∧ m.Covers k := by
  obtain ⟨x, hx, hbegun⟩ := hs.records hk
  have hdone : s.Done x.declaringType := by
    rcases hbegun with hdone | hmem
    · exact hdone
    · rw [hvisiting] at hmem
      cases hmem
  cases hof : x.accessorOf with
  | none =>
    obtain ⟨ty, hty, hlisted⟩ := wf.declaringType hx
    exact ⟨_, ty, x, hdone, hty, List.mem_filterMap.2 ⟨k, hlisted hof, hx⟩,
      .inl (wf.member_id hx).symm⟩
  | some owner =>
    -- The type does not list the accessor, but its owner, which has no owner again.
    obtain ⟨m, slot, hm, hslot⟩ := wf.accessorOf hx hof
    obtain ⟨y, hy, htype, -⟩ := wf.accessor hm hslot
    obtain rfl := Option.some.inj (hx.symm.trans hy)
    obtain ⟨ty, hty, hlisted⟩ := wf.declaringType hm
    have hnone : m.accessorOf = none := by
      by_contra hsome
      obtain ⟨owner', howner⟩ := Option.ne_none_iff_exists'.1 hsome
      rw [MemberSymbol.accessor?_of_accessorOf howner] at hslot
      cases hslot
    exact ⟨_, ty, m, htype ▸ hdone, hty, List.mem_filterMap.2 ⟨owner, hlisted hnone, hm⟩,
      .inr (MemberSymbol.mem_accessors.2 ⟨slot, hslot⟩)⟩

/-- **Owner and accessor tables agree**: at the end of a resolution, every entry of a property or an
event `k` agrees with the entries of its accessors as methods, and every event that is used through
its accessors has both of them. -/
theorem accessor_tables_agree {g : TypeGraph} (hg : g.Built) {options : Options}
    {roots : List TypeId} {main : AssemblyId} {r : Resolution}
    (h : g.resolve options roots main = .ok r) :
    (∀ k x, r.properties.find? k = some x → ∃ m data, g.member? k = some m ∧
      m.kind = .property data ∧ m.PropertyAgrees r.recordOf x) ∧
    ∀ k x, r.events.find? k = some x → ∃ m adder remover, g.member? k = some m ∧
      m.kind = .event ⟨some adder, some remover⟩ ∧ m.EventAgrees r.recordOf x := by
  have wf := hg.wellFormed
  obtain ⟨s, rfl, hreached, hvisiting⟩ := reached_of_resolve wf h
  -- A record of a property or an event is that of a member, and not that of an accessor.
  have hagrees (k : MemberId) (hk : ¬(s.recordOf k).Plain) :
      ∃ m, g.member? k = some m ∧ m.id = k ∧ m.Agrees s.recordOf := by
    have hne : s.recordOf k ≠ .empty := fun hempty => hk (hempty ▸ MemberRecord.plain_empty)
    obtain ⟨t, ty, m, hdone, hty, hm, hcovers⟩ :=
      hreached.sound.exists_covering wf hvisiting hne
    have hagrees := agrees_of_done wf hreached hdone hty m hm
    rcases hcovers with rfl | haccessor
    · exact ⟨m, (TypeGraph.owns_of_mem_membersOf wf hty hm).1, rfl, hagrees⟩
    · exact absurd (hagrees.accessors k haccessor) hk
  constructor
  · intro k x hx
    obtain ⟨m, hm, rfl, hagrees⟩ := hagrees k fun h => nomatch h.property.symm.trans hx
    obtain ⟨⟨data, hkind⟩, hproperty⟩ := hagrees.property x hx
    exact ⟨m, data, hm, hkind, hproperty⟩
  · intro k x hx
    obtain ⟨m, hm, rfl, hagrees⟩ := hagrees k fun h => nomatch h.event.symm.trans hx
    obtain ⟨⟨⟨adder?, remover?⟩, hkind⟩, hevent⟩ := hagrees.event x hx
    obtain ⟨hadder, hremover⟩ := hg.isComplete m.id m hm _ hkind
    obtain ⟨adder, rfl⟩ := Option.isSome_iff_exists.1 hadder
    obtain ⟨remover, rfl⟩ := Option.isSome_iff_exists.1 hremover
    exact ⟨m, adder, remover, hm, hkind, hevent⟩

/-- A class with a property that is used through its accessors, one that has an alias, an indexer of
the script language, a property that is used as a field, one without a place in script, and two
events. -/
def counterClass : Except Fault TypeGraph := do
  let (g, zoo) := TypeGraph.declareAssembly ∅ "Zoo"
  let (g, counter) ← g.declareType zoo { name := "Counter" }
  let (g, _) ← g.declareProperty counter { name := "Value" }
  let (g, _) ← g.declareProperty counter
    { name := "Home", modifiers := { isStatic := true },
      attributes := [⟨"ScriptAlias", [.str "home"]⟩] }
  let (g, _) ← g.declareProperty counter
    { name := "Item", parameters := [⟨"index", "System.Int32"⟩], setter := none,
      attributes := [⟨"IntrinsicProperty", []⟩] }
  let (g, _) ← g.declareProperty counter
    { name := "Badge", attributes := [⟨"IntrinsicProperty", []⟩] }
  let (g, _) ← g.declareProperty counter
    { name := "Secret", attributes := [⟨"NonScriptable", []⟩] }
  let (g, _) ← g.declareEvent counter { name := "Changed" }
  let (g, _) ← g.declareEvent counter { name := "Audited", attributes := [⟨"NonScriptable", []⟩] }
  return g

/-- The graph of the class. -/
def counterGraph : TypeGraph := counterClass.toOption.getD ∅

theorem built_counterGraph : counterGraph.Built := by
  have hg : counterClass = .ok counterGraph := eq_ok_getD (by decide +kernel)
  obtain ⟨⟨g₁, counter⟩, hcounter, h⟩ := bind_eq_ok.1 hg
  obtain ⟨⟨g₂, _⟩, hvalue, h⟩ := bind_eq_ok.1 h
  obtain ⟨⟨g₃, _⟩, hhome, h⟩ := bind_eq_ok.1 h
  obtain ⟨⟨g₄, _⟩, hitem, h⟩ := bind_eq_ok.1 h
  obtain ⟨⟨g₅, _⟩, hbadge, h⟩ := bind_eq_ok.1 h
  obtain ⟨⟨g₆, _⟩, hsecret, h⟩ := bind_eq_ok.1 h
  obtain ⟨⟨g₇, _⟩, hchanged, h⟩ := bind_eq_ok.1 h
  obtain ⟨⟨g₈, _⟩, haudited, h⟩ := bind_eq_ok.1 h
  rw [← Except.ok.inj h]
  have hclass : g₁.Built := .type (.assembly .empty "Zoo") hcounter
  have hproperties : g₆.Built :=
    .property (.property (.property (.property (.property hclass hvalue) hhome) hitem) hbadge) hsecret
  exact .event (.event hproperties hchanged) haudited

/-- The members of the class are resolved in all these ways. -/
theorem counter_accessors_agree :
    counterGraph.Built ∧ ∃ r, counterGraph.resolve {} [⟨0⟩] ⟨0⟩ = .ok r ∧
      r.properties.find? ⟨0⟩ =
        some (.getAndSet (some (.normal "get_value")) (some (.normal "set_value"))) ∧
      r.properties.find? ⟨3⟩ =
        some (.getAndSet (some (.inlineCode "home")) (some (.inlineCode "home"))) ∧
      r.properties.find? ⟨6⟩ = some (.nativeIndexer true false) ∧
      r.properties.find? ⟨8⟩ = some (.field "badge") ∧
      r.properties.find? ⟨11⟩ = some .notUsable ∧
      r.events.find? ⟨14⟩ =
        some (.addAndRemove (some (.normal "add_changed")) (some (.normal "remove_changed"))) ∧
      r.events.find? ⟨17⟩ = some .notUsable ∧
      (∀ k x, r.properties.find? k = some x → ∃ m data, counterGraph.member? k = some m ∧
        m.kind = .property data ∧ m.PropertyAgrees r.recordOf x) ∧
      ∀ k x, r.events.find? k = some x → ∃ m adder remover, counterGraph.member? k = some m ∧
        m.kind = .event ⟨some adder, some remover⟩ ∧ m.EventAgrees r.recordOf x := by
  have hrun : (counterGraph.resolve {} [⟨0⟩] ⟨0⟩).toOption.any fun r =>
      r.properties.find? ⟨0⟩ =
        some (.getAndSet (some (.normal "get_value")) (some (.normal "set_value"))) ∧
      r.properties.find? ⟨3⟩ =
        some (.getAndSet (some (.inlineCode "home")) (some (.inlineCode "home"))) ∧
      r.properties.find? ⟨6⟩ = some (.nativeIndexer true false) ∧
      r.properties.find? ⟨8⟩ = some (.field "badge") ∧
      r.properties.find? ⟨11⟩ = some .notUsable ∧
      r.events.find? ⟨14⟩ =
        some (.addAndRemove (some (.normal "add_changed")) (some (.normal "remove_changed"))) ∧
      r.events.find? ⟨17⟩ = some .notUsable := by
    decide +kernel
  obtain ⟨r, hr, hrest⟩ := exists_of_any_toOption hrun
  obtain ⟨hvalue, hhome, hitem, hbadge, hsecret, hchanged, haudited⟩ := of_decide_eq_true hrest
  exact ⟨built_counterGraph, r, hr, hvalue, hhome, hitem, hbadge, hsecret, hchanged, haudited,
    accessor_tables_agree built_counterGraph hr⟩

end ScriptNaming
