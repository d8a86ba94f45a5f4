import ScriptNaming.Proofs.DocumentLinks

/-!
# Type names in references

Several types of a document may have the same full name, because full names show neither type
parameters nor where a namespace ends and nesting begins. Such a name is no error in a reference: it
is linked to the latest of the types before it, and so to the only one exactly if no earlier type
has the name (`GraphDocument.type_reference_exact_iff`).
-/

namespace ScriptNaming

open TypeGraph

/-! ## The types that have a name -/

namespace Scope

variable {s : Scope} {fullName : String} {j k : Nat}

/-- The type at `j` has the full name. -/
def Has (s : Scope) (fullName : String) (j : Nat) : Prop :=
  ∃ t, s[j]? = some t ∧ t.fullName = fullName

theorem Names.le (h : s.Names fullName j) (hk : s.Has fullName k) : k ≤ j := by
  obtain ⟨t, ht, hname⟩ := hk
  exact h.latest k t ht hname

theorem Names.unique (h : s.Names fullName j) (hk : s.Names fullName k) : k = j :=
  Nat.le_antisymm (h.le hk.named) (hk.le h.named)

/-- What `fullName` means is the only type that has it exactly if no earlier type does. -/
theorem Names.existsUnique_iff (h : s.Names fullName j) :
    (∃! k, s.Has fullName k) ↔ ∀ k < j, ¬s.Has fullName k := by
  constructor
  · intro hunique k hlt hk
    exact Nat.ne_of_lt hlt (hunique.unique hk h.named)
  · refine fun hnone => ⟨j, h.named, fun k hk => ?_⟩
    exact (Nat.lt_or_eq_of_le (h.le hk)).resolve_left fun hlt => hnone k hlt hk

end Scope

/-! ## References -/

namespace GraphDocument

variable {d : GraphDocument} {g : TypeGraph} {s : Scope} {name : String} {t : TypeId}

/-- A reference of the document, which sees the scope, names a type: the one around a type or one
that it inherits from, or the type of a member that is overridden or implemented. -/
inductive RefersToType (d : GraphDocument) : Scope → String → Prop
  | type {i : Nat} {e : TypeEntry} {name : String} (entry : d.types[i]? = some e)
    (mem : name ∈ e.declaringType.toList ++ e.baseTypes) : RefersToType d (d.scope i) name
  | member {i c : Nat} {e : TypeEntry} {x : MemberEntry} {r : MemberReference}
    (entry : d.types[i]? = some e) (memberEntry : e.members[c]? = some x)
    (mem : r ∈ x.references) : RefersToType d (d.scopeWithin i e c) r.typeName

/-- In the graph, a reference of the document that sees the scope and names a type is linked to the
type `t`, or to a member of that type. -/
inductive LinksType (d : GraphDocument) (g : TypeGraph) : Scope → String → TypeId → Prop
  | type {i k : Nat} {e : TypeEntry} {ty : TypeSymbol} {name : String} {t : TypeId}
    (entry : d.types[i]? = some e) (found : g.type? ⟨i⟩ = some ty)
    (named : (e.declaringType.toList ++ e.baseTypes)[k]? = some name)
    (linked : (ty.declaringType.toList ++ ty.baseTypes)[k]? = some t) :
    LinksType d g (d.scope i) name t
  | member {i c k : Nat} {e : TypeEntry} {x : MemberEntry} {r : MemberReference} {m b : MemberId}
    {y z : MemberSymbol} (entry : d.types[i]? = some e) (memberEntry : e.members[c]? = some x)
    (own : g.ownMember? i c = some m) (found : g.member? m = some y)
    (named : x.references[k]? = some r) (linked : y.links[k]? = some b)
    (target : g.member? b = some z) :
    LinksType d g (d.scopeWithin i e c) r.typeName z.declaringType

/-- The type of a member `b` that a reference `r` means is what its type name means. -/
theorem names_of_refers (wf : g.WellFormed) {kind : EntityKind} {r : MemberReference}
    {b : MemberId} (h : g.Refers s kind r b) :
    ∃ z, g.member? b = some z ∧ s.Names r.typeName z.declaringType.index := by
  obtain ⟨j, l, hmeans, hb⟩ := h
  obtain ⟨ty, hty, hlist⟩ := Option.bind_eq_some_iff.1 hb
  obtain ⟨z, hz, htype, -⟩ := wf.listed hty (List.mem_of_getElem? hlist)
  exact ⟨z, hz, htype ▸ hmeans.type⟩

/-- Every reference to a type by a `name` is linked. -/
theorem Describes.exists_linksType (h : d.Describes g) (wf : g.WellFormed)
    (hname : d.RefersToType s name) : ∃ t, d.LinksType g s name t := by
  cases hname with
  | type entry mem =>
    obtain ⟨k, hk⟩ := List.mem_iff_getElem?.1 mem
    obtain ⟨ty, hty, hdescribes⟩ := h.types entry
    obtain ⟨t, ht, -⟩ := exists_of_getElem?_left hdescribes.types hk
    exact ⟨t, .type entry hty hk ht⟩
  | member entry memberEntry mem =>
    obtain ⟨k, hk⟩ := List.mem_iff_getElem?.1 mem
    obtain ⟨m, y, hm, hy, hdescribes⟩ := h.members entry memberEntry
    obtain ⟨b, hb, hrefers⟩ := exists_of_getElem?_left hdescribes.links hk
    obtain ⟨z, hz, -⟩ := names_of_refers wf hrefers
    exact ⟨z.declaringType, .member entry memberEntry hm hy hk hb hz⟩

/-- The type `t` that a reference is linked to is what its type name means. -/
theorem Describes.names_of_linksType (h : d.Describes g) (wf : g.WellFormed)
    (hlinks : d.LinksType g s name t) : s.Names name t.index := by
  cases hlinks with
  | type entry found named linked =>
    obtain ⟨ty, hty, hdescribes⟩ := h.types entry
    obtain rfl := Option.some.inj (found.symm.trans hty)
    obtain ⟨u, hu, hnames⟩ := exists_of_getElem?_left hdescribes.types named
    exact Option.some.inj (linked.symm.trans hu) ▸ hnames
  | member entry memberEntry own found named linked target =>
    obtain ⟨m, y, hm, hy, hdescribes⟩ := h.members entry memberEntry
    obtain rfl := Option.some.inj (own.symm.trans hm)
    obtain rfl := Option.some.inj (found.symm.trans hy)
    obtain ⟨b, hb, hrefers⟩ := exists_of_getElem?_left hdescribes.links named
    obtain rfl := Option.some.inj (linked.symm.trans hb)
    obtain ⟨z, hz, hnames⟩ := names_of_refers wf hrefers
    exact Option.some.inj (target.symm.trans hz) ▸ hnames

/-- **Type names in references**: in a document `d` that can be linked, every reference to a type by
a `name` is linked to one type, the latest with its name among those that it sees. Other types may
have the name too: it is that of exactly one type if and only if no earlier type has it. -/
theorem type_reference_exact_iff (h : d.link = .ok g) (hname : d.RefersToType s name) :
    ∃ t, (∀ u, d.LinksType g s name u ↔ u = t) ∧ s.Names name t.index ∧
      ((∃! j, s.Has name j) ↔ ∀ j < t.index, ¬s.Has name j) := by
  have hlinked := linkedSoFar_of_link h
  have wf := hlinked.linked.toWellFormed
  obtain ⟨t, ht⟩ := hlinked.describes.exists_linksType wf hname
  have hnames := hlinked.describes.names_of_linksType wf ht
  refine ⟨t, fun u => ⟨fun hu => ?_, fun hu => hu ▸ ht⟩, hnames, hnames.existsUnique_iff⟩
  exact congrArg TypeId.mk (hnames.unique (hlinked.describes.names_of_linksType wf hu))

/-- Two classes that differ in their type parameters only, and one that inherits from either of
them. -/
def boxes : GraphDocument where
  assemblies := []
  types := [
    exampleClassEntry "Box" [] [] [],
    { exampleClassEntry "Box" [] [] [] with typeParameters := ["T"] },
    exampleClassEntry "Crate" ["Zoo.Box"] [] []]

/-- The graph of the boxes. -/
def boxGraph : TypeGraph := boxes.link.toOption.getD ∅

theorem link_boxes : boxes.link = .ok boxGraph :=
  eq_ok_getD (by decide +kernel)

theorem boxes_refersToType : boxes.RefersToType (boxes.scope 2) "Zoo.Box" :=
  .type (i := 2) rfl (.head _)

theorem boxes_linksType : boxes.LinksType boxGraph (boxes.scope 2) "Zoo.Box" ⟨1⟩ := by
  have hbase : (boxGraph.type? ⟨2⟩).any fun ty =>
      (ty.declaringType.toList ++ ty.baseTypes)[0]? = some ⟨1⟩ := by
    decide +kernel
  obtain ⟨ty, hty, hbase⟩ := (Option.any_eq_true _ _).1 hbase
  exact .type (i := 2) (k := 0) rfl hty rfl (of_decide_eq_true hbase)

/-- The crate inherits from the second of the two classes, which is not the only one with the
name. -/
theorem boxes_reference_exact_iff : boxes.link = .ok boxGraph ∧
    boxes.RefersToType (boxes.scope 2) "Zoo.Box" ∧
    (∀ u, boxes.LinksType boxGraph (boxes.scope 2) "Zoo.Box" u ↔ u = ⟨1⟩) ∧
    ((∃! j, (boxes.scope 2).Has "Zoo.Box" j) ↔ ∀ j < 1, ¬(boxes.scope 2).Has "Zoo.Box" j) := by
  obtain ⟨t, hlinks, -, hexact⟩ := type_reference_exact_iff link_boxes boxes_refersToType
  obtain rfl := (hlinks ⟨1⟩).1 boxes_linksType
  exact ⟨link_boxes, boxes_refersToType, hlinks, hexact⟩

/-- The document is linked although either of two types may be meant. -/
theorem type_reference_ambiguous : boxes.link = .ok boxGraph ∧
    boxes.RefersToType (boxes.scope 2) "Zoo.Box" ∧
    boxes.LinksType boxGraph (boxes.scope 2) "Zoo.Box" ⟨1⟩ ∧
    ¬∃! j, (boxes.scope 2).Has "Zoo.Box" j := by
  have hfirst : (boxes.scope 2).Has "Zoo.Box" 0 := ⟨_, rfl, rfl⟩
  have hsecond : (boxes.scope 2).Has "Zoo.Box" 1 := ⟨_, rfl, rfl⟩
  exact ⟨link_boxes, boxes_refersToType, boxes_linksType,
    fun hunique => Nat.zero_ne_one (hunique.unique hfirst hsecond)⟩

end GraphDocument

end ScriptNaming
