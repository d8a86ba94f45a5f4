import ScriptNaming.Proofs.DocumentEntries

/-!
# The links of documents

A document can be linked exactly if all its references mean something at the place where they stand
(`GraphDocument.Linkable`), and then its graph is linked to what they mean
(`GraphDocument.Describes`). Since references only see what is declared before them, the graph has
no cycles: types are nested in earlier types and inherit from earlier types, and members are linked
to earlier members of their kind (`TypeGraph.Ordered`, `TypeGraph.Acyclic`). All of this is
`GraphDocument.link_exact`.
-/

namespace ScriptNaming

open TypeGraph

/-! ## Links that lead back -/

/-- An accessor is a method. -/
theorem MemberSymbol.entityKind_of_accessorOf {m : MemberSymbol}
    {owner : MemberId} (h : m.accessorOf = some owner) : m.entityKind = .method := by
  unfold MemberSymbol.accessorOf at h
  unfold MemberSymbol.entityKind
  split at h
  · rename_i hkind
    rw [hkind]
  · cases h

namespace TypeGraph

/-- The links of members of `g` lead to earlier members of their kind, own members are overrides
where they override something, and types are in assemblies of `g`. -/
structure LeadsBack (g : TypeGraph) : Prop where
  assembly_lt : ∀ ⦃t ty⦄, g.type? t = some ty → ty.assembly.index < g.assemblies.size
  link_lt : ∀ ⦃m x b⦄, g.member? m = some x → b ∈ x.links → b.index < m.index
  link_kind : ∀ ⦃m x b y⦄, g.member? m = some x → b ∈ x.links → g.member? b = some y →
    y.entityKind = x.entityKind
  isOverride : ∀ ⦃m x⦄, g.member? m = some x → x.accessorOf = none →
    x.isOverride = x.overridden.isSome

theorem LeadsBack.empty : (∅ : TypeGraph).LeadsBack where
  assembly_lt _ _ h := nomatch h
  link_lt _ _ _ h := nomatch h
  link_kind _ _ _ _ h := nomatch h
  isOverride _ _ h := nomatch h

/-- Types of `assemblies` may be added, and assemblies. -/
theorem LeadsBack.grow {g : TypeGraph} (h : g.LeadsBack) {assemblies : Array String}
    {types : Array TypeSymbol} (hsize : g.assemblies.size ≤ assemblies.size)
    (hnew : ∀ ty ∈ types, ty ∈ g.types ∨ ty.assembly.index < assemblies.size) :
    (⟨assemblies, types, g.members⟩ : TypeGraph).LeadsBack := by
  refine { h with assembly_lt := fun t ty ht => ?_ }
  rcases hnew ty (Array.mem_of_getElem? ht) with hold | hlt
  · obtain ⟨i, hi⟩ := Array.mem_iff_getElem?.1 hold
    exact Nat.lt_of_lt_of_le (h.assembly_lt (t := ⟨i⟩) hi) hsize
  · exact hlt

theorem Declares.leadsBack {g g' : TypeGraph} {t : TypeId} {m : MemberSymbol}
    {accessors : List MemberSymbol} (h : Declares g t m accessors g') (hg : g.LeadsBack)
    (linked : g.Linked)
    (hlinks : ∀ b ∈ m.links, ∃ y, g.member? b = some y ∧ y.entityKind = m.entityKind)
    (haccessors : LinksAccessors g m accessors) (hoverride : m.isOverride = m.overridden.isSome) :
    g'.LeadsBack := by
  -- The accessors are linked to accessors that are there already.
  have haccessor {i : Nat} {a : MemberSymbol} (hi : accessors[i]? = some a) {b : MemberId}
      (hb : b ∈ a.links) : ∃ y, g.member? b = some y ∧ y.entityKind = a.entityKind := by
    obtain ⟨c, hc, hslot⟩ := haccessors a (List.mem_of_getElem? hi) b hb
    obtain ⟨z, hz, -⟩ := hlinks c hc
    obtain ⟨slot, hb⟩ := hslot z hz
    obtain ⟨y, hy, -, hof⟩ := linked.accessor hz hb
    obtain ⟨-, -, hof', -⟩ := h.accessor i a hi
    refine ⟨y, hy, ?_⟩
    rw [MemberSymbol.entityKind_of_accessorOf hof, MemberSymbol.entityKind_of_accessorOf hof']
  constructor
  · intro u ty' hu
    obtain ⟨ty, hty, hcases⟩ := h.type?_cases hu
    have hlt := hg.assembly_lt hty
    rw [h.assemblies]
    obtain ⟨-, rfl⟩ | ⟨-, rfl⟩ := hcases <;> exact hlt
  · intro k x b hk hb
    obtain hk | ⟨rfl, rfl⟩ | ⟨i, hi, rfl⟩ := h.member?_cases hk
    · exact hg.link_lt hk hb
    · obtain ⟨y, hy, -⟩ := hlinks b hb
      rw [h.id]
      exact index_lt_of_member? hy
    · obtain ⟨y, hy, -⟩ := haccessor hi hb
      have hlt := index_lt_of_member? hy
      rw [(h.accessor i x hi).1]
      exact Nat.lt_of_lt_of_le hlt (by simp only; omega)
  · intro k x b y' hk hb hy'
    have hsame {y : MemberSymbol} (hy : g.member? b = some y) : y' = y :=
      Option.some.inj (hy'.symm.trans (h.member?_old hy))
    obtain hk | ⟨rfl, rfl⟩ | ⟨i, hi, rfl⟩ := h.member?_cases hk
    · obtain ⟨y, hy⟩ := linked.link_exists hk hb
      rw [hsame hy]
      exact hg.link_kind hk hb hy
    · obtain ⟨y, hy, hkind⟩ := hlinks b hb
      rw [hsame hy, hkind]
    · obtain ⟨y, hy, hkind⟩ := haccessor hi hb
      rw [hsame hy, hkind]
  · intro k x hk hof
    obtain hk | ⟨rfl, rfl⟩ | ⟨i, hi, rfl⟩ := h.member?_cases hk
    · exact hg.isOverride hk hof
    · exact hoverride
    · rw [(h.accessor i x hi).2.2.1] at hof
      cases hof

/-- The member `m` is linked to the member `b`. -/
def LinksMember (g : TypeGraph) (m b : MemberId) : Prop :=
  ∃ x, g.member? m = some x ∧ b ∈ x.links

/-- The references in `g` lead to what is in `g`: around a type and to what it inherits from, to
earlier types; along links, to earlier members of the same kind, whose types are no later. An own
member is an override exactly if it overrides something. -/
structure Ordered (g : TypeGraph) : Prop where
  assembly : ∀ ⦃t ty⦄, g.type? t = some ty → ty.assembly.index < g.assemblies.size
  declaringType : ∀ ⦃t ty u⦄, g.type? t = some ty → ty.declaringType = some u → u.index < t.index
  baseTypes : ∀ ⦃t ty b⦄, g.type? t = some ty → b ∈ ty.baseTypes → b.index < t.index
  members : ∀ ⦃t ty m⦄, g.type? t = some ty → m ∈ ty.members → ∃ x, g.member? m = some x
  declared : ∀ ⦃m x⦄, g.member? m = some x → ∃ ty, g.type? x.declaringType = some ty
  accessors : ∀ ⦃m x a⦄, g.member? m = some x → a ∈ x.accessors → ∃ y, g.member? a = some y
  accessorOf : ∀ ⦃a y m⦄, g.member? a = some y → y.accessorOf = some m → ∃ x, g.member? m = some x
  links : ∀ ⦃m x b⦄, g.member? m = some x → b ∈ x.links → ∃ y, g.member? b = some y ∧
    b.index < m.index ∧ y.declaringType.index ≤ x.declaringType.index ∧ y.entityKind = x.entityKind
  isOverride : ∀ ⦃m x⦄, g.member? m = some x → x.accessorOf = none →
    x.isOverride = x.overridden.isSome

/-- Nesting, inheritance and the links of members have no cycles in `g`. -/
structure Acyclic (g : TypeGraph) : Prop where
  nesting : ∀ t, ¬Relation.TransGen g.NestedIn t t
  inheritance : ∀ t, ¬g.Inherits t t
  links : ∀ m, ¬Relation.TransGen g.LinksMember m m

theorem LeadsBack.ordered {g : TypeGraph} (h : g.LeadsBack) (linked : g.Linked) : g.Ordered where
  assembly := h.assembly_lt
  declaringType := linked.outer_lt
  baseTypes _ ty _ hty hb := linked.base_lt ⟨ty, hty, hb⟩
  members _ _ _ hty hm := by
    obtain ⟨x, hx, -⟩ := linked.listed hty hm
    exact ⟨x, hx⟩
  declared _ _ hx := by
    obtain ⟨ty, hty, -⟩ := linked.declaringType hx
    exact ⟨ty, hty⟩
  accessors _ _ _ hx ha := by
    obtain ⟨slot, hslot⟩ := MemberSymbol.mem_accessors.1 ha
    obtain ⟨y, hy, -⟩ := linked.accessor hx hslot
    exact ⟨y, hy⟩
  accessorOf _ _ _ hy hof := by
    obtain ⟨x, -, hx, -⟩ := linked.accessorOf hy hof
    exact ⟨x, hx⟩
  links m x b hx hb := by
    obtain ⟨y, hy⟩ := linked.link_exists hx hb
    exact ⟨y, hy, h.link_lt hx hb, linked.link_le ⟨m, x, hx, rfl, b, hb, y, hy, rfl⟩,
      h.link_kind hx hb hy⟩
  isOverride := h.isOverride

/-- A relation `r` along which the numbers `index` go down has no cycles. -/
theorem not_transGen_self {α : Type} {r : α → α → Prop} (index : α → Nat)
    (hr : ∀ a b, r a b → index b < index a) (a : α) : ¬Relation.TransGen r a a := by
  have hlt {b c : α} (h : Relation.TransGen r b c) : index c < index b := by
    induction h with
    | single h => exact hr _ _ h
    | tail _ h ih => exact Nat.lt_trans (hr _ _ h) ih
  exact fun h => Nat.lt_irrefl _ (hlt h)

theorem Ordered.acyclic {g : TypeGraph} (h : g.Ordered) : g.Acyclic where
  nesting := not_transGen_self TypeId.index fun _ _ ⟨_, hty, hu⟩ => h.declaringType hty hu
  inheritance := not_transGen_self TypeId.index fun _ _ ⟨_, hty, hb⟩ => h.baseTypes hty hb
  links := not_transGen_self MemberId.index fun _ _ ⟨_, hx, hb⟩ => by
    obtain ⟨-, -, hlt, -⟩ := h.links hx hb
    exact hlt

end TypeGraph

/-! ## What references of a document mean -/

theorem TypeEntry.declare_headUpTo {e : TypeEntry} {k : Nat} {x : MemberEntry}
    (hx : e.members[k]? = some x) : (e.headUpTo k).declare x.head = e.headUpTo (k + 1) := by
  rw [headUpTo, headUpTo, List.take_add_one, hx, List.map_append]
  rfl

namespace GraphDocument

/-- What references in the entry of the type at `i` of `d` see: the types before it. -/
def scope (d : GraphDocument) (i : Nat) : Scope := (d.types.take i).map TypeEntry.head

/-- What references in the entry of the own member at `k` of the type `e` at `i` see: the types
before that, and the type itself with the own members before that one. -/
def scopeWithin (d : GraphDocument) (i : Nat) (e : TypeEntry) (k : Nat) : Scope :=
  d.scope i ++ [e.headUpTo k]

/-- All references of the document `d` mean something where they stand. -/
structure Linkable (d : GraphDocument) : Prop where
  types : ∀ ⦃i e⦄, d.types[i]? = some e → ∀ name ∈ e.declaringType.toList ++ e.baseTypes,
    ∃ t ∈ d.scope i, t.fullName = name
  members : ∀ ⦃i e k x⦄, d.types[i]? = some e → e.members[k]? = some x → ∀ r ∈ x.references,
    ∃ j l, (d.scopeWithin i e k).Means x.head.kind r j l

/-- The graph `g` has the types and members of the document `d`, linked to what their references
mean. -/
structure Describes (d : GraphDocument) (g : TypeGraph) : Prop where
  scope : g.scope = d.scope d.types.length
  types : ∀ ⦃i e⦄, d.types[i]? = some e →
    ∃ ty, g.type? ⟨i⟩ = some ty ∧ e.Describes (d.scope i) ty
  members : ∀ ⦃i e k x⦄, d.types[i]? = some e → e.members[k]? = some x →
    ∃ m y, g.ownMember? i k = some m ∧ g.member? m = some y ∧
      x.Describes (d.scopeWithin i e k) g y

theorem length_scope {d : GraphDocument} {i : Nat} {e : TypeEntry} (he : d.types[i]? = some e) :
    (d.scope i).length = i := by
  obtain ⟨hi, -⟩ := List.getElem?_eq_some_iff.1 he
  rw [scope, List.length_map, List.length_take_of_le (Nat.le_of_lt hi)]

theorem scope_succ {d : GraphDocument} {i : Nat} {e : TypeEntry} (he : d.types[i]? = some e) :
    d.scope (i + 1) = d.scopeWithin i e e.members.length := by
  rw [scope, List.take_add_one, he, List.map_append, scopeWithin, TypeEntry.headUpTo,
    List.take_length]
  rfl

theorem scopeWithin_zero (d : GraphDocument) (i : Nat) (e : TypeEntry) :
    d.scopeWithin i e 0 = d.scope i ++ [⟨e.fullName, []⟩] := rfl

theorem scopeWithin_succ {d : GraphDocument} {i k : Nat} {e : TypeEntry} {x : MemberEntry}
    (he : d.types[i]? = some e) (hx : e.members[k]? = some x) :
    (d.scopeWithin i e k).modify i (·.declare x.head) = d.scopeWithin i e (k + 1) := by
  have hmodify := modify_append_cons (·.declare x.head) (d.scope i) (e.headUpTo k) []
  rw [length_scope he] at hmodify
  rw [scopeWithin, hmodify, TypeEntry.declare_headUpTo hx, scopeWithin]

/-! ## Linking step by step -/

/-- A graph `g` that shows the scope `s` to references, with the types and members of the document
`d` so far, linked to what their references mean. -/
structure LinkedSoFar (d : GraphDocument) (s : Scope) (g : TypeGraph) : Prop where
  linked : g.Linked
  leadsBack : g.LeadsBack
  scope : g.scope = s
  types : ∀ ⦃i e ty⦄, d.types[i]? = some e → g.type? ⟨i⟩ = some ty → e.Describes (d.scope i) ty
  members : ∀ ⦃i e k x m y⦄, d.types[i]? = some e → e.members[k]? = some x →
    g.ownMember? i k = some m → g.member? m = some y → x.Describes (d.scopeWithin i e k) g y

end GraphDocument

/-- What the entry `x` links `m` to stays linked as own members are added. -/
theorem MemberEntry.Describes.mono {x : MemberEntry} {s : Scope} {g g' : TypeGraph}
    {m : MemberSymbol} (h : x.Describes s g m)
    (hold : ∀ j l k, g.ownMember? j l = some k → g'.ownMember? j l = some k) :
    x.Describes s g' m := by
  have hrefers (r : MemberReference) (k : MemberId) (hr : g.Refers s x.head.kind r k) :
      g'.Refers s x.head.kind r k := by
    obtain ⟨j, l, hmeans, hk⟩ := hr
    exact ⟨j, l, hmeans, hold j l k hk⟩
  exact ⟨h.head, rel_imp h.overridden hrefers, h.implements.imp hrefers, h.isOverride⟩

namespace GraphDocument

variable {d : GraphDocument} {s : Scope} {g g' : TypeGraph}

theorem LinkedSoFar.empty (d : GraphDocument) : d.LinkedSoFar (d.scope 0) ∅ where
  linked := .empty
  leadsBack := .empty
  scope := rfl
  types _ _ _ _ h := nomatch h
  members _ _ _ _ _ _ _ _ _ h := nomatch h

theorem LinkedSoFar.declareAssembly (h : d.LinkedSoFar s g) (name : String) :
    d.LinkedSoFar s (g.declareAssembly name).1 := by
  obtain ⟨htypes, hmembers⟩ := g.declareAssembly_eq name
  obtain ⟨-, hsize⟩ := g.declareAssembly_lt name
  generalize (g.declareAssembly name).1 = g' at htypes hmembers hsize
  have linked := h.linked.of_eq htypes hmembers
  obtain ⟨assemblies, types, members⟩ := g'
  subst htypes hmembers
  refine ⟨linked, h.leadsBack.grow hsize fun _ => .inl, h.scope, h.types, ?_⟩
  exact fun i e k x m y he hx hm hy => (h.members he hx hm hy).mono fun _ _ _ hk => hk

theorem LinkedSoFar.type_lt (h : d.LinkedSoFar s g) {t : TypeId} {ty : TypeSymbol}
    (ht : g.type? t = some ty) : t.index < s.length := by
  rw [← h.scope, g.length_scope]
  exact index_lt_of_type? ht

end GraphDocument

/-- Declaring the type of an entry `e` keeps the graph in layers. -/
theorem TypeEntry.linked_of_declare {e : TypeEntry} {g g' : TypeGraph} {t : TypeId} (hg : g.Linked)
    (h : e.declare g = .ok (g', t)) : g'.Linked := by
  unfold TypeEntry.declare at h
  obtain ⟨htypes, hmembers⟩ := g.declareAssembly_eq e.assembly
  generalize g.declareAssembly e.assembly = declared at h htypes hmembers
  obtain ⟨g₀, assembly⟩ := declared
  have hg₀ := hg.of_eq htypes hmembers
  obtain ⟨declaringType, -, h⟩ := bind_eq_ok.1 h
  obtain ⟨baseTypes, hbases, h⟩ := bind_eq_ok.1 h
  refine (hg₀.declareType (fun b hb => ?_) (mapError_eq_ok.1 h)).1
  obtain ⟨name, -, hname⟩ := exists_of_mem_mapM hbases hb
  exact type?_of_linkType hg₀.toWellFormed hname

namespace GraphDocument

variable {d : GraphDocument} {s : Scope} {g g' : TypeGraph} {n c : Nat} {e : TypeEntry}

/-- The next type is declared without own members, and sees the types before it. -/
theorem LinkedSoFar.declare (h : d.LinkedSoFar (d.scope n) g) (he : d.types[n]? = some e)
    {t : TypeId} (hdeclare : e.declare g = .ok (g', t)) :
    t = ⟨n⟩ ∧ d.LinkedSoFar (d.scopeWithin n e 0) g' := by
  have linked := TypeEntry.linked_of_declare h.linked hdeclare
  obtain ⟨assemblies, ty, rfl, rfl, hsize, hassembly, hname, hmembers, hdescribes⟩ :=
    TypeEntry.push_of_declare h.linked.toWellFormed hdeclare
  have hplace : g.types.size = n := by rw [← g.length_scope, h.scope, length_scope he]
  refine ⟨congrArg TypeId.mk hplace, linked, h.leadsBack.grow hsize fun ty' hty' => ?_, ?_, ?_, ?_⟩
  · rcases Array.mem_push.1 hty' with hold | rfl
    · exact .inl hold
    · exact .inr hassembly
  · rw [scopeWithin_zero, ← h.scope, ← hname]
    exact g.scope_push hmembers assemblies
  · intro i e' ty' he' hty'
    obtain hty' | ⟨hi, rfl⟩ := type?_push_cases hty'
    · exact h.types he' hty'
    · obtain rfl : i = n := (congrArg TypeId.index hi).trans hplace
      obtain rfl := Option.some.inj (he.symm.trans he')
      exact h.scope ▸ hdescribes
  · intro i e' k x m y he' hx hm hy
    rw [g.ownMember?_push hmembers] at hm
    exact (h.members he' hx hm hy).mono fun j l k hk => by rw [g.ownMember?_push hmembers, hk]

/-- The type in progress has as many own members as are linked. -/
theorem LinkedSoFar.length_members (h : d.LinkedSoFar (d.scopeWithin n e c) g)
    (he : d.types[n]? = some e) {x : MemberEntry} (hx : e.members[c]? = some x) {ty : TypeSymbol}
    (hty : g.type? ⟨n⟩ = some ty) : ty.members.length = c := by
  have hhead : g.typeHead ty = e.headUpTo c := by
    have hplace := g.getElem?_scope n
    rw [h.scope, hty, Option.map_some, scopeWithin,
      List.getElem?_append_right (Nat.le_of_eq (length_scope he)), length_scope he,
      Nat.sub_self] at hplace
    exact (Option.some.inj hplace).symm
  obtain ⟨hc, -⟩ := List.getElem?_eq_some_iff.1 hx
  have hlength := congrArg (fun t : TypeHead => t.members.length) hhead
  rw [TypeEntry.headUpTo, typeHead, List.length_map, List.length_map,
    List.length_take_of_le (Nat.le_of_lt hc), h.linked.length_membersOf hty] at hlength
  exact hlength

/-- The next own member `x` of the type `e` in progress is added, and sees what is declared before
it. -/
theorem LinkedSoFar.linkMember (h : d.LinkedSoFar (d.scopeWithin n e c) g)
    (he : d.types[n]? = some e) {x : MemberEntry} (hx : e.members[c]? = some x) {place : String}
    (hlink : x.link place ⟨n⟩ g = .ok g') : d.LinkedSoFar (d.scopeWithin n e (c + 1)) g' := by
  have wf := h.linked.toWellFormed
  obtain ⟨m, accessors, hm, haccessors, hdescribes⟩ := MemberEntry.declares_of_link wf hlink
  have hlinks : ∀ b ∈ m.links, ∃ y, g.member? b = some y ∧ y.entityKind = m.entityKind := by
    intro b hb
    obtain ⟨r, -, hr⟩ := exists_of_mem_right hdescribes.links hb
    obtain ⟨y, hy, hkind⟩ := hr.exists_member wf
    exact ⟨y, hy, hkind.trans (congrArg MemberHead.kind hdescribes.head).symm⟩
  have hlatest : g.IsLatest ⟨n⟩ := by
    intro u ty hu
    have hlt := h.type_lt hu
    rw [scopeWithin, List.length_append, length_scope he, List.length_singleton] at hlt
    exact Nat.le_of_lt_succ hlt
  have hlinked : g'.Linked := hm.linked h.linked hlatest (fun b hb => by
    obtain ⟨y, hy, -⟩ := hlinks b hb
    exact ⟨y, hy⟩) haccessors
  have hback := hm.leadsBack h.leadsBack h.linked hlinks haccessors hdescribes.isOverride
  refine ⟨hlinked, hback, ?_, ?_, ?_⟩
  · rw [hm.scope wf, h.scope, hdescribes.head, scopeWithin_succ he hx]
  · intro i e' ty' he' hty'
    obtain ⟨ty, hty, ⟨-, rfl⟩ | ⟨-, rfl⟩⟩ := hm.type?_cases hty'
    · have hold := h.types he' hty
      exact ⟨hold.declaringType, hold.baseTypes⟩
    · exact h.types he' hty
  · intro i e' k x' m' y he' hx' hm' hy
    refine MemberEntry.Describes.mono ?_ fun _ _ _ => hm.ownMember?_old
    obtain hold | ⟨rfl, rfl, ty, hty, hk⟩ := hm.ownMember?_cases hm'
    · obtain ⟨ty, hty, hlist⟩ := Option.bind_eq_some_iff.1 hold
      obtain ⟨y', hy', -⟩ := wf.listed hty (List.mem_of_getElem? hlist)
      obtain rfl := Option.some.inj (hy.symm.trans (hm.member?_old hy'))
      exact h.members he' hx' hold hy'
    · obtain rfl := Option.some.inj (he.symm.trans he')
      obtain rfl : k = c := hk.trans (h.length_members he hx hty)
      obtain rfl := Option.some.inj (hx.symm.trans hx')
      obtain rfl := Option.some.inj (hy.symm.trans hm.member?_self)
      exact h.scope ▸ hdescribes

/-- After its own members, the type is done. -/
theorem LinkedSoFar.linkType (h : d.LinkedSoFar (d.scope n) g) (he : d.types[n]? = some e)
    (hlink : e.link g = .ok g') : d.LinkedSoFar (d.scope (n + 1)) g' := by
  rw [TypeEntry.link_eq] at hlink
  obtain ⟨⟨g₁, t⟩, hdeclare, hmembers⟩ := bind_eq_ok.1 hlink
  obtain ⟨rfl, hbegin⟩ := h.declare he hdeclare
  rw [scope_succ he]
  exact foldlM_places (I := fun c g => d.LinkedSoFar (d.scopeWithin n e c) g)
    (fun c x g₀ g₁ hx hg hl => hg.linkMember he hx hl) hbegin hmembers

/-- The type in progress is there. -/
theorem LinkedSoFar.exists_type (h : d.LinkedSoFar (d.scopeWithin n e c) g)
    (he : d.types[n]? = some e) : ∃ ty, g.type? ⟨n⟩ = some ty := by
  have hsize : g.types.size = n + 1 := by
    rw [← g.length_scope, h.scope, scopeWithin, List.length_append, length_scope he,
      List.length_singleton]
  exact ⟨_, Array.getElem?_eq_getElem (by rw [hsize]; exact Nat.lt_succ_self n)⟩

/-! ## Documents that can be linked -/

/-- The next type of a document whose references mean something can be linked. -/
theorem LinkedSoFar.exists_linkType (h : d.LinkedSoFar (d.scope n) g) (hd : d.Linkable)
    (he : d.types[n]? = some e) : ∃ g', e.link g = .ok g' := by
  have hnames : ∀ name ∈ e.declaringType.toList ++ e.baseTypes, ∃ j, g.scope.Names name j := by
    intro name hname
    obtain ⟨t, ht, hfull⟩ := hd.types he name hname
    exact h.scope ▸ Scope.exists_names ht hfull
  obtain ⟨⟨g₁, t⟩, hdeclare⟩ := TypeEntry.exists_declare h.linked.toWellFormed hnames
  obtain ⟨rfl, hbegin⟩ := h.declare he hdeclare
  rw [TypeEntry.link_eq]
  refine exists_bind_of_ok hdeclare (exists_foldlM
    (I := fun c g => d.LinkedSoFar (d.scopeWithin n e c) g) (fun c x g₀ hx hg => ?_) hbegin)
  obtain ⟨ty, hty⟩ := hg.exists_type he
  obtain ⟨g₂, hlink⟩ := x.exists_link hg.linked.toWellFormed hty e.place
    fun r hr => hg.scope ▸ hd.members he hx r hr
  exact ⟨g₂, hlink, hg.linkMember he hx hlink⟩

theorem LinkedSoFar.declareAssemblies (names : List String) (h : d.LinkedSoFar s g) :
    d.LinkedSoFar s (names.foldl (fun g name => (g.declareAssembly name).1) g) := by
  induction names generalizing g with
  | nil => exact h
  | cons name names ih => exact ih (h.declareAssembly name)

theorem linkedSoFar_of_link (h : d.link = .ok g) : d.LinkedSoFar (d.scope d.types.length) g :=
  foldlM_places (I := fun n g => d.LinkedSoFar (d.scope n) g)
    (fun _ _ _ _ he hg hlink => hg.linkType he hlink)
    ((LinkedSoFar.empty d).declareAssemblies d.assemblies) h

theorem exists_link (hd : d.Linkable) : ∃ g, d.link = .ok g :=
  exists_foldlM (I := fun n g => d.LinkedSoFar (d.scope n) g)
    (fun _ _ _ he hg => by
      obtain ⟨g', hlink⟩ := hg.exists_linkType hd he
      exact ⟨g', hlink, hg.linkType he hlink⟩)
    ((LinkedSoFar.empty d).declareAssemblies d.assemblies)

/-- At the end, all types and members of `d` are there. -/
theorem LinkedSoFar.describes (h : d.LinkedSoFar (d.scope d.types.length) g) : d.Describes g := by
  have htype {i : Nat} {e : TypeEntry} (he : d.types[i]? = some e) :
      ∃ ty, g.type? ⟨i⟩ = some ty ∧ g.typeHead ty = e.head := by
    have hplace := g.getElem?_scope i
    rw [h.scope, GraphDocument.scope, List.take_length, List.getElem?_map, he,
      Option.map_some] at hplace
    exact Option.map_eq_some_iff.1 hplace.symm
  refine ⟨h.scope, fun i e he => ?_, fun i e k x he hx => ?_⟩
  · obtain ⟨ty, hty, -⟩ := htype he
    exact ⟨ty, hty, h.types he hty⟩
  · obtain ⟨ty, hty, hhead⟩ := htype he
    have hk : k < ty.members.length := by
      obtain ⟨hk, -⟩ := List.getElem?_eq_some_iff.1 hx
      have hlength := congrArg (fun t : TypeHead => t.members.length) hhead
      rw [typeHead, TypeEntry.head, List.length_map, List.length_map,
        h.linked.length_membersOf hty] at hlength
      exact hlength ▸ hk
    have hown : g.ownMember? i k = some ty.members[k] := by
      rw [ownMember?, hty, Option.bind_some, List.getElem?_eq_getElem hk]
    obtain ⟨y, hy, -⟩ := h.linked.listed hty (List.getElem_mem hk)
    exact ⟨_, y, hown, hy, h.members he hx hown hy⟩

/-- The references of `d` mean something if it has been linked. -/
theorem Describes.linkable (h : d.Describes g) : d.Linkable where
  types i e he name hname := by
    obtain ⟨ty, -, hdescribes⟩ := h.types he
    obtain ⟨u, -, hnames⟩ := exists_of_mem_left hdescribes.types hname
    obtain ⟨t, ht, hfull⟩ := hnames.named
    exact ⟨t, List.mem_of_getElem? ht, hfull⟩
  members i e k x he hx r hr := by
    obtain ⟨m, y, -, -, hdescribes⟩ := h.members he hx
    obtain ⟨b, -, j, l, hmeans, -⟩ := exists_of_mem_left hdescribes.links hr
    exact ⟨j, l, hmeans⟩

/-- **Linking is exact and acyclic**: `d` can be linked exactly if all its references mean something
where they stand. Its graph is linked to what they mean, and has no cycles, since all references in
it lead back. -/
theorem link_exact (d : GraphDocument) : ((∃ g, d.link = .ok g) ↔ d.Linkable) ∧
    ∀ g, d.link = .ok g → d.Describes g ∧ g.Ordered ∧ g.Acyclic := by
  have hsound (g : TypeGraph) (h : d.link = .ok g) : d.Describes g ∧ g.Ordered ∧ g.Acyclic := by
    have hg := linkedSoFar_of_link h
    have hordered := hg.leadsBack.ordered hg.linked
    exact ⟨hg.describes, hordered, hordered.acyclic⟩
  refine ⟨⟨?_, exists_link⟩, hsound⟩
  rintro ⟨g, h⟩
  exact (hsound g h).1.linkable

theorem animals_link_exact : animals.Linkable ∧ animals.link = .ok animalGraph ∧
    animals.Describes animalGraph ∧ animalGraph.Ordered ∧ animalGraph.Acyclic := by
  obtain ⟨hlinkable, hexact⟩ := link_exact animals
  exact ⟨hlinkable.1 ⟨animalGraph, link_animals⟩, link_animals, hexact animalGraph link_animals⟩

end GraphDocument

end ScriptNaming
