import ScriptNaming.Graph.Declaration
import ScriptNaming.Proofs.Outcome
import Mathlib.Data.List.Basic

/-!
# Well-formed graphs

Declarations lead to graphs whose references fit together (`TypeGraph.WellFormed`): types and
members stand at their numbers, a type lists its own members, and accessors and their owners know
each other. Every declaration keeps this, and members are declared in one way whatever their kind
is: the member is appended with its accessors, and its type lists it (`TypeGraph.Declares`).
-/

namespace ScriptNaming

/-- An accessor is a method, and so has no accessors itself. -/
theorem MemberSymbol.accessor?_of_accessorOf {m : MemberSymbol} {owner : MemberId}
    (h : m.accessorOf = some owner) (slot : AccessorSlot) : m.accessor? slot = none := by
  unfold accessorOf at h
  split at h
  · rename_i hkind
    simp only [accessor?, hkind]
  · cases h

theorem MemberSymbol.mem_accessors {m : MemberSymbol} {a : MemberId} :
    a ∈ m.accessors ↔ ∃ slot, m.accessor? slot = some a := by
  rw [accessors, List.mem_filterMap]
  refine exists_congr fun slot => and_iff_right ?_
  cases slot <;> decide

/-- The member `m` covers itself and its accessors. -/
def MemberSymbol.Covers (m : MemberSymbol) (k : MemberId) : Prop := k = m.id ∨ k ∈ m.accessors

/-- The members `m` and `m'` cover nothing in common. -/
def MemberSymbol.Apart (m m' : MemberSymbol) : Prop := ∀ k, m'.Covers k → ¬m.Covers k

/-- If the member `m` is an event, it has both accessors. -/
def MemberSymbol.IsComplete (m : MemberSymbol) : Prop :=
  ∀ data, m.kind = .event data → data.adder.isSome ∧ data.remover.isSome

/-- An accessor is no event. -/
theorem MemberSymbol.IsComplete.of_accessorOf {m : MemberSymbol} {owner : MemberId}
    (h : m.accessorOf = some owner) : m.IsComplete := by
  intro data hkind
  unfold accessorOf at h
  rw [hkind] at h
  cases h

/-- The members that `m` overrides or implements. -/
def MemberSymbol.links (m : MemberSymbol) : List MemberId := m.overridden.toList ++ m.implements

theorem MemberSymbol.mem_links {m : MemberSymbol} {b : MemberId} :
    b ∈ m.links ↔ m.overridden = some b ∨ b ∈ m.implements := by
  rw [links, List.mem_append, Option.mem_toList]

/-- What references tell a member by, and whether it is an override. -/
structure MemberSymbol.IsDeclared (m : MemberSymbol) (kind : EntityKind) (name : String)
    (isOverride : Bool) (parameters : List Parameter) : Prop where
  entityKind : m.entityKind = kind
  name : m.name = name
  isOverride : m.isOverride = isOverride
  parameters : m.parameters = parameters

/-- The parameters of an accessor after those of its owner, with `typeName` for the type of the
value that is read and written. -/
def AccessorSlot.valueParameters (typeName : String) : AccessorSlot → List Parameter
  | .getter => []
  | .setter | .adder | .remover => [⟨"value", typeName⟩]

namespace TypeGraph

/-- A graph in which the references between types, members and accessors fit together. -/
structure WellFormed (g : TypeGraph) : Prop where
  type_id : ∀ ⦃t ty⦄, g.type? t = some ty → ty.id = t
  member_id : ∀ ⦃m x⦄, g.member? m = some x → x.id = m
  /-- Types come after the types around them. -/
  outer_lt : ∀ ⦃t ty u⦄, g.type? t = some ty → ty.declaringType = some u → u.index < t.index
  /-- A type lists members of its own, without accessors. -/
  listed : ∀ ⦃t ty m⦄, g.type? t = some ty → m ∈ ty.members →
    ∃ x, g.member? m = some x ∧ x.declaringType = t ∧ x.accessorOf = none
  ascending : ∀ ⦃t ty⦄, g.type? t = some ty → ty.members.Pairwise fun a b => a.index < b.index
  /-- Every member has a type, which lists it unless it is an accessor. -/
  declaringType : ∀ ⦃m x⦄, g.member? m = some x →
    ∃ ty, g.type? x.declaringType = some ty ∧ (x.accessorOf = none → m ∈ ty.members)
  accessor : ∀ ⦃m x slot a⦄, g.member? m = some x → x.accessor? slot = some a →
    ∃ y, g.member? a = some y ∧ y.declaringType = x.declaringType ∧ y.accessorOf = some m
  accessorOf : ∀ ⦃a y m⦄, g.member? a = some y → y.accessorOf = some m →
    ∃ x slot, g.member? m = some x ∧ x.accessor? slot = some a
  /-- No accessor has two places. -/
  slot_unique : ∀ ⦃m x slot slot' a⦄, g.member? m = some x → x.accessor? slot = some a →
    x.accessor? slot' = some a → slot = slot'

/-! ## Declared members -/

/-- `g'` is `g` with the member `m` of the type `t` and its accessors declared. -/
structure Declares (g : TypeGraph) (t : TypeId) (m : MemberSymbol) (accessors : List MemberSymbol)
    (g' : TypeGraph) : Prop where
  assemblies : g'.assemblies = g.assemblies
  type?_eq : ∀ u, g'.type? u =
    if u = t then (g.type? t).map fun ty => { ty with members := ty.members ++ [m.id] }
    else g.type? u
  member?_eq : ∀ k, g'.member? k =
    if k.index < g.members.size then g.member? k else (m :: accessors)[k.index - g.members.size]?
  type : ∃ ty, g.type? t = some ty
  id : m.id = ⟨g.members.size⟩
  declaringType : m.declaringType = t
  accessorOf : m.accessorOf = none
  accessor : ∀ (i : Nat) (y : MemberSymbol), accessors[i]? = some y →
    y.id = ⟨g.members.size + 1 + i⟩ ∧ y.declaringType = t ∧ y.accessorOf = some m.id ∧
      ∃ slot, m.accessor? slot = some y.id
  slot : ∀ slot a, m.accessor? slot = some a →
    ∃ (i : Nat) (y : MemberSymbol), accessors[i]? = some y ∧ y.id = a
  slot_unique : ∀ slot slot' a, m.accessor? slot = some a → m.accessor? slot' = some a →
    slot = slot'

theorem index_lt_of_member? {g : TypeGraph} {m : MemberId} {x : MemberSymbol}
    (h : g.member? m = some x) : m.index < g.members.size := by
  obtain ⟨hlt, -⟩ := Array.getElem?_eq_some_iff.1 h
  exact hlt

theorem index_lt_of_type? {g : TypeGraph} {t : TypeId} {ty : TypeSymbol}
    (h : g.type? t = some ty) : t.index < g.types.size := by
  obtain ⟨hlt, -⟩ := Array.getElem?_eq_some_iff.1 h
  exact hlt

namespace Declares

variable {g g' : TypeGraph} {t : TypeId} {m : MemberSymbol} {accessors : List MemberSymbol}
  (h : Declares g t m accessors g')

include h

theorem member?_old {k : MemberId} {x : MemberSymbol} (hk : g.member? k = some x) :
    g'.member? k = some x := by
  rw [h.member?_eq, if_pos (index_lt_of_member? hk), hk]

theorem member?_self : g'.member? m.id = some m := by
  rw [h.member?_eq, h.id]
  simp

theorem member?_accessor {i : Nat} {y : MemberSymbol} (hi : accessors[i]? = some y) :
    g'.member? y.id = some y := by
  obtain ⟨hid, -⟩ := h.accessor i y hi
  have hsub : g.members.size + 1 + i - g.members.size = i + 1 := by omega
  rw [h.member?_eq, hid, if_neg (by simp only; omega)]
  simp only [hsub, List.getElem?_cons_succ, hi]

/-- The members of the new graph are those of the old one, the new member `m` and its
`accessors`. -/
theorem member?_cases {k : MemberId} {x : MemberSymbol} (hk : g'.member? k = some x) :
    g.member? k = some x ∨ (k = m.id ∧ x = m) ∨ ∃ i : Nat, accessors[i]? = some x ∧ k = x.id := by
  rw [h.member?_eq] at hk
  split at hk
  · exact .inl hk
  · rename_i hlt
    cases hi : k.index - g.members.size with
    | zero =>
      rw [hi, List.getElem?_cons_zero] at hk
      refine .inr (.inl ⟨?_, (Option.some.inj hk).symm⟩)
      have hindex : k.index = g.members.size := by omega
      rw [h.id, ← hindex]
    | succ i =>
      rw [hi, List.getElem?_cons_succ] at hk
      refine .inr (.inr ⟨i, hk, ?_⟩)
      have hindex : k.index = g.members.size + 1 + i := by omega
      rw [(h.accessor i x hk).1, ← hindex]

theorem type?_cases {u : TypeId} {ty' : TypeSymbol} (hu : g'.type? u = some ty') :
    ∃ ty, g.type? u = some ty ∧
      ((u = t ∧ ty' = { ty with members := ty.members ++ [m.id] }) ∨ (u ≠ t ∧ ty' = ty)) := by
  rw [h.type?_eq] at hu
  split at hu
  · rename_i hut
    obtain ⟨ty, hty, rfl⟩ := Option.map_eq_some_iff.1 hu
    exact ⟨ty, hut ▸ hty, .inl ⟨hut, rfl⟩⟩
  · rename_i hut
    exact ⟨ty', hu, .inr ⟨hut, rfl⟩⟩

theorem type?_old {u : TypeId} {ty : TypeSymbol} (hu : g.type? u = some ty) :
    ∃ ty', g'.type? u = some ty' ∧ (∀ k ∈ ty.members, k ∈ ty'.members) ∧
      (u = t → m.id ∈ ty'.members) := by
  by_cases hut : u = t
  · subst hut
    refine ⟨_, by rw [h.type?_eq, if_pos rfl, hu]; rfl, fun k hk => ?_, fun _ => ?_⟩
    · exact List.mem_append_left _ hk
    · exact List.mem_append_right _ (List.mem_singleton_self _)
  · exact ⟨ty, by rw [h.type?_eq, if_neg hut, hu], fun _ hk => hk, fun ht => absurd ht hut⟩

/-- Declaring a member with its accessors keeps a graph well-formed. -/
theorem wellFormed (wf : g.WellFormed) : g'.WellFormed where
  type_id u ty' hu := by
    obtain ⟨ty, hty, hcases⟩ := h.type?_cases hu
    have hid := wf.type_id hty
    obtain ⟨-, rfl⟩ | ⟨-, rfl⟩ := hcases <;> exact hid
  member_id k x hk := by
    obtain hk | ⟨rfl, rfl⟩ | ⟨i, -, rfl⟩ := h.member?_cases hk
    · exact wf.member_id hk
    · rfl
    · rfl
  outer_lt u ty' v hu hv := by
    obtain ⟨ty, hty, hcases⟩ := h.type?_cases hu
    have hlt := wf.outer_lt (u := v) hty
    obtain ⟨-, rfl⟩ | ⟨-, rfl⟩ := hcases <;> exact hlt hv
  listed u ty' k hu hk := by
    obtain ⟨ty, hty, ⟨rfl, rfl⟩ | ⟨-, rfl⟩⟩ := h.type?_cases hu
    · rcases List.mem_append.1 hk with hk | hk
      · obtain ⟨x, hx, hrest⟩ := wf.listed hty hk
        exact ⟨x, h.member?_old hx, hrest⟩
      · obtain rfl := List.mem_singleton.1 hk
        exact ⟨m, h.member?_self, h.declaringType, h.accessorOf⟩
    · obtain ⟨x, hx, hrest⟩ := wf.listed hty hk
      exact ⟨x, h.member?_old hx, hrest⟩
  ascending u ty' hu := by
    obtain ⟨ty, hty, ⟨rfl, rfl⟩ | ⟨-, rfl⟩⟩ := h.type?_cases hu
    · refine List.pairwise_append.2 ⟨wf.ascending hty, List.pairwise_singleton _ _, ?_⟩
      intro k hk k' hk'
      obtain rfl := List.mem_singleton.1 hk'
      obtain ⟨x, hx, -⟩ := wf.listed hty hk
      rw [h.id]
      exact index_lt_of_member? hx
    · exact wf.ascending hty
  declaringType k x hk := by
    obtain hk | ⟨rfl, rfl⟩ | ⟨i, hi, rfl⟩ := h.member?_cases hk
    · obtain ⟨ty, hty, hlisted⟩ := wf.declaringType hk
      obtain ⟨ty', hty', hold, -⟩ := h.type?_old hty
      exact ⟨ty', hty', fun hnone => hold k (hlisted hnone)⟩
    · obtain ⟨ty, hty⟩ := h.type
      obtain ⟨ty', hty', -, hnew⟩ := h.type?_old hty
      rw [h.declaringType]
      exact ⟨ty', hty', fun _ => hnew rfl⟩
    · obtain ⟨ty, hty⟩ := h.type
      obtain ⟨-, htype, hof, -⟩ := h.accessor i x hi
      obtain ⟨ty', hty', -⟩ := h.type?_old hty
      rw [htype, hof]
      exact ⟨ty', hty', fun hnone => nomatch hnone⟩
  accessor k x slot a hk ha := by
    obtain hk | ⟨rfl, rfl⟩ | ⟨i, hi, rfl⟩ := h.member?_cases hk
    · obtain ⟨y, hy, hrest⟩ := wf.accessor hk ha
      exact ⟨y, h.member?_old hy, hrest⟩
    · obtain ⟨i, y, hi, rfl⟩ := h.slot slot a ha
      obtain ⟨-, htype, hof, -⟩ := h.accessor i y hi
      exact ⟨y, h.member?_accessor hi, htype.trans h.declaringType.symm, hof⟩
    · obtain ⟨-, -, hof, -⟩ := h.accessor i x hi
      rw [MemberSymbol.accessor?_of_accessorOf hof] at ha
      cases ha
  accessorOf a y k ha hof := by
    obtain ha | ⟨rfl, rfl⟩ | ⟨i, hi, rfl⟩ := h.member?_cases ha
    · obtain ⟨x, slot, hx, hslot⟩ := wf.accessorOf ha hof
      exact ⟨x, slot, h.member?_old hx, hslot⟩
    · rw [h.accessorOf] at hof
      cases hof
    · obtain ⟨-, -, hof', slot, hslot⟩ := h.accessor i y hi
      obtain rfl := Option.some.inj (hof'.symm.trans hof)
      exact ⟨m, slot, h.member?_self, hslot⟩
  slot_unique k x slot slot' a hk ha ha' := by
    obtain hk | ⟨rfl, rfl⟩ | ⟨i, hi, rfl⟩ := h.member?_cases hk
    · exact wf.slot_unique hk ha ha'
    · exact h.slot_unique slot slot' a ha ha'
    · obtain ⟨-, -, hof, -⟩ := h.accessor i x hi
      rw [MemberSymbol.accessor?_of_accessorOf hof] at ha
      cases ha

end Declares

/-! ## The declarations -/

theorem declares_of_append {g g' : TypeGraph} {t : TypeId} {owner : TypeSymbol} {m : MemberSymbol}
    {accessors : List MemberSymbol} (ht : g.type? t = some owner)
    (hassemblies : g'.assemblies = g.assemblies)
    (htypes : g'.types = (g.listMember t m.id).types)
    (hmembers : g'.members = g.members ++ (m :: accessors).toArray)
    (id : m.id = ⟨g.members.size⟩) (declaringType : m.declaringType = t)
    (accessorOf : m.accessorOf = none)
    (accessor : ∀ (i : Nat) (y : MemberSymbol), accessors[i]? = some y →
      y.id = ⟨g.members.size + 1 + i⟩ ∧ y.declaringType = t ∧ y.accessorOf = some m.id ∧
        ∃ slot, m.accessor? slot = some y.id)
    (slot : ∀ slot a, m.accessor? slot = some a →
      ∃ (i : Nat) (y : MemberSymbol), accessors[i]? = some y ∧ y.id = a)
    (slot_unique : ∀ slot slot' a, m.accessor? slot = some a → m.accessor? slot' = some a →
      slot = slot') : Declares g t m accessors g' where
  assemblies := hassemblies
  type?_eq u := by
    rw [type?, htypes, listMember, Array.getElem?_modify, type?, type?]
    by_cases hut : u = t
    · rw [if_pos hut, hut, if_pos rfl]
    · have hindex : t.index ≠ u.index := fun h => hut (by cases u; cases t; simp_all)
      rw [if_neg hut, if_neg hindex]
  member?_eq k := by
    rw [member?, hmembers, Array.getElem?_append]
    simp only [member?, List.getElem?_toArray]
  type := ⟨owner, ht⟩
  id := id
  declaringType := declaringType
  accessorOf := accessorOf
  accessor := accessor
  slot := slot
  slot_unique := slot_unique

theorem declares_of_push {g g' : TypeGraph} {t : TypeId} {owner : TypeSymbol} {m : MemberSymbol}
    (ht : g.type? t = some owner) (hassemblies : g'.assemblies = g.assemblies)
    (htypes : g'.types = (g.listMember t m.id).types)
    (hmembers : g'.members = g.members.push m) (id : m.id = ⟨g.members.size⟩)
    (declaringType : m.declaringType = t) (accessorOf : m.accessorOf = none)
    (slot : ∀ slot, m.accessor? slot = none) : Declares g t m [] g' := by
  refine declares_of_append ht hassemblies htypes ?_ id declaringType accessorOf ?_ ?_ ?_
  · rw [hmembers, Array.push_eq_append]
  · intro i y hi
    cases hi
  · intro place a ha
    rw [slot] at ha
    cases ha
  · intro place place' a ha
    rw [slot] at ha
    cases ha

@[simp]
theorem effectiveModifiers_isOverride (owner : TypeSymbol) (modifiers : Modifiers) :
    (effectiveModifiers owner modifiers).isOverride = modifiers.isOverride := by
  unfold effectiveModifiers
  split <;> rfl

theorem declares_of_declareMethod {g g' : TypeGraph} {t : TypeId} {d : MethodDeclaration}
    {id : MemberId} (h : g.declareMethod t d = .ok (g', id)) :
    ∃ m, Declares g t m [] g' ∧ m.overridden = d.overrides ∧ m.implements = d.implements ∧
      m.IsComplete ∧ m.IsDeclared .method d.name d.modifiers.isOverride d.parameters := by
  obtain ⟨owner, howner, h⟩ := bind_eq_ok.1 h
  obtain ⟨rfl, -⟩ := Prod.ext_iff.1 (Except.ok.inj h)
  let m : MemberSymbol :=
    ⟨⟨g.members.size⟩, d.name, t, d.accessibility, effectiveModifiers owner d.modifiers,
      d.overrides, d.implements, d.attributes, .method ⟨d.parameters, d.typeParameters, none⟩⟩
  refine ⟨m, declares_of_push (typeOrFault_eq_ok_iff.1 howner) rfl rfl rfl rfl rfl rfl ?_, rfl, rfl,
    fun data hkind => (nomatch hkind), rfl, rfl, effectiveModifiers_isOverride _ _, rfl⟩
  intro slot
  cases slot <;> rfl

theorem declares_of_declareField {g g' : TypeGraph} {t : TypeId} {d : FieldDeclaration}
    {id : MemberId} (h : g.declareField t d = .ok (g', id)) :
    ∃ m, Declares g t m [] g' ∧ m.overridden = none ∧ m.implements = [] ∧ m.IsComplete ∧
      m.IsDeclared .field d.name d.modifiers.isOverride [] := by
  obtain ⟨owner, howner, h⟩ := bind_eq_ok.1 h
  obtain ⟨rfl, -⟩ := Prod.ext_iff.1 (Except.ok.inj h)
  let m : MemberSymbol :=
    ⟨⟨g.members.size⟩, d.name, t, d.accessibility, d.modifiers, none, [], d.attributes, .field⟩
  refine ⟨m, declares_of_push (typeOrFault_eq_ok_iff.1 howner) rfl rfl rfl rfl rfl rfl ?_, rfl, rfl,
    fun data hkind => (nomatch hkind), rfl, rfl, rfl, rfl⟩
  intro slot
  cases slot <;> rfl

/-! ## Accessors -/

/-- The accessor in the place `slot` of the member at `c`. -/
def accessorIn? (g : TypeGraph) (slot : AccessorSlot) (c : MemberId) : Option MemberId :=
  (g.member? c).bind (·.accessor? slot)

section

variable {g : TypeGraph} {slot : AccessorSlot}

theorem accessorIn?_eq {c : MemberId} {x : MemberSymbol} (hx : g.memberOrFault c = .ok x) :
    g.accessorIn? slot c = x.accessor? slot := by
  rw [accessorIn?, memberOrFault_eq_ok_iff.1 hx, Option.bind_some]

theorem bind_accessor? {c : Option MemberId} {x : Option MemberSymbol}
    (h : c.mapM g.memberOrFault = .ok x) :
    x.bind (·.accessor? slot) = c.bind (g.accessorIn? slot) := by
  cases rel_of_option_mapM h with
  | none => rfl
  | some hx => rw [Option.bind_some, Option.bind_some, accessorIn?_eq hx]

theorem filterMap_accessor? {l : List MemberId} {members : List MemberSymbol}
    (h : l.mapM g.memberOrFault = .ok members) :
    members.filterMap (·.accessor? slot) = l.filterMap (g.accessorIn? slot) := by
  have hall := forall₂_of_mapM h
  clear h
  induction hall with
  | nil => rfl
  | cons hx _ ih => rw [List.filterMap_cons, List.filterMap_cons, accessorIn?_eq hx, ih]

end

/-- `a` is declared as the accessor of `owner` in a place, in the graph `g`. -/
structure DeclaresAccessor (g : TypeGraph) (owner : MemberSymbol) (slot : AccessorSlot)
    (value : Option Parameter) (a : MemberSymbol) : Prop where
  id : a.id = ⟨g.members.size⟩
  name : a.name = slot.stem ++ owner.name
  declaringType : a.declaringType = owner.declaringType
  modifiers : a.modifiers = owner.modifiers
  parameters : a.parameters = owner.parameters ++ value.toList
  accessorOf : a.accessorOf = some owner.id
  /-- No link of the owner leads out of the graph. -/
  link_exists : ∀ c ∈ owner.links, ∃ x, g.member? c = some x
  overridden : a.overridden = owner.overridden.bind (g.accessorIn? slot)
  implements : a.implements = owner.implements.filterMap (g.accessorIn? slot)

theorem DeclaresAccessor.links {g : TypeGraph} {owner a : MemberSymbol} {slot : AccessorSlot}
    {value : Option Parameter} (ha : DeclaresAccessor g owner slot value a) :
    ∀ b ∈ a.links, ∃ c ∈ owner.links, ∃ x, g.member? c = some x ∧ x.accessor? slot = some b := by
  intro b hb
  rcases MemberSymbol.mem_links.1 hb with hb | hb
  · rw [ha.overridden] at hb
    obtain ⟨c, hc, hslot⟩ := Option.bind_eq_some_iff.1 hb
    exact ⟨c, MemberSymbol.mem_links.2 (.inl hc), Option.bind_eq_some_iff.1 hslot⟩
  · rw [ha.implements] at hb
    obtain ⟨c, hc, hslot⟩ := List.mem_filterMap.1 hb
    exact ⟨c, MemberSymbol.mem_links.2 (.inr hc), Option.bind_eq_some_iff.1 hslot⟩

theorem eq_push_of_declareAccessor {g g' : TypeGraph} {owner : MemberSymbol} {slot : AccessorSlot}
    {d : AccessorDeclaration} {value : Option Parameter} {id : MemberId}
    (h : g.declareAccessor owner slot d value = .ok (g', id)) :
    ∃ a, g' = { g with members := g.members.push a } ∧ id = a.id ∧
      DeclaresAccessor g owner slot value a := by
  obtain ⟨overridden, hoverridden, h⟩ := bind_eq_ok.1 h
  obtain ⟨implemented, himplemented, h⟩ := bind_eq_ok.1 h
  obtain ⟨rfl, rfl⟩ := Prod.ext_iff.1 (Except.ok.inj h)
  refine ⟨_, rfl, rfl, rfl, rfl, rfl, rfl, rfl, rfl, fun c hc => ?_, ?_, ?_⟩
  · rcases MemberSymbol.mem_links.1 hc with hc | hc
    · rw [hc] at hoverridden
      obtain ⟨x, hx, -⟩ := bind_eq_ok.1 hoverridden
      exact ⟨x, memberOrFault_eq_ok_iff.1 hx⟩
    · obtain ⟨x, -, hx⟩ := exists_mem_of_mapM himplemented hc
      exact ⟨x, memberOrFault_eq_ok_iff.1 hx⟩
  · exact bind_accessor? hoverridden
  · exact filterMap_accessor? himplemented

theorem eq_append_of_declareAccessor? {g g' : TypeGraph} {owner : MemberSymbol}
    {slot : AccessorSlot} {d : Option AccessorDeclaration} {value : Option Parameter}
    {id : Option MemberId} (h : g.declareAccessor? owner slot d value = .ok (g', id)) :
    ∃ a : Option MemberSymbol, g' = { g with members := g.members ++ a.toList.toArray } ∧
      id = a.map MemberSymbol.id ∧ ∀ x, a = some x → DeclaresAccessor g owner slot value x := by
  cases d with
  | none =>
    cases h
    exact ⟨none, by simp, rfl, fun x hx => nomatch hx⟩
  | some d =>
    obtain ⟨result, ha, h⟩ := bind_eq_ok.1 h
    cases h
    obtain ⟨a, hg, hid, hdeclares⟩ := eq_push_of_declareAccessor ha
    refine ⟨some a, ?_, congrArg some hid, ?_⟩
    · rw [hg, Array.push_eq_append]
      rfl
    · intro x hx
      rwa [← Option.some.inj hx]

theorem modify_append_cons {α : Type} (f : α → α) (l : List α) (a : α) (l' : List α) :
    (l ++ a :: l').modify l.length f = l ++ f a :: l' := by
  induction l with
  | nil => rfl
  | cons b l ih => simp [ih]

theorem getElem?_toList_append {α : Type} {a a' : Option α} {i : Nat} {x : α} :
    (a.toList ++ a'.toList)[i]? = some x ↔
      (a = some x ∧ i = 0) ∨ (a' = some x ∧ i = a.toList.length) := by
  cases a <;> cases a' <;> rcases i with _ | _ | i <;> simp

theorem declareAccessor?_some {g g' : TypeGraph} {owner : MemberSymbol} {slot : AccessorSlot}
    {d : AccessorDeclaration} {value : Option Parameter} {id : MemberId}
    (h : g.declareAccessor owner slot d value = .ok (g', id)) :
    g.declareAccessor? owner slot (some d) value = .ok (g', some id) :=
  bind_eq_ok.2 ⟨_, h, rfl⟩

/-- The members that the accessors of `m` are linked to are accessors of those that `m` is linked
to. -/
def LinksAccessors (g : TypeGraph) (m : MemberSymbol) (accessors : List MemberSymbol) : Prop :=
  ∀ a ∈ accessors, ∀ b ∈ a.links, ∃ c ∈ m.links, ∀ x, g.member? c = some x →
    ∃ slot, x.accessor? slot = some b

theorem member?_push {g h : TypeGraph} {m : MemberSymbol} (hmembers : h.members = g.members.push m)
    {c : MemberId} {x : MemberSymbol} (hx : g.member? c = some x) : h.member? c = some x := by
  rw [member?, hmembers, Array.getElem?_push_lt (index_lt_of_member? hx), ← hx]
  exact (Array.getElem?_eq_getElem _).symm

theorem member?_append {g h : TypeGraph} {ms : Array MemberSymbol}
    (hmembers : h.members = g.members ++ ms) {c : MemberId} {x : MemberSymbol}
    (hx : g.member? c = some x) : h.member? c = some x := by
  rw [member?, hmembers, Array.getElem?_append_left (index_lt_of_member? hx)]
  exact hx

/-- A property or an event is declared with two accessors, each of which may be missing. -/
theorem declares_of_accessors {g g' : TypeGraph} {t : TypeId} {ty : TypeSymbol}
    {owner : MemberSymbol} {kind : MemberKind} {slot slot' : AccessorSlot}
    {value value' : Option Parameter} {a a' : Option MemberSymbol} {types : Array TypeSymbol}
    (ht : g.type? t = some ty) (hassemblies : g'.assemblies = g.assemblies)
    (htypes : g'.types = (g.listMember t owner.id).types)
    (hmembers : g'.members = (g.members.push owner ++ a.toList.toArray ++ a'.toList.toArray).modify
      g.members.size fun m => { m with kind := kind })
    (id : owner.id = ⟨g.members.size⟩) (declaringType : owner.declaringType = t)
    (accessorOf : { owner with kind := kind }.accessorOf = none)
    (hne : slot ≠ slot')
    (hslot : ∀ place, { owner with kind := kind }.accessor? place =
      if place = slot then a.map MemberSymbol.id
      else if place = slot' then a'.map MemberSymbol.id else none)
    (ha : ∀ x, a = some x → DeclaresAccessor ⟨g.assemblies, types, g.members.push owner⟩ owner
      slot value x)
    (ha' : ∀ x, a' = some x → DeclaresAccessor
      ⟨g.assemblies, types, g.members.push owner ++ a.toList.toArray⟩ owner slot' value' x) :
    Declares g t { owner with kind := kind } (a.toList ++ a'.toList) g' := by
  have hid (x : MemberSymbol) (hx : a = some x) : x.id = ⟨g.members.size + 1⟩ := by
    rw [(ha x hx).id, Array.size_push]
  have hid' (x : MemberSymbol) (hx : a' = some x) :
      x.id = ⟨g.members.size + 1 + a.toList.length⟩ := by
    rw [(ha' x hx).id]
    cases a <;> simp
  refine declares_of_append ht hassemblies htypes ?_ id declaringType accessorOf ?_ ?_ ?_
  · rw [hmembers]
    have hmodify := modify_append_cons (fun m : MemberSymbol => { m with kind := kind })
      g.members.toList owner (a.toList ++ a'.toList)
    apply Array.ext'
    simpa using hmodify
  · intro i y hi
    obtain ⟨hy, rfl⟩ | ⟨hy, rfl⟩ := getElem?_toList_append.1 hi
    · have hdeclares := ha y hy
      refine ⟨hid y hy, hdeclares.declaringType.trans declaringType, hdeclares.accessorOf, slot, ?_⟩
      rw [hslot, if_pos rfl, hy, Option.map_some]
    · have hdeclares := ha' y hy
      refine ⟨hid' y hy, hdeclares.declaringType.trans declaringType, hdeclares.accessorOf, slot',
        ?_⟩
      rw [hslot, if_neg hne.symm, if_pos rfl, hy, Option.map_some]
  · intro place b hb
    rw [hslot] at hb
    split_ifs at hb
    · obtain ⟨x, hx, hxid⟩ := Option.map_eq_some_iff.1 hb
      exact ⟨0, x, getElem?_toList_append.2 (.inl ⟨hx, rfl⟩), hxid⟩
    · obtain ⟨x, hx, hxid⟩ := Option.map_eq_some_iff.1 hb
      exact ⟨_, x, getElem?_toList_append.2 (.inr ⟨hx, rfl⟩), hxid⟩
  · -- The two accessors have different numbers.
    have hdistinct (b : MemberId) (hb : a.map MemberSymbol.id = some b)
        (hb' : a'.map MemberSymbol.id = some b) : False := by
      obtain ⟨x, hx, rfl⟩ := Option.map_eq_some_iff.1 hb
      obtain ⟨x', hx', hxid⟩ := Option.map_eq_some_iff.1 hb'
      rw [hid x hx, hid' x' hx', hx] at hxid
      simp at hxid
    intro place place' b hb hb'
    rw [hslot] at hb hb'
    split_ifs at hb hb'
    · simp_all
    · exact (hdistinct b hb hb').elim
    · exact (hdistinct b hb' hb).elim
    · simp_all

theorem linksAccessors_of_declares {g g₁ g₂ : TypeGraph} {m owner : MemberSymbol}
    {slot slot' : AccessorSlot} {value value' : Option Parameter} {a a' : Option MemberSymbol}
    (ha : ∀ x, a = some x → DeclaresAccessor g₁ owner slot value x)
    (ha' : ∀ x, a' = some x → DeclaresAccessor g₂ owner slot' value' x)
    (h₁ : ∀ c x, g.member? c = some x → g₁.member? c = some x)
    (h₂ : ∀ c x, g.member? c = some x → g₂.member? c = some x) (hlinks : m.links = owner.links) :
    LinksAccessors g m (a.toList ++ a'.toList) := by
  have hlink {h : TypeGraph} {place : AccessorSlot} {v : Option Parameter} {y : MemberSymbol}
      (hold : ∀ c x, g.member? c = some x → h.member? c = some x)
      (hy : DeclaresAccessor h owner place v y) (b : MemberId) (hb : b ∈ y.links) :
      ∃ c ∈ m.links, ∀ x, g.member? c = some x → ∃ slot, x.accessor? slot = some b := by
    obtain ⟨c, hc, x, hx, hslot⟩ := hy.links b hb
    refine ⟨c, hlinks ▸ hc, fun x' hx' => ⟨place, ?_⟩⟩
    obtain rfl := Option.some.inj (hx.symm.trans (hold c x' hx'))
    exact hslot
  intro y hy
  rcases List.mem_append.1 hy with hy | hy
  · exact hlink h₁ (ha y (Option.mem_toList.1 hy))
  · exact hlink h₂ (ha' y (Option.mem_toList.1 hy))

/-! ## Accessors and their owners -/

/-- The accessor, in a place, of a member that `owner` is linked to. Where an owner is linked to
itself, its accessors are not linked to each other. -/
def linkedAccessor? (g : TypeGraph) (owner : MemberSymbol) (slot : AccessorSlot) (c : MemberId) :
    Option MemberId :=
  if c = owner.id then none else g.accessorIn? slot c

/-- `a` is what the accessor of `owner` in a place has to be, given the type of the value. -/
structure FollowsOwner (g : TypeGraph) (owner : MemberSymbol) (slot : AccessorSlot)
    (typeName : String) (a : MemberSymbol) : Prop where
  accessorOf : a.accessorOf = some owner.id
  name : a.name = slot.stem ++ owner.name
  declaringType : a.declaringType = owner.declaringType
  modifiers : a.modifiers = owner.modifiers
  parameters : a.parameters = owner.parameters ++ slot.valueParameters typeName
  link_exists : ∀ c ∈ owner.links, ∃ x, g.member? c = some x
  overridden : a.overridden = owner.overridden.bind (g.linkedAccessor? owner slot)
  implements : a.implements = owner.implements.filterMap (g.linkedAccessor? owner slot)

/-- The accessors of `m` are what they have to be. -/
def AccessorsFollow (g : TypeGraph) (m : MemberSymbol) (accessors : List MemberSymbol)
    (typeName : String) : Prop :=
  ∀ a ∈ accessors, ∃ slot, m.accessor? slot = some a.id ∧ FollowsOwner g m slot typeName a

/-- The accessors of `owner` are declared before it has any, and only `owner` changes afterwards. -/
theorem DeclaresAccessor.followsOwner {h g' : TypeGraph} {owner a : MemberSymbol}
    {slot : AccessorSlot} {value : Option Parameter} {kind : MemberKind} {typeName : String}
    (ha : DeclaresAccessor h owner slot value a)
    (hvalue : value.toList = slot.valueParameters typeName)
    (hparameters : { owner with kind := kind }.parameters = owner.parameters)
    (hself : h.accessorIn? slot owner.id = none) (hself' : ∃ x, g'.member? owner.id = some x)
    (hrest : ∀ c x, c ≠ owner.id → h.member? c = some x → g'.member? c = some x) :
    FollowsOwner g' { owner with kind := kind } slot typeName a := by
  have hlink (c : MemberId) (hc : c ∈ owner.links) :
      h.accessorIn? slot c = g'.linkedAccessor? { owner with kind := kind } slot c := by
    unfold linkedAccessor?
    split
    · rename_i hown
      rw [hown]
      exact hself
    · rename_i hne
      obtain ⟨x, hx⟩ := ha.link_exists c hc
      rw [accessorIn?, accessorIn?, hx, hrest c x hne hx]
  refine ⟨ha.accessorOf, ha.name, ha.declaringType, ha.modifiers, ?_, fun c hc => ?_, ?_, ?_⟩
  · rw [hparameters, ha.parameters, hvalue]
  · by_cases hown : c = owner.id
    · exact hown ▸ hself'
    · obtain ⟨x, hx⟩ := ha.link_exists c hc
      exact ⟨x, hrest c x hown hx⟩
  · rw [ha.overridden]
    exact Option.bind_congr fun c hc => hlink c (MemberSymbol.mem_links.2 (.inl hc))
  · rw [ha.implements]
    exact List.filterMap_congr fun c hc => hlink c (MemberSymbol.mem_links.2 (.inr hc))

theorem accessorsFollow_of_accessors {g g' : TypeGraph} {owner : MemberSymbol} {kind : MemberKind}
    {slot slot' : AccessorSlot} {value value' : Option Parameter} {a a' : Option MemberSymbol}
    {types : Array TypeSymbol} {typeName : String}
    (hmembers : g'.members = (g.members.push owner ++ a.toList.toArray ++ a'.toList.toArray).modify
      g.members.size fun m => { m with kind := kind })
    (id : owner.id = ⟨g.members.size⟩) (hempty : ∀ place, owner.accessor? place = none)
    (hparameters : { owner with kind := kind }.parameters = owner.parameters)
    (hne : slot ≠ slot')
    (hslot : ∀ place, { owner with kind := kind }.accessor? place =
      if place = slot then a.map MemberSymbol.id
      else if place = slot' then a'.map MemberSymbol.id else none)
    (hvalue : value.toList = slot.valueParameters typeName)
    (hvalue' : value'.toList = slot'.valueParameters typeName)
    (ha : ∀ x, a = some x → DeclaresAccessor ⟨g.assemblies, types, g.members.push owner⟩ owner
      slot value x)
    (ha' : ∀ x, a' = some x → DeclaresAccessor
      ⟨g.assemblies, types, g.members.push owner ++ a.toList.toArray⟩ owner slot' value' x) :
    AccessorsFollow g' { owner with kind := kind } (a.toList ++ a'.toList) typeName := by
  have hrest (ms : Array MemberSymbol) (hfront : ∃ rest,
      g.members.push owner ++ a.toList.toArray ++ a'.toList.toArray = ms ++ rest) (c : MemberId)
      (x : MemberSymbol) (hc : c ≠ owner.id) (hx : ms[c.index]? = some x) :
      g'.member? c = some x := by
    obtain ⟨rest, hrest⟩ := hfront
    have hindex : g.members.size ≠ c.index := fun h => hc (by rw [id, h])
    obtain ⟨hlt, -⟩ := Array.getElem?_eq_some_iff.1 hx
    rw [member?, hmembers, Array.getElem?_modify, if_neg hindex, hrest,
      Array.getElem?_append_left hlt, hx]
  have hindex : owner.id.index = g.members.size := congrArg MemberId.index id
  have hown (rest : Array MemberSymbol) :
      (g.members.push owner ++ rest)[owner.id.index]? = some owner := by
    rw [hindex, Array.getElem?_append_left (by simp), Array.getElem?_push_size]
  have hself' : ∃ x, g'.member? owner.id = some x := by
    refine ⟨{ owner with kind := kind }, ?_⟩
    rw [member?, hmembers, Array.getElem?_modify, if_pos hindex.symm, Array.append_assoc, hown,
      Option.map_some]
  intro y hy
  rcases List.mem_append.1 hy with hy | hy
  · have hdeclares := ha y (Option.mem_toList.1 hy)
    refine ⟨slot, ?_, hdeclares.followsOwner hvalue hparameters ?_ hself' (hrest _ ?_)⟩
    · rw [hslot, if_pos rfl, Option.mem_toList.1 hy, Option.map_some]
    · have hfound := hown #[]
      rw [Array.append_empty] at hfound
      rw [accessorIn?, member?, hfound, Option.bind_some, hempty]
    · exact ⟨_, Array.append_assoc⟩
  · have hdeclares := ha' y (Option.mem_toList.1 hy)
    refine ⟨slot', ?_, hdeclares.followsOwner hvalue' hparameters ?_ hself' (hrest _ ⟨_, rfl⟩)⟩
    · rw [hslot, if_neg hne.symm, if_pos rfl, Option.mem_toList.1 hy, Option.map_some]
    · rw [accessorIn?, member?, hown, Option.bind_some, hempty]

theorem declares_of_declareProperty {g g' : TypeGraph} {t : TypeId} {d : PropertyDeclaration}
    {id : MemberId} (h : g.declareProperty t d = .ok (g', id)) :
    ∃ m accessors, Declares g t m accessors g' ∧ LinksAccessors g m accessors ∧
      m.overridden = d.overrides ∧ m.implements = d.implements ∧ m.IsComplete ∧
      m.IsDeclared .property d.name d.modifiers.isOverride d.parameters ∧
      AccessorsFollow g' m accessors d.typeName := by
  obtain ⟨ty, hty, h⟩ := bind_eq_ok.1 h
  obtain ⟨⟨g₁, getter⟩, hgetter, h⟩ := bind_eq_ok.1 h
  obtain ⟨⟨g₂, setter⟩, hsetter, h⟩ := bind_eq_ok.1 h
  obtain ⟨a, rfl, rfl, ha⟩ := eq_append_of_declareAccessor? hgetter
  obtain ⟨a', rfl, rfl, ha'⟩ := eq_append_of_declareAccessor? hsetter
  obtain ⟨rfl, -⟩ := Prod.ext_iff.1 (Except.ok.inj h)
  refine ⟨_, _, declares_of_accessors (typeOrFault_eq_ok_iff.1 hty) rfl rfl rfl rfl rfl rfl
    (by decide : AccessorSlot.getter ≠ .setter) (fun place => ?_) ha ha',
    linksAccessors_of_declares ha ha' (fun c x hx => ?_) (fun c x hx => ?_) rfl, rfl, rfl,
    fun data hkind => (nomatch hkind), ⟨rfl, rfl, effectiveModifiers_isOverride _ _, rfl⟩,
    accessorsFollow_of_accessors rfl rfl (fun place => ?_) rfl
    (by decide : AccessorSlot.getter ≠ .setter) (fun place => ?_) rfl rfl ha ha'⟩
  · cases place <;> rfl
  · exact member?_push rfl hx
  · exact member?_append rfl (member?_push (h := ⟨g.assemblies, g.types, _⟩) rfl hx)
  · cases place <;> rfl
  · cases place <;> rfl

theorem declares_of_declareEvent {g g' : TypeGraph} {t : TypeId} {d : EventDeclaration}
    {id : MemberId} (h : g.declareEvent t d = .ok (g', id)) :
    ∃ m accessors, Declares g t m accessors g' ∧ LinksAccessors g m accessors ∧
      m.overridden = d.overrides ∧ m.implements = d.implements ∧ m.IsComplete ∧
      m.IsDeclared .event d.name d.modifiers.isOverride [] ∧
      AccessorsFollow g' m accessors d.typeName := by
  obtain ⟨ty, hty, h⟩ := bind_eq_ok.1 h
  obtain ⟨⟨g₁, adder⟩, hadder, h⟩ := bind_eq_ok.1 h
  obtain ⟨⟨g₂, remover⟩, hremover, h⟩ := bind_eq_ok.1 h
  obtain ⟨a, rfl, hid, ha⟩ := eq_append_of_declareAccessor? (declareAccessor?_some hadder)
  obtain ⟨a', rfl, hid', ha'⟩ := eq_append_of_declareAccessor? (declareAccessor?_some hremover)
  obtain ⟨rfl, -⟩ := Prod.ext_iff.1 (Except.ok.inj h)
  refine ⟨_, _, declares_of_accessors (typeOrFault_eq_ok_iff.1 hty) rfl rfl rfl rfl rfl rfl
    (by decide : AccessorSlot.adder ≠ .remover) (fun place => ?_) ha ha',
    linksAccessors_of_declares ha ha' (fun c x hx => ?_) (fun c x hx => ?_) rfl, rfl, rfl,
    fun data hkind => ?_, ⟨rfl, rfl, effectiveModifiers_isOverride _ _, rfl⟩,
    accessorsFollow_of_accessors rfl rfl (fun place => ?_) rfl
    (by decide : AccessorSlot.adder ≠ .remover) (fun place => ?_) rfl rfl ha ha'⟩
  · rw [← hid, ← hid']
    cases place <;> rfl
  · exact member?_push rfl hx
  · exact member?_append rfl (member?_push (h := ⟨g.assemblies, g.types, _⟩) rfl hx)
  · obtain rfl := MemberKind.event.inj hkind
    exact ⟨rfl, rfl⟩
  · cases place <;> rfl
  · rw [← hid, ← hid']
    cases place <;> rfl

/-! ## Types and assemblies -/

theorem wellFormed_empty : (∅ : TypeGraph).WellFormed where
  type_id _ _ h := nomatch h
  member_id _ _ h := nomatch h
  outer_lt _ _ _ h := nomatch h
  listed _ _ _ h := nomatch h
  ascending _ _ h := nomatch h
  declaringType _ _ h := nomatch h
  accessor _ _ _ _ h := nomatch h
  accessorOf _ _ _ h := nomatch h
  slot_unique _ _ _ _ _ h := nomatch h

/-- Declaring an assembly leaves the types and members alone. -/
theorem declareAssembly_eq (g : TypeGraph) (name : String) :
    (g.declareAssembly name).1.types = g.types ∧
      (g.declareAssembly name).1.members = g.members := by
  unfold declareAssembly
  split <;> exact ⟨rfl, rfl⟩

theorem WellFormed.of_eq {g g' : TypeGraph} (wf : g.WellFormed) (types : g'.types = g.types)
    (members : g'.members = g.members) : g'.WellFormed := by
  obtain ⟨assemblies, types', members'⟩ := g'
  subst types members
  exact ⟨wf.type_id, wf.member_id, wf.outer_lt, wf.listed, wf.ascending, wf.declaringType,
    wf.accessor, wf.accessorOf, wf.slot_unique⟩

/-- A type that is declared by `d` is appended, without members. -/
theorem eq_push_of_declareType {g g' : TypeGraph} {assembly : AssemblyId} {d : TypeDeclaration}
    {t : TypeId} (h : g.declareType assembly d = .ok (g', t)) :
    ∃ ty, g' = { g with types := g.types.push ty } ∧ t = ⟨g.types.size⟩ ∧ ty.id = t ∧
      ty.members = [] ∧ ty.baseTypes = d.baseTypes ∧ ty.declaringType = d.declaringType ∧
      ∀ u, d.declaringType = some u → u.index < t.index := by
  obtain ⟨outer, houter, h⟩ := bind_eq_ok.1 h
  obtain ⟨rfl, rfl⟩ := Prod.ext_iff.1 (Except.ok.inj h)
  refine ⟨_, rfl, rfl, rfl, rfl, rfl, rfl, fun u hu => ?_⟩
  rw [hu] at houter
  obtain ⟨ty, hty, -⟩ := bind_eq_ok.1 houter
  exact index_lt_of_type? (typeOrFault_eq_ok_iff.1 hty)

theorem type?_push_cases {g : TypeGraph} {ty ty' : TypeSymbol} {u : TypeId}
    (h : type? { g with types := g.types.push ty } u = some ty') :
    g.type? u = some ty' ∨ (u = ⟨g.types.size⟩ ∧ ty' = ty) := by
  rw [type?, Array.getElem?_push] at h
  split at h
  · rename_i hu
    refine .inr ⟨?_, (Option.some.inj h).symm⟩
    rw [← hu]
  · exact .inl h

theorem type?_push {g : TypeGraph} (ty : TypeSymbol) {u : TypeId} {ty' : TypeSymbol}
    (h : g.type? u = some ty') : type? { g with types := g.types.push ty } u = some ty' := by
  have hlt := index_lt_of_type? h
  rw [type?, Array.getElem?_push, if_neg (Nat.ne_of_lt hlt)]
  exact h

theorem WellFormed.declareType {g g' : TypeGraph} {assembly : AssemblyId} {d : TypeDeclaration}
    {t : TypeId} (wf : g.WellFormed) (h : g.declareType assembly d = .ok (g', t)) :
    g'.WellFormed := by
  obtain ⟨ty, rfl, rfl, hid, hmembers, -, hdeclaring, houter⟩ := eq_push_of_declareType h
  refine { wf with type_id := ?_, outer_lt := ?_, listed := ?_, ascending := ?_,
                   declaringType := ?_ }
  · intro u ty' hu
    obtain hu | ⟨rfl, rfl⟩ := type?_push_cases hu
    · exact wf.type_id hu
    · exact hid
  · intro u ty' v hu hv
    obtain hu | ⟨rfl, rfl⟩ := type?_push_cases hu
    · exact wf.outer_lt hu hv
    · exact houter v (hdeclaring ▸ hv)
  · intro u ty' m hu hm
    obtain hu | ⟨rfl, rfl⟩ := type?_push_cases hu
    · exact wf.listed hu hm
    · rw [hmembers] at hm
      cases hm
  · intro u ty' hu
    obtain hu | ⟨rfl, rfl⟩ := type?_push_cases hu
    · exact wf.ascending hu
    · rw [hmembers]
      exact .nil
  · intro m x hm
    obtain ⟨ty', hty', hlisted⟩ := wf.declaringType hm
    exact ⟨ty', type?_push ty hty', hlisted⟩

/-! ## Graphs put together by declarations -/

/-- A graph that is put together by declarations. The base types and the members that a declaration
refers to may come later, so that types may inherit from each other and members override each
other. -/
inductive Built : TypeGraph → Prop
  | empty : Built ∅
  | assembly {g : TypeGraph} (built : Built g) (name : String) : Built (g.declareAssembly name).1
  | type {g g' : TypeGraph} {a : AssemblyId} {d : TypeDeclaration} {t : TypeId} (built : Built g)
    (declare : g.declareType a d = .ok (g', t)) : Built g'
  | method {g g' : TypeGraph} {t : TypeId} {d : MethodDeclaration} {m : MemberId} (built : Built g)
    (declare : g.declareMethod t d = .ok (g', m)) : Built g'
  | property {g g' : TypeGraph} {t : TypeId} {d : PropertyDeclaration} {m : MemberId}
    (built : Built g) (declare : g.declareProperty t d = .ok (g', m)) : Built g'
  | field {g g' : TypeGraph} {t : TypeId} {d : FieldDeclaration} {m : MemberId} (built : Built g)
    (declare : g.declareField t d = .ok (g', m)) : Built g'
  | event {g g' : TypeGraph} {t : TypeId} {d : EventDeclaration} {m : MemberId} (built : Built g)
    (declare : g.declareEvent t d = .ok (g', m)) : Built g'

/-- In a graph that is put together by declarations, the references fit together. -/
theorem Built.wellFormed {g : TypeGraph} (h : g.Built) : g.WellFormed := by
  induction h with
  | empty => exact wellFormed_empty
  | @assembly g built name wf =>
    obtain ⟨htypes, hmembers⟩ := g.declareAssembly_eq name
    exact wf.of_eq htypes hmembers
  | type built declare wf => exact wf.declareType declare
  | method built declare wf =>
    obtain ⟨m, hdeclares, -⟩ := declares_of_declareMethod declare
    exact hdeclares.wellFormed wf
  | property built declare wf =>
    obtain ⟨m, accessors, hdeclares, -⟩ := declares_of_declareProperty declare
    exact hdeclares.wellFormed wf
  | field built declare wf =>
    obtain ⟨m, hdeclares, -⟩ := declares_of_declareField declare
    exact hdeclares.wellFormed wf
  | event built declare wf =>
    obtain ⟨m, accessors, hdeclares, -⟩ := declares_of_declareEvent declare
    exact hdeclares.wellFormed wf

/-- The new graph has complete members if the old one has, and the new member is complete. -/
theorem Declares.isComplete {g g' : TypeGraph} {t : TypeId} {m : MemberSymbol}
    {accessors : List MemberSymbol} (h : Declares g t m accessors g') (hm : m.IsComplete)
    (hg : ∀ k x, g.member? k = some x → x.IsComplete) :
    ∀ k x, g'.member? k = some x → x.IsComplete := by
  intro k x hk
  obtain hk | ⟨-, rfl⟩ | ⟨i, hi, -⟩ := h.member?_cases hk
  · exact hg k x hk
  · exact hm
  · exact .of_accessorOf (h.accessor i x hi).2.2.1

/-- In a graph that is put together by declarations, all events have both accessors. -/
theorem Built.isComplete {g : TypeGraph} (h : g.Built) :
    ∀ k x, g.member? k = some x → x.IsComplete := by
  induction h with
  | empty => exact fun k x h => nomatch h
  | @assembly g built name ih =>
    intro k x hk
    rw [member?, (g.declareAssembly_eq name).2] at hk
    exact ih k x hk
  | type built declare ih =>
    obtain ⟨ty, rfl, -⟩ := eq_push_of_declareType declare
    exact ih
  | method built declare ih =>
    obtain ⟨m, hdeclares, -, -, hm, -⟩ := declares_of_declareMethod declare
    exact hdeclares.isComplete hm ih
  | property built declare ih =>
    obtain ⟨m, accessors, hdeclares, -, -, -, hm, -⟩ := declares_of_declareProperty declare
    exact hdeclares.isComplete hm ih
  | field built declare ih =>
    obtain ⟨m, hdeclares, -, -, hm, -⟩ := declares_of_declareField declare
    exact hdeclares.isComplete hm ih
  | event built declare ih =>
    obtain ⟨m, accessors, hdeclares, -, -, -, hm, -⟩ := declares_of_declareEvent declare
    exact hdeclares.isComplete hm ih

end TypeGraph

end ScriptNaming
