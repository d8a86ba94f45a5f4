import ScriptNaming.Document.Linking
import ScriptNaming.Graph.Hierarchy
import ScriptNaming.Proofs.WellFormed
import Mathlib.Logic.Relation
import Mathlib.Order.Basic

/-!
# Layered graphs

The graph of a document is layered: a type comes after everything that it inherits from, and
members are linked only to members of their own type and of earlier types (`TypeGraph.Layered`,
`GraphDocument.linked`). So the members of a type never depend on those of a later one.

Everything that a type inherits from is listed as a recursive traversal visits it
(`TypeGraph.traverses_of_allBaseTypes`), in layered graphs and in others.
-/

namespace ScriptNaming

theorem TypeId.eq_of_index {t u : TypeId} (h : t.index = u.index) : t = u := by
  cases t
  cases u
  exact congrArg mk h

namespace TypeGraph

/-- The type `t` is declared in the type `u`. -/
def NestedIn (g : TypeGraph) (t u : TypeId) : Prop :=
  ∃ ty, g.type? t = some ty ∧ ty.declaringType = some u

/-- The type `t` names `b` as a base type. -/
def NamesBase (g : TypeGraph) (t b : TypeId) : Prop :=
  ∃ ty, g.type? t = some ty ∧ b ∈ ty.baseTypes

/-- A type inherits from another one, directly or not. -/
def Inherits (g : TypeGraph) : TypeId → TypeId → Prop := Relation.TransGen g.NamesBase

/-- Some member of the type `t`, or an accessor, overrides or implements a member of `u`. -/
def LinksTo (g : TypeGraph) (t u : TypeId) : Prop :=
  ∃ m x, g.member? m = some x ∧ x.declaringType = t ∧
    ∃ b ∈ x.links, ∃ y, g.member? b = some y ∧ y.declaringType = u

/-- Base types come before the types that name them, and members are linked only to members of the
same or of earlier types. -/
structure Layered (g : TypeGraph) : Prop where
  base_lt : ∀ ⦃t b⦄, g.NamesBase t b → b.index < t.index
  link_le : ∀ ⦃t u⦄, g.LinksTo t u → u.index ≤ t.index
  /-- No link leads out of the graph. -/
  link_exists : ∀ ⦃m x b⦄, g.member? m = some x → b ∈ x.links → ∃ y, g.member? b = some y

theorem Layered.inherits_lt {g : TypeGraph} (layered : g.Layered) {t u : TypeId}
    (h : g.Inherits t u) : u.index < t.index := by
  induction h with
  | single h => exact layered.base_lt h
  | tail _ h ih => exact Nat.lt_trans (layered.base_lt h) ih

/-! ## Everything that a type inherits from -/

/-- Going through types depth first leads from the types visited before to those visited afterwards,
both in the order in which they are visited. A type that has been visited is passed over. After any
other one come the types that it names as base types, in the order of their declaration, and then
the types behind it. -/
inductive Traverses (g : TypeGraph) : List TypeId → List TypeId → List TypeId → Prop
  | done (visited : List TypeId) : Traverses g [] visited visited
  | skip {t : TypeId} {rest visited visited' : List TypeId} (seen : t ∈ visited)
      (after : Traverses g rest visited visited') : Traverses g (t :: rest) visited visited'
  | visit {t : TypeId} {ty : TypeSymbol} {rest visited visited₁ visited' : List TypeId}
      (new : t ∉ visited) (type : g.type? t = some ty)
      (below : Traverses g ty.baseTypes (visited ++ [t]) visited₁)
      (after : Traverses g rest visited₁ visited') : Traverses g (t :: rest) visited visited'

namespace Traverses

variable {g : TypeGraph} {ts us visited visited' : List TypeId}

/-- Two rows `ts` and `us` of types are gone through one after the other. -/
theorem append_iff : g.Traverses (ts ++ us) visited visited' ↔
    ∃ visited₁, g.Traverses ts visited visited₁ ∧ g.Traverses us visited₁ visited' := by
  constructor
  · intro h
    generalize hrow : ts ++ us = row at h
    induction h generalizing ts with
    | done visited =>
      obtain ⟨rfl, rfl⟩ := List.append_eq_nil_iff.1 hrow
      exact ⟨visited, .done _, .done _⟩
    | skip seen after ih =>
      rcases ts with _ | ⟨t, ts⟩
      · obtain rfl := hrow
        exact ⟨_, .done _, .skip seen after⟩
      · obtain ⟨rfl, rfl⟩ := List.cons.inj hrow
        obtain ⟨visited₁, hts, hus⟩ := ih rfl
        exact ⟨visited₁, .skip seen hts, hus⟩
    | visit new type below after _ ih =>
      rcases ts with _ | ⟨t, ts⟩
      · obtain rfl := hrow
        exact ⟨_, .done _, .visit new type below after⟩
      · obtain ⟨rfl, rfl⟩ := List.cons.inj hrow
        obtain ⟨visited₁, hts, hus⟩ := ih rfl
        exact ⟨visited₁, .visit new type below hts, hus⟩
  · rintro ⟨visited₁, hts, hus⟩
    induction hts with
    | done _ => exact hus
    | skip seen _ ih => exact .skip seen (ih hus)
    | visit new type below _ _ ih => exact .visit new type below (ih hus)

theorem subset (h : g.Traverses ts visited visited') : visited ⊆ visited' := by
  induction h with
  | done _ => exact fun _ ht => ht
  | skip _ _ ih => exact ih
  | visit _ _ _ _ ihBelow ihAfter =>
    exact fun t ht => ihAfter (ihBelow (List.mem_append_left _ ht))

/-- The types that are gone through are visited afterwards. -/
theorem row_subset (h : g.Traverses ts visited visited') : ts ⊆ visited' := by
  induction h with
  | done _ => exact List.nil_subset _
  | skip seen after ih => exact List.cons_subset.2 ⟨after.subset seen, ih⟩
  | visit _ _ below after _ ih =>
    exact List.cons_subset.2 ⟨after.subset (below.subset (by simp)), ih⟩

theorem nodup (h : g.Traverses ts visited visited') (hvisited : visited.Nodup) :
    visited'.Nodup := by
  induction h with
  | done _ => exact hvisited
  | skip _ _ ih => exact ih hvisited
  | visit new _ _ _ ihBelow ihAfter =>
    refine ihAfter (ihBelow (List.nodup_append.2 ⟨hvisited, List.pairwise_singleton _ _, ?_⟩))
    rintro a ha b hb rfl
    exact new (List.mem_singleton.1 hb ▸ ha)

/-- What is visited on the way is inherited from by whatever inherits from the types `ts`. -/
theorem inherits {t : TypeId} (h : g.Traverses ts visited visited')
    (hts : ∀ u ∈ ts, g.Inherits t u) : ∀ u ∈ visited', u ∈ visited ∨ g.Inherits t u := by
  induction h with
  | done _ => exact fun u hu => .inl hu
  | skip _ _ ih => exact ih fun u hu => hts u (.tail _ hu)
  | @visit v ty rest visited visited₁ visited' _ type _ _ ihBelow ihAfter =>
    have hv := hts v (.head _)
    intro u hu
    rcases ihAfter (fun u hu => hts u (.tail _ hu)) u hu with hu | hu
    · rcases ihBelow (fun b hb => hv.tail ⟨ty, type, hb⟩) u hu with hu | hu
      · rcases List.mem_append.1 hu with hu | hu
        · exact .inl hu
        · exact .inr (List.mem_singleton.1 hu ▸ hv)
      · exact .inr hu
    · exact .inr hu

end Traverses

/-- Keeping the types `pending` on a stack comes to a traversal of them. -/
theorem traverses_of_baseTypesFrom {g : TypeGraph} {steps : Nat}
    {pending seen l visited : List TypeId} (hseen : ∀ t, t ∈ seen ↔ t ∈ visited)
    (h : g.baseTypesFrom steps pending seen = .ok l) :
    g.Traverses pending visited (visited ++ l) := by
  induction steps generalizing pending seen l visited with
  | zero =>
    cases pending with
    | nil =>
      obtain rfl := Except.ok.inj h
      rw [List.append_nil]
      exact .done _
    | cons _ _ => cases h
  | succ steps ih =>
    cases pending with
    | nil =>
      obtain rfl := Except.ok.inj h
      rw [List.append_nil]
      exact .done _
    | cons t pending =>
      rw [baseTypesFrom] at h
      split at h
      · rename_i hmem
        exact .skip ((hseen t).1 (List.contains_iff_mem.1 hmem)) (ih hseen h)
      · rename_i hmem
        obtain ⟨ty, hty, h⟩ := bind_eq_ok.1 h
        obtain ⟨l', hl', h⟩ := bind_eq_ok.1 h
        obtain rfl := Except.ok.inj h
        have hnew : t ∉ visited := fun ht => hmem (List.contains_iff_mem.2 ((hseen t).2 ht))
        have hvisited (u : TypeId) : u ∈ t :: seen ↔ u ∈ visited ++ [t] := by
          rw [List.mem_cons, List.mem_append, List.mem_singleton, hseen, or_comm]
        -- The base types lie on top of the stack, so they are gone through first.
        obtain ⟨visited₁, hbelow, hafter⟩ := Traverses.append_iff.1 (ih hvisited hl')
        rw [List.append_cons]
        exact .visit hnew (typeOrFault_eq_ok_iff.1 hty) hbelow hafter

section

variable {g : TypeGraph} {ty : TypeSymbol} {l : List TypeId}

/-- The base types of `ty` are listed in the order of a traversal that begins at `ty`. -/
theorem traverses_of_allBaseTypes (h : g.allBaseTypes ty = .ok l) :
    g.Traverses ty.baseTypes [ty.id] (ty.id :: l) :=
  traverses_of_baseTypesFrom (fun _ => Iff.rfl) h

theorem nodup_of_allBaseTypes (h : g.allBaseTypes ty = .ok l) : (ty.id :: l).Nodup :=
  (traverses_of_allBaseTypes h).nodup (List.pairwise_singleton _ _)

/-- What is listed in `l` as a base type of `ty` is inherited from. -/
theorem inherits_of_mem_allBaseTypes {t : TypeId} (ht : g.type? t = some ty)
    (h : g.allBaseTypes ty = .ok l) : ∀ u ∈ l, g.Inherits t u := by
  intro u hu
  have hne : u ∉ [ty.id] := fun heq =>
    (List.nodup_cons.1 (nodup_of_allBaseTypes h)).1 (List.mem_singleton.1 heq ▸ hu)
  exact ((traverses_of_allBaseTypes h).inherits (fun b hb => .single ⟨ty, ht, hb⟩) u
    (.tail _ hu)).resolve_left hne

/-- The base types that `ty` names are listed. -/
theorem mem_allBaseTypes_of_mem_baseTypes (h : g.allBaseTypes ty = .ok l) {b : TypeId}
    (hb : b ∈ ty.baseTypes) (hne : b ≠ ty.id) : b ∈ l :=
  (List.mem_cons.1 ((traverses_of_allBaseTypes h).row_subset hb)).resolve_left hne

end

/-! ## Declarations in the latest type -/

/-- A graph that is well-formed and layered. -/
structure Linked (g : TypeGraph) : Prop extends WellFormed g, Layered g

/-- No type of the graph comes after `t`. -/
def IsLatest (g : TypeGraph) (t : TypeId) : Prop :=
  ∀ ⦃u ty⦄, g.type? u = some ty → u.index ≤ t.index

namespace Declares

variable {g g' : TypeGraph} {t : TypeId} {m : MemberSymbol} {accessors : List MemberSymbol}
  (h : Declares g t m accessors g')

include h

theorem namesBase {u b : TypeId} (hb : g'.NamesBase u b) : g.NamesBase u b := by
  obtain ⟨ty', hty', hb⟩ := hb
  obtain ⟨ty, hty, ⟨-, rfl⟩ | ⟨-, rfl⟩⟩ := h.type?_cases hty'
  · exact ⟨ty, hty, hb⟩
  · exact ⟨ty', hty, hb⟩

theorem isLatest (latest : g.IsLatest t) : g'.IsLatest t := by
  intro u ty' hu
  obtain ⟨ty, hty, -⟩ := h.type?_cases hu
  exact latest hty

/-- A member `m` of the latest type `t` may be linked to any member of the graph. -/
theorem linked (hg : g.Linked) (latest : g.IsLatest t)
    (hlinks : ∀ b ∈ m.links, ∃ y, g.member? b = some y)
    (haccessors : LinksAccessors g m accessors) : g'.Linked := by
  -- The links of old members lead to old members, and those of the new ones do as well.
  have hlink {k : MemberId} {x : MemberSymbol} (hk : g'.member? k = some x) {b : MemberId}
      (hb : b ∈ x.links) :
      ∃ y, g.member? b = some y ∧ y.declaringType.index ≤ x.declaringType.index := by
    obtain hk | ⟨rfl, rfl⟩ | ⟨i, hi, rfl⟩ := h.member?_cases hk
    · obtain ⟨y, hy⟩ := hg.link_exists hk hb
      exact ⟨y, hy, hg.link_le ⟨k, x, hk, rfl, b, hb, y, hy, rfl⟩⟩
    · obtain ⟨y, hy⟩ := hlinks b hb
      obtain ⟨ty, hty, -⟩ := hg.declaringType hy
      rw [h.declaringType]
      exact ⟨y, hy, latest hty⟩
    · obtain ⟨c, hc, hslot⟩ := haccessors x (List.mem_of_getElem? hi) b hb
      obtain ⟨z, hz⟩ := hlinks c hc
      obtain ⟨slot, hb⟩ := hslot z hz
      obtain ⟨y, hy, -⟩ := hg.accessor hz hb
      obtain ⟨ty, hty, -⟩ := hg.declaringType hy
      rw [(h.accessor i x hi).2.1]
      exact ⟨y, hy, latest hty⟩
  refine { h.wellFormed hg.toWellFormed with base_lt := ?_, link_le := ?_, link_exists := ?_ }
  · exact fun u b hb => hg.base_lt (h.namesBase hb)
  · rintro u v ⟨k, x, hk, rfl, b, hb, y, hy, rfl⟩
    obtain ⟨y', hy', hle⟩ := hlink hk hb
    obtain rfl := Option.some.inj (hy.symm.trans (h.member?_old hy'))
    exact hle
  · intro k x b hk hb
    obtain ⟨y, hy, -⟩ := hlink hk hb
    exact ⟨y, h.member?_old hy⟩

end Declares

theorem Linked.empty : (∅ : TypeGraph).Linked where
  toWellFormed := wellFormed_empty
  base_lt := fun _ _ ⟨_, h, _⟩ => nomatch h
  link_le := fun _ _ ⟨_, _, h, _⟩ => nomatch h
  link_exists := fun _ _ _ h _ => nomatch h

theorem Linked.of_eq {g g' : TypeGraph} (hg : g.Linked) (types : g'.types = g.types)
    (members : g'.members = g.members) : g'.Linked := by
  have wf := hg.toWellFormed.of_eq types members
  obtain ⟨assemblies, types', members'⟩ := g'
  subst types members
  exact ⟨wf, hg.base_lt, hg.link_le, hg.link_exists⟩

theorem Linked.declareType {g g' : TypeGraph} {assembly : AssemblyId} {d : TypeDeclaration}
    {t : TypeId} (hg : g.Linked) (hbases : ∀ b ∈ d.baseTypes, ∃ ty, g.type? b = some ty)
    (h : g.declareType assembly d = .ok (g', t)) : g'.Linked ∧ g'.IsLatest t := by
  have wf := hg.toWellFormed.declareType h
  obtain ⟨ty, rfl, rfl, -, -, hdeclared, -⟩ := eq_push_of_declareType h
  refine ⟨{ wf with base_lt := ?_, link_le := hg.link_le, link_exists := hg.link_exists }, ?_⟩
  · rintro u b ⟨ty', hu, hb⟩
    obtain hu | ⟨rfl, rfl⟩ := type?_push_cases hu
    · exact hg.base_lt ⟨ty', hu, hb⟩
    · obtain ⟨ty₀, hty₀⟩ := hbases b (hdeclared ▸ hb)
      exact index_lt_of_type? hty₀
  · intro u ty' hu
    obtain hu | ⟨rfl, rfl⟩ := type?_push_cases hu
    · exact Nat.le_of_lt (index_lt_of_type? hu)
    · exact Nat.le_refl _

end TypeGraph

/-! ## Documents -/

open TypeGraph

theorem type?_of_linkType {g : TypeGraph} (wf : g.WellFormed) {place fullName : String} {t : TypeId}
    (h : linkType g place fullName = .ok t) : ∃ ty, g.type? t = some ty := by
  unfold linkType at h
  split at h
  · rename_i found hfound
    obtain rfl := Except.ok.inj h
    obtain ⟨ty, hty, rfl⟩ := Option.map_eq_some_iff.1 hfound
    have hmem := List.mem_reverse.1 (List.mem_of_find?_eq_some hty)
    obtain ⟨i, hi⟩ := List.mem_iff_getElem?.1 hmem
    have htype : g.type? ⟨i⟩ = some ty := by
      rw [type?, ← hi, Array.getElem?_toList]
    exact ⟨ty, wf.type_id htype ▸ htype⟩
  · cases h

theorem member?_of_linkMember {g : TypeGraph} (wf : g.WellFormed) {place : String}
    {kind : EntityKind} {r : MemberReference} {m : MemberId}
    (h : linkMember g place kind r = .ok m) : ∃ x, g.member? m = some x := by
  obtain ⟨t, -, h⟩ := bind_eq_ok.1 h
  obtain ⟨ty, -, h⟩ := bind_eq_ok.1 h
  split at h
  · rename_i x hcandidates
    obtain rfl := Except.ok.inj h
    have hx : x ∈ r.candidates g kind ty := by
      rw [hcandidates]
      exact .head _
    obtain ⟨k, -, hk⟩ := List.mem_filterMap.1 (List.mem_filter.1 hx).1
    exact ⟨x, wf.member_id hk ▸ hk⟩
  · cases h
  · cases h

/-- The links that a document states by `overrides` and `implements` lead to members of `g`. -/
theorem links_of_linkMember {g : TypeGraph} (wf : g.WellFormed) {place : String}
    {kind : EntityKind} {overrides : Option MemberReference} {implements : List MemberReference}
    {overridden : Option MemberId} {implemented : List MemberId}
    (hoverridden : overrides.mapM (linkMember g place kind) = .ok overridden)
    (himplemented : implements.mapM (linkMember g place kind) = .ok implemented) {m : MemberSymbol}
    (ho : m.overridden = overridden) (hi : m.implements = implemented) :
    ∀ b ∈ m.links, ∃ y, g.member? b = some y := by
  subst ho hi
  intro b hb
  rcases MemberSymbol.mem_links.1 hb with hb | hb
  · rw [hb] at hoverridden
    obtain ⟨r, -, hr⟩ := exists_of_option_mapM hoverridden
    exact member?_of_linkMember wf hr
  · obtain ⟨r, -, hr⟩ := exists_of_mem_mapM himplemented hb
    exact member?_of_linkMember wf hr

section

variable {g g' : TypeGraph} {t : TypeId} {place : String}

theorem MethodEntry.linked {m : MethodEntry} (hg : g.Linked ∧ g.IsLatest t)
    (h : m.link place t g = .ok g') : g'.Linked ∧ g'.IsLatest t := by
  obtain ⟨overridden, hoverridden, h⟩ := bind_eq_ok.1 h
  obtain ⟨implemented, himplemented, h⟩ := bind_eq_ok.1 h
  obtain ⟨⟨g₁, id⟩, hdeclare, h⟩ := bind_eq_ok.1 h
  obtain rfl := Except.ok.inj h
  obtain ⟨x, hx, ho, hi, -⟩ := declares_of_declareMethod (mapError_eq_ok.1 hdeclare)
  refine ⟨hx.linked hg.1 hg.2 ?_ fun _ ha => (nomatch ha), hx.isLatest hg.2⟩
  exact links_of_linkMember hg.1.toWellFormed hoverridden himplemented ho hi

theorem PropertyEntry.linked {p : PropertyEntry} (hg : g.Linked ∧ g.IsLatest t)
    (h : p.link place t g = .ok g') : g'.Linked ∧ g'.IsLatest t := by
  obtain ⟨overridden, hoverridden, h⟩ := bind_eq_ok.1 h
  obtain ⟨implemented, himplemented, h⟩ := bind_eq_ok.1 h
  obtain ⟨⟨g₁, id⟩, hdeclare, h⟩ := bind_eq_ok.1 h
  obtain rfl := Except.ok.inj h
  obtain ⟨x, accessors, hx, haccessors, ho, hi, -⟩ :=
    declares_of_declareProperty (mapError_eq_ok.1 hdeclare)
  refine ⟨hx.linked hg.1 hg.2 ?_ haccessors, hx.isLatest hg.2⟩
  exact links_of_linkMember hg.1.toWellFormed hoverridden himplemented ho hi

theorem FieldEntry.linked {f : FieldEntry} (hg : g.Linked ∧ g.IsLatest t)
    (h : f.link t g = .ok g') : g'.Linked ∧ g'.IsLatest t := by
  obtain ⟨⟨g₁, id⟩, hdeclare, h⟩ := bind_eq_ok.1 h
  obtain rfl := Except.ok.inj h
  obtain ⟨x, hx, ho, hi, -⟩ := declares_of_declareField (mapError_eq_ok.1 hdeclare)
  refine ⟨hx.linked hg.1 hg.2 (fun b hb => ?_) fun _ ha => (nomatch ha), hx.isLatest hg.2⟩
  simp [MemberSymbol.mem_links, ho, hi] at hb

theorem EventEntry.linked {e : EventEntry} (hg : g.Linked ∧ g.IsLatest t)
    (h : e.link place t g = .ok g') : g'.Linked ∧ g'.IsLatest t := by
  obtain ⟨overridden, hoverridden, h⟩ := bind_eq_ok.1 h
  obtain ⟨implemented, himplemented, h⟩ := bind_eq_ok.1 h
  obtain ⟨⟨g₁, id⟩, hdeclare, h⟩ := bind_eq_ok.1 h
  obtain rfl := Except.ok.inj h
  obtain ⟨x, accessors, hx, haccessors, ho, hi, -⟩ :=
    declares_of_declareEvent (mapError_eq_ok.1 hdeclare)
  refine ⟨hx.linked hg.1 hg.2 ?_ haccessors, hx.isLatest hg.2⟩
  exact links_of_linkMember hg.1.toWellFormed hoverridden himplemented ho hi

end

theorem TypeEntry.linked {g g' : TypeGraph} {e : TypeEntry} (hg : g.Linked)
    (h : e.link g = .ok g') : g'.Linked := by
  unfold TypeEntry.link at h
  obtain ⟨htypes, hmembers⟩ := g.declareAssembly_eq e.assembly
  generalize g.declareAssembly e.assembly = declared at h htypes hmembers
  obtain ⟨g₀, assembly⟩ := declared
  have hg₀ := hg.of_eq htypes hmembers
  obtain ⟨declaringType, -, h⟩ := bind_eq_ok.1 h
  obtain ⟨baseTypes, hbases, h⟩ := bind_eq_ok.1 h
  obtain ⟨⟨g₁, t⟩, hdeclare, h⟩ := bind_eq_ok.1 h
  obtain ⟨g₂, hmethods, h⟩ := bind_eq_ok.1 h
  obtain ⟨g₃, hproperties, h⟩ := bind_eq_ok.1 h
  obtain ⟨g₄, hfields, h⟩ := bind_eq_ok.1 h
  have hg₁ : g₁.Linked ∧ g₁.IsLatest t := by
    refine hg₀.declareType (fun b hb => ?_) (mapError_eq_ok.1 hdeclare)
    obtain ⟨name, -, hname⟩ := exists_of_mem_mapM hbases hb
    exact type?_of_linkType hg₀.toWellFormed hname
  have hg₂ := foldlM_invariant (fun _ _ _ => MethodEntry.linked) hg₁ hmethods
  have hg₃ := foldlM_invariant (fun _ _ _ => PropertyEntry.linked) hg₂ hproperties
  have hg₄ := foldlM_invariant (fun _ _ _ => FieldEntry.linked) hg₃ hfields
  exact (foldlM_invariant (fun _ _ _ => EventEntry.linked) hg₄ h).1

/-- The graph of a document is well-formed and layered. -/
theorem GraphDocument.linked {d : GraphDocument} {g : TypeGraph} (h : d.link = .ok g) :
    g.Linked := by
  have hassemblies (names : List String) {g : TypeGraph} (hg : g.Linked) :
      (names.foldl (fun g name => (g.declareAssembly name).1) g).Linked := by
    induction names generalizing g with
    | nil => exact hg
    | cons name names ih =>
      obtain ⟨htypes, hmembers⟩ := g.declareAssembly_eq name
      exact ih (hg.of_eq htypes hmembers)
  exact foldlM_invariant (fun _ _ _ => TypeEntry.linked) (hassemblies d.assemblies .empty) h

/-! ## An example -/

/-- A public method `name` of the example, without parameters and markers. -/
def exampleMethodEntry (name : String) (isVirtual : Bool) (overrides : Option MemberReference) :
    MethodEntry :=
  ⟨name, .public, ⟨false, isVirtual, false, false⟩, [], [], overrides, [], []⟩

/-- A public class `name` of the example, with methods and fields only. -/
def exampleClassEntry (name : String) (baseTypes : List String) (methods : List MethodEntry)
    (fields : List FieldEntry) : TypeEntry :=
  ⟨name, "Zoo", "Zoo", .class, .public, false, [], none, baseTypes, [], methods, [], fields, []⟩

/-- A class `Animal` with a virtual method `Speak`, and a class `Dog` that overrides the method and
declares a field and another method, whose name collides with it. -/
def animals : GraphDocument where
  assemblies := []
  types := [
    exampleClassEntry "Animal" [] [exampleMethodEntry "Speak" true none] [],
    exampleClassEntry "Dog" ["Zoo.Animal"]
      [exampleMethodEntry "Speak" false (some ⟨"Zoo.Animal", "Speak", none⟩),
        exampleMethodEntry "speak" false none]
      [⟨"Name", .public, false, []⟩]]

/-- The graph of the example. -/
def animalGraph : TypeGraph := animals.link.toOption.getD ∅

theorem link_animals : animals.link = .ok animalGraph :=
  eq_ok_getD (by decide +kernel)

end ScriptNaming
