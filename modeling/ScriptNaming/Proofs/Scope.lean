import ScriptNaming.Proofs.Layered

/-!
# What references see

A reference in a document is looked up among what is declared so far, of which it sees a `Scope`:
the full names of types, and what tells their own members apart. A type name means the latest type
that has it (`Scope.Names`), and a member reference the only own member of such a type that fits it
(`Scope.Means`). Linking finds what references mean (`linkType_eq_ok_iff`, `linkMember_eq_ok_iff`),
and declarations add to the end of a scope (`TypeGraph.Declares.scope`).
-/

namespace ScriptNaming

/-! ## Places in lists -/

section

variable {α : Type} {l : List α} {p : α → Bool} {x : α}

theorem exists_append_of_getElem? {i : Nat} (h : l[i]? = some x) :
    ∃ before after, l = before ++ x :: after ∧ before.length = i := by
  obtain ⟨hi, rfl⟩ := List.getElem?_eq_some_iff.1 h
  refine ⟨l.take i, l.drop (i + 1), ?_, List.length_take_of_le (Nat.le_of_lt hi)⟩
  rw [← List.drop_eq_getElem_cons hi, List.take_append_drop]

theorem getElem?_append_cons_cases {before after : List α} {k : Nat} {y : α}
    (h : (before ++ x :: after)[k]? = some y) :
    (k < before.length ∧ y ∈ before) ∨ (k = before.length ∧ y = x) ∨
      (before.length < k ∧ y ∈ after) := by
  rw [List.getElem?_append] at h
  split at h
  · rename_i hlt
    exact .inl ⟨hlt, List.mem_of_getElem? h⟩
  · rename_i hle
    cases hk : k - before.length with
    | zero =>
      rw [hk, List.getElem?_cons_zero] at h
      exact .inr (.inl ⟨by omega, (Option.some.inj h).symm⟩)
    | succ i =>
      rw [hk, List.getElem?_cons_succ] at h
      exact .inr (.inr ⟨by omega, List.mem_of_getElem? h⟩)

theorem getElem?_after {before after : List α} {k : Nat} :
    (before ++ x :: after)[before.length + (k + 1)]? = after[k]? := by
  rw [List.getElem?_append_right (Nat.le_add_right ..), Nat.add_sub_cancel_left,
    List.getElem?_cons_succ]

/-- A filter leaves one element exactly if it stands at the one place that passes. -/
theorem filter_eq_singleton_iff : l.filter p = [x] ↔
    ∃ i : Nat, l[i]? = some x ∧ p x ∧ ∀ (k : Nat) y, l[k]? = some y → p y → k = i := by
  rw [List.filter_eq_cons_iff]
  constructor
  · rintro ⟨before, after, rfl, hbefore, hx, hafter⟩
    refine ⟨before.length, by simp, hx, fun k y hk hy => ?_⟩
    obtain ⟨-, hmem⟩ | ⟨rfl, -⟩ | ⟨-, hmem⟩ := getElem?_append_cons_cases hk
    · exact absurd hy (hbefore y hmem)
    · rfl
    · exact absurd hy (List.filter_eq_nil_iff.1 hafter y hmem)
  · rintro ⟨i, hi, hx, hunique⟩
    obtain ⟨before, after, rfl, rfl⟩ := exists_append_of_getElem? hi
    refine ⟨before, after, rfl, fun y hy hpy => ?_, hx, List.filter_eq_nil_iff.2 fun y hy hpy => ?_⟩
    · obtain ⟨k, hk⟩ := List.mem_iff_getElem?.1 hy
      obtain ⟨hlt, -⟩ := List.getElem?_eq_some_iff.1 hk
      have hplace := hunique k y (by rw [List.getElem?_append_left hlt, hk]) hpy
      omega
    · obtain ⟨k, hk⟩ := List.mem_iff_getElem?.1 hy
      have hplace := hunique (before.length + (k + 1)) y (getElem?_after.trans hk) hpy
      omega

/-- The last element that passes is found from the end. -/
theorem find?_reverse_eq_some_iff : l.reverse.find? p = some x ↔
    ∃ i : Nat, l[i]? = some x ∧ p x ∧ ∀ (k : Nat) y, l[k]? = some y → p y → k ≤ i := by
  rw [List.find?_eq_some_iff_append]
  constructor
  · rintro ⟨hx, after, before, hl, hafter⟩
    obtain rfl : l = before.reverse ++ x :: after.reverse := by
      rw [← l.reverse_reverse, hl]
      simp
    refine ⟨before.reverse.length, by simp, hx, fun k y hk hy => ?_⟩
    obtain ⟨hlt, -⟩ | ⟨rfl, -⟩ | ⟨-, hmem⟩ := getElem?_append_cons_cases hk
    · exact Nat.le_of_lt hlt
    · exact Nat.le_refl _
    · have hnot := hafter y (List.mem_reverse.1 hmem)
      rw [hy] at hnot
      cases hnot
  · rintro ⟨i, hi, hx, hlast⟩
    obtain ⟨before, after, rfl, rfl⟩ := exists_append_of_getElem? hi
    refine ⟨hx, after.reverse, before.reverse, by simp, fun y hy => ?_⟩
    obtain ⟨k, hk⟩ := List.mem_iff_getElem?.1 (List.mem_reverse.1 hy)
    cases hpy : p y with
    | false => rfl
    | true =>
      have hplace := hlast (before.length + (k + 1)) y (getElem?_after.trans hk) hpy
      omega

end

/-! ## Scopes -/

/-- What references tell a member by. -/
structure MemberHead where
  kind : EntityKind
  name : String
  parameterTypes : List String
  deriving DecidableEq, Repr

/-- What references tell a type by, with its own members. -/
structure TypeHead where
  fullName : String
  members : List MemberHead
  deriving DecidableEq, Repr

/-- The type `t` with one more member `x`. -/
def TypeHead.declare (t : TypeHead) (x : MemberHead) : TypeHead :=
  { t with members := t.members ++ [x] }

/-- The types that are declared so far, in their order. -/
abbrev Scope := List TypeHead

/-- A reference from a member of a kind fits a member: that has the same kind and the name, and the
parameter types where the reference states them. -/
structure MemberReference.Fits (r : MemberReference) (kind : EntityKind) (x : MemberHead) :
    Prop where
  kind : x.kind = kind
  name : x.name = r.name
  parameters : ∀ types, r.parameters = some types → types = x.parameterTypes

namespace Scope

/-- The full name means the type at `j`: the latest one that has it. -/
structure Names (s : Scope) (fullName : String) (j : Nat) : Prop where
  named : ∃ t, s[j]? = some t ∧ t.fullName = fullName
  latest : ∀ k t, s[k]? = some t → t.fullName = fullName → k ≤ j

/-- The reference, from a member of a kind, means the own member at `l` of the type at `j`: the only
one that fits it. -/
structure Means (s : Scope) (kind : EntityKind) (r : MemberReference) (j l : Nat) : Prop where
  type : s.Names r.typeName j
  fits : ∃ t x, s[j]? = some t ∧ t.members[l]? = some x ∧ r.Fits kind x
  unique : ∀ t k x, s[j]? = some t → t.members[k]? = some x → r.Fits kind x → k = l

/-- A full name that some type has means the latest such type. -/
theorem exists_names {s : Scope} {fullName : String} {t : TypeHead}
    (ht : t ∈ s) (hname : t.fullName = fullName) : ∃ j, s.Names fullName j := by
  have hfound : (s.reverse.find? (·.fullName == fullName)).isSome :=
    List.find?_isSome.2 ⟨t, List.mem_reverse.2 ht, beq_iff_eq.2 hname⟩
  obtain ⟨t', ht'⟩ := Option.isSome_iff_exists.1 hfound
  obtain ⟨j, hj, hname', hlatest⟩ := find?_reverse_eq_some_iff.1 ht'
  exact ⟨j, ⟨t', hj, eq_of_beq hname'⟩, fun k u hk hu => hlatest k u hk (beq_iff_eq.2 hu)⟩

end Scope

/-! ## The scope that a graph offers -/

/-- What references tell the member `m` by. -/
def MemberSymbol.head (m : MemberSymbol) : MemberHead :=
  ⟨m.entityKind, m.name, m.parameters.map Parameter.typeName⟩

namespace TypeGraph

/-- What references tell the type `ty` by. -/
def typeHead (g : TypeGraph) (ty : TypeSymbol) : TypeHead :=
  ⟨ty.fullName, (g.membersOf ty).map MemberSymbol.head⟩

/-- What `g` shows to references. -/
def scope (g : TypeGraph) : Scope := g.types.toList.map g.typeHead

/-- The own member at `l` of the type at `j`. -/
def ownMember? (g : TypeGraph) (j l : Nat) : Option MemberId :=
  (g.type? ⟨j⟩).bind fun ty => ty.members[l]?

/-- In the scope `s`, the reference `r` means the member `m` of `g`. -/
def Refers (g : TypeGraph) (s : Scope) (kind : EntityKind) (r : MemberReference) (m : MemberId) :
    Prop :=
  ∃ j l, s.Means kind r j l ∧ g.ownMember? j l = some m

theorem getElem?_scope (g : TypeGraph) (j : Nat) :
    g.scope[j]? = (g.type? ⟨j⟩).map g.typeHead := by
  rw [scope, List.getElem?_map, Array.getElem?_toList, type?]

theorem length_scope (g : TypeGraph) : g.scope.length = g.types.size := by
  rw [scope, List.length_map, Array.length_toList]

theorem names_scope_iff {g : TypeGraph} {fullName : String} {j : Nat} :
    g.scope.Names fullName j ↔ ∃ ty, g.type? ⟨j⟩ = some ty ∧ ty.fullName = fullName ∧
      ∀ k ty', g.type? ⟨k⟩ = some ty' → ty'.fullName = fullName → k ≤ j := by
  have hlookup (k : Nat) (t : TypeHead) :
      g.scope[k]? = some t ↔ ∃ ty, g.type? ⟨k⟩ = some ty ∧ g.typeHead ty = t := by
    rw [getElem?_scope, Option.map_eq_some_iff]
  constructor
  · rintro ⟨⟨t, ht, hname⟩, hlatest⟩
    obtain ⟨ty, hty, rfl⟩ := (hlookup j t).1 ht
    refine ⟨ty, hty, hname, fun k ty' hty' hname' => ?_⟩
    exact hlatest k _ ((hlookup k _).2 ⟨ty', hty', rfl⟩) hname'
  · rintro ⟨ty, hty, hname, hlatest⟩
    refine ⟨⟨_, (hlookup j _).2 ⟨ty, hty, rfl⟩, hname⟩, fun k t ht hname' => ?_⟩
    obtain ⟨ty', hty', rfl⟩ := (hlookup k t).1 ht
    exact hlatest k ty' hty' hname'

section

variable {g : TypeGraph} (wf : g.WellFormed)

include wf

theorem WellFormed.typeNamed?_eq_some_iff {fullName : String} {t : TypeId} :
    g.typeNamed? fullName = some t ↔ g.scope.Names fullName t.index := by
  have hlookup (k : Nat) (ty : TypeSymbol) :
      g.types.toList[k]? = some ty ↔ g.type? ⟨k⟩ = some ty := by
    rw [Array.getElem?_toList, type?]
  rw [typeNamed?, Option.map_eq_some_iff, names_scope_iff]
  constructor
  · rintro ⟨ty, hty, rfl⟩
    obtain ⟨i, hi, hname, hlatest⟩ := find?_reverse_eq_some_iff.1 hty
    obtain rfl : ty.id.index = i := congrArg TypeId.index (wf.type_id ((hlookup i ty).1 hi))
    refine ⟨ty, (hlookup _ ty).1 hi, eq_of_beq hname, fun k ty' hty' hname' => ?_⟩
    exact hlatest k ty' ((hlookup k ty').2 hty') (beq_iff_eq.2 hname')
  · rintro ⟨ty, hty, hname, hlatest⟩
    refine ⟨ty, find?_reverse_eq_some_iff.2 ⟨t.index, (hlookup _ ty).2 hty, beq_iff_eq.2 hname, ?_⟩,
      wf.type_id hty⟩
    exact fun k ty' hty' hname' => hlatest k ty' ((hlookup k ty').1 hty') (eq_of_beq hname')

/-- The own members of `ty` are those at the numbers that it lists. -/
theorem WellFormed.getElem?_membersOf {t : TypeId} {ty : TypeSymbol} (ht : g.type? t = some ty)
    (l : Nat) : (g.membersOf ty)[l]? = ty.members[l]?.bind g.member? := by
  have hfound : ∀ m ∈ ty.members, ∃ x, g.member? m = some x := fun m hm => by
    obtain ⟨x, hx, -⟩ := wf.listed ht hm
    exact ⟨x, hx⟩
  rw [membersOf]
  generalize ty.members = members at hfound
  induction members generalizing l with
  | nil => rfl
  | cons m members ih =>
    obtain ⟨x, hx⟩ := hfound m (.head _)
    rw [List.filterMap_cons, hx]
    cases l with
    | zero => exact hx.symm
    | succ l => exact ih l fun k hk => hfound k (.tail _ hk)

/-- An own member `m` is seen at its place `l`. -/
theorem WellFormed.exists_head {t : TypeId} {ty : TypeSymbol} (ht : g.type? t = some ty) {l : Nat}
    {m : MemberId} (hm : ty.members[l]? = some m) :
    ∃ x, g.member? m = some x ∧ (g.typeHead ty).members[l]? = some x.head := by
  obtain ⟨x, hx, -⟩ := wf.listed ht (List.mem_of_getElem? hm)
  refine ⟨x, hx, ?_⟩
  rw [typeHead, List.getElem?_map, wf.getElem?_membersOf ht, hm, Option.bind_some, hx,
    Option.map_some]

theorem WellFormed.length_membersOf {t : TypeId} {ty : TypeSymbol} (ht : g.type? t = some ty) :
    (g.membersOf ty).length = ty.members.length := by
  rw [membersOf, List.filterMap_length_eq_length]
  intro m hm
  obtain ⟨x, hx, -⟩ := wf.listed ht hm
  rw [hx, Option.isSome_some]

theorem WellFormed.linkType_eq_ok_iff {place fullName : String} {t : TypeId} :
    linkType g place fullName = .ok t ↔ g.scope.Names fullName t.index := by
  rw [← wf.typeNamed?_eq_some_iff, linkType]
  cases g.typeNamed? fullName with
  | none => exact ⟨fun h => (nomatch h), fun h => (nomatch h)⟩
  | some t' =>
    exact ⟨fun h => congrArg _ (Except.ok.inj h), fun h => congrArg _ (Option.some.inj h)⟩

end

end TypeGraph

theorem MemberReference.fits_iff {r : MemberReference} {kind : EntityKind} {x : MemberSymbol} :
    (x.entityKind == kind && r.fits x) = true ↔ r.Fits kind x.head := by
  rw [Bool.and_eq_true, MemberReference.fits, Bool.and_eq_true]
  constructor
  · rintro ⟨hkind, hname, hparameters⟩
    refine ⟨eq_of_beq hkind, eq_of_beq hname, fun types htypes => ?_⟩
    rw [htypes, Option.all_some] at hparameters
    exact eq_of_beq hparameters
  · rintro ⟨hkind, hname, hparameters⟩
    refine ⟨beq_iff_eq.2 hkind, beq_iff_eq.2 hname, ?_⟩
    cases htypes : r.parameters with
    | none => rfl
    | some types => exact beq_iff_eq.2 (hparameters types htypes)

namespace TypeGraph

/-- The candidates for the reference `r` come down to one member `x` exactly if that is the only own
member that fits. -/
theorem WellFormed.candidates_eq_singleton_iff {g : TypeGraph} (wf : g.WellFormed) {t : TypeId}
    {ty : TypeSymbol} (ht : g.type? t = some ty) {kind : EntityKind} {r : MemberReference}
    {x : MemberSymbol} : r.candidates g kind ty = [x] ↔
      ∃ l : Nat, ty.members[l]? = some x.id ∧ g.member? x.id = some x ∧ r.Fits kind x.head ∧
        ∀ (k : Nat) y, (g.typeHead ty).members[k]? = some y → r.Fits kind y → k = l := by
  have hown (k : Nat) (y : MemberSymbol) : (g.membersOf ty)[k]? = some y ↔
      ty.members[k]? = some y.id ∧ g.member? y.id = some y := by
    rw [wf.getElem?_membersOf ht, Option.bind_eq_some_iff]
    constructor
    · rintro ⟨m, hm, hy⟩
      rw [wf.member_id hy]
      exact ⟨hm, hy⟩
    · rintro ⟨hm, hy⟩
      exact ⟨y.id, hm, hy⟩
  rw [MemberReference.candidates, filter_eq_singleton_iff]
  constructor
  · rintro ⟨l, hl, hfits, hunique⟩
    obtain ⟨hm, hx⟩ := (hown l x).1 hl
    refine ⟨l, hm, hx, MemberReference.fits_iff.1 hfits, fun k y hk hy => ?_⟩
    obtain ⟨x', hx', rfl⟩ := Option.map_eq_some_iff.1 ((List.getElem?_map ..).symm.trans hk)
    exact hunique k x' hx' (MemberReference.fits_iff.2 hy)
  · rintro ⟨l, hm, hx, hfits, hunique⟩
    refine ⟨l, (hown l x).2 ⟨hm, hx⟩, MemberReference.fits_iff.2 hfits, fun k y hk hy => ?_⟩
    refine hunique k y.head ?_ (MemberReference.fits_iff.1 hy)
    rw [typeHead, List.getElem?_map, hk, Option.map_some]

/-- Linking finds the member `m` that the reference `r` means, and nothing where it means none. -/
theorem WellFormed.linkMember_eq_ok_iff {g : TypeGraph} (wf : g.WellFormed) {place : String}
    {kind : EntityKind} {r : MemberReference} {m : MemberId} :
    linkMember g place kind r = .ok m ↔ g.Refers g.scope kind r m := by
  constructor
  · intro h
    obtain ⟨t, ht, h⟩ := bind_eq_ok.1 h
    obtain ⟨ty, hty, h⟩ := bind_eq_ok.1 h
    have htype := typeOrFault_eq_ok_iff.1 (mapError_eq_ok.1 hty)
    have hhead : g.scope[t.index]? = some (g.typeHead ty) := by
      rw [getElem?_scope, htype, Option.map_some]
    split at h
    · rename_i x hcandidates
      obtain rfl := Except.ok.inj h
      obtain ⟨l, hl, hx, hfits, hunique⟩ := (wf.candidates_eq_singleton_iff htype).1 hcandidates
      obtain ⟨x', hx', hplace⟩ := wf.exists_head htype hl
      obtain rfl := Option.some.inj (hx.symm.trans hx')
      refine ⟨t.index, l, ⟨wf.linkType_eq_ok_iff.1 ht, ⟨_, x.head, hhead, hplace, hfits⟩, ?_⟩, ?_⟩
      · intro t' k y ht' hk hy
        obtain rfl := Option.some.inj (hhead.symm.trans ht')
        exact hunique k y hk hy
      · rw [ownMember?, htype, Option.bind_some, hl]
    · cases h
    · cases h
  · rintro ⟨j, l, ⟨hnames, ⟨t, y, ht, hy, hfits⟩, hunique⟩, hm⟩
    obtain ⟨ty, hty, hm⟩ := Option.bind_eq_some_iff.1 hm
    have hhead : g.scope[j]? = some (g.typeHead ty) := by
      rw [getElem?_scope, hty, Option.map_some]
    obtain rfl := Option.some.inj (hhead.symm.trans ht)
    obtain ⟨x, hx, hplace⟩ := wf.exists_head hty hm
    obtain rfl := wf.member_id hx
    obtain rfl := Option.some.inj (hplace.symm.trans hy)
    have hcandidates : r.candidates g kind ty = [x] :=
      (wf.candidates_eq_singleton_iff hty).2
        ⟨l, hm, hx, hfits, fun k y hk hy' => hunique _ k y hhead hk hy'⟩
    refine bind_eq_ok.2 ⟨⟨j⟩, wf.linkType_eq_ok_iff.2 hnames, bind_eq_ok.2 ⟨ty, ?_, ?_⟩⟩
    · exact mapError_eq_ok.2 (typeOrFault_eq_ok_iff.2 hty)
    · simp only [hcandidates]

/-- The member `m` that a reference `r` means is in the graph, and of the kind that the reference
asks for. -/
theorem Refers.exists_member {g : TypeGraph} (wf : g.WellFormed) {kind : EntityKind}
    {r : MemberReference} {m : MemberId} (h : g.Refers g.scope kind r m) :
    ∃ x, g.member? m = some x ∧ x.entityKind = kind := by
  obtain ⟨j, l, ⟨-, ⟨t, y, ht, hy, hfits⟩, -⟩, hm⟩ := h
  obtain ⟨ty, hty, hm⟩ := Option.bind_eq_some_iff.1 hm
  obtain ⟨x, hx, hplace⟩ := wf.exists_head hty hm
  rw [getElem?_scope, hty, Option.map_some] at ht
  obtain rfl := Option.some.inj ht
  obtain rfl := Option.some.inj (hplace.symm.trans hy)
  exact ⟨x, hx, hfits.kind⟩

section

variable {g : TypeGraph} (wf : g.WellFormed) {place : String} {kind : EntityKind}

include wf

/-- What a reference `r` means is a member of the graph. -/
theorem WellFormed.exists_refers {r : MemberReference} {j l : Nat}
    (h : g.scope.Means kind r j l) : ∃ m, g.Refers g.scope kind r m := by
  obtain ⟨t, x, ht, hx, -⟩ := h.fits
  obtain ⟨ty, hty, rfl⟩ := Option.map_eq_some_iff.1 ((g.getElem?_scope j).symm.trans ht)
  rw [typeHead, List.getElem?_map, wf.getElem?_membersOf hty] at hx
  obtain ⟨y, hy, -⟩ := Option.map_eq_some_iff.1 hx
  obtain ⟨m, hm, -⟩ := Option.bind_eq_some_iff.1 hy
  exact ⟨m, j, l, h, by rw [ownMember?, hty, Option.bind_some, hm]⟩

theorem WellFormed.refers_of_option_mapM {r : Option MemberReference} {m : Option MemberId}
    (h : r.mapM (linkMember g place kind) = .ok m) :
    Option.Rel (g.Refers g.scope kind) r m :=
  rel_imp (rel_of_option_mapM h) fun _ _ hm => wf.linkMember_eq_ok_iff.1 hm

theorem WellFormed.refers_of_mapM {references : List MemberReference} {members : List MemberId}
    (h : references.mapM (linkMember g place kind) = .ok members) :
    List.Forall₂ (g.Refers g.scope kind) references members :=
  (forall₂_of_mapM h).imp fun _ _ hm => wf.linkMember_eq_ok_iff.1 hm

end

/-! ## Scopes and declarations -/

/-- Declaring a member `m` adds it to the own members of its type `t`. -/
theorem Declares.scope {g g' : TypeGraph} {t : TypeId} {m : MemberSymbol}
    {accessors : List MemberSymbol} (h : Declares g t m accessors g') (wf : g.WellFormed) :
    g'.scope = g.scope.modify t.index (·.declare m.head) := by
  -- The members that the old graph lists are the same in the new one.
  have hold {u : TypeId} {ty : TypeSymbol} (hu : g.type? u = some ty) :
      ty.members.filterMap g'.member? = ty.members.filterMap g.member? := by
    refine List.filterMap_congr fun k hk => ?_
    obtain ⟨x, hx, -⟩ := wf.listed hu hk
    rw [hx, h.member?_old hx]
  refine List.ext_getElem? fun j => ?_
  rw [List.getElem?_modify, getElem?_scope, getElem?_scope, h.type?_eq]
  by_cases hj : (⟨j⟩ : TypeId) = t
  · obtain ⟨ty, hty⟩ := h.type
    subst hj
    rw [if_pos rfl, hty]
    simp only [Option.map_some, Option.map_eq_map, if_true, typeHead, membersOf, TypeHead.declare,
      List.filterMap_append, hold hty, h.member?_self, List.filterMap_cons, List.filterMap_nil,
      List.map_append, List.map_cons, List.map_nil]
  · have hne : t.index ≠ j := fun heq => hj (heq ▸ rfl)
    rw [if_neg hj, Option.map_eq_map]
    cases hty : g.type? ⟨j⟩ with
    | none => rfl
    | some ty => simp only [Option.map_some, if_neg hne, typeHead, membersOf, hold hty]

/-- Declaring a member `m` leaves the own members where they are, and puts `m` after them. -/
theorem Declares.ownMember?_cases {g g' : TypeGraph} {t : TypeId} {m : MemberSymbol}
    {accessors : List MemberSymbol} (h : Declares g t m accessors g') {j l : Nat} {k : MemberId}
    (hk : g'.ownMember? j l = some k) : g.ownMember? j l = some k ∨
      (j = t.index ∧ k = m.id ∧ ∃ ty, g.type? t = some ty ∧ l = ty.members.length) := by
  obtain ⟨ty', hty', hk⟩ := Option.bind_eq_some_iff.1 hk
  obtain ⟨ty, hty, ⟨rfl, rfl⟩ | ⟨-, rfl⟩⟩ := h.type?_cases hty'
  · obtain ⟨hlt, hmem⟩ | ⟨rfl, rfl⟩ | ⟨-, hmem⟩ := getElem?_append_cons_cases hk
    · rw [List.getElem?_append_left hlt] at hk
      exact .inl (by rw [ownMember?, hty, Option.bind_some, hk])
    · exact .inr ⟨rfl, rfl, ty, hty, rfl⟩
    · cases hmem
  · exact .inl (by rw [ownMember?, hty, Option.bind_some, hk])

theorem Declares.ownMember?_old {g g' : TypeGraph} {t : TypeId} {m : MemberSymbol}
    {accessors : List MemberSymbol} (h : Declares g t m accessors g') {j l : Nat} {k : MemberId}
    (hk : g.ownMember? j l = some k) : g'.ownMember? j l = some k := by
  obtain ⟨ty, hty, hk⟩ := Option.bind_eq_some_iff.1 hk
  rw [ownMember?, h.type?_eq]
  split
  · rename_i hj
    obtain ⟨hlt, -⟩ := List.getElem?_eq_some_iff.1 hk
    rw [← hj, hty, Option.map_some, Option.bind_some, List.getElem?_append_left hlt, hk]
  · rw [hty, Option.bind_some, hk]

/-- A type without members has none at any place. -/
theorem ownMember?_push (g : TypeGraph) {ty : TypeSymbol} (hmembers : ty.members = [])
    (assemblies : Array String) (j l : Nat) :
    (⟨assemblies, g.types.push ty, g.members⟩ : TypeGraph).ownMember? j l = g.ownMember? j l := by
  rw [ownMember?, ownMember?, type?, type?, Array.getElem?_push]
  split
  · rename_i hj
    rw [Option.bind_some, hmembers, List.getElem?_nil,
      Array.getElem?_eq_none (Nat.le_of_eq hj.symm), Option.bind_none]
  · rfl

/-- Declaring a type adds it at the end. -/
theorem scope_push (g : TypeGraph) {ty : TypeSymbol} (hmembers : ty.members = [])
    (assemblies : Array String) :
    (⟨assemblies, g.types.push ty, g.members⟩ : TypeGraph).scope =
      g.scope ++ [⟨ty.fullName, []⟩] := by
  simp only [scope, Array.toList_push, List.map_append, List.map_cons, List.map_nil]
  rw [typeHead, membersOf, hmembers]
  rfl

end TypeGraph

end ScriptNaming
