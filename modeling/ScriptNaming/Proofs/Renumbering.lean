import ScriptNaming.Graph.Hierarchy
import ScriptNaming.Proofs.Lockstep
import Mathlib.Algebra.BigOperators.Fin
import Mathlib.Data.List.Perm.Basic
import Mathlib.Logic.Equiv.Basic

/-!
# Renumbered graphs

Two graphs declare the same when one comes from the other by renumbering types and members
(`TypeGraph.Renumbered`): every type and member has its counterpart, with all references moved
along, and only the order of declaration among the own members of a type may differ. Everything
that is read off a graph is then the same, or moves along as well: nesting and visibility
(`outermost`, `isPublicType`), names (`qualifiedName`), own members (`membersOf`) and inheritance
(`allBaseTypes`), each as a lemma of `TypeGraph.Renumbered`.
-/

namespace ScriptNaming

/-! ## Renumbering -/

/-- New numbers for types and members. -/
structure Renumbering where
  type : TypeId ≃ TypeId
  member : MemberId ≃ MemberId

/-- A kind of member with its references renumbered by `ρ`. -/
def MemberKind.renumber (ρ : Renumbering) : MemberKind → MemberKind
  | .method data => .method { data with accessorOf := data.accessorOf.map ρ.member }
  | .property data =>
    .property { data with getter := data.getter.map ρ.member, setter := data.setter.map ρ.member }
  | .field => .field
  | .event data => .event ⟨data.adder.map ρ.member, data.remover.map ρ.member⟩

namespace MemberSymbol

/-- The member `m` with its number and its references renumbered by `ρ`. -/
def renumber (ρ : Renumbering) (m : MemberSymbol) : MemberSymbol :=
  { m with
    id := ρ.member m.id
    declaringType := ρ.type m.declaringType
    overridden := m.overridden.map ρ.member
    implements := m.implements.map ρ.member
    kind := m.kind.renumber ρ }

variable (ρ : Renumbering) (m : MemberSymbol)

@[simp] theorem id_renumber : (m.renumber ρ).id = ρ.member m.id := rfl

@[simp] theorem name_renumber : (m.renumber ρ).name = m.name := rfl

@[simp] theorem declaringType_renumber :
    (m.renumber ρ).declaringType = ρ.type m.declaringType := rfl

@[simp] theorem accessibility_renumber : (m.renumber ρ).accessibility = m.accessibility := rfl

@[simp] theorem overridden_renumber :
    (m.renumber ρ).overridden = m.overridden.map ρ.member := rfl

@[simp] theorem implements_renumber :
    (m.renumber ρ).implements = m.implements.map ρ.member := rfl

@[simp] theorem kind_renumber : (m.renumber ρ).kind = m.kind.renumber ρ := rfl

@[simp] theorem has_renumber (marker : Marker) : (m.renumber ρ).has marker = m.has marker := rfl

@[simp] theorem markerText?_renumber (marker : Marker) :
    (m.renumber ρ).markerText? marker = m.markerText? marker := rfl

@[simp] theorem isStatic_renumber : (m.renumber ρ).isStatic = m.isStatic := rfl

@[simp] theorem isOverride_renumber : (m.renumber ρ).isOverride = m.isOverride := rfl

@[simp] theorem isOverridable_renumber : (m.renumber ρ).isOverridable = m.isOverridable := rfl

@[simp] theorem isMethod_renumber : (m.renumber ρ).isMethod = m.isMethod := by
  obtain ⟨_, _, _, _, _, _, _, _, kind⟩ := m
  cases kind <;> rfl

@[simp] theorem parameters_renumber : (m.renumber ρ).parameters = m.parameters := by
  obtain ⟨_, _, _, _, _, _, _, _, kind⟩ := m
  cases kind <;> rfl

@[simp] theorem typeParameters_renumber : (m.renumber ρ).typeParameters = m.typeParameters := by
  obtain ⟨_, _, _, _, _, _, _, _, kind⟩ := m
  cases kind <;> rfl

@[simp] theorem isIndexer_renumber : (m.renumber ρ).isIndexer = m.isIndexer := by
  obtain ⟨_, _, _, _, _, _, _, _, kind⟩ := m
  cases kind <;> rfl

@[simp] theorem accessor?_renumber (slot : AccessorSlot) :
    (m.renumber ρ).accessor? slot = (m.accessor? slot).map ρ.member := by
  obtain ⟨_, _, _, _, _, _, _, _, kind⟩ := m
  cases kind <;> cases slot <;> rfl

@[simp] theorem accessors_renumber :
    (m.renumber ρ).accessors = m.accessors.map ρ.member := by
  simp only [accessors, List.map_filterMap, accessor?_renumber]

@[simp] theorem kindRank_renumber : (m.renumber ρ).kindRank = m.kindRank := by
  obtain ⟨_, _, _, _, _, _, _, _, kind⟩ := m
  cases kind <;> rfl

@[simp] theorem parameterTypeList_renumber :
    (m.renumber ρ).parameterTypeList = m.parameterTypeList := by
  simp [parameterTypeList]

end MemberSymbol

/-- Two types are the same up to numbers and the order of declaration of their members. -/
structure TypeSymbol.Renumbered (ρ : Renumbering) (ty ty' : TypeSymbol) : Prop where
  id : ty'.id = ρ.type ty.id
  name : ty'.name = ty.name
  space : ty'.space = ty.space
  fullName : ty'.fullName = ty.fullName
  kind : ty'.kind = ty.kind
  accessibility : ty'.accessibility = ty.accessibility
  isStatic : ty'.isStatic = ty.isStatic
  assembly : ty'.assembly = ty.assembly
  typeParameters : ty'.typeParameters = ty.typeParameters
  declaringType : ty'.declaringType = ty.declaringType.map ρ.type
  baseTypes : ty'.baseTypes = ty.baseTypes.map ρ.type
  members : ty'.members.Perm (ty.members.map ρ.member)
  attributes : ty'.attributes = ty.attributes

namespace TypeSymbol.Renumbered

variable {ρ : Renumbering} {ty ty' : TypeSymbol}

theorem has (e : Renumbered ρ ty ty') (marker : Marker) : ty'.has marker = ty.has marker := by
  simp only [TypeSymbol.has, e.attributes]

theorem markerText? (e : Renumbered ρ ty ty') (marker : Marker) :
    ty'.markerText? marker = ty.markerText? marker := by
  simp only [TypeSymbol.markerText?, e.attributes]

theorem isInterface (e : Renumbered ρ ty ty') : ty'.isInterface = ty.isInterface := by
  simp only [TypeSymbol.isInterface, e.kind]

end TypeSymbol.Renumbered

/-- Two graphs are the same up to the numbers of types and members and the order of declaration
among the own members of each type. -/
structure TypeGraph.Renumbered (ρ : Renumbering) (g h : TypeGraph) : Prop where
  types : ∀ t, Option.Rel (TypeSymbol.Renumbered ρ) (g.type? t) (h.type? (ρ.type t))
  members : ∀ m, h.member? (ρ.member m) = (g.member? m).map (MemberSymbol.renumber ρ)

/-! ### The same numbers -/

/-- The renumbering that changes nothing. -/
def Renumbering.refl : Renumbering := ⟨.refl _, .refl _⟩

@[simp] theorem Renumbering.type_refl (t : TypeId) : Renumbering.refl.type t = t := rfl

@[simp] theorem Renumbering.member_refl (m : MemberId) : Renumbering.refl.member m = m := rfl

@[simp] theorem MemberSymbol.renumber_refl (m : MemberSymbol) : m.renumber .refl = m := by
  obtain ⟨_, _, _, _, _, overridden, implements, _, kind⟩ := m
  cases kind <;> simp [renumber, MemberKind.renumber, Renumbering.refl]

theorem renumber_refl_eq_id : MemberSymbol.renumber .refl = id :=
  funext MemberSymbol.renumber_refl

theorem TypeSymbol.Renumbered.refl (ty : TypeSymbol) : Renumbered .refl ty ty where
  id := rfl
  name := rfl
  space := rfl
  fullName := rfl
  kind := rfl
  accessibility := rfl
  isStatic := rfl
  assembly := rfl
  typeParameters := rfl
  declaringType := by simp [Renumbering.refl]
  baseTypes := by simp [Renumbering.refl]
  members := by simp [Renumbering.refl]
  attributes := rfl

theorem TypeGraph.Renumbered.refl (g : TypeGraph) : Renumbered .refl g g where
  types t := by
    rw [Renumbering.type_refl]
    cases g.type? t with
    | none => exact .none
    | some ty => exact .some (.refl ty)
  members m := by
    rw [Renumbering.member_refl]
    cases g.member? m <;> simp

/-! ## What graphs say of types and members -/

theorem TypeGraph.inheritanceCount_eq_sum (g : TypeGraph) :
    g.inheritanceCount =
      ∑ i ∈ Finset.range g.types.size, (g.type? ⟨i⟩).elim 0 fun ty => ty.baseTypes.length := by
  rw [Finset.sum_range, inheritanceCount, List.length_flatMap, ← Fin.sum_univ_getElem]
  refine Fintype.sum_equiv (finCongr (by simp)) _ _ fun i => ?_
  have hi : i < g.types.size := by simpa using i.isLt
  simp [type?, hi]

theorem sameOutcome_elementOrFault {α β : Type} {V : α → β → Prop} {xs : Array α} {ys : Array β}
    {i j : ℕ} (h : Option.Rel V xs[i]? ys[j]?) :
    SameOutcome True V (elementOrFault xs i) (elementOrFault ys j) := by
  unfold elementOrFault
  generalize xs[i]? = x at h ⊢
  generalize ys[j]? = y at h ⊢
  cases h with
  | none => trivial
  | some h => exact h

namespace TypeGraph.Renumbered

variable {ρ : Renumbering} {g h : TypeGraph} (e : Renumbered ρ g h)

include e

theorem typeOrFault (t : TypeId) :
    SameOutcome True (fun ty ty' => g.type? t = some ty ∧ h.type? (ρ.type t) = some ty' ∧
      TypeSymbol.Renumbered ρ ty ty') (g.typeOrFault t) (h.typeOrFault (ρ.type t)) := by
  apply sameOutcome_elementOrFault
  change Option.Rel _ (g.type? t) (h.type? (ρ.type t))
  have ht := e.types t
  generalize g.type? t = x at ht ⊢
  generalize h.type? (ρ.type t) = y at ht ⊢
  cases ht with
  | none => exact .none
  | some hty => exact .some ⟨rfl, rfl, hty⟩

theorem memberOrFault (m : MemberId) :
    SameOutcome True (fun x x' => g.member? m = some x ∧ x' = x.renumber ρ)
      (g.memberOrFault m) (h.memberOrFault (ρ.member m)) := by
  apply sameOutcome_elementOrFault
  change Option.Rel _ (g.member? m) (h.member? (ρ.member m))
  rw [e.members m]
  cases g.member? m with
  | none => exact .none
  | some x => exact .some ⟨rfl, rfl⟩

/-! ### Sizes -/

theorem index_lt_iff (t : TypeId) : (ρ.type t).index < h.types.size ↔ t.index < g.types.size := by
  have ht := e.types t
  have hnone : h.type? (ρ.type t) = none ↔ g.type? t = none := by
    generalize g.type? t = x at ht ⊢
    generalize h.type? (ρ.type t) = y at ht ⊢
    cases ht <;> simp
  rw [type?, type?, Array.getElem?_eq_none_iff, Array.getElem?_eq_none_iff] at hnone
  omega

/-- A sum over the numbers of types is the same after renumbering from `f` to `f'`. -/
theorem sum_types (f f' : ℕ → ℕ) (hf : ∀ t : TypeId, f' (ρ.type t).index = f t.index) :
    ∑ i ∈ Finset.range h.types.size, f' i = ∑ i ∈ Finset.range g.types.size, f i := by
  symm
  refine Finset.sum_bij (fun i _ => (ρ.type ⟨i⟩).index) ?_ ?_ ?_ ?_
  · intro i hi
    simpa [e.index_lt_iff] using hi
  · intro i _ j _ hij
    have hij : ρ.type ⟨i⟩ = ρ.type ⟨j⟩ := congrArg TypeId.mk hij
    exact congrArg TypeId.index (ρ.type.injective hij)
  · intro j hj
    have hj' : ρ.type (ρ.type.symm ⟨j⟩) = ⟨j⟩ := ρ.type.apply_symm_apply _
    refine ⟨(ρ.type.symm ⟨j⟩).index, ?_, congrArg TypeId.index hj'⟩
    rw [Finset.mem_range, ← e.index_lt_iff]
    simpa using hj
  · intro i _
    exact (hf ⟨i⟩).symm

theorem size_types : h.types.size = g.types.size := by
  simpa using e.sum_types (fun _ => 1) (fun _ => 1) fun _ => rfl

theorem inheritanceCount : h.inheritanceCount = g.inheritanceCount := by
  rw [inheritanceCount_eq_sum, inheritanceCount_eq_sum]
  refine e.sum_types _ _ fun t => ?_
  have ht := e.types t
  change ((h.type? (ρ.type t)).elim 0 _) = (g.type? t).elim 0 _
  generalize g.type? t = x at ht ⊢
  generalize h.type? (ρ.type t) = y at ht ⊢
  cases ht with
  | none => rfl
  | some hty => simp [hty.baseTypes]

/-! ### Nesting -/

/-- The type around `ty`, if there is one in the graph. -/
theorem outer {ty ty' : TypeSymbol} (hty : TypeSymbol.Renumbered ρ ty ty') :
    Option.Rel (TypeSymbol.Renumbered ρ) (ty.declaringType.bind g.type?)
      (ty'.declaringType.bind h.type?) := by
  rw [hty.declaringType]
  cases ty.declaringType with
  | none => exact .none
  | some t => exact e.types t

theorem enclosingWithin (steps : ℕ) {ty ty' : TypeSymbol} (hty : TypeSymbol.Renumbered ρ ty ty') :
    List.Forall₂ (TypeSymbol.Renumbered ρ) (g.enclosingWithin steps ty)
      (h.enclosingWithin steps ty') := by
  induction steps generalizing ty ty' with
  | zero => exact .nil
  | succ steps ih =>
    have houter := e.outer hty
    rw [TypeGraph.enclosingWithin, TypeGraph.enclosingWithin]
    generalize ty.declaringType.bind g.type? = x at houter ⊢
    generalize ty'.declaringType.bind h.type? = y at houter ⊢
    cases houter with
    | none => exact .cons hty .nil
    | some h => exact .cons hty (ih h)

theorem enclosing {ty ty' : TypeSymbol} (hty : TypeSymbol.Renumbered ρ ty ty') :
    List.Forall₂ (TypeSymbol.Renumbered ρ) (g.enclosing ty) (h.enclosing ty') := by
  rw [TypeGraph.enclosing, TypeGraph.enclosing, e.size_types]
  exact e.enclosingWithin _ hty

theorem outermost {ty ty' : TypeSymbol} (hty : TypeSymbol.Renumbered ρ ty ty') :
    TypeSymbol.Renumbered ρ (g.outermost ty) (h.outermost ty') := by
  have hall := e.enclosing hty
  unfold TypeGraph.outermost
  generalize g.enclosing ty = l at hall ⊢
  generalize h.enclosing ty' = l' at hall ⊢
  induction hall generalizing ty ty' with
  | nil => exact hty
  | cons hab _ ih => simpa only [List.getLastD_cons] using ih hab

theorem isPublicType {ty ty' : TypeSymbol} (hty : TypeSymbol.Renumbered ρ ty ty') :
    h.isPublicType ty' = g.isPublicType ty := by
  have hall := e.enclosing hty
  unfold TypeGraph.isPublicType
  generalize g.enclosing ty = l at hall ⊢
  generalize h.enclosing ty' = l' at hall ⊢
  induction hall with
  | nil => rfl
  | cons hab _ ih => simp only [List.all_cons, ih, hab.accessibility]

theorem isPublicMember (m : MemberSymbol) :
    h.isPublicMember (m.renumber ρ) = g.isPublicMember m := by
  have ht := e.types m.declaringType
  simp only [TypeGraph.isPublicMember, MemberSymbol.declaringType_renumber,
    MemberSymbol.accessibility_renumber]
  generalize g.type? m.declaringType = x at ht ⊢
  generalize h.type? (ρ.type m.declaringType) = y at ht ⊢
  cases ht with
  | none => rfl
  | some hty => simp only [Option.any_some, e.isPublicType hty]

/-! ### Names -/

theorem ownerName (m : MemberSymbol) : h.ownerName (m.renumber ρ) = g.ownerName m := by
  have ht := e.types m.declaringType
  simp only [TypeGraph.ownerName, MemberSymbol.declaringType_renumber]
  generalize g.type? m.declaringType = x at ht ⊢
  generalize h.type? (ρ.type m.declaringType) = y at ht ⊢
  cases ht with
  | none => rfl
  | some hty => simp only [Option.map_some, hty.fullName]

theorem qualifiedName (m : MemberSymbol) :
    h.qualifiedName (m.renumber ρ) = g.qualifiedName m := by
  simp only [TypeGraph.qualifiedName, e.ownerName, MemberSymbol.name_renumber]

theorem memberDiagnostic (m : MemberSymbol) (category : String) (kind : DiagnosticKind)
    (message : String → String) :
    memberDiagnostic h (m.renumber ρ) category kind message =
      memberDiagnostic g m category kind message := by
  simp only [ScriptNaming.memberDiagnostic, e.qualifiedName]

/-! ### Own members -/

theorem filterMap_member? (ms : List MemberId) :
    (ms.map ρ.member).filterMap h.member? =
      (ms.filterMap g.member?).map (MemberSymbol.renumber ρ) := by
  rw [List.filterMap_map, List.map_filterMap]
  congr 1
  funext m
  exact e.members m

theorem membersOf {ty ty' : TypeSymbol} (hty : TypeSymbol.Renumbered ρ ty ty') :
    (h.membersOf ty').Perm ((g.membersOf ty).map (MemberSymbol.renumber ρ)) := by
  rw [TypeGraph.membersOf, TypeGraph.membersOf, ← e.filterMap_member?]
  exact hty.members.filterMap _

theorem declaresData {ty ty' : TypeSymbol} (hty : TypeSymbol.Renumbered ρ ty ty') :
    h.declaresData ty' = g.declaresData ty := by
  rw [TypeGraph.declaresData, TypeGraph.declaresData, (e.membersOf hty).any_eq, List.any_map]
  simp only [Function.comp_def, MemberSymbol.isMethod_renumber]

theorem methodsNamed {ty ty' : TypeSymbol} (hty : TypeSymbol.Renumbered ρ ty ty')
    (name : String) :
    (h.methodsNamed ty' name).Perm ((g.methodsNamed ty name).map (MemberSymbol.renumber ρ)) := by
  have hperm := (e.membersOf hty).filter fun m => m.isMethod && m.name == name
  rw [List.filter_map] at hperm
  simpa only [TypeGraph.methodsNamed, Function.comp_def, MemberSymbol.isMethod_renumber,
    MemberSymbol.name_renumber] using hperm

/-! ### Inheritance -/

theorem baseTypesFrom (steps : ℕ) (pending seen : List TypeId) :
    SameOutcome True (fun l l' => l' = l.map ρ.type) (g.baseTypesFrom steps pending seen)
      (h.baseTypesFrom steps (pending.map ρ.type) (seen.map ρ.type)) := by
  induction steps generalizing pending seen with
  | zero => cases pending <;> trivial
  | succ steps ih =>
    cases pending with
    | nil => rfl
    | cons t pending =>
      have hseen : (seen.map ρ.type).contains (ρ.type t) = seen.contains t := by
        rw [Bool.eq_iff_iff]
        simp
      rw [List.map_cons, TypeGraph.baseTypesFrom, TypeGraph.baseTypesFrom, hseen]
      split
      · exact ih pending seen
      · refine (e.typeOrFault t).bind fun ty ty' hty => ?_
        rw [hty.2.2.baseTypes, ← List.map_append, ← List.map_cons]
        refine (ih (ty.baseTypes ++ pending) (t :: seen)).bind fun rest rest' hrest => ?_
        exact congrArg (ρ.type t :: ·) hrest

theorem allBaseTypes {ty ty' : TypeSymbol} (hty : TypeSymbol.Renumbered ρ ty ty') :
    SameOutcome True (fun l l' => l' = l.map ρ.type) (g.allBaseTypes ty) (h.allBaseTypes ty') := by
  have hfrom := e.baseTypesFrom g.inheritanceCount ty.baseTypes [ty.id]
  rwa [TypeGraph.allBaseTypes, TypeGraph.allBaseTypes, e.inheritanceCount, hty.baseTypes, hty.id]

end TypeGraph.Renumbered

end ScriptNaming
