import ScriptNaming.Proofs.Identifiers
import ScriptNaming.Proofs.MinimizedTypeNames

/-!
# Legal names of types

Where the source names are legal, the script names are: if all types have identifiers as their
names and paths as their namespaces, then whatever markers the types carry, with whatever arguments,
every type that has a place in script gets a path as its name (`type_names_legal`).

The entry for a type depends on the entry for the type around it, whose name is taken apart and put
together again with the own name. That the name is legal is therefore kept by every new entry
(`legal_keptByEntries`).
-/

namespace ScriptNaming

/-- A type whose source name is an identifier, in no namespace or in one that is a path. -/
structure TypeSymbol.HasLegalName (ty : TypeSymbol) : Prop where
  name : isIdentifier ty.name
  space : ty.space = "" ∨ isIdentifierPath ty.space

instance (ty : TypeSymbol) : Decidable ty.HasLegalName :=
  decidable_of_iff (isIdentifier ty.name ∧ (ty.space = "" ∨ isIdentifierPath ty.space))
    ⟨fun h => ⟨h.1, h.2⟩, fun h => ⟨h.name, h.space⟩⟩

/-! ## Pieces of names -/

theorem isIdentifierPart_of_mem_toString {n : Nat} {c : Char} (h : c ∈ (toString n).toList) :
    isIdentifierPart c :=
  isIdentifierPart_of_isDigit (isDigit_of_mem_toString h)

theorem isIdentifier_firstMinimizedName (taken : NameSet) :
    isIdentifier (firstMinimizedName taken) := by
  obtain ⟨i, hname, -⟩ := firstMinimizedName_spec taken
  rw [hname]
  exact isIdentifier_dollar fun c hc => isIdentifierPart_of_mem_toString hc

theorem isIdentifier_withDollar {name : String} (h : isIdentifier name) :
    isIdentifier (withDollar name) := by
  unfold withDollar
  split
  · exact h
  · exact isIdentifier_dollar fun c hc => isIdentifierPart_of_mem_toList h hc

/-! ## Names of types -/

namespace TypeGraph

theorem mem_of_mem_enclosingWithin {g : TypeGraph} {steps : Nat} {ty u : TypeSymbol}
    (hty : ty ∈ g.types) (hu : u ∈ g.enclosingWithin steps ty) : u ∈ g.types := by
  induction steps generalizing ty with
  | zero => cases hu
  | succ steps ih =>
    rw [enclosingWithin] at hu
    split at hu
    · rename_i outer houter
      obtain ⟨t, -, ht⟩ := Option.bind_eq_some_iff.1 houter
      rcases List.mem_cons.1 hu with rfl | hu
      · exact hty
      · exact ih (Array.mem_of_getElem? ht) hu
    · obtain rfl := List.mem_singleton.1 hu
      exact hty

theorem outermost_mem {g : TypeGraph} {ty : TypeSymbol} (hty : ty ∈ g.types) :
    g.outermost ty ∈ g.types := by
  rw [outermost, List.getLastD_eq_getLast?]
  cases hlast : (g.enclosing ty).getLast? with
  | none => exact hty
  | some last => exact mem_of_mem_enclosingWithin hty (List.mem_of_getLast? hlast)

section

variable {g : TypeGraph} (hlegal : ∀ ty ∈ g.types, ty.HasLegalName) {options : Options}
  {taken : String → NameSet} {ty : TypeSymbol} {outer : Option ResolvedType}

include hlegal

/-- The namespace of `ty` is left out, is the argument of a valid marker, or is the one of the
source. -/
theorem scriptSpace_legal (hty : ty ∈ g.types) :
    (g.scriptSpace ty).1 = "" ∨ isIdentifierPath (g.scriptSpace ty).1 := by
  have hspace := (hlegal _ (outermost_mem hty)).space
  unfold scriptSpace
  dsimp only
  split
  · split
    · exact .inl rfl
    · exact hspace
  · split
    · rename_i space hfilter
      have hvalid := (Option.filter_eq_some_iff.1 hfilter).2
      simpa using hvalid
    · exact hspace

theorem arityName_legal (hty : ty ∈ g.types) : isIdentifier (g.arityName ty) := by
  have hname := (hlegal ty hty).name
  unfold arityName
  dsimp only
  split
  · exact isIdentifier_append_dollar (isIdentifier_iff.1 hname).1 fun c hc =>
      isIdentifierPart_of_mem_toString hc
  · exact hname

variable (houter : ∀ around, outer = some around →
  ∃ name, around.semantics.name? = some name ∧ isIdentifierPath name)

include houter

theorem defaultTypeName_legal (hty : ty ∈ g.types) : (g.defaultTypeName ty outer).1.IsLegal := by
  have harity := arityName_legal hlegal hty
  cases outer with
  | none => exact ⟨scriptSpace_legal hlegal hty, harity⟩
  | some around =>
    obtain ⟨name, hname, hpath⟩ := houter around rfl
    obtain ⟨hspace, hsimple⟩ := QualifiedName.isLegal_ofText hpath
    simp only [defaultTypeName, hname, Option.getD_some]
    exact ⟨hspace, isIdentifier_append_dollar (isIdentifier_iff.1 hsimple).1 fun c hc =>
      isIdentifierPart_of_mem_toList harity hc⟩

theorem derivedTypeName_legal (hty : ty ∈ g.types) :
    (g.derivedTypeName options taken ty outer).1.IsLegal := by
  have hdefault := defaultTypeName_legal hlegal houter hty
  unfold derivedTypeName
  dsimp only
  split
  · exact ⟨scriptSpace_legal hlegal hty, isIdentifier_firstMinimizedName _⟩
  · dsimp only
    split
    · exact ⟨hdefault.space, isIdentifier_withDollar hdefault.simple⟩
    · exact hdefault

theorem scriptTypeName_legal (hty : ty ∈ g.types) :
    (g.scriptTypeName options taken ty outer).1.IsLegal := by
  have hderived : (g.derivedTypeName options taken ty outer).1.IsLegal :=
    derivedTypeName_legal hlegal houter hty
  unfold scriptTypeName
  split
  · exact hderived
  · split
    · rename_i name hfilter
      exact ⟨scriptSpace_legal hlegal hty, (Option.filter_eq_some_iff.1 hfilter).2⟩
    · exact hderived

/-- Whatever is made of a type `ty` that has a place in script, its `name` is a path. -/
theorem resolvedType_legal (hty : ty ∈ g.types) {name : String}
    (hname : (g.resolvedType options taken ty outer).1.semantics.name? = some name) :
    isIdentifierPath name := by
  have hscript : (g.scriptTypeName options taken ty outer).1.IsLegal :=
    scriptTypeName_legal hlegal houter hty
  simp only [resolvedType, TypeSemantics.name?, Option.some.injEq] at hname
  rw [← hname]
  refine QualifiedName.IsLegal.text ?_
  split
  · exact ⟨.inl rfl, hscript.simple⟩
  · exact hscript

end

end TypeGraph

/-! ## Entries -/

section

variable {g : TypeGraph} {options : Options}

/-- That all names of types of `g` are paths is kept by every new entry: the name of the type around
it is. -/
theorem legal_keptByEntries (hlegal : ∀ ty ∈ g.types, ty.HasLegalName) :
    KeptByEntries g options fun types _ => ∀ t name, types.typeName? t = some name →
      isIdentifierPath name := by
  intro types typeNames t ty r hnames hty _ henters u name hname
  rw [Table.typeName?, Table.find?_insert] at hname
  split at hname
  · cases henters.fits with
    | marked has eq =>
      rw [eq] at hname
      cases hname
    | enclosed hasNot v around declaringType found unusable eq =>
      rw [eq] at hname
      cases hname
    | usable hasNot outer found usable taken eq =>
      rw [Option.bind_some, eq] at hname
      refine TypeGraph.resolvedType_legal hlegal (fun around haround => ?_)
        (Array.mem_of_getElem? hty) hname
      subst haround
      obtain ⟨v, -, hv⟩ := Option.map_eq_some_iff.1 found
      obtain ⟨outerName, houterName⟩ := Option.isSome_iff_exists.1 (usable around rfl)
      refine ⟨outerName, houterName, hnames v outerName ?_⟩
      rw [Table.typeName?, hv]
      exact houterName
  · exact hnames u name hname

end

/-- **Script names of types are legal**: if the source names of all types of `g` are identifiers and
their namespaces are paths, then in every resolution `r` the types that have a place in script have
paths as their names, whatever markers they carry and with whatever arguments. -/
theorem type_names_legal {g : TypeGraph} (hlegal : ∀ ty ∈ g.types, ty.HasLegalName)
    {options : Options} {roots : List TypeId} {main : AssemblyId} {r : Resolution}
    (h : g.resolve options roots main = .ok r) {t : TypeId} {resolved : ResolvedType}
    (ht : r.types.find? t = some resolved) (husable : resolved.isUsable) :
    ∃ name, resolved.semantics.name? = some name ∧ isIdentifierPath name := by
  obtain ⟨-, -, hnames⟩ := resolve_keepsTypes (legal_keptByEntries hlegal) (fun t name h => nomatch h) h
  obtain ⟨name, hname⟩ := Option.isSome_iff_exists.1 husable
  refine ⟨name, hname, hnames t name ?_⟩
  rw [Table.typeName?, ht]
  exact hname

/-- A generic class with another namespace in script, a generic class in it, and in that one a
hidden class that is to be called by a reserved word. -/
def shelfTypes : Except Fault TypeGraph := do
  let (g, core) := TypeGraph.declareAssembly ∅ "Core"
  let (g, shop) ← g.declareType core
    { name := "Shop", space := "Company.Sales", typeParameters := ["T"],
      attributes := [⟨"ScriptNamespace", [.str "Retail.Web"]⟩] }
  let (g, shelf) ← g.declareType core
    { name := "Shelf", typeParameters := ["K", "V"], declaringType := some shop }
  let (g, _) ← g.declareType core
    { name := "Label", accessibility := .private, declaringType := some shelf,
      attributes := [⟨"ScriptName", [.str "new"]⟩] }
  return g

/-- The graph of the shelves. -/
def shelfGraph : TypeGraph := shelfTypes.toOption.getD ∅

/-- The name of the hidden class is put together from those of the classes around it. -/
theorem label_name_legal :
    (∀ ty ∈ shelfGraph.types, ty.HasLegalName) ∧
      ∃ r resolved name, shelfGraph.resolve {} [⟨0⟩, ⟨1⟩, ⟨2⟩] ⟨0⟩ = .ok r ∧
        r.types.find? ⟨2⟩ = some resolved ∧ resolved.isUsable ∧
        resolved.semantics.name? = some name ∧
        name = "Retail.Web.$Shop$1$Shelf$2$Label" ∧ isIdentifierPath name := by
  have hlegal : ∀ ty ∈ shelfGraph.types, ty.HasLegalName := by decide +kernel
  have hrun : (shelfGraph.resolve {} [⟨0⟩, ⟨1⟩, ⟨2⟩] ⟨0⟩).toOption.any fun r =>
      (r.types.find? ⟨2⟩).any fun resolved => resolved.isUsable ∧
        resolved.semantics.name? = some "Retail.Web.$Shop$1$Shelf$2$Label" := by
    decide +kernel
  obtain ⟨r, hr, hrest⟩ := exists_of_any_toOption hrun
  obtain ⟨resolved, hfound, hrest⟩ := (Option.any_eq_true _ _).1 hrest
  obtain ⟨husable, htext⟩ := of_decide_eq_true hrest
  obtain ⟨name, hname, hpath⟩ := type_names_legal hlegal hr hfound husable
  exact ⟨hlegal, r, resolved, name, hr, hfound, husable, hname,
    Option.some.inj (hname.symm.trans htext), hpath⟩

end ScriptNaming
