import ScriptNaming.Proofs.Nesting
import ScriptNaming.Proofs.ReachedStates
import Std.Data.String.ToNat

/-!
# Default names of types

Where neither markers nor minimization have a say in it, the simple script name of a type is spelled
in pieces between dollar signs: the source names of the type and of the types around it, from the
outside in, each followed by its number of own type parameters if it has any
(`pieces`). A hidden type may have a dollar sign in front of that.

Source names without dollar signs and without leading digits can be told from numbers, so that the
pieces determine the types' path (`pieces_injective`), and the script name determines the namespace
and the path (`default_type_names_injective`): `List` and `List<T>` stay apart, and so do nested
types and types at the top level.
-/

namespace ScriptNaming

/-! ## Pieces between dollar signs -/

/-- Whether the source name `name` can be told from a number and from several names: it is not
empty, does not begin with a digit and contains neither a dollar sign nor a dot. -/
def isPlainName (name : String) : Bool :=
  name != "" && !name.toList.head?.any Char.isDigit && name.toList.all fun c => c != '$' && c != '.'

/-- The pieces that the source name and the number of own type parameters in `p` are spelled in. -/
def piecesOf (p : String × Nat) : List (List Char) :=
  p.1.toList :: if 0 < p.2 then [(toString p.2).toList] else []

/-- The pieces that `path` is spelled in. -/
def pieces (path : List (String × Nat)) : List (List Char) := path.flatMap piecesOf

/-- The texts `pieces` with dollar signs between them. -/
def dollarJoin (pieces : List (List Char)) : List Char := ['$'].intercalate pieces

theorem dollarJoin_append {ps qs : List (List Char)} (hp : ps ≠ []) (hq : qs ≠ []) :
    dollarJoin (ps ++ qs) = dollarJoin ps ++ '$' :: dollarJoin qs := by
  induction ps with
  | nil => exact absurd rfl hp
  | cons p ps ih =>
    cases ps with
    | nil => simp [dollarJoin, List.intercalate_cons_of_ne_nil hq]
    | cons p' ps =>
      have htail := ih (List.cons_ne_nil p' ps)
      simp only [dollarJoin, List.cons_append, List.intercalate_cons_cons] at htail ⊢
      rw [htail]
      simp

theorem mem_dollarJoin {ps : List (List Char)} {c : Char} (h : c ∈ dollarJoin ps) :
    c = '$' ∨ ∃ p ∈ ps, c ∈ p := by
  induction ps with
  | nil => simp [dollarJoin] at h
  | cons p ps ih =>
    cases ps with
    | nil => exact .inr ⟨p, .head _, by simpa [dollarJoin] using h⟩
    | cons p' ps =>
      simp only [dollarJoin, List.intercalate_cons_cons, List.mem_append, List.mem_singleton] at h
      rcases h with (h | h) | h
      · exact .inr ⟨p, .head _, h⟩
      · exact .inl h
      · obtain hc | ⟨q, hq, hc⟩ := ih h
        · exact .inl hc
        · exact .inr ⟨q, .tail _ hq, hc⟩

/-- Pieces `ps` and `qs` without dollar signs can be read back. -/
theorem dollarJoin_injective {ps qs : List (List Char)} (hp : ps ≠ []) (hq : qs ≠ [])
    (hp' : ∀ p ∈ ps, '$' ∉ p) (hq' : ∀ q ∈ qs, '$' ∉ q) (h : dollarJoin ps = dollarJoin qs) :
    ps = qs := by
  rw [← List.splitOn_intercalate '$' hp' hp, ← List.splitOn_intercalate '$' hq' hq]
  exact congrArg _ h

/-! ## Names and numbers -/

section

variable {name : String}

theorem isPlainName_iff : isPlainName name ↔
    name.toList ≠ [] ∧ (∀ c ∈ name.toList.head?, ¬c.isDigit) ∧
      ∀ c ∈ name.toList, c ≠ '$' ∧ c ≠ '.' := by
  cases h : name.toList.head? <;> simp [isPlainName, and_assoc, h]

theorem isDigit_of_mem_toString {n : Nat} {c : Char} (h : c ∈ (toString n).toList) : c.isDigit := by
  have hdigits : c ∈ Nat.toDigits 10 n := by simpa [toString, Nat.repr] using h
  exact Nat.isDigit_of_mem_toDigits (by decide) (by decide) hdigits

theorem toString_ne_nil (n : Nat) : (toString n).toList ≠ [] := by
  simp [toString, Nat.repr, Nat.toDigits_ne_nil]

/-- No piece of `path`, which has plain names, contains a dollar sign or a dot. -/
theorem not_mem_piece {path : List (String × Nat)} (h : ∀ p ∈ path, isPlainName p.1)
    {piece : List Char} (hpiece : piece ∈ pieces path) : '$' ∉ piece ∧ '.' ∉ piece := by
  obtain ⟨⟨name, arity⟩, hp, hmem⟩ := List.mem_flatMap.1 hpiece
  rcases List.mem_cons.1 hmem with rfl | hmem
  · obtain ⟨-, -, hchars⟩ := isPlainName_iff.1 (h _ hp)
    exact ⟨fun hc => (hchars _ hc).1 rfl, fun hc => (hchars _ hc).2 rfl⟩
  · split at hmem
    · obtain rfl := List.mem_singleton.1 hmem
      constructor
      · exact fun hc => absurd (isDigit_of_mem_toString hc) (by decide)
      · exact fun hc => absurd (isDigit_of_mem_toString hc) (by decide)
    · cases hmem

/-- A number is no plain name. -/
theorem toString_ne_of_isPlainName (hname : isPlainName name) (n : Nat) :
    (toString n).toList ≠ name.toList := by
  intro h
  obtain ⟨-, hhead, -⟩ := isPlainName_iff.1 hname
  obtain ⟨c, cs, hcs⟩ := List.exists_cons_of_ne_nil (toString_ne_nil n)
  refine hhead c ?_ (isDigit_of_mem_toString (n := n) ?_)
  · rw [← h, hcs]
    rfl
  · rw [hcs]
    exact .head _

end

/-- The first piece of `path` is not the number `n`. -/
theorem pieces_ne_number_cons {path : List (String × Nat)} (h : ∀ p ∈ path, isPlainName p.1)
    (n : Nat) (rest : List (List Char)) : pieces path ≠ (toString n).toList :: rest := by
  cases path with
  | nil => simp [pieces]
  | cons p path =>
    intro heq
    obtain ⟨hname, -⟩ := List.cons.inj heq
    exact toString_ne_of_isPlainName (h p (.head _)) n hname.symm

/-- The first piece of `path` is not empty. -/
theorem pieces_ne_nil_cons {path : List (String × Nat)} (h : ∀ p ∈ path, isPlainName p.1)
    (rest : List (List Char)) : pieces path ≠ [] :: rest := by
  cases path with
  | nil => simp [pieces]
  | cons p path =>
    intro heq
    obtain ⟨hname, -⟩ := List.cons.inj heq
    exact (isPlainName_iff.1 (h p (.head _))).1 hname

/-- The pieces of `path` determine it: a piece after a name that is a number is the number of type
parameters. -/
theorem pieces_injective {path path' : List (String × Nat)} (h : ∀ p ∈ path, isPlainName p.1)
    (h' : ∀ p ∈ path', isPlainName p.1) (heq : pieces path = pieces path') : path = path' := by
  induction path generalizing path' with
  | nil =>
    cases path' with
    | nil => rfl
    | cons p' path' => simp [pieces, piecesOf] at heq
  | cons p path ih =>
    cases path' with
    | nil => simp [pieces, piecesOf] at heq
    | cons p' path' =>
      obtain ⟨name, arity⟩ := p
      obtain ⟨name', arity'⟩ := p'
      have hrest : ∀ p ∈ path, isPlainName p.1 := fun p hp => h p (.tail _ hp)
      have hrest' : ∀ p ∈ path', isPlainName p.1 := fun p hp => h' p (.tail _ hp)
      change name.toList :: ((if 0 < arity then [(toString arity).toList] else []) ++ pieces path) =
        name'.toList :: ((if 0 < arity' then [(toString arity').toList] else []) ++ pieces path')
        at heq
      obtain ⟨hname, htail⟩ := List.cons.inj heq
      obtain rfl := String.toList_injective hname
      by_cases harity : 0 < arity <;> by_cases harity' : 0 < arity'
      · rw [if_pos harity, if_pos harity'] at htail
        obtain ⟨hnumber, hpieces⟩ := List.cons.inj htail
        obtain rfl := Nat.repr_inj.1 (String.toList_injective hnumber)
        rw [ih hrest hrest' hpieces]
      · rw [if_pos harity, if_neg harity'] at htail
        exact absurd htail.symm (pieces_ne_number_cons hrest' arity _)
      · rw [if_neg harity, if_pos harity'] at htail
        exact absurd htail (pieces_ne_number_cons hrest arity' _)
      · rw [if_neg harity, if_neg harity'] at htail
        obtain rfl : arity = arity' := by omega
        rw [ih hrest hrest' htail]

/-! ## The path of a type -/

namespace TypeGraph

/-- The type `ty` and the types around it, from the outside in, each by its source name and its
number of own type parameters. -/
def sourcePath (g : TypeGraph) (ty : TypeSymbol) : List (String × Nat) :=
  (g.enclosing ty).reverse.map fun x => (x.name, x.ownArity (x.declaringType.bind g.type?))

variable {g : TypeGraph} {ty : TypeSymbol}

theorem sourcePath_of_toplevel (h : ty.declaringType = none) :
    g.sourcePath ty = [(ty.name, ty.ownArity none)] := by
  simp [sourcePath, enclosing_eq_singleton h, h]

theorem WellFormed.sourcePath_of_nested (wf : g.WellFormed) {t u : TypeId} {outer : TypeSymbol}
    (hty : g.type? t = some ty) (hu : ty.declaringType = some u) (houter : g.type? u = some outer) :
    g.sourcePath ty = g.sourcePath outer ++ [(ty.name, ty.ownArity (some outer))] := by
  simp [sourcePath, wf.enclosing_eq_cons hty hu houter, hu, houter]

theorem sourcePath_ne_nil (g : TypeGraph) (ty : TypeSymbol) : g.sourcePath ty ≠ [] := by
  unfold sourcePath enclosing
  rw [enclosingWithin]
  split <;> simp

theorem toList_arityName (g : TypeGraph) (ty : TypeSymbol) : (g.arityName ty).toList =
    dollarJoin (piecesOf (ty.name, ty.ownArity (ty.declaringType.bind g.type?))) := by
  unfold arityName piecesOf dollarJoin
  dsimp only
  split
  · simp
  · simp

end TypeGraph

/-- Whether the name of `ty` is left to the default rules: its source name is plain, and it has no
marker that bears on its name. -/
def TypeSymbol.isNamedByDefault (ty : TypeSymbol) : Bool :=
  isPlainName ty.name &&
    [.scriptName, .scriptNamespace, .ignoreNamespace, .globalMethods].all (!ty.has ·)

/-- A name that spells the path of a type in the namespace of the type. -/
structure TypeGraph.Spells (g : TypeGraph) (ty : TypeSymbol) (name : QualifiedName) : Prop where
  space : name.space = ty.space
  plain : ∀ p ∈ g.sourcePath ty, isPlainName p.1
  /-- An empty piece in front makes a dollar sign in front. -/
  spelled : ∃ lead, (lead = [] ∨ lead = [[]]) ∧
    name.simple.toList = dollarJoin (lead ++ pieces (g.sourcePath ty))

namespace TypeGraph.Spells

variable {g : TypeGraph} {ty ty' : TypeSymbol} {name : QualifiedName}

theorem pieces_ne_nil (g : TypeGraph) (ty : TypeSymbol) : pieces (g.sourcePath ty) ≠ [] := by
  obtain ⟨p, path, hpath⟩ := List.exists_cons_of_ne_nil (g.sourcePath_ne_nil ty)
  simp [hpath, pieces, piecesOf]

theorem not_mem_piece (h : g.Spells ty name) {lead : List (List Char)}
    (hlead : lead = [] ∨ lead = [[]]) {piece : List Char}
    (hpiece : piece ∈ lead ++ pieces (g.sourcePath ty)) : '$' ∉ piece ∧ '.' ∉ piece := by
  rcases List.mem_append.1 hpiece with hpiece | hpiece
  · rcases hlead with rfl | rfl
    · cases hpiece
    · obtain rfl := List.mem_singleton.1 hpiece
      simp
  · exact ScriptNaming.not_mem_piece h.plain hpiece

theorem not_mem_dot (h : g.Spells ty name) : '.' ∉ name.simple.toList := by
  obtain ⟨lead, hlead, hspelled⟩ := h.spelled
  rw [hspelled]
  intro hdot
  rcases mem_dollarJoin hdot with hdollar | ⟨piece, hpiece, hdot⟩
  · exact absurd hdollar (by decide)
  · exact (h.not_mem_piece hlead hpiece).2 hdot

/-- A dollar sign in front of `name` makes no difference to what is spelled. -/
theorem withDollar (h : g.Spells ty name) :
    g.Spells ty { name with simple := ScriptNaming.withDollar name.simple } := by
  refine ⟨h.space, h.plain, ?_⟩
  obtain ⟨lead, hlead, hspelled⟩ := h.spelled
  unfold ScriptNaming.withDollar
  split
  · exact ⟨lead, hlead, hspelled⟩
  rename_i hhead
  refine ⟨[[]], .inr rfl, ?_⟩
  have hjoin := dollarJoin_append (List.cons_ne_nil [] []) (pieces_ne_nil g ty)
  rcases hlead with rfl | rfl
  · rw [hjoin, ← List.nil_append (pieces _), ← hspelled]
    simp [dollarJoin]
  · rw [hspelled, hjoin] at hhead
    simp [dollarJoin] at hhead

/-- The type `ty`, which is not nested, is spelled by its own name. -/
theorem of_toplevel (hplain : isPlainName ty.name) (htop : ty.declaringType = none) :
    g.Spells ty ⟨ty.space, g.arityName ty⟩ := by
  have hpath := sourcePath_of_toplevel (g := g) htop
  refine ⟨rfl, ?_, [], .inl rfl, ?_⟩
  · simp [hpath, hplain]
  · simp [toList_arityName, hpath, htop, pieces]

/-- The nested type `ty` is spelled like the type `outer` around it and then by its own name. -/
theorem of_nested (wf : g.WellFormed) {t u : TypeId} {outer : TypeSymbol}
    (hty : g.type? t = some ty) (hu : ty.declaringType = some u) (houter : g.type? u = some outer)
    (hspace : ty.space = outer.space) (hplain : isPlainName ty.name) (h : g.Spells outer name) :
    g.Spells ty ⟨name.space, name.simple ++ "$" ++ g.arityName ty⟩ := by
  have hpath := wf.sourcePath_of_nested hty hu houter
  obtain ⟨lead, hlead, hspelled⟩ := h.spelled
  refine ⟨h.space.trans hspace.symm, fun p hp => ?_, lead, hlead, ?_⟩
  · rw [hpath] at hp
    rcases List.mem_append.1 hp with hp | hp
    · exact h.plain p hp
    · obtain rfl := List.mem_singleton.1 hp
      exact hplain
  · have houtermost : lead ++ pieces (g.sourcePath outer) ≠ [] :=
      List.append_ne_nil_of_right_ne_nil _ (pieces_ne_nil g outer)
    have hown : piecesOf (ty.name, ty.ownArity (some outer)) ≠ [] := List.cons_ne_nil _ _
    have hpieces : pieces (g.sourcePath ty) =
        pieces (g.sourcePath outer) ++ piecesOf (ty.name, ty.ownArity (some outer)) := by
      simp [hpath, pieces]
    rw [hpieces, ← List.append_assoc, dollarJoin_append houtermost hown, ← hspelled]
    simp [toList_arityName, hu, houter]

/-- Two types `ty` and `ty'` that are spelled alike have the same namespace and the same path. -/
theorem unique (h : g.Spells ty name) (h' : g.Spells ty' name) :
    ty.space = ty'.space ∧ g.sourcePath ty = g.sourcePath ty' := by
  refine ⟨h.space.symm.trans h'.space, ?_⟩
  obtain ⟨lead, hlead, hspelled⟩ := h.spelled
  obtain ⟨lead', hlead', hspelled'⟩ := h'.spelled
  have heq : lead ++ pieces (g.sourcePath ty) = lead' ++ pieces (g.sourcePath ty') := by
    refine dollarJoin_injective ?_ ?_ (fun p hp => (h.not_mem_piece hlead hp).1)
      (fun p hp => (h'.not_mem_piece hlead' hp).1) (hspelled.symm.trans hspelled')
    · exact List.append_ne_nil_of_right_ne_nil _ (pieces_ne_nil g ty)
    · exact List.append_ne_nil_of_right_ne_nil _ (pieces_ne_nil g ty')
  refine pieces_injective h.plain h'.plain ?_
  rcases hlead with rfl | rfl <;> rcases hlead' with rfl | rfl
  · exact heq
  · exact absurd heq (pieces_ne_nil_cons h.plain _)
  · exact absurd heq.symm (pieces_ne_nil_cons h'.plain _)
  · exact (List.cons.inj heq).2

end TypeGraph.Spells

/-! ## Entries for types -/

section

variable {g : TypeGraph} {options : Options} (hmin : ¬options.minimizeNames)

include hmin

/-- Without minimization, a type that is named by default is entered with its default name, behind a
dollar sign if it is hidden. -/
theorem name?_resolvedType {taken : String → NameSet} {ty : TypeSymbol}
    {outer : Option ResolvedType} (hdefault : ty.isNamedByDefault) :
    (g.resolvedType options taken ty outer).1.semantics.name? =
      some (if !g.isPublicType ty && !ty.preservesName then
          { (g.defaultTypeName ty outer).1 with
            simple := withDollar (g.defaultTypeName ty outer).1.simple }
        else (g.defaultTypeName ty outer).1).text := by
  simp only [TypeSymbol.isNamedByDefault, List.all_cons, List.all_nil, Bool.and_eq_true,
    Bool.not_eq_true'] at hdefault
  obtain ⟨-, hname, -, -, hglobal, -⟩ := hdefault
  have hmarker : ty.markerText? .scriptName = none := by
    rw [← Option.not_isSome_iff_eq_none, TypeSymbol.markerText?, Attribute.isSome_text?_eq_has]
    exact Bool.eq_false_iff.1 hname
  simp [TypeGraph.resolvedType, TypeGraph.scriptTypeName, TypeGraph.derivedTypeName,
    TypeGraph.globalMethods, hmarker, hglobal, hmin, TypeSemantics.name?]

variable (wf : g.WellFormed) (nests : g.NestsTypes)
  (hdefault : ∀ ty ∈ g.types, ty.isNamedByDefault)

omit hmin in
/-- The namespace of a type that is not nested is its script namespace. -/
theorem defaultTypeName_of_toplevel {ty : TypeSymbol} (hty : ty.isNamedByDefault)
    (htop : ty.declaringType = none) :
    (g.defaultTypeName ty none).1 = ⟨ty.space, g.arityName ty⟩ := by
  simp only [TypeSymbol.isNamedByDefault, List.all_cons, List.all_nil, Bool.and_eq_true,
    Bool.not_eq_true'] at hty
  obtain ⟨-, -, hspace, hignore, -⟩ := hty
  have hmarker : ty.markerText? .scriptNamespace = none := by
    rw [← Option.not_isSome_iff_eq_none, TypeSymbol.markerText?, Attribute.isSome_text?_eq_has]
    exact Bool.eq_false_iff.1 hspace
  have houtermost : g.outermost ty = ty := by
    simp [TypeGraph.outermost, TypeGraph.enclosing_eq_singleton htop]
  simp [TypeGraph.defaultTypeName, TypeGraph.scriptSpace, houtermost, hmarker, hignore]

include wf nests hdefault

/-- The entry `r` of a usable type `ty` has a name that spells the path of `ty`. -/
theorem spells_of_entry {types : Table TypeId ResolvedType} (fit : g.TypesFit options types)
    {t : TypeId} {ty : TypeSymbol} {r : ResolvedType} {text : String} (hty : g.type? t = some ty)
    (hr : types.find? t = some r) (htext : r.semantics.name? = some text) :
    ∃ name : QualifiedName, text = name.text ∧ g.Spells ty name := by
  induction hindex : t.index using Nat.strongRecOn generalizing t ty r text with
  | ind i ih =>
    have hown := hdefault ty (Array.mem_of_getElem? hty)
    have hplain : isPlainName ty.name := (Bool.and_eq_true_iff.1 hown).1
    obtain ⟨ty', hty', hfit⟩ := fit hr
    obtain rfl := Option.some.inj (hty.symm.trans hty')
    cases hfit with
    | marked has eq =>
      rw [eq] at htext
      cases htext
    | enclosed hasNot u outer declaringType found unusable eq =>
      rw [eq] at htext
      cases htext
    | usable hasNot outer found usable taken eq =>
      have hspells : g.Spells ty (g.defaultTypeName ty outer).1 := by
        cases hu : ty.declaringType with
        | none =>
          obtain rfl : outer = none := by simpa [hu] using found.symm
          rw [defaultTypeName_of_toplevel hown hu]
          exact .of_toplevel hplain hu
        | some u =>
          obtain ⟨around, rfl, hfound⟩ : ∃ around, outer = some around ∧
              types.find? u = some around := by
            rw [hu] at found
            cases outer with
            | none => cases found
            | some around => exact ⟨around, rfl, Option.some.inj found⟩
          obtain ⟨outerText, houterText⟩ := Option.isSome_iff_exists.1 (usable around rfl)
          obtain ⟨outerType, houter, hspace, -⟩ := nests hty hu
          obtain ⟨name, rfl, hname⟩ := ih u.index (hindex ▸ wf.outer_lt hty hu) houter hfound
            houterText rfl
          have haround : (g.defaultTypeName ty (some around)).1 =
              ⟨name.space, name.simple ++ "$" ++ g.arityName ty⟩ := by
            simp [TypeGraph.defaultTypeName, houterText, QualifiedName.ofText_text hname.not_mem_dot]
          rw [haround]
          exact .of_nested wf hty hu houter hspace hplain hname
      rw [eq, name?_resolvedType hmin hown] at htext
      refine ⟨_, (Option.some.inj htext).symm, ?_⟩
      split
      · exact hspells.withDollar
      · exact hspells

end

/-- **Default names of types are injective**: in a graph that declarations put together, in which
all types are named by default, and without minimization, two types `ty` and `uy` with the same
script name `text` have the same namespace and the same path of source names and numbers of own type
parameters. -/
theorem default_type_names_injective {g : TypeGraph} (hg : g.Built) {options : Options}
    (hmin : ¬options.minimizeNames) (hdefault : ∀ ty ∈ g.types, ty.isNamedByDefault)
    {roots : List TypeId} {main : AssemblyId} {r : Resolution}
    (h : g.resolve options roots main = .ok r) {t u : TypeId} {ty uy : TypeSymbol}
    (ht : g.type? t = some ty) (hu : g.type? u = some uy) {rt ru : ResolvedType}
    (hrt : r.types.find? t = some rt) (hru : r.types.find? u = some ru) {text : String}
    (htext : rt.semantics.name? = some text) (hutext : ru.semantics.name? = some text) :
    ty.space = uy.space ∧ g.sourcePath ty = g.sourcePath uy := by
  have wf := hg.wellFormed
  obtain ⟨s, rfl, hs, -⟩ := reached_of_resolve wf h
  have hfit := hs.sound.types
  obtain ⟨name, rfl, hname⟩ := spells_of_entry hmin wf hg.nestsTypes hdefault hfit ht hrt htext
  obtain ⟨name', htext', hname'⟩ := spells_of_entry hmin wf hg.nestsTypes hdefault hfit hu hru hutext
  have hsame : name = name' := by
    rw [← QualifiedName.ofText_text hname.not_mem_dot, htext',
      QualifiedName.ofText_text hname'.not_mem_dot]
  exact hname.unique (hsame ▸ hname')

/-- Lists with and without a type parameter, and two copies of a hidden type in lists with one. -/
def listTypes : Except Fault TypeGraph := do
  let (g, core) := TypeGraph.declareAssembly ∅ "Core"
  let (g, _) ← g.declareType core { name := "List", space := "Data" }
  let (g, list) ← g.declareType core { name := "List", space := "Data", typeParameters := ["T"] }
  let (g, _) ← g.declareType core
    { name := "Item", accessibility := .internal, declaringType := some list }
  let (g, copy) ← g.declareType core { name := "List", space := "Data", typeParameters := ["T"] }
  let (g, _) ← g.declareType core
    { name := "Item", accessibility := .internal, declaringType := some copy }
  return g

/-- The graph of the lists. -/
def listGraph : TypeGraph := listTypes.toOption.getD ∅

theorem built_listGraph : listGraph.Built := by
  have hg : listTypes = .ok listGraph := eq_ok_getD (by decide +kernel)
  obtain ⟨⟨g₁, plain⟩, hplain, h⟩ := bind_eq_ok.1 hg
  obtain ⟨⟨g₂, list⟩, hlist, h⟩ := bind_eq_ok.1 h
  obtain ⟨⟨g₃, item⟩, hitem, h⟩ := bind_eq_ok.1 h
  obtain ⟨⟨g₄, copy⟩, hcopy, h⟩ := bind_eq_ok.1 h
  obtain ⟨⟨g₅, item'⟩, hitem', h⟩ := bind_eq_ok.1 h
  rw [← Except.ok.inj h]
  exact .type (.type (.type (.type (.type (.assembly .empty "Core") hplain) hlist) hitem) hcopy)
    hitem'

/-- The two hidden types share a script name, and so they have the same path. -/
theorem listItems_share_path :
    listGraph.Built ∧ ¬({} : Options).minimizeNames ∧
      (∀ ty ∈ listGraph.types, ty.isNamedByDefault) ∧ ∃ r ty uy rt ru,
      listGraph.resolve {} [⟨2⟩, ⟨4⟩] ⟨0⟩ = .ok r ∧ listGraph.type? ⟨2⟩ = some ty ∧
      listGraph.type? ⟨4⟩ = some uy ∧ r.types.find? ⟨2⟩ = some rt ∧ r.types.find? ⟨4⟩ = some ru ∧
      rt.semantics.name? = some "Data.$List$1$Item" ∧
      ru.semantics.name? = some "Data.$List$1$Item" ∧ ty.space = uy.space ∧
      listGraph.sourcePath ty = listGraph.sourcePath uy := by
  have hdefault : ∀ ty ∈ listGraph.types, ty.isNamedByDefault := by decide +kernel
  have hmin : ¬({} : Options).minimizeNames := by decide
  have hrun : (listGraph.resolve {} [⟨2⟩, ⟨4⟩] ⟨0⟩).toOption.any fun r =>
      (listGraph.type? ⟨2⟩).any fun _ => (listGraph.type? ⟨4⟩).any fun _ =>
        (r.types.find? ⟨2⟩).any (·.semantics.name? = some "Data.$List$1$Item") ∧
          (r.types.find? ⟨4⟩).any (·.semantics.name? = some "Data.$List$1$Item") := by
    decide +kernel
  obtain ⟨r, hr, hrest⟩ := exists_of_any_toOption hrun
  obtain ⟨ty, hty, hrest⟩ := (Option.any_eq_true _ _).1 hrest
  obtain ⟨uy, huy, hrest⟩ := (Option.any_eq_true _ _).1 hrest
  obtain ⟨ht, hu⟩ := of_decide_eq_true hrest
  obtain ⟨rt, hrt, htext⟩ := (Option.any_eq_true _ _).1 ht
  obtain ⟨ru, hru, hutext⟩ := (Option.any_eq_true _ _).1 hu
  have htext := of_decide_eq_true htext
  have hutext := of_decide_eq_true hutext
  exact ⟨built_listGraph, hmin, hdefault, r, ty, uy, rt, ru, hr, hty, huy, hrt, hru, htext, hutext,
    default_type_names_injective built_listGraph hmin hdefault hr hty huy hrt hru htext hutext⟩

end ScriptNaming
