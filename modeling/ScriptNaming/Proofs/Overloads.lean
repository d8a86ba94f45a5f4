import ScriptNaming.Proofs.MemberByMember
import ScriptNaming.Report

/-!
# Overloads

The canonical order and the keys of reports tell methods of one type apart by their names and by the
lists of their parameter types, which are texts with commas between the types. As long as brackets
stand around all commas within type names, these texts determine the lists (`typeNames_injective`).
The number of type parameters has no part in this (`overloads_told_apart_iff`), so that overloads
may come in the order of declaration and share an entry of the report
(`generic_overloads_not_told_apart`).
-/

namespace ScriptNaming

/-! ## Lists of type names -/

/-- How many brackets are open after a character, before which `depth` are. Outside of brackets,
there is no comma and nothing to close. -/
def depthAfter? (depth : Nat) (c : Char) : Option Nat :=
  if c ∈ ['<', '[', '(', '{'] then some (depth + 1)
  else if depth = 0 ∧ c ∈ [',', '>', ']', ')', '}'] then none
  else if c ∈ ['>', ']', ')', '}'] then some (depth - 1)
  else some depth

/-- Whether `name` can be told from several type names with commas between them. -/
def isPlainTypeName (name : String) : Bool :=
  name != "" && name.toList.foldlM depthAfter? 0 == some 0

/-- What closes all brackets before a comma, `p` or `q`, is determined. -/
theorem eq_of_closing {depth : Nat} {p q r s : List Char} (hp : p.foldlM depthAfter? depth = some 0)
    (hq : q.foldlM depthAfter? depth = some 0) (h : p ++ ',' :: r = q ++ ',' :: s) :
    p = q ∧ r = s := by
  have hcomma (l : List Char) : (',' :: l).foldlM depthAfter? 0 ≠ some 0 := by
    simp [List.foldlM_cons, depthAfter?]
  induction p generalizing depth q with
  | nil =>
    obtain rfl := Option.some.inj hp
    cases q with
    | nil => exact ⟨rfl, (List.cons.inj h).2⟩
    | cons c q =>
      obtain rfl := (List.cons.inj h).1
      exact absurd hq (hcomma q)
  | cons c p ih =>
    cases q with
    | nil =>
      obtain rfl := Option.some.inj hq
      obtain rfl := (List.cons.inj h).1
      exact absurd hp (hcomma p)
    | cons c' q =>
      obtain ⟨rfl, htail⟩ := List.cons.inj h
      rw [List.foldlM_cons] at hp hq
      obtain ⟨depth', hdepth, hp⟩ := Option.bind_eq_some_iff.1 hp
      obtain ⟨_, hdepth', hq⟩ := Option.bind_eq_some_iff.1 hq
      obtain rfl := Option.some.inj (hdepth.symm.trans hdepth')
      obtain ⟨rfl, hrest⟩ := ih hp hq htail
      exact ⟨rfl, hrest⟩

/-- With another comma at the end, each type name in `ps` is followed by one. -/
theorem intercalate_append_comma {ps : List (List Char)} (h : ps ≠ []) :
    [','].intercalate ps ++ [','] = ps.flatMap (· ++ [',']) := by
  induction ps with
  | nil => exact absurd rfl h
  | cons p ps ih =>
    cases ps with
    | nil => simp
    | cons p' ps =>
      rw [List.intercalate_cons_cons, List.flatMap_cons, ← ih (List.cons_ne_nil p' ps)]
      simp

theorem flatMap_comma_injective {ps qs : List (List Char)}
    (hp : ∀ p ∈ ps, p.foldlM depthAfter? 0 = some 0)
    (hq : ∀ q ∈ qs, q.foldlM depthAfter? 0 = some 0)
    (h : ps.flatMap (· ++ [',']) = qs.flatMap (· ++ [','])) : ps = qs := by
  induction ps generalizing qs with
  | nil =>
    cases qs with
    | nil => rfl
    | cons q qs => simp at h
  | cons p ps ih =>
    cases qs with
    | nil => simp at h
    | cons q qs =>
      obtain ⟨hfirst, hps⟩ := List.forall_mem_cons.1 hp
      obtain ⟨hfirst', hqs⟩ := List.forall_mem_cons.1 hq
      obtain ⟨rfl, hrest⟩ := eq_of_closing hfirst hfirst' (by simpa using h)
      rw [ih hps hqs hrest]

theorem isPlainTypeName_iff {name : String} : isPlainTypeName name ↔
    name.toList ≠ [] ∧ name.toList.foldlM depthAfter? 0 = some 0 := by
  simp [isPlainTypeName]

/-- Plain type names in `l` can be read back from the text with commas between them. -/
theorem typeNames_injective {l l' : List String} (hl : ∀ name ∈ l, isPlainTypeName name)
    (hl' : ∀ name ∈ l', isPlainTypeName name) (h : ",".intercalate l = ",".intercalate l') :
    l = l' := by
  have hclosing {l : List String} (hl : ∀ name ∈ l, isPlainTypeName name) :
      ∀ p ∈ l.map String.toList, p.foldlM depthAfter? 0 = some 0 := fun p hp => by
    obtain ⟨name, hname, rfl⟩ := List.mem_map.1 hp
    exact (isPlainTypeName_iff.1 (hl name hname)).2
  have hempty {l : List String} (hl : ∀ name ∈ l, isPlainTypeName name)
      (h : ",".intercalate l = "") : l = [] := by
    cases l with
    | nil => rfl
    | cons name l =>
      have hname := (isPlainTypeName_iff.1 (hl name (.head _))).1
      cases l <;> simp_all
  by_cases hnil : l = []
  · subst hnil
    exact (hempty hl' (h.symm.trans String.intercalate_nil)).symm
  by_cases hnil' : l' = []
  · subst hnil'
    exact hempty hl (h.trans String.intercalate_nil)
  have hjoin := congrArg String.toList h
  rw [String.toList_intercalate, String.toList_intercalate] at hjoin
  have hflat := congrArg (· ++ [',']) hjoin
  refine (List.map_inj_right fun _ _ => String.toList_injective).1
    (flatMap_comma_injective (hclosing hl) (hclosing hl') ?_)
  rw [← intercalate_append_comma (by simpa using hnil),
    ← intercalate_append_comma (by simpa using hnil')]
  exact hflat

/-! ## Members with the same parameter types -/

namespace MemberSymbol

/-- The members `x` and `y` have the same name and the same list of parameter types. -/
def SameSignature (x y : MemberSymbol) : Prop :=
  x.name = y.name ∧ x.parameters.map Parameter.typeName = y.parameters.map Parameter.typeName

/-- The name of the member ends where its parameters begin, and these can be told apart. -/
structure IsPlain (x : MemberSymbol) : Prop where
  name : '(' ∉ x.name.toList
  parameters : ∀ p ∈ x.parameters, isPlainTypeName p.typeName

theorem kindRank_of_isMethod {x : MemberSymbol} (h : x.isMethod) : x.kindRank = 0 := by
  unfold isMethod at h
  unfold kindRank
  cases hkind : x.kind <;> simp_all

theorem parameterTypeList_eq_iff {x y : MemberSymbol} (hx : x.IsPlain) (hy : y.IsPlain) :
    x.parameterTypeList = y.parameterTypeList ↔
      x.parameters.map Parameter.typeName = y.parameters.map Parameter.typeName := by
  have hplain {x : MemberSymbol} (hx : x.IsPlain) :
      ∀ name ∈ x.parameters.map Parameter.typeName, isPlainTypeName name := fun name hname => by
    obtain ⟨p, hp, rfl⟩ := List.mem_map.1 hname
    exact hx.parameters p hp
  exact ⟨typeNames_injective (hplain hx) (hplain hy), congrArg (",".intercalate ·)⟩

end MemberSymbol

section

variable {x y : MemberSymbol}

/-- The canonical order leaves open how members `x` and `y` of one kind with the same name and
parameter types come. -/
theorem canonicalOrder_eq_iff (hx : x.IsPlain) (hy : y.IsPlain) :
    canonicalOrder x y = .eq ↔ x.kindRank = y.kindRank ∧ x.SameSignature y := by
  simp only [canonicalOrder, Ordering.then_eq_eq, Std.LawfulEqCmp.compare_eq_iff_eq,
    MemberSymbol.parameterTypeList_eq_iff hx hy, MemberSymbol.SameSignature]
  constructor
  · rintro ⟨hrank, hname, -, htypes⟩
    exact ⟨hrank, hname, htypes⟩
  · rintro ⟨hrank, hname, htypes⟩
    exact ⟨hrank, hname, by simpa using congrArg List.length htypes, htypes⟩

variable {g : TypeGraph} {t : TypeId} {ty : TypeSymbol}

/-- Reports leave open which of the methods `x` and `y` of a type is meant by a name and parameter
types. -/
theorem memberKey_eq_iff (hx : x.IsPlain) (hy : y.IsPlain) (hmethod : x.isMethod)
    (hmethod' : y.isMethod) (htype : x.declaringType = y.declaringType) :
    g.memberKey x = g.memberKey y ↔ x.SameSignature y := by
  have howner : g.ownerName x = g.ownerName y := by
    rw [TypeGraph.ownerName, TypeGraph.ownerName, htype]
  rw [TypeGraph.memberKey, TypeGraph.memberKey, if_pos hmethod, if_pos hmethod',
    TypeGraph.qualifiedName, TypeGraph.qualifiedName, howner, MemberSymbol.SameSignature,
    ← MemberSymbol.parameterTypeList_eq_iff hx hy]
  constructor
  · intro h
    have hchars : x.name.toList ++ '(' :: (x.parameterTypeList.toList ++ [')']) =
        y.name.toList ++ '(' :: (y.parameterTypeList.toList ++ [')']) := by
      simpa using congrArg String.toList h
    obtain ⟨hname, htypes⟩ := eq_of_delimiter hx.name hy.name hchars
    exact ⟨String.toList_inj.1 hname, String.toList_inj.1 (List.append_cancel_right htypes)⟩
  · rintro ⟨hname, htypes⟩
    rw [hname, htypes]

/-! ## The order of members -/

/-- The order of two members `x` and `y` of `ty` is the canonical order, and that of their
declarations where this one leaves it open. -/
theorem canonicalMembers_sublist_iff (wf : g.WellFormed) (hty : g.type? t = some ty)
    (hx : x ∈ g.membersOf ty) (hy : y ∈ g.membersOf ty) (hne : x ≠ y) :
    [x, y].Sublist (g.canonicalMembers ty) ↔ canonicalOrder x y = .lt ∨
      canonicalOrder x y = .eq ∧ [x, y].Sublist (g.membersOf ty) := by
  have hnodup := canonicalMembers_nodup wf hty
  have hsorted : (g.canonicalMembers ty).Pairwise fun a b => (canonicalOrder a b).isLE :=
    sortBy_pairwise canonicalOrder_total canonicalOrder_trans _
  have hstable {a b : MemberSymbol} (h : [a, b].Sublist (g.membersOf ty))
      (hle : (canonicalOrder a b).isLE) : [a, b].Sublist (g.canonicalMembers ty) :=
    sublist_sortBy h hle
  constructor
  · intro h
    have hle := List.pairwise_iff_forall_sublist.1 hsorted h
    cases horder : canonicalOrder x y with
    | lt => exact .inl rfl
    | eq =>
      refine .inr ⟨rfl, (sublist_or_swap hx hy hne).resolve_right fun hswap => ?_⟩
      have heq : canonicalOrder y x = .eq := Std.OrientedCmp.eq_symm horder
      exact not_sublist_swap hnodup h (hstable hswap (by rw [heq]; rfl))
    | gt =>
      rw [horder] at hle
      cases hle
  · rintro (hlt | ⟨heq, hdeclared⟩)
    · refine (sublist_or_swap (mem_sortBy.2 hx) (mem_sortBy.2 hy) hne).resolve_right fun hswap => ?_
      have hle : (canonicalOrder y x).isLE := List.pairwise_iff_forall_sublist.1 hsorted hswap
      rw [Std.OrientedCmp.gt_of_lt hlt] at hle
      cases hle
    · exact hstable hdeclared (by rw [heq]; rfl)

/-- The canonical order tells all members of `g` apart if there are no overloads of one kind with
the same parameter types. -/
theorem tellsMembersApart_iff
    (hplain : ∀ ⦃t ty⦄, g.type? t = some ty → ∀ m ∈ g.membersOf ty, m.IsPlain) :
    g.TellsMembersApart ↔ ∀ ⦃t ty⦄, g.type? t = some ty → ∀ x ∈ g.membersOf ty,
      ∀ y ∈ g.membersOf ty, x.kindRank = y.kindRank → x.SameSignature y → x = y := by
  refine forall₃_congr fun t ty hty => forall₂_congr fun x hx => forall₂_congr fun y hy => ?_
  rw [canonicalOrder_eq_iff (hplain hty x hx) (hplain hty y hy), and_imp]

/-! ## Reports -/

/-- The names in a `table` under names are those of its keys. -/
theorem Table.contains_named {κ α : Type} (table : Table κ α) (name? : κ → Option String)
    (name : String) :
    (table.named name?).contains name ↔ ∃ k ∈ table.keys, name? k = some name := by
  have hfold (entries : List (κ × α)) (named : Std.TreeMap String α) :
      (entries.foldl (fun named e => (name? e.1).elim named fun name => named.insert name e.2)
        named).contains name ↔
        named.contains name ∨ ∃ k ∈ entries.map Prod.fst, name? k = some name := by
    induction entries generalizing named with
    | nil => simp
    | cons e entries ih =>
      rw [List.foldl_cons, ih]
      cases hname : name? e.1 with
      | none => simp [hname]
      | some other =>
        simp [hname, Std.TreeMap.contains_insert, or_assoc, or_left_comm]
  refine (hfold table.entries ∅).trans ?_
  simp [keys]

/-- Each method `x` that is resolved has an entry in the report of `r`. -/
theorem Resolution.contains_report {r : Resolution} (hx : g.member? x.id = some x)
    (h : r.methods.contains x.id) : (r.report g).methods.contains (g.memberKey x) := by
  refine (Table.contains_named _ _ _).2 ⟨x.id, (r.methods.contains_iff_mem_keys x.id).1 h, ?_⟩
  rw [hx]
  rfl

/-- **Overloads**: two methods `x` and `y` of a type with plain type names are told apart in the
canonical order, and have different keys in reports, exactly if they differ in name or in parameter
types. Then the canonical order decides which of them comes first, and each of them has an entry of
its own once it is resolved; otherwise, the order of their declarations decides. -/
theorem overloads_told_apart_iff (hg : g.Built) (hty : g.type? t = some ty)
    (hx : x ∈ g.membersOf ty) (hy : y ∈ g.membersOf ty) (hmethod : x.isMethod)
    (hmethod' : y.isMethod) (hne : x ≠ y) (hplain : x.IsPlain) (hplain' : y.IsPlain) :
    (canonicalOrder x y = .eq ↔ x.SameSignature y) ∧
      (g.memberKey x = g.memberKey y ↔ x.SameSignature y) ∧
      ([x, y].Sublist (g.canonicalMembers ty) ↔ canonicalOrder x y = .lt ∨
        x.SameSignature y ∧ [x, y].Sublist (g.membersOf ty)) ∧
      ∀ r : Resolution, r.methods.contains x.id → r.methods.contains y.id →
        (r.report g).methods.contains (g.memberKey x) ∧
          (r.report g).methods.contains (g.memberKey y) := by
  have wf := hg.wellFormed
  obtain ⟨hmember, htype⟩ := TypeGraph.owns_of_mem_membersOf wf hty hx
  obtain ⟨hmember', htype'⟩ := TypeGraph.owns_of_mem_membersOf wf hty hy
  have horder : canonicalOrder x y = .eq ↔ x.SameSignature y := by
    rw [canonicalOrder_eq_iff hplain hplain', MemberSymbol.kindRank_of_isMethod hmethod,
      MemberSymbol.kindRank_of_isMethod hmethod', eq_self, true_and]
  refine ⟨horder, memberKey_eq_iff hplain hplain' hmethod hmethod' (htype.trans htype'.symm), ?_,
    fun r h h' => ⟨r.contains_report hmember h, r.contains_report hmember' h'⟩⟩
  rw [canonicalMembers_sublist_iff wf hty hx hy hne, horder]

end

/-- A class with two overloads of `Add`, which have the given type parameters, and two of `Put`,
which have others at the places of their parameters. -/
def crateClass (first second : List String) : Except Fault TypeGraph := do
  let (g, depot) := TypeGraph.declareAssembly ∅ "Depot"
  let (g, crate) ← g.declareType depot { name := "Crate" }
  let (g, _) ← g.declareMethod crate { name := "Add", typeParameters := first }
  let (g, _) ← g.declareMethod crate { name := "Add", typeParameters := second }
  let (g, _) ← g.declareMethod crate
    { name := "Put", parameters := [⟨"pair", "Pair<A,B>"⟩, ⟨"item", "C"⟩] }
  let (g, _) ← g.declareMethod crate
    { name := "Put", parameters := [⟨"pair", "Pair<A,A>"⟩, ⟨"item", "Pair<B,C>"⟩] }
  return g

/-- The graph of the class. -/
def crateGraph (first second : List String) : TypeGraph := (crateClass first second).toOption.getD ∅

theorem built_crateGraph {first second : List String} (h : (crateClass first second).toOption.isSome) :
    (crateGraph first second).Built := by
  have hg : crateClass first second = .ok (crateGraph first second) := eq_ok_getD h
  obtain ⟨⟨g₁, crate⟩, hcrate, h⟩ := bind_eq_ok.1 hg
  obtain ⟨⟨g₂, _⟩, hadd, h⟩ := bind_eq_ok.1 h
  obtain ⟨⟨g₃, _⟩, hadd', h⟩ := bind_eq_ok.1 h
  obtain ⟨⟨g₄, _⟩, hput, h⟩ := bind_eq_ok.1 h
  obtain ⟨⟨g₅, _⟩, hput', h⟩ := bind_eq_ok.1 h
  rw [← Except.ok.inj h]
  have hadds : g₃.Built := .method (.method (.type (.assembly .empty "Depot") hcrate) hadd) hadd'
  exact .method (.method hadds hput) hput'

/-- The overloads of `Put` have different parameter types, although there are commas in them. -/
theorem crate_puts_told_apart : ∃ ty x y, (crateGraph [] []).Built ∧
    (crateGraph [] []).type? ⟨0⟩ = some ty ∧ x ∈ (crateGraph [] []).membersOf ty ∧
    y ∈ (crateGraph [] []).membersOf ty ∧ x.isMethod ∧ y.isMethod ∧ x ≠ y ∧ x.IsPlain ∧ y.IsPlain ∧
    ¬x.SameSignature y ∧
    (canonicalOrder x y = .eq ↔ x.SameSignature y) ∧
    ((crateGraph [] []).memberKey x = (crateGraph [] []).memberKey y ↔ x.SameSignature y) ∧
    ([x, y].Sublist ((crateGraph [] []).canonicalMembers ty) ↔ canonicalOrder x y = .lt ∨
      x.SameSignature y ∧ [x, y].Sublist ((crateGraph [] []).membersOf ty)) ∧
    ∀ r : Resolution, r.methods.contains x.id → r.methods.contains y.id →
      (r.report (crateGraph [] [])).methods.contains ((crateGraph [] []).memberKey x) ∧
        (r.report (crateGraph [] [])).methods.contains ((crateGraph [] []).memberKey y) := by
  have hgraph : ((crateGraph [] []).type? ⟨0⟩).any fun ty =>
      ((crateGraph [] []).member? ⟨2⟩).any fun x => ((crateGraph [] []).member? ⟨3⟩).any fun y =>
        x ∈ (crateGraph [] []).membersOf ty ∧ y ∈ (crateGraph [] []).membersOf ty ∧ x.isMethod ∧
        y.isMethod ∧ x ≠ y ∧ ('(' ∉ x.name.toList ∧ ∀ p ∈ x.parameters, isPlainTypeName p.typeName) ∧
        ('(' ∉ y.name.toList ∧ ∀ p ∈ y.parameters, isPlainTypeName p.typeName) ∧
        ¬(x.name = y.name ∧
          x.parameters.map Parameter.typeName = y.parameters.map Parameter.typeName) := by
    decide +kernel
  obtain ⟨ty, hty, hrest⟩ := (Option.any_eq_true _ _).1 hgraph
  obtain ⟨x, -, hrest⟩ := (Option.any_eq_true _ _).1 hrest
  obtain ⟨y, -, hrest⟩ := (Option.any_eq_true _ _).1 hrest
  obtain ⟨hx, hy, hmethod, hmethod', hne, ⟨hname, htypes⟩, ⟨hname', htypes'⟩, hdiffer⟩ :=
    of_decide_eq_true hrest
  have hplain : x.IsPlain := ⟨hname, htypes⟩
  have hplain' : y.IsPlain := ⟨hname', htypes'⟩
  have hg : (crateGraph [] []).Built := built_crateGraph (by decide +kernel)
  exact ⟨ty, x, y, hg, hty, hx, hy, hmethod, hmethod', hne, hplain, hplain', hdiffer,
    overloads_told_apart_iff hg hty hx hy hmethod hmethod' hne hplain hplain'⟩

/-- Two overloads of `Add` differ in the number of type parameters alone. The canonical order leaves
open which of them comes first, so that the one that is declared first is called `add`; and they
share an entry of the report. -/
theorem generic_overloads_not_told_apart :
    (crateGraph ["T"] []).Built ∧ (crateGraph [] ["T"]).Built ∧ ∃ ty x y x' y' r r',
      (crateGraph ["T"] []).type? ⟨0⟩ = some ty ∧
      (crateGraph ["T"] []).member? ⟨0⟩ = some x ∧ (crateGraph ["T"] []).member? ⟨1⟩ = some y ∧
      (crateGraph [] ["T"]).member? ⟨1⟩ = some x' ∧ (crateGraph [] ["T"]).member? ⟨0⟩ = some y' ∧
      (crateGraph ["T"] []).resolve {} [⟨0⟩] ⟨0⟩ = .ok r ∧
      (crateGraph [] ["T"]).resolve {} [⟨0⟩] ⟨0⟩ = .ok r' ∧ ¬r.hasErrors ∧
      x ∈ (crateGraph ["T"] []).membersOf ty ∧ y ∈ (crateGraph ["T"] []).membersOf ty ∧
      x.isMethod ∧ y.isMethod ∧ x.typeParameters = ["T"] ∧ y.typeParameters = [] ∧
      x'.typeParameters = ["T"] ∧ y'.typeParameters = [] ∧ canonicalOrder x y = .eq ∧
      (crateGraph ["T"] []).memberKey x = (crateGraph ["T"] []).memberKey y ∧
      r.methods.find? x.id = some (.normal "add") ∧
      r.methods.find? y.id = some (.normal "add$0") ∧
      r'.methods.find? x'.id = some (.normal "add$0") ∧
      r'.methods.find? y'.id = some (.normal "add") ∧
      (r.report (crateGraph ["T"] [])).methods.size + 1 = r.methods.size := by
  have hrun : ((crateGraph ["T"] []).type? ⟨0⟩).any fun ty =>
      ((crateGraph ["T"] []).member? ⟨0⟩).any fun x =>
      ((crateGraph ["T"] []).member? ⟨1⟩).any fun y =>
      ((crateGraph [] ["T"]).member? ⟨1⟩).any fun x' =>
      ((crateGraph [] ["T"]).member? ⟨0⟩).any fun y' =>
      ((crateGraph ["T"] []).resolve {} [⟨0⟩] ⟨0⟩).toOption.any fun r =>
      ((crateGraph [] ["T"]).resolve {} [⟨0⟩] ⟨0⟩).toOption.any fun r' =>
        ¬r.hasErrors ∧ x ∈ (crateGraph ["T"] []).membersOf ty ∧
        y ∈ (crateGraph ["T"] []).membersOf ty ∧ x.isMethod ∧ y.isMethod ∧
        x.typeParameters = ["T"] ∧ y.typeParameters = [] ∧ x'.typeParameters = ["T"] ∧
        y'.typeParameters = [] ∧ canonicalOrder x y = .eq ∧
        (crateGraph ["T"] []).memberKey x = (crateGraph ["T"] []).memberKey y ∧
        r.methods.find? x.id = some (.normal "add") ∧
        r.methods.find? y.id = some (.normal "add$0") ∧
        r'.methods.find? x'.id = some (.normal "add$0") ∧
        r'.methods.find? y'.id = some (.normal "add") ∧
        (r.report (crateGraph ["T"] [])).methods.size + 1 = r.methods.size := by
    decide +kernel
  obtain ⟨ty, hty, hrest⟩ := (Option.any_eq_true _ _).1 hrun
  obtain ⟨x, hx, hrest⟩ := (Option.any_eq_true _ _).1 hrest
  obtain ⟨y, hy, hrest⟩ := (Option.any_eq_true _ _).1 hrest
  obtain ⟨x', hx', hrest⟩ := (Option.any_eq_true _ _).1 hrest
  obtain ⟨y', hy', hrest⟩ := (Option.any_eq_true _ _).1 hrest
  obtain ⟨r, hr, hrest⟩ := exists_of_any_toOption hrest
  obtain ⟨r', hr', hrest⟩ := exists_of_any_toOption hrest
  exact ⟨built_crateGraph (by decide +kernel), built_crateGraph (by decide +kernel), ty, x, y, x',
    y', r, r', hty, hx, hy, hx', hy', hr, hr', of_decide_eq_true hrest⟩

end ScriptNaming
