import ScriptNaming.Proofs.CleanRuns
import ScriptNaming.Proofs.Identifiers

/-!
# Legal names of members

Names that are chosen by a marker are checked, and so are blank ones of methods. A resolution
without diagnostics can still give a member a name that is no identifier, because what the rules
make of a legal source name is not checked again (`TypeGraph.EscapesCheck`):

* a blank `ScriptName` is taken over for fields, for intrinsic properties and for functions that are
  called in another way than methods;
* in camel case a source name may be a reserved word;
* one capital letter has a lowercase form that is no letter.

Nothing else escapes: apart from these names, all names in the tables of a resolution without
diagnostics are identifiers (`clean_names_checked`).
-/

namespace ScriptNaming

/-! ## Names that escape the check -/

/-- A member whose name is put in camel case, if it is named at all. -/
structure MemberSymbol.IsCamelCased (m : MemberSymbol) : Prop where
  unnamed : m.markerText? .scriptName = none
  uncased : ¬m.has .preserveCase

namespace TypeGraph

/-- The member whose markers decide how the member `m` of `ty` would like to be called: for an
alternate signature its main method. -/
def namingMember (g : TypeGraph) (ty : TypeSymbol) (m : MemberSymbol) : Option MemberSymbol :=
  match g.mainMethod ty m with
  | .none => some m
  | .unique main => some main
  | .missing => none

/-- Whether there is no rule for a blank name of `m`. -/
def SparesBlank (g : TypeGraph) (m : MemberSymbol) : Prop :=
  m.kind = .field ∨ m.has .intrinsicProperty ∨ m.has .instanceMethodOnFirstArgument ∨
    ∃ ty ∈ g.types, m ∈ g.membersOf ty ∧ (g.globalMethods ty).1

/-- A name that is no identifier and that a member may come to have without a report. -/
inductive EscapesCheck (g : TypeGraph) (name : String) : Prop
  /-- The name is blank, as a marker says, and there is no rule for that. -/
  | blank {ty : TypeSymbol} {m x : MemberSymbol} (naming : g.namingMember ty m = some x)
    (marker : x.markerText? .scriptName = some (some "")) (spared : g.SparesBlank m)
    (eq : name = "")
  /-- The name is a reserved word once it is in camel case. -/
  | reserved {x : MemberSymbol} (mem : x ∈ g.members) (cased : x.IsCamelCased)
    (word : isReservedWord (camelCase x.name)) (eq : name = camelCase x.name)
  /-- The name contains a source name in camel case, in which a capital I with a dot above has left
  its dot behind. -/
  | dotted {x : MemberSymbol} (mem : x ∈ g.members) (cased : x.IsCamelCased)
    (capital : '\u0130' ∈ x.name.toList) (dot : '\u0307' ∈ (camelCase x.name).toList)
    (piece : (camelCase x.name).toList <:+: name.toList)

variable {g : TypeGraph}

theorem EscapesCheck.not_isIdentifier {name : String} (h : g.EscapesCheck name) :
    ¬isIdentifier name := by
  intro hname
  cases h with
  | blank naming marker spared eq =>
    subst eq
    exact absurd hname (by decide +kernel)
  | reserved mem cased word eq =>
    subst eq
    exact (isIdentifier_iff.1 hname).2 word
  | dotted mem cased capital dot piece =>
    exact not_isIdentifierPart_combiningDot
      (isIdentifierPart_of_mem_toList hname (piece.subset dot))

/-- A `name` that is an identifier or has escaped the check. -/
def IsCheckedName (g : TypeGraph) (name : String) : Prop := isIdentifier name ∨ g.EscapesCheck name

/-! ## What is made of names -/

/-- A name `base` that escapes goes on to escape with something before or behind it, unless that
makes an identifier of it. -/
theorem IsCheckedName.wrap {base name : String} (h : base = "" ∨ g.IsCheckedName base)
    (hparts : (∀ c ∈ base.toList, isIdentifierPart c) → base = "" ∨ isIdentifierSpelling base.toList →
      isIdentifier name)
    (hpiece : base.toList <:+: name.toList) : g.IsCheckedName name := by
  have hempty : isIdentifier name ∨ base ≠ "" := by
    by_cases hbase : base = ""
    · exact .inl (hparts (by simp [hbase]) (.inl hbase))
    · exact .inr hbase
  rcases hempty with hname | hne
  · exact .inl hname
  have hspelled (hbase : isIdentifierSpelling base.toList) : g.IsCheckedName name :=
    .inl (hparts (fun c hc => isIdentifierPart_of_mem hbase hc) (.inr hbase))
  rcases h.resolve_left hne with hbase | hbase
  · exact hspelled (isIdentifier_iff.1 hbase).1
  cases hbase with
  | blank naming marker spared eq => exact absurd eq hne
  | reserved mem cased word eq =>
    have hwords : ∀ word ∈ reservedWords, isIdentifierSpelling word.toList := by decide +kernel
    exact hspelled (eq ▸ hwords _ (List.contains_iff_mem.1 word))
  | dotted mem cased capital dot piece =>
    exact .inr (.dotted mem cased capital dot (piece.trans hpiece))

theorem isCheckedName_admits (g : TypeGraph) : AdmitsNames g.IsCheckedName where
  suffixed base i h := by
    refine .wrap h (fun _ hbase => ?_) ⟨[], ("$" ++ Base62.encode i).toList, ?_⟩
    · have hdigits : ∀ c ∈ (Base62.encode i).toList, isIdentifierPart c := fun c hc =>
        isIdentifierPart_of_mem_digits (Base62.toList_encode i ▸ hc)
      rcases hbase with rfl | hbase
      · exact isIdentifier_dollar hdigits
      · exact isIdentifier_append_dollar hbase hdigits
    · simp [NameRegistry.suffixed]
  counted n := by
    refine .inl (isIdentifier_dollar (t := "I" ++ Base62.encode n) fun c hc => ?_)
    rw [String.toList_append, List.mem_append] at hc
    rcases hc with hc | hc
    · obtain rfl := List.mem_singleton.1 hc
      decide +kernel
    · exact isIdentifierPart_of_mem_digits (Base62.toList_encode n ▸ hc)
  accessor slot base h := by
    have hstem : isIdentifierSpelling slot.stem.toList ∧ '_' ∈ slot.stem.toList := by
      cases slot <;> decide +kernel
    refine .wrap h (fun hparts _ => ?_) ⟨slot.stem.toList, [], by simp⟩
    refine isIdentifier_of_mark ?_ (.inr ?_)
    · rw [String.toList_append]
      exact isIdentifierSpelling_append hstem.1 hparts
    · rw [String.toList_append]
      exact List.mem_append_left _ hstem.2

/-! ## Preferred names -/

variable {x : MemberSymbol}

theorem camelCase_checked (hx : x ∈ g.members) (hname : isIdentifier x.name)
    (cased : x.IsCamelCased) : g.IsCheckedName (camelCase x.name) := by
  rcases isIdentifierSpelling_camelCase (isIdentifier_iff.1 hname).1 with hspelled | ⟨hcapital, hdot⟩
  · by_cases hword : isReservedWord (camelCase x.name)
    · exact .inr (.reserved hx cased hword rfl)
    · exact .inl (isIdentifier_iff.2 ⟨hspelled, hword⟩)
  · exact .inr (.dotted hx cased hcapital hdot List.infix_rfl)

theorem dollar_camelCase_checked (hx : x ∈ g.members) (hname : isIdentifier x.name)
    (cased : x.IsCamelCased) : g.IsCheckedName ("$" ++ camelCase x.name) := by
  rcases isIdentifierSpelling_camelCase (isIdentifier_iff.1 hname).1 with hspelled | ⟨hcapital, hdot⟩
  · exact .inl (isIdentifier_dollar fun c hc => isIdentifierPart_of_mem hspelled hc)
  · exact .inr (.dotted hx cased hcapital hdot ⟨['$'], [], by simp⟩)

/-- A member `x` without a problem with its own markers prefers a checked `name` or, if they say so,
a blank one. -/
theorem ownPreferredName_checked {options : Options} {resolved : ResolvedType} (hx : x ∈ g.members)
    (hname : isIdentifier x.name) (hclean : (g.ownPreferredName options resolved x).2 = [])
    {name : String} (hpreferred : (g.ownPreferredName options resolved x).1.name = some name) :
    name = "" ∧ x.markerText? .scriptName = some (some "") ∨ g.IsCheckedName name := by
  unfold ownPreferredName at hclean hpreferred
  cases hmarker : x.markerText? .scriptName with
  | some argument =>
    simp only [hmarker, ite_eq_left_iff, List.cons_ne_self, imp_false, not_not] at hclean hpreferred
    obtain ⟨text, rfl, hvalid⟩ := (Option.any_eq_true _ _).1 hclean
    obtain rfl := Option.some.inj hpreferred
    rw [Option.getD_some]
    rcases Bool.or_eq_true_iff.1 hvalid with hblank | hidentifier
    · obtain rfl := beq_iff_eq.1 hblank
      exact .inl ⟨rfl, rfl⟩
    · exact .inr (.inl hidentifier)
  | none =>
    refine .inr ?_
    simp only [hmarker] at hpreferred
    by_cases hcase : x.has .preserveCase
    · rw [if_pos hcase] at hpreferred
      obtain rfl := Option.some.inj hpreferred
      exact .inl hname
    have cased : x.IsCamelCased := ⟨hmarker, hcase⟩
    split_ifs at hpreferred
    · obtain rfl := Option.some.inj hpreferred
      exact camelCase_checked hx hname cased
    · obtain rfl := Option.some.inj hpreferred
      exact camelCase_checked hx hname cased
    · obtain rfl := Option.some.inj hpreferred
      exact dollar_camelCase_checked hx hname cased

/-- The preferred name of a member follows from the markers of the member that decides on it. -/
theorem exists_namingMember {options : Options} {ty : TypeSymbol} {resolved : ResolvedType}
    {m : MemberSymbol} (hm : m ∈ g.members)
    (hclean : (g.preferredName options ty resolved m).2 = []) :
    ∃ x ∈ g.members, g.namingMember ty m = some x ∧
      g.preferredName options ty resolved m = g.ownPreferredName options resolved x := by
  unfold preferredName at hclean ⊢
  unfold namingMember
  cases hmain : g.mainMethod ty m with
  | none => exact ⟨m, hm, rfl, rfl⟩
  | unique main =>
    obtain ⟨a, -, ha⟩ := List.mem_filterMap.1 (g.mem_membersOf_of_mainMethod hmain)
    exact ⟨main, Array.mem_of_getElem? ha, rfl, rfl⟩
  | missing =>
    rw [hmain] at hclean
    cases hclean

theorem not_declaresData_of_globalMethods {ty : TypeSymbol} (h : (g.globalMethods ty).1) :
    ¬g.declaresData ty := by
  intro hdata
  unfold globalMethods at h
  split_ifs at h

/-- Where the source names of the members of `g` are identifiers, their preferred names are
checked. -/
theorem admits_isCheckedName (hnames : ∀ x ∈ g.members, isIdentifier x.name) (options : Options) :
    g.Admits options g.IsCheckedName := by
  intro ensure ty hty resolved hresolved
  have hmember {a : MemberId} {m : MemberSymbol} (ha : g.member? a = some m) : m ∈ g.members :=
    Array.mem_of_getElem? ha
  refine ⟨fun hglobal => not_declaresData_of_globalMethods (hresolved hglobal),
    fun a m ha => .inl (hnames m (hmember ha)), fun a m ha hlisted hclean => ?_,
    fun m hmethod has => ?_⟩
  · obtain ⟨x, hx, hnaming, heq⟩ := exists_namingMember (hmember ha) hclean
    have hchecked {name : String}
        (hpreferred : (g.preferredName options ty resolved m).1.name = some name) :
        name = "" ∧ x.markerText? .scriptName = some (some "") ∨ g.IsCheckedName name :=
      ownPreferredName_checked hx (hnames x hx) (heq ▸ hclean) (heq ▸ hpreferred)
    refine ⟨.inl (hnames m (hmember ha)), fun name hname => (hchecked hname).imp_left And.left,
      fun hblank hspared => ?_⟩
    rcases hchecked hblank with ⟨-, hmarker⟩ | hname
    · refine .inr (.blank hnaming hmarker ?_ rfl)
      refine hspared.imp_right (Or.imp_right (Or.imp_right fun hglobal => ?_))
      exact ⟨ty, hty, hlisted hglobal, hresolved hglobal⟩
    · exact hname
  · have hmain : g.mainMethod ty m = .none := by simp [mainMethod, hmethod]
    change (g.preferredName options ty resolved m).1.name ≠ none
    unfold preferredName ownPreferredName
    rw [hmain]
    dsimp only
    split
    · exact Option.some_ne_none _
    · split
      · exact Option.some_ne_none _
      · rw [if_pos (by simp [has])]
        exact Option.some_ne_none _

end TypeGraph

/-! ## Resolutions -/

/-- Some entry of the tables for members has the name, for a member itself or for an accessor. -/
inductive Resolution.Carries (r : Resolution) (name : String) : Prop
  | method {m : MemberId} {x : MethodSemantics} (found : r.methods.find? m = some x)
    (mem : name ∈ x.names)
  | property {m : MemberId} {x : PropertySemantics} (found : r.properties.find? m = some x)
    (mem : name ∈ x.names)
  | field {m : MemberId} {x : FieldSemantics} (found : r.fields.find? m = some x)
    (mem : name ∈ x.names)
  | event {m : MemberId} {x : EventSemantics} (found : r.events.find? m = some x)
    (mem : name ∈ x.names)

/-- **Names of members are checked**: if the source names of all members of `g` are identifiers,
then in every resolution `r` without diagnostics the names that members have are identifiers, except
those that escape the check. -/
theorem clean_names_checked {g : TypeGraph} (hnames : ∀ x ∈ g.members, isIdentifier x.name)
    {options : Options} {roots : List TypeId} {main : AssemblyId} {r : Resolution}
    (h : g.resolve options roots main = .ok r) (hclean : r.diagnostics.isEmpty) {name : String}
    (hname : r.Carries name) : isIdentifier name ↔ ¬g.EscapesCheck name := by
  obtain ⟨s, rfl, hs⟩ :=
    names_of_clean_resolve g.isCheckedName_admits (g.admits_isCheckedName hnames options) h hclean
  have hchecked : g.IsCheckedName name := by
    cases hname with
    | method found mem => exact hs.methods found name mem
    | property found mem => exact hs.properties found name mem
    | field found mem => exact hs.fields found name mem
    | event found mem => exact hs.events found name mem
  exact ⟨fun hidentifier hescapes => hescapes.not_isIdentifier hidentifier,
    fun hnot => hchecked.resolve_right hnot⟩

/-- A class with three names that escape: a method that is called by a reserved word in camel case,
one with the letter that has no small counterpart, and a field with a blank name. -/
def keepers : GraphDocument where
  assemblies := []
  types := [
    exampleClassEntry "Keeper" []
      [exampleMethodEntry "New" false none, exampleMethodEntry "\u0130nci" false none,
        exampleMethodEntry "Feed" false none]
      [⟨"Badge", .public, false, [⟨"ScriptName", [.str ""]⟩]⟩]]

/-- The graph of the keepers. -/
def keeperGraph : TypeGraph := keepers.link.toOption.getD ∅

/-- The three names escape, and the fourth one does not. -/
theorem keeper_names_checked :
    (∀ x ∈ keeperGraph.members, isIdentifier x.name) ∧
      ∃ r, keeperGraph.resolve {} [⟨0⟩] ⟨0⟩ = .ok r ∧ r.diagnostics.isEmpty ∧
        (∀ name ∈ ["new", "i\u0307nci", ""], r.Carries name ∧ keeperGraph.EscapesCheck name) ∧
        r.Carries "feed" ∧ ¬keeperGraph.EscapesCheck "feed" := by
  have hnames : ∀ x ∈ keeperGraph.members, isIdentifier x.name := by decide +kernel
  have hrun : (keeperGraph.resolve {} [⟨0⟩] ⟨0⟩).toOption.any fun r => r.diagnostics.isEmpty ∧
      r.methods.find? ⟨0⟩ = some (.normal "new") ∧
      r.methods.find? ⟨1⟩ = some (.normal "i\u0307nci") ∧ r.fields.find? ⟨3⟩ = some (.field "") ∧
      r.methods.find? ⟨2⟩ = some (.normal "feed") := by
    decide +kernel
  obtain ⟨r, hr, hrest⟩ := exists_of_any_toOption hrun
  obtain ⟨hclean, hnew, hdotted, hblank, hfeed⟩ := of_decide_eq_true hrest
  have hlegal : ¬isIdentifier "new" ∧ ¬isIdentifier "i\u0307nci" ∧ ¬isIdentifier "" ∧
      isIdentifier "feed" := by
    decide +kernel
  obtain ⟨hnew', hdotted', hblank', hfeed'⟩ := hlegal
  have hcarries : ∀ name ∈ ["new", "i\u0307nci", ""], r.Carries name ∧ ¬isIdentifier name := by
    simp only [List.forall_mem_cons]
    exact ⟨⟨.method hnew (.head _), hnew'⟩, ⟨.method hdotted (.head _), hdotted'⟩,
      ⟨.field hblank (.head _), hblank'⟩, fun name hname => nomatch hname⟩
  refine ⟨hnames, r, hr, hclean, fun name hname => ?_, .method hfeed (.head _), ?_⟩
  · obtain ⟨hcarried, hnot⟩ := hcarries name hname
    exact ⟨hcarried, by_contra fun h => hnot ((clean_names_checked hnames hr hclean hcarried).2 h)⟩
  · exact (clean_names_checked hnames hr hclean (.method hfeed (.head _))).1 hfeed'

/-- All source names are identifiers and nothing is reported, but a method is called by a reserved
word and a field has a blank name. -/
theorem clean_names_illegal :
    (∀ ty ∈ keeperGraph.types, isIdentifier ty.name) ∧
      (∀ x ∈ keeperGraph.members, isIdentifier x.name ∧ ∀ p ∈ x.parameters, isIdentifier p.name) ∧
      ∃ r, keeperGraph.resolve {} [⟨0⟩] ⟨0⟩ = .ok r ∧ ¬r.hasErrors ∧
        r.methods.find? ⟨0⟩ = some (.normal "new") ∧ ¬isIdentifier "new" ∧
        r.fields.find? ⟨3⟩ = some (.field "") ∧ ¬isIdentifier "" := by
  have hrun : (keeperGraph.resolve {} [⟨0⟩] ⟨0⟩).toOption.any fun r => ¬r.hasErrors ∧
      r.methods.find? ⟨0⟩ = some (.normal "new") ∧ ¬isIdentifier "new" ∧
      r.fields.find? ⟨3⟩ = some (.field "") ∧ ¬isIdentifier "" := by
    decide +kernel
  have htypes : ∀ ty ∈ keeperGraph.types, isIdentifier ty.name := by decide +kernel
  have hmembers : ∀ x ∈ keeperGraph.members,
      isIdentifier x.name ∧ ∀ p ∈ x.parameters, isIdentifier p.name := by
    decide +kernel
  obtain ⟨r, hr, hrest⟩ := exists_of_any_toOption hrun
  exact ⟨htypes, hmembers, r, hr, of_decide_eq_true hrest⟩

end ScriptNaming
