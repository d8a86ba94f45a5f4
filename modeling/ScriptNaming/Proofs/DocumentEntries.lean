import ScriptNaming.Proofs.Scope

/-!
# Entries of documents

An own member of a type in a document is a `MemberEntry`, of whatever kind. It can be linked exactly
if all its references mean something (`MemberEntry.exists_link`), and then declares a member that is
linked to what they mean (`MemberEntry.declares_of_link`). The same goes for the names that the
entry of a type refers to (`TypeEntry.exists_declare`, `TypeEntry.push_of_declare`).
-/

namespace ScriptNaming

/-! ## Declarations that succeed -/

namespace TypeGraph

theorem exists_declareMethod {g : TypeGraph} {t : TypeId} {ty : TypeSymbol}
    (ht : g.type? t = some ty) (d : MethodDeclaration) : ∃ p, g.declareMethod t d = .ok p :=
  ⟨_, bind_eq_ok.2 ⟨ty, typeOrFault_eq_ok_iff.2 ht, rfl⟩⟩

theorem exists_declareField {g : TypeGraph} {t : TypeId} {ty : TypeSymbol}
    (ht : g.type? t = some ty) (d : FieldDeclaration) : ∃ p, g.declareField t d = .ok p :=
  ⟨_, bind_eq_ok.2 ⟨ty, typeOrFault_eq_ok_iff.2 ht, rfl⟩⟩

/-- The members with the numbers in `l` are there. -/
def HasMembers (g : TypeGraph) (l : List MemberId) : Prop :=
  ∀ c ∈ l, ∃ x, g.member? c = some x

theorem HasMembers.append {g g' : TypeGraph} {l : List MemberId} {ms : Array MemberSymbol}
    (h : g.HasMembers l) (hmembers : g'.members = g.members ++ ms) : g'.HasMembers l := by
  intro c hc
  obtain ⟨x, hx⟩ := h c hc
  exact ⟨x, member?_append hmembers hx⟩

/-- An accessor of `owner` can be declared where `owner` is linked to members of the graph. -/
theorem exists_declareAccessor {g : TypeGraph} {owner : MemberSymbol}
    (hlinks : g.HasMembers owner.links) (slot : AccessorSlot) (d : AccessorDeclaration)
    (value : Option Parameter) :
    ∃ g' id, g.declareAccessor owner slot d value = .ok (g', id) ∧ g'.HasMembers owner.links := by
  obtain ⟨overridden, hoverridden⟩ : ∃ o, owner.overridden.mapM g.memberOrFault = .ok o := by
    refine exists_option_mapM fun c hc => ?_
    obtain ⟨x, hx⟩ := hlinks c (MemberSymbol.mem_links.2 (.inl hc))
    exact ⟨x, memberOrFault_eq_ok_iff.2 hx⟩
  obtain ⟨implemented, himplemented⟩ : ∃ l, owner.implements.mapM g.memberOrFault = .ok l := by
    refine exists_mapM fun c hc => ?_
    obtain ⟨x, hx⟩ := hlinks c (MemberSymbol.mem_links.2 (.inr hc))
    exact ⟨x, memberOrFault_eq_ok_iff.2 hx⟩
  refine ⟨_, _, bind_eq_ok.2 ⟨_, hoverridden, bind_eq_ok.2 ⟨_, himplemented, rfl⟩⟩, ?_⟩
  exact hlinks.append Array.push_eq_append

theorem exists_declareAccessor? {g : TypeGraph} {owner : MemberSymbol}
    (hlinks : g.HasMembers owner.links) (slot : AccessorSlot) (d : Option AccessorDeclaration)
    (value : Option Parameter) :
    ∃ g' id, g.declareAccessor? owner slot d value = .ok (g', id) ∧
      g'.HasMembers owner.links := by
  cases d with
  | none => exact ⟨g, none, rfl, hlinks⟩
  | some d =>
    obtain ⟨g', id, h, hlinks'⟩ := exists_declareAccessor hlinks slot d value
    exact ⟨g', some id, bind_eq_ok.2 ⟨_, h, rfl⟩, hlinks'⟩

theorem exists_declareProperty {g : TypeGraph} {t : TypeId} {ty : TypeSymbol}
    (ht : g.type? t = some ty) (d : PropertyDeclaration)
    (hlinks : g.HasMembers (d.overrides.toList ++ d.implements)) :
    ∃ p, g.declareProperty t d = .ok p := by
  let property : MemberSymbol :=
    ⟨⟨g.members.size⟩, d.name, t, d.accessibility, effectiveModifiers ty d.modifiers, d.overrides,
      d.implements, d.attributes, .property ⟨d.parameters, none, none⟩⟩
  have hlisted : ((g.appendMember property).1.listMember t property.id).HasMembers property.links :=
    hlinks.append Array.push_eq_append
  obtain ⟨g₁, getter, hgetter, hlinks₁⟩ := exists_declareAccessor? hlisted .getter d.getter none
  obtain ⟨g₂, setter, hsetter, -⟩ :=
    exists_declareAccessor? hlinks₁ .setter d.setter (some ⟨"value", d.typeName⟩)
  exact ⟨_, bind_eq_ok.2 ⟨ty, typeOrFault_eq_ok_iff.2 ht,
    bind_eq_ok.2 ⟨_, hgetter, bind_eq_ok.2 ⟨_, hsetter, rfl⟩⟩⟩⟩

theorem exists_declareEvent {g : TypeGraph} {t : TypeId} {ty : TypeSymbol}
    (ht : g.type? t = some ty) (d : EventDeclaration)
    (hlinks : g.HasMembers (d.overrides.toList ++ d.implements)) :
    ∃ p, g.declareEvent t d = .ok p := by
  let event : MemberSymbol :=
    ⟨⟨g.members.size⟩, d.name, t, d.accessibility, effectiveModifiers ty d.modifiers, d.overrides,
      d.implements, d.attributes, .event ⟨none, none⟩⟩
  have hlisted : ((g.appendMember event).1.listMember t event.id).HasMembers event.links :=
    hlinks.append Array.push_eq_append
  obtain ⟨g₁, adder, hadder, hlinks₁⟩ :=
    exists_declareAccessor hlisted .adder d.adder (some ⟨"value", d.typeName⟩)
  obtain ⟨g₂, remover, hremover, -⟩ :=
    exists_declareAccessor hlinks₁ .remover d.remover (some ⟨"value", d.typeName⟩)
  exact ⟨_, bind_eq_ok.2 ⟨ty, typeOrFault_eq_ok_iff.2 ht,
    bind_eq_ok.2 ⟨_, hadder, bind_eq_ok.2 ⟨_, hremover, rfl⟩⟩⟩⟩

/-- A declared type is appended as `d` describes it. -/
theorem declareType_eq_ok_iff {g g' : TypeGraph} {assembly : AssemblyId} {d : TypeDeclaration}
    {t : TypeId} : g.declareType assembly d = .ok (g', t) ↔
      ∃ outer, d.declaringType.mapM g.typeOrFault = .ok outer ∧ t = ⟨g.types.size⟩ ∧
        g' = { g with types := g.types.push (typeOfDeclaration t assembly outer d) } := by
  unfold declareType
  rw [bind_eq_ok]
  refine exists_congr fun outer => and_congr_right fun _ => ?_
  constructor
  · intro h
    obtain ⟨rfl, rfl⟩ := Prod.ext_iff.1 (Except.ok.inj h)
    exact ⟨rfl, rfl⟩
  · rintro ⟨rfl, rfl⟩
    rfl

/-- References that mean something can be linked, to members of the graph. -/
theorem WellFormed.exists_linkMembers {g : TypeGraph} (wf : g.WellFormed) (place : String)
    {kind : EntityKind} {overrides : Option MemberReference} {implements : List MemberReference}
    (h : ∀ r ∈ overrides.toList ++ implements, ∃ j l, g.scope.Means kind r j l) :
    ∃ overridden implemented, overrides.mapM (linkMember g place kind) = .ok overridden ∧
      implements.mapM (linkMember g place kind) = .ok implemented ∧
        g.HasMembers (overridden.toList ++ implemented) := by
  have hlink (r : MemberReference) (hr : r ∈ overrides.toList ++ implements) :
      ∃ m, linkMember g place kind r = .ok m := by
    obtain ⟨j, l, hmeans⟩ := h r hr
    obtain ⟨m, hm⟩ := wf.exists_refers hmeans
    exact ⟨m, wf.linkMember_eq_ok_iff.2 hm⟩
  obtain ⟨overridden, hoverridden⟩ := exists_option_mapM fun r hr =>
    hlink r (List.mem_append_left _ (Option.mem_toList.2 hr))
  obtain ⟨implemented, himplemented⟩ := exists_mapM fun r hr =>
    hlink r (List.mem_append_right _ hr)
  refine ⟨overridden, implemented, hoverridden, himplemented, fun c hc => ?_⟩
  rcases List.mem_append.1 hc with hc | hc
  · rw [Option.mem_toList.1 hc] at hoverridden
    obtain ⟨r, -, hr⟩ := exists_of_option_mapM hoverridden
    exact member?_of_linkMember wf hr
  · obtain ⟨r, -, hr⟩ := exists_of_mem_mapM himplemented hc
    exact member?_of_linkMember wf hr

end TypeGraph

/-! ## Own members -/

open TypeGraph

/-- An own member of a type in a document. -/
inductive MemberEntry where
  | method (m : MethodEntry)
  | property (p : PropertyEntry)
  | field (f : FieldEntry)
  | event (e : EventEntry)

namespace MemberEntry

/-- What references tell the member by. -/
def head : MemberEntry → MemberHead
  | method m => ⟨.method, m.name, m.parameters.map Parameter.typeName⟩
  | property p => ⟨.property, p.name, p.parameters.map Parameter.typeName⟩
  | field f => ⟨.field, f.name, []⟩
  | event e => ⟨.event, e.name, []⟩

/-- The reference to the member that is overridden. -/
def overrides : MemberEntry → Option MemberReference
  | method m => m.overrides
  | property p => p.overrides
  | field _ => none
  | event e => e.overrides

/-- The references to the members that are implemented. -/
def implements : MemberEntry → List MemberReference
  | method m => m.implements
  | property p => p.implements
  | field _ => []
  | event e => e.implements

/-- All references to other members. -/
def references (x : MemberEntry) : List MemberReference := x.overrides.toList ++ x.implements

/-- Declares the member `x` in the type `t`. -/
def link (x : MemberEntry) (typePlace : String) (t : TypeId) (g : TypeGraph) :
    Except DocumentError TypeGraph :=
  match x with
  | method m => m.link typePlace t g
  | property p => p.link typePlace t g
  | field f => f.link t g
  | event e => e.link typePlace t g

/-- The member of the graph is what the entry describes, linked to what its references mean in the
scope. -/
structure Describes (x : MemberEntry) (s : Scope) (g : TypeGraph) (m : MemberSymbol) : Prop where
  head : m.head = x.head
  overridden : Option.Rel (g.Refers s x.head.kind) x.overrides m.overridden
  implements : List.Forall₂ (g.Refers s x.head.kind) x.implements m.implements
  isOverride : m.isOverride = m.overridden.isSome

/-- One by one, the references of `x` mean what `m` is linked to. -/
theorem Describes.links {x : MemberEntry} {s : Scope} {g : TypeGraph} {m : MemberSymbol}
    (h : x.Describes s g m) : List.Forall₂ (g.Refers s x.head.kind) x.references m.links :=
  List.rel_append (forall₂_toList h.overridden) h.implements

end MemberEntry

/-- A declared member is told by what its declaration states. -/
theorem MemberSymbol.IsDeclared.head_eq {m : MemberSymbol} {kind : EntityKind} {name : String}
    {isOverride : Bool} {parameters : List Parameter}
    (h : m.IsDeclared kind name isOverride parameters) :
    m.head = ⟨kind, name, parameters.map Parameter.typeName⟩ := by
  rw [MemberSymbol.head, h.entityKind, h.name, h.parameters]

section

variable {g g' : TypeGraph} {t : TypeId} {place : String}

/-- An entry whose references mean something can be linked. -/
theorem MemberEntry.exists_link (wf : g.WellFormed) {ty : TypeSymbol} (ht : g.type? t = some ty)
    (x : MemberEntry) (place : String)
    (h : ∀ r ∈ x.references, ∃ j l, g.scope.Means x.head.kind r j l) :
    ∃ g', x.link place t g = .ok g' := by
  cases x with
  | method m =>
    obtain ⟨overridden, implemented, hoverridden, himplemented, -⟩ :=
      wf.exists_linkMembers (memberPlace .method m.name place) h
    refine exists_bind_of_ok hoverridden (exists_bind_of_ok himplemented ?_)
    exact exists_bind (exists_mapError (exists_declareMethod ht _)) fun _ => ⟨_, rfl⟩
  | property p =>
    obtain ⟨overridden, implemented, hoverridden, himplemented, hlinks⟩ :=
      wf.exists_linkMembers (memberPlace .property p.name place) h
    refine exists_bind_of_ok hoverridden (exists_bind_of_ok himplemented ?_)
    exact exists_bind (exists_mapError (exists_declareProperty ht _ hlinks)) fun _ => ⟨_, rfl⟩
  | field f =>
    exact exists_bind (exists_mapError (exists_declareField ht _)) fun _ => ⟨_, rfl⟩
  | event e =>
    obtain ⟨overridden, implemented, hoverridden, himplemented, hlinks⟩ :=
      wf.exists_linkMembers (memberPlace .event e.name place) h
    refine exists_bind_of_ok hoverridden (exists_bind_of_ok himplemented ?_)
    exact exists_bind (exists_mapError (exists_declareEvent ht _ hlinks)) fun _ => ⟨_, rfl⟩

theorem MemberEntry.describes_of_linkMembers (wf : g.WellFormed) {x : MemberEntry} (place : String)
    {m : MemberSymbol} {overridden : Option MemberId} {implemented : List MemberId}
    (hhead : m.head = x.head)
    (hoverridden : x.overrides.mapM (linkMember g place x.head.kind) = .ok overridden)
    (himplemented : x.implements.mapM (linkMember g place x.head.kind) = .ok implemented)
    (ho : m.overridden = overridden) (hi : m.implements = implemented)
    (hoverride : m.isOverride = overridden.isSome) : x.Describes g.scope g m := by
  subst ho hi
  exact ⟨hhead, wf.refers_of_option_mapM hoverridden, wf.refers_of_mapM himplemented, hoverride⟩

/-- A linked entry declares the member that it describes. -/
theorem MemberEntry.declares_of_link (wf : g.WellFormed) {x : MemberEntry}
    (h : x.link place t g = .ok g') : ∃ m accessors, Declares g t m accessors g' ∧
      LinksAccessors g m accessors ∧ x.Describes g.scope g m := by
  cases x with
  | method m =>
    obtain ⟨overridden, hoverridden, h⟩ := bind_eq_ok.1 h
    obtain ⟨implemented, himplemented, h⟩ := bind_eq_ok.1 h
    obtain ⟨⟨g₁, id⟩, hdeclare, h⟩ := bind_eq_ok.1 h
    obtain rfl := Except.ok.inj h
    obtain ⟨y, hy, ho, hi, -, hdeclared⟩ := declares_of_declareMethod (mapError_eq_ok.1 hdeclare)
    exact ⟨y, [], hy, fun _ ha => (nomatch ha), describes_of_linkMembers wf _ hdeclared.head_eq
      hoverridden himplemented ho hi hdeclared.isOverride⟩
  | property p =>
    obtain ⟨overridden, hoverridden, h⟩ := bind_eq_ok.1 h
    obtain ⟨implemented, himplemented, h⟩ := bind_eq_ok.1 h
    obtain ⟨⟨g₁, id⟩, hdeclare, h⟩ := bind_eq_ok.1 h
    obtain rfl := Except.ok.inj h
    obtain ⟨y, accessors, hy, haccessors, ho, hi, -, hdeclared, -⟩ :=
      declares_of_declareProperty (mapError_eq_ok.1 hdeclare)
    exact ⟨y, accessors, hy, haccessors, describes_of_linkMembers wf _ hdeclared.head_eq
      hoverridden himplemented ho hi hdeclared.isOverride⟩
  | field f =>
    obtain ⟨⟨g₁, id⟩, hdeclare, h⟩ := bind_eq_ok.1 h
    obtain rfl := Except.ok.inj h
    obtain ⟨y, hy, ho, hi, -, hdeclared⟩ := declares_of_declareField (mapError_eq_ok.1 hdeclare)
    exact ⟨y, [], hy, fun _ ha => (nomatch ha), describes_of_linkMembers wf place
      hdeclared.head_eq rfl rfl ho hi hdeclared.isOverride⟩
  | event e =>
    obtain ⟨overridden, hoverridden, h⟩ := bind_eq_ok.1 h
    obtain ⟨implemented, himplemented, h⟩ := bind_eq_ok.1 h
    obtain ⟨⟨g₁, id⟩, hdeclare, h⟩ := bind_eq_ok.1 h
    obtain rfl := Except.ok.inj h
    obtain ⟨y, accessors, hy, haccessors, ho, hi, -, hdeclared, -⟩ :=
      declares_of_declareEvent (mapError_eq_ok.1 hdeclare)
    exact ⟨y, accessors, hy, haccessors, describes_of_linkMembers wf _ hdeclared.head_eq
      hoverridden himplemented ho hi hdeclared.isOverride⟩

end

/-! ## Types -/

namespace TypeEntry

/-- The full name of the type `e`. -/
def fullName (e : TypeEntry) : String :=
  match e.declaringType with
  | some outer => outer ++ "." ++ e.name
  | none => if e.space = "" then e.name else e.space ++ "." ++ e.name

/-- The own members of the type `e`, in the order in which they are linked. -/
def members (e : TypeEntry) : List MemberEntry :=
  e.methods.map .method ++ e.properties.map .property ++ e.fields.map .field ++ e.events.map .event

/-- What references tell the type by, when its first `k` own members are linked. -/
def headUpTo (e : TypeEntry) (k : Nat) : TypeHead :=
  ⟨e.fullName, (e.members.take k).map MemberEntry.head⟩

/-- What references tell the type `e` by. -/
def head (e : TypeEntry) : TypeHead := ⟨e.fullName, e.members.map MemberEntry.head⟩

/-- The type of the graph is linked to what the names of the entry mean in the scope. -/
structure Describes (e : TypeEntry) (s : Scope) (ty : TypeSymbol) : Prop where
  declaringType :
    Option.Rel (fun name (u : TypeId) => s.Names name u.index) e.declaringType ty.declaringType
  baseTypes :
    List.Forall₂ (fun name (u : TypeId) => s.Names name u.index) e.baseTypes ty.baseTypes

/-- One by one, the names in `e` mean what `ty` refers to. -/
theorem Describes.types {e : TypeEntry} {s : Scope} {ty : TypeSymbol} (h : e.Describes s ty) :
    List.Forall₂ (fun name (u : TypeId) => s.Names name u.index)
      (e.declaringType.toList ++ e.baseTypes) (ty.declaringType.toList ++ ty.baseTypes) :=
  List.rel_append (forall₂_toList h.declaringType) h.baseTypes

/-- Declares the type `e`, without its members. -/
def declare (e : TypeEntry) (g : TypeGraph) : Except DocumentError (TypeGraph × TypeId) := do
  let (g, assembly) := g.declareAssembly e.assembly
  let declaringType ← e.declaringType.mapM (linkType g e.place)
  let baseTypes ← e.baseTypes.mapM (linkType g e.place)
  (g.declareType assembly {
    name := e.name
    space := e.space
    kind := e.kind
    accessibility := e.accessibility
    isStatic := e.isStatic
    typeParameters := e.typeParameters
    declaringType := declaringType
    baseTypes := baseTypes
    attributes := e.attributes }).mapError .faulted

/-- A type is declared, and then its own members one after another. -/
theorem link_eq (e : TypeEntry) (g : TypeGraph) : e.link g =
    e.declare g >>= fun p => e.members.foldlM (fun g x => x.link e.place p.2 g) p.1 := by
  simp only [link, declare, members, List.foldlM_append, List.foldlM_map, MemberEntry.link,
    bind_assoc]

end TypeEntry

/-- A `name` that means something can be linked. -/
theorem TypeGraph.WellFormed.exists_linkType {g : TypeGraph} (wf : g.WellFormed) (place : String)
    {name : String} {j : Nat} (h : g.scope.Names name j) : ∃ t, linkType g place name = .ok t :=
  ⟨⟨j⟩, wf.linkType_eq_ok_iff.2 h⟩

theorem TypeGraph.scope_of_eq {g g' : TypeGraph} (types : g'.types = g.types)
    (members : g'.members = g.members) : g'.scope = g.scope := by
  obtain ⟨assemblies, types', members'⟩ := g'
  subst types members
  rfl

theorem TypeGraph.declareAssembly_lt (g : TypeGraph) (name : String) :
    (g.declareAssembly name).2.index < (g.declareAssembly name).1.assemblies.size ∧
      g.assemblies.size ≤ (g.declareAssembly name).1.assemblies.size := by
  unfold declareAssembly
  split
  · rename_i a ha
    obtain ⟨i, hi, rfl⟩ := Option.map_eq_some_iff.1 ha
    obtain ⟨hlt, -⟩ := List.findIdx?_eq_some_iff_getElem.1 hi
    exact ⟨hlt, Nat.le_refl _⟩
  · simp

section

variable {e : TypeEntry} {g g' : TypeGraph} {t : TypeId}

/-- A type can be declared if all names in its entry `e` mean something. -/
theorem TypeEntry.exists_declare (wf : g.WellFormed)
    (h : ∀ name ∈ e.declaringType.toList ++ e.baseTypes, ∃ j, g.scope.Names name j) :
    ∃ p, e.declare g = .ok p := by
  unfold TypeEntry.declare
  obtain ⟨htypes, hmembers⟩ := g.declareAssembly_eq e.assembly
  generalize g.declareAssembly e.assembly = declared at htypes hmembers
  obtain ⟨g₀, assembly⟩ := declared
  have wf₀ : g₀.WellFormed := wf.of_eq htypes hmembers
  have hscope : g₀.scope = g.scope := scope_of_eq htypes hmembers
  have hlink (name : String) (hname : name ∈ e.declaringType.toList ++ e.baseTypes) :
      ∃ u, linkType g₀ e.place name = .ok u := by
    obtain ⟨j, hj⟩ := h name hname
    exact wf₀.exists_linkType e.place (hscope ▸ hj)
  obtain ⟨declaringType, hdeclaring⟩ := exists_option_mapM fun name hname =>
    hlink name (List.mem_append_left _ (Option.mem_toList.2 hname))
  obtain ⟨baseTypes, hbases⟩ := exists_mapM fun name hname =>
    hlink name (List.mem_append_right _ hname)
  obtain ⟨outer, houter⟩ : ∃ outer, declaringType.mapM g₀.typeOrFault = .ok outer := by
    refine exists_option_mapM fun u hu => ?_
    rw [hu] at hdeclaring
    obtain ⟨name, -, hname⟩ := exists_of_option_mapM hdeclaring
    obtain ⟨ty, hty⟩ := type?_of_linkType wf₀ hname
    exact ⟨ty, typeOrFault_eq_ok_iff.2 hty⟩
  refine exists_bind_of_ok hdeclaring (exists_bind_of_ok hbases (exists_mapError ?_))
  exact ⟨_, declareType_eq_ok_iff.2 ⟨outer, houter, rfl, rfl⟩⟩

/-- A nested type `d` has the full name of what its entry `e` names before its own. -/
theorem TypeEntry.fullName_of_linkType (wf : g.WellFormed) {d : TypeDeclaration}
    (hname : d.name = e.name) (hspace : d.space = e.space) {declaringType : Option TypeId}
    (hdeclaring : e.declaringType.mapM (linkType g e.place) = .ok declaringType)
    {outer : Option TypeSymbol} (houter : declaringType.mapM g.typeOrFault = .ok outer)
    {assembly : AssemblyId} : (typeOfDeclaration t assembly outer d).fullName = e.fullName := by
  have hrel := rel_of_option_mapM hdeclaring
  simp only [typeOfDeclaration, TypeEntry.fullName, hname, hspace]
  generalize e.declaringType = name at hrel
  cases hrel with
  | none =>
    obtain rfl := Except.ok.inj houter
    rfl
  | some hname =>
    obtain ⟨ty, hty, houter⟩ := bind_eq_ok.1 houter
    obtain rfl := Except.ok.inj houter
    obtain ⟨ty', hty', hfull, -⟩ := names_scope_iff.1 (wf.linkType_eq_ok_iff.1 hname)
    obtain rfl := Option.some.inj ((typeOrFault_eq_ok_iff.1 hty).symm.trans hty')
    rw [← hfull]

/-- The type declared from the entry `e` is appended, linked to what its names mean. -/
theorem TypeEntry.push_of_declare (wf : g.WellFormed) (h : e.declare g = .ok (g', t)) :
    ∃ assemblies ty, g' = ⟨assemblies, g.types.push ty, g.members⟩ ∧ t = ⟨g.types.size⟩ ∧
      g.assemblies.size ≤ assemblies.size ∧ ty.assembly.index < assemblies.size ∧
      ty.fullName = e.fullName ∧ ty.members = [] ∧ e.Describes g.scope ty := by
  unfold TypeEntry.declare at h
  obtain ⟨htypes, hmembers⟩ := g.declareAssembly_eq e.assembly
  obtain ⟨hassembly, hsize⟩ := g.declareAssembly_lt e.assembly
  generalize g.declareAssembly e.assembly = declared at h htypes hmembers hassembly hsize
  obtain ⟨g₀, assembly⟩ := declared
  have wf₀ : g₀.WellFormed := wf.of_eq htypes hmembers
  have hscope : g₀.scope = g.scope := scope_of_eq htypes hmembers
  obtain ⟨declaringType, hdeclaring, h⟩ := bind_eq_ok.1 h
  obtain ⟨baseTypes, hbases, h⟩ := bind_eq_ok.1 h
  obtain ⟨outer, houter, ht, rfl⟩ := declareType_eq_ok_iff.1 (mapError_eq_ok.1 h)
  have hnames {name : String} {u : TypeId} (h : linkType g₀ e.place name = .ok u) :
      g.scope.Names name u.index :=
    hscope ▸ wf₀.linkType_eq_ok_iff.1 h
  have hdeclaring' := rel_imp (rel_of_option_mapM hdeclaring) fun _ _ => hnames
  have hbases' := (forall₂_of_mapM hbases).imp fun _ _ => hnames
  refine ⟨g₀.assemblies, _, by rw [htypes, hmembers], by rw [ht, htypes], hsize, hassembly,
    fullName_of_linkType wf₀ rfl rfl hdeclaring houter, rfl, ?_⟩
  exact ⟨hdeclaring', hbases'⟩

end

end ScriptNaming
