import ScriptNaming.Proofs.MemberByMember
import ScriptNaming.Proofs.MemberOutcomes

/-!
# Registries and records

While the members of a type are resolved, its registry has all the names that they have registered
so far, and names that are allocated were not in it before (`Naming`). The steps that resolve one
member keep to this (`SettlesNames`), as long as nothing is recorded before about the member and its
accessors.
-/

namespace ScriptNaming

open ResolutionState

/-! ## Names in records -/

/-- The name of a field or a method with the record `r`. -/
def MemberRecord.name? (r : MemberRecord) : Option String :=
  match r.field with
  | some field => field.name?
  | none => r.method.bind MethodSemantics.name?

/-- The name that a member with the record `r` has entered in the registry of its type: a method or
a field that has a name of its own, or a property that is used as a field. -/
def MemberRecord.registeredName? (r : MemberRecord) : Option String :=
  if r.origin.isSome then r.name?
  else match r.property with
    | some (.field name) => some name
    | _ => none

/-- Of the members without a name of their own, those register a `name` that are used as fields. -/
theorem MemberRecord.registeredName?_of_origin {r : MemberRecord} (h : r.origin = none)
    {name : String} : r.registeredName? = some name ↔ r.property = some (.field name) := by
  rw [registeredName?, h, if_neg (by exact Bool.false_ne_true)]
  split
  · rename_i own hproperty
    simp [hproperty]
  · rename_i hother
    exact iff_of_false (Option.some_ne_none name).symm (hother name)

/-- What the resolution `r` comes to for the member `m`. -/
def Resolution.recordOf (r : Resolution) (m : MemberId) : MemberRecord :=
  ⟨r.methods.find? m, r.properties.find? m, r.fields.find? m, r.events.find? m, r.origins.find? m⟩

/-- The registry `names` goes with what is recorded about the members of `t`, which started from the
names in `inherited`. -/
structure Naming (g : TypeGraph) (t : TypeId) (inherited names : NameRegistry)
    (s : ResolutionState) : Prop where
  keeps : ∀ ⦃name⦄, inherited.contains name → names.contains name
  registered : ∀ ⦃m name⦄, g.Declared t m → (s.recordOf m).registeredName? = some name →
    names.contains name
  /-- There are no other names in the registry. -/
  owned : ∀ ⦃name⦄, names.contains name → inherited.contains name ∨
    ∃ m, g.Declared t m ∧ (s.recordOf m).registeredName? = some name
  allocated : ∀ ⦃m⦄, g.Declared t m → (s.recordOf m).origin = some .allocated →
    ∃ name, (s.recordOf m).name? = some name ∧ ¬inherited.contains name ∧
      ∀ k, g.Declared t k → k ≠ m → (s.recordOf k).origin = some .allocated →
        (s.recordOf k).name? ≠ some name

namespace Naming

variable {g : TypeGraph} {t : TypeId} {inherited names names' : NameRegistry}
  {s s' : ResolutionState}

/-- No names are registered for members without records. -/
theorem start (hempty : ∀ m, g.Declared t m → s.recordOf m = .empty) :
    Naming g t inherited inherited s where
  keeps _ h := h
  registered m name hm h := by
    rw [hempty m hm] at h
    cases h
  owned name h := .inl h
  allocated m hm h := by
    rw [hempty m hm] at h
    cases h

theorem contains_iff (hn : Naming g t inherited names s) {name : String} :
    names.contains name ↔ inherited.contains name ∨
      ∃ m, g.Declared t m ∧ (s.recordOf m).registeredName? = some name :=
  ⟨fun h => hn.owned h, fun h => h.elim (fun h => hn.keeps h) fun ⟨_, hm, h⟩ => hn.registered hm h⟩

/-- A new record for one member that has registered no name before is fine if its name is in the
registry, and was not before in case it is allocated, and no other name comes in. -/
theorem step (hn : Naming g t inherited names s) {m : MemberId} (hm : g.Declared t m)
    (hbefore : (s.recordOf m).registeredName? = none)
    (hframe : ∀ ⦃k⦄, g.Declared t k → k ≠ m → s'.recordOf k = s.recordOf k)
    (hnames : ∀ name, names.contains name → names'.contains name)
    (hregistered : ∀ name, (s'.recordOf m).registeredName? = some name → names'.contains name)
    (hnew : ∀ name, names'.contains name →
      names.contains name ∨ (s'.recordOf m).registeredName? = some name)
    (hallocated : (s'.recordOf m).origin = some .allocated →
      ∃ name, (s'.recordOf m).name? = some name ∧ ¬names.contains name) :
    Naming g t inherited names' s' where
  keeps _ h := hnames _ (hn.keeps h)
  registered k name hk h := by
    by_cases hkm : k = m
    · exact hregistered name (hkm ▸ h)
    · rw [hframe hk hkm] at h
      exact hnames _ (hn.registered hk h)
  owned name h := by
    rcases hnew name h with h | h
    · refine (hn.owned h).imp_right fun ⟨k, hk, hname⟩ => ⟨k, hk, ?_⟩
      have hkm : k ≠ m := by
        rintro rfl
        cases hbefore.symm.trans hname
      rwa [hframe hk hkm]
    · exact .inr ⟨m, hm, h⟩
  allocated k hk h := by
    -- An older allocated name is in the registry, and the new one was not.
    have hold {j : MemberId} (hj : g.Declared t j) {name : String}
        (horigin : (s.recordOf j).origin = some .allocated)
        (hname : (s.recordOf j).name? = some name) : names.contains name := by
      refine hn.registered hj ?_
      rwa [MemberRecord.registeredName?, horigin, if_pos (by rfl)]
    by_cases hkm : k = m
    · subst hkm
      obtain ⟨name, hname, hfresh⟩ := hallocated h
      refine ⟨name, hname, fun hin => hfresh (hn.keeps hin), fun j hj hjk hjo hjn => ?_⟩
      rw [hframe hj hjk] at hjo hjn
      exact hfresh (hold hj hjo hjn)
    · rw [hframe hk hkm] at h ⊢
      obtain ⟨name, hname, hfresh, hother⟩ := hn.allocated hk h
      refine ⟨name, hname, hfresh, fun j hj hjk hjo hjn => ?_⟩
      by_cases hjm : j = m
      · subst hjm
        obtain ⟨name', hname', hfresh'⟩ := hallocated hjo
        obtain rfl := Option.some.inj (hname'.symm.trans hjn)
        exact hfresh' (hold hk h hname)
      · rw [hframe hj hjm] at hjo hjn
        exact hother j hj hjk hjo hjn

theorem congr (hn : Naming g t inherited names s)
    (hframe : ∀ ⦃k⦄, g.Declared t k → s'.recordOf k = s.recordOf k) :
    Naming g t inherited names s' where
  keeps := hn.keeps
  registered k name hk h := by
    rw [hframe hk] at h
    exact hn.registered hk h
  owned name h := by
    refine (hn.owned h).imp_right fun ⟨k, hk, hname⟩ => ⟨k, hk, ?_⟩
    rwa [hframe hk]
  allocated k hk h := by
    rw [hframe hk] at h ⊢
    obtain ⟨name, hname, hfresh, hother⟩ := hn.allocated hk h
    refine ⟨name, hname, hfresh, fun j hj hjk hjo hjn => ?_⟩
    rw [hframe hj] at hjo hjn
    exact hother j hj hjk hjo hjn

end Naming

/-! ## Methods -/

section

variable {g : TypeGraph} {options : Options} {ensure : TypeId → Resolve Unit}
  (hensure : EnsuresMembers g options ensure) {t : TypeId} {ty : TypeSymbol}
  {resolved : ResolvedType} {m : MemberSymbol} {preferred : PreferredName}
  {inherited names names' : NameRegistry} {s₀ s s' : ResolutionState}

include hensure

/-- Before the record of a method `m` is written, nothing has happened to those of the type `t`. -/
theorem resolveMethod_cases {x : MethodSemantics} (hs : Within g options t s₀ s) (hm : g.Owns t m)
    (h : resolveMethod g (methodSemanticsBy g ensure) ty resolved m preferred names s =
      .ok ((x, names'), s')) :
    ∃ s₁, Framed g options t (fun _ => False) s s₁ ∧
      ((names' = names ∧ s' = { s₁ with methods := s₁.methods.insert m.id x }) ∨
        ∃ name counts origin, x.name? = some name ∧ names' = names.add name m.id ∧
          preferred.LeadsTo names name origin ∧
          s' = { s₁ with
            interfaceNames := counts
            origins := s₁.origins.insert m.id origin
            methods := s₁.methods.insert m.id x }) := by
  have hreport {s₁ : ResolutionState} (hs₁ : Framed g options t (fun _ => False) s s₁)
      (ds : List Diagnostic) : Framed g options t (fun _ => False) s
        { s₁ with diagnostics := s₁.diagnostics.addAll ds } :=
    hs₁.changesAt (fun _ h => h.elim) (.report _ _ ds)
  have hstart := Framed.start hs fun _ => False
  obtain ⟨s₁, hclassify, rfl⟩ := resolveMethod_eq_ok h
  obtain ⟨-, rfl, rfl⟩ | ⟨ds, -, rfl, rfl⟩ | ⟨found, s₂, hinherited, hrest⟩ :=
    classifyMethod_eq_ok hclassify
  · exact ⟨s₁, hstart, .inl ⟨rfl, rfl⟩⟩
  · exact ⟨_, hreport hstart ds, .inl ⟨rfl, rfl⟩⟩
  have hs₂ := inheritedMethod?_framed hensure hs hm hinherited
  obtain ⟨-, rfl, rfl⟩ | ⟨-, hnamed⟩ := hrest
  · exact ⟨s₁, hs₂, .inl ⟨rfl, rfl⟩⟩
  obtain ⟨rfl, ds, rfl⟩ | ⟨name, hx, hname⟩ := namedMethod_eq_ok hnamed
  · exact ⟨_, hreport hs₂ ds, .inl ⟨rfl, rfl⟩⟩
  · obtain ⟨rfl, counts, origin, rfl, hleads⟩ := nameMember_eq_ok hname
    exact ⟨s₂, hs₂, .inr ⟨name, counts, origin, hx, rfl, hleads, rfl⟩⟩

omit hensure in
theorem Naming.of_framed (hn : Naming g t inherited names s)
    (hs : Framed g options t (fun _ => False) s s') : Naming g t inherited names s' :=
  hn.congr fun _ hk => hs.frame hk not_false

omit hensure in
/-- A member without a name of its own gets a record. A property that is used as a field enters its
name. -/
theorem Naming.recordedAs {k : MemberId} (hs : Within g options t s₀ s)
    (hn : Naming g t inherited names s) (hk : g.Declared t k)
    (hbefore : (s.recordOf k).registeredName? = none) (hchange : ChangesAt (· = k) s s')
    (horigin : s'.origins.find? k = none)
    (hnames : ∀ name, names'.contains name ↔
      names.contains name ∨ s'.properties.find? k = some (.field name)) :
    Framed g options t (· = k) s s' ∧ Naming g t inherited names' s' := by
  have hdeclared : ∀ j, j = k → g.Declared t j := by
    rintro _ rfl
    exact hk
  have hs' := (Framed.start hs (· = k)).changesAt hdeclared hchange
  have horigin' : (s'.recordOf k).origin = none := horigin
  have hname {name : String} : (s'.recordOf k).registeredName? = some name ↔
      s'.properties.find? k = some (.field name) := MemberRecord.registeredName?_of_origin horigin'
  refine ⟨hs', hn.step hk hbefore hs'.frame (fun name h => (hnames name).2 (.inl h))
    (fun name h => (hnames name).2 (.inr (hname.1 h)))
    (fun name h => ((hnames name).1 h).imp_right hname.2) fun h => ?_⟩
  rw [horigin'] at h
  cases h

omit hensure in
/-- A member without a name gets a record. -/
theorem Naming.recorded {k : MemberId} (hs : Within g options t s₀ s)
    (hn : Naming g t inherited names s) (hk : g.Declared t k)
    (hbefore : (s.recordOf k).registeredName? = none) (hchange : ChangesAt (· = k) s s')
    (horigin : s'.origins.find? k = none)
    (hname : ∀ name, s'.properties.find? k ≠ some (.field name)) :
    Framed g options t (· = k) s s' ∧ Naming g t inherited names s' :=
  hn.recordedAs hs hk hbefore hchange horigin fun name => (or_iff_left (hname name)).symm

omit hensure in
theorem recordMethod_naming {k : MemberId} (x : MethodSemantics) (hs : Within g options t s₀ s)
    (hn : Naming g t inherited names s) (hk : g.Declared t k)
    (horigin : s.origins.find? k = none) (hproperty : s.properties.find? k = none) :
    Framed g options t (· = k) s { s with methods := s.methods.insert k x } ∧
      Naming g t inherited names { s with methods := s.methods.insert k x } := by
  have hbefore : (s.recordOf k).registeredName? = none := by
    simp only [MemberRecord.registeredName?, recordOf, horigin, hproperty, Option.isSome_none,
      Bool.false_eq_true, if_false]
  refine hn.recorded hs hk hbefore (.method (K := (· = k)) s rfl x) horigin fun name h => ?_
  rw [hproperty] at h
  cases h

omit hensure in
/-- A member `k` gets a record with a `name` that is entered at the same time. -/
theorem Naming.named {k : MemberId} {name : String} {counts : InterfaceNames} {origin : NameOrigin}
    (hs : Within g options t s₀ s) (hn : Naming g t inherited names s) (hk : g.Declared t k)
    (hbefore : (s.recordOf k).registeredName? = none)
    (hfree : origin = .allocated → ¬names.contains name)
    (hchange : ChangesAt (· = k)
      { s with interfaceNames := counts, origins := s.origins.insert k origin } s')
    (horigin : s'.origins.find? k = some origin) (hname : (s'.recordOf k).name? = some name) :
    Framed g options t (· = k) s s' ∧ Naming g t inherited (names.add name k) s' := by
  have hdeclared : ∀ j, j = k → g.Declared t j := by
    rintro _ rfl
    exact hk
  have hs₁ := (Framed.start hs (· = k)).changesAt hdeclared (.interfaceNames _ _ counts)
  have hs' := (hs₁.changesAt hdeclared (.origin (K := (· = k)) _ rfl origin)).changesAt hdeclared
    hchange
  have hregistered : (s'.recordOf k).registeredName? = some name := by
    have horigin' : (s'.recordOf k).origin = some origin := horigin
    rw [MemberRecord.registeredName?, horigin', if_pos (by rfl), hname]
  refine ⟨hs', hn.step hk hbefore hs'.frame (fun _ h => NameRegistry.contains_add.2 (.inr h))
    (fun name' h => ?_) (fun name' h => ?_) fun h => ⟨name, hname, hfree ?_⟩⟩
  · exact NameRegistry.contains_add.2 (.inl (Option.some.inj (hregistered.symm.trans h)))
  · rcases NameRegistry.contains_add.1 h with rfl | h
    · exact .inr hregistered
    · exact .inl h
  · exact Option.some.inj (horigin.symm.trans h)

/-- A method without a record is resolved. -/
theorem resolveMethod_naming {x : MethodSemantics} (hs : Within g options t s₀ s)
    (hn : Naming g t inherited names s) (hm : g.Owns t m) (hempty : s.recordOf m.id = .empty)
    (h : resolveMethod g (methodSemanticsBy g ensure) ty resolved m preferred names s =
      .ok ((x, names'), s')) :
    Framed g options t (· = m.id) s s' ∧ Naming g t inherited names' s' := by
  obtain ⟨s₁, hs₁, hcases⟩ := resolveMethod_cases hensure hs hm h
  have hempty₁ : s₁.recordOf m.id = .empty := (hs₁.frame hm.declared not_false).trans hempty
  have hn₁ := hn.of_framed hs₁
  have hframed : Framed g options t (· = m.id) s s₁ := hs₁.mono fun _ h => h.elim
  obtain ⟨rfl, rfl⟩ | ⟨name, counts, origin, hname, rfl, hleads, rfl⟩ := hcases
  · obtain ⟨hs', hn'⟩ := recordMethod_naming x hs₁.toWithin hn₁ hm.declared
      (congrArg MemberRecord.origin hempty₁) (congrArg MemberRecord.property hempty₁)
    exact ⟨hframed.trans hs', hn'⟩
  · have hfield : s₁.fields.find? m.id = none := congrArg MemberRecord.field hempty₁
    have hbefore : (s₁.recordOf m.id).registeredName? = none := by rw [hempty₁]; rfl
    obtain ⟨hs', hn'⟩ := hn₁.named hs₁.toWithin hm.declared hbefore hleads.fresh
      (.method (K := (· = m.id)) _ rfl x) (Table.find?_insert_self _ _ _)
      (by simp only [recordOf, MemberRecord.name?, hfield, Table.find?_insert_self,
        Option.bind_some, hname])
    exact ⟨hframed.trans hs', hn'⟩

/-! ## Accessors -/

omit hensure in
theorem report_naming (hs : Within g options t s₀ s) (hn : Naming g t inherited names s)
    (ds : List Diagnostic) :
    Framed g options t (fun _ => False) s { s with diagnostics := s.diagnostics.addAll ds } ∧
      Naming g t inherited names { s with diagnostics := s.diagnostics.addAll ds } :=
  ⟨(Framed.start hs _).changesAt (fun _ h => h.elim) (.report _ _ ds),
    hn.congr fun _ _ => rfl⟩

theorem resolveAccessor_naming (wf : g.WellFormed) {slot : AccessorSlot} {a : MemberId}
    {x : MethodSemantics} (hs : Within g options t s₀ s) (hn : Naming g t inherited names s)
    (hm : g.Owns t m) (ha : m.accessor? slot = some a) (hempty : s.recordOf a = .empty)
    (h : (g.memberContext options ensure ty resolved).resolveAccessor m slot preferred a names s =
      .ok ((x, names'), s')) :
    Framed g options t (· = a) s s' ∧ Naming g t inherited names' s' := by
  obtain ⟨y, ds, name, hy, -, hmethod⟩ := MemberContext.resolveAccessor_eq_ok h
  obtain rfl := wf.member_id hy
  obtain ⟨hframed, hnaming⟩ := report_naming hs hn ds
  obtain ⟨hframed', hnaming'⟩ := resolveMethod_naming hensure hframed.toWithin hnaming
    ((hm.accessor wf ha).2 y hy) hempty hmethod
  exact ⟨(hframed.mono fun _ h => h.elim).trans hframed', hnaming'⟩

theorem resolveAccessor?_naming (wf : g.WellFormed) {slot : AccessorSlot}
    {x : Option MethodSemantics} (hs : Within g options t s₀ s)
    (hn : Naming g t inherited names s) (hm : g.Owns t m)
    (hempty : ∀ a, m.accessor? slot = some a → s.recordOf a = .empty)
    (h : (g.memberContext options ensure ty resolved).resolveAccessor? m slot preferred names s =
      .ok ((x, names'), s')) :
    Framed g options t (m.accessor? slot = some ·) s s' ∧ Naming g t inherited names' s' := by
  obtain ⟨-, -, rfl, rfl⟩ | ⟨a, y, ha, -, haccessor⟩ := MemberContext.resolveAccessor?_eq_ok h
  · exact ⟨.start hs _, hn⟩
  · obtain ⟨hframed, hnaming⟩ :=
      resolveAccessor_naming hensure wf hs hn hm ha (hempty a ha) haccessor
    refine ⟨hframed.mono ?_, hnaming⟩
    rintro _ rfl
    exact ha

/-- The accessors of `m` in the places `slot` and `slot'` are resolved one after the other. -/
theorem resolveAccessors_naming (wf : g.WellFormed) {slot slot' : AccessorSlot}
    (hslot : slot ≠ slot') {x x' : Option MethodSemantics} {names₁ : NameRegistry}
    {s₁ : ResolutionState} (hs : Within g options t s₀ s) (hn : Naming g t inherited names s)
    (hm : g.Owns t m) (hempty : ∀ a ∈ m.accessors, s.recordOf a = .empty)
    (h : (g.memberContext options ensure ty resolved).resolveAccessor? m slot preferred names s =
      .ok ((x, names₁), s₁))
    (h' : (g.memberContext options ensure ty resolved).resolveAccessor? m slot' preferred names₁ s₁
      = .ok ((x', names'), s')) :
    Framed g options t (· ∈ m.accessors) s s' ∧ Naming g t inherited names' s' := by
  have hmem {slot : AccessorSlot} {a : MemberId} (ha : m.accessor? slot = some a) :
      a ∈ m.accessors := MemberSymbol.mem_accessors.2 ⟨slot, ha⟩
  obtain ⟨hframed, hnaming⟩ := resolveAccessor?_naming hensure wf hs hn hm
    (fun a ha => hempty a (hmem ha)) h
  have hempty₁ (a : MemberId) (ha : m.accessor? slot' = some a) : s₁.recordOf a = .empty := by
    refine (hframed.frame (hm.accessor wf ha).1 fun ha' => hslot ?_).trans (hempty a (hmem ha))
    exact wf.slot_unique hm.1 ha' ha
  obtain ⟨hframed', hnaming'⟩ :=
    resolveAccessor?_naming hensure wf hframed.toWithin hnaming hm hempty₁ h'
  exact ⟨(hframed.mono fun _ ha => hmem ha).trans (hframed'.mono fun _ ha => hmem ha), hnaming'⟩

/-! ## Properties -/

/-- The registry goes with the records again once `x` is recorded for a property, which enters its
name if it is used as a field. -/
def NamesProperty (g : TypeGraph) (t : TypeId) (inherited : NameRegistry) (x : PropertySemantics)
    (names : NameRegistry) (s : ResolutionState) : Prop :=
  ∃ names₀, Naming g t inherited names₀ s ∧
    ∀ name, names.contains name ↔ names₀.contains name ∨ x = .field name

theorem accessedProperty_naming (wf : g.WellFormed) {x : PropertySemantics}
    (hs : Within g options t s₀ s) (hn : Naming g t inherited names s) (hm : g.Owns t m)
    (hempty : ∀ a ∈ m.accessors, s.recordOf a = .empty)
    (h : (g.memberContext options ensure ty resolved).accessedProperty m preferred names s =
      .ok ((x, names'), s')) :
    Framed g options t (· ∈ m.accessors) s s' ∧ NamesProperty g t inherited x names' s' := by
  obtain ⟨getter, setter, names₁, s₁, rfl, hgetter, hsetter⟩ :=
    MemberContext.accessedProperty_eq_ok h
  obtain ⟨hframed, hnaming⟩ := resolveAccessors_naming hensure wf (by decide) hs hn hm hempty
    hgetter hsetter
  exact ⟨hframed, names', hnaming, fun name => (or_iff_left fun h => nomatch h).symm⟩

theorem classifyProperty_naming (wf : g.WellFormed) {x : PropertySemantics}
    (hs : Within g options t s₀ s) (hn : Naming g t inherited names s) (hm : g.Owns t m)
    (hempty : ∀ a ∈ m.accessors, s.recordOf a = .empty)
    (h : (g.memberContext options ensure ty resolved).classifyProperty m preferred names s =
      .ok ((x, names'), s')) :
    Framed g options t (· ∈ m.accessors) s s' ∧ NamesProperty g t inherited x names' s' := by
  cases MemberContext.classifyProperty_eq_ok h with
  | direct hx hmatches hnames ds hstate =>
    subst hstate
    obtain ⟨hframed, hnaming⟩ := report_naming hs hn ds
    exact ⟨hframed.mono fun _ h => h.elim, names, hnaming, hnames⟩
  | accessed hx ds haccessed =>
    obtain ⟨hframed, hnaming⟩ := report_naming hs hn ds
    obtain ⟨hframed', hrest⟩ :=
      accessedProperty_naming hensure wf hframed.toWithin hnaming hm hempty haccessed
    exact ⟨(hframed.mono fun _ h => h.elim).trans hframed', hrest⟩

/-! ## Members of all kinds -/

omit hensure in
theorem accessors_forM_naming {as : List MemberId} (hs : Within g options t s₀ s)
    (hn : Naming g t inherited names s) (has : ∀ a ∈ as, g.Declared t a ∧
      s.origins.find? a = none ∧ s.properties.find? a = none)
    (h : as.forM (recordMethod · .notUsable) s = .ok ((), s')) :
    Framed g options t (· ∈ as) s s' ∧ Naming g t inherited names s' := by
  induction as generalizing s₀ s with
  | nil =>
    obtain ⟨-, rfl⟩ := run_pure_eq_ok.1 h
    exact ⟨.start hs _, hn⟩
  | cons a as ih =>
    change (recordMethod a .notUsable >>= fun _ => as.forM (recordMethod · .notUsable)) s = _ at h
    rw [run_bind_eq_ok] at h
    obtain ⟨_, s₁, hrecord, h⟩ := h
    obtain rfl := recordMethod_eq_ok hrecord
    obtain ⟨hdeclared, horigin, hproperty⟩ := has a (.head _)
    obtain ⟨hs₁, hn₁⟩ := recordMethod_naming .notUsable hs hn hdeclared horigin hproperty
    obtain ⟨hs', hn'⟩ := ih hs₁.toWithin hn₁ (fun b hb => has b (.tail _ hb)) h
    refine ⟨(hs₁.mono ?_).trans (hs'.mono fun _ hk => .tail _ hk), hn'⟩
    rintro _ rfl
    exact .head _

/-- The step `x` resolves the member `m`, about which and about whose accessors nothing is recorded
so far, in such a way that the registry goes with the records again. -/
def SettlesNames (g : TypeGraph) (options : Options) (t : TypeId) (inherited : NameRegistry)
    (m : MemberSymbol) (x : NameRegistry → Resolve NameRegistry) : Prop :=
  ∀ ⦃s₀ s s' : ResolutionState⦄ ⦃names names' : NameRegistry⦄, Within g options t s₀ s →
    Naming g t inherited names s → (∀ k, m.Covers k → s.recordOf k = .empty) →
    x names s = .ok (names', s') →
    Framed g options t m.Covers s s' ∧
      Naming g t inherited names' s'

omit hensure in
theorem SettlesNames.settles {x : NameRegistry → Resolve NameRegistry}
    (h : SettlesNames g options t inherited m x) :
    Settles False g options t (Naming g t inherited) (fun _ _ => True) m x :=
  fun _ _ _ hs hn hempty => .intro False.elim fun _ _ hx =>
    let ⟨hs', hn'⟩ := h hs hn hempty hx
    ⟨hs', hn', trivial⟩

omit hensure in
theorem TypeGraph.Lists.not_mem_accessors (wf : g.WellFormed) (hm : g.Lists t m) :
    m.id ∉ m.accessors := by
  intro hmem
  obtain ⟨slot, hslot⟩ := MemberSymbol.mem_accessors.1 hmem
  obtain ⟨y, hy, -, haccessor⟩ := wf.accessor hm.1.1 hslot
  rw [Option.some.inj (hy.symm.trans hm.1.1), hm.2] at haccessor
  cases haccessor

omit hensure in
theorem LeftOut.naming (h : LeftOut m s s') (hs : Within g options t s₀ s)
    (hn : Naming g t inherited names s) (hm : g.Owns t m) (hempty : s.recordOf m.id = .empty) :
    Framed g options t (· = m.id) s s' ∧ Naming g t inherited names s' := by
  have hbefore : (s.recordOf m.id).registeredName? = none := by rw [hempty]; rfl
  have horigin : s.origins.find? m.id = none := congrArg MemberRecord.origin hempty
  have hproperty : s.properties.find? m.id = none := congrArg MemberRecord.property hempty
  cases h with
  | method hkind => exact recordMethod_naming .notUsable hs hn hm.declared horigin hproperty
  | property hkind =>
    refine hn.recorded hs hm.declared hbefore (.property (K := (· = m.id)) s rfl .notUsable) horigin
      fun name h => ?_
    cases (Table.find?_insert_self _ _ _).symm.trans h
  | field hkind =>
    exact hn.recorded hs hm.declared hbefore (.field (K := (· = m.id)) s rfl .notUsable) horigin
      fun name h => nomatch hproperty.symm.trans h
  | event hkind =>
    exact hn.recorded hs hm.declared hbefore (.event (K := (· = m.id)) s rfl .notUsable) horigin
      fun name h => nomatch hproperty.symm.trans h

omit hensure in
theorem markNotUsable_settles (wf : g.WellFormed) (hm : g.Lists t m) :
    SettlesNames g options t inherited m fun names => do
      markNotUsable m
      return names := by
  intro s₀ s s' names names' hs hn hempty h
  rw [run_bind_eq_ok] at h
  obtain ⟨_, s₂, hmark, h⟩ := h
  obtain ⟨rfl, rfl⟩ := run_pure_eq_ok.1 h
  obtain ⟨s₁, hfirst, hrest⟩ := markNotUsable_eq_ok hmark
  obtain ⟨hs₁, hn₁⟩ := hfirst.naming hs hn hm.1 (hempty m.id (.inl rfl))
  -- The accessors of a property or an event follow its own record.
  have hrecord (a : MemberId) (ha : a ∈ m.accessors) : s₁.recordOf a = .empty := by
    refine (hs₁.frame (hm.1.declared_of_covers wf (.inr ha)) ?_).trans (hempty a (.inr ha))
    rintro rfl
    exact hm.not_mem_accessors wf ha
  obtain ⟨hs', hn'⟩ := accessors_forM_naming hs₁.toWithin hn₁ (fun a ha =>
    ⟨hm.1.declared_of_covers wf (.inr ha), congrArg MemberRecord.origin (hrecord a ha),
      congrArg MemberRecord.property (hrecord a ha)⟩) hrest
  exact ⟨(hs₁.mono fun _ h => .inl h).trans (hs'.mono fun _ h => .inr h), hn'⟩

theorem resolveDataMember_settles (wf : g.WellFormed) (hm : g.Lists t m) :
    SettlesNames g options t inherited m
      ((g.memberContext options ensure ty resolved).resolveDataMember m preferred) := by
  intro s₀ s s' names names' hs hn hempty h
  have hown : s.recordOf m.id = .empty := hempty m.id (.inl rfl)
  have haccessors (a : MemberId) (ha : a ∈ m.accessors) : s.recordOf a = .empty :=
    hempty a (.inr ha)
  -- The own record follows those of the accessors.
  have hlast {s₁ : ResolutionState} (hs₁ : Framed g options t (· ∈ m.accessors) s s₁) :
      s₁.recordOf m.id = .empty :=
    (hs₁.frame hm.1.declared (hm.not_mem_accessors wf)).trans hown
  have hcovers {s₁ s₂ : ResolutionState} (hs₁ : Framed g options t (· ∈ m.accessors) s s₁)
      (hs₂ : Framed g options t (· = m.id) s₁ s₂) : Framed g options t m.Covers s s₂ :=
    (hs₁.mono fun _ h => .inr h).trans (hs₂.mono fun _ h => .inl h)
  have hbefore {s₁ : ResolutionState} (hs₁ : s₁.recordOf m.id = .empty) :
      (s₁.recordOf m.id).registeredName? = none := by
    rw [hs₁]
    rfl
  obtain ⟨rfl, hmark⟩ | ⟨-, rfl, rfl⟩ | ⟨data, x, s₁, -, hclassify, rfl⟩ |
    ⟨name, s₁, -, hname, rfl⟩ | ⟨data, adder, remover, names₁, s₁, s₂, -, hadder, hremover, rfl⟩ :=
    MemberContext.resolveDataMember_eq_ok h
  · exact markNotUsable_settles wf hm hs hn hempty (run_bind_eq_ok.2 ⟨(), s', hmark, rfl⟩)
  · exact ⟨.start hs _, hn⟩
  · obtain ⟨hs₁, names₀, hn₁, hnames⟩ :=
      classifyProperty_naming hensure wf hs hn hm.1 haccessors hclassify
    obtain ⟨hs', hn'⟩ := hn₁.recordedAs hs₁.toWithin hm.1.declared (hbefore (hlast hs₁))
      (.property (K := (· = m.id)) s₁ rfl x) (congrArg MemberRecord.origin (hlast hs₁))
      fun name => by rw [hnames, Table.find?_insert_self, Option.some.injEq]
    exact ⟨hcovers hs₁ hs', hn'⟩
  · obtain ⟨rfl, counts, origin, rfl, hleads⟩ := nameMember_eq_ok hname
    obtain ⟨hs', hn'⟩ := hn.named hs hm.1.declared (hbefore hown) hleads.fresh
      (.field (K := (· = m.id)) _ rfl (.field name)) (Table.find?_insert_self _ _ _)
      (by simp only [recordOf, MemberRecord.name?, Table.find?_insert_self, FieldSemantics.name?])
    exact ⟨hs'.mono fun _ h => .inl h, hn'⟩
  · obtain ⟨hs₂, hn₂⟩ := resolveAccessors_naming hensure wf (by decide) hs hn hm.1 haccessors
      hadder hremover
    have hproperty : s₂.properties.find? m.id = none :=
      congrArg MemberRecord.property (hlast hs₂)
    obtain ⟨hs', hn'⟩ := hn₂.recorded hs₂.toWithin hm.1.declared (hbefore (hlast hs₂))
      (.event (K := (· = m.id)) s₂ rfl (.addAndRemove adder remover))
      (congrArg MemberRecord.origin (hlast hs₂))
      fun name => ne_of_eq_of_ne hproperty (Option.some_ne_none _).symm
    exact ⟨hcovers hs₂ hs', hn'⟩

theorem resolveMember_settles (wf : g.WellFormed) (hm : g.Lists t m) :
    SettlesNames g options t inherited m
      ((g.memberContext options ensure ty resolved).resolveMember m preferred) := by
  intro s₀ s s' names names' hs hn hempty h
  obtain ⟨-, x, hmethod⟩ | ⟨-, hdata⟩ := MemberContext.resolveMember_eq_ok h
  · obtain ⟨hs', hn'⟩ :=
      resolveMethod_naming hensure hs hn hm.1 (hempty m.id (.inl rfl)) hmethod
    exact ⟨hs'.mono fun _ h => .inl h, hn'⟩
  · exact resolveDataMember_settles hensure wf hm hs hn hempty hdata

omit hensure in
theorem resolveAlternate_settles (hm : g.Owns t m) (main : MemberSymbol) :
    SettlesNames g options t inherited m fun names => do
      resolveAlternate m main
      return names := by
  intro s₀ s s' names names' hs hn hempty h
  rw [run_bind_eq_ok] at h
  obtain ⟨_, s₁, halternate, h⟩ := h
  obtain ⟨rfl, rfl⟩ := run_pure_eq_ok.1 h
  have hown : s.recordOf m.id = .empty := hempty m.id (.inl rfl)
  obtain ⟨x, rfl⟩ := resolveAlternate_eq_ok halternate
  obtain ⟨hs', hn'⟩ := recordMethod_naming x hs hn hm.declared (congrArg MemberRecord.origin hown)
    (congrArg MemberRecord.property hown)
  exact ⟨hs'.mono fun _ h => .inl h, hn'⟩

end

end ScriptNaming
