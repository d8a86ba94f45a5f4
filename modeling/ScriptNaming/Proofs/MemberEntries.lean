import ScriptNaming.Proofs.LeftOutMembers
import ScriptNaming.Proofs.SettledMembers

/-!
# The entries of members

When the members of a type are done, each of them has an entry in the table of its own kind. What
the entries of properties and events say of their accessors agrees with the entries of these as
methods (`agrees_of_done`). So the accessors have entries unless a property is used without them
(`hasEntries_of_done`).
-/

namespace ScriptNaming

open ResolutionState

/-- Whether something is recorded in `r` about the member `m` in the table of its own kind. -/
def MemberRecord.hasOwnEntry (r : MemberRecord) (m : MemberSymbol) : Bool :=
  match m.kind with
  | .method _ => r.method.isSome
  | .property _ => r.property.isSome
  | .field => r.field.isSome
  | .event _ => r.event.isSome

theorem MemberRecord.hasOwnEntry_of_isMethod {r : MemberRecord} {m : MemberSymbol}
    (h : m.isMethod) : r.hasOwnEntry m = r.method.isSome := by
  unfold MemberSymbol.isMethod at h
  unfold hasOwnEntry
  cases hkind : m.kind with
  | method data => rfl
  | property data | field | event data =>
    rw [hkind] at h
    contradiction

namespace MemberSymbol

/-- The member has an entry of its own kind, and its accessors have entries as methods unless it is
a property that is used without them. -/
structure HasEntries (m : MemberSymbol) (recordOf : MemberId → MemberRecord) : Prop where
  own : (recordOf m.id).hasOwnEntry m
  accessors : ∀ a ∈ m.accessors, (recordOf a).method.isSome ↔
    ¬∃ x, (recordOf m.id).property = some x ∧ m.LeavesOutAccessors x

end MemberSymbol

/-! ## Entries that agree -/

/-- Nothing is recorded as a property or an event, which could have accessors. -/
structure MemberRecord.Plain (r : MemberRecord) : Prop where
  property : r.property = none
  event : r.event = none

theorem MemberRecord.plain_empty : MemberRecord.empty.Plain := ⟨rfl, rfl⟩

namespace MemberSymbol

/-- The semantics `x` that the entry of a member holds for its accessor in a place agree with the
entry of the accessor as a method, which there is unless it `lacks`. -/
structure Embeds (m : MemberSymbol) (recordOf : MemberId → MemberRecord) (lacks : Prop)
    (slot : AccessorSlot) (x : Option MethodSemantics) : Prop where
  isSome_iff : x.isSome ↔ (m.accessor? slot).isSome
  entry : ∀ a y, m.accessor? slot = some a → (recordOf a).method = some y → x = some y
  lacking : ∀ a, m.accessor? slot = some a → ((recordOf a).method = none ↔ lacks)

/-- The entry `x` of a property agrees with the entries of its accessors as methods. -/
def PropertyAgrees (m : MemberSymbol) (recordOf : MemberId → MemberRecord) :
    PropertySemantics → Prop
  | .getAndSet getter setter => m.Embeds recordOf m.HasValidAlias .getter getter ∧
      m.Embeds recordOf m.HasValidAlias .setter setter
  | .field _ => ∀ a ∈ m.accessors, (recordOf a).method = none
  | .nativeIndexer canGet canSet => (∀ a ∈ m.accessors, (recordOf a).method = none) ∧
      canGet = (m.accessor? .getter).isSome ∧ canSet = (m.accessor? .setter).isSome
  | .notUsable => ∀ a ∈ m.accessors, (recordOf a).method = some .notUsable

/-- The entry `x` of an event agrees with the entries of its accessors as methods. -/
def EventAgrees (m : MemberSymbol) (recordOf : MemberId → MemberRecord) : EventSemantics → Prop
  | .addAndRemove adder remover => m.Embeds recordOf False .adder adder ∧
      m.Embeds recordOf False .remover remover
  | .notUsable => ∀ a ∈ m.accessors, (recordOf a).method = some .notUsable

/-- A member has an entry of its own kind, which agrees with those of its accessors, and these have
no accessors themselves. -/
structure Agrees (m : MemberSymbol) (recordOf : MemberId → MemberRecord) : Prop where
  own : (recordOf m.id).hasOwnEntry m
  property : ∀ x, (recordOf m.id).property = some x →
    (∃ data, m.kind = .property data) ∧ m.PropertyAgrees recordOf x
  event : ∀ x, (recordOf m.id).event = some x →
    (∃ data, m.kind = .event data) ∧ m.EventAgrees recordOf x
  accessors : ∀ a ∈ m.accessors, (recordOf a).Plain

variable {m : MemberSymbol} {recordOf recordOf' : MemberId → MemberRecord}

namespace Embeds

variable {lacks lacks' : Prop} {slot : AccessorSlot} {x : Option MethodSemantics}

theorem congr (h : m.Embeds recordOf lacks slot x)
    (heq : ∀ a, m.accessor? slot = some a → recordOf' a = recordOf a) :
    m.Embeds recordOf' lacks slot x where
  isSome_iff := h.isSome_iff
  entry a y ha := by
    rw [heq a ha]
    exact h.entry a y ha
  lacking a ha := by
    rw [heq a ha]
    exact h.lacking a ha

theorem congr_lacks (h : m.Embeds recordOf lacks slot x) (hiff : lacks ↔ lacks') :
    m.Embeds recordOf lacks' slot x :=
  { h with lacking := fun a ha => (h.lacking a ha).trans hiff }

/-- A member `m` without an accessor in the place `slot` has no semantics for it. -/
theorem none (ha : m.accessor? slot = none) : m.Embeds recordOf lacks slot none where
  isSome_iff := by simp [ha]
  entry a y h := nomatch ha.symm.trans h
  lacking a h := nomatch ha.symm.trans h

theorem some {a : MemberId} {y : MethodSemantics} (ha : m.accessor? slot = some a)
    (hy : (recordOf a).method = some y) : m.Embeds recordOf False slot (some y) where
  isSome_iff := by simp [ha]
  entry b z hb hz := by
    obtain rfl := Option.some.inj (ha.symm.trans hb)
    exact hy.symm.trans hz
  lacking b hb := by
    obtain rfl := Option.some.inj (ha.symm.trans hb)
    simp [hy]

/-- There are semantics `x` for accessors of `m` that have no entries as methods. -/
theorem of_forall_eq_none (hx : x.isSome = (m.accessor? slot).isSome)
    (hnone : ∀ a ∈ m.accessors, (recordOf a).method = .none) : m.Embeds recordOf True slot x where
  isSome_iff := by rw [hx]
  entry a y ha hy := nomatch (hnone a (mem_accessors.2 ⟨slot, ha⟩)).symm.trans hy
  lacking a ha := iff_true_intro (hnone a (mem_accessors.2 ⟨slot, ha⟩))

end Embeds

theorem PropertyAgrees.congr {x : PropertySemantics} (h : m.PropertyAgrees recordOf x)
    (heq : ∀ a ∈ m.accessors, recordOf' a = recordOf a) : m.PropertyAgrees recordOf' x := by
  have hmethods {y : Option MethodSemantics} (h : ∀ a ∈ m.accessors, (recordOf a).method = y) :
      ∀ a ∈ m.accessors, (recordOf' a).method = y := fun a ha => by
    rw [heq a ha]
    exact h a ha
  have hslot (slot : AccessorSlot) (a : MemberId) (ha : m.accessor? slot = some a) :
      recordOf' a = recordOf a := heq a (mem_accessors.2 ⟨slot, ha⟩)
  cases x with
  | getAndSet getter setter => exact ⟨h.1.congr (hslot .getter), h.2.congr (hslot .setter)⟩
  | field name => exact hmethods h
  | nativeIndexer canGet canSet => exact ⟨hmethods h.1, h.2⟩
  | notUsable => exact hmethods h

theorem EventAgrees.congr {x : EventSemantics} (h : m.EventAgrees recordOf x)
    (heq : ∀ a ∈ m.accessors, recordOf' a = recordOf a) : m.EventAgrees recordOf' x := by
  have hslot (slot : AccessorSlot) (a : MemberId) (ha : m.accessor? slot = some a) :
      recordOf' a = recordOf a := heq a (mem_accessors.2 ⟨slot, ha⟩)
  cases x with
  | addAndRemove adder remover => exact ⟨h.1.congr (hslot .adder), h.2.congr (hslot .remover)⟩
  | notUsable =>
    intro a ha
    rw [heq a ha]
    exact h a ha

theorem Agrees.congr (h : m.Agrees recordOf)
    (heq : ∀ k, m.Covers k → recordOf' k = recordOf k) : m.Agrees recordOf' := by
  have hown : recordOf' m.id = recordOf m.id := heq m.id (.inl rfl)
  have haccessors (a : MemberId) (ha : a ∈ m.accessors) : recordOf' a = recordOf a :=
    heq a (.inr ha)
  refine ⟨by rw [hown]; exact h.own, fun x hx => ?_, fun x hx => ?_, fun a ha => ?_⟩
  · rw [hown] at hx
    exact (h.property x hx).imp_right (·.congr haccessors)
  · rw [hown] at hx
    exact (h.event x hx).imp_right (·.congr haccessors)
  · rw [haccessors a ha]
    exact h.accessors a ha

/-! ## Agreement by kind -/

/-- A property that is used without its accessors agrees with their having no entries. -/
theorem PropertyAgrees.of_leavesOut {x : PropertySemantics} (hx : m.LeavesOutAccessors x)
    (hmatches : m.MatchesAccessors x) (hnone : ∀ a ∈ m.accessors, (recordOf a).method = none) :
    m.PropertyAgrees recordOf x := by
  cases x with
  | getAndSet getter setter =>
    have hiff : True ↔ m.HasValidAlias := (iff_true_intro hx).symm
    exact ⟨(Embeds.of_forall_eq_none hmatches.1 hnone).congr_lacks hiff,
      (Embeds.of_forall_eq_none hmatches.2 hnone).congr_lacks hiff⟩
  | field name => exact hnone
  | nativeIndexer canGet canSet => exact ⟨hnone, hmatches⟩
  | notUsable => exact hx.elim

/-- The accessors of a property have entries unless it is used without them. -/
theorem PropertyAgrees.isSome_method_iff {data : PropertyData} {x : PropertySemantics}
    (h : m.PropertyAgrees recordOf x) (hkind : m.kind = .property data) {a : MemberId}
    (ha : a ∈ m.accessors) : (recordOf a).method.isSome ↔ ¬m.LeavesOutAccessors x := by
  cases x with
  | getAndSet getter setter =>
    rw [← Option.ne_none_iff_isSome]
    rcases accessor?_of_property hkind ha with hslot | hslot
    · exact not_congr (h.1.lacking a hslot)
    · exact not_congr (h.2.lacking a hslot)
  | field name => simp [LeavesOutAccessors, h a ha]
  | nativeIndexer canGet canSet => simp [LeavesOutAccessors, h.1 a ha]
  | notUsable => simp [LeavesOutAccessors, h a ha]

/-- The accessors of an event have entries. -/
theorem EventAgrees.isSome_method {data : EventData} {x : EventSemantics}
    (h : m.EventAgrees recordOf x) (hkind : m.kind = .event data) {a : MemberId}
    (ha : a ∈ m.accessors) : (recordOf a).method.isSome := by
  cases x with
  | addAndRemove adder remover =>
    rw [← Option.ne_none_iff_isSome]
    rcases accessor?_of_event hkind ha with hslot | hslot
    · exact (h.1.lacking a hslot).1
    · exact (h.2.lacking a hslot).1
  | notUsable => rw [h a ha, Option.isSome_some]

/-- Methods and fields have no accessors to agree with. -/
theorem Agrees.of_accessors_eq_nil (own : (recordOf m.id).hasOwnEntry m)
    (hplain : (recordOf m.id).Plain) (h : m.isMethod ∨ m.kind = .field) : m.Agrees recordOf where
  own := own
  property x hx := nomatch hplain.property.symm.trans hx
  event x hx := nomatch hplain.event.symm.trans hx
  accessors := by
    rw [accessors_eq_nil h]
    exact fun a ha => nomatch ha

theorem Agrees.of_property {data : PropertyData} {x : PropertySemantics}
    (hkind : m.kind = .property data) (hx : (recordOf m.id).property = some x)
    (hevent : (recordOf m.id).event = none) (hagrees : m.PropertyAgrees recordOf x)
    (haccessors : ∀ a ∈ m.accessors, (recordOf a).Plain) : m.Agrees recordOf where
  own := by
    rw [MemberRecord.hasOwnEntry, hkind, hx]
    rfl
  property y hy := by
    obtain rfl := Option.some.inj (hx.symm.trans hy)
    exact ⟨⟨data, hkind⟩, hagrees⟩
  event y hy := nomatch hevent.symm.trans hy
  accessors := haccessors

theorem Agrees.of_event {data : EventData} {x : EventSemantics} (hkind : m.kind = .event data)
    (hx : (recordOf m.id).event = some x) (hproperty : (recordOf m.id).property = none)
    (hagrees : m.EventAgrees recordOf x) (haccessors : ∀ a ∈ m.accessors, (recordOf a).Plain) :
    m.Agrees recordOf where
  own := by
    rw [MemberRecord.hasOwnEntry, hkind, hx]
    rfl
  property y hy := nomatch hproperty.symm.trans hy
  event y hy := by
    obtain rfl := Option.some.inj (hx.symm.trans hy)
    exact ⟨⟨data, hkind⟩, hagrees⟩
  accessors := haccessors

/-- Where the entries of `m` agree, there are all that there should be. -/
theorem Agrees.hasEntries (h : m.Agrees recordOf) : m.HasEntries recordOf where
  own := h.own
  accessors a ha := by
    have hown := h.own
    unfold MemberRecord.hasOwnEntry at hown
    cases hkind : m.kind with
    | method data =>
      have hmethod : m.isMethod := by rw [isMethod, hkind]
      rw [accessors_eq_nil (.inl hmethod)] at ha
      cases ha
    | field =>
      rw [accessors_eq_nil (.inr hkind)] at ha
      cases ha
    | property data =>
      rw [hkind] at hown
      obtain ⟨x, hx⟩ := Option.isSome_iff_exists.1 hown
      rw [(h.property x hx).2.isSome_method_iff hkind ha, hx]
      refine not_congr ⟨fun hleaves => ⟨x, rfl, hleaves⟩, ?_⟩
      rintro ⟨y, hy, hleaves⟩
      rwa [Option.some.inj hy]
    | event data =>
      rw [hkind] at hown
      obtain ⟨x, hx⟩ := Option.isSome_iff_exists.1 hown
      refine iff_of_true ((h.event x hx).2.isSome_method hkind ha) ?_
      rintro ⟨y, hy, -⟩
      obtain ⟨⟨data', hkind'⟩, -⟩ := h.property y hy
      cases hkind.symm.trans hkind'

end MemberSymbol

section

variable {g : TypeGraph} {options : Options} {ensure : TypeId → Resolve Unit}
  (hensure : EnsuresMembers g options ensure) {t : TypeId} {ty : TypeSymbol}
  {resolved : ResolvedType} {m : MemberSymbol} {preferred : PreferredName}
  {names names' : NameRegistry} {s₀ s s₁ s' : ResolutionState}

/-! ## Members without a place in script -/

/-- A member that is left out agrees with its accessors, which are left out as well. -/
theorem markNotUsable_agrees (wf : g.WellFormed) (hm : g.Lists t m)
    (hempty : ∀ k, m.Covers k → s.recordOf k = .empty) {u : Unit}
    (h : markNotUsable m s = .ok (u, s')) : m.Agrees s'.recordOf := by
  have hleft : m.IsLeftOut s'.recordOf := markNotUsable_isLeftOut h
  obtain ⟨s₁, hfirst, hrest⟩ := markNotUsable_eq_ok h
  obtain ⟨methods, rfl, -⟩ := forM_recordMethod_eq_ok hrest
  have hown := hleft.own
  have hbefore {k : MemberId} (hk : m.Covers k) : (s.recordOf k).Plain := by
    rw [hempty k hk]
    exact MemberRecord.plain_empty
  have hself : (s.recordOf m.id).Plain := hbefore (.inl rfl)
  have haccessor {a : MemberId} (ha : a ∈ m.accessors) : m.id ≠ a := fun heq =>
    hm.not_mem_accessors wf (heq ▸ ha)
  cases hfirst with
  | method hkind =>
    refine .of_accessors_eq_nil ?_ ⟨hself.property, hself.event⟩ (.inl hkind)
    rw [MemberRecord.hasOwnEntry_of_isMethod hkind]
    unfold MemberSymbol.isMethod at hkind
    split at hkind
    · rename_i data hdata
      rw [hdata] at hown
      rw [hown, Option.isSome_some]
    · contradiction
  | field hkind =>
    rw [hkind] at hown
    refine .of_accessors_eq_nil ?_ ⟨hself.property, hself.event⟩ (.inr hkind)
    rw [MemberRecord.hasOwnEntry, hkind]
    exact Option.isSome_of_eq_some hown
  | property hkind =>
    rw [hkind] at hown
    refine .of_property hkind hown hself.event hleft.accessors fun a ha => ⟨?_, ?_⟩
    · exact (Table.find?_insert_of_ne _ _ (haccessor ha)).trans (hbefore (.inr ha)).property
    · exact (hbefore (.inr ha)).event
  | event hkind =>
    rw [hkind] at hown
    refine .of_event hkind hown hself.property hleft.accessors fun a ha => ⟨?_, ?_⟩
    · exact (hbefore (.inr ha)).property
    · exact (Table.find?_insert_of_ne _ _ (haccessor ha)).trans (hbefore (.inr ha)).event

/-! ## Methods and accessors -/

include hensure

/-- A method `m` gets its entry `x`, and nothing is recorded about other members. -/
theorem resolveMethod_entry {x : MethodSemantics} (hs : Within g options t s₀ s)
    (hm : g.Owns t m)
    (h : resolveMethod g (methodSemanticsBy g ensure) ty resolved m preferred names s =
      .ok ((x, names'), s')) :
    Framed g options t (· = m.id) s s' ∧ ∃ origin,
      s'.recordOf m.id = { s.recordOf m.id with method := some x, origin := origin } := by
  obtain ⟨s₁, hs₁, hcases⟩ := resolveMethod_cases hensure hs hm h
  have hsame : s₁.recordOf m.id = s.recordOf m.id := hs₁.frame hm.declared not_false
  have hdeclared (k : MemberId) (hk : k = m.id) : g.Declared t k := hk ▸ hm.declared
  have hframed : Framed g options t (· = m.id) s s₁ := hs₁.mono fun _ h => h.elim
  obtain ⟨-, rfl⟩ | ⟨name, counts, origin, -, -, -, rfl⟩ := hcases
  · refine ⟨hframed.changesAt hdeclared (.method (K := (· = m.id)) _ rfl x), (s.recordOf m.id).origin, ?_⟩
    rw [recordOf_insert_methods, if_pos rfl, hsame]
  · refine ⟨((hframed.changesAt hdeclared (.interfaceNames _ _ counts)).changesAt hdeclared
      (.origin (K := (· = m.id)) _ rfl origin)).changesAt hdeclared
        (.method (K := (· = m.id)) _ rfl x), some origin, ?_⟩
    rw [← hsame]
    simp only [recordOf, Table.find?_insert_self]

theorem resolveAccessor?_embeds (wf : g.WellFormed) {slot : AccessorSlot}
    {x : Option MethodSemantics} (hs : Within g options t s₀ s) (hm : g.Owns t m)
    (hempty : ∀ a, m.accessor? slot = some a → s.recordOf a = .empty)
    (h : (g.memberContext options ensure ty resolved).resolveAccessor? m slot preferred names s =
      .ok ((x, names'), s')) :
    Framed g options t (fun k => m.accessor? slot = some k) s s' ∧
      m.Embeds s'.recordOf False slot x ∧
      ∀ a, m.accessor? slot = some a → (s'.recordOf a).Plain := by
  obtain ⟨ha, rfl, rfl, rfl⟩ | ⟨a, y, ha, rfl, haccessor⟩ := MemberContext.resolveAccessor?_eq_ok h
  · exact ⟨.start hs _, .none ha, fun a ha' => nomatch ha.symm.trans ha'⟩
  obtain ⟨x', ds, name, hx', -, hmethod⟩ := MemberContext.resolveAccessor_eq_ok haccessor
  have hown := (hm.accessor wf ha).2 x' hx'
  obtain rfl := wf.member_id hx'
  have hdeclared (k : MemberId) (hk : m.accessor? slot = some k) : g.Declared t k :=
    (hm.accessor wf hk).1
  have hreport := (Framed.start hs _).changesAt hdeclared (.report _ _ ds)
  obtain ⟨hframed, origin, hrecord⟩ := resolveMethod_entry hensure hreport.toWithin hown hmethod
  refine ⟨hreport.trans (hframed.mono fun k hk => hk ▸ ha), .some ha (by rw [hrecord]), ?_⟩
  intro b hb
  obtain rfl := Option.some.inj (ha.symm.trans hb)
  have hplain : (s.recordOf x'.id).Plain := by
    rw [hempty _ ha]
    exact MemberRecord.plain_empty
  rw [hrecord]
  exact ⟨hplain.property, hplain.event⟩

/-- The accessors of a property or an event `m` are in the two places `slot` and `slot'`. -/
theorem resolveAccessors_embed (wf : g.WellFormed) {slot slot' : AccessorSlot}
    {x x' : Option MethodSemantics} {names₁ : NameRegistry} (hs : Within g options t s₀ s)
    (hm : g.Owns t m) (hne : slot ≠ slot')
    (hslots : ∀ a ∈ m.accessors, m.accessor? slot = some a ∨ m.accessor? slot' = some a)
    (hempty : ∀ a ∈ m.accessors, s.recordOf a = .empty)
    (h : (g.memberContext options ensure ty resolved).resolveAccessor? m slot preferred names s =
      .ok ((x, names₁), s₁))
    (h' : (g.memberContext options ensure ty resolved).resolveAccessor? m slot' preferred names₁ s₁
      = .ok ((x', names'), s')) :
    Framed g options t (· ∈ m.accessors) s s' ∧ m.Embeds s'.recordOf False slot x ∧
      m.Embeds s'.recordOf False slot' x' ∧ ∀ a ∈ m.accessors, (s'.recordOf a).Plain := by
  have hmem {place : AccessorSlot} {a : MemberId} (ha : m.accessor? place = some a) :
      a ∈ m.accessors := MemberSymbol.mem_accessors.2 ⟨place, ha⟩
  have hdisjoint {a : MemberId} (ha : m.accessor? slot = some a) (ha' : m.accessor? slot' = some a) :
      False := hne (wf.slot_unique hm.1 ha ha')
  obtain ⟨hframed, hembeds, hplain⟩ :=
    resolveAccessor?_embeds hensure wf hs hm (fun a ha => hempty a (hmem ha)) h
  have hempty₁ (a : MemberId) (ha : m.accessor? slot' = some a) : s₁.recordOf a = .empty :=
    (hframed.frame (hm.accessor wf ha).1 fun h => hdisjoint h ha).trans (hempty a (hmem ha))
  obtain ⟨hframed', hembeds', hplain'⟩ :=
    resolveAccessor?_embeds hensure wf hframed.toWithin hm hempty₁ h'
  -- The second step leaves the accessor of the first one alone, since no accessor has two places.
  have hkept (a : MemberId) (ha : m.accessor? slot = some a) : s'.recordOf a = s₁.recordOf a :=
    hframed'.frame (hm.accessor wf ha).1 (hdisjoint ha)
  refine ⟨(hframed.mono fun _ => hmem).trans (hframed'.mono fun _ => hmem), hembeds.congr hkept,
    hembeds', fun a ha => ?_⟩
  rcases hslots a ha with hslot | hslot
  · rw [hkept a hslot]
    exact hplain a hslot
  · exact hplain' a hslot

/-! ## Members of all kinds -/

theorem classifyProperty_agrees (wf : g.WellFormed) {data : PropertyData} {x : PropertySemantics}
    (hkind : m.kind = .property data) (hs : Within g options t s₀ s) (hm : g.Owns t m)
    (hempty : ∀ a ∈ m.accessors, s.recordOf a = .empty)
    (h : (g.memberContext options ensure ty resolved).classifyProperty m preferred names s =
      .ok ((x, names'), s')) :
    Framed g options t (· ∈ m.accessors) s s' ∧ m.PropertyAgrees s'.recordOf x ∧
      ∀ a ∈ m.accessors, (s'.recordOf a).Plain := by
  have hdeclared (a : MemberId) (ha : a ∈ m.accessors) : g.Declared t a :=
    hm.declared_of_covers wf (.inr ha)
  have hreport (ds : List Diagnostic) : Framed g options t (· ∈ m.accessors) s
      { s with diagnostics := s.diagnostics.addAll ds } :=
    (Framed.start hs _).changesAt hdeclared (.report _ _ ds)
  cases MemberContext.classifyProperty_eq_ok h with
  | direct hx hmatches hnames ds hstate =>
    subst hstate
    refine ⟨hreport ds, .of_leavesOut hx hmatches fun a ha => ?_, fun a ha => ?_⟩
    · exact congrArg MemberRecord.method (hempty a ha)
    · exact (hempty a ha).symm ▸ MemberRecord.plain_empty
  | accessed hx ds haccessed =>
    obtain ⟨getter, setter, names₁, s₁, rfl, hgetter, hsetter⟩ :=
      MemberContext.accessedProperty_eq_ok haccessed
    obtain ⟨hframed, hembeds, hembeds', hplain⟩ := resolveAccessors_embed hensure wf
      (hreport ds).toWithin hm (by decide) (fun _ => MemberSymbol.accessor?_of_property hkind)
      hempty hgetter hsetter
    have hnot : False ↔ m.HasValidAlias := (iff_false_intro hx).symm
    exact ⟨(hreport ds).trans hframed, ⟨hembeds.congr_lacks hnot, hembeds'.congr_lacks hnot⟩, hplain⟩

theorem resolveDataMember_agrees (wf : g.WellFormed) (hs : Within g options t s₀ s)
    (hm : g.Lists t m) (hkind : ¬m.isMethod) (hempty : ∀ k, m.Covers k → s.recordOf k = .empty)
    (h : (g.memberContext options ensure ty resolved).resolveDataMember m preferred names s =
      .ok (names', s')) : m.Agrees s'.recordOf := by
  have hself : (s.recordOf m.id).Plain := (hempty m.id (.inl rfl)).symm ▸ MemberRecord.plain_empty
  have hid : m.id ∉ m.accessors := hm.not_mem_accessors wf
  have haccessor {a : MemberId} (ha : a ∈ m.accessors) : m.id ≠ a := fun heq => hid (heq ▸ ha)
  have hempty' (a : MemberId) (ha : a ∈ m.accessors) : s.recordOf a = .empty := hempty a (.inr ha)
  obtain ⟨-, hmark⟩ | ⟨hmethod, -⟩ | ⟨data, x, s₁, hdata, hclassify, rfl⟩ |
    ⟨name, s₁, hdata, hname, rfl⟩ |
    ⟨data, adder, remover, names₁, s₁, s₂, hdata, hadder, hremover, rfl⟩ :=
    MemberContext.resolveDataMember_eq_ok h
  · exact markNotUsable_agrees wf hm hempty hmark
  · exact absurd hmethod hkind
  · -- The own record comes last, and it is not that of an accessor.
    obtain ⟨hframed, hagrees, hplain⟩ :=
      classifyProperty_agrees hensure wf hdata hs hm.1 hempty' hclassify
    have hkept (a : MemberId) (ha : a ∈ m.accessors) :
        recordOf { s₁ with properties := s₁.properties.insert m.id x } a = s₁.recordOf a := by
      rw [recordOf_insert_properties, if_neg (haccessor ha)]
    have hevent : s₁.events.find? m.id = none :=
      (congrArg MemberRecord.event (hframed.frame hm.1.declared hid)).trans hself.event
    refine .of_property hdata (Table.find?_insert_self _ _ _) hevent (hagrees.congr hkept)
      fun a ha => ?_
    rw [hkept a ha]
    exact hplain a ha
  · obtain ⟨-, counts, origin, rfl, -⟩ := nameMember_eq_ok hname
    refine .of_accessors_eq_nil ?_ ⟨hself.property, hself.event⟩ (.inr hdata)
    rw [MemberRecord.hasOwnEntry, hdata, recordOf, Table.find?_insert_self]
    rfl
  · obtain ⟨hframed, hembeds, hembeds', hplain⟩ := resolveAccessors_embed hensure wf hs hm.1
      (by decide) (fun _ => MemberSymbol.accessor?_of_event hdata) hempty' hadder hremover
    have hkept (a : MemberId) (ha : a ∈ m.accessors) :
        recordOf { s₂ with events := s₂.events.insert m.id (.addAndRemove adder remover) } a =
          s₂.recordOf a := by
      rw [recordOf_insert_events, if_neg (haccessor ha)]
    have hproperty : s₂.properties.find? m.id = none :=
      (congrArg MemberRecord.property (hframed.frame hm.1.declared hid)).trans hself.property
    have hagrees : m.EventAgrees s₂.recordOf (.addAndRemove adder remover) := ⟨hembeds, hembeds'⟩
    refine .of_event hdata (Table.find?_insert_self _ _ _) hproperty (hagrees.congr hkept)
      fun a ha => ?_
    rw [hkept a ha]
    exact hplain a ha

/-- What every step for a member leaves behind: entries that agree. -/
theorem leavesBehind_agrees (wf : g.WellFormed) :
    LeavesBehind (g.memberContext options ensure ty resolved) t fun m s => m.Agrees s.recordOf where
  member _ m hm preferred names names' s₀ s s' hs hempty h := by
    obtain ⟨hmethod, x, hresolve⟩ | ⟨hdata, hrun⟩ := MemberContext.resolveMember_eq_ok h
    · obtain ⟨-, origin, hrecord⟩ := resolveMethod_entry hensure hs hm.1 hresolve
      rw [hempty m.id (.inl rfl)] at hrecord
      refine .of_accessors_eq_nil ?_ (by rw [hrecord]; exact ⟨rfl, rfl⟩) (.inl hmethod)
      rw [MemberRecord.hasOwnEntry_of_isMethod hmethod, hrecord]
      rfl
    · exact resolveDataMember_agrees hensure wf hs hm hdata hempty hrun
  alternate _ m main hmethod s s' hempty h := by
    obtain ⟨x, rfl⟩ := resolveAlternate_eq_ok h
    have hrecord : recordOf { s with methods := s.methods.insert m.id x } m.id =
        { MemberRecord.empty with method := some x } := by
      rw [recordOf_insert_methods, if_pos rfl, hempty m.id (.inl rfl)]
    refine .of_accessors_eq_nil ?_ (by rw [hrecord]; exact ⟨rfl, rfl⟩) (.inl hmethod)
    rw [MemberRecord.hasOwnEntry_of_isMethod hmethod, hrecord]
    rfl
  leftOut _ m s s' hm hempty h := markNotUsable_agrees wf hm hempty h

end

/-! ## Types that are done -/

/-- Whenever a type is done, its members have entries that agree with those of their accessors. -/
theorem agrees_of_done {g : TypeGraph} {options : Options} {t : TypeId} {ty : TypeSymbol}
    {s : ResolutionState} (wf : g.WellFormed) (hs : s.Reached g options) (ht : s.Done t)
    (hty : g.type? t = some ty) : ∀ m ∈ g.membersOf ty, m.Agrees s.recordOf :=
  settled_of_done wf hs ht hty (fun _ _ _ h heq => h.congr heq)
    fun _ _ _ hensure => leavesBehind_agrees hensure wf

/-- Whenever a type is done, its members have their entries. -/
theorem hasEntries_of_done {g : TypeGraph} {options : Options} {t : TypeId} {ty : TypeSymbol}
    {s : ResolutionState} (wf : g.WellFormed) (hs : s.Reached g options) (ht : s.Done t)
    (hty : g.type? t = some ty) : ∀ m ∈ g.membersOf ty, m.HasEntries s.recordOf :=
  fun m hm => (agrees_of_done wf hs ht hty m hm).hasEntries

end ScriptNaming
