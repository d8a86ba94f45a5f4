import ScriptNaming.Proofs.History
import ScriptNaming.Proofs.MemberOutcomes

/-!
# Members that are left out of script

Leaving a member out of script makes entries for it and for its accessors
(`markNotUsable_isLeftOut`) and changes nothing else (`forM_markNotUsable_onlyLeavesOut`).
-/

namespace ScriptNaming

open ResolutionState

variable {m : MemberSymbol} {ms : List MemberSymbol} {s s' : ResolutionState}

/-! ## The entries -/

/-- Recording the same semantics `x` about the methods `as` leaves the rest of the state alone. -/
theorem forM_recordMethod_eq_ok {as : List MemberId} {x : MethodSemantics} {u : Unit}
    (h : as.forM (recordMethod · x) s = .ok (u, s')) :
    ∃ methods, s' = { s with methods := methods } ∧
      ∀ k, methods.find? k = if k ∈ as then some x else s.methods.find? k := by
  induction as generalizing s with
  | nil =>
    obtain ⟨-, rfl⟩ := run_pure_eq_ok.1 h
    exact ⟨s'.methods, rfl, fun k => rfl⟩
  | cons a as ih =>
    change (recordMethod a x >>= fun _ => as.forM (recordMethod · x)) s = _ at h
    rw [run_bind_eq_ok] at h
    obtain ⟨_, s₁, hrecord, h⟩ := h
    obtain rfl := recordMethod_eq_ok hrecord
    obtain ⟨methods, rfl, hmethods⟩ := ih h
    refine ⟨methods, rfl, fun k => ?_⟩
    rw [hmethods, Table.find?_insert]
    by_cases hka : a = k <;> simp [hka, eq_comm]

/-- The member and its accessors have no place in script. -/
structure MemberSymbol.IsLeftOut (m : MemberSymbol) (recordOf : MemberId → MemberRecord) :
    Prop where
  own : match m.kind with
    | .method _ => (recordOf m.id).method = some .notUsable
    | .property _ => (recordOf m.id).property = some .notUsable
    | .field => (recordOf m.id).field = some .notUsable
    | .event _ => (recordOf m.id).event = some .notUsable
  accessors : ∀ a ∈ m.accessors, (recordOf a).method = some .notUsable

theorem MemberSymbol.IsLeftOut.congr {recordOf recordOf' : MemberId → MemberRecord}
    (h : m.IsLeftOut recordOf) (heq : ∀ k, m.Covers k → recordOf' k = recordOf k) :
    m.IsLeftOut recordOf' where
  own := by
    rw [heq m.id (.inl rfl)]
    exact h.own
  accessors a ha := by
    rw [heq a (.inr ha)]
    exact h.accessors a ha

theorem markNotUsable_isLeftOut {u : Unit} (h : markNotUsable m s = .ok (u, s')) :
    m.IsLeftOut s'.recordOf := by
  obtain ⟨s₁, hfirst, hrest⟩ := markNotUsable_eq_ok h
  obtain ⟨methods, rfl, hmethods⟩ := forM_recordMethod_eq_ok hrest
  refine ⟨?_, fun a ha => (hmethods a).trans (if_pos ha)⟩
  cases hfirst with
  | method hkind =>
    have hnil : m.accessors = [] := MemberSymbol.accessors_eq_nil (.inl hkind)
    have hentry : methods.find? m.id = some .notUsable := by
      rw [hmethods, hnil, if_neg List.not_mem_nil, Table.find?_insert_self]
    unfold MemberSymbol.isMethod at hkind
    split at hkind
    · rename_i data hdata
      rw [hdata]
      exact hentry
    · contradiction
  | field hkind | property hkind | event hkind =>
    rw [hkind]
    exact Table.find?_insert_self _ _ _

/-! ## The rest of the state -/

/-- The second table is the first one, but for entries `x` of keys that satisfy `P`. -/
def Table.SameBut {κ α : Type} [DecidableEq κ] (P : κ → Prop) (x : α) (table table' : Table κ α) :
    Prop :=
  ∀ k, table'.find? k = table.find? k ∨ table'.find? k = some x ∧ P k

namespace Table.SameBut

variable {κ α : Type} [DecidableEq κ] {P : κ → Prop} {x : α} {table table' table'' : Table κ α}

theorem refl (P : κ → Prop) (x : α) (table : Table κ α) : SameBut P x table table :=
  fun _ => .inl rfl

theorem trans (h : SameBut P x table table') (h' : SameBut P x table' table'') :
    SameBut P x table table'' := by
  intro k
  rcases h' k with heq | hset
  · rw [heq]
    exact h k
  · exact .inr hset

theorem insert (table : Table κ α) {k : κ} (hk : P k) (x : α) :
    SameBut P x table (table.insert k x) := by
  intro j
  rw [find?_insert]
  split
  · rename_i hkj
    exact .inr ⟨rfl, hkj ▸ hk⟩
  · exact .inl rfl

end Table.SameBut

/-- Nothing has changed from `s` to `s'` but for entries which say that some of the members `ms` and
of their accessors have no place in script. -/
structure ResolutionState.OnlyLeavesOut (ms : List MemberSymbol) (s s' : ResolutionState) :
    Prop where
  rest : s' = { s with
    methods := s'.methods
    properties := s'.properties
    fields := s'.fields
    events := s'.events }
  methods : s.methods.SameBut (fun k => ∃ m ∈ ms, k = m.id ∧ m.isMethod ∨ k ∈ m.accessors)
    .notUsable s'.methods
  properties : s.properties.SameBut (fun k => ∃ m ∈ ms, k = m.id ∧ ∃ data, m.kind = .property data)
    .notUsable s'.properties
  fields : s.fields.SameBut (fun k => ∃ m ∈ ms, k = m.id ∧ m.kind = .field) .notUsable s'.fields
  events : s.events.SameBut (fun k => ∃ m ∈ ms, k = m.id ∧ ∃ data, m.kind = .event data)
    .notUsable s'.events

namespace ResolutionState.OnlyLeavesOut

variable {ms : List MemberSymbol} {s s' s'' : ResolutionState}

theorem refl (ms : List MemberSymbol) (s : ResolutionState) : s.OnlyLeavesOut ms s :=
  ⟨rfl, .refl _ _ _, .refl _ _ _, .refl _ _ _, .refl _ _ _⟩

/-- Members that are left out have no names. -/
theorem origins (h : s.OnlyLeavesOut ms s') : s'.origins = s.origins := by
  rw [h.rest]

theorem trans (h : s.OnlyLeavesOut ms s') (h' : s'.OnlyLeavesOut ms s'') :
    s.OnlyLeavesOut ms s'' where
  rest := by
    rw [h'.rest, h.rest]
  methods := h.methods.trans h'.methods
  properties := h.properties.trans h'.properties
  fields := h.fields.trans h'.fields
  events := h.events.trans h'.events

end ResolutionState.OnlyLeavesOut

/-- The first record of a member that is left out is its own. -/
theorem LeftOut.onlyLeavesOut (h : LeftOut m s s') (hm : m ∈ ms) : s.OnlyLeavesOut ms s' := by
  cases h with
  | method hkind =>
    exact { OnlyLeavesOut.refl ms s with
      rest := rfl
      methods := .insert _ ⟨m, hm, .inl ⟨rfl, hkind⟩⟩ _ }
  | property hkind =>
    exact { OnlyLeavesOut.refl ms s with
      rest := rfl
      properties := .insert _ ⟨m, hm, rfl, _, hkind⟩ _ }
  | field hkind =>
    exact { OnlyLeavesOut.refl ms s with
      rest := rfl
      fields := .insert _ ⟨m, hm, rfl, hkind⟩ _ }
  | event hkind =>
    exact { OnlyLeavesOut.refl ms s with
      rest := rfl
      events := .insert _ ⟨m, hm, rfl, _, hkind⟩ _ }

theorem markNotUsable_onlyLeavesOut (hm : m ∈ ms) (h : markNotUsable m s = .ok ((), s')) :
    s.OnlyLeavesOut ms s' := by
  obtain ⟨s₁, hfirst, hrest⟩ := markNotUsable_eq_ok h
  obtain ⟨methods, rfl, hmethods⟩ := forM_recordMethod_eq_ok hrest
  refine (hfirst.onlyLeavesOut hm).trans { OnlyLeavesOut.refl ms s₁ with
    rest := rfl
    methods := fun k => ?_ }
  by_cases hk : k ∈ m.accessors
  · exact .inr ⟨(hmethods k).trans (if_pos hk), m, hm, .inr hk⟩
  · exact .inl ((hmethods k).trans (if_neg hk))

theorem forM_markNotUsable_onlyLeavesOut {l : List MemberSymbol} (hl : ∀ m ∈ l, m ∈ ms)
    (h : l.forM markNotUsable s = .ok ((), s')) : s.OnlyLeavesOut ms s' := by
  induction l generalizing s with
  | nil =>
    obtain ⟨-, rfl⟩ := run_pure_eq_ok.1 h
    exact .refl _ _
  | cons m l ih =>
    change (markNotUsable m >>= fun _ => l.forM markNotUsable) s = _ at h
    rw [run_bind_eq_ok] at h
    obtain ⟨_, s₁, hmark, h⟩ := h
    exact (markNotUsable_onlyLeavesOut (hl m (.head _)) hmark).trans
      (ih (fun m hm => hl m (.tail _ hm)) h)

end ScriptNaming
