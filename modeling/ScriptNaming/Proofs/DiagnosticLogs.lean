import ScriptNaming.Diagnostic.Bag
import Mathlib.Data.List.Basic
import Mathlib.Data.List.Induction

/-!
# Bags of diagnostics as logs

A bag comes of the log of the reports that were made since it was last emptied
(`DiagnosticBag.after_eq`). Its keys stand in the order of their first reports, and under each of
them is the latest report with that key. Where codes have no colon, a key tells both the entity and
the code, whatever the entity is called (`diagnosticKey_injective`), so that a bag shows one
diagnostic for each entity and code (`DiagnosticBag.after_shows`).
-/

namespace ScriptNaming

/-! ## Lists -/

/-- What stands before the first delimiter is determined. -/
theorem eq_of_delimiter {α : Type} {a : α} {p q r s : List α} (hp : a ∉ p) (hq : a ∉ q)
    (h : p ++ a :: r = q ++ a :: s) : p = q ∧ r = s := by
  rcases List.append_eq_append_iff.1 h with ⟨l, rfl, hl⟩ | ⟨l, rfl, hl⟩
  · cases l with
    | nil => exact ⟨(List.append_nil p).symm, (List.cons.inj hl).2⟩
    | cons b l => simp_all
  · cases l with
    | nil => exact ⟨List.append_nil q, (List.cons.inj hl).2.symm⟩
    | cons b l => simp_all

section

variable {α β : Type} [BEq α] [LawfulBEq α] [BEq β] [LawfulBEq β]

theorem eraseDups_append_singleton (l : List α) (a : α) :
    (l ++ [a]).eraseDups = if a ∈ l then l.eraseDups else l.eraseDups ++ [a] := by
  rw [List.eraseDups_append]
  split <;> simp [List.removeAll, List.eraseDups_cons, *]

/-- First occurrences go with the names of things where different things have different names. -/
theorem eraseDups_map {f : α → β} {l : List α} (hf : ∀ a ∈ l, ∀ b ∈ l, f a = f b → a = b) :
    (l.map f).eraseDups = l.eraseDups.map f := by
  induction l using List.reverseRecOn with
  | nil => rfl
  | append_singleton l a ih =>
    have hl : ∀ b ∈ l, ∀ c ∈ l, f b = f c → b = c := fun b hb c hc =>
      hf b (List.mem_append_left _ hb) c (List.mem_append_left _ hc)
    have hmem : f a ∈ l.map f ↔ a ∈ l := by
      refine ⟨fun h => ?_, List.mem_map_of_mem⟩
      obtain ⟨b, hb, hba⟩ := List.mem_map.1 h
      rwa [← hf b (List.mem_append_left _ hb) a (by simp) hba]
    rw [List.map_append, List.map_singleton, eraseDups_append_singleton, eraseDups_append_singleton,
      ih hl]
    simp only [hmem]
    split
    · rfl
    · rw [List.map_append, List.map_singleton]

end

/-! ## Tables -/

/-- The values of a table are looked up under its keys. -/
theorem Table.values_eq_filterMap {κ α : Type} [DecidableEq κ] (t : Table κ α) :
    t.values = t.keys.filterMap t.find? := by
  obtain ⟨entries, hnodup⟩ := t
  change entries.map Prod.snd = (entries.map Prod.fst).filterMap (entryValue? · entries)
  induction entries with
  | nil => rfl
  | cons e entries ih =>
    obtain ⟨k, v⟩ := e
    obtain ⟨hk, hentries⟩ := List.nodup_cons.1 hnodup
    have hrest : (entries.map Prod.fst).filterMap (entryValue? · ((k, v) :: entries)) =
        (entries.map Prod.fst).filterMap (entryValue? · entries) :=
      List.filterMap_congr fun k' hk' => by
        have hne : k ≠ k' := fun h => hk (h ▸ hk')
        rw [entryValue?, if_neg hne]
    rw [List.map_cons, List.map_cons, List.filterMap_cons, entryValue?, if_pos rfl, hrest,
      ih hentries]

/-! ## Keys -/

/-- What `d` is about, and its code. -/
def Diagnostic.subject (d : Diagnostic) : String × String := (d.entity, d.category)

/-- Where a code has no colon, the last colon of a key is the one before the code. -/
theorem diagnosticKey_injective {entity category entity' category' : String}
    (hcode : ':' ∉ category.toList) (hcode' : ':' ∉ category'.toList)
    (h : diagnosticKey entity category = diagnosticKey entity' category') :
    entity = entity' ∧ category = category' := by
  have hlist : category.toList.reverse ++ ':' :: entity.toList.reverse =
      category'.toList.reverse ++ ':' :: entity'.toList.reverse := by
    simpa [diagnosticKey] using congrArg (fun key => key.toList.reverse) h
  obtain ⟨hcategory, hentity⟩ :=
    eq_of_delimiter (mt List.mem_reverse.1 hcode) (mt List.mem_reverse.1 hcode') hlist
  exact ⟨String.toList_inj.1 (List.reverse_inj.1 hentity),
    String.toList_inj.1 (List.reverse_inj.1 hcategory)⟩

/-- The keys of an entity tell its codes apart, whatever these are. -/
theorem diagnosticKey_inj {entity category category' : String} :
    diagnosticKey entity category = diagnosticKey entity category' ↔ category = category' := by
  simp [diagnosticKey, ← String.toList_inj]

namespace DiagnosticBag

/-! ## Key by key -/

section

variable {bag : DiagnosticBag} {d : Diagnostic} {ds : List Diagnostic} {entity category : String}

theorem addAll_append_singleton (bag : DiagnosticBag) (ds : List Diagnostic) (d : Diagnostic) :
    (bag.addAll (ds ++ [d])).table = (bag.addAll ds).table.insert d.key d :=
  congrArg table (addAll_append bag ds [d])

/-- Under each key is the latest report with it. -/
theorem find?_table_addAll (bag : DiagnosticBag) (ds : List Diagnostic) (key : String) :
    (bag.addAll ds).table.find? key =
      (ds.filter (·.key == key)).getLast?.or (bag.table.find? key) := by
  induction ds using List.reverseRecOn with
  | nil => rfl
  | append_singleton ds d ih =>
    rw [addAll_append_singleton, Table.find?_insert, ih, List.filter_append]
    by_cases hkey : d.key = key
    · simp [hkey]
    · simp [hkey]

theorem find?_add_self (h : d.key = diagnosticKey entity category) :
    (bag.add d).find? entity category = some d := by
  rw [find?, ← h]
  exact Table.find?_insert_self _ _ _

theorem find?_add_of_ne (h : d.key ≠ diagnosticKey entity category) :
    (bag.add d).find? entity category = bag.find? entity category :=
  Table.find?_insert_of_ne _ _ h

theorem find?_addAll_of_ne (h : ∀ d ∈ ds, d.key ≠ diagnosticKey entity category) :
    (bag.addAll ds).find? entity category = bag.find? entity category := by
  have hnone : ds.filter (·.key == diagnosticKey entity category) = [] := by
    simpa [List.filter_eq_nil_iff] using h
  rw [find?, find?_table_addAll, hnone]
  rfl

theorem contains_addAll : (bag.addAll ds).contains entity category ↔
    (∃ d ∈ ds, d.key = diagnosticKey entity category) ∨ bag.contains entity category := by
  simp [contains, Table.contains, find?_table_addAll]

/-- The keys of a bag stand in the order of their first reports. -/
theorem keys_addAll (log : List Diagnostic) :
    (addAll ∅ log).table.keys = (log.map Diagnostic.key).eraseDups := by
  induction log using List.reverseRecOn with
  | nil => rfl
  | append_singleton log d ih =>
    rw [List.map_append, List.map_singleton, eraseDups_append_singleton, addAll_append_singleton,
      Table.keys_insert, ih]
    simp only [List.mem_eraseDups]

theorem isEmpty_add (bag : DiagnosticBag) (d : Diagnostic) : (bag.add d).isEmpty = false := by
  obtain ⟨⟨entries, -⟩⟩ := bag
  change (insertEntry d.key d entries).isEmpty = false
  cases entries with
  | nil => rfl
  | cons e entries =>
    rw [insertEntry]
    split <;> rfl

theorem isEmpty_addAll_iff : (bag.addAll ds).isEmpty ↔ bag.isEmpty ∧ ds = [] := by
  induction ds generalizing bag with
  | nil => simp
  | cons d ds ih => simp [ih, isEmpty_add]

end

/-! ## Logs -/

/-- What may be done to a bag. -/
inductive Action where
  | add (d : Diagnostic)
  | report (entity category : String) (kind : DiagnosticKind) (message : String)
  | extend (ds : List Diagnostic)
  | take

/-- The bag after an action. -/
def Action.apply (bag : DiagnosticBag) : Action → DiagnosticBag
  | .add d => bag.add d
  | .report entity category kind message => bag.add ⟨entity, category, kind, message⟩
  | .extend ds => bag.addAll ds
  | .take => bag.take.2

/-- The diagnostics that an action reports. -/
def Action.reports : Action → List Diagnostic
  | .add d => [d]
  | .report entity category kind message => [⟨entity, category, kind, message⟩]
  | .extend ds => ds
  | .take => []

/-- The log of the reports since the diagnostics were last taken, after one more action than `log`
has come of. -/
def Action.log (log : List Diagnostic) : Action → List Diagnostic
  | .take => []
  | action => log ++ action.reports

/-- The bag after `actions` on a new one. -/
def after (actions : List Action) : DiagnosticBag := actions.foldl Action.apply ∅

/-- The reports that `actions` make since the diagnostics are last taken, in their order. -/
def pending (actions : List Action) : List Diagnostic := actions.foldl Action.log []

theorem Action.apply_addAll (log : List Diagnostic) (action : Action) :
    action.apply (addAll ∅ log) = addAll ∅ (action.log log) := by
  cases action with
  | take => rfl
  | add d => exact (addAll_append ∅ log [d]).symm
  | report entity category kind message =>
    exact (addAll_append ∅ log [⟨entity, category, kind, message⟩]).symm
  | extend ds => exact (addAll_append ∅ log ds).symm

/-- A bag comes of the log of what is pending. -/
theorem after_eq (actions : List Action) : after actions = addAll ∅ (pending actions) := by
  change actions.foldl Action.apply (addAll ∅ []) = addAll ∅ (actions.foldl Action.log [])
  exact List.foldl_hom (addAll ∅) Action.apply_addAll

theorem Action.mem_log {log : List Diagnostic} {action : Action} {d : Diagnostic}
    (hd : d ∈ action.log log) : d ∈ log ∨ d ∈ action.reports := by
  cases action with
  | take => cases hd
  | add _ => exact List.mem_append.1 hd
  | report _ _ _ _ => exact List.mem_append.1 hd
  | extend _ => exact List.mem_append.1 hd

theorem mem_pending {actions : List Action} {d : Diagnostic} (hd : d ∈ pending actions) :
    ∃ action ∈ actions, d ∈ action.reports := by
  induction actions using List.reverseRecOn with
  | nil => cases hd
  | append_singleton actions action ih =>
    rw [pending, List.foldl_append, List.foldl_cons, List.foldl_nil] at hd
    rcases Action.mem_log hd with hd | hd
    · obtain ⟨action', hmem, hd⟩ := ih hd
      exact ⟨action', List.mem_append_left _ hmem, hd⟩
    · exact ⟨action, by simp, hd⟩

/-! ## Entity by entity and code by code -/

/-- The latest report in `log` on `subject`, an entity and a code. -/
def latest (log : List Diagnostic) (subject : String × String) : Option Diagnostic :=
  (log.filter (·.subject == subject)).getLast?

theorem subject_of_latest {log : List Diagnostic} {subject : String × String} {d : Diagnostic}
    (h : latest log subject = some d) : d.subject = subject :=
  beq_iff_eq.1 (List.mem_filter.1 (List.mem_of_getLast? h)).2

theorem isSome_latest_iff {log : List Diagnostic} {subject : String × String} :
    (latest log subject).isSome ↔ subject ∈ log.map Diagnostic.subject := by
  simp [latest]

section

variable {log : List Diagnostic} (hcodes : ∀ d ∈ log, ':' ∉ d.category.toList)

include hcodes

theorem find?_eq_latest (entity category : String) (hcode : ':' ∉ category.toList) :
    (addAll ∅ log).find? entity category = latest log (entity, category) := by
  refine (find?_table_addAll ∅ log _).trans (Option.or_none.trans ?_)
  refine congrArg _ (List.filter_congr fun d hd => ?_)
  rw [Bool.eq_iff_iff, beq_iff_eq, beq_iff_eq]
  constructor
  · intro hkey
    obtain ⟨hentity, hcategory⟩ := diagnosticKey_injective (hcodes d hd) hcode hkey
    exact Prod.ext hentity hcategory
  · intro hsubject
    obtain ⟨hentity, hcategory⟩ := Prod.mk.inj hsubject
    rw [Diagnostic.key, hentity, hcategory]

/-- The keys of the bag that comes of `log` are those of the entities and codes that were
reported. -/
theorem keys_eq_map : (addAll ∅ log).keys =
    (log.map Diagnostic.subject).eraseDups.map fun p => diagnosticKey p.1 p.2 := by
  rw [keys, keys_addAll, ← eraseDups_map, List.map_map]
  · rfl
  · intro p hp q hq hkey
    obtain ⟨d, hd, rfl⟩ := List.mem_map.1 hp
    obtain ⟨e, he, rfl⟩ := List.mem_map.1 hq
    obtain ⟨hentity, hcategory⟩ := diagnosticKey_injective (hcodes d hd) (hcodes e he) hkey
    exact Prod.ext hentity hcategory

/-- The diagnostics of the bag that comes of `log` are the latest reports on what was reported, in
the order of the first reports on it. -/
theorem toList_eq_filterMap :
    (addAll ∅ log).toList = (log.map Diagnostic.subject).eraseDups.filterMap (latest log) := by
  rw [toList, Table.values_eq_filterMap, ← keys, keys_eq_map hcodes, List.filterMap_map]
  refine List.filterMap_congr fun p hp => ?_
  obtain ⟨d, hd, rfl⟩ := List.mem_map.1 (List.mem_eraseDups.1 hp)
  exact find?_eq_latest hcodes _ _ (hcodes d hd)

theorem map_subject_toList :
    (addAll ∅ log).toList.map Diagnostic.subject = (log.map Diagnostic.subject).eraseDups := by
  rw [toList_eq_filterMap hcodes, List.map_filterMap]
  refine (List.filterMap_congr fun p hp => ?_).trans List.filterMap_some
  obtain ⟨d, hd⟩ := Option.isSome_iff_exists.1 (isSome_latest_iff.2 (List.mem_eraseDups.1 hp))
  rw [hd, Option.map_some, subject_of_latest hd]

theorem keys_eq_map_toList :
    (addAll ∅ log).keys = (addAll ∅ log).toList.map Diagnostic.key := by
  rw [keys_eq_map hcodes, ← map_subject_toList hcodes, List.map_map]
  rfl

theorem latest_of_mem_toList {d : Diagnostic} (hd : d ∈ (addAll ∅ log).toList) :
    latest log d.subject = some d := by
  rw [toList_eq_filterMap hcodes, List.mem_filterMap] at hd
  obtain ⟨p, -, hp⟩ := hd
  rwa [subject_of_latest hp]

end

/-- What a bag shows of a log. -/
structure Shows (bag : DiagnosticBag) (log : List Diagnostic) : Prop where
  /-- There is one diagnostic for each entity and code, in the order of the first reports. -/
  subjects : bag.toList.map Diagnostic.subject = (log.map Diagnostic.subject).eraseDups
  /-- Each is the latest report about its entity with its code. -/
  latest : ∀ d ∈ bag.toList, DiagnosticBag.latest log d.subject = some d
  keys : bag.keys = bag.toList.map Diagnostic.key
  keys_nodup : bag.keys.Nodup
  /-- What is found is the latest report about the entity with the code. -/
  find? : ∀ entity category, ':' ∉ category.toList →
    bag.find? entity category = DiagnosticBag.latest log (entity, category)
  contains : ∀ entity category, ':' ∉ category.toList →
    (bag.contains entity category ↔ (entity, category) ∈ log.map Diagnostic.subject)
  ofKind : ∀ kind, (bag.ofKind kind).Sublist bag.toList ∧
    ∀ d, d ∈ bag.ofKind kind ↔ d ∈ bag.toList ∧ d.kind = kind
  forEntity : ∀ entity, (bag.forEntity entity).Sublist bag.toList ∧
    ∀ d, d ∈ bag.forEntity entity ↔ d ∈ bag.toList ∧ d.entity = entity
  /-- All are taken, and a new bag is left. -/
  take : bag.take = (bag.toList, ∅)

/-- The bag that comes of `log` shows it. -/
theorem shows_addAll {log : List Diagnostic} (hcodes : ∀ d ∈ log, ':' ∉ d.category.toList) :
    (addAll ∅ log).Shows log := by
  refine {
    subjects := map_subject_toList hcodes
    latest := fun d hd => latest_of_mem_toList hcodes hd
    keys := keys_eq_map_toList hcodes
    keys_nodup := (addAll ∅ log).table.nodup_keys
    find? := find?_eq_latest hcodes
    contains := ?_
    ofKind := fun kind => ⟨List.filter_sublist, by simp [DiagnosticBag.ofKind]⟩
    forEntity := fun entity => ⟨List.filter_sublist, by simp [DiagnosticBag.forEntity]⟩
    take := rfl }
  intro entity category hcode
  rw [← isSome_latest_iff, ← find?_eq_latest hcodes entity category hcode]
  rfl

/-- **A bag shows its log**: after any `actions` whose codes have no colon, the bag holds one
diagnostic for each entity and code that was reported since the diagnostics were last taken, in the
order of the first reports and as the latest report has it, and it is asked by entity and code, by
kind and by entity accordingly. -/
theorem after_shows (actions : List Action)
    (hcodes : ∀ action ∈ actions, ∀ d ∈ action.reports, ':' ∉ d.category.toList) :
    (after actions).Shows (pending actions) := by
  rw [after_eq]
  refine shows_addAll fun d hd => ?_
  obtain ⟨action, haction, hreported⟩ := mem_pending hd
  exact hcodes action haction d hreported

/-- Reports about entities of which one is the beginning of another, the first of them made again
after all diagnostics were taken once. -/
def noisyActions : List Action :=
  [.report "Zoo" "InvalidName" .invalidName "old", .take,
    .report "Zoo" "InvalidName" .invalidName "first",
    .extend [⟨"Zoo:Cat", "InvalidName", .invalidName, "second"⟩,
      ⟨"Zoo", "InvalidImport", .invalidName, "third"⟩],
    .add ⟨"Zoo", "InvalidName", .invalidName, "latest"⟩]

theorem noisyActions_shown :
    (∀ action ∈ noisyActions, ∀ d ∈ action.reports, ':' ∉ d.category.toList) ∧
      (after noisyActions).Shows (pending noisyActions) ∧
      (after noisyActions).toList.map Diagnostic.message = ["latest", "second", "third"] := by
  have hcodes : ∀ action ∈ noisyActions, ∀ d ∈ action.reports, ':' ∉ d.category.toList := by
    decide +kernel
  exact ⟨hcodes, after_shows noisyActions hcodes, by decide +kernel⟩

/-- A code with a colon in it may ask for what another entity is reported for. -/
example : (after noisyActions).contains "Zoo" "Cat:InvalidName" := by decide +kernel

end DiagnosticBag

end ScriptNaming
