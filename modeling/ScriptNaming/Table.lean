/-!
# Insertion-ordered tables

A `Table` maps keys to values and remembers the order in which its keys first came in: a new key
goes to the end, and a new value for an old key takes the old value's place. Every operation is
described by what it does to `Table.find?` and to `Table.keys`.
-/

namespace ScriptNaming

variable {κ α : Type}

section Entries

variable [DecidableEq κ]

/-- Replaces the value under `k` in place by `v`, or appends the pair. -/
def insertEntry (k : κ) (v : α) : List (κ × α) → List (κ × α)
  | [] => [(k, v)]
  | (k', v') :: rest => if k' = k then (k, v) :: rest else (k', v') :: insertEntry k v rest

/-- The value under `k`. -/
def entryValue? (k : κ) : List (κ × α) → Option α
  | [] => none
  | (k', v) :: rest => if k' = k then some v else entryValue? k rest

theorem keys_insertEntry (k : κ) (v : α) (es : List (κ × α)) :
    (insertEntry k v es).map Prod.fst =
      if k ∈ es.map Prod.fst then es.map Prod.fst else es.map Prod.fst ++ [k] := by
  induction es with
  | nil => simp [insertEntry]
  | cons e es ih =>
    obtain ⟨k', v'⟩ := e
    by_cases h : k' = k
    · simp [insertEntry, h]
    · have h' : k ≠ k' := fun e => h e.symm
      simp only [insertEntry, if_neg h, List.map_cons, ih, List.mem_cons, h', false_or]
      split <;> simp

theorem nodup_keys_insertEntry (k : κ) (v : α) {es : List (κ × α)}
    (h : (es.map Prod.fst).Nodup) : ((insertEntry k v es).map Prod.fst).Nodup := by
  rw [keys_insertEntry]
  split
  · exact h
  · rename_i hk
    rw [List.nodup_append]
    refine ⟨h, by simp, ?_⟩
    rintro a ha b hb rfl
    exact hk (List.mem_singleton.1 hb ▸ ha)

theorem entryValue?_insertEntry (k k' : κ) (v : α) (es : List (κ × α)) :
    entryValue? k' (insertEntry k v es) = if k = k' then some v else entryValue? k' es := by
  induction es with
  | nil => simp [insertEntry, entryValue?]
  | cons e es ih =>
    obtain ⟨k₀, v₀⟩ := e
    by_cases h : k₀ = k
    · subst h
      by_cases hk : k₀ = k' <;> simp [insertEntry, entryValue?, hk]
    · rw [insertEntry, if_neg h, entryValue?, entryValue?, ih]
      by_cases h₀ : k₀ = k'
      · have hk : k ≠ k' := fun e => h (h₀.trans e.symm)
        simp [h₀, hk]
      · simp [h₀]

theorem entryValue?_isSome_iff (k : κ) (es : List (κ × α)) :
    (entryValue? k es).isSome ↔ k ∈ es.map Prod.fst := by
  induction es with
  | nil => simp [entryValue?]
  | cons e es ih =>
    obtain ⟨k', v⟩ := e
    by_cases h : k' = k
    · simp [entryValue?, h]
    · have h' : k ≠ k' := fun e => h e.symm
      simpa [entryValue?, h, h'] using ih

end Entries

/-- A finite map that keeps its keys in the order of their first insertion. -/
structure Table (κ α : Type) where
  entries : List (κ × α)
  nodup_keys : (entries.map Prod.fst).Nodup

namespace Table

/-- The table without entries. -/
def empty : Table κ α := ⟨[], List.nodup_nil⟩

instance : EmptyCollection (Table κ α) := ⟨empty⟩

instance : Inhabited (Table κ α) := ⟨empty⟩

section Lookup

variable [DecidableEq κ]

/-- The value of `t` under `k`. -/
def find? (t : Table κ α) (k : κ) : Option α := entryValue? k t.entries

/-- Whether the key `k` is present. -/
def contains (t : Table κ α) (k : κ) : Bool := (t.find? k).isSome

/-- Puts the value `v` under the key `k`. A key already present keeps its place. -/
def insert (t : Table κ α) (k : κ) (v : α) : Table κ α :=
  ⟨insertEntry k v t.entries, nodup_keys_insertEntry k v t.nodup_keys⟩

end Lookup

/-- The keys of `t` in the order of their first insertion. -/
def keys (t : Table κ α) : List κ := t.entries.map Prod.fst

/-- The values of `t` in the order of their keys. -/
def values (t : Table κ α) : List α := t.entries.map Prod.snd

/-- The number of keys of `t`. -/
def size (t : Table κ α) : Nat := t.entries.length

/-- Whether `t` has no entries. -/
def isEmpty (t : Table κ α) : Bool := t.entries.isEmpty

@[simp] theorem keys_empty : (∅ : Table κ α).keys = [] := rfl

@[simp] theorem length_keys (t : Table κ α) : t.keys.length = t.size := by
  simp [keys, size]

variable [DecidableEq κ]

@[simp] theorem find?_empty (k : κ) : (∅ : Table κ α).find? k = none := rfl

theorem find?_insert (t : Table κ α) (k k' : κ) (v : α) :
    (t.insert k v).find? k' = if k = k' then some v else t.find? k' :=
  entryValue?_insertEntry k k' v t.entries

@[simp] theorem find?_insert_self (t : Table κ α) (k : κ) (v : α) :
    (t.insert k v).find? k = some v := by
  simp [find?_insert]

theorem find?_insert_of_ne (t : Table κ α) {k k' : κ} (v : α) (h : k ≠ k') :
    (t.insert k v).find? k' = t.find? k' := by
  simp [find?_insert, h]

/-- A new key `k` takes the value of no other key `k'` away. -/
theorem find?_insert_of_find? (t : Table κ α) {k k' : κ} (v : α) {v' : α} (hk : t.find? k = none)
    (h : t.find? k' = some v') : (t.insert k v).find? k' = some v' := by
  have hne : k ≠ k' := by
    rintro rfl
    cases hk.symm.trans h
  rw [find?_insert_of_ne t v hne, h]

theorem keys_insert (t : Table κ α) (k : κ) (v : α) :
    (t.insert k v).keys = if k ∈ t.keys then t.keys else t.keys ++ [k] :=
  keys_insertEntry k v t.entries

theorem contains_iff_mem_keys (t : Table κ α) (k : κ) : t.contains k ↔ k ∈ t.keys :=
  entryValue?_isSome_iff k t.entries

theorem contains_insert (t : Table κ α) (k k' : κ) (v : α) :
    (t.insert k v).contains k' = (decide (k = k') || t.contains k') := by
  by_cases h : k = k' <;> simp [contains, find?_insert, h]

end Table

end ScriptNaming
