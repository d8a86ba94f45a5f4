import ScriptNaming.Sorting
import Mathlib.Data.List.Forall2
import Mathlib.Data.List.Nodup
import Mathlib.Data.List.Perm.Basic
import Mathlib.Data.Nat.Init

/-!
# Sorted lists

Lists that correspond are sorted alike (`forall₂_sortBy`), and what an order tells apart is sorted
in one way only (`sortBy_eq_of_perm`); what it does not tell apart keeps its order
(`sublist_sortBy`). Repetitions stand next to each other in a sorted list, so that without them it
depends on nothing but its elements (`eraseReps_sortBy_congr`).
-/

namespace ScriptNaming

/-! ## Sorting -/

section

variable {α β : Type}

theorem forall₂_insertSorted {le : α → α → Bool} {le' : β → β → Bool} {U : α → β → Prop}
    (hU : ∀ a b c d, U a b → U c d → le' b d = le a c) {a : α} {b : β} (hab : U a b) {l : List α}
    {l' : List β} (h : List.Forall₂ U l l') :
    List.Forall₂ U (insertSorted le a l) (insertSorted le' b l') := by
  induction h with
  | nil => exact .cons hab .nil
  | cons hcd htail ih =>
    rw [insertSorted, insertSorted, hU _ _ _ _ hab hcd]
    split
    · exact .cons hab (.cons hcd htail)
    · exact .cons hcd ih

/-- Lists `l` and `l'` that correspond are sorted alike by orders that agree. -/
theorem forall₂_sortBy {le : α → α → Bool} {le' : β → β → Bool} {U : α → β → Prop}
    (hU : ∀ a b c d, U a b → U c d → le' b d = le a c) {l : List α} {l' : List β}
    (h : List.Forall₂ U l l') : List.Forall₂ U (sortBy le l) (sortBy le' l') := by
  induction h with
  | nil => exact .nil
  | cons hab _ ih => exact forall₂_insertSorted hU hab ih

/-- Sorting goes with functions that keep the order. -/
theorem sortBy_map {le : α → α → Bool} {le' : β → β → Bool} {f : α → β}
    (hf : ∀ a b, le' (f a) (f b) = le a b) (l : List α) :
    sortBy le' (l.map f) = (sortBy le l).map f := by
  rw [eq_comm, ← List.forall₂_eq_eq_eq, List.forall₂_map_left_iff]
  refine forall₂_sortBy (fun a b c d hab hcd => ?_) (List.forall₂_map_right_iff.2 ?_)
  · rw [← hab, ← hcd, hf]
  · exact List.forall₂_same.2 fun _ _ => rfl

/-- What an order tells apart is sorted in one way only. -/
theorem sortBy_eq_of_perm {le : α → α → Bool} (total : ∀ a b, le a b ∨ le b a)
    (trans : ∀ a b c, le a b → le b c → le a c) {l l' : List α} (h : l.Perm l')
    (apart : ∀ a ∈ l, ∀ b ∈ l, le a b → le b a → a = b) : sortBy le l = sortBy le l' := by
  refine List.Perm.eq_of_pairwise (fun a b ha hb => ?_) (sortBy_pairwise total trans l)
    (sortBy_pairwise total trans l') (((sortBy_perm le l).trans h).trans (sortBy_perm le l').symm)
  exact apart a (mem_sortBy.1 ha) b (h.mem_iff.2 (mem_sortBy.1 hb))

theorem sublist_insertSorted (le : α → α → Bool) (a : α) (l : List α) :
    l.Sublist (insertSorted le a l) := by
  induction l with
  | nil => exact List.nil_sublist _
  | cons b l ih =>
    rw [insertSorted]
    split
    · exact List.sublist_cons_self a (b :: l)
    · exact ih.cons_cons b

/-- An element is put before those that it may precede. -/
theorem insertSorted_precedes {le : α → α → Bool} {a b : α} {l : List α} (hb : b ∈ l)
    (hle : le a b) : [a, b].Sublist (insertSorted le a l) := by
  induction l with
  | nil => cases hb
  | cons c l ih =>
    rw [insertSorted]
    split
    · exact (List.singleton_sublist.2 hb).cons_cons a
    · rename_i hc
      refine (ih ((List.mem_cons.1 hb).resolve_left ?_)).cons c
      rintro rfl
      exact hc hle

/-- Sorting is stable: an element `a` that comes before another one `b`, and may precede it, stays
before it. -/
theorem sublist_sortBy {le : α → α → Bool} {a b : α} {l : List α} (h : [a, b].Sublist l)
    (hle : le a b) : [a, b].Sublist (sortBy le l) := by
  induction l with
  | nil => cases h
  | cons c l ih =>
    cases h with
    | cons _ hrest => exact (ih hrest).trans (sublist_insertSorted le c _)
    | cons_cons _ hrest =>
      exact insertSorted_precedes (mem_sortBy.2 (List.singleton_sublist.1 hrest)) hle

theorem isLE_total {cmp : α → α → Ordering} [Std.OrientedCmp cmp] (a b : α) :
    (cmp a b).isLE ∨ (cmp b a).isLE := by
  have hswap : cmp a b = (cmp b a).swap := Std.OrientedCmp.eq_swap
  rw [hswap]
  cases cmp b a <;> simp

end

/-! ## Pairs of elements -/

section

variable {α : Type} {a b : α} {l : List α}

/-- Of two elements `a` and `b` of a list, one comes before the other. -/
theorem sublist_or_swap (ha : a ∈ l) (hb : b ∈ l) (hne : a ≠ b) :
    [a, b].Sublist l ∨ [b, a].Sublist l := by
  induction l with
  | nil => cases ha
  | cons c l ih =>
    rcases List.mem_cons.1 ha with rfl | ha'
    · have hb' := (List.mem_cons.1 hb).resolve_left hne.symm
      exact .inl ((List.singleton_sublist.2 hb').cons_cons a)
    rcases List.mem_cons.1 hb with rfl | hb'
    · exact .inr ((List.singleton_sublist.2 ha').cons_cons b)
    · exact (ih ha' hb').imp (.cons c) (.cons c)

/-- Where no element is repeated, no two elements `a` and `b` come before each other. -/
theorem not_sublist_swap (hl : l.Nodup) (h : [a, b].Sublist l) : ¬[b, a].Sublist l := by
  intro hswap
  induction l with
  | nil => cases h
  | cons c l ih =>
    obtain ⟨hc, hl⟩ := List.nodup_cons.1 hl
    cases h with
    | cons _ h =>
      cases hswap with
      | cons _ hswap => exact ih hl h hswap
      | cons_cons _ _ => exact hc (h.subset (.tail _ (.head _)))
    | cons_cons _ h =>
      cases hswap with
      | cons _ hswap => exact hc (hswap.subset (.tail _ (.head _)))
      | cons_cons _ _ => exact hc (List.singleton_sublist.1 h)

/-- What comes before an element stands in front of it. -/
theorem sublist_pair_iff {before after : List α} (hl : (before ++ b :: after).Nodup) :
    [a, b].Sublist (before ++ b :: after) ↔ a ∈ before := by
  constructor
  · intro h
    rcases List.mem_append.1 (h.subset (.head _)) with hmem | hmem
    · exact hmem
    rcases List.mem_cons.1 hmem with rfl | hmem
    · exact absurd h (not_sublist_swap hl h)
    · refine absurd h (not_sublist_swap hl ?_)
      exact .trans ((List.singleton_sublist.2 hmem).cons_cons b) (List.sublist_append_right _ _)
  · intro hmem
    exact (List.singleton_sublist.2 hmem).append (List.singleton_sublist.2 (.head _))

end

/-! ## Repetitions -/

section

variable {α : Type} [BEq α]

theorem eraseRepsLoop_eq (a : α) (l acc : List α) :
    List.eraseRepsBy.loop (· == ·) a l acc = acc.reverse ++ (a :: l).eraseReps := by
  induction l generalizing a acc with
  | nil => simp [List.eraseRepsBy.loop, List.eraseReps, List.eraseRepsBy]
  | cons b l ih =>
    rw [List.eraseReps, List.eraseRepsBy, List.eraseRepsBy.loop, List.eraseRepsBy.loop]
    split
    · rw [ih, ih]
      rfl
    · rw [ih, ih]
      simp

theorem eraseReps_cons_cons (a b : α) (l : List α) : (a :: b :: l).eraseReps =
    if a == b then (a :: l).eraseReps else a :: (b :: l).eraseReps := by
  rw [List.eraseReps, List.eraseRepsBy, List.eraseRepsBy.loop]
  cases a == b with
  | true => rfl
  | false => exact eraseRepsLoop_eq b l [a]

/-- Lists `l` and `l'` that correspond have the same repetitions. -/
theorem forall₂_eraseReps {β : Type} [BEq β] {U : α → β → Prop}
    (hU : ∀ a b c d, U a b → U c d → (b == d) = (a == c)) {l : List α} {l' : List β}
    (h : List.Forall₂ U l l') : List.Forall₂ U l.eraseReps l'.eraseReps := by
  cases h with
  | nil => exact .nil
  | @cons a b _ _ hab htail =>
    induction htail generalizing a b with
    | nil => exact .cons hab .nil
    | cons hcd _ ih =>
      rw [eraseReps_cons_cons, eraseReps_cons_cons, hU _ _ _ _ hab hcd]
      split
      · exact ih hab
      · exact .cons hab (ih hcd)

variable [LawfulBEq α]

theorem mem_eraseReps {x : α} {l : List α} : x ∈ l.eraseReps ↔ x ∈ l := by
  cases l with
  | nil => rfl
  | cons a l =>
    induction l generalizing a with
    | nil => rfl
    | cons b l ih =>
      rw [eraseReps_cons_cons]
      split
      · rename_i hab
        obtain rfl := eq_of_beq hab
        simp only [ih, List.mem_cons, or_self_left]
      · simp only [List.mem_cons, ih]

/-- In a sorted list, repetitions stand next to each other where the order tells elements apart. -/
theorem pairwise_eraseReps {le : α → α → Bool} {l : List α} (h : l.Pairwise fun a b => le a b)
    (apart : ∀ a ∈ l, ∀ b ∈ l, le a b → le b a → a = b) :
    l.eraseReps.Pairwise fun a b => le a b ∧ a ≠ b := by
  cases l with
  | nil => exact .nil
  | cons a l =>
    induction l generalizing a with
    | nil => exact List.pairwise_singleton ..
    | cons b l ih =>
      obtain ⟨ha, hb⟩ := List.pairwise_cons.1 h
      have hrest (c : α) (hc : c ∈ b :: l) : a = c → a = b := by
        rintro rfl
        rcases List.mem_cons.1 hc with rfl | hc
        · rfl
        · exact apart a (.head _) b (.tail _ (.head _)) (ha b (.head _))
            ((List.pairwise_cons.1 hb).1 a hc)
      rw [eraseReps_cons_cons]
      split
      · rename_i hab
        obtain rfl := eq_of_beq hab
        exact ih a hb fun c hc d hd => apart c (.tail _ hc) d (.tail _ hd)
      · rename_i hab
        refine List.pairwise_cons.2 ⟨fun c hc => ?_, ?_⟩
        · have hc := mem_eraseReps.1 hc
          exact ⟨ha c hc, fun heq => hab (beq_iff_eq.2 (hrest c hc heq))⟩
        · exact ih b hb fun c hc d hd => apart c (.tail _ hc) d (.tail _ hd)

/-- Sorted lists without repetitions depend on their elements only, where the order tells these
apart. -/
theorem eraseReps_sortBy_congr {le : α → α → Bool} (total : ∀ a b, le a b ∨ le b a)
    (trans : ∀ a b c, le a b → le b c → le a c) {l l' : List α} (h : ∀ a, a ∈ l ↔ a ∈ l')
    (apart : ∀ a ∈ l, ∀ b ∈ l, le a b → le b a → a = b) :
    (sortBy le l).eraseReps = (sortBy le l').eraseReps := by
  have hsorted := pairwise_eraseReps (sortBy_pairwise total trans l)
    fun a ha b hb => apart a (mem_sortBy.1 ha) b (mem_sortBy.1 hb)
  have hsorted' := pairwise_eraseReps (sortBy_pairwise total trans l')
    fun a ha b hb => apart a ((h a).2 (mem_sortBy.1 ha)) b ((h b).2 (mem_sortBy.1 hb))
  have hperm : (sortBy le l).eraseReps.Perm (sortBy le l').eraseReps := by
    refine (List.perm_ext_iff_of_nodup (hsorted.imp And.right) (hsorted'.imp And.right)).2 ?_
    intro a
    rw [mem_eraseReps, mem_eraseReps, mem_sortBy, mem_sortBy, h]
  refine List.Perm.eq_of_pairwise (fun a b ha hb hab hba => ?_) hsorted hsorted' hperm
  have hb := hperm.mem_iff.2 hb
  exact apart a (mem_sortBy.1 (mem_eraseReps.1 ha)) b (mem_sortBy.1 (mem_eraseReps.1 hb)) hab.1
    hba.1

end

end ScriptNaming
