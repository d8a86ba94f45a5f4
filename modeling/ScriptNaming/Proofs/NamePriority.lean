import ScriptNaming.Proofs.Allocation
import ScriptNaming.Proofs.NamingSequence

/-!
# Priority among members with one preferred name

A name that is allocated is the preferred name, or it has the first suffix that is free. Names are
only added while a type is named, so that of two members that would like to have the same name, the
one that is named first is given the smaller suffix (`SuffixIndex.lt_of_firstFree`). Which one this
is depends on the canonical order alone (`canonical_order_decides_suffixes`).
-/

namespace ScriptNaming

open ResolutionState

/-! ## Suffixes by their numbers -/

/-- The name is what a preferred name leads to with the suffix of the given number; the number is −1
for the preferred name without a suffix. -/
inductive SuffixIndex (preferred : Option String) (name : String) : Int → Prop
  | bare (isPreferred : preferred = some name) : SuffixIndex preferred name (-1)
  | suffixed (i : Nat) (isSuffixed : name = NameRegistry.suffixed (preferred.getD "") i) :
    SuffixIndex preferred name i

namespace SuffixIndex

variable {preferred : Option String} {name name' : String} {i j : Int}

/-- A `name` has no more than one number. -/
theorem unique (hi : SuffixIndex preferred name i) (hj : SuffixIndex preferred name j) : i = j := by
  have hbare {k : Nat} (hpreferred : preferred = some name) :
      name ≠ NameRegistry.suffixed (preferred.getD "") k := by
    rw [hpreferred, Option.getD_some]
    exact NameRegistry.ne_suffixed name k
  cases hi with
  | bare hpreferred =>
    cases hj with
    | bare => rfl
    | suffixed k hsuffixed => exact absurd hsuffixed (hbare hpreferred)
  | suffixed k hsuffixed =>
    cases hj with
    | bare hpreferred => exact absurd hsuffixed (hbare hpreferred)
    | suffixed l hsuffixed' =>
      rw [NameRegistry.suffixed_injective _ (hsuffixed.symm.trans hsuffixed')]

/-- No two names `name` and `name'` have the same number `i`. -/
theorem name_unique (hi : SuffixIndex preferred name i) (hi' : SuffixIndex preferred name' i) :
    name = name' := by
  cases hi with
  | bare hpreferred =>
    cases hi' with
    | bare hpreferred' => exact Option.some.inj (hpreferred.symm.trans hpreferred')
  | suffixed k hsuffixed =>
    generalize hj : (k : Int) = j at hi'
    cases hi' with
    | bare => omega
    | suffixed l hsuffixed' =>
      obtain rfl : k = l := by omega
      exact hsuffixed.trans hsuffixed'.symm

/-- The first free `name` has a number, and the names with smaller numbers are taken. -/
theorem of_firstFree {names : NameRegistry} (h : names.FirstFree preferred name) :
    ∃ i, SuffixIndex preferred name i ∧
      ∀ j < i, ∀ other, SuffixIndex preferred other j → names.contains other := by
  cases h with
  | base free =>
    refine ⟨-1, .bare rfl, fun j hj other hother => ?_⟩
    cases hother <;> omega
  | @suffixed _ k taken free lower =>
    refine ⟨k, .suffixed k rfl, fun j hj other hother => ?_⟩
    cases hother with
    | bare hpreferred => exact taken other hpreferred
    | suffixed l hsuffixed =>
      rw [hsuffixed]
      exact lower l (by omega)

/-- Where `name` is taken when `name'` is allocated, and with it all that were taken before, `name'`
has the larger number. -/
theorem lt_of_firstFree {names names' : NameRegistry} (h : names.FirstFree preferred name)
    (h' : names'.FirstFree preferred name')
    (hnames : ∀ other, names.contains other → names'.contains other) (hname : names'.contains name)
    (hi : SuffixIndex preferred name i) (hj : SuffixIndex preferred name' j) : i < j := by
  have hfree : ¬names'.contains name' := Bool.eq_false_iff.1 h'.free
  by_contra hnot
  rcases Int.lt_or_eq_of_le (Int.not_lt.1 hnot) with hlt | rfl
  · obtain ⟨k, hk, hlower⟩ := of_firstFree h
    obtain rfl := hi.unique hk
    exact hfree (hnames name' (hlower j hlt name' hj))
  · exact hfree (hi.name_unique hj ▸ hname)

end SuffixIndex

/-! ## Members in the sequence of naming -/

theorem sublist_filter {α : Type} {P : α → Bool} {l l' : List α} (h : l.Sublist l')
    (hl : ∀ a ∈ l, P a) : l.Sublist (l'.filter P) := by
  have hfilter := h.filter P
  rwa [List.filter_eq_self.2 hl] at hfilter

/-- Members `p` and `q` with the same preferred name are named in their order. -/
theorem namingPlan_sublist {members : List (MemberSymbol × PreferredName)}
    {p q : MemberSymbol × PreferredName} (h : [p, q].Sublist members) (hpreferred : q.2 = p.2) :
    [p, q].Sublist (namingPlan members) := by
  have hpair {P : MemberSymbol × PreferredName → Bool} (hp : P p = true) (hq : P q = P p) :
      ∀ a ∈ [p, q], P a = true := by
    simp [hp, hq]
  have hname : p.2.name ∈ (members.map (·.2.name)).eraseDups :=
    List.mem_eraseDups.2 (List.mem_map_of_mem (h.subset (.head _)))
  have hgroup : [p, q].Sublist (members.filter (·.2.name == p.2.name)) :=
    sublist_filter h (hpair (beq_self_eq_true _) (by rw [hpreferred]))
  refine List.Sublist.trans ?_ (List.sublist_flatten_of_mem (List.mem_map_of_mem hname))
  cases hspecified : p.2.isSpecified with
  | true =>
    exact (sublist_filter hgroup (hpair hspecified (by rw [hpreferred]))).trans
      (List.sublist_append_left _ _)
  | false =>
    exact (sublist_filter hgroup (hpair (by rw [hspecified]; rfl) (by rw [hpreferred]))).trans
      (List.sublist_append_right _ _)

/-- Members `x` and `y` with the same preferred name are named in the canonical order. -/
theorem namingSequence_sublist {g : TypeGraph} {options : Options} {ty : TypeSymbol}
    {resolved : ResolvedType} {x y : MemberSymbol} (h : [x, y].Sublist (g.canonicalMembers ty))
    (hx : x ∈ g.namedMembers ty) (hy : y ∈ g.namedMembers ty)
    (hpreferred : (g.preferredName options ty resolved y).1 =
      (g.preferredName options ty resolved x).1) :
    [x.id, y.id].Sublist (g.namingSequence options ty resolved) := by
  have hnamed : [x, y].Sublist (g.namedMembers ty) :=
    sublist_filter h (List.forall_mem_cons.2 ⟨(List.mem_filter.1 hx).2,
      List.forall_mem_singleton.2 (List.mem_filter.1 hy).2⟩)
  have hplan := namingPlan_sublist
    (hnamed.map fun m => (m, (g.preferredName options ty resolved m).1)) hpreferred
  refine List.Sublist.trans ?_ (hplan.flatMap fun p => p.1.accessors ++ [p.1.id])
  rw [List.flatMap_cons, List.flatMap_cons, List.flatMap_nil, List.append_nil]
  exact (List.sublist_append_right x.accessors [x.id]).append
    (List.sublist_append_right y.accessors [y.id])

/-- Of two members `k` and `j` that are named in turn, the second one is named when all names are
taken that were taken for the first one, and the name of the first one. -/
theorem TypeGraph.NamesInTurn.of_sublist {g : TypeGraph} {options : Options} {ty : TypeSymbol}
    {resolved : ResolvedType} {recordOf : MemberId → MemberRecord} {names names' : NameRegistry}
    {l : List MemberId} {k j : MemberId}
    (h : g.NamesInTurn options ty resolved recordOf names l names') (hsublist : [k, j].Sublist l) :
    ∃ names₁ names₂ names₃ names₄,
      g.NamesMember options ty resolved names₁ k (recordOf k) names₂ ∧
      g.NamesMember options ty resolved names₃ j (recordOf j) names₄ ∧
      ∀ name, names₂.contains name → names₃.contains name := by
  obtain ⟨before, rest, rfl, hk, hj⟩ := List.cons_sublist_iff.1 hsublist
  obtain ⟨before, between, rfl⟩ := List.append_of_mem hk
  obtain ⟨between', after, rfl⟩ := List.append_of_mem (List.singleton_sublist.1 hj)
  rw [List.append_assoc, List.cons_append] at h
  obtain ⟨names₁, names₂, -, hfirst, hrest⟩ := h.split
  rw [← List.append_assoc] at hrest
  obtain ⟨names₃, names₄, hbetween, hsecond, -⟩ := hrest.split
  exact ⟨names₁, names₂, names₃, names₄, hfirst, hsecond,
    fun name hname => (hbetween.contains_iff name).2 (.inl hname)⟩

/-- **The canonical order decides priority**: of two methods or fields `x` and `y` of a type `t`
with the same preferred name, which neither of them has chosen, the one that comes first in the
canonical order is allocated the name with the smaller suffix, whatever other names there are. -/
theorem canonical_order_decides_suffixes {g : TypeGraph} (hg : g.Built) {options : Options}
    {roots : List TypeId} {main : AssemblyId} {r : Resolution}
    (h : g.resolve options roots main = .ok r) {t : TypeId} {ty : TypeSymbol}
    {resolved : ResolvedType} (hty : g.type? t = some ty)
    (hresolved : r.types.find? t = some resolved) {x y : MemberSymbol}
    (horder : [x, y].Sublist (g.canonicalMembers ty)) {preferred : Option String}
    (hx : (g.preferredName options ty resolved x).1 = ⟨preferred, false⟩)
    (hy : (g.preferredName options ty resolved y).1 = ⟨preferred, false⟩)
    (hallocated : r.origins.find? x.id = some .allocated)
    (hallocated' : r.origins.find? y.id = some .allocated) :
    ∃ name name' i j, (r.recordOf x.id).name? = some name ∧ (r.recordOf y.id).name? = some name' ∧
      SuffixIndex preferred name i ∧ SuffixIndex preferred name' j ∧ i < j := by
  have wf := hg.wellFormed
  have hlists {m : MemberSymbol} (hm : m ∈ [x, y]) : g.Lists t m :=
    TypeGraph.lists_of_mem_canonicalMembers wf hty (horder.subset hm)
  have hfirst : g.Lists t x := hlists (.head _)
  have hsecond : g.Lists t y := hlists (.tail _ (.head _))
  obtain ⟨s, rfl, hs, hdone⟩ :=
    done_of_resolve wf h hfirst.1.1 (.inr (Option.ne_none_iff_exists'.2 ⟨_, hallocated⟩))
  rw [hfirst.1.2] at hdone
  obtain ⟨names, hnames⟩ := done_iff.1 hdone
  obtain ⟨ty', resolved', bases, s₁, hty', hresolved', -, -, -, -, -, hturn⟩ :=
    namesInTurn_of_done wf hs hnames
  obtain rfl := Option.some.inj (hty'.symm.trans hty)
  obtain rfl := Option.some.inj (hresolved'.symm.trans hresolved)
  -- Both members are in the plan, since they have names.
  obtain ⟨ty', resolved', hty', hresolved', hplan⟩ := namedInOrder_of_done wf hs hdone
  obtain rfl := Option.some.inj (hty'.symm.trans hty)
  obtain rfl := Option.some.inj (hresolved'.symm.trans hresolved)
  have hnamed {m : MemberSymbol} (hm : g.Lists t m)
      (horigin : s.origins.find? m.id = some .allocated) : m ∈ g.namedMembers ty' := by
    have hnamed : (s.recordOf m.id).origin ≠ none := fun hnone => nomatch horigin.symm.trans hnone
    obtain ⟨_, hmem⟩ := hplan.exists_mem_plan wf hm.1.1 hm.1.2 hm.2 hnamed
    exact (mem_plan_preferredNames.1 hmem).1
  obtain ⟨names₁, names₂, names₃, names₄, hmember, hmember', hadded⟩ := hturn.of_sublist
    (namingSequence_sublist horder (hnamed hfirst hallocated) (hnamed hsecond hallocated')
      (hy.trans hx.symm))
  obtain rfl := wf.type_id hty
  obtain ⟨preferred₁, name, hprefers, hname, hfree, htaken⟩ := hmember.firstFree hallocated
  obtain ⟨preferred₂, name', hprefers', hname', hfree', -⟩ := hmember'.firstFree hallocated'
  rw [hprefers.eq_of_lists wf hfirst, hx] at hfree
  rw [hprefers'.eq_of_lists wf hsecond, hy] at hfree'
  obtain ⟨i, hi, -⟩ := SuffixIndex.of_firstFree hfree
  obtain ⟨j, hj, -⟩ := SuffixIndex.of_firstFree hfree'
  exact ⟨name, name', i, j, hname, hname', hi, hj, SuffixIndex.lt_of_firstFree hfree hfree'
    (fun other hother => hadded other ((hmember.registered other).2 (.inl hother)))
    (hadded name htaken) hi hj⟩

/-- A class whose methods have taken `add` and `add$1`, and a class that inherits from it and adds
two overloads of `Add`, the longer one first. -/
def tillClasses : Except Fault TypeGraph := do
  let (g, shop) := TypeGraph.declareAssembly ∅ "Shop"
  let (g, till) ← g.declareType shop { name := "Till" }
  let (g, _) ← g.declareMethod till { name := "Add" }
  let (g, _) ← g.declareMethod till
    { name := "Total", attributes := [.ofMarker .scriptName [.str "add$1"]] }
  let (g, register) ← g.declareType shop { name := "Register", baseTypes := [till] }
  let (g, _) ← g.declareMethod register
    { name := "Add", parameters := [⟨"item", "System.Int32"⟩, ⟨"count", "System.Int32"⟩] }
  let (g, _) ← g.declareMethod register
    { name := "Add", parameters := [⟨"item", "System.Int32"⟩] }
  return g

/-- The graph of the two classes. -/
def tillGraph : TypeGraph := tillClasses.toOption.getD ∅

theorem built_tillGraph : tillGraph.Built := by
  have hg : tillClasses = .ok tillGraph := eq_ok_getD (by decide +kernel)
  obtain ⟨⟨g₁, till⟩, htill, h⟩ := bind_eq_ok.1 hg
  obtain ⟨⟨g₂, _⟩, hadd, h⟩ := bind_eq_ok.1 h
  obtain ⟨⟨g₃, _⟩, htotal, h⟩ := bind_eq_ok.1 h
  obtain ⟨⟨g₄, register⟩, hregister, h⟩ := bind_eq_ok.1 h
  obtain ⟨⟨g₅, _⟩, hlong, h⟩ := bind_eq_ok.1 h
  obtain ⟨⟨g₆, _⟩, hshort, h⟩ := bind_eq_ok.1 h
  rw [← Except.ok.inj h]
  have hbase : g₃.Built := .method (.method (.type (.assembly .empty "Shop") htill) hadd) htotal
  exact .method (.method (.type hbase hregister) hlong) hshort

/-- Of the two overloads, the shorter one is `add$0`, and the longer one comes next. -/
theorem till_overloads_in_order :
    tillGraph.Built ∧ ∃ r ty resolved x y, tillGraph.resolve {} [⟨1⟩] ⟨0⟩ = .ok r ∧
      tillGraph.type? ⟨1⟩ = some ty ∧ r.types.find? ⟨1⟩ = some resolved ∧
      tillGraph.member? ⟨3⟩ = some x ∧ tillGraph.member? ⟨2⟩ = some y ∧
      [x, y].Sublist (tillGraph.canonicalMembers ty) ∧
      (tillGraph.preferredName {} ty resolved x).1 = ⟨some "add", false⟩ ∧
      (tillGraph.preferredName {} ty resolved y).1 = ⟨some "add", false⟩ ∧
      r.origins.find? x.id = some .allocated ∧ r.origins.find? y.id = some .allocated ∧
      (r.recordOf x.id).name? = some "add$0" ∧ (r.recordOf y.id).name? = some "add$2" ∧
      ∃ name name' i j, (r.recordOf x.id).name? = some name ∧
        (r.recordOf y.id).name? = some name' ∧ SuffixIndex (some "add") name i ∧
        SuffixIndex (some "add") name' j ∧ i < j := by
  have hrun : (tillGraph.resolve {} [⟨1⟩] ⟨0⟩).toOption.any fun r =>
      (tillGraph.type? ⟨1⟩).any fun ty => (r.types.find? ⟨1⟩).any fun resolved =>
      (tillGraph.member? ⟨3⟩).any fun x => (tillGraph.member? ⟨2⟩).any fun y =>
        [x, y].Sublist (tillGraph.canonicalMembers ty) ∧
        (tillGraph.preferredName {} ty resolved x).1 = ⟨some "add", false⟩ ∧
        (tillGraph.preferredName {} ty resolved y).1 = ⟨some "add", false⟩ ∧
        r.origins.find? x.id = some .allocated ∧ r.origins.find? y.id = some .allocated ∧
        (r.recordOf x.id).name? = some "add$0" ∧ (r.recordOf y.id).name? = some "add$2" := by
    decide +kernel
  obtain ⟨r, hr, hrest⟩ := exists_of_any_toOption hrun
  obtain ⟨ty, hty, hrest⟩ := (Option.any_eq_true _ _).1 hrest
  obtain ⟨resolved, hresolved, hrest⟩ := (Option.any_eq_true _ _).1 hrest
  obtain ⟨x, hx, hrest⟩ := (Option.any_eq_true _ _).1 hrest
  obtain ⟨y, hy, hrest⟩ := (Option.any_eq_true _ _).1 hrest
  obtain ⟨horder, hpreferred, hpreferred', hallocated, hallocated', hname, hname'⟩ :=
    of_decide_eq_true hrest
  exact ⟨built_tillGraph, r, ty, resolved, x, y, hr, hty, hresolved, hx, hy, horder, hpreferred,
    hpreferred', hallocated, hallocated', hname, hname',
    canonical_order_decides_suffixes built_tillGraph hr hty hresolved horder hpreferred hpreferred'
      hallocated hallocated'⟩

end ScriptNaming
