import Mathlib.Data.List.Perm.Subperm
import Mathlib.Data.Multiset.Basic
import PlanarDynamics.Proofs.IntervalTree.Draws

/-!
# Interval trees as multisets

What the calls of a tree mean for the multiset of its entries, and that every tree reached by calls
keeps to it. A removal may take out any entry that compares as equal to the one asked for, so a step
of the multiset is a relation: with the two zeros as keys, the entry that leaves need not be the
entry of the call.
-/

namespace PlanarDynamics

/-- A call that may change a tree. -/
inductive TreeCall (K V : Type) where
  | insert (e : IntervalEntry K V)
  | remove (e : IntervalEntry K V)
  | clear

namespace TreeCall

variable {K V : Type}

/-- The entry that a call names. -/
def subject : TreeCall K V → Option (IntervalEntry K V)
  | insert e => some e
  | remove e => some e
  | clear => none

end TreeCall

/-- A call, with its answer, on the multiset of the entries. -/
inductive BagStep {K V : Type} [LT K] [DecidableLT K] [Ord V] :
    Multiset (IntervalEntry K V) → TreeCall K V → Option Bool → Multiset (IntervalEntry K V) → Prop
  | insert (bag) (e) : BagStep bag (.insert e) none (e ::ₘ bag)
  | hit (bag) (e f) : e.order f = .eq → BagStep (f ::ₘ bag) (.remove e) (some true) bag
  | miss (bag) (e) : (∀ f ∈ bag, e.order f ≠ .eq) → BagStep bag (.remove e) (some false) bag
  | clear (bag) : BagStep bag .clear none 0

theorem BagStep.of_remove {K V : Type} [LT K] [DecidableLT K] [Ord V]
    {bag rest : Multiset (IntervalEntry K V)} {e : IntervalEntry K V} {found : Bool}
    (h : BagStep bag (.remove e) (some found) rest) :
    (found = true ∧ ∃ f, e.order f = .eq ∧ bag = f ::ₘ rest) ∨
      (found = false ∧ rest = bag ∧ ∀ f ∈ bag, e.order f ≠ .eq) := by
  cases h with
  | hit _ _ f heq => exact .inl ⟨rfl, f, heq, rfl⟩
  | miss _ _ hnone => exact .inr ⟨rfl, rfl, hnone⟩

namespace IntervalTree

variable {K V : Type} [LT K] [DecidableLT K] [Ord V]

/-- Makes a call. Only a removal has an answer. -/
def apply (t : IntervalTree K V) : TreeCall K V → IntervalTree K V × Option Bool
  | .insert e => (t.insert e, none)
  | .remove e => ((t.remove e).1, some (t.remove e).2)
  | .clear => (t.clear, none)

/-- The trees that calls with entries in `P` lead to. -/
inductive Reachable (P : IntervalEntry K V → Prop) : IntervalTree K V → Prop
  | empty : Reachable P .empty
  | withCapacity (capacity : Nat) : Reachable P (.withCapacity capacity)
  | apply {t : IntervalTree K V} (call : TreeCall K V) :
      Reachable P t → (∀ e ∈ call.subject, P e) → Reachable P (t.apply call).1

theorem Reachable.insert {P : IntervalEntry K V → Prop} {t : IntervalTree K V}
    (h : t.Reachable P) {e : IntervalEntry K V} (he : P e) : (t.insert e).Reachable P :=
  .apply (.insert e) h fun _ hf => Option.some.inj hf ▸ he

theorem Reachable.remove {P : IntervalEntry K V → Prop} {t : IntervalTree K V}
    (h : t.Reachable P) {e : IntervalEntry K V} (he : P e) : (t.remove e).1.Reachable P :=
  .apply (.remove e) h fun _ hf => Option.some.inj hf ▸ he

/-- The multiset of the entries. -/
def bag (t : IntervalTree K V) : Multiset (IntervalEntry K V) := t.toList

variable {t : IntervalTree K V} {y : Layout K V}

/-- What holds of the layout without nodes and is kept by the calls holds of the layout of every
tree that calls lead to. -/
theorem Reachable.exists_draws {P : IntervalEntry K V → Prop} {Q : Layout K V → Prop}
    (h : t.Reachable P) (hnil : Q .nil)
    (hinsert : ∀ {y e}, Q y → P e → ∀ new, Q (y.insert new e))
    (hremove : ∀ {y}, Q y → ∀ e, Q (y.remove e).1) : ∃ y, Draws t y ∧ Q y := by
  induction h with
  | empty => exact ⟨_, .empty, hnil⟩
  | withCapacity capacity => exact ⟨_, .withCapacity capacity, hnil⟩
  | apply call _ hcall ih =>
    obtain ⟨y, hdraws, hy⟩ := ih
    cases call with
    | insert e => exact ⟨_, hdraws.insert e, hinsert hy (hcall e rfl) _⟩
    | remove e => exact ⟨_, (hdraws.remove e).1, hremove hy e⟩
    | clear => exact ⟨_, .empty, hnil⟩

section Lists

variable {P : IntervalEntry K V → Prop} (h : t.Reachable P)

include h

theorem Reachable.exists_layout : ∃ y, Draws t y := by
  obtain ⟨y, hy, -⟩ := h.exists_draws (Q := fun _ => True) trivial (fun _ _ _ => trivial)
    fun _ _ => trivial
  exact ⟨y, hy⟩

theorem Reachable.toList_insert (e : IntervalEntry K V) :
    (t.insert e).toList.Perm (e :: t.toList) := by
  obtain ⟨y, hy⟩ := h.exists_layout
  rw [(hy.insert e).toList, hy.toList]
  exact Layout.entries_insert ..

/-- A removal adds nothing, whether it finds its entry or not. -/
theorem Reachable.toList_remove (e : IntervalEntry K V) :
    (t.remove e).1.toList.Sublist t.toList := by
  obtain ⟨y, hy⟩ := h.exists_layout
  rw [(hy.remove e).1.toList, hy.toList]
  exact (Layout.items_remove_sublist e y).map _

/-- A search reports the value of an entry at most once, whatever the keys are. -/
theorem Reachable.searchAll_subperm [LE K] [DecidableLE K] (low high : K) :
    (t.searchAll low high).Subperm (t.toList.map (·.value)) := by
  obtain ⟨y, hy⟩ := h.exists_layout
  rw [hy.searchAll, hy.toList]
  exact (y.search_sublist low high).subperm.trans (y.preorder_perm.map _).subperm

end Lists

variable [LE K] [OrderedKeys K] [Std.TransOrd V]

theorem Reachable.exists_ordered (h : t.Reachable IntervalEntry.IsKeyed) :
    ∃ y, Draws t y ∧ y.Ordered :=
  h.exists_draws .nil Layout.Ordered.insert Layout.Ordered.remove

theorem bagStep_remove (h : Draws t y) (hy : y.Ordered) {e : IntervalEntry K V} (he : e.IsKeyed) :
    BagStep t.bag (.remove e) (some (t.remove e).2) (t.remove e).1.bag := by
  obtain ⟨hdraws, hflag⟩ := h.remove e
  rw [bag, bag, h.toList, hdraws.toList, hflag]
  cases hremoved : (y.remove e).2 with
  | none =>
    rw [Layout.entries_remove_of_none hremoved]
    exact .miss _ e fun f hf => hy.order_ne_eq he hremoved hf
  | some p =>
    obtain ⟨heq, hperm⟩ := Layout.entries_remove_of_some hremoved
    rw [Multiset.coe_eq_coe.mpr hperm, ← Multiset.cons_coe]
    exact .hit _ e p.2 heq

theorem bagStep_apply (h : Draws t y) (hy : y.Ordered) {call : TreeCall K V}
    (hcall : ∀ e ∈ call.subject, e.IsKeyed) :
    BagStep t.bag call (t.apply call).2 (t.apply call).1.bag := by
  cases call with
  | insert e =>
    have hbag : (t.insert e).bag = e ::ₘ t.bag := by
      rw [bag, bag, h.toList, (h.insert e).toList, Multiset.cons_coe]
      exact Multiset.coe_eq_coe.mpr (Layout.entries_insert ..)
    rw [apply, hbag]
    exact .insert ..
  | remove e => exact bagStep_remove h hy (hcall e rfl)
  | clear => exact .clear _

theorem Reachable.bagStep_remove (h : t.Reachable IntervalEntry.IsKeyed)
    {e : IntervalEntry K V} (he : e.IsKeyed) :
    BagStep t.bag (.remove e) (some (t.remove e).2) (t.remove e).1.bag := by
  obtain ⟨y, hy, hordered⟩ := h.exists_ordered
  exact IntervalTree.bagStep_remove hy hordered he

theorem Reachable.isEmpty_of_toList (h : t.Reachable IntervalEntry.IsKeyed)
    (hnil : t.toList = []) : t.isEmpty = true := by
  obtain ⟨y, hy, -⟩ := h.exists_ordered
  rw [hy.toList] at hnil
  rw [isEmpty, hy.size_eq, hnil]
  rfl

/-- A tree begins as the empty multiset, and every tree that calls with keys lead to counts its
entries, lists them in order, and takes the next such call as the multiset does. -/
theorem refines_bag :
    (empty : IntervalTree K V).bag = 0 ∧
    (∀ capacity, (withCapacity capacity : IntervalTree K V).bag = 0) ∧
    ∀ t : IntervalTree K V, t.Reachable IntervalEntry.IsKeyed →
      t.size = t.bag.card ∧ t.toList.Pairwise (fun e f => (e.order f).isLE) ∧
      ∀ call : TreeCall K V, (∀ e ∈ call.subject, e.IsKeyed) →
        BagStep t.bag call (t.apply call).2 (t.apply call).1.bag := by
  refine ⟨rfl, fun _ => rfl, ?_⟩
  intro t h
  obtain ⟨y, hdraws, hordered⟩ := h.exists_ordered
  refine ⟨?_, ?_, fun call hcall => bagStep_apply hdraws hordered hcall⟩
  · rw [bag, Multiset.coe_card, hdraws.toList, hdraws.size_eq]
  · rw [hdraws.toList]
    exact hordered.sorted

/-- Of two equal intervals whose upper end lies below the lower one, a removal takes out one. -/
theorem refines_bag_inverted :
    let e : IntervalEntry Int64 Nat := ⟨3, 1, 0⟩
    let t : IntervalTree Int64 Nat := (empty.insert e).insert e
    t.Reachable IntervalEntry.IsKeyed ∧ e.IsKeyed ∧ t.size = t.bag.card ∧
      BagStep t.bag (.remove e) (some true) (t.remove e).1.bag := by
  intro e t
  have he : e.IsKeyed := ⟨Int64.le_refl _, Int64.le_refl _⟩
  have ht : t.Reachable IntervalEntry.IsKeyed := (Reachable.empty.insert he).insert he
  obtain ⟨hsize, -, hstep⟩ := refines_bag.2.2 t ht
  have hremoved : (t.remove e).2 = true := by decide
  have hbag := hstep (.remove e) fun _ hf => Option.some.inj hf ▸ he
  simp only [apply, hremoved] at hbag
  exact ⟨ht, he, hsize, hbag⟩

variable [DecidableLE K]

theorem Reachable.searchAll_perm (h : t.Reachable IntervalEntry.IsKeyed) (low high : K) :
    (t.searchAll low high).Perm ((t.toList.filter (·.overlaps low high)).map (·.value)) := by
  obtain ⟨y, hy, hordered⟩ := h.exists_ordered
  rw [hy.searchAll, hy.toList, hordered.search_eq]
  exact (y.preorder_perm.filter _).map _

/-- A search lists the overlaps in the order of the full walk, each entry once, and appends them to
the buffer of the caller. -/
theorem Reachable.searchAll_eq (h : t.Reachable IntervalEntry.IsKeyed) (low high : K)
    (buffer : Array V) :
    t.searchAll low high = (t.preorder.filter (·.overlaps low high)).map (·.value) ∧
    t.preorder.Perm t.toList ∧
    t.searchAllInto low high buffer =
      buffer ++ (t.preorder.filter (·.overlaps low high)).map (·.value) := by
  obtain ⟨y, hdraws, hordered⟩ := h.exists_ordered
  have hsearch : t.searchAll low high =
      (t.preorder.filter (·.overlaps low high)).map (·.value) := by
    rw [hdraws.searchAll, hdraws.preorder]
    exact hordered.search_eq low high
  refine ⟨hsearch, ?_, ?_⟩
  · rw [hdraws.preorder, hdraws.toList]
    exact y.preorder_perm
  · rw [searchAllInto, hsearch]

/-- An interval whose upper end lies below the lower one is found by a range around both. -/
theorem Reachable.searchAll_inverted :
    let t : IntervalTree Int64 Nat :=
      (IntervalTree.empty.insert ⟨3, 1, 7⟩).insert ⟨0, 1, 8⟩
    t.Reachable IntervalEntry.IsKeyed ∧ t.searchAll 1 3 = [7, 8] ∧ t.searchAll 2 2 = [] := by
  intro t
  have hkeyed (e : IntervalEntry Int64 Nat) : e.IsKeyed := ⟨Int64.le_refl _, Int64.le_refl _⟩
  have ht : t.Reachable IntervalEntry.IsKeyed :=
    (Reachable.empty.insert (hkeyed _)).insert (hkeyed _)
  refine ⟨ht, ?_, ?_⟩
  · rw [(ht.searchAll_eq 1 3 #[]).1]
    decide
  · rw [(ht.searchAll_eq 2 2 #[]).1]
    decide

end IntervalTree

end PlanarDynamics
