/-!
# Selection by rank

Routines that put the element of a given rank into its sorted place, as a k-d tree needs them. What
holds of a tree is to hold whichever routine arranged it, so a routine comes with its contract and
nothing else is known about it.
-/

namespace PlanarDynamics

/-- The element after the first `k` is in its sorted place: nothing before it is greater and
nothing behind it is smaller. -/
def Placed {β : Type} (cmp : β → β → Ordering) (k : Nat) (l : List β) : Prop :=
  ∃ lower mid upper, l = lower ++ mid :: upper ∧ lower.length = k ∧
    (∀ x ∈ lower, cmp x mid ≠ .gt) ∧ ∀ x ∈ upper, cmp mid x ≠ .gt

/-- A routine that rearranges a list so that the element after the first `k` is in its sorted
place. -/
structure Selection where
  run : {β : Type} → (β → β → Ordering) → Nat → List β → List β
  perm : ∀ {β : Type} (cmp : β → β → Ordering) (k : Nat) (l : List β), (run cmp k l).Perm l
  placed : ∀ {β : Type} (cmp : β → β → Ordering) [Std.TransCmp cmp] {k : Nat} {l : List β},
    k < l.length → Placed cmp k (run cmp k l)

namespace Selection

/-- In a list of which no element is greater than a later one, each is in its sorted place. -/
theorem placed_of_pairwise {β : Type} (cmp : β → β → Ordering) {k : Nat} {l : List β}
    (sorted : l.Pairwise fun x y => cmp x y ≠ .gt) (hk : k < l.length) : Placed cmp k l := by
  refine ⟨l.take k, l[k], l.drop (k + 1), ?_, ?_, ?_, ?_⟩
  · rw [List.getElem_cons_drop, List.take_append_drop]
  · simp only [List.length_take]; omega
  · intro x hx
    obtain ⟨i, hi, rfl⟩ := List.mem_take_iff_getElem.mp hx
    exact List.pairwise_iff_getElem.mp sorted i k (by omega) hk (by omega)
  · intro x hx
    obtain ⟨i, hi, rfl⟩ := List.mem_drop_iff_getElem.mp hx
    exact List.pairwise_iff_getElem.mp sorted k (k + 1 + i) hk (by omega) (by omega)

/-- Selection by sorting the whole list. -/
def bySorting : Selection where
  run cmp _ l := l.mergeSort fun x y => (cmp x y).isLE
  perm _ _ l := List.mergeSort_perm l _
  placed cmp _ k l hk := by
    refine placed_of_pairwise cmp ?_ (by simpa using hk)
    refine (List.pairwise_mergeSort ?_ ?_ l).imp ?_
    · exact fun x y z => Std.TransCmp.isLE_trans
    · intro x y
      have : cmp x y = (cmp y x).swap := Std.OrientedCmp.eq_swap
      cases h : cmp y x <;> simp_all
    · intro x y h
      simpa [Ordering.isLE_iff_ne_gt] using h

end Selection

end PlanarDynamics
