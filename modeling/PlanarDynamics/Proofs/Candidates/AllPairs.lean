import Mathlib.Data.List.Nodup
import PlanarDynamics.Candidates.AllPairs

/-!
# Lists of candidate pairs

What the plain search lists, in strictly ascending order, and why any other search that finds the
same pairs, each of them once, lists the same after sorting.
-/

namespace PlanarDynamics

namespace Pair

/-- Strict lexicographic order. -/
def Lt (p q : Pair) : Prop := p.1 < q.1 ∨ p.1 = q.1 ∧ p.2 < q.2

theorem le_iff {p q : Pair} : le p q = true ↔ p.1 < q.1 ∨ p.1 = q.1 ∧ p.2 ≤ q.2 := by
  simp [le]

theorem le_of_lt {p q : Pair} (h : Lt p q) : le p q = true := by
  rw [le_iff]
  unfold Lt at h
  omega

theorem ne_of_lt {p q : Pair} (h : Lt p q) : p ≠ q := by
  rintro rfl
  unfold Lt at h
  omega

theorem le_antisymm {p q : Pair} (hpq : le p q = true) (hqp : le q p = true) : p = q := by
  rw [le_iff] at hpq hqp
  exact Prod.ext (by omega) (by omega)

theorem pairwise_sort (pairs : List Pair) : (sort pairs).Pairwise fun p q => le p q = true := by
  apply List.pairwise_mergeSort
  · intro p q r hpq hqr
    rw [le_iff] at *
    omega
  · intro p q
    rw [Bool.or_eq_true, le_iff, le_iff]
    omega

theorem sort_congr {pairs others : List Pair} (h : pairs.Perm others) :
    sort pairs = sort others := by
  refine List.Perm.eq_of_pairwise ?_ (pairwise_sort pairs) (pairwise_sort others) ?_
  · exact fun p q _ _ hpq hqp => le_antisymm hpq hqp
  · exact ((List.mergeSort_perm pairs le).trans h).trans (List.mergeSort_perm others le).symm

theorem sort_eq_of_perm {pairs ascending : List Pair} (h : pairs.Perm ascending)
    (hascending : ascending.Pairwise Lt) : sort pairs = ascending := by
  refine List.Perm.eq_of_pairwise ?_ (pairwise_sort pairs) (hascending.imp le_of_lt)
    ((List.mergeSort_perm pairs le).trans h)
  exact fun p q _ _ hpq hqp => le_antisymm hpq hqp

/-- Sorting a list without repetitions gives the ascending list of the same pairs. -/
theorem sort_eq {pairs ascending : List Pair} (hnodup : pairs.Nodup)
    (hascending : ascending.Pairwise Lt) (hmem : ∀ p, p ∈ pairs ↔ p ∈ ascending) :
    sort pairs = ascending :=
  sort_eq_of_perm ((List.perm_ext_iff_of_nodup hnodup (hascending.imp ne_of_lt)).mpr hmem)
    hascending

theorem ordered_of_lt {i j : Nat} (h : i < j) : ordered i j = (i, j) := if_pos h

theorem ordered_of_gt {i j : Nat} (h : j < i) : ordered i j = (j, i) := if_neg (Nat.lt_asymm h)

theorem ordered_comm (i j : Nat) : ordered i j = ordered j i := by
  unfold ordered
  split <;> split <;> simp only [Prod.mk.injEq] <;> omega

theorem ordered_injective (i : Nat) : Function.Injective (ordered i) := by
  intro j k h
  unfold ordered at h
  split at h <;> split at h <;> simp only [Prod.mk.injEq] at h <;> omega

end Pair

theorem Aabb.intersects_iff {α : Type} [Scalar α] {a b : Aabb α} :
    a.intersects b = true ↔
      ¬ a.right < b.left ∧ ¬ b.right < a.left ∧ ¬ a.top < b.bottom ∧ ¬ b.top < a.bottom := by
  simp only [intersects, Bool.not_eq_true', Bool.or_eq_false_iff, decide_eq_false_iff_not,
    and_assoc]

namespace Proxy

variable {α : Type} [Scalar α]

theorem mayTouch_comm (p q : Proxy α) : p.mayTouch q = q.mayTouch p := by
  unfold mayTouch bothStatic Aabb.intersects
  grind

end Proxy

namespace Candidates

variable {α : Type} [Scalar α]

/-- The shapes at two positions may touch. -/
def MayTouch (shapes : Array (Proxy α)) (i j : Nat) : Prop :=
  ∃ p q, shapes[i]? = some p ∧ shapes[j]? = some q ∧ p.mayTouch q = true

theorem MayTouch.symm {shapes : Array (Proxy α)} {i j : Nat} (h : MayTouch shapes i j) :
    MayTouch shapes j i := by
  obtain ⟨p, q, hp, hq, htouch⟩ := h
  exact ⟨q, p, hq, hp, p.mayTouch_comm q ▸ htouch⟩

theorem mem_pairsWithin {shapes : List (Proxy α × Nat)}
    (hindices : shapes.Pairwise fun p q => p.2 < q.2) (i j : Nat) :
    (i, j) ∈ pairsWithin shapes ↔
      i < j ∧ ∃ p q, (p, i) ∈ shapes ∧ (q, j) ∈ shapes ∧ p.mayTouch q = true := by
  induction shapes with
  | nil => simp [pairsWithin]
  | cons head rest ih =>
    obtain ⟨p, k⟩ := head
    obtain ⟨hfirst, hrest⟩ := List.pairwise_cons.mp hindices
    rw [pairsWithin, List.mem_append, ih hrest]
    simp only [List.mem_map, List.mem_filter, Prod.mk.injEq, List.mem_cons]
    constructor
    · rintro (⟨⟨q, l⟩, ⟨hq, htouch⟩, rfl, rfl⟩ | ⟨hij, q, r, hq, hr, htouch⟩)
      · exact ⟨hfirst _ hq, p, q, .inl ⟨rfl, rfl⟩, .inr hq, htouch⟩
      · exact ⟨hij, q, r, .inr hq, .inr hr, htouch⟩
    · rintro ⟨hij, q, r, ⟨rfl, rfl⟩ | hq, ⟨rfl, rfl⟩ | hr, htouch⟩
      · exact absurd hij (Nat.lt_irrefl _)
      · exact .inl ⟨(r, j), ⟨hr, htouch⟩, rfl, rfl⟩
      · exact absurd (hfirst _ hq) (Nat.lt_asymm hij)
      · exact .inr ⟨hij, q, r, hq, hr, htouch⟩

theorem pairwise_pairsWithin {shapes : List (Proxy α × Nat)}
    (hindices : shapes.Pairwise fun p q => p.2 < q.2) :
    (pairsWithin shapes).Pairwise Pair.Lt := by
  induction shapes with
  | nil => exact .nil
  | cons head rest ih =>
    obtain ⟨p, k⟩ := head
    obtain ⟨hfirst, hrest⟩ := List.pairwise_cons.mp hindices
    rw [pairsWithin, List.pairwise_append]
    refine ⟨?_, ih hrest, ?_⟩
    · rw [List.pairwise_map]
      exact (hrest.filter _).imp fun h => .inr ⟨rfl, h⟩
    · rintro x hx ⟨i, j⟩ hy
      obtain ⟨q, -, rfl⟩ := List.mem_map.mp hx
      obtain ⟨-, q, -, hq, -⟩ := (mem_pairsWithin hrest i j).mp hy
      exact .inl (hfirst _ hq)

omit [Scalar α] in
theorem pairwise_zipIdx (shapes : List (Proxy α)) :
    shapes.zipIdx.Pairwise fun p q => p.2 < q.2 := by
  rw [List.pairwise_iff_getElem]
  intro i j hi hj hij
  simpa using hij

/-- The plain search lists every pair of positions, the lower one first, whose shapes may touch. -/
theorem mem_allPairs (shapes : Array (Proxy α)) (i j : Nat) :
    (i, j) ∈ allPairs shapes ↔ i < j ∧ MayTouch shapes i j := by
  rw [allPairs, mem_pairsWithin (pairwise_zipIdx _)]
  simp only [List.mk_mem_zipIdx_iff_getElem?, Array.getElem?_toList, MayTouch]

theorem ordered_mem_allPairs {shapes : Array (Proxy α)} {i j : Nat} (hij : i ≠ j)
    (h : MayTouch shapes i j) : Pair.ordered i j ∈ allPairs shapes := by
  rcases Nat.lt_or_gt_of_ne hij with hlt | hgt
  · rw [Pair.ordered_of_lt hlt, mem_allPairs]
    exact ⟨hlt, h⟩
  · rw [Pair.ordered_of_gt hgt, mem_allPairs]
    exact ⟨hgt, h.symm⟩

theorem pairwise_allPairs (shapes : Array (Proxy α)) : (allPairs shapes).Pairwise Pair.Lt :=
  pairwise_pairsWithin (pairwise_zipIdx _)

/-- A search that finds the pairs that may touch, each of them once, agrees with the plain one. -/
theorem sort_eq_allPairs {shapes : Array (Proxy α)} {pairs : List Pair} (hnodup : pairs.Nodup)
    (hmem : ∀ i j, (i, j) ∈ pairs ↔ i < j ∧ MayTouch shapes i j) :
    Pair.sort pairs = allPairs shapes := by
  apply Pair.sort_eq hnodup (pairwise_allPairs shapes)
  rintro ⟨i, j⟩
  rw [hmem, mem_allPairs]

end Candidates

end PlanarDynamics
