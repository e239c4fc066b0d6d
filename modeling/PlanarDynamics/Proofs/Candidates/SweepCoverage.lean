import PlanarDynamics.Proofs.Candidates.IntervalSweep

/-!
# What the interval sweep finds among any boxes

A box whose left edge lies beyond its right one ends before it begins. Its extent then stays in the
tree, and the sweep may pair it with boxes that it does not overlap. All pairs of other boxes that
do overlap are still found: an end takes out no extent but that of its own shape.
-/

namespace PlanarDynamics

namespace Candidates

variable {α : Type} [Scalar α]

namespace SweepState

/-- What the sweep has at least found between two events. -/
structure Covers (shapes : Array (Proxy α)) (met : List (EdgeEvent α)) (s : SweepState α) :
    Prop where
  reachable : s.active.Reachable IntervalEntry.IsKeyed
  active : ∀ i p, shapes[i]? = some p → EdgeEvent.Met met .start i →
    ¬ EdgeEvent.Met met .stop i → entryOf p i ∈ s.active.toList
  pairs : ∀ i j p q, shapes[i]? = some p → shapes[j]? = some q → i ≠ j →
    p.aabb.IsSweepable → q.aabb.IsSweepable → p.mayTouch q = true →
    EdgeEvent.Met met .start i → EdgeEvent.Met met .start j → Pair.ordered i j ∈ s.pairs

variable {shapes : Array (Proxy α)} {s : SweepState α} {pre post : List (EdgeEvent α)}
  {p q : Proxy α} {i j : Nat}

theorem covers_nil (shapes : Array (Proxy α)) :
    Covers shapes [] ⟨.withCapacity shapes.size, []⟩ where
  reachable := .withCapacity _
  active := by
    rintro i p - ⟨e, he, -⟩
    exact absurd he List.not_mem_nil
  pairs := by
    rintro i j p q - - - - - - ⟨e, he, -⟩
    exact absurd he List.not_mem_nil

variable [LawfulScalar α]

/-- A shape finds those that it may touch and that the line reached before. -/
theorem Covers.mem_hits (hs : Covers shapes pre s) (hp : shapes[i]? = some p)
    (hq : shapes[j]? = some q) (hsp : p.aabb.IsSweepable) (hsq : q.aabb.IsSweepable)
    (hsplit : EdgeEvent.ofShapes shapes = pre ++ EdgeEvent.meeting p i .start :: post)
    (htouch : p.mayTouch q = true) (hmet : EdgeEvent.Met pre .start j) :
    j ∈ (s.active.searchAll p.aabb.bottom p.aabb.top).filter (oneMoves shapes i) := by
  rw [Proxy.mayTouch, Bool.and_eq_true] at htouch
  obtain ⟨hleft, hoverlaps⟩ := (intersects_iff_of_start hsp hsq hq hsplit hmet).mp htouch.2
  have hmem := hs.active j q hq hmet hleft
  rw [List.mem_filter, (hs.reachable.searchAll_perm _ _).mem_iff, List.mem_map]
  refine ⟨⟨entryOf q j, List.mem_filter.mpr ⟨hmem, hoverlaps⟩, rfl⟩, ?_⟩
  simp only [oneMoves, hp, hq, htouch.1]

theorem Covers.start (hs : Covers shapes pre s) (hkeys : (entryOf p i).IsKeyed)
    (hp : shapes[i]? = some p)
    (hsplit : EdgeEvent.ofShapes shapes = pre ++ EdgeEvent.meeting p i .start :: post) :
    Covers shapes (pre ++ [EdgeEvent.meeting p i .start])
      (step shapes s (EdgeEvent.meeting p i .start)) := by
  have hinsert := hs.reachable.toList_insert (entryOf p i)
  -- the shape that is reached and one that was, in either order
  have hnew {k : Nat} {r : Proxy α} (hr : shapes[k]? = some r) (hsp : p.aabb.IsSweepable)
      (hsr : r.aabb.IsSweepable) (htouch : p.mayTouch r = true)
      (hmet : EdgeEvent.Met pre .start k) : Pair.ordered i k ∈
        ((s.active.searchAll p.aabb.bottom p.aabb.top).filter (oneMoves shapes i)).map
          (Pair.ordered i) ++ s.pairs :=
    List.mem_append_left _
      (List.mem_map_of_mem (hs.mem_hits hp hr hsp hsr hsplit htouch hmet))
  rw [step_start hp]
  constructor
  · exact hs.reachable.insert hkeys
  · intro k r hr hmet hleft
    rw [EdgeEvent.met_concat] at hmet hleft
    rw [hinsert.mem_iff, List.mem_cons]
    rcases hmet with hmet | ⟨-, rfl⟩
    · exact .inr (hs.active k r hr hmet fun hstop => hleft (.inl hstop))
    · obtain rfl : p = r := Option.some.inj (hp.symm.trans hr)
      exact .inl rfl
  · intro k l r t hr ht hkl hsr hst htouch hmet hmet'
    rw [EdgeEvent.met_concat] at hmet hmet'
    rcases hmet with hmet | ⟨-, rfl⟩ <;> rcases hmet' with hmet' | ⟨-, rfl⟩
    · exact List.mem_append_right _ (hs.pairs k l r t hr ht hkl hsr hst htouch hmet hmet')
    · obtain rfl : p = t := Option.some.inj (hp.symm.trans ht)
      rw [Pair.ordered_comm]
      exact hnew hr hst hsr (r.mayTouch_comm p ▸ htouch) hmet
    · obtain rfl : p = r := Option.some.inj (hp.symm.trans hr)
      exact hnew ht hsr hst htouch hmet'
    · exact absurd rfl hkl

/-- An end takes out no extent of another shape. -/
theorem mem_remove_of_ne (hreachable : s.active.Reachable IntervalEntry.IsKeyed)
    (hkeys : (entryOf p i).IsKeyed) (hij : j ≠ i) (hmem : entryOf q j ∈ s.active.toList) :
    entryOf q j ∈ (s.active.remove (entryOf p i)).1.toList := by
  have hbefore : entryOf q j ∈ s.active.bag := Multiset.mem_coe.mpr hmem
  apply Multiset.mem_coe.mp
  show entryOf q j ∈ (s.active.remove (entryOf p i)).1.bag
  rcases (hreachable.bagStep_remove hkeys).of_remove with
    ⟨-, f, hequal, hbag⟩ | ⟨-, hbag, -⟩
  · have hvalue : i = f.value := by
      simp only [IntervalEntry.order, Ordering.then_eq_eq, Nat.compare_eq_eq] at hequal
      exact hequal.2.2
    rw [hbag, Multiset.mem_cons] at hbefore
    rcases hbefore with rfl | hrest
    · exact absurd hvalue.symm hij
    · exact hrest
  · exact hbag ▸ hbefore

theorem Covers.stop (hs : Covers shapes pre s) (hkeys : (entryOf p i).IsKeyed)
    (hp : shapes[i]? = some p) :
    Covers shapes (pre ++ [EdgeEvent.meeting p i .stop])
      (step shapes s (EdgeEvent.meeting p i .stop)) := by
  have hedge : ¬ (EdgeEvent.meeting p i .stop).edge = .start := Edge.noConfusion
  rw [step_stop hp]
  constructor
  · exact hs.reachable.remove hkeys
  · intro k r hr hmet hleft
    simp only [EdgeEvent.met_concat, hedge, false_and, or_false] at hmet
    rw [EdgeEvent.met_concat] at hleft
    have hki : k ≠ i := fun heq => hleft (.inr ⟨rfl, heq.symm⟩)
    exact mem_remove_of_ne hs.reachable hkeys hki
      (hs.active k r hr hmet fun hstop => hleft (.inl hstop))
  · simp only [EdgeEvent.met_concat, hedge, false_and, or_false]
    exact hs.pairs

theorem covers_run (hkeys : ∀ p ∈ shapes, IsKey p.aabb.bottom ∧ IsKey p.aabb.top)
    (hsplit : EdgeEvent.ofShapes shapes = pre ++ post) : Covers shapes pre (run shapes pre) := by
  induction pre using List.reverseRecOn generalizing post with
  | nil => exact covers_nil shapes
  | append_singleton pre e ih =>
    rw [List.append_assoc, List.singleton_append] at hsplit
    have hs := ih hsplit
    obtain ⟨p, hp, he⟩ := EdgeEvent.mem_ofShapes.mp
      (hsplit ▸ List.mem_append_right _ (List.mem_cons_self ..) : e ∈ EdgeEvent.ofShapes shapes)
    obtain ⟨hbottom, htop⟩ := hkeys p (Array.mem_of_getElem? hp)
    rw [he] at hsplit ⊢
    rw [run_concat]
    generalize e.edge = edge at hsplit ⊢
    cases edge with
    | start => exact hs.start ⟨hbottom, htop⟩ hp hsplit
    | stop => exact hs.stop ⟨hbottom, htop⟩ hp

end SweepState

/-- The sweep finds each pair of boxes that overlap and have their edges in order, whatever other
boxes there are. -/
theorem mem_intervalSweep [LawfulScalar α] {shapes : Array (Proxy α)} {p q : Proxy α} {i j : Nat}
    (hkeys : ∀ p ∈ shapes, IsKey p.aabb.bottom ∧ IsKey p.aabb.top) (hp : shapes[i]? = some p)
    (hq : shapes[j]? = some q) (hij : i ≠ j) (hsp : p.aabb.IsSweepable) (hsq : q.aabb.IsSweepable)
    (htouch : p.mayTouch q = true) : Pair.ordered i j ∈ intervalSweep shapes := by
  have hrun := SweepState.covers_run hkeys (List.append_nil (EdgeEvent.ofShapes shapes)).symm
  rw [intervalSweep, Pair.sort, (List.mergeSort_perm _ _).mem_iff]
  exact hrun.pairs i j p q hp hq hij hsp hsq htouch (EdgeEvent.met_ofShapes hp .start)
    (EdgeEvent.met_ofShapes hq .start)

end Candidates

end PlanarDynamics
