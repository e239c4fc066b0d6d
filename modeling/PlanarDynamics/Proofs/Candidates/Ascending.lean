import PlanarDynamics.Proofs.Candidates.IndexQuery
import PlanarDynamics.Proofs.Candidates.IntervalSweep
import PlanarDynamics.Proofs.Candidates.SortedSweep
import PlanarDynamics.Proofs.PointIndex.Once

/-!
# What every list of candidates keeps to

Whatever the bounds of the shapes are, a strategy lists pairs of different positions in strictly
ascending order, the lower position first, and never two shapes that both do not move. On bounds
that are no proper boxes the strategies may disagree on the pairs, and the interval sweep may leave
extents of shapes behind it in its tree. That no pair comes twice is due to the way each search goes
about: a scan looks at every two places of a list once, an index reports a position once, and a
shape enters the tree of the sweep once.
-/

namespace PlanarDynamics

theorem nodup_of_subperm {β : Type} {l m : List β} (hm : m.Nodup) (h : l.Subperm m) :
    l.Nodup := by
  obtain ⟨k, hperm, hsub⟩ := h
  exact hperm.nodup_iff.mp (hm.sublist hsub)

theorem Pair.pairwise_lt_sort {pairs : List Pair} (h : pairs.Nodup) :
    (sort pairs).Pairwise Lt := by
  have hnodup : (sort pairs).Pairwise (· ≠ ·) := (List.mergeSort_perm pairs le).nodup_iff.mpr h
  refine ((pairwise_sort pairs).and hnodup).imp ?_
  rintro ⟨i, j⟩ ⟨k, l⟩ ⟨hle, hne⟩
  rw [le_iff] at hle
  rw [Ne, Prod.mk.injEq] at hne
  unfold Lt
  omega

theorem Pair.ordered_eq {i j a b : Nat} (hij : i ≠ j) (h : ordered i j = (a, b)) :
    a < b ∧ (a = i ∧ b = j ∨ a = j ∧ b = i) := by
  unfold ordered at h
  split at h <;> obtain ⟨rfl, rfl⟩ := Prod.mk.inj h <;> omega

namespace Candidates

variable {α : Type}

section OneMoves

variable {shapes : Array (Proxy α)} {i j : Nat}

theorem oneMoves_iff : oneMoves shapes i j = true ↔
    ∃ p q, shapes[i]? = some p ∧ shapes[j]? = some q ∧ p.bothStatic q = false := by
  unfold oneMoves
  cases shapes[i]? <;> cases shapes[j]? <;> simp

theorem oneMoves_comm : oneMoves shapes i j = oneMoves shapes j i := by
  unfold oneMoves Proxy.bothStatic
  cases shapes[i]? <;> cases shapes[j]? <;> simp [Bool.and_comm]

theorem lt_size_of_oneMoves (h : oneMoves shapes i j = true) : j < shapes.size := by
  obtain ⟨-, q, -, hq, -⟩ := oneMoves_iff.mp h
  exact (Array.getElem?_eq_some_iff.mp hq).1

theorem MayTouch.oneMoves [Scalar α] (h : MayTouch shapes i j) : oneMoves shapes i j = true := by
  obtain ⟨p, q, hp, hq, htouch⟩ := h
  rw [Proxy.mayTouch, Bool.and_eq_true, Bool.not_eq_true'] at htouch
  exact oneMoves_iff.mpr ⟨p, q, hp, hq, htouch.1⟩

end OneMoves

/-- The pairs ascend strictly, and each is of two positions in order of which one's shape moves. -/
structure Ascending (shapes : Array (Proxy α)) (pairs : List Pair) : Prop where
  pairwise : pairs.Pairwise Pair.Lt
  mem : ∀ i j, (i, j) ∈ pairs → i < j ∧ oneMoves shapes i j = true

variable {shapes : Array (Proxy α)}

/-- Sorting is all it takes if no pair comes twice. -/
theorem Ascending.of_nodup {pairs : List Pair} (hnodup : pairs.Nodup)
    (hmem : ∀ i j, (i, j) ∈ pairs → i < j ∧ oneMoves shapes i j = true) :
    Ascending shapes (Pair.sort pairs) where
  pairwise := Pair.pairwise_lt_sort hnodup
  mem i j hij := hmem i j ((List.mergeSort_perm pairs Pair.le).mem_iff.mp hij)

variable [Scalar α]

theorem ascending_allPairs (shapes : Array (Proxy α)) : Ascending shapes (allPairs shapes) where
  pairwise := pairwise_allPairs shapes
  mem i j hij := ((mem_allPairs shapes i j).mp hij).imp_right MayTouch.oneMoves

/-! ## The sorted sweep -/

theorem scan_sublist (l : List (Proxy α × Nat)) :
    (scan l).Sublist ((pairsWithin l).map (Function.uncurry Pair.ordered)) := by
  induction l with
  | nil => exact .slnil
  | cons p rest ih =>
    obtain ⟨p, i⟩ := p
    rw [scan, pairsWithin, List.map_append, List.map_map]
    exact (((List.takeWhile_sublist _).filter _).map _).append ih

/-- A scan finds some of the pairs of the plain search, in whatever order it goes through the
shapes. -/
theorem scan_subperm {l : List (Proxy α × Nat)} (h : l.Perm shapes.toList.zipIdx) :
    (scan l).Subperm (allPairs shapes) := by
  refine (scan_sublist l).subperm.trans ((perm_ordered_pairsWithin h).trans (.of_eq ?_)).subperm
  exact map_ordered_allPairs shapes

theorem ascending_sortedSweep (shapes : Array (Proxy α)) :
    Ascending shapes (sortedSweep shapes) := by
  have hscan := scan_subperm
    (List.mergeSort_perm shapes.toList.zipIdx fun p q => (leftOrder p q).isLE)
  have hall := ascending_allPairs shapes
  exact .of_nodup (nodup_of_subperm (hall.pairwise.imp Pair.ne_of_lt) hscan)
    fun i j hij => hall.mem i j (hscan.subset hij)

/-! ## Index queries -/

theorem ascending_indexQuery (ι : Type → Type) [PointIndex ι α]
    (hindex : ReportsOnce ι (shapes.toList.map fun p => p.aabb.minCorner)
      (List.range shapes.size)) : Ascending shapes (indexQuery ι shapes) := by
  cases hbuild : (PointIndex.build (shapes.toList.map fun p => p.aabb.minCorner)
      (List.range shapes.size) : Except LengthMismatch (ι Nat)) with
  | error _ =>
    simp only [indexQuery, hbuild]
    exact ⟨.nil, fun _ _ hij => absurd hij List.not_mem_nil⟩
  | ok index =>
    simp only [indexQuery, hbuild]
    apply Ascending.of_nodup
    · refine nodup_flatMap_pairsOf (fun p =>
        PointIndex.query index (cornerRange p.aabb (largestExtent shapes))) ?_
      exact fun p _ => nodup_of_subperm List.nodup_range (hindex index hbuild _)
    · intro i j hij
      obtain ⟨⟨p, k⟩, hp, hpair⟩ := List.mem_flatMap.mp hij
      rw [List.mk_mem_zipIdx_iff_getElem?, Array.getElem?_toList] at hp
      obtain ⟨rfl, -, hlt, q, hq, htouch⟩ := mem_pairsOf.mp hpair
      exact ⟨hlt, MayTouch.oneMoves ⟨p, q, hp, hq, htouch⟩⟩

/-- Two kinds of indices that report the same positions, in any order, lead to the same pairs. -/
theorem indexQuery_congr {ι κ : Type → Type} [PointIndex ι α] [PointIndex κ α]
    {x : ι Nat} {y : κ Nat}
    (hx : PointIndex.build (shapes.toList.map fun p => p.aabb.minCorner)
      (List.range shapes.size) = .ok x)
    (hy : PointIndex.build (shapes.toList.map fun p => p.aabb.minCorner)
      (List.range shapes.size) = .ok y)
    (h : ∀ r : Rect α, (PointIndex.query x r).Perm (PointIndex.query y r)) :
    indexQuery ι shapes = indexQuery κ shapes := by
  simp only [indexQuery, hx, hy]
  apply Pair.sort_congr
  exact List.Perm.flatMap_left _ fun p _ => (h _).filterMap _

/-- The pairs that an arrangement of the k-d tree leads to are those of any other one. -/
theorem indexQuery_kdTree_eq [LawfulScalar α] (s t : Selection) :
    @indexQuery α _ (KdTree α) ⟨KdTree.buildWith s, KdTree.query⟩ shapes =
      @indexQuery α _ (KdTree α) ⟨KdTree.buildWith t, KdTree.query⟩ shapes := by
  have hx := map_pairPoints (@length_corners _ shapes) fun items =>
    (⟨(KdTree.arrange s 0 items).toArray⟩ : KdTree α Nat)
  have hy := map_pairPoints (@length_corners _ shapes) fun items =>
    (⟨(KdTree.arrange t 0 items).toArray⟩ : KdTree α Nat)
  exact @indexQuery_congr _ _ _ _ _ ⟨KdTree.buildWith s, KdTree.query⟩
    ⟨KdTree.buildWith t, KdTree.query⟩ _ _ hx hy fun r =>
      (KdTree.query_perm s hx r).trans (KdTree.query_perm t hy r).symm

/-! ## The interval sweep -/

namespace SweepState

/-- What holds of the sweep between two events, whatever the extents are: only shapes that the line
has reached are active or in pairs, none of them is active twice, and no pair comes twice. -/
structure Unrepeated (shapes : Array (Proxy α)) (met : List (EdgeEvent α)) (s : SweepState α) :
    Prop where
  reachable : s.active.Reachable fun _ => True
  nodup_active : (s.active.toList.map (·.value)).Nodup
  met_active : ∀ e ∈ s.active.toList, EdgeEvent.Met met .start e.value
  nodup_pairs : s.pairs.Nodup
  mem_pairs : ∀ i j, (i, j) ∈ s.pairs → (i < j ∧ oneMoves shapes i j = true) ∧
    EdgeEvent.Met met .start i ∧ EdgeEvent.Met met .start j

variable {s : SweepState α} {pre post : List (EdgeEvent α)} {p : Proxy α} {i : Nat}

theorem unrepeated_nil (shapes : Array (Proxy α)) :
    Unrepeated shapes [] ⟨.withCapacity shapes.size, []⟩ where
  reachable := .withCapacity _
  nodup_active := List.nodup_nil
  met_active _ he := absurd he List.not_mem_nil
  nodup_pairs := List.nodup_nil
  mem_pairs _ _ hij := absurd hij List.not_mem_nil

section Start

variable (hs : Unrepeated shapes pre s) (low high : α)

include hs

theorem Unrepeated.nodup_found :
    ((s.active.searchAll low high).filter (oneMoves shapes i)).Nodup :=
  (nodup_of_subperm hs.nodup_active (hs.reachable.searchAll_subperm low high)).filter _

theorem Unrepeated.met_found {j : Nat}
    (hj : j ∈ (s.active.searchAll low high).filter (oneMoves shapes i)) :
    EdgeEvent.Met pre .start j ∧ oneMoves shapes i j = true := by
  obtain ⟨hmem, hmoves⟩ := List.mem_filter.mp hj
  obtain ⟨e, he, rfl⟩ := List.mem_map.mp ((hs.reachable.searchAll_subperm low high).subset hmem)
  exact ⟨hs.met_active e he, hmoves⟩

/-- A pair of a shape that is just reached is in order and has a shape reached before in it. -/
theorem Unrepeated.mem_map_found (hnew : ¬ EdgeEvent.Met pre .start i) {a b : Nat}
    (hab : (a, b) ∈ ((s.active.searchAll low high).filter (oneMoves shapes i)).map
      (Pair.ordered i)) : (a < b ∧ oneMoves shapes a b = true) ∧
        (a = i ∧ EdgeEvent.Met pre .start b ∨ EdgeEvent.Met pre .start a ∧ b = i) := by
  obtain ⟨j, hj, hpair⟩ := List.mem_map.mp hab
  obtain ⟨hmet, hmoves⟩ := hs.met_found low high hj
  have hij : i ≠ j := fun h => hnew (h ▸ hmet)
  obtain ⟨hlt, ⟨rfl, rfl⟩ | ⟨rfl, rfl⟩⟩ := Pair.ordered_eq hij hpair
  · exact ⟨⟨hlt, hmoves⟩, .inl ⟨rfl, hmet⟩⟩
  · exact ⟨⟨hlt, oneMoves_comm.trans hmoves⟩, .inr ⟨hmet, rfl⟩⟩

theorem unrepeated_start (hp : shapes[i]? = some p) (hnew : ¬ EdgeEvent.Met pre .start i) :
    Unrepeated shapes (pre ++ [EdgeEvent.meeting p i .start])
      (step shapes s (EdgeEvent.meeting p i .start)) := by
  have hinsert := hs.reachable.toList_insert (entryOf p i)
  rw [step_start hp]
  constructor
  · exact hs.reachable.insert trivial
  · rw [(hinsert.map _).nodup_iff, List.map_cons, List.nodup_cons]
    refine ⟨fun hmem => hnew ?_, hs.nodup_active⟩
    obtain ⟨e, he, hvalue⟩ := List.mem_map.mp hmem
    exact (show e.value = i from hvalue) ▸ hs.met_active e he
  · intro e he
    rw [EdgeEvent.met_concat]
    rcases List.mem_cons.mp (hinsert.mem_iff.mp he) with rfl | he
    · exact .inr ⟨rfl, rfl⟩
    · exact .inl (hs.met_active e he)
  · rw [List.nodup_append]
    refine ⟨(hs.nodup_found _ _).map (Pair.ordered_injective i), hs.nodup_pairs, ?_⟩
    rintro ⟨a, b⟩ hab x hx rfl
    obtain ⟨-, hmet_a, hmet_b⟩ := hs.mem_pairs a b hx
    obtain ⟨-, ⟨rfl, -⟩ | ⟨-, rfl⟩⟩ := hs.mem_map_found _ _ hnew hab
    · exact hnew hmet_a
    · exact hnew hmet_b
  · intro a b hab
    rw [EdgeEvent.met_concat, EdgeEvent.met_concat]
    rcases List.mem_append.mp hab with hab | hab
    · obtain ⟨hpair, ⟨rfl, hmet⟩ | ⟨hmet, rfl⟩⟩ := hs.mem_map_found _ _ hnew hab
      · exact ⟨hpair, .inr ⟨rfl, rfl⟩, .inl hmet⟩
      · exact ⟨hpair, .inl hmet, .inr ⟨rfl, rfl⟩⟩
    · obtain ⟨hpair, ha, hb⟩ := hs.mem_pairs a b hab
      exact ⟨hpair, .inl ha, .inl hb⟩

end Start

theorem unrepeated_stop (hs : Unrepeated shapes pre s) (hp : shapes[i]? = some p) :
    Unrepeated shapes (pre ++ [EdgeEvent.meeting p i .stop])
      (step shapes s (EdgeEvent.meeting p i .stop)) := by
  have hremove := hs.reachable.toList_remove (entryOf p i)
  have hmet {j : Nat} (hj : EdgeEvent.Met pre .start j) :
      EdgeEvent.Met (pre ++ [EdgeEvent.meeting p i .stop]) .start j :=
    EdgeEvent.met_concat.mpr (.inl hj)
  rw [step_stop hp]
  constructor
  · exact hs.reachable.remove trivial
  · exact hs.nodup_active.sublist (hremove.map _)
  · exact fun e he => hmet (hs.met_active e (hremove.subset he))
  · exact hs.nodup_pairs
  · intro a b hab
    obtain ⟨hpair, ha, hb⟩ := hs.mem_pairs a b hab
    exact ⟨hpair, hmet ha, hmet hb⟩

theorem unrepeated_run (hsplit : EdgeEvent.ofShapes shapes = pre ++ post) :
    Unrepeated shapes pre (run shapes pre) := by
  induction pre using List.reverseRecOn generalizing post with
  | nil => exact unrepeated_nil shapes
  | append_singleton pre e ih =>
    rw [List.append_assoc, List.singleton_append] at hsplit
    have hs := ih hsplit
    obtain ⟨p, hp, he⟩ := EdgeEvent.mem_ofShapes.mp
      (hsplit ▸ List.mem_append_right _ (List.mem_cons_self ..) : e ∈ EdgeEvent.ofShapes shapes)
    rw [he] at hsplit ⊢
    rw [run_concat]
    generalize e.edge = edge at hsplit ⊢
    cases edge with
    | start => exact unrepeated_start hs hp (EdgeEvent.not_met_self hp hsplit)
    | stop => exact unrepeated_stop hs hp

end SweepState

theorem ascending_intervalSweep (shapes : Array (Proxy α)) :
    Ascending shapes (intervalSweep shapes) := by
  have hrun := SweepState.unrepeated_run (List.append_nil (EdgeEvent.ofShapes shapes)).symm
  exact .of_nodup hrun.nodup_pairs fun i j hij => (hrun.mem_pairs i j hij).1

/-! ## All strategies -/

theorem ascending_pairs [LawfulScalar α] (strategy : Strategy) (shapes : Array (Proxy α)) :
    Ascending shapes (strategy.pairs shapes) := by
  cases strategy with
  | allPairs => exact ascending_allPairs shapes
  | sortedSweep => exact ascending_sortedSweep shapes
  | intervalSweep => exact ascending_intervalSweep shapes
  | kdTree => exact ascending_indexQuery _ (KdTree.reportsOnce .bySorting _ _)
  | rangeTree => exact ascending_indexQuery _ (RangeTree.reportsOnce _ _)

/-- On any bounds, be their edges numbers and in order or not, every strategy lists pairs in
strictly ascending order. A pair is of two different positions of the list, the lower one first,
and one of its shapes moves. The pairs of the k-d tree are the same whichever routine arranges
it. -/
theorem pairs_strictly_ascending (shapes : Array (Proxy Float32)) :
    (∀ strategy : Strategy, (strategy.pairs shapes).Pairwise Pair.Lt ∧
      ∀ i j, (i, j) ∈ strategy.pairs shapes → i < j ∧ j < shapes.size ∧
        ∃ p q, shapes[i]? = some p ∧ shapes[j]? = some q ∧ p.bothStatic q = false) ∧
    ∀ s : Selection, @indexQuery Float32 _ (KdTree Float32) ⟨KdTree.buildWith s, KdTree.query⟩
      shapes = Strategy.kdTree.pairs shapes := by
  refine ⟨fun strategy => ?_, fun s => indexQuery_kdTree_eq s .bySorting⟩
  have hpairs := ascending_pairs strategy shapes
  refine ⟨hpairs.pairwise, fun i j hij => ?_⟩
  obtain ⟨hlt, hmoves⟩ := hpairs.mem i j hij
  exact ⟨hlt, lt_size_of_oneMoves hmoves, oneMoves_iff.mp hmoves⟩

end Candidates

end PlanarDynamics
