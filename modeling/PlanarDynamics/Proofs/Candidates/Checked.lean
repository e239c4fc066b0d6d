import PlanarDynamics.Proofs.Candidates.Ascending
import PlanarDynamics.Proofs.IntervalTree.Checked
import PlanarDynamics.Proofs.PointIndex.Checked

/-!
# Strategies that check their accesses

The searches for pairs without a result where they would look at a position that the list of shapes
does not have, or where the structure that they keep would leave its own arrays. On any shapes each
strategy has a result, and it is that of the search without checks.
-/

namespace PlanarDynamics

theorem mapM_eq_some {β γ : Type} {f : β → γ} {f? : β → Option γ} {l : List β}
    (h : ∀ x ∈ l, f? x = some (f x)) : l.mapM f? = some (l.map f) := by
  induction l with
  | nil => rfl
  | cons x l ih =>
    rw [List.forall_mem_cons] at h
    rw [List.mapM_cons, h.1, ih h.2]
    rfl

/-- A fold has a result if, where an invariant holds, each step has one and keeps it. -/
theorem foldlM_eq_some {β γ : Type} {f : β → γ → β} {f? : β → γ → Option β} {P : β → Prop}
    {l : List γ} (h : ∀ x ∈ l, ∀ b, P b → f? b x = some (f b x) ∧ P (f b x)) {b : β} (hb : P b) :
    l.foldlM f? b = some (l.foldl f b) := by
  induction l generalizing b with
  | nil => rfl
  | cons x l ih =>
    rw [List.forall_mem_cons] at h
    obtain ⟨heq, hnext⟩ := h.1 b hb
    rw [List.foldlM_cons, heq]
    exact ih h.2 hnext

namespace Candidates

variable {α : Type} [Scalar α] {shapes : Array (Proxy α)}

/-- Sorts by left edge, then scans. The positions in the new order have to be those of shapes. -/
def sortedSweep? (shapes : Array (Proxy α)) : Option (List Pair) :=
  let order := shapes.toList.zipIdx.mergeSort fun p q => (leftOrder p q).isLE
  if ∀ q ∈ order, q.2 < shapes.size then some (Pair.sort (scan order)) else none

theorem sortedSweep?_eq (shapes : Array (Proxy α)) :
    sortedSweep? shapes = some (sortedSweep shapes) := by
  refine if_pos fun q hq => ?_
  have hmem : q ∈ shapes.toList.zipIdx := (List.mergeSort_perm ..).mem_iff.mp hq
  exact (List.snd_lt_of_mem_zipIdx hmem).trans_eq (by simp)

/-! ## Index queries -/

/-- The candidates of one shape among those at the reported positions, which have to be those of
shapes. -/
def pairsOf? (shapes : Array (Proxy α)) (i : Nat) (p : Proxy α) (reported : List Nat) :
    Option (List Pair) :=
  if ∀ j ∈ reported, j < shapes.size then some (pairsOf shapes i p reported) else none

/-- Asks an index once per shape. -/
def indexQuery? {ι : Type} (build? : List (Vec α) → List Nat → Except LengthMismatch (Option ι))
    (query? : ι → Rect α → Option (List Nat)) (shapes : Array (Proxy α)) : Option (List Pair) :=
  let corners := shapes.toList.map fun p => p.aabb.minCorner
  match build? corners (List.range shapes.size) with
  | .error _ => some []
  | .ok none => none
  | .ok (some index) => do
    let extent := largestExtent shapes
    let found ← shapes.toList.zipIdx.mapM fun (p, i) => do
      let reported ← query? index (cornerRange p.aabb extent)
      pairsOf? shapes i p reported
    return Pair.sort found.flatten

theorem indexQuery?_eq (ι : Type → Type) [PointIndex ι α]
    {build? : List (Vec α) → List Nat → Except LengthMismatch (Option (ι Nat))}
    {query? : ι Nat → Rect α → Option (List Nat)}
    (hbuild : ∀ points values, build? points values = (PointIndex.build points values).map some)
    (hquery : ∀ index r, query? index r = some (PointIndex.query index r))
    (honce : ReportsOnce ι (shapes.toList.map fun p => p.aabb.minCorner)
      (List.range shapes.size)) :
    indexQuery? build? query? shapes = some (indexQuery ι shapes) := by
  unfold indexQuery? indexQuery
  simp only [hbuild]
  cases hindex : (PointIndex.build (shapes.toList.map fun p => p.aabb.minCorner)
      (List.range shapes.size) : Except LengthMismatch (ι Nat)) with
  | error e => rfl
  | ok index =>
    have hpairs : ∀ x ∈ shapes.toList.zipIdx,
        (query? index (cornerRange x.1.aabb (largestExtent shapes))).bind
          (fun reported => pairsOf? shapes x.2 x.1 reported) = some (pairsOf shapes x.2 x.1
            (PointIndex.query index (cornerRange x.1.aabb (largestExtent shapes)))) := by
      intro x _
      rw [hquery]
      exact if_pos fun j hj => List.mem_range.mp ((honce index hindex _).subset hj)
    simp only [Except.map, Option.bind_eq_bind, mapM_eq_some hpairs, Option.bind_some,
      List.flatMap_def]
    rfl

/-! ## The interval sweep -/

namespace SweepState

/-- One event. Its shape and those that are active have to be in the list. -/
def step? (shapes : Array (Proxy α)) (s : SweepState α) (event : EdgeEvent α) :
    Option (SweepState α) := do
  let e ← extent shapes event.shape
  match event.edge with
  | .start =>
    let found ← s.active.searchAll? e.low e.high
    if ∀ j ∈ found, j < shapes.size then
      let active ← s.active.insert? e
      let hits := found.filter (oneMoves shapes event.shape)
      return ⟨active, hits.map (Pair.ordered event.shape) ++ s.pairs⟩
    else
      none
  | .stop =>
    let (active, _) ← s.active.remove? e
    return { s with active }

/-- The state after a list of events. -/
def run? (shapes : Array (Proxy α)) (events : List (EdgeEvent α)) : Option (SweepState α) :=
  events.foldlM (step? shapes) ⟨.withCapacity shapes.size, []⟩

/-- What the sweep needs to stay inside: a tree that calls lead to, with positions of shapes. -/
structure Inside (shapes : Array (Proxy α)) (s : SweepState α) : Prop where
  reachable : s.active.Reachable fun _ => True
  lt_size : ∀ e ∈ s.active.toList, e.value < shapes.size

theorem step?_eq {s : SweepState α} (hs : Inside shapes s) {event : EdgeEvent α}
    (hevent : event ∈ EdgeEvent.ofShapes shapes) :
    step? shapes s event = some (step shapes s event) ∧ Inside shapes (step shapes s event) := by
  obtain ⟨p, hp, -⟩ := EdgeEvent.mem_ofShapes.mp hevent
  have hlt : event.shape < shapes.size := (Array.getElem?_eq_some_iff.mp hp).1
  have hextent : extent shapes event.shape = some (entryOf p event.shape) := by
    rw [extent, hp]
    rfl
  obtain ⟨hinsert, hremove⟩ := hs.reachable.checked (entryOf p event.shape)
  unfold step? step
  simp only [hextent, Option.bind_eq_bind, Option.bind_some]
  cases event.edge with
  | start =>
    have hfound : ∀ j ∈ s.active.searchAll (entryOf p event.shape).low (entryOf p event.shape).high,
        j < shapes.size := by
      intro j hj
      obtain ⟨e, he, rfl⟩ := List.mem_map.mp ((hs.reachable.searchAll_subperm _ _).subset hj)
      exact hs.lt_size e he
    simp only [hs.reachable.searchAll?, Option.bind_some, if_pos hfound, hinsert]
    refine ⟨rfl, hs.reachable.insert trivial, fun e he => ?_⟩
    rcases List.mem_cons.mp ((hs.reachable.toList_insert _).mem_iff.mp he) with rfl | he
    · exact hlt
    · exact hs.lt_size e he
  | stop =>
    simp only [hremove, Option.bind_some]
    exact ⟨rfl, hs.reachable.remove trivial,
      fun e he => hs.lt_size e ((hs.reachable.toList_remove _).subset he)⟩

theorem run?_eq (shapes : Array (Proxy α)) : run? shapes (EdgeEvent.ofShapes shapes) =
    some (run shapes (EdgeEvent.ofShapes shapes)) :=
  foldlM_eq_some (P := Inside shapes) (fun _ hevent _ hs => step?_eq hs hevent)
    ⟨.withCapacity _, fun _ he => absurd he List.not_mem_nil⟩

end SweepState

/-- Sweeps over all edges. -/
def intervalSweep? (shapes : Array (Proxy α)) : Option (List Pair) := do
  let s ← SweepState.run? shapes (EdgeEvent.ofShapes shapes)
  return Pair.sort s.pairs

theorem intervalSweep?_eq (shapes : Array (Proxy α)) :
    intervalSweep? shapes = some (intervalSweep shapes) := by
  rw [intervalSweep?, SweepState.run?_eq]
  rfl

end Candidates

namespace Strategy

variable {α : Type} [Scalar α]

/-- The candidate pairs that a strategy finds, in ascending order. The plain search looks up no
position. -/
def pairs? (strategy : Strategy) (shapes : Array (Proxy α)) : Option (List Pair) :=
  match strategy with
  | allPairs => some (Candidates.allPairs shapes)
  | sortedSweep => Candidates.sortedSweep? shapes
  | intervalSweep => Candidates.intervalSweep? shapes
  | kdTree => Candidates.indexQuery? (KdTree.buildWith? .bySorting) KdTree.query? shapes
  | rangeTree =>
    Candidates.indexQuery? RangeTree.build? (fun index r => some (index.query r)) shapes

/-- No strategy reads past an end, whatever the bounds of the shapes are. -/
theorem pairs?_eq [LawfulScalar α] (strategy : Strategy) (shapes : Array (Proxy α)) :
    strategy.pairs? shapes = some (strategy.pairs shapes) := by
  cases strategy with
  | allPairs => rfl
  | sortedSweep => exact Candidates.sortedSweep?_eq shapes
  | intervalSweep => exact Candidates.intervalSweep?_eq shapes
  | kdTree =>
    exact Candidates.indexQuery?_eq (KdTree α) (KdTree.buildWith?_eq .bySorting) KdTree.query?_eq
      (KdTree.reportsOnce .bySorting _ _)
  | rangeTree =>
    exact Candidates.indexQuery?_eq (RangeTree α) RangeTree.build?_eq (fun _ _ => rfl)
      (RangeTree.reportsOnce _ _)

end Strategy

end PlanarDynamics
