import Mathlib.Data.List.Perm.Basic
import PlanarDynamics.Candidates.IntervalSweep
import PlanarDynamics.Proofs.Candidates.AllPairs
import PlanarDynamics.Proofs.LawfulScalar

/-!
# The order of events

The line meets every edge once, and no two events share a place in the order. So what it has met
before an event is what the order puts before that event.
-/

namespace PlanarDynamics

theorem IntervalEntry.compareKeys_then_lt {K : Type} [LT K] [DecidableLT K] {a b : K}
    {o : Ordering} :
    (compareKeys a b).then o = .lt ↔ a < b ∨ ¬ b < a ∧ o = .lt := by
  unfold compareKeys
  split
  · simp [*]
  · split <;> simp [*]

/-- The edge at which the line reaches a box, or leaves it. -/
def Aabb.side {α : Type} (a : Aabb α) : Candidates.Edge → α
  | .start => a.left
  | .stop => a.right

/-- The edges on the left and on the right are numbers in order, the other two are numbers. -/
structure Aabb.IsSweepable {α : Type} [Scalar α] (a : Aabb α) : Prop where
  left_le_right : a.left ≤ a.right
  bottom : IsKey a.bottom
  top : IsKey a.top

namespace Candidates.EdgeEvent

variable {α : Type}

/-- An edge of the shape at a position is among the events. -/
def Met (events : List (EdgeEvent α)) (edge : Edge) (i : Nat) : Prop :=
  ∃ e ∈ events, e.edge = edge ∧ e.shape = i

theorem met_concat {events : List (EdgeEvent α)} {e : EdgeEvent α} {edge : Edge} {i : Nat} :
    Met (events ++ [e]) edge i ↔ Met events edge i ∨ e.edge = edge ∧ e.shape = i := by
  simp only [Met, List.mem_append, List.mem_singleton, or_and_right, exists_or, exists_eq_left]

variable [Scalar α]

/-- The event of an edge of a shape. -/
def meeting (p : Proxy α) (i : Nat) (edge : Edge) : EdgeEvent α :=
  ⟨p.aabb.side edge + 0, edge, i⟩

instance : Std.TransCmp (order : EdgeEvent α → EdgeEvent α → Ordering) := by
  have hx := transCmp_comap Scalar.totalCmp fun e : EdgeEvent α => e.x
  have hedge := transCmp_comap compare fun e : EdgeEvent α => e.edge.rank
  have hshape := transCmp_comap compare fun e : EdgeEvent α => e.shape
  exact inferInstanceAs <| Std.TransCmp <|
    compareLex (fun e f : EdgeEvent α => Scalar.totalCmp e.x f.x) <|
      compareLex (fun e f : EdgeEvent α => compare e.edge.rank f.edge.rank)
        fun e f : EdgeEvent α => compare e.shape f.shape

theorem order_self (e : EdgeEvent α) : order e e = .eq := Std.ReflCmp.compare_self

theorem eq_of_order_eq {e f : EdgeEvent α} (h : order e f = .eq) :
    e.edge = f.edge ∧ e.shape = f.shape := by
  simp only [order, Ordering.then_eq_eq, Nat.compare_eq_eq] at h
  obtain ⟨-, hrank, hshape⟩ := h
  refine ⟨?_, hshape⟩
  cases he : e.edge <;> cases hf : f.edge <;> simp_all [Edge.rank]

variable {shapes : Array (Proxy α)}

theorem perm_ofShapes (shapes : Array (Proxy α)) :
    (ofShapes shapes).Perm (shapes.toList.zipIdx.flatMap ofShape) := List.mergeSort_perm ..

theorem mem_ofShapes {e : EdgeEvent α} :
    e ∈ ofShapes shapes ↔ ∃ p, shapes[e.shape]? = some p ∧ e = meeting p e.shape e.edge := by
  simp only [(perm_ofShapes shapes).mem_iff, List.mem_flatMap, Prod.exists,
    List.mk_mem_zipIdx_iff_getElem?, Array.getElem?_toList]
  constructor
  · rintro ⟨p, i, hp, he⟩
    rcases List.mem_pair.mp he with rfl | rfl
    · exact ⟨p, hp, rfl⟩
    · exact ⟨p, hp, rfl⟩
  · rintro ⟨p, hp, he⟩
    refine ⟨p, e.shape, hp, ?_⟩
    cases hedge : e.edge with
    | start =>
      rw [he, hedge]
      exact List.mem_cons_self ..
    | stop =>
      rw [he, hedge]
      exact List.mem_cons_of_mem _ (List.mem_singleton_self _)

theorem meeting_mem {p : Proxy α} {i : Nat} (hp : shapes[i]? = some p) (edge : Edge) :
    meeting p i edge ∈ ofShapes shapes := by
  cases edge <;> exact mem_ofShapes.mpr ⟨p, hp, rfl⟩

theorem met_ofShapes {p : Proxy α} {i : Nat} (hp : shapes[i]? = some p) (edge : Edge) :
    Met (ofShapes shapes) edge i := ⟨_, meeting_mem hp edge, rfl, rfl⟩

theorem shape_of_mem_ofShape {p : Proxy α × Nat} {e : EdgeEvent α} (h : e ∈ ofShape p) :
    e.shape = p.2 := by
  rcases List.mem_pair.mp h with rfl | rfl <;> rfl

/-- No edge is met twice. -/
theorem pairwise_ne_ofShapes (shapes : Array (Proxy α)) :
    (ofShapes shapes).Pairwise fun e f => (e.edge, e.shape) ≠ (f.edge, f.shape) := by
  rw [(perm_ofShapes shapes).pairwise_iff fun h => h.symm, List.pairwise_flatMap]
  constructor
  · rintro ⟨p, i⟩ -
    simp [ofShape]
  · refine (pairwise_zipIdx shapes.toList).imp ?_
    intro p q hlt e he f hf heq
    have hshape := congrArg Prod.snd heq
    rw [shape_of_mem_ofShape he, shape_of_mem_ofShape hf] at hshape
    exact hlt.ne hshape

/-- Every event comes strictly before all later ones. -/
theorem pairwise_ofShapes (shapes : Array (Proxy α)) :
    (ofShapes shapes).Pairwise fun e f => order e f = .lt := by
  have hsorted := pairwise_mergeSort (order (α := α)) (shapes.toList.zipIdx.flatMap ofShape)
  refine (hsorted.and (pairwise_ne_ofShapes shapes)).imp ?_
  rintro e f ⟨hle, hne⟩
  cases horder : order e f with
  | lt => rfl
  | eq =>
    obtain ⟨hedge, hshape⟩ := eq_of_order_eq horder
    exact absurd (Prod.ext hedge hshape) hne
  | gt =>
    rw [horder] at hle
    exact absurd hle (by decide)

variable {pre post : List (EdgeEvent α)} {e f : EdgeEvent α}

/-- What has been met before an event is what the order puts before it. -/
theorem mem_pre_iff (hsplit : ofShapes shapes = pre ++ e :: post) (hf : f ∈ ofShapes shapes) :
    f ∈ pre ↔ order f e = .lt := by
  have hsorted := pairwise_ofShapes shapes
  rw [hsplit, List.pairwise_append, List.pairwise_cons] at hsorted
  obtain ⟨-, ⟨hbehind, -⟩, hbefore⟩ := hsorted
  constructor
  · exact fun hpre => hbefore f hpre e (List.mem_cons_self ..)
  · intro hlt
    rw [hsplit, List.mem_append, List.mem_cons] at hf
    rcases hf with hpre | rfl | hpost
    · exact hpre
    · rw [order_self] at hlt
      exact absurd hlt (by decide)
    · have hswap : order f e = (order e f).swap := Std.OrientedCmp.eq_swap
      rw [hswap, hbehind f hpost] at hlt
      exact absurd hlt (by decide)

/-- The edges that have been met before an event are those that the order puts before it. -/
theorem met_iff (hsplit : ofShapes shapes = pre ++ e :: post) {p : Proxy α} {i : Nat}
    (hp : shapes[i]? = some p) (edge : Edge) :
    Met pre edge i ↔ order (meeting p i edge) e = .lt := by
  rw [← mem_pre_iff hsplit (meeting_mem hp edge)]
  constructor
  · rintro ⟨f, hf, rfl, rfl⟩
    have hmem : f ∈ ofShapes shapes := hsplit ▸ List.mem_append_left _ hf
    obtain ⟨q, hq, hfq⟩ := mem_ofShapes.mp hmem
    obtain rfl : p = q := Option.some.inj (hp.symm.trans hq)
    exact hfq ▸ hf
  · exact fun hmem => ⟨_, hmem, rfl, rfl⟩

theorem not_met_self {p : Proxy α} {i : Nat} {edge : Edge} (hp : shapes[i]? = some p)
    (hsplit : ofShapes shapes = pre ++ meeting p i edge :: post) : ¬ Met pre edge i := by
  rw [met_iff hsplit hp, order_self]
  decide

section Places

variable [LawfulScalar α] {p q : Proxy α} {i j : Nat}

theorem isKey_side (hp : p.aabb.IsSweepable) (edge : Edge) : IsKey (p.aabb.side edge) := by
  obtain ⟨hleft, hright⟩ := OrderedKeys.isKey_of_le hp.left_le_right
  cases edge
  · exact hleft
  · exact hright

theorem order_meeting (hq : q.aabb.IsSweepable) (hp : p.aabb.IsSweepable) (s t : Edge) :
    order (meeting q j s) (meeting p i t) = .lt ↔ q.aabb.side s < p.aabb.side t ∨
      ¬ p.aabb.side t < q.aabb.side s ∧
        (compare s.rank t.rank).then (compare j i) = .lt := by
  rw [order, meeting, meeting, LawfulScalar.totalCmp_add_zero (isKey_side hq s) (isKey_side hp t)]
  exact IntervalEntry.compareKeys_then_lt

/-- A shape is reached before another is left, unless it begins beyond the other's end. -/
theorem order_start_stop (hq : q.aabb.IsSweepable) (hp : p.aabb.IsSweepable) :
    order (meeting q j .start) (meeting p i .stop) = .lt ↔ ¬ p.aabb.right < q.aabb.left := by
  rw [order_meeting hq hp]
  show q.aabb.left < p.aabb.right ∨ ¬ p.aabb.right < q.aabb.left ∧ Ordering.lt = .lt ↔ _
  constructor
  · rintro (hlt | ⟨hge, -⟩)
    · exact OrderedKeys.not_lt_of_lt hlt
    · exact hge
  · exact fun hge => .inr ⟨hge, rfl⟩

/-- A shape is left before another is reached only if it ends before the other begins. -/
theorem order_stop_start (hq : q.aabb.IsSweepable) (hp : p.aabb.IsSweepable) :
    order (meeting q j .stop) (meeting p i .start) = .lt ↔ q.aabb.right < p.aabb.left := by
  rw [order_meeting hq hp]
  show q.aabb.right < p.aabb.left ∨ ¬ p.aabb.left < q.aabb.right ∧ Ordering.gt = .lt ↔ _
  simp

theorem not_left_lt_of_order (hq : q.aabb.IsSweepable) (hp : p.aabb.IsSweepable)
    (h : order (meeting q j .start) (meeting p i .start) = .lt) :
    ¬ p.aabb.left < q.aabb.left := by
  rcases (order_meeting hq hp .start .start).mp h with hlt | ⟨hge, -⟩
  · exact OrderedKeys.not_lt_of_lt hlt
  · exact hge

end Places

end Candidates.EdgeEvent

end PlanarDynamics
