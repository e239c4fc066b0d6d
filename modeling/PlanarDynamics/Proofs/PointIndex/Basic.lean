import PlanarDynamics.PointIndex.Basic
import PlanarDynamics.Proofs.LawfulScalar

/-!
# What a point index is to report
-/

namespace PlanarDynamics

theorem eq_of_map_pairPoints {α V β : Type} {points : List (Vec α)} {values : List V}
    {f : List (Vec α × V) → β} {b : β} (h : (pairPoints points values).map f = .ok b) :
    b = f (points.zip values) := by
  unfold pairPoints at h
  split at h
  · exact (Except.ok.inj h).symm
  · exact absurd h (by simp [Except.map])

theorem map_pairPoints {α V β : Type} {points : List (Vec α)} {values : List V}
    (h : points.length = values.length) (f : List (Vec α × V) → β) :
    (pairPoints points values).map f = .ok (f (points.zip values)) := by
  rw [pairPoints, if_pos h]
  rfl

variable {α V : Type} [Scalar α]

theorem Span.contains_iff {s : Span α} {v : α} :
    s.contains v = true ↔ s.start ≤ v ∧ v ≤ s.stop := by
  rw [Span.contains, Bool.and_eq_true, decide_eq_true_eq, decide_eq_true_eq]

/-- A span holds the values of each span in it. -/
theorem Span.contains_of_containsSpan [OrderedKeys α] {s t : Span α} {v : α}
    (h : s.containsSpan t = true) (hv : t.start ≤ v ∧ v ≤ t.stop) : s.contains v = true := by
  rw [Span.containsSpan, Bool.and_eq_true, decide_eq_true_eq, decide_eq_true_eq] at h
  rw [Span.contains_iff]
  exact ⟨OrderedKeys.le_trans h.1 hv.1, OrderedKeys.le_trans hv.2 h.2⟩

/-- Spans with a value in common intersect. -/
theorem Span.intersects_of_contains [OrderedKeys α] {s t : Span α} {v : α}
    (h : s.contains v = true) (hv : t.start ≤ v ∧ v ≤ t.stop) : s.intersects t = true := by
  rw [Span.contains_iff] at h
  rw [Span.intersects, Bool.and_eq_true, decide_eq_true_eq, decide_eq_true_eq]
  exact ⟨OrderedKeys.le_trans h.1 hv.2, OrderedKeys.le_trans hv.1 h.2⟩

/-- A span between two ends stops at a number only if it starts at one. -/
theorem Span.isKey_start_ofEnds [OrderedKeys α] {a b : α} (h : IsKey (ofEnds a b).stop) :
    IsKey (ofEnds a b).start := by
  unfold ofEnds Scalar.minNum Scalar.maxNum at *
  by_cases hba : b < a
  · simp only [hba, if_true]
    exact (OrderedKeys.lt_iff.mp hba).1
  · by_cases hab : a < b
    · obtain ⟨ha, hb, -⟩ := OrderedKeys.lt_iff.mp hab
      simp only [hba, if_false]
      split
      · exact ha
      · exact hb
    · simpa only [hba, hab, if_false] using h

theorem Rect.contains_iff {r : Rect α} {p : Vec α} :
    r.contains p = true ↔ r.x.contains p.x = true ∧ r.y.contains p.y = true := by
  rw [Rect.contains, Bool.and_eq_true]

/-- The values of the points in a rectangle. -/
def valuesIn (r : Rect α) (items : List (Vec α × V)) : List V :=
  (items.filter fun p => r.contains p.1).map Prod.snd

theorem valuesIn_eq_nil {r : Rect α} {items : List (Vec α × V)}
    (h : ∀ p ∈ items, r.contains p.1 = false) : valuesIn r items = [] := by
  rw [valuesIn, List.filter_eq_nil_iff.mpr, List.map_nil]
  intro p hp
  simp [h p hp]

theorem valuesIn_append (r : Rect α) (xs ys : List (Vec α × V)) :
    valuesIn r (xs ++ ys) = valuesIn r xs ++ valuesIn r ys := by
  simp only [valuesIn, List.filter_append, List.map_append]

theorem valuesIn_cons (r : Rect α) (p : Vec α × V) (items : List (Vec α × V)) :
    valuesIn r (p :: items) = (if r.contains p.1 then [p.2] else []) ++ valuesIn r items := by
  unfold valuesIn
  rw [List.filter_cons]
  split <;> rfl

theorem valuesIn_perm (r : Rect α) {xs ys : List (Vec α × V)} (h : xs.Perm ys) :
    (valuesIn r xs).Perm (valuesIn r ys) := (h.filter _).map _

theorem mem_valuesIn {r : Rect α} {items : List (Vec α × V)} {v : V} :
    v ∈ valuesIn r items ↔ ∃ p, (p, v) ∈ items ∧ r.contains p = true := by
  simp only [valuesIn, List.mem_map, List.mem_filter, Prod.exists, exists_eq_right]

theorem nodup_valuesIn (r : Rect α) {items : List (Vec α × V)}
    (h : (items.map Prod.snd).Nodup) : (valuesIn r items).Nodup :=
  h.sublist (List.filter_sublist.map _)

/-- The kind of index holds the points with their values: a query of a rectangle whose lower edge
is a number reports the values of the points in it, one for each point. -/
def Indexes (ι : Type → Type) [PointIndex ι α] (points : List (Vec α)) (values : List V) : Prop :=
  ∃ index : ι V, PointIndex.build points values = .ok index ∧ ∀ r : Rect α, IsKey r.y.start →
    (PointIndex.query index r).Perm (valuesIn r (points.zip values))

end PlanarDynamics
