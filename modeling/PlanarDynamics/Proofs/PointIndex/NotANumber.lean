import PlanarDynamics.Proofs.Binary32.Quotient
import PlanarDynamics.Proofs.PointIndex.Once

/-!
# Points without coordinates

A point with a coordinate that is no number lies in no rectangle. A k-d tree leaves it out and
reports all others. A range tree keeps the outer coordinates of its points as the span of a node,
and what is no number sorts last: one point without an `x` then ends the span of the root, no
rectangle meets it, and every query comes back empty. What a range tree does report is in the
rectangle on the `x` axis and not above it, whatever the coordinates are; that it is not below is
lost with the order of the arrays.
-/

namespace PlanarDynamics

namespace Binary32

variable {x y : Float32}

theorem rank_of_isNaN (hx : x.isNaN = true) : rank x = 0x7fc00000 := by
  have hbits : x.toBits = 0x7fc00000 := by
    rw [← UInt32.toBitVec_inj, toBits_of_isNaN hx]
    rfl
  rw [rank, hbits]
  rfl

theorem unpack_infinity : infinity.toModel.unpack = .infinity .positive := rfl

/-- Every number is in the total order before what is no number. -/
theorem rank_lt_of_isNaN (hx : x.isNaN = true) (hy : y.isNaN = false) : rank y < rank x := by
  have hposition := (value_lt_iff_position (x := infinity) rfl hy).not.mp not_top_lt
  rw [unpack_infinity, position_infinity] at hposition
  rw [rank_of_isNaN hx, rank_eq hy]
  split <;> omega

theorem isNaN_of_totalCmp (h : Scalar.totalCmp x y ≠ .gt) (hx : x.isNaN = true) :
    y.isNaN = true := by
  by_contra hy
  rw [Bool.not_eq_true] at hy
  exact h (Int.compare_eq_gt.mpr (rank_lt_of_isNaN hx hy))

end Binary32

variable {V : Type}

namespace RangeNode

section Generic

variable {α : Type} [Scalar α]

theorem query_of_not_intersects {r : Rect α} {n : RangeNode α V}
    (h : r.x.intersects n.x = false) (start : Option Nat) : n.query r start = [] := by
  cases start with
  | none => exact query_none r n
  | some start =>
    cases n with
    | leaf p v => simp only [query, show r.x.intersects ⟨p.x, p.x⟩ = false from h]; simp
    | fork x ys left right =>
      rw [query]
      split
      · rfl
      · rw [show r.x.intersects x = false from h]; rfl

/-- The span of a node ends with the last point. -/
theorem x_stop_ofSorted? {items : List (Vec α × V)} (hne : items ≠ []) :
    ∀ n ∈ ofSorted? items, n.x.stop = (items.getLast hne).1.x := by
  fun_cases ofSorted? items with
  | case1 => exact absurd rfl hne
  | case2 p v =>
    rintro _ ⟨⟩
    rfl
  | case3 first second rest =>
    rintro _ ⟨⟩
    rw [List.getLast_cons (List.cons_ne_nil _ _)]
    rfl
  | case4 => nofun

variable {n : RangeNode α V} {items : List (Vec α × V)}

/-- A report stops at the first entry above the rectangle. -/
theorem Over.report_subperm (h : Over n items) {r : Rect α}
    (hx : ∀ p ∈ items, r.x.contains p.1.x = true) (start : Nat) :
    (report n.ys start r.y.stop).Subperm (valuesUnder r items) := by
  let passes (p : Vec α × V) : Bool := decide (p.1.y ≤ r.y.stop)
  let reported := (n.ys.toList.drop start).takeWhile (passes ∘ YEntry.item)
  have hunder : valuesUnder r items = (items.filter passes).map Prod.snd := by
    rw [valuesUnder]
    congr 1
    refine List.filter_congr fun p hp => ?_
    rw [hx p hp, Bool.true_and]
  have hpasses : reported.filter (passes ∘ YEntry.item) = reported :=
    List.filter_eq_self.mpr fun e he => List.mem_takeWhile_imp he
  have hsub : reported.Sublist (n.ys.toList.filter (passes ∘ YEntry.item)) := by
    rw [← hpasses]
    exact ((List.takeWhile_sublist _).trans (List.drop_sublist ..)).filter _
  have hperm : ((n.ys.toList.filter (passes ∘ YEntry.item)).map (·.value)).Perm
      ((items.filter passes).map Prod.snd) := by
    have := (h.map_item_ys.filter passes).map Prod.snd
    rwa [List.filter_map, List.map_map] at this
  rw [hunder]
  exact (hsub.map _).subperm.trans hperm.subperm

/-- A node reports the values of points in the rectangle or below it, one for each point. -/
theorem Over.query_subperm [LawfulScalar α] (h : Over n items) (r : Rect α) (start : Option Nat) :
    (n.query r start).Subperm (valuesUnder r items) := by
  have hnode := h
  induction h generalizing start with
  | leaf p v =>
    cases start with
    | none => exact List.nil_subperm
    | some start =>
      rw [query]
      split_ifs with hapart hwithin hcontains
      · exact List.nil_subperm
      · exact (Over.leaf p v).report_subperm (List.forall_mem_singleton.mpr hwithin) start
      · rw [Rect.contains_iff, Span.contains_iff (s := r.y)] at hcontains
        simp [valuesUnder, hcontains]
      · exact List.nil_subperm
  | @fork left right xs ys x hl hr hspan ihl ihr =>
    cases start with
    | none => exact List.nil_subperm
    | some start =>
      rw [query]
      split
      case h_1 => exact List.nil_subperm
      case h_2 e _ =>
        split_ifs with hapart hwithin
        · exact List.nil_subperm
        · have hx : ∀ p ∈ xs ++ ys, r.x.contains p.1.x = true := fun p hp =>
            Span.contains_of_containsSpan hwithin (hspan p hp)
          exact hnode.report_subperm hx start
        · rw [valuesUnder_append]
          exact (ihl e.left hl).append (ihr e.right hr)

end Generic

end RangeNode

theorem KdTree.buildWith_eq {points : List (Vec Float32)} {values : List V} (s : Selection)
    (h : points.length = values.length) : buildWith s points values =
      .ok ⟨(arrange s 0 (points.zip values)).toArray⟩ :=
  map_pairPoints h _

namespace RangeTree

open RangeNode (valuesUnder)

variable {items : List (Vec Float32 × V)} {r : Rect Float32}

theorem totalCmp_of_pointOrder {p q : Vec Float32 × V} (h : (pointOrder p q).isLE) :
    Scalar.totalCmp p.1.x q.1.x ≠ .gt := by
  intro hgt
  simp [pointOrder, hgt] at h

/-- One point without an `x` comes last, so that no rectangle meets the span of the root. -/
theorem query_eq_nil_of_isNaN (hsorted : items.Pairwise fun p q => (pointOrder p q).isLE)
    (hnan : ∃ p ∈ items, p.1.x.isNaN = true) (size : Nat) :
    query ⟨size, RangeNode.ofSorted? items⟩ r = [] := by
  obtain ⟨p, hp, hnan⟩ := hnan
  have hne := List.ne_nil_of_mem hp
  have hlast : (items.getLast hne).1.x.isNaN = true := by
    refine Binary32.isNaN_of_totalCmp (totalCmp_of_pointOrder ?_) hnan
    exact hsorted.rel_getLast_of_rel_getLast_getLast hp Std.ReflCmp.isLE_rfl
  cases hroot : RangeNode.ofSorted? items with
  | none => rfl
  | some root =>
    have hstop : root.x.stop.isNaN = true := by
      rw [RangeNode.x_stop_ofSorted? hne root hroot]
      exact hlast
    have hapart : r.x.intersects root.x = false := by
      rw [Span.intersects, Bool.and_eq_false_imp, decide_eq_true_eq]
      intro hle
      have hkey := Binary32.isKey_iff.mp (OrderedKeys.isKey_of_le hle).2
      exact absurd (hstop.symm.trans hkey) Bool.true_eq_false.mp
    unfold query
    simp only [RangeNode.query_of_not_intersects hapart, ite_self]

/-- If all points have an `x`, the tree reports values of points in the rectangle or below it. -/
theorem query_subperm_of_isKey (hsorted : items.Pairwise fun p q => (pointOrder p q).isLE)
    (hkeys : ∀ p ∈ items, p.1.x.isNaN = false) (size : Nat) :
    (query ⟨size, RangeNode.ofSorted? items⟩ r).Subperm (valuesUnder r items) := by
  have hkeys : ∀ p ∈ items, IsKey p.1.x := fun p hp => Binary32.isKey_iff.mpr (hkeys p hp)
  have hle : items.Pairwise fun p q => p.1.x ≤ q.1.x :=
    hsorted.imp_of_mem fun hp hq h =>
      LawfulScalar.le_of_totalCmp (hkeys _ hp) (hkeys _ hq) (totalCmp_of_pointOrder h)
  by_cases hnil : items = []
  · rw [hnil, RangeNode.ofSorted?]
    exact .refl _
  · obtain ⟨root, hroot, hover⟩ := RangeNode.exists_over_ofSorted? hnil hkeys hle
    rw [hroot]
    unfold query
    dsimp only
    split
    · exact hover.query_subperm ..
    · exact List.nil_subperm

variable {points : List (Vec Float32)} {values : List V} {t : RangeTree Float32 V}

theorem query_eq_nil_of_build (ht : build points values = .ok t)
    (h : points.length = values.length) (hnan : ∃ p ∈ points, p.x.isNaN = true)
    (r : Rect Float32) : t.query r = [] := by
  obtain rfl := eq_of_map_pairPoints ht
  obtain ⟨p, hp, hnan⟩ := hnan
  rw [← List.map_fst_zip h.le, List.mem_map] at hp
  obtain ⟨q, hq, rfl⟩ := hp
  refine query_eq_nil_of_isNaN (pairwise_mergeSort pointOrder _) ⟨q, ?_, hnan⟩ _
  exact (List.mergeSort_perm ..).mem_iff.mpr hq

theorem query_subperm_of_build (ht : build points values = .ok t)
    (h : points.length = values.length) (r : Rect Float32) :
    (t.query r).Subperm (valuesUnder r (points.zip values)) := by
  by_cases hnan : ∃ p ∈ points, p.x.isNaN = true
  · rw [query_eq_nil_of_build ht h hnan]
    exact List.nil_subperm
  · obtain rfl := eq_of_map_pairPoints ht
    let items := (points.zip values).mergeSort fun p q => (pointOrder p q).isLE
    have hperm : items.Perm (points.zip values) := List.mergeSort_perm ..
    have hkeys : ∀ p ∈ items, p.1.x.isNaN = false := fun p hp =>
      Bool.eq_false_of_not_eq_true fun hx =>
        hnan ⟨p.1, (List.of_mem_zip (hperm.mem_iff.mp hp)).1, hx⟩
    have hunder : (valuesUnder r items).Perm (valuesUnder r (points.zip values)) :=
      (hperm.filter _).map _
    exact (query_subperm_of_isKey (pairwise_mergeSort pointOrder _) hkeys _).trans hunder.subperm

/-- A k-d tree reports the points in a rectangle, whatever the coordinates are. A range tree reports
the same ones where all coordinates are numbers, and nothing where some point has no `x`. In any
case it reports only points in the rectangle or below it, each of them once. -/
theorem missing_coordinates_in_queries (s : Selection) (h : points.length = values.length) :
    ∃ t k, build points values = .ok t ∧ KdTree.buildWith s points values = .ok k ∧
      (∀ r, (k.query r).Perm (valuesIn r (points.zip values))) ∧
      ((∀ p ∈ points, p.x.isNaN = false ∧ p.y.isNaN = false) → ∀ r : Rect Float32,
        (r.y.start.isNaN = true → r.y.stop.isNaN = true) → (t.query r).Perm (k.query r)) ∧
      ((∃ p ∈ points, p.x.isNaN = true) → ∀ r, t.query r = []) ∧
      ∀ r, (t.query r).Subperm (valuesUnder r (points.zip values)) := by
  have ht := build_eq h
  have hk := KdTree.buildWith_eq s h
  have hkd := KdTree.query_perm s hk
  refine ⟨_, _, ht, hk, hkd, fun hpoints r hr => ?_, query_eq_nil_of_build ht h,
    query_subperm_of_build ht h⟩
  refine (query_perm ht (fun p hp => ?_) fun hstop => ?_).trans (hkd r).symm
  · exact ⟨Binary32.isKey_iff.mpr (hpoints p hp).1, Binary32.isKey_iff.mpr (hpoints p hp).2⟩
  · rw [Binary32.isKey_iff, Bool.eq_false_iff] at hstop ⊢
    exact fun hstart => hstop (hr hstart)

/-- The first two points are the ones of the rectangle, and the third has no `x`. Without the third,
both trees report them. -/
theorem missing_coordinates_in_queries_three :
    let points : List (Vec Float32) := [⟨0, 0⟩, ⟨1, 2⟩, ⟨.ofBits 0x7fc00000, 1⟩]
    let values : List Nat := [10, 11, 12]
    let r : Rect Float32 := ⟨⟨-1, 1⟩, ⟨0, 2⟩⟩
    points.length = values.length ∧
      ∃ t k, build points values = .ok t ∧ KdTree.buildWith .bySorting points values = .ok k ∧
        t.query r = [] ∧ (k.query r).Perm [10, 11] := by
  intro points values r
  have hlength : points.length = values.length := rfl
  obtain ⟨t, k, ht, hk, hkd, -, hnil, -⟩ := missing_coordinates_in_queries .bySorting hlength
  refine ⟨hlength, t, k, ht, hk, hnil ⟨⟨.ofBits 0x7fc00000, 1⟩, ?_, rfl⟩ r,
    (hkd r).trans (.of_eq ?_)⟩
  · decide
  · decide

/-- Two points, the second without an `x`. -/
def withoutX : List (Vec Float32) := [⟨0, 0⟩, ⟨.ofBits 0x7fc00000, 0⟩]

/-- Three points, the middle one without a `y`. -/
def withoutY : List (Vec Float32) := [⟨1, 3⟩, ⟨2, .ofBits 0x7fc00000⟩, ⟨3, 0⟩]

/-- The two trees over the same points answer differently. Where one point has no `x`, the range
tree does not find the other any more. Where one has no `y`, the array of the root is in disorder,
and a point below the rectangle is reported. -/
theorem missing_coordinates_differ :
    (∃ t k, build withoutX [10, 11] = .ok t ∧ KdTree.build withoutX [10, 11] = .ok k ∧
      t.query ⟨⟨-1, 1⟩, ⟨-1, 1⟩⟩ = [] ∧ k.query ⟨⟨-1, 1⟩, ⟨-1, 1⟩⟩ = [10]) ∧
    ∃ t k, build withoutY [10, 11, 12] = .ok t ∧ KdTree.build withoutY [10, 11, 12] = .ok k ∧
      t.query ⟨⟨1, 1⟩, ⟨5, 6⟩⟩ = [10] ∧ k.query ⟨⟨1, 1⟩, ⟨5, 6⟩⟩ = [] := by
  constructor
  · have hlength : withoutX.length = [10, 11].length := rfl
    have ht := build_eq hlength
    have hk := KdTree.buildWith_eq .bySorting hlength
    refine ⟨_, _, ht, hk, ?_, ?_⟩
    · exact query_eq_nil_of_build ht hlength ⟨⟨.ofBits 0x7fc00000, 0⟩, by decide, rfl⟩ _
    · exact List.perm_singleton.mp ((KdTree.query_perm .bySorting hk _).trans (.of_eq (by decide)))
  · let items : List (Vec Float32 × ℕ) :=
      [(⟨1, 3⟩, 10), (⟨2, .ofBits 0x7fc00000⟩, 11), (⟨3, 0⟩, 12)]
    have hsort : items.mergeSort (fun p q => (pointOrder p q).isLE) = items :=
      List.mergeSort_of_pairwise (by decide)
    have hroot : RangeNode.ofSorted? items = some (.fork ⟨1, 3⟩
        #[⟨⟨3, 0⟩, 12, some 0, some 0⟩, ⟨⟨2, .ofBits 0x7fc00000⟩, 11, some 0, some 1⟩,
          ⟨⟨1, 3⟩, 10, some 0, none⟩]
        (.leaf ⟨1, 3⟩ 10)
        (.fork ⟨2, 3⟩ #[⟨⟨3, 0⟩, 12, some 0, some 0⟩, ⟨⟨2, .ofBits 0x7fc00000⟩, 11, some 0, none⟩]
          (.leaf ⟨2, .ofBits 0x7fc00000⟩ 11) (.leaf ⟨3, 0⟩ 12))) := by
      simp +decide [RangeNode.ofSorted?, items, YEntry.merge, RangeNode.ys]
    have hlength : withoutY.length = [10, 11, 12].length := rfl
    have hk := KdTree.buildWith_eq .bySorting hlength
    refine ⟨_, _, build_eq hlength, hk, ?_, ?_⟩
    · show query ⟨3, RangeNode.ofSorted? (items.mergeSort _)⟩ _ = [10]
      rw [hsort, hroot]
      simp +decide [query, partitionPoint, partitionFrom, RangeNode.query, RangeNode.ys,
        RangeNode.report]
    · exact List.perm_nil.mp ((KdTree.query_perm .bySorting hk _).trans (.of_eq (by decide)))

end RangeTree

end PlanarDynamics
