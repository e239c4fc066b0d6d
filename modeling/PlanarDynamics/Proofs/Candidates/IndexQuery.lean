import PlanarDynamics.Candidates.Strategy
import PlanarDynamics.Proofs.Candidates.AllPairs
import PlanarDynamics.Proofs.Candidates.Widening
import PlanarDynamics.Proofs.PointIndex.KdTree
import PlanarDynamics.Proofs.PointIndex.RangeTree

/-!
# Index queries against the plain search

An index query finds what the plain search finds as soon as the range of each box contains the
corners of the boxes that overlap it. For boxes with finite edges it does, however the largest
extents and the bounds are rounded and also where they overflow.
-/

namespace PlanarDynamics

/-- All edges are finite numbers. -/
structure Aabb.IsFinite (a : Aabb Float32) : Prop where
  left : a.left.isFinite = true
  bottom : a.bottom.isFinite = true
  right : a.right.isFinite = true
  top : a.top.isFinite = true

namespace Candidates

section Reports

theorem corners_zip_range {α : Type} (shapes : Array (Proxy α)) :
    (shapes.toList.map fun p => p.aabb.minCorner).zip (List.range shapes.size) =
      shapes.toList.zipIdx.map fun p => (p.1.aabb.minCorner, p.2) := by
  rw [List.zip_map_left, List.zipIdx_eq_zip_range', ← List.range_eq_range', Array.length_toList]
  rfl

theorem length_corners {α : Type} {shapes : Array (Proxy α)} :
    (shapes.toList.map fun p => p.aabb.minCorner).length = (List.range shapes.size).length := by
  rw [List.length_map, List.length_range, Array.length_toList]

variable {α : Type} [Scalar α] {shapes : Array (Proxy α)}

/-- The positions of the shapes with their corners in a rectangle. -/
theorem mem_valuesIn_corners {r : Rect α} {j : Nat} :
    j ∈ valuesIn r ((shapes.toList.map fun p => p.aabb.minCorner).zip
        (List.range shapes.size)) ↔
      ∃ q, shapes[j]? = some q ∧ r.contains q.aabb.minCorner = true := by
  simp only [mem_valuesIn, corners_zip_range, List.mem_map, Prod.mk.injEq, Prod.exists,
    List.mk_mem_zipIdx_iff_getElem?, Array.getElem?_toList]
  constructor
  · rintro ⟨-, ⟨q, k, hq, rfl, rfl⟩, hr⟩
    exact ⟨q, hq, hr⟩
  · rintro ⟨q, hq, hr⟩
    exact ⟨_, ⟨q, j, hq, rfl, rfl⟩, hr⟩

theorem nodup_valuesIn_corners (r : Rect α) :
    (valuesIn r ((shapes.toList.map fun p => p.aabb.minCorner).zip
      (List.range shapes.size))).Nodup := by
  apply nodup_valuesIn
  rw [corners_zip_range, List.map_map]
  exact List.zipIdx_map_snd 0 shapes.toList ▸ List.nodup_range'

theorem mem_pairsOf {i j k : Nat} {p : Proxy α} {reported : List Nat} :
    (j, k) ∈ pairsOf shapes i p reported ↔ j = i ∧ k ∈ reported ∧ i < k ∧
      ∃ q, shapes[k]? = some q ∧ p.mayTouch q = true := by
  rw [pairsOf, List.mem_filterMap]
  constructor
  · rintro ⟨l, hl, hpair⟩
    split at hpair
    case h_1 q hq =>
      split at hpair
      case isTrue htouch =>
        obtain ⟨rfl, rfl⟩ := Prod.mk.inj (Option.some.inj hpair)
        rw [Bool.and_eq_true, decide_eq_true_eq] at htouch
        exact ⟨rfl, hl, htouch.1, q, hq, htouch.2⟩
      case isFalse => exact absurd hpair (by simp)
    case h_2 => exact absurd hpair (by simp)
  · rintro ⟨rfl, hk, hlt, q, hq, htouch⟩
    exact ⟨k, hk, by simp [hq, hlt, htouch]⟩

theorem nodup_pairsOf {i : Nat} {p : Proxy α} {reported : List Nat} (h : reported.Nodup) :
    (pairsOf shapes i p reported).Nodup := by
  have hsecond {j : Nat} {x : Pair} (hx : x ∈ pairsOf shapes i p [j]) : x.2 = j := by
    obtain ⟨k, l⟩ := x
    exact List.mem_singleton.mp (mem_pairsOf.mp hx).2.1
  apply List.Nodup.filterMap _ h
  intro j k x hj hk
  rw [← hsecond (List.mem_filterMap.mpr ⟨j, List.mem_singleton_self j, hj⟩)]
  exact hsecond (List.mem_filterMap.mpr ⟨k, List.mem_singleton_self k, hk⟩)

/-- Where no shape has a position reported twice, no pair is found twice. -/
theorem nodup_flatMap_pairsOf (reported : Proxy α → List Nat)
    (h : ∀ p ∈ shapes, (reported p).Nodup) :
    (shapes.toList.zipIdx.flatMap fun p => pairsOf shapes p.2 p.1 (reported p.1)).Nodup := by
  rw [List.nodup_flatMap]
  constructor
  · rintro ⟨p, i⟩ hp
    exact nodup_pairsOf (h p (Array.mem_toList_iff.mp (List.fst_mem_of_mem_zipIdx hp)))
  · refine (pairwise_zipIdx shapes.toList).imp ?_
    rintro ⟨p, i⟩ ⟨q, j⟩ hlt ⟨a, b⟩ hp hq
    have hai := (mem_pairsOf.mp hp).1
    have haj := (mem_pairsOf.mp hq).1
    exact hlt.ne (hai.symm.trans haj)

/-- Any kind of index that reports the corners in a range leads to the pairs of the plain search, if
the range of a box contains the corner of each box that overlaps it. -/
theorem indexQuery_eq_of_indexes (ι : Type → Type) [PointIndex ι α]
    (hindex : Indexes ι (shapes.toList.map fun p => p.aabb.minCorner) (List.range shapes.size))
    (hkey : ∀ p ∈ shapes, IsKey (cornerRange p.aabb (largestExtent shapes)).y.start)
    (hcover : ∀ p ∈ shapes, ∀ q ∈ shapes, p.aabb.intersects q.aabb = true →
      (cornerRange p.aabb (largestExtent shapes)).contains q.aabb.minCorner = true) :
    indexQuery ι shapes = allPairs shapes := by
  obtain ⟨index, hbuild, hquery⟩ := hindex
  have hmem {i : Nat} {p : Proxy α} (hp : shapes[i]? = some p) : p ∈ shapes :=
    Array.mem_of_getElem? hp
  simp only [indexQuery, hbuild]
  apply sort_eq_allPairs
  · apply nodup_flatMap_pairsOf fun p =>
      PointIndex.query index (cornerRange p.aabb (largestExtent shapes))
    exact fun p hp => (hquery _ (hkey p hp)).nodup_iff.mpr (nodup_valuesIn_corners _)
  · intro i j
    simp only [List.mem_flatMap, Prod.exists, List.mk_mem_zipIdx_iff_getElem?,
      Array.getElem?_toList, mem_pairsOf]
    constructor
    · rintro ⟨p, k, hp, rfl, -, hlt, q, hq, htouch⟩
      exact ⟨hlt, ⟨p, q, hp, hq, htouch⟩⟩
    · rintro ⟨hlt, p, q, hp, hq, htouch⟩
      refine ⟨p, i, hp, rfl, ?_, hlt, q, hq, htouch⟩
      rw [(hquery _ (hkey p (hmem hp))).mem_iff, mem_valuesIn_corners]
      rw [Proxy.mayTouch, Bool.and_eq_true] at htouch
      exact ⟨q, hq, hcover p (hmem hp) q (hmem hq) htouch.2⟩

theorem largestExtent_eq (shapes : Array (Proxy α)) : largestExtent shapes =
    (shapes.toList.foldl (fun m p => Scalar.maxNum m p.aabb.width) 0,
      shapes.toList.foldl (fun m p => Scalar.maxNum m p.aabb.height) 0) := by
  rw [largestExtent, ← Array.foldl_toList]
  exact List.foldl_hom₂ _ Prod.mk _ _ _ _ _ fun _ _ _ => rfl

end Reports

section Range

open Binary32

variable {shapes : Array (Proxy Float32)}

theorem foldl_maxNum {β : Type} {f : β → Float32} {l : List β} {m : Float32}
    (hm : m.isNaN = false) (hf : ∀ b ∈ l, (f b).isNaN = false) :
    (l.foldl (fun m b => Scalar.maxNum m (f b)) m).isNaN = false ∧
      value m ≤ value (l.foldl (fun m b => Scalar.maxNum m (f b)) m) ∧
      ∀ b ∈ l, value (f b) ≤ value (l.foldl (fun m b => Scalar.maxNum m (f b)) m) := by
  induction l generalizing m with
  | nil => exact ⟨hm, le_rfl, nofun⟩
  | cons b l ih =>
    rw [List.forall_mem_cons] at hf
    obtain ⟨hnan, hmax⟩ := value_maxNum hm hf.1
    obtain ⟨hnan', hle, hl⟩ := ih hnan hf.2
    rw [hmax] at hle
    refine ⟨hnan', (le_max_left _ _).trans hle, ?_⟩
    rw [List.forall_mem_cons]
    exact ⟨(le_max_right _ _).trans hle, hl⟩

/-- The range on one axis has numbers for ends and contains the lower end `b` of every box from `b`
to `c` that overlaps the one from `a` to `d` and is not wider than `w`. -/
theorem contains_ofEnds {a b c d w : Float32} (ha : a.isFinite = true) (hb : b.isFinite = true)
    (hc : c.isFinite = true) (hd : d.isFinite = true) (hw : w.isNaN = false) (hw0 : 0 ≤ value w)
    (hwidth : value (c - b) ≤ value w) (hca : ¬ c < a) (hdb : ¬ d < b) :
    (Span.ofEnds (widen (a - w) w) d).contains b = true := by
  have hnb := isNaN_of_isFinite hb
  have hnd := isNaN_of_isFinite hd
  rw [lt_iff_value_lt (isNaN_of_isFinite hc) (isNaN_of_isFinite ha), not_lt] at hca
  rw [lt_iff_value_lt hnd hnb, not_lt] at hdb
  obtain ⟨hnan, hle⟩ := widen_le ha hb hc hw hca hw0 hwidth
  obtain ⟨hnmin, hmin⟩ := value_minNum hnan hnd
  obtain ⟨hnmax, hmax⟩ := value_maxNum hnan hnd
  rw [Span.contains_iff, Span.ofEnds]
  rw [le_iff_value_le hnmin hnb, le_iff_value_le hnb hnmax, hmin, hmax]
  exact ⟨min_le_of_left_le hle, le_max_of_le_right hdb⟩

theorem isKey_ofEnds_start {a d w : Float32} (ha : a.isFinite = true) (hd : d.isFinite = true)
    (hw : w.isNaN = false) (hw0 : 0 ≤ value w) :
    IsKey (Span.ofEnds (widen (a - w) w) d).start := by
  have hdifference : value (a - a) ≤ value w := by
    rw [(value_sub ha ha).2, sub_self]
    exact nearest_le_value hw (by exact_mod_cast hw0)
  have hnan := (widen_le ha ha ha hw le_rfl hw0 hdifference).1
  exact isKey_iff.mpr (value_minNum hnan (isNaN_of_isFinite hd)).1

theorem le_largest {f : Proxy Float32 → Float32} (hf : ∀ p ∈ shapes, (f p).isNaN = false) :
    (shapes.toList.foldl (fun m p => Scalar.maxNum m (f p)) 0).isNaN = false ∧
      0 ≤ value (shapes.toList.foldl (fun m p => Scalar.maxNum m (f p)) 0) ∧
      ∀ p ∈ shapes,
        value (f p) ≤ value (shapes.toList.foldl (fun m p => Scalar.maxNum m (f p)) 0) := by
  have hf' : ∀ p ∈ shapes.toList, (f p).isNaN = false := fun p hp =>
    hf p (Array.mem_toList_iff.mp hp)
  obtain ⟨hnan, hzero, hle⟩ := foldl_maxNum (isNaN_of_isFinite zero_spec.1) hf'
  rw [zero_spec.2] at hzero
  exact ⟨hnan, hzero, fun p hp => hle p (Array.mem_toList_iff.mpr hp)⟩

theorem widths_le (h : ∀ p ∈ shapes, p.aabb.IsFinite) :
    (largestExtent shapes).1.isNaN = false ∧ 0 ≤ value (largestExtent shapes).1 ∧
      ∀ p ∈ shapes, value p.aabb.width ≤ value (largestExtent shapes).1 := by
  rw [largestExtent_eq]
  exact le_largest fun p hp => (value_sub (h p hp).right (h p hp).left).1

theorem heights_le (h : ∀ p ∈ shapes, p.aabb.IsFinite) :
    (largestExtent shapes).2.isNaN = false ∧ 0 ≤ value (largestExtent shapes).2 ∧
      ∀ p ∈ shapes, value p.aabb.height ≤ value (largestExtent shapes).2 := by
  rw [largestExtent_eq]
  exact le_largest fun p hp => (value_sub (h p hp).top (h p hp).bottom).1

/-- The range that is asked for contains the corner of every box that overlaps the one asking. -/
theorem cornerRange_contains (h : ∀ p ∈ shapes, p.aabb.IsFinite) {p q : Proxy Float32}
    (hp : p ∈ shapes) (hq : q ∈ shapes) (hpq : p.aabb.intersects q.aabb = true) :
    (cornerRange p.aabb (largestExtent shapes)).contains q.aabb.minCorner = true := by
  obtain ⟨hnw, hw, hwidths⟩ := widths_le h
  obtain ⟨hnh, hh, hheights⟩ := heights_le h
  obtain ⟨hright, hleft, htop, hbottom⟩ := Aabb.intersects_iff.mp hpq
  rw [Rect.contains_iff]
  constructor
  · exact contains_ofEnds (h p hp).left (h q hq).left (h q hq).right (h p hp).right hnw hw
      (hwidths q hq) hleft hright
  · exact contains_ofEnds (h p hp).bottom (h q hq).bottom (h q hq).top (h p hp).top hnh hh
      (hheights q hq) hbottom htop

theorem indexQuery_eq_of_isFinite (h : ∀ p ∈ shapes, p.aabb.IsFinite) (ι : Type → Type)
    [PointIndex ι Float32]
    (hindex : Indexes ι (shapes.toList.map fun p => p.aabb.minCorner) (List.range shapes.size)) :
    indexQuery ι shapes = allPairs shapes := by
  obtain ⟨hnh, hh, -⟩ := heights_le h
  apply indexQuery_eq_of_indexes ι hindex
  · exact fun p hp => isKey_ofEnds_start (h p hp).bottom (h p hp).top hnh hh
  · exact fun p hp q hq => cornerRange_contains h hp hq

theorem isKeyed_corners (h : ∀ p ∈ shapes, p.aabb.IsFinite) :
    ∀ c ∈ shapes.toList.map fun p => p.aabb.minCorner, c.IsKeyed := by
  intro c hc
  obtain ⟨p, hp, rfl⟩ := List.mem_map.mp hc
  have hfinite := h p (Array.mem_toList_iff.mp hp)
  exact ⟨isKey_iff.mpr (isNaN_of_isFinite hfinite.left),
    isKey_iff.mpr (isNaN_of_isFinite hfinite.bottom)⟩

/-- For boxes with finite edges, in order or not, both kinds of indices lead to the pairs of the
plain search, whichever routine arranges the k-d tree, and no range leaves out the corner of an
overlapping box. -/
theorem index_strategies_eq_allPairs (h : ∀ p ∈ shapes, p.aabb.IsFinite) :
    Strategy.kdTree.pairs shapes = allPairs shapes ∧
    Strategy.rangeTree.pairs shapes = allPairs shapes ∧
    (∀ s : Selection, @indexQuery Float32 _ (KdTree Float32) ⟨KdTree.buildWith s, KdTree.query⟩
      shapes = allPairs shapes) ∧
    ∀ p ∈ shapes, ∀ q ∈ shapes, p.aabb.intersects q.aabb = true →
      (cornerRange p.aabb (largestExtent shapes)).contains q.aabb.minCorner = true := by
  have hkd (s : Selection) : @indexQuery Float32 _ (KdTree Float32)
      ⟨KdTree.buildWith s, KdTree.query⟩ shapes = allPairs shapes :=
    @indexQuery_eq_of_isFinite _ h _ ⟨KdTree.buildWith s, KdTree.query⟩
      (KdTree.indexes s length_corners)
  refine ⟨hkd .bySorting, ?_, hkd, fun p hp q hq => cornerRange_contains h hp hq⟩
  exact indexQuery_eq_of_isFinite h _ (RangeTree.indexes length_corners (isKeyed_corners h))

/-- The width of the first box overflows, and the second box is inverted on both axes. -/
theorem index_strategies_overflow :
    let shapes : Array (Proxy Float32) :=
      #[⟨⟨.ofBits 0xff7fffff, 0, .ofBits 0x7f7fffff, 1⟩, .ball⟩, ⟨⟨2, 1, 1, 0⟩, .ball⟩]
    (∀ p ∈ shapes, p.aabb.IsFinite) ∧ Strategy.kdTree.pairs shapes = [(0, 1)] ∧
      Strategy.rangeTree.pairs shapes = [(0, 1)] := by
  intro shapes
  have hfinite : ∀ p ∈ shapes, p.aabb.IsFinite := by
    simp only [shapes, List.mem_toArray, List.forall_mem_cons]
    exact ⟨⟨rfl, rfl, rfl, rfl⟩, ⟨rfl, rfl, rfl, rfl⟩, nofun⟩
  have hstatic : ShapeKind.ball.isStatic = false := by cbv
  have hpairs : allPairs shapes = [(0, 1)] := by
    simp only [shapes, allPairs, List.zipIdx, pairsWithin, Proxy.mayTouch, Proxy.bothStatic,
      Proxy.isStatic, hstatic]
    decide
  obtain ⟨hkd, hrange, -⟩ := index_strategies_eq_allPairs hfinite
  exact ⟨hfinite, hkd.trans hpairs, hrange.trans hpairs⟩

end Range

end Candidates

end PlanarDynamics
