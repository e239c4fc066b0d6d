import PlanarDynamics.PointIndex.KdTree
import PlanarDynamics.Proofs.PointIndex.Basic

/-!
# Queries of k-d trees

What an arrangement by any selection routine guarantees, and that a query then reports the values of
the points in its rectangle, one for each point. A side that a query skips holds no such point, not
even where coordinates are not numbers, as these compare to no bound.
-/

namespace PlanarDynamics.KdTree

variable {α V : Type} [Scalar α]

/-- The middle item splits the others by the coordinate of the level, and so on down both sides. -/
inductive Arranged : Nat → List (Vec α × V) → Prop
  | nil (level : Nat) : Arranged level []
  | split (level : Nat) (lower : List (Vec α × V)) (mid : Vec α × V)
      (upper : List (Vec α × V)) :
      lower.length = (lower.length + upper.length) / 2 →
      (∀ p ∈ lower, levelOrder level p mid ≠ .gt) → (∀ p ∈ upper, levelOrder level mid p ≠ .gt) →
      Arranged (level + 1) lower → Arranged (level + 1) upper →
      Arranged level (lower ++ mid :: upper)

instance (level : Nat) : Std.TransCmp (levelOrder level : Vec α × V → Vec α × V → Ordering) :=
  transCmp_comap Scalar.totalCmp fun p : Vec α × V => coordinate level p.1

theorem totalCmp_self_ne_gt (a : α) : Scalar.totalCmp a a ≠ .gt := by
  have hself : Scalar.totalCmp a a = .eq := Std.ReflCmp.compare_self
  rw [hself]
  decide

theorem arrange_spec (s : Selection) (level : Nat) (items : List (Vec α × V)) :
    (arrange s level items).Perm items ∧ Arranged level (arrange s level items) := by
  fun_induction arrange s level items with
  | case1 level items hshort =>
    refine ⟨.refl _, ?_⟩
    match items, hshort with
    | [], _ => exact .nil level
    | [p], _ => exact .split level [] p [] (by simp) (by simp) (by simp) (.nil _) (.nil _)
  | case2 level items hlong mid placed hdrop =>
    have hlength : placed.length = items.length := (s.perm _ _ _).length_eq
    have := congrArg List.length hdrop
    simp only [List.length_drop, List.length_nil] at this
    omega
  | case3 level items hlong mid placed p upper hdrop ihl ihu =>
    have hplaced : placed.Perm items := s.perm _ _ _
    have hlength : placed.length = items.length := hplaced.length_eq
    have hmid : mid < items.length := by omega
    obtain ⟨lower, m, rest, hsplit, hlower, hbefore, hbehind⟩ := s.placed (levelOrder level) hmid
    have hsplit' : placed = lower ++ m :: rest := hsplit
    have htake : placed.take mid = lower := by rw [hsplit', ← hlower, List.take_left]
    have hdrop' : placed.drop mid = m :: rest := by rw [hsplit', ← hlower, List.drop_left]
    obtain ⟨rfl, rfl⟩ : m = p ∧ rest = upper := by
      rw [hdrop'] at hdrop
      exact List.cons.inj hdrop
    rw [htake] at ihl ⊢
    constructor
    · rw [hsplit'] at hplaced
      exact ((ihl.1.append (ihu.1.cons m))).trans hplaced
    · apply Arranged.split
      · have := congrArg List.length hsplit'
        rw [ihl.1.length_eq, ihu.1.length_eq]
        simp only [List.length_append, List.length_cons] at this
        omega
      · exact fun q hq => hbefore q (ihl.1.mem_iff.mp hq)
      · exact fun q hq => hbehind q (ihu.1.mem_iff.mp hq)
      · exact ihl.2
      · exact ihu.2

/-- The span of a rectangle that a level looks at. -/
def levelSpan (r : Rect α) (level : Nat) : Span α := if level % 2 = 0 then r.x else r.y

theorem contains_levelSpan {r : Rect α} {p : Vec α} (h : r.contains p = true) (level : Nat) :
    (levelSpan r level).start ≤ coordinate level p ∧
      coordinate level p ≤ (levelSpan r level).stop := by
  rw [Rect.contains_iff, Span.contains_iff, Span.contains_iff] at h
  unfold levelSpan coordinate
  split
  · exact h.1
  · exact h.2

section Query

variable [LawfulScalar α]

theorem contains_eq_false_of_stop_lt {r : Rect α} {level : Nat} {m p : Vec α}
    (h : (levelSpan r level).stop < coordinate level m)
    (hmp : Scalar.totalCmp (coordinate level m) (coordinate level p) ≠ .gt) :
    r.contains p = false := by
  rw [Bool.eq_false_iff]
  intro hcontains
  exact LawfulScalar.not_le_of_lt_of_totalCmp h hmp (contains_levelSpan hcontains level).2

theorem contains_eq_false_of_lt_start {r : Rect α} {level : Nat} {m p : Vec α}
    (h : coordinate level m < (levelSpan r level).start)
    (hpm : Scalar.totalCmp (coordinate level p) (coordinate level m) ≠ .gt) :
    r.contains p = false := by
  rw [Bool.eq_false_iff]
  intro hcontains
  exact LawfulScalar.not_ge_of_lt_of_totalCmp h hpm (contains_levelSpan hcontains level).1

section Split

variable {r : Rect α} {level : Nat} {lower upper : List (Vec α × V)} {mid : Vec α × V}

/-- Where the middle item lies beyond the rectangle, so does everything behind it. -/
theorem valuesIn_split_of_stop_lt (hupper : ∀ p ∈ upper, levelOrder level mid p ≠ .gt)
    (h : (levelSpan r level).stop < coordinate level mid.1) :
    valuesIn r (lower ++ mid :: upper) = valuesIn r lower := by
  have hnone : valuesIn r (mid :: upper) = [] := by
    apply valuesIn_eq_nil
    rw [List.forall_mem_cons]
    exact ⟨contains_eq_false_of_stop_lt h (totalCmp_self_ne_gt _),
      fun p hp => contains_eq_false_of_stop_lt h (hupper p hp)⟩
  rw [valuesIn_append, hnone, List.append_nil]

/-- Where the middle item lies below the rectangle, so does everything before it. -/
theorem valuesIn_split_of_lt_start (hlower : ∀ p ∈ lower, levelOrder level p mid ≠ .gt)
    (h : coordinate level mid.1 < (levelSpan r level).start) :
    valuesIn r (lower ++ mid :: upper) = valuesIn r upper := by
  have hnone : valuesIn r (lower ++ [mid]) = [] := by
    apply valuesIn_eq_nil
    rw [List.forall_mem_append, List.forall_mem_singleton]
    exact ⟨fun p hp => contains_eq_false_of_lt_start h (hlower p hp),
      contains_eq_false_of_lt_start h (totalCmp_self_ne_gt _)⟩
  rw [List.append_cons, valuesIn_append, hnone, List.nil_append]

end Split

/-- A query of a range of items reports the values in the rectangle among them. -/
theorem queryRange_perm {level : Nat} {items : List (Vec α × V)} (h : Arranged level items)
    (r : Rect α) {all : Array (Vec α × V)} {before behind : List (Vec α × V)}
    (hall : all.toList = before ++ items ++ behind) :
    (queryRange all r level before.length (before.length + items.length)).Perm
      (valuesIn r items) := by
  induction h generalizing before behind with
  | nil level =>
    rw [queryRange]
    simp [valuesIn]
  | split level lower mid upper hmid hlower hupper _ _ ihl ihu =>
    have hpos : before.length < before.length + (lower ++ mid :: upper).length := by simp
    have hindex : before.length +
        (before.length + (lower ++ mid :: upper).length - before.length - 1) / 2 =
        before.length + lower.length := by
      simp only [List.length_append, List.length_cons]
      omega
    have hget : all[before.length + lower.length]? = some mid := by
      rw [← Array.getElem?_toList, hall, ← List.length_append]
      simp
    have hl := @ihl before (mid :: upper ++ behind) (by simp [hall])
    have hu := @ihu (before ++ lower ++ [mid]) behind (by simp [hall])
    have hstart : (before ++ lower ++ [mid]).length = before.length + lower.length + 1 := by
      simp only [List.length_append, List.length_cons, List.length_nil]
    have hstop : (before ++ lower ++ [mid]).length + upper.length =
        before.length + (lower ++ mid :: upper).length := by
      simp only [List.length_append, List.length_cons, List.length_nil]
      omega
    rw [hstop, hstart] at hu
    rw [queryRange, if_pos hpos]
    simp only [hindex, hget, show (if level % 2 = 0 then r.x else r.y) = levelSpan r level from rfl]
    split
    case isTrue hbeyond =>
      rw [valuesIn_split_of_stop_lt hupper hbeyond]
      exact hl
    case isFalse =>
      split
      case isTrue hbelow =>
        rw [valuesIn_split_of_lt_start hlower hbelow]
        exact hu
      case isFalse =>
        rw [valuesIn_append, valuesIn_cons]
        refine (List.perm_append_comm.append_right _).trans ?_
        rw [List.append_assoc]
        exact hl.append (hu.append_left _)

/-- Whatever routine arranged it, a tree reports the value of each point in the rectangle once. -/
theorem query_perm (s : Selection) {points : List (Vec α)} {values : List V} {t : KdTree α V}
    (ht : buildWith s points values = .ok t) (r : Rect α) :
    (t.query r).Perm (valuesIn r (points.zip values)) := by
  obtain rfl := eq_of_map_pairPoints ht
  obtain ⟨hperm, harranged⟩ := arrange_spec s 0 (points.zip values)
  have hitems : (arrange s 0 (points.zip values)).toArray.toList =
      [] ++ arrange s 0 (points.zip values) ++ [] := by simp
  have hrange := queryRange_perm harranged r hitems
  rw [List.length_nil, Nat.zero_add] at hrange
  exact hrange.trans (valuesIn_perm r hperm)

theorem indexes (s : Selection) {points : List (Vec α)} {values : List V}
    (h : points.length = values.length) :
    @Indexes α V _ (KdTree α) ⟨buildWith s, query⟩ points values := by
  have ht := map_pairPoints h fun items => (⟨(arrange s 0 items).toArray⟩ : KdTree α V)
  exact ⟨_, ht, fun r _ => query_perm s ht r⟩

/-- Whichever routine arranges them, the points in a rectangle are reported once each. Neither the
coordinates of the points nor the edges of the rectangle need to be numbers, and a point with a
missing coordinate hides no other one. -/
theorem any_arrangement_reports_valuesIn (s : Selection) {points : List (Vec Float32)}
    {values : List V} (h : points.length = values.length) :
    ∃ t : KdTree Float32 V, buildWith s points values = .ok t ∧
      ∀ r : Rect Float32, (t.query r).Perm (valuesIn r (points.zip values)) := by
  have ht := map_pairPoints h fun items => (⟨(arrange s 0 items).toArray⟩ : KdTree Float32 V)
  exact ⟨_, ht, query_perm s ht⟩

/-- A point without an `x` sorts behind all others, two points are the same up to the sign of a
zero, and one is at infinity. A rectangle without a lower edge contains nothing. -/
theorem any_arrangement_notANumber :
    let points : List (Vec Float32) :=
      [⟨.ofBits 0x7fc00000, 1⟩, ⟨0, 1⟩, ⟨.ofBits 0x80000000, 1⟩, ⟨.ofBits 0xff800000, 1⟩, ⟨2, 5⟩]
    let values : List Nat := [10, 11, 12, 13, 14]
    points.length = values.length ∧ ∃ t : KdTree Float32 Nat,
      buildWith .bySorting points values = .ok t ∧
        (t.query ⟨⟨.ofBits 0xff800000, 0⟩, ⟨1, 3⟩⟩).Perm [11, 12, 13] ∧
        t.query ⟨⟨-1, 9⟩, ⟨.ofBits 0x7fc00000, 9⟩⟩ = [] := by
  intro points values
  have hlength : points.length = values.length := rfl
  obtain ⟨t, ht, hquery⟩ := any_arrangement_reports_valuesIn .bySorting hlength
  refine ⟨hlength, t, ht, (hquery _).trans (.of_eq ?_),
    List.perm_nil.mp ((hquery _).trans (.of_eq ?_))⟩
  · decide
  · decide

end Query

end PlanarDynamics.KdTree
