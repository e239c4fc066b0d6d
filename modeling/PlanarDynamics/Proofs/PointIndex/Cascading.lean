import PlanarDynamics.Proofs.PointIndex.RangeTree

/-!
# Cascading references

Every node of a range tree stands for a range of the points in the order of `x` and lists them in
the order of `y`. A reference is the place where merging stood in the array of a child when it took
the entry. Of entries at one `y` only the first one refers to the first of them in the children, so
that references are right only for a walk that meets no other: one that begins at the first entry
not below a bound comes to the first such entry of each node, where a search of the node's own array
would have led.
-/

namespace PlanarDynamics

variable {α V : Type} [Scalar α]

namespace YEntry

/-- The number of entries below a bound. -/
def countBelow (b : α) (es : List (YEntry α V)) : ℕ := es.countP fun e => decide (e.point.y < b)

variable [LawfulScalar α] {b : α} {ys : Array (YEntry α V)}

theorem findIdx_reaches (h : ys.toList.Pairwise fun e f => e.point.y ≤ f.point.y) :
    ys.toList.findIdx (reaches b) = countBelow b ys.toList := by
  rw [findIdx_eq_countP (h.imp reaches_of_le), countBelow]
  simp only [reaches, Bool.not_not]

/-- A search of an array in the order of `y` counts the entries below the bound. -/
theorem partitionPoint_eq_countBelow (h : ys.toList.Pairwise fun e f => e.point.y ≤ f.point.y) :
    partitionPoint (fun e => decide (e.point.y < b)) ys = countBelow b ys.toList := by
  refine (partitionPoint_eq (h.imp fun hle hlt => ?_)).trans (findIdx_reaches h)
  rw [decide_eq_true_eq] at hlt ⊢
  exact OrderedKeys.lt_of_le_of_lt hle hlt

/-- The first entry that is not below the bound stands behind all that are, if there is one. -/
theorem position_eq_countBelow (h : ys.toList.Pairwise fun e f => e.point.y ≤ f.point.y) :
    position b 0 ys.toList =
      if countBelow b ys.toList < ys.size then some (countBelow b ys.toList) else none := by
  unfold position
  rw [List.findIdx?_eq_guard_findIdx_lt, Array.length_toList, findIdx_reaches h]
  split
  case isTrue hlt => simp [Option.guard, hlt]
  case isFalse hge => simp [Option.guard, hge]

omit [LawfulScalar α] in
theorem position_eq_none_iff {es : List (YEntry α V)} :
    position b 0 es = none ↔ ∀ e ∈ es, e.point.y < b := by
  simp [position, reaches]

end YEntry

namespace RangeNode

open YEntry

/-- The nodes of the tree under a root over `size` points, each with the positions of the first
point that it stands for and of the one behind the last. A range is split in the middle between the
children. -/
inductive StandsFor (root : RangeNode α V) (size : ℕ) : RangeNode α V → ℕ → ℕ → Prop
  | root : StandsFor root size root 0 size
  | left {x : Span α} {ys : Array (YEntry α V)} {l r : RangeNode α V} {lo hi : ℕ} :
      StandsFor root size (fork x ys l r) lo hi → StandsFor root size l lo (lo + (hi - lo) / 2)
  | right {x : Span α} {ys : Array (YEntry α V)} {l r : RangeNode α V} {lo hi : ℕ} :
      StandsFor root size (fork x ys l r) lo hi → StandsFor root size r (lo + (hi - lo) / 2) hi

/-- The nodes that a walk down with a lower bound enters, each with the position that the walk
carries into it: the root at the partition point of its array, if that is an entry, and both
children of a node that is entered at an entry where this one refers to. -/
inductive Entered (root : RangeNode α V) (bound : α) : RangeNode α V → Option ℕ → Prop
  | root {start : ℕ} : start = partitionPoint (fun e => decide (e.point.y < bound)) root.ys →
      start < root.ys.size → Entered root bound root (some start)
  | left {x : Span α} {ys : Array (YEntry α V)} {l r : RangeNode α V} {start : ℕ}
      {e : YEntry α V} : Entered root bound (fork x ys l r) (some start) → ys[start]? = some e →
      Entered root bound l e.left
  | right {x : Span α} {ys : Array (YEntry α V)} {l r : RangeNode α V} {start : ℕ}
      {e : YEntry α V} : Entered root bound (fork x ys l r) (some start) → ys[start]? = some e →
      Entered root bound r e.right

variable {root n : RangeNode α V} {items : List (Vec α × V)} {bound : α} {lo hi : ℕ}

omit [Scalar α] in
theorem take_drop_take (items : List (Vec α × V)) {lo mid hi : ℕ} (hmid : lo + mid ≤ hi) :
    ((items.take hi).drop lo).take mid = (items.take (lo + mid)).drop lo := by
  rw [List.take_drop, List.take_take, min_eq_left hmid]

/-- Both children of a fork are built over halves of its points. -/
theorem ofSorted?_eq_fork {x : Span α} {ys : Array (YEntry α V)} {l r : RangeNode α V}
    (h : ofSorted? items = some (fork x ys l r)) :
    ofSorted? (items.take (items.length / 2)) = some l ∧
      ofSorted? (items.drop (items.length / 2)) = some r := by
  unfold ofSorted? at h
  split at h
  · cases h
  · cases h
  · dsimp only at h
    split at h
    case h_1 hl hr =>
      cases h
      exact ⟨hl, hr⟩
    case h_2 => cases h

/-- A node is the tree over the points that it stands for. -/
theorem StandsFor.ofSorted?_eq (hroot : ofSorted? items = some root)
    (h : root.StandsFor items.length n lo hi) :
    lo < hi ∧ hi ≤ items.length ∧ ofSorted? ((items.take hi).drop lo) = some n := by
  have hne {items : List (Vec α × V)} {n : RangeNode α V} (h : ofSorted? items = some n) :
      0 < items.length := by
    cases items with
    | nil => simp [ofSorted?] at h
    | cons => exact Nat.succ_pos _
  have hlength {lo hi : ℕ} (hhi : hi ≤ items.length) :
      ((items.take hi).drop lo).length = hi - lo := by
    rw [List.length_drop, List.length_take, min_eq_left hhi]
  have hlt {n : RangeNode α V} {lo hi : ℕ} (hhi : hi ≤ items.length)
      (h : ofSorted? ((items.take hi).drop lo) = some n) : lo < hi := by
    have := hne h
    rw [hlength hhi] at this
    exact Nat.lt_of_sub_pos this
  suffices hi ≤ items.length ∧ ofSorted? ((items.take hi).drop lo) = some n from
    ⟨hlt this.1 this.2, this⟩
  induction h with
  | root => exact ⟨le_rfl, by rwa [List.take_length, List.drop_zero]⟩
  | @left _ _ _ _ lo hi _ ih =>
    obtain ⟨hhi, hfork⟩ := ih
    have hlo := hlt hhi hfork
    obtain ⟨hleft, -⟩ := ofSorted?_eq_fork hfork
    rw [hlength hhi, take_drop_take items (by omega)] at hleft
    exact ⟨by omega, hleft⟩
  | right _ ih =>
    obtain ⟨hhi, hfork⟩ := ih
    obtain ⟨-, hright⟩ := ofSorted?_eq_fork hfork
    rw [hlength hhi, List.drop_drop] at hright
    exact ⟨hhi, hright⟩

theorem Entered.exists_standsFor {start : Option ℕ} (h : root.Entered bound n start) (size : ℕ) :
    ∃ lo hi, root.StandsFor size n lo hi := by
  induction h with
  | root => exact ⟨0, size, .root⟩
  | left _ _ ih =>
    obtain ⟨lo, hi, hfork⟩ := ih
    exact ⟨_, _, hfork.left⟩
  | right _ _ ih =>
    obtain ⟨lo, hi, hfork⟩ := ih
    exact ⟨_, _, hfork.right⟩

variable [LawfulScalar α]

/-- The entry at which a node is entered refers to the first entries of the children that are not
below the bound. -/
theorem Over.references {x : Span α} {ys : Array (YEntry α V)} {l r : RangeNode α V} {start : ℕ}
    {e : YEntry α V} (h : Over (RangeNode.fork x ys l r) items) (hkeys : ∀ p ∈ items, p.1.IsKeyed)
    (hstart : some start = position bound 0 ys.toList) (he : ys[start]? = some e) :
    ∃ left right, Over l left ∧ Over r right ∧ left ++ right = items ∧
      e.left = position bound 0 l.ys.toList ∧ e.right = position bound 0 r.ys.toList := by
  cases h with
  | @fork _ _ left right _ hl hr _ =>
    rw [List.forall_mem_append] at hkeys
    obtain ⟨e', he', hfind⟩ := exists_of_position hstart.symm
    obtain rfl : e = e' := Option.some.inj (he.symm.trans (Array.getElem?_toList.symm.trans he'))
    obtain ⟨hleft, hright⟩ :=
      references_of_find? (hl.forall_ys hkeys.1) (hr.forall_ys hkeys.2) hfind
    exact ⟨left, right, hl, hr, rfl, hleft, hright⟩

/-- A walk enters every node at its first entry that is not below the bound. -/
theorem Entered.position (hroot : Over root items) (hkeys : ∀ p ∈ items, p.1.IsKeyed)
    {start : Option ℕ} (h : root.Entered bound n start) :
    ∃ below, Over n below ∧ (∀ p ∈ below, p.1.IsKeyed) ∧
      start = YEntry.position bound 0 n.ys.toList := by
  induction h with
  | root hstart hlt =>
    have hsorted := hroot.pairwise_ys hkeys
    refine ⟨items, hroot, hkeys, ?_⟩
    rw [position_eq_countBelow hsorted, ← partitionPoint_eq_countBelow hsorted, ← hstart,
      if_pos hlt]
  | left _ he ih =>
    obtain ⟨below, hover, hkeys, hstart⟩ := ih
    obtain ⟨left, right, hleft, -, rfl, hreference, -⟩ := hover.references hkeys hstart he
    exact ⟨left, hleft, (List.forall_mem_append.mp hkeys).1, hreference⟩
  | right _ he ih =>
    obtain ⟨below, hover, hkeys, hstart⟩ := ih
    obtain ⟨left, right, -, hright, rfl, -, hreference⟩ := hover.references hkeys hstart he
    exact ⟨right, hright, (List.forall_mem_append.mp hkeys).2, hreference⟩

end RangeNode

namespace RangeTree

open YEntry

/-- The points with their values in the order of `x`, those at one `x` in the order of `y`. -/
def inOrder (points : List (Vec α)) (values : List V) : List (Vec α × V) :=
  (points.zip values).mergeSort fun p q => (pointOrder p q).isLE

theorem inOrder_perm (points : List (Vec α)) (values : List V) :
    (inOrder points values).Perm (points.zip values) := List.mergeSort_perm ..

theorem length_inOrder {points : List (Vec α)} {values : List V}
    (h : points.length = values.length) : (inOrder points values).length = points.length := by
  rw [(inOrder_perm points values).length_eq, List.length_zip, ← h, min_self]

variable {points : List (Vec α)} {values : List V}

theorem isKeyed_inOrder (hkeys : ∀ p ∈ points, p.IsKeyed) :
    ∀ p ∈ inOrder points values, p.1.IsKeyed := fun p hp =>
  hkeys p.1 (List.of_mem_zip ((inOrder_perm points values).mem_iff.mp hp)).1

variable [LawfulScalar α]

theorem pairwise_inOrder (hkeys : ∀ p ∈ points, p.IsKeyed) :
    (inOrder points values).Pairwise fun p q => p.1.x ≤ q.1.x :=
  (pairwise_mergeSort pointOrder (points.zip values)).imp_of_mem fun hp hq =>
    le_of_pointOrder (isKeyed_inOrder hkeys _ hp) (isKeyed_inOrder hkeys _ hq)

/-- Each node is over the points that it stands for. -/
theorem over_of_standsFor {root n : RangeNode α V} {lo hi : ℕ}
    (hlength : points.length = values.length) (hkeys : ∀ p ∈ points, p.IsKeyed)
    (hroot : RangeNode.ofSorted? (inOrder points values) = some root)
    (h : root.StandsFor points.length n lo hi) :
    lo < hi ∧ hi ≤ points.length ∧ n.Over (((inOrder points values).take hi).drop lo) := by
  rw [← length_inOrder hlength] at h ⊢
  obtain ⟨hlt, hhi, hn⟩ := h.ofSorted?_eq hroot
  have hsub : (((inOrder points values).take hi).drop lo).Sublist (inOrder points values) :=
    (List.drop_sublist ..).trans (List.take_sublist ..)
  have hsome : ((inOrder points values).take hi).drop lo ≠ [] := by
    rw [← List.length_pos_iff, List.length_drop, List.length_take]
    omega
  obtain ⟨n', hn', hover⟩ := RangeNode.exists_over_ofSorted? hsome
    (fun p hp => (isKeyed_inOrder hkeys p (hsub.mem hp)).x) ((pairwise_inOrder hkeys).sublist hsub)
  obtain rfl : n = n' := Option.some.inj (hn.symm.trans hn')
  exact ⟨hlt, hhi, hover⟩

/-- Each node of a tree lists the points that it stands for in the order of `y`, and a search of its
array counts the entries below a bound. A walk that begins at the partition point of the root and
follows references carries that number into each node that it enters, or nothing if all entries of
the node are below the bound. -/
theorem references_lead_to_partition_points {points : List (Vec Float32)} {values : List V}
    (hlength : points.length = values.length) (hne : points ≠ [])
    (hpoints : ∀ p ∈ points, p.x.isNaN = false ∧ p.y.isNaN = false) :
    ∃ root : RangeNode Float32 V, build points values = .ok ⟨points.length, some root⟩ ∧
      (∀ n lo hi, root.StandsFor points.length n lo hi → lo < hi ∧ hi ≤ points.length ∧
        (n.ys.toList.map item).Perm (((inOrder points values).take hi).drop lo) ∧
        (n.ys.toList.Pairwise fun e f => e.point.y ≤ f.point.y) ∧
        ∀ bound, partitionPoint (fun e => decide (e.point.y < bound)) n.ys =
          countBelow bound n.ys.toList) ∧
      ∀ bound n start, root.Entered bound n start →
        (∃ lo hi, root.StandsFor points.length n lo hi) ∧
        (start = none ↔ ∀ e ∈ n.ys.toList, e.point.y < bound) ∧
        ∀ k, start = some k → k = countBelow bound n.ys.toList := by
  have hkeys : ∀ p ∈ points, p.IsKeyed := fun p hp =>
    ⟨Binary32.isKey_iff.mpr (hpoints p hp).1, Binary32.isKey_iff.mpr (hpoints p hp).2⟩
  have hitems : ∀ p ∈ inOrder points values, p.1.IsKeyed := isKeyed_inOrder hkeys
  have hsome : inOrder points values ≠ [] := by
    rw [← List.length_pos_iff, length_inOrder hlength]
    exact List.length_pos_iff.mpr hne
  obtain ⟨root, hroot, hover⟩ := RangeNode.exists_over_ofSorted? hsome
    (fun p hp => (hitems p hp).x) (pairwise_inOrder hkeys)
  refine ⟨root, ?_, fun n lo hi hn => ?_, fun bound n start hn => ?_⟩
  · have hzip : (points.zip values).length = points.length := by
      rw [List.length_zip, ← hlength, min_self]
    rw [← hroot, ← hzip]
    exact map_pairPoints hlength _
  · obtain ⟨hlt, hhi, hn⟩ := over_of_standsFor hlength hkeys hroot hn
    have hsorted := hn.pairwise_ys fun p hp =>
      hitems p (List.mem_of_mem_take (List.mem_of_mem_drop hp))
    exact ⟨hlt, hhi, hn.map_item_ys, hsorted, fun bound => partitionPoint_eq_countBelow hsorted⟩
  · refine ⟨hn.exists_standsFor _, ?_⟩
    obtain ⟨below, hbelow, hkeyed, rfl⟩ := hn.position hover hitems
    refine ⟨position_eq_none_iff, fun k hk => ?_⟩
    rw [position_eq_countBelow (hbelow.pairwise_ys hkeyed), Option.ite_none_right_eq_some] at hk
    exact (Option.some.inj hk.2).symm

/-- Two points at the left, of which the second is at zero. -/
def leftHalf : RangeNode Float32 ℕ :=
  .fork ⟨0, 1⟩ #[⟨⟨1, 0⟩, 13, some 0, some 0⟩, ⟨⟨0, 1⟩, 11, some 0, none⟩]
    (.leaf ⟨0, 1⟩ 11) (.leaf ⟨1, 0⟩ 13)

/-- Two points at the right, of which the first is at the other zero and the second below it. -/
def rightHalf : RangeNode Float32 ℕ :=
  .fork ⟨2, 3⟩ #[⟨⟨3, -5⟩, 10, some 0, some 0⟩, ⟨⟨2, .ofBits 0x80000000⟩, 12, some 0, none⟩]
    (.leaf ⟨2, .ofBits 0x80000000⟩ 12) (.leaf ⟨3, -5⟩ 10)

/-- The tree over both halves. The entry of the first zero refers to the second one, that of the
second behind the first. -/
def bothHalves : RangeNode Float32 ℕ :=
  .fork ⟨0, 3⟩ #[⟨⟨3, -5⟩, 10, some 0, some 0⟩, ⟨⟨1, 0⟩, 13, some 0, some 1⟩,
    ⟨⟨2, .ofBits 0x80000000⟩, 12, some 1, some 1⟩, ⟨⟨0, 1⟩, 11, some 1, none⟩] leftHalf rightHalf

/-- The points of the tree, in the order of `x`. -/
def bothPoints : List (Vec Float32) := [⟨0, 1⟩, ⟨1, 0⟩, ⟨2, .ofBits 0x80000000⟩, ⟨3, -5⟩]

/-- The values of the points. -/
def bothValues : List ℕ := [11, 13, 12, 10]

theorem length_bothPoints : bothPoints.length = bothValues.length := rfl

theorem build_bothHalves : build bothPoints bothValues = .ok ⟨4, some bothHalves⟩ := by
  have hleft : ¬ (1 : Float32) ≤ 0 := by decide +kernel
  have hright : ¬ Float32.ofBits 0x80000000 ≤ -5 := by decide +kernel
  have hacross : ¬ (0 : Float32) ≤ -5 := by decide +kernel
  have htie : (0 : Float32) ≤ .ofBits 0x80000000 := by decide +kernel
  have hlast : ¬ (1 : Float32) ≤ .ofBits 0x80000000 := by decide +kernel
  have hsorted : inOrder bothPoints bothValues = bothPoints.zip bothValues :=
    List.mergeSort_of_pairwise (by decide +kernel)
  have hroot : RangeNode.ofSorted? (inOrder bothPoints bothValues) = some bothHalves := by
    rw [hsorted]
    simp [bothPoints, bothValues, RangeNode.ofSorted?, merge, RangeNode.ys, bothHalves, leftHalf,
      rightHalf, hleft, hright, hacross, htie, hlast]
  rw [← hroot]
  exact map_pairPoints length_bothPoints _

/-- At the bound zero, the walk enters the right half behind the point below the bound, at a zero
that ties with the one it comes from, and that point alone not at all. -/
theorem references_lead_to_partition_points_tie :
    bothPoints.length = bothValues.length ∧ bothPoints ≠ [] ∧
      (∀ p ∈ bothPoints, p.x.isNaN = false ∧ p.y.isNaN = false) ∧
      build bothPoints bothValues = .ok ⟨4, some bothHalves⟩ ∧
      bothHalves.Entered 0 rightHalf (some 1) ∧ 1 = countBelow 0 rightHalf.ys.toList ∧
      bothHalves.Entered 0 (.leaf ⟨3, -5⟩ 10) none ∧ (-5 : Float32) < 0 := by
  have hpoints : ∀ p ∈ bothPoints, p.x.isNaN = false ∧ p.y.isNaN = false := by
    decide +kernel
  obtain ⟨root, hbuild, -, hwalk⟩ :=
    references_lead_to_partition_points length_bothPoints (List.cons_ne_nil _ _) hpoints
  obtain rfl : bothHalves = root :=
    Option.some.inj (congrArg RangeTree.root (Except.ok.inj (build_bothHalves.symm.trans hbuild)))
  have hstart : 1 = partitionPoint (fun e => decide (e.point.y < 0)) bothHalves.ys := by
    decide +kernel
  have hsize : 1 < bothHalves.ys.size := by decide +kernel
  have hroot : bothHalves.Entered 0 bothHalves (some 1) := .root hstart hsize
  have hright : bothHalves.Entered 0 rightHalf (some 1) :=
    .right (e := ⟨⟨1, 0⟩, 13, some 0, some 1⟩) hroot rfl
  have hlast : bothHalves.Entered 0 (.leaf ⟨3, -5⟩ 10) none :=
    .right (e := ⟨⟨2, .ofBits 0x80000000⟩, 12, some 0, none⟩) hright rfl
  refine ⟨length_bothPoints, List.cons_ne_nil _ _, hpoints, build_bothHalves, hright, ?_, hlast, ?_⟩
  · exact (hwalk 0 rightHalf (some 1) hright).2.2 1 rfl
  · have hbelow := (hwalk 0 (.leaf ⟨3, -5⟩ 10) none hlast).2.1.mp rfl
    exact hbelow ⟨⟨3, -5⟩, 10, none, none⟩ (List.mem_singleton_self _)

end RangeTree

end PlanarDynamics
