import PlanarDynamics.Proofs.PointIndex.KdTree
import PlanarDynamics.Proofs.PointIndex.RangeTree

/-!
# Point indices that check their accesses

The construction of both indices, and the query of the k-d tree, without a result where they would
read past an end. A query of a range tree follows no position before it has compared it with the
length of the array, so there is nothing to check in it.
-/

namespace PlanarDynamics

variable {α V : Type} [Scalar α]

namespace KdTree

/-- Arranges items so that the middle one of every range splits it. There has to be a middle one. -/
def arrange? (s : Selection) (level : Nat) (items : List (Vec α × V)) :
    Option (List (Vec α × V)) :=
  if items.length ≤ 1 then
    some items
  else
    let mid := (items.length - 1) / 2
    let placed := s.run (levelOrder level) mid items
    match _h : placed.drop mid with
    | [] => none
    | p :: upper => do
      let before ← arrange? s (level + 1) (placed.take mid)
      let behind ← arrange? s (level + 1) upper
      return before ++ p :: behind
termination_by items.length
decreasing_by
  · simp only [List.length_take]; omega
  · have hlen := congrArg List.length ‹placed.drop mid = p :: upper›
    have hperm : placed.length = items.length := (s.perm _ _ _).length_eq
    simp only [List.length_drop, List.length_cons] at hlen
    omega

/-- The tree that a selection routine arranges. -/
def buildWith? (s : Selection) (points : List (Vec α)) (values : List V) :
    Except LengthMismatch (Option (KdTree α V)) :=
  (pairPoints points values).map fun items => (arrange? s 0 items).map fun l => ⟨l.toArray⟩

/-- The values in a rectangle among the items from `lo` up to `hi`. -/
def queryRange? (items : Array (Vec α × V)) (r : Rect α) (level lo hi : Nat) : Option (List V) :=
  if lo < hi then
    let mid := lo + (hi - lo - 1) / 2
    match items[mid]? with
    | none => none
    | some (p, value) => do
      let span := if level % 2 = 0 then r.x else r.y
      let c := coordinate level p
      if span.stop < c then
        queryRange? items r (level + 1) lo mid
      else if c < span.start then
        queryRange? items r (level + 1) (mid + 1) hi
      else
        let before ← queryRange? items r (level + 1) lo mid
        let behind ← queryRange? items r (level + 1) (mid + 1) hi
        return (if r.contains p then [value] else []) ++ before ++ behind
  else
    some []
termination_by hi - lo

/-- The values of the points in a rectangle. -/
def query? (t : KdTree α V) (r : Rect α) : Option (List V) :=
  queryRange? t.items r 0 0 t.items.size

theorem arrange?_eq (s : Selection) (level : Nat) (items : List (Vec α × V)) :
    arrange? s level items = some (arrange s level items) := by
  fun_induction arrange s level items with
  | case1 level items hshort => rw [arrange?, if_pos hshort]
  | case2 level items hlong mid placed hdrop =>
    have hlength : placed.length = items.length := (s.perm _ _ _).length_eq
    have := List.drop_eq_nil_iff.mp hdrop
    omega
  | case3 level items hlong mid placed p upper hdrop ihl ihu =>
    rw [arrange?, if_neg hlong]
    dsimp only
    split
    case h_1 hnil => exact absurd (hdrop.symm.trans hnil) (List.cons_ne_nil _ _)
    case h_2 q rest hcons =>
      obtain ⟨rfl, rfl⟩ := List.cons.inj (hdrop.symm.trans hcons)
      simp only [mid, placed] at ihl
      simp only [ihl, ihu, Option.bind_eq_bind, Option.bind_some]
      rfl

theorem buildWith?_eq (s : Selection) (points : List (Vec α)) (values : List V) :
    buildWith? s points values = (buildWith s points values).map some := by
  unfold buildWith? buildWith
  cases pairPoints points values with
  | error e => rfl
  | ok items => simp only [Except.map, arrange?_eq, Option.map_some]

/-- A query of a range that ends within the items reads none beyond them. -/
theorem queryRange?_eq (items : Array (Vec α × V)) (r : Rect α) (level lo hi : Nat)
    (h : hi ≤ items.size) :
    queryRange? items r level lo hi = some (queryRange items r level lo hi) := by
  fun_induction queryRange items r level lo hi with
  | case1 level lo hi hlt mid hnone =>
    have hmid := Array.getElem?_eq_none_iff.mp hnone
    omega
  | case2 level lo hi hlt mid p value hmid span c hbeyond ih =>
    rw [queryRange?, if_pos hlt]
    simp only [mid] at hmid
    simp only [hmid]
    rw [if_pos (by exact hbeyond)]
    exact ih (by omega)
  | case3 level lo hi hlt mid p value hmid span c hbeyond hbelow ih =>
    rw [queryRange?, if_pos hlt]
    simp only [mid] at hmid
    simp only [hmid]
    rw [if_neg (by exact hbeyond), if_pos (by exact hbelow)]
    exact ih h
  | case4 level lo hi hlt mid p value hmid span c hbeyond hbelow ihl ihu =>
    rw [queryRange?, if_pos hlt]
    simp only [mid] at hmid
    simp only [hmid]
    rw [if_neg (by exact hbeyond), if_neg (by exact hbelow), ihl (by omega), ihu h]
    rfl
  | case5 level lo hi hge => rw [queryRange?, if_neg hge]

theorem query?_eq (t : KdTree α V) (r : Rect α) : t.query? r = some (t.query r) :=
  queryRange?_eq t.items r 0 0 _ (Nat.le_refl _)

end KdTree

namespace RangeNode

theorem isSome_ofSorted? {items : List (Vec α × V)} (hne : items ≠ []) :
    (ofSorted? items).isSome = true := by
  fun_induction ofSorted? items with
  | case1 => exact absurd rfl hne
  | case2 => rfl
  | case3 => rfl
  | case4 first second rest all mid hnone ihl ihr =>
    obtain ⟨l, hl⟩ := Option.isSome_iff_exists.mp (ihl (by simp [all, mid]))
    obtain ⟨r, hr⟩ := Option.isSome_iff_exists.mp (ihr (by simp [all, mid]; omega))
    exact absurd hr (hnone l r hl)

end RangeNode

namespace RangeTree

/-- Sorts the points and builds the tree over them. If there are points, there has to be one. -/
def build? (points : List (Vec α)) (values : List V) :
    Except LengthMismatch (Option (RangeTree α V)) :=
  (pairPoints points values).map fun items =>
    let root := RangeNode.ofSorted? (items.mergeSort fun a b => (pointOrder a b).isLE)
    if items = [] ∨ root.isSome then some ⟨items.length, root⟩ else none

theorem build?_eq (points : List (Vec α)) (values : List V) :
    build? points values = (build points values).map some := by
  unfold build? build
  cases pairPoints points values with
  | error e => rfl
  | ok items =>
    refine congrArg Except.ok (if_pos ?_)
    rw [or_iff_not_imp_left]
    intro hne
    have hsorted : (items.mergeSort fun a b => (pointOrder a b).isLE).Perm items :=
      List.mergeSort_perm ..
    exact RangeNode.isSome_ofSorted? fun hnil => hne (hnil ▸ hsorted).nil_eq.symm

end RangeTree

end PlanarDynamics
