import Mathlib.Data.List.Perm.Subperm
import PlanarDynamics.Proofs.PointIndex.KdTree
import PlanarDynamics.Proofs.PointIndex.RangeTree

/-!
# Reports without repetition

A query reports no value more often than it was put into the index. For a range tree this asks
nothing of the coordinates: a walk goes down each side of a split at most once, and the array of a
node holds the points below it, in whatever order merging brought them.
-/

namespace PlanarDynamics

variable {α V : Type}

/-- No index of the kind over the values reports one of them more often than it was put in. -/
def ReportsOnce (ι : Type → Type) [PointIndex ι α] (points : List (Vec α)) (values : List V) :
    Prop :=
  ∀ index : ι V, PointIndex.build points values = .ok index → ∀ r : Rect α,
    (PointIndex.query index r).Subperm values

/-- The values at points are some of all values. -/
theorem zip_values_sublist (points : List (Vec α)) (values : List V) :
    ((points.zip values).map Prod.snd).Sublist values := by
  induction points generalizing values with
  | nil => exact List.nil_sublist _
  | cons p points ih =>
    cases values with
    | nil => exact .slnil
    | cons v values => exact (ih values).cons_cons v

variable [Scalar α]

namespace KdTree

theorem reportsOnce [LawfulScalar α] (s : Selection) (points : List (Vec α)) (values : List V) :
    @ReportsOnce α V (KdTree α) ⟨buildWith s, query⟩ points values := by
  intro t ht r
  refine (query_perm s ht r).subperm.trans (List.Sublist.subperm ?_)
  exact (List.filter_sublist.map _).trans (zip_values_sublist points values)

end KdTree

namespace RangeNode

open YEntry

theorem merged_ofSorted? (items : List (Vec α × V)) :
    ∀ n ∈ ofSorted? items, n.Merged ∧ n.items = items := by
  fun_induction ofSorted? items with
  | case1 => simp
  | case2 p v =>
    rintro _ ⟨⟩
    exact ⟨.leaf p v, rfl⟩
  | case3 first second rest all mid l r hr hl last ihl ihr =>
    rintro _ ⟨⟩
    obtain ⟨hleft, hl_items⟩ := ihl l hl
    obtain ⟨hright, hr_items⟩ := ihr r hr
    refine ⟨.fork _ hleft hright, ?_⟩
    rw [RangeNode.items, hl_items, hr_items]
    exact List.take_append_drop ..
  | case4 => simp

variable {n : RangeNode α V}

theorem Merged.report_subperm (h : n.Merged) (start : Nat) (top : α) :
    (report n.ys start top).Subperm (n.items.map Prod.snd) := by
  have hsub : (report n.ys start top).Sublist (n.ys.toList.map (·.value)) :=
    ((List.takeWhile_sublist _).trans (List.drop_sublist ..)).map _
  have hperm : (n.ys.toList.map (·.value)).Perm (n.items.map Prod.snd) := by
    have := h.map_item_ys.map Prod.snd
    rwa [List.map_map] at this
  exact hsub.subperm.trans hperm.subperm

/-- A walk down reports the points of each side at most once. -/
theorem Merged.query_subperm (h : n.Merged) (r : Rect α) (start : Option Nat) :
    (n.query r start).Subperm (n.items.map Prod.snd) := by
  induction h generalizing start with
  | leaf p v =>
    cases start with
    | none => exact List.nil_subperm
    | some start =>
      rw [query]
      split_ifs
      · exact List.nil_subperm
      · exact (Merged.leaf p v).report_subperm ..
      · exact .refl _
      · exact List.nil_subperm
  | @fork left right x hl hr ihl ihr =>
    cases start with
    | none => exact List.nil_subperm
    | some start =>
      rw [query]
      split
      case h_1 => exact List.nil_subperm
      case h_2 e _ =>
        split_ifs
        · exact List.nil_subperm
        · exact (Merged.fork x hl hr).report_subperm ..
        · rw [items, List.map_append]
          exact (ihl e.left).append (ihr e.right)

end RangeNode

namespace RangeTree

theorem query_subperm {items : List (Vec α × V)} {n : Nat} (r : Rect α) :
    (query ⟨n, RangeNode.ofSorted? items⟩ r).Subperm (items.map Prod.snd) := by
  unfold query
  split
  case h_1 => exact List.nil_subperm
  case h_2 root hroot =>
    obtain ⟨hmerged, hitems⟩ := RangeNode.merged_ofSorted? items root hroot
    rw [← hitems]
    dsimp only
    split
    case isTrue => exact hmerged.query_subperm ..
    case isFalse => exact List.nil_subperm

theorem reportsOnce (points : List (Vec α)) (values : List V) :
    ReportsOnce (RangeTree α) points values := by
  intro t ht r
  obtain rfl := eq_of_map_pairPoints ht
  have hsorted : ((points.zip values).mergeSort fun a b => (pointOrder a b).isLE).Perm
      (points.zip values) := List.mergeSort_perm ..
  exact ((query_subperm r).trans (hsorted.map _).subperm).trans
    (zip_values_sublist points values).subperm

end RangeTree

end PlanarDynamics
