import PlanarDynamics.Proofs.IntervalTree.KeyOrder
import PlanarDynamics.Proofs.IntervalTree.Layout

/-!
# Ordered layouts

A layout is ordered when all entries have keys and none is greater than one to its right. Equal
entries may stand on either side of each other: an insertion goes to the right of its equals, but a
rotation can lift any of them. Insertion and removal keep the order, and in an ordered tree the walk
of a removal misses no equal entry.
-/

namespace PlanarDynamics.Layout

variable {K V : Type} [LT K] [LE K] [DecidableLT K] [Ord V]

/-- All entries have keys, and none is greater than one to its right. -/
structure Ordered (y : Layout K V) : Prop where
  keyed : ∀ e ∈ y.entries, e.IsKeyed
  sorted : y.entries.Pairwise fun e f => (e.order f).isLE

theorem Ordered.nil : (nil : Layout K V).Ordered := ⟨by simp, by simp⟩

section Node

variable {l r : Layout K V} {i : Nat} {f g : IntervalEntry K V}

theorem Ordered.left (h : (node l i f r).Ordered) : l.Ordered := by
  have hsub : l.entries.Sublist (node l i f r).entries := by simp
  exact ⟨fun e he => h.keyed e (hsub.subset he), h.sorted.sublist hsub⟩

theorem Ordered.right (h : (node l i f r).Ordered) : r.Ordered := by
  have hsub : r.entries.Sublist (node l i f r).entries := by
    rw [entries_node]
    exact (List.sublist_cons_self f _).trans (List.sublist_append_right ..)
  exact ⟨fun e he => h.keyed e (hsub.subset he), h.sorted.sublist hsub⟩

theorem Ordered.top (h : (node l i f r).Ordered) : f.IsKeyed := h.keyed f (by simp)

theorem Ordered.left_le (h : (node l i f r).Ordered) (hg : g ∈ l.entries) :
    (g.order f).isLE := by
  have hsorted := h.sorted
  rw [entries_node, List.pairwise_append] at hsorted
  exact hsorted.2.2 g hg f (List.mem_cons_self ..)

theorem Ordered.le_right (h : (node l i f r).Ordered) (hg : g ∈ r.entries) :
    (f.order g).isLE := by
  have hsorted := h.sorted
  rw [entries_node, List.pairwise_append, List.pairwise_cons] at hsorted
  exact hsorted.2.1.1 g hg

variable [OrderedKeys K] [Std.TransOrd V]

/-- Two ordered trees with an entry between them. -/
theorem Ordered.sorted_node (hl : l.Ordered) (hf : f.IsKeyed) (hr : r.Ordered)
    (hleft : ∀ g ∈ l.entries, (g.order f).isLE) (hright : ∀ g ∈ r.entries, (f.order g).isLE) :
    (l.entries ++ f :: r.entries).Pairwise fun e f => (e.order f).isLE := by
  rw [List.pairwise_append, List.pairwise_cons]
  refine ⟨hl.sorted, ⟨hright, hr.sorted⟩, ?_⟩
  intro g hg e he
  rcases List.mem_cons.mp he with rfl | he
  · exact hleft g hg
  · exact (hl.keyed g hg).isLE_trans hf (hr.keyed e he) (hleft g hg) (hright e he)

end Node

variable [OrderedKeys K] [Std.TransOrd V] {y : Layout K V} {e : IntervalEntry K V}

theorem Ordered.insert (h : y.Ordered) (he : e.IsKeyed) (new : Nat) : (y.insert new e).Ordered := by
  have hmem : ∀ g, g ∈ (y.insert new e).entries ↔ g = e ∨ g ∈ y.entries := by
    intro g
    rw [(entries_insert new e y).mem_iff, List.mem_cons]
  refine ⟨fun g hg => ((hmem g).mp hg).elim (fun hge => hge ▸ he) (h.keyed g), ?_⟩
  clear hmem
  induction y with
  | nil => simp [Layout.insert]
  | node l i f r ihl ihr =>
    have hkeyed : ∀ {z : Layout K V}, z.Ordered → ∀ g ∈ (z.insert new e).entries, g.IsKeyed := by
      intro z hz g hg
      rcases List.mem_cons.mp ((entries_insert new e z).mem_iff.mp hg) with rfl | hg
      · exact he
      · exact hz.keyed g hg
    rw [Layout.insert]
    split
    case isTrue hlt =>
      rw [entries_rebalance]
      refine Ordered.sorted_node ⟨hkeyed h.left, ihl h.left⟩ h.top h.right ?_
        fun g hg => h.le_right hg
      intro g hg
      rcases List.mem_cons.mp ((entries_insert new e l).mem_iff.mp hg) with rfl | hg
      · rw [hlt]; rfl
      · exact h.left_le hg
    case isFalse hlt =>
      rw [entries_rebalance]
      refine Ordered.sorted_node h.left h.top ⟨hkeyed h.right, ihr h.right⟩
        (fun g hg => h.left_le hg) ?_
      intro g hg
      rcases List.mem_cons.mp ((entries_insert new e r).mem_iff.mp hg) with rfl | hg
      · rw [h.top.order_swap he]
        cases horder : g.order f with
        | lt => exact absurd horder hlt
        | eq => rfl
        | gt => rfl
      · exact h.le_right hg

omit [OrderedKeys K] [Std.TransOrd V] in
theorem Ordered.remove (h : y.Ordered) (e : IntervalEntry K V) : (y.remove e).1.Ordered := by
  have hsub : (y.remove e).1.entries.Sublist y.entries := (items_remove_sublist e y).map Prod.snd
  exact ⟨fun g hg => h.keyed g (hsub.subset hg), h.sorted.sublist hsub⟩

/-- A removal that finds nothing has looked everywhere: on the side that the walk leaves out, no
entry is equal. -/
theorem Ordered.order_ne_eq (h : y.Ordered) (he : e.IsKeyed) (hnone : (y.remove e).2 = none)
    {g : IntervalEntry K V} (hg : g ∈ y.entries) : e.order g ≠ .eq := by
  induction y with
  | nil => simp at hg
  | node l i f r ihl ihr =>
    rw [Layout.remove] at hnone
    rw [entries_node, List.mem_append, List.mem_cons] at hg
    have hgf : g ∈ r.entries → e.order f = .lt → e.order g = .lt := fun hg hlt =>
      he.lt_of_lt_of_isLE h.top (h.right.keyed g hg) hlt (h.le_right hg)
    have hfg : g ∈ l.entries → e.order f = .gt → e.order g = .gt := by
      intro hg hgt
      have hfe : f.order e = .lt := by rw [h.top.order_swap he, hgt]; rfl
      have hge : g.order e = .lt :=
        (h.left.keyed g hg).lt_of_isLE_of_lt h.top he (h.left_le hg) hfe
      rw [he.order_swap (h.left.keyed g hg), hge]
      rfl
    split at hnone
    case h_1 hlt =>
      rcases hg with hg | rfl | hg
      · exact ihl h.left hnone hg
      · simp [hlt]
      · simp [hgf hg hlt]
    case h_2 hgt =>
      rcases hg with hg | rfl | hg
      · simp [hfg hg hgt]
      · simp [hgt]
      · exact ihr h.right hnone hg
    case h_3 => exact absurd hnone (by simp)

end PlanarDynamics.Layout
