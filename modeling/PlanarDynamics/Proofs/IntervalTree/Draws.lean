import Mathlib.Data.List.Perm.Basic
import Mathlib.Data.List.Nodup
import PlanarDynamics.Proofs.IntervalTree.Search

/-!
# Trees that draw a layout

What holds of a tree between calls, whatever its keys: the links from the root draw a layout, every
slot of the arena belongs to the layout or is free, and the entries are counted. Each call leads
from the layout to the one that the call of the same name gives.
-/

namespace PlanarDynamics

variable {K V : Type} [LT K] [DecidableLT K]

/-- The tree draws the layout `y`, and its slots are those of `y` and the free ones. -/
structure Draws (t : IntervalTree K V) (y : Layout K V) : Prop where
  stores : y.Stores t.arena
  root : t.root = y.top
  slots : (y.slots ++ t.arena.free).Perm (List.range t.arena.nodes.size)
  size : t.size = y.slots.length

namespace Draws

variable {t : IntervalTree K V} {y : Layout K V}

theorem empty : Draws (IntervalTree.empty : IntervalTree K V) .nil :=
  ⟨trivial, rfl, .refl _, rfl⟩

theorem withCapacity (capacity : Nat) :
    Draws (IntervalTree.withCapacity capacity : IntervalTree K V) .nil := empty

theorem nodup (h : Draws t y) : (y.slots ++ t.arena.free).Nodup :=
  h.slots.nodup_iff.mpr List.nodup_range

theorem lt_of_mem_free (h : Draws t y) {i : Nat} (hi : i ∈ t.arena.free) :
    i < t.arena.nodes.size :=
  List.mem_range.mp (h.slots.mem_iff.mp (List.mem_append_right _ hi))

theorem nextSlot_notMem (h : Draws t y) : t.arena.nextSlot ∉ y.slots := by
  intro hmem
  have hlt : t.arena.nextSlot < t.arena.nodes.size :=
    List.mem_range.mp (h.slots.mem_iff.mp (List.mem_append_left _ hmem))
  have hnodup := h.nodup
  unfold IntervalArena.nextSlot at hmem hlt
  cases hfree : t.arena.free with
  | nil =>
    rw [hfree] at hlt
    exact Nat.lt_irrefl _ hlt
  | cons i rest =>
    rw [hfree] at hmem hnodup
    exact (List.nodup_append.mp hnodup).2.2 i hmem i (List.mem_cons_self ..) rfl

/-- While there is an entry, some slot is not free. -/
theorem length_free_lt (h : Draws t y) (hroot : t.root ≠ none) :
    t.arena.free.length < t.arena.nodes.size := by
  have hlength := h.slots.length_eq
  rw [h.root] at hroot
  cases y with
  | nil => exact absurd rfl hroot
  | node l i e r =>
    simp only [Layout.slots_node, List.length_append, List.length_cons,
      List.length_range] at hlength
    omega

/-- There are as many slots as a walk may visit levels, so no walk is cut short. -/
theorem height_le_depth (h : Draws t y) : y.height ≤ t.depth := by
  have hlength := h.slots.length_eq
  rw [List.length_append, List.length_range] at hlength
  have hheight := y.height_le_length
  unfold IntervalTree.depth
  omega

theorem slots_allocate (h : Draws t y) (e : IntervalEntry K V) :
    (t.arena.nextSlot :: y.slots ++ (t.arena.allocate e).1.free).Perm
      (List.range (t.arena.allocate e).1.nodes.size) := by
  have hslots := h.slots
  cases hfree : t.arena.free with
  | nil =>
    simp only [hfree, List.append_nil] at hslots
    simp only [IntervalArena.nextSlot, IntervalArena.allocate, hfree, List.append_nil,
      Array.size_push, List.range_succ]
    exact (hslots.cons _).trans (List.perm_append_singleton ..).symm
  | cons i rest =>
    rw [hfree] at hslots
    simp only [IntervalArena.nextSlot, IntervalArena.allocate, hfree, Array.size_setIfInBounds]
    exact List.perm_middle.symm.trans hslots

theorem size_eq (h : Draws t y) : t.size = y.entries.length := by
  rw [h.size, Layout.slots, Layout.entries, List.length_map, List.length_map]

theorem preorder (h : Draws t y) : t.preorder = y.preorder := by
  rw [IntervalTree.preorder, h.root]
  exact h.stores.preorderAt h.height_le_depth

theorem toList (h : Draws t y) : t.toList = y.entries := by
  rw [IntervalTree.toList, h.root]
  exact h.stores.entriesAt h.height_le_depth

theorem searchAll [LE K] [DecidableLE K] (h : Draws t y) (low high : K) :
    t.searchAll low high = y.search low high := by
  rw [IntervalTree.searchAll, h.root]
  exact h.stores.searchAt h.height_le_depth low high

section Calls

variable [Ord V]

theorem insertAt (h : Draws t y) (e : IntervalEntry K V) :
    ∃ b j, t.arena.insertAt t.depth t.root e = some (b, j) ∧
      (y.insert t.arena.nextSlot e).top = some j ∧
        Layout.Yields (t.arena.allocate e).1 (y.insert t.arena.nextSlot e) b := by
  rw [h.root]
  exact h.stores.insertAt e (List.nodup_append.mp h.nodup).1 (fun i hi => h.lt_of_mem_free hi)
    h.nextSlot_notMem h.height_le_depth

theorem removeAt (h : Draws t y) (e : IntervalEntry K V) :
    ∃ b, t.arena.removeAt t.depth t.root e = some (b, (y.remove e).1.top, (y.remove e).2.isSome) ∧
      (y.remove e).1.Stores b ∧ OnlyAt y.slots (t.arena.released (y.remove e).2) b := by
  rw [h.root]
  exact h.stores.removeAt e (List.nodup_append.mp h.nodup).1 h.height_le_depth

theorem insert (h : Draws t y) (e : IntervalEntry K V) :
    Draws (t.insert e) (y.insert t.arena.nextSlot e) := by
  obtain ⟨b, j, hb, hj, hy⟩ := h.insertAt e
  have htree : t.insert e = ⟨b, some j, t.size + 1⟩ := by
    rw [IntervalTree.insert, hb]
  have hperm := Layout.slots_insert t.arena.nextSlot e y
  rw [htree]
  refine ⟨hy.stores, hj.symm, ?_, ?_⟩
  · rw [hy.only.free, hy.only.size]
    exact (hperm.append_right _).trans (h.slots_allocate e)
  · rw [hperm.length_eq, List.length_cons, h.size]

theorem remove (h : Draws t y) (e : IntervalEntry K V) :
    Draws (t.remove e).1 (y.remove e).1 ∧ (t.remove e).2 = (y.remove e).2.isSome := by
  obtain ⟨b, hb, hstores, honly⟩ := h.removeAt e
  have hslots := h.slots
  cases hremoved : (y.remove e).2 with
  | none =>
    rw [hremoved] at hb honly
    have htree : t.remove e = (⟨b, (y.remove e).1.top, t.size⟩, false) := by
      rw [IntervalTree.remove, hb]
      rfl
    have hitems : (y.remove e).1.slots = y.slots := by
      rw [Layout.slots, Layout.items_remove_of_none hremoved, Layout.slots]
    rw [htree]
    refine ⟨⟨hstores, rfl, ?_, ?_⟩, rfl⟩
    · rw [hitems, honly.free, honly.size]
      exact hslots
    · rw [hitems]
      exact h.size
  | some p =>
    rw [hremoved] at hb honly
    have htree : t.remove e = (⟨b, (y.remove e).1.top, t.size - 1⟩, true) := by
      rw [IntervalTree.remove, hb]
      rfl
    obtain ⟨-, xs, ys, hitems, hrest⟩ := Layout.items_remove_of_some hremoved
    have hperm : y.slots.Perm (p.1 :: (y.remove e).1.slots) := by
      simp only [Layout.slots, hitems, hrest, List.map_append, List.map_cons]
      exact List.perm_middle
    rw [htree]
    refine ⟨⟨hstores, rfl, ?_, ?_⟩, rfl⟩
    · rw [honly.free, honly.size, IntervalArena.released_nodes]
      exact (List.perm_middle.trans (hperm.symm.append_right _)).trans hslots
    · rw [h.size, hperm.length_eq, List.length_cons, Nat.add_sub_cancel]

end Calls

end Draws

end PlanarDynamics
