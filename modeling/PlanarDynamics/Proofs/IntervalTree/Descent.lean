import PlanarDynamics.Proofs.IntervalTree.Stores

/-!
# Walks over a stored layout

Each walk of the arena, started at the top of a tree that the arena holds and allowed as many
levels as the tree has, has a result, and the result is what the layout says. The induction is on
the layout. An insertion is described against the arena in which the new slot is already taken and
a removal against the one in which the slot is already released, so that in both cases only slots of
the tree are left to be changed.
-/

namespace PlanarDynamics

variable {K V : Type}

namespace IntervalArena

/-- The slot that is given out next. -/
def nextSlot (a : IntervalArena K V) : Nat :=
  match a.free with
  | i :: _ => i
  | [] => a.nodes.size

theorem allocate_snd (a : IntervalArena K V) (e : IntervalEntry K V) :
    (a.allocate e).2 = a.nextSlot := by
  cases h : a.free <;> simp only [allocate, nextSlot, h]

/-- Taking a slot changes no other. -/
theorem allocate_nodes (a : IntervalArena K V) (e : IntervalEntry K V) {j : Nat}
    (hj : j ≠ a.nextSlot) : (a.allocate e).1.nodes[j]? = a.nodes[j]? := by
  cases h : a.free with
  | nil =>
    simp only [nextSlot, h] at hj
    simp only [allocate, h, Array.getElem?_push, if_neg hj]
  | cons i rest =>
    simp only [nextSlot, h] at hj
    simp only [allocate, h, Array.getElem?_setIfInBounds_ne hj.symm]

theorem allocate_nodes_self (a : IntervalArena K V) (e : IntervalEntry K V)
    (hfree : ∀ i ∈ a.free, i < a.nodes.size) :
    (a.allocate e).1.nodes[a.nextSlot]? = some (.single e) := by
  cases h : a.free with
  | nil => simp only [allocate, nextSlot, h, Array.getElem?_push_size]
  | cons i rest =>
    have hi : i < a.nodes.size := hfree i (by simp [h])
    simp only [allocate, nextSlot, h, Array.getElem?_setIfInBounds_self_of_lt hi]

/-- The arena after the slot of an item is released, if there is one. -/
def released (a : IntervalArena K V) : Option (Nat × IntervalEntry K V) → IntervalArena K V
  | none => a
  | some p => a.release p.1

@[simp] theorem released_nodes (a : IntervalArena K V) (o : Option (Nat × IntervalEntry K V)) :
    (a.released o).nodes = a.nodes := by
  cases o <;> rfl

end IntervalArena

namespace Layout

variable [LT K] [DecidableLT K]

section Insertion

variable [Ord V]

theorem Stores.insertAt {a : IntervalArena K V} {y : Layout K V} {d : Nat}
    (e : IntervalEntry K V) (h : y.Stores a) (hnodup : y.slots.Nodup)
    (hfree : ∀ i ∈ a.free, i < a.nodes.size) (hnew : a.nextSlot ∉ y.slots) (hd : y.height ≤ d) :
    ∃ b j, a.insertAt d y.top e = some (b, j) ∧ (y.insert a.nextSlot e).top = some j ∧
      Yields (a.allocate e).1 (y.insert a.nextSlot e) b := by
  induction y generalizing d with
  | nil =>
    refine ⟨(a.allocate e).1, a.nextSlot, ?_, rfl, ⟨?_, trivial, trivial⟩, .refl _ _⟩
    · rw [← a.allocate_snd e]
      exact IntervalArena.insertAt.eq_1 ..
    · exact a.allocate_nodes_self e hfree
  | node l i f r ihl ihr =>
    obtain ⟨hi, hl, hr⟩ := h
    obtain ⟨d, rfl, hdl, hdr⟩ := height_node_le hd
    simp only [slots_node] at hnodup hnew
    have hnodup' : (a.nextSlot :: (l.slots ++ i :: r.slots)).Nodup :=
      List.nodup_cons.mpr ⟨hnew, hnodup⟩
    have hnewi : i ≠ a.nextSlot := by rintro rfl; simp at hnew
    simp only [top, IntervalArena.insertAt, hi, Option.bind_eq_bind, Option.bind_some]
    by_cases hlt : e.order f = .lt
    · have hmem (s : Nat) : s ∈ (insert a.nextSlot e l).slots ↔ s ∈ a.nextSlot :: l.slots :=
        (slots_insert a.nextSlot e l).mem_iff
      have hnodup_new : ((insert a.nextSlot e l).slots ++ i :: r.slots).Nodup :=
        (((slots_insert a.nextSlot e l).append_right _).nodup_iff).mpr hnodup'
      obtain ⟨b, j, hb, htop, hy⟩ := ihl hl (by grind) (by grind) hdl
      rw [if_pos (by exact hlt), Layout.insert, if_pos hlt]
      have hib : b.nodes[i]? = some (record l f r) :=
        ((hy.only.nodes i (by grind)).trans (a.allocate_nodes e hnewi)).trans hi
      have hrb : r.Stores b :=
        (hr.congr fun s hs => a.allocate_nodes e (by grind)).beside hy.only (by grind)
      obtain ⟨c, k, hc, hk, hz⟩ := Stores.restoreLeft hib hy.stores hrb hnodup_new
      refine ⟨c, k, ?_, hk, hz.stores, (hy.only.mono ?_).trans hz.only⟩
      · simp only [record, hb, Option.bind_some]
        rw [← htop]
        exact hc
      · simp
    · have hmem (s : Nat) : s ∈ (insert a.nextSlot e r).slots ↔ s ∈ a.nextSlot :: r.slots :=
        (slots_insert a.nextSlot e r).mem_iff
      have hnodup_new : (l.slots ++ i :: (insert a.nextSlot e r).slots).Nodup := by
        have hperm : (l.slots ++ i :: (insert a.nextSlot e r).slots).Perm
            (a.nextSlot :: (l.slots ++ i :: r.slots)) :=
          ((((slots_insert a.nextSlot e r).cons i).trans (List.Perm.swap ..)).append_left
            l.slots).trans List.perm_middle
        exact hperm.nodup_iff.mpr hnodup'
      obtain ⟨b, j, hb, htop, hy⟩ := ihr hr (by grind) (by grind) hdr
      rw [if_neg (by exact hlt), Layout.insert, if_neg hlt]
      have hib : b.nodes[i]? = some (record l f r) :=
        ((hy.only.nodes i (by grind)).trans (a.allocate_nodes e hnewi)).trans hi
      have hlb : l.Stores b :=
        (hl.congr fun s hs => a.allocate_nodes e (by grind)).beside hy.only (by grind)
      obtain ⟨c, k, hc, hk, hz⟩ := Stores.restoreRight hib hlb hy.stores hnodup_new
      refine ⟨c, k, ?_, hk, hz.stores, (hy.only.mono ?_).trans hz.only⟩
      · simp only [record, hb, Option.bind_some]
        rw [← htop]
        exact hc
      · rw [slots_rebalance]
        exact fun s hs => List.mem_append_right _ (List.mem_cons_of_mem _ hs)

end Insertion

section Removal

/-- The first slot holds the first entry. -/
theorem Stores.first? {a : IntervalArena K V} {y : Layout K V} {p : Nat × IntervalEntry K V}
    (h : y.Stores a) (hp : y.first? = some p) :
    ∃ n, a.nodes[p.1]? = some n ∧ n.entry = p.2 := by
  fun_induction Layout.first? y with
  | case1 => exact absurd hp (by simp)
  | case2 i e r =>
    obtain rfl : (i, e) = p := Option.some.inj hp
    exact ⟨_, h.1, rfl⟩
  | case3 l i e r _ ih => exact ih h.2.1 hp

theorem Stores.firstSlot {a : IntervalArena K V} {y : Layout K V} {d i : Nat}
    {p : Nat × IntervalEntry K V} (h : y.Stores a) (htop : y.top = some i)
    (hp : y.first? = some p) (hd : y.height ≤ d) : a.firstSlot d i = some p.1 := by
  induction y generalizing d i with
  | nil => exact absurd htop (by simp [top])
  | node l j e r ihl =>
    obtain rfl : j = i := Option.some.inj htop
    obtain ⟨d, rfl, hdl, -⟩ := height_node_le hd
    simp only [IntervalArena.firstSlot, h.1, Option.bind_eq_bind, Option.bind_some, record]
    cases l with
    | nil =>
      obtain rfl : (j, e) = p := Option.some.inj hp
      rfl
    | node x k f z =>
      exact ihl h.2.1 rfl hp hdl

theorem Stores.detachFirst {a : IntervalArena K V} {y : Layout K V} {d i : Nat}
    (h : y.Stores a) (hnodup : y.slots.Nodup) (htop : y.top = some i) (hd : y.height ≤ d) :
    ∃ b, a.detachFirst d i = some (b, y.detachFirst.top) ∧ Yields a y.detachFirst b := by
  induction y generalizing d i with
  | nil => exact absurd htop (by simp [top])
  | node l j e r ihl =>
    obtain rfl : j = i := Option.some.inj htop
    obtain ⟨d, rfl, hdl, -⟩ := height_node_le hd
    simp only [IntervalArena.detachFirst, h.1, Option.bind_eq_bind, Option.bind_some, record]
    cases l with
    | nil => exact ⟨a, rfl, h.2.2, .refl _ _⟩
    | node x k f z =>
      obtain ⟨p, hp, -⟩ := exists_first? (y := node x k f z) (by simp)
      have hslots := slots_eq_cons_of_first? hp
      rw [slots_node, hslots] at hnodup
      obtain ⟨b, hb, hy⟩ := ihl h.2.1 (by grind) rfl hdl
      have hjb : b.nodes[j]? = some (record (node x k f z) e r) :=
        (hy.only.nodes j (by grind)).trans h.1
      obtain ⟨c, i, hc, hi, hz⟩ := Stores.restoreLeft hjb hy.stores
        (h.2.2.beside hy.only (by grind)) (List.nodup_cons.mp hnodup).2
      rw [detachFirst_node]
      refine ⟨c, ?_, hz.stores, (hy.only.mono ?_).trans hz.only⟩
      · simp only [top_node, hb, Option.bind_some, hc, hi]
        rfl
      · rw [slots_rebalance]
        exact List.subset_append_left ..

theorem Stores.removeTop {a : IntervalArena K V} {l r : Layout K V} {d i : Nat}
    {e : IntervalEntry K V} (h : (node l i e r).Stores a)
    (hnodup : (node l i e r).slots.Nodup) (hd : r.height ≤ d) :
    ∃ b, a.removeTop d i (record l e r) = some (b, (withoutTop l r).top) ∧
      Yields (a.release i) (withoutTop l r) b := by
  have hl : l.Stores (a.release i) := h.2.1.congr fun _ _ => rfl
  have hr : r.Stores (a.release i) := h.2.2.congr fun _ _ => rfl
  cases l with
  | nil => exact ⟨a.release i, rfl, hr, .refl _ _⟩
  | node x k f z =>
    cases r with
    | nil => exact ⟨a.release i, rfl, hl, .refl _ _⟩
    | node u m g w =>
      obtain ⟨⟨j, t⟩, hp, -⟩ := exists_first? (y := node u m g w) (by simp)
      have hslots := slots_eq_cons_of_first? hp
      have hfirst := hr.firstSlot rfl hp hd
      obtain ⟨n, hn, hnt⟩ := hr.first? hp
      rw [slots_node, hslots] at hnodup
      obtain ⟨b, hb, hy⟩ := hr.detachFirst (by grind) rfl hd
      let y := (node u m g w).detachFirst
      let b₁ := (b.setRight j y.top).setLeft j (some k)
      have hlocal : OnlyAt [j] b b₁ := (OnlyAt.modify ..).trans (.modify ..)
      have hmerged : ((node x k f z).slots ++ j :: y.slots).Nodup :=
        hnodup.sublist ((List.sublist_cons_self i _).append_left _)
      have hjoin : Joins b₁ (node x k f z) j t y := by
        refine ⟨⟨{ n with left := some k, right := y.top }, ?_, hnt, rfl, rfl⟩, ?_, ?_, hmerged⟩
        · exact IntervalArena.getElem?_modify_self (IntervalArena.getElem?_modify_self
            ((hy.only.nodes j (by grind)).trans hn) _) _
        · exact (hl.beside hy.only (by grind)).beside hlocal (by grind)
        · exact hy.stores.beside hlocal (by grind)
      obtain ⟨c, o, hc, ho, hz⟩ := hjoin.restore
      have hlast : withoutTop (node x k f z) (node u m g w) =
          Layout.rebalance (node x k f z) j t y := by
        simp only [withoutTop, hp, y]
      rw [hlast]
      refine ⟨c, ?_, hz.stores, ?_⟩
      · simp only [IntervalArena.removeTop, record, top_node, hfirst, hb, Option.bind_eq_bind,
          Option.bind_some, ho]
        rw [hc]
        rfl
      · refine ((hy.only.mono ?_).trans (hlocal.mono (by simp))).trans hz.only
        rw [slots_rebalance]
        exact fun s hs => List.mem_append_right _ (List.mem_cons_of_mem _ hs)

variable [Ord V]

theorem Stores.removeAt {a : IntervalArena K V} {y : Layout K V} {d : Nat}
    (e : IntervalEntry K V) (h : y.Stores a) (hnodup : y.slots.Nodup) (hd : y.height ≤ d) :
    ∃ b, a.removeAt d y.top e = some (b, (y.remove e).1.top, (y.remove e).2.isSome) ∧
      (y.remove e).1.Stores b ∧ OnlyAt y.slots (a.released (y.remove e).2) b := by
  induction y generalizing d with
  | nil => exact ⟨a, IntervalArena.removeAt.eq_1 .., trivial, .refl _ _⟩
  | node l i f r ihl ihr =>
    obtain ⟨d, rfl, hdl, hdr⟩ := height_node_le hd
    obtain ⟨hi, hl, hr⟩ := id h
    have hdisj := hnodup
    rw [slots_node] at hdisj
    simp only [top_node, IntervalArena.removeAt, hi, Option.bind_eq_bind, Option.bind_some, record]
    cases horder : e.order f with
    | lt =>
      have hrm : (node l i f r).remove e =
          (Layout.rebalance (l.remove e).1 i f r, (l.remove e).2) := by
        rw [Layout.remove, horder]
      obtain ⟨b, hb, hy, honly⟩ := ihl hl (by grind) hdl
      have hsub := slots_remove_sublist e l
      have hib : b.nodes[i]? = some (record l f r) := by
        rw [honly.nodes i (by grind), IntervalArena.released_nodes, hi]
      have hrb : r.Stores b :=
        (hr.congr fun s _ => by rw [IntervalArena.released_nodes]).beside honly (by grind)
      obtain ⟨c, j, hc, hj, hz⟩ := Stores.restoreLeft hib hy hrb
        (hdisj.sublist (hsub.append_right _))
      rw [hrm]
      refine ⟨c, ?_, hz.stores, (honly.mono ?_).trans (hz.only.mono ?_)⟩
      · simp only [hb, Option.bind_some, hc, hj]
        rfl
      · simp
      · rw [slots_rebalance, slots_node]
        exact (hsub.append_right _).subset
    | gt =>
      have hrm : (node l i f r).remove e =
          (Layout.rebalance l i f (r.remove e).1, (r.remove e).2) := by
        rw [Layout.remove, horder]
      obtain ⟨b, hb, hy, honly⟩ := ihr hr (by grind) hdr
      have hsub := slots_remove_sublist e r
      have hib : b.nodes[i]? = some (record l f r) := by
        rw [honly.nodes i (by grind), IntervalArena.released_nodes, hi]
      have hlb : l.Stores b :=
        (hl.congr fun s _ => by rw [IntervalArena.released_nodes]).beside honly (by grind)
      obtain ⟨c, j, hc, hj, hz⟩ := Stores.restoreRight hib hlb hy
        (hdisj.sublist ((hsub.cons_cons i).append_left _))
      rw [hrm]
      refine ⟨c, ?_, hz.stores, (honly.mono ?_).trans (hz.only.mono ?_)⟩
      · simp only [hb, Option.bind_some, hc, hj]
        rfl
      · rw [slots_node]
        exact fun s hs => List.mem_append_right _ (List.mem_cons_of_mem _ hs)
      · rw [slots_rebalance, slots_node]
        exact ((hsub.cons_cons i).append_left _).subset
    | eq =>
      have hrm : (node l i f r).remove e = (withoutTop l r, some (i, f)) := by
        rw [Layout.remove, horder]
      obtain ⟨b, hb, hy⟩ := h.removeTop hnodup hdr
      rw [hrm]
      refine ⟨b, ?_, hy.stores, hy.only.mono ?_⟩
      · simp only [record] at hb
        simp only [hb, Option.bind_some]
        rfl
      · rw [slots, items_withoutTop, slots_node, List.map_append]
        exact ((List.sublist_cons_self i _).append_left _).subset

end Removal

/-! ## Walks that read -/

theorem Stores.entriesAt {a : IntervalArena K V} {y : Layout K V} {d : Nat} (h : y.Stores a)
    (hd : y.height ≤ d) : a.entriesAt d y.top = y.entries := by
  induction y generalizing d with
  | nil => cases d <;> rfl
  | node l i e r ihl ihr =>
    obtain ⟨d, rfl, hdl, hdr⟩ := height_node_le hd
    simp only [IntervalArena.entriesAt, IntervalArena.node?, top_node, Option.bind_some, h.1,
      record, ihl h.2.1 hdl, ihr h.2.2 hdr, entries_node]

end Layout

end PlanarDynamics
