import PlanarDynamics.Proofs.IntervalTree.Descent
import PlanarDynamics.Proofs.IntervalTree.Ordered

/-!
# Search in a stored layout

The walk of a search leaves subtrees out: all of one whose largest upper end lies below the range,
and the right one of a node that begins above it. In an ordered tree neither holds an entry that
overlaps the range, so the search reports what the full walk in the same order lists.
-/

namespace PlanarDynamics

variable {K V : Type}

namespace IntervalArena

/-- The entries below a link, each node before its left subtree and that before the right one. -/
def preorderAt (depth : Nat) (a : IntervalArena K V) (link : Option Nat) :
    List (IntervalEntry K V) :=
  match depth with
  | 0 => []
  | depth + 1 =>
    match a.node? link with
    | none => []
    | some n => n.entry :: (preorderAt depth a n.left ++ preorderAt depth a n.right)

end IntervalArena

namespace Layout

theorem filter_preorder_eq_nil {y : Layout K V} {p : IntervalEntry K V → Bool}
    (h : ∀ e ∈ y.entries, p e = false) : y.preorder.filter p = [] := by
  rw [List.filter_eq_nil_iff]
  intro e he
  simp [h e ((preorder_perm y).mem_iff.mp he)]

variable [LT K] [DecidableLT K]

theorem Stores.preorderAt {a : IntervalArena K V} {y : Layout K V} {d : Nat} (h : y.Stores a)
    (hd : y.height ≤ d) : a.preorderAt d y.top = y.preorder := by
  induction y generalizing d with
  | nil => cases d <;> rfl
  | node l i e r ihl ihr =>
    obtain ⟨d, rfl, hdl, hdr⟩ := height_node_le hd
    simp only [IntervalArena.preorderAt, IntervalArena.node?, top_node, Option.bind_some, h.1,
      record, ihl h.2.1 hdl, ihr h.2.2 hdr, preorder]

section Bounds

variable [LE K]

theorem isKey_raise {m : K} {o : Option K} (hm : IsKey m) (ho : ∀ k ∈ o, IsKey k) :
    IsKey (raise m o) := by
  cases o with
  | none => exact hm
  | some k => exact hm.maxKey (ho k rfl)

theorem isKey_upperEnd {y : Layout K V} (h : ∀ e ∈ y.entries, e.IsKeyed) :
    ∀ k ∈ y.upperEnd, IsKey k := by
  induction y with
  | nil => simp [upperEnd]
  | node l i e r ihl ihr =>
    simp only [entries_node, List.mem_append, List.mem_cons] at h
    have hl := ihl fun g hg => h g (.inl hg)
    have hr := ihr fun g hg => h g (.inr (.inr hg))
    intro k hk
    obtain rfl : raise (raise e.high l.upperEnd) r.upperEnd = k := Option.some.inj hk
    exact isKey_raise (isKey_raise (h e (.inr (.inl rfl))).high hl) hr

variable [OrderedKeys K]

theorem raise_le {m b : K} {o : Option K} (hm : IsKey m) (ho : ∀ k ∈ o, IsKey k) :
    raise m o ≤ b ↔ m ≤ b ∧ ∀ k ∈ o, k ≤ b := by
  cases o with
  | none => simp [raise]
  | some k => simpa [raise] using hm.maxKey_le (ho k rfl)

/-- The largest upper end is the least bound of the upper ends. -/
theorem upperEnd_le {y : Layout K V} (h : ∀ e ∈ y.entries, e.IsKeyed) (b : K) :
    (∀ k ∈ y.upperEnd, k ≤ b) ↔ ∀ e ∈ y.entries, e.high ≤ b := by
  induction y with
  | nil => simp [upperEnd]
  | node l i e r ihl ihr =>
    simp only [entries_node, List.mem_append, List.mem_cons] at h ⊢
    have hl (g) (hg : g ∈ l.entries) : g.IsKeyed := h g (.inl hg)
    have hr (g) (hg : g ∈ r.entries) : g.IsKeyed := h g (.inr (.inr hg))
    have he : IsKey e.high := (h e (.inr (.inl rfl))).high
    have hraise : IsKey (raise e.high l.upperEnd) := isKey_raise he (isKey_upperEnd hl)
    simp only [upperEnd, Option.mem_some_iff, forall_eq']
    rw [raise_le hraise (isKey_upperEnd hr), raise_le he (isKey_upperEnd hl), ihl hl, ihr hr]
    constructor
    · rintro ⟨⟨hhigh, hleft⟩, hright⟩ g (hg | rfl | hg)
      · exact hleft g hg
      · exact hhigh
      · exact hright g hg
    · intro hall
      exact ⟨⟨hall e (.inr (.inl rfl)), fun g hg => hall g (.inl hg)⟩,
        fun g hg => hall g (.inr (.inr hg))⟩

end Bounds

section Walk

variable [LE K] [DecidableLE K]

/-- The search, with both kinds of subtrees left out. -/
def search (low high : K) : Layout K V → List V
  | nil => []
  | node l _ e r =>
    if raise (raise e.high l.upperEnd) r.upperEnd < low then
      []
    else
      (if e.overlaps low high then [e.value] else []) ++ search low high l ++
        if e.low ≤ high then search low high r else []

theorem Stores.searchAt {a : IntervalArena K V} {y : Layout K V} {d : Nat} (h : y.Stores a)
    (hd : y.height ≤ d) (low high : K) : a.searchAt d y.top low high = y.search low high := by
  induction y generalizing d with
  | nil => cases d <;> rfl
  | node l i e r ihl ihr =>
    obtain ⟨d, rfl, hdl, hdr⟩ := height_node_le hd
    simp only [IntervalArena.searchAt, IntervalArena.node?, top_node, Option.bind_some, h.1,
      record, ihl h.2.1 hdl, ihr h.2.2 hdr, search]

/-- The search comes by every entry at most once, in the order of the full walk. -/
theorem search_sublist (low high : K) (y : Layout K V) :
    (y.search low high).Sublist (y.preorder.map (·.value)) := by
  induction y with
  | nil => exact .slnil
  | node l i e r ihl ihr =>
    rw [search, preorder, List.map_cons, List.map_append]
    split_ifs
    · exact List.nil_sublist _
    · exact (ihl.append ihr).cons_cons e.value
    · rw [List.append_nil]
      exact (ihl.trans (List.sublist_append_left ..)).cons_cons e.value
    · exact (ihl.append ihr).cons e.value
    · rw [List.append_nil, List.nil_append]
      exact (ihl.trans (List.sublist_append_left ..)).cons e.value

variable [Ord V] [OrderedKeys K] {y : Layout K V} {low high : K}

/-- No entry overlaps a range above the largest upper end. -/
theorem Ordered.not_overlaps_of_upperEnd_lt (h : y.Ordered) {m : K} (hm : m ∈ y.upperEnd)
    (hlow : m < low) {e : IntervalEntry K V} (he : e ∈ y.entries) :
    e.overlaps low high = false := by
  have hbound : ∀ k ∈ y.upperEnd, k ≤ m := by
    intro k hk
    obtain rfl : m = k := Option.mem_unique hm hk
    exact isKey_upperEnd h.keyed m hm
  have hem : e.high ≤ m := (upperEnd_le h.keyed m).mp hbound e he
  have hlow_e : ¬ low ≤ e.high :=
    OrderedKeys.not_le_of_lt (OrderedKeys.lt_of_le_of_lt hem hlow)
  simp only [IntervalEntry.overlaps, decide_eq_false hlow_e, Bool.and_false]

/-- Right of an entry that begins above the range, no entry overlaps it. -/
theorem Ordered.not_overlaps_of_right {l r : Layout K V} {i : Nat} {f : IntervalEntry K V}
    (h : (node l i f r).Ordered) (hhigh : ¬ f.low ≤ high) {e : IntervalEntry K V}
    (he : e ∈ r.entries) : e.overlaps low high = false := by
  have hle : f.low ≤ e.low := h.top.low_le (h.right.keyed e he) (h.le_right he)
  have hhigh_e : ¬ e.low ≤ high := fun heh => hhigh (OrderedKeys.le_trans hle heh)
  simp only [IntervalEntry.overlaps, decide_eq_false hhigh_e, Bool.false_and]

/-- In an ordered tree the search finds every overlap, in the order of the full walk. -/
theorem Ordered.search_eq (h : y.Ordered) (low high : K) :
    y.search low high = (y.preorder.filter (·.overlaps low high)).map (·.value) := by
  induction y with
  | nil => rfl
  | node l i e r ihl ihr =>
    rw [search]
    split
    case isTrue hlow =>
      rw [filter_preorder_eq_nil fun g hg => h.not_overlaps_of_upperEnd_lt rfl hlow hg]
      rfl
    case isFalse =>
      have hright : (if e.low ≤ high then search low high r else []) =
          (r.preorder.filter (·.overlaps low high)).map (·.value) := by
        split
        case isTrue => exact ihr h.right
        case isFalse hhigh =>
          rw [filter_preorder_eq_nil fun g hg => h.not_overlaps_of_right hhigh hg]
          rfl
      rw [ihl h.left, hright, preorder, List.filter_cons]
      split <;> simp

end Walk

end Layout

namespace IntervalTree

/-- The entries, each node before its left subtree and that before the right one. -/
def preorder (t : IntervalTree K V) : List (IntervalEntry K V) :=
  t.arena.preorderAt t.depth t.root

end IntervalTree

end PlanarDynamics
