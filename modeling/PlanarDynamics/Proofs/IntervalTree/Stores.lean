import PlanarDynamics.Proofs.IntervalTree.Layout

/-!
# Layouts in an arena

When the slots of an arena hold a layout: every node has the links to its subtrees and the height,
balance and largest upper end that the subtrees have. An operation on a subtree is described by the
layout that the arena holds afterwards and by the slots that it may have changed; all others stay
as they were, so what lies beside the subtree is kept (`Stores.congr`).
-/

namespace PlanarDynamics

variable {K V : Type}

/-- `b` is `a` with at most the slots `S` changed; no slot is taken or released. -/
structure OnlyAt (S : List Nat) (a b : IntervalArena K V) : Prop where
  size : b.nodes.size = a.nodes.size
  free : b.free = a.free
  nodes : ∀ j ∉ S, b.nodes[j]? = a.nodes[j]?

namespace OnlyAt

variable {S T : List Nat} {a b c : IntervalArena K V}

theorem refl (S : List Nat) (a : IntervalArena K V) : OnlyAt S a a :=
  ⟨rfl, rfl, fun _ _ => rfl⟩

theorem mono (h : OnlyAt S a b) (hST : S ⊆ T) : OnlyAt T a b :=
  ⟨h.size, h.free, fun j hj => h.nodes j fun hS => hj (hST hS)⟩

theorem trans (hab : OnlyAt S a b) (hbc : OnlyAt S b c) : OnlyAt S a c :=
  ⟨hbc.size.trans hab.size, hbc.free.trans hab.free,
    fun j hj => (hbc.nodes j hj).trans (hab.nodes j hj)⟩

theorem modify (a : IntervalArena K V) (i : Nat) (f : IntervalNode K V → IntervalNode K V) :
    OnlyAt [i] a (a.modify i f) := by
  refine ⟨Array.size_modify, rfl, ?_⟩
  intro j hj
  have hij : i ≠ j := by simpa [eq_comm] using hj
  simp only [IntervalArena.modify, Array.getElem?_modify, hij, if_false]

end OnlyAt

theorem IntervalArena.getElem?_modify_self {a : IntervalArena K V} {i : Nat}
    {n : IntervalNode K V} (h : a.nodes[i]? = some n) (f : IntervalNode K V → IntervalNode K V) :
    (a.modify i f).nodes[i]? = some (f n) := by
  simp only [modify, Array.getElem?_modify, if_true, h, Option.map_some]

namespace Layout

variable [LT K] [DecidableLT K]

/-- The larger of a key and another, where there is one. -/
def raise (m : K) (k : Option K) : K := (k.map (IntervalEntry.maxKey m)).getD m

/-- The largest upper end. -/
def upperEnd : Layout K V → Option K
  | nil => none
  | node l _ e r => some (raise (raise e.high l.upperEnd) r.upperEnd)

/-- The node over two subtrees. -/
def record (l : Layout K V) (e : IntervalEntry K V) (r : Layout K V) : IntervalNode K V where
  entry := e
  maxEnd := raise (raise e.high l.upperEnd) r.upperEnd
  left := l.top
  right := r.top
  height := 1 + max l.height r.height
  balance := (l.height : Int) - r.height

/-- Every slot of the tree holds its node. -/
def Stores (a : IntervalArena K V) : Layout K V → Prop
  | nil => True
  | node l i e r => a.nodes[i]? = some (record l e r) ∧ l.Stores a ∧ r.Stores a

/-- What a tree stores depends on its slots alone. -/
theorem Stores.congr {a b : IntervalArena K V} {y : Layout K V} (h : y.Stores a)
    (hab : ∀ i ∈ y.slots, b.nodes[i]? = a.nodes[i]?) : y.Stores b := by
  induction y with
  | nil => trivial
  | node l i e r ihl ihr =>
    simp only [slots_node, List.mem_append, List.mem_cons] at hab
    obtain ⟨hi, hl, hr⟩ := h
    refine ⟨(hab i (.inr (.inl rfl))).trans hi, ihl hl ?_, ihr hr ?_⟩
    · exact fun j hj => hab j (.inl hj)
    · exact fun j hj => hab j (.inr (.inr hj))

theorem Stores.beside {a b : IntervalArena K V} {y : Layout K V} {S : List Nat}
    (h : y.Stores a) (hab : OnlyAt S a b) (hS : ∀ i ∈ y.slots, i ∉ S) : y.Stores b :=
  h.congr fun i hi => hab.nodes i (hS i hi)

theorem Stores.heightOf {a : IntervalArena K V} {y : Layout K V} (h : y.Stores a) :
    a.heightOf y.top = y.height := by
  cases y with
  | nil => rfl
  | node l i e r =>
    simp only [IntervalArena.heightOf, IntervalArena.node?, top, Option.bind_some, h.1,
      Option.map_some, Option.getD_some, record, height]

theorem Stores.maxWith {a : IntervalArena K V} {y : Layout K V} (h : y.Stores a) (m : K) :
    a.maxWith m y.top = raise m y.upperEnd := by
  cases y with
  | nil => rfl
  | node l i e r =>
    simp only [IntervalArena.maxWith, IntervalArena.node?, top, Option.bind_some, h.1,
      Option.map_some, Option.getD_some, record, upperEnd, raise]

/-- Slot `i` links two trees that the arena holds. What it stores about them may be out of date. -/
structure Joins (a : IntervalArena K V) (l : Layout K V) (i : Nat) (e : IntervalEntry K V)
    (r : Layout K V) : Prop where
  links : ∃ n, a.nodes[i]? = some n ∧ n.entry = e ∧ n.left = l.top ∧ n.right = r.top
  left : l.Stores a
  right : r.Stores a
  nodup : (l.slots ++ i :: r.slots).Nodup

namespace Joins

variable {a b : IntervalArena K V} {l r : Layout K V} {i : Nat} {e : IntervalEntry K V}

theorem notMem_left (h : Joins a l i e r) : i ∉ l.slots := fun hi =>
  (List.nodup_append.mp h.nodup).2.2 i hi i (List.mem_cons_self ..) rfl

theorem notMem_right (h : Joins a l i e r) : i ∉ r.slots :=
  (List.nodup_cons.mp (List.nodup_append.mp h.nodup).2.1).1

end Joins

/-- `b` is `a` with a tree put into its slots. -/
structure Yields (a : IntervalArena K V) (y : Layout K V) (b : IntervalArena K V) : Prop where
  stores : y.Stores b
  only : OnlyAt y.slots a b

/-- Refreshing the slot that joins two trees gives the tree over them. -/
theorem Joins.refresh {a : IntervalArena K V} {l r : Layout K V} {i : Nat}
    {e : IntervalEntry K V} (h : Joins a l i e r) :
    Yields a (node l i e r) (a.refresh i) := by
  obtain ⟨n, hn, rfl, hl, hr⟩ := h.links
  have honly : OnlyAt [i] a (a.refresh i) := .modify ..
  refine ⟨⟨?_, ?_, ?_⟩, honly.mono (by simp)⟩
  · rw [IntervalArena.refresh, IntervalArena.getElem?_modify_self hn, hl, hr, h.left.heightOf,
      h.right.heightOf, h.left.maxWith, h.right.maxWith, record]
  · exact h.left.beside honly fun j hj hi => h.notMem_left (List.mem_singleton.mp hi ▸ hj)
  · exact h.right.beside honly fun j hj hi => h.notMem_right (List.mem_singleton.mp hi ▸ hj)

/-! ## Rotations -/

section Rotations

variable {a : IntervalArena K V} {l r x z w : Layout K V} {i k : Nat} {e g : IntervalEntry K V}

theorem Joins.rotateRight (h : Joins a (node x k g z) i e r) :
    ∃ b, a.rotateRight i = some (b, k) ∧ Yields a (node x k g (node z i e r)) b := by
  obtain ⟨n, hn, rfl, hl, hr⟩ := h.links
  obtain ⟨hk, hx, hz⟩ := h.left
  have hnodup : (x.slots ++ k :: (z.slots ++ i :: r.slots)).Nodup := by
    simpa only [slots_node, List.append_assoc, List.cons_append] using h.nodup
  obtain ⟨-, hlow, hx_low⟩ := List.nodup_append.mp hnodup
  obtain ⟨hk_low, hlow⟩ := List.nodup_cons.mp hlow
  -- The slot that moves down is linked and refreshed first: the other one stores its height.
  let a₁ := (a.setLeft i z.top).setRight k (some i)
  have h₁ : OnlyAt [i, k] a a₁ :=
    ((OnlyAt.modify ..).mono (by simp)).trans ((OnlyAt.modify ..).mono (by simp))
  have hni : a₁.nodes[i]? = some { n with left := z.top } :=
    ((OnlyAt.modify _ k _).nodes i (by grind)).trans (IntervalArena.getElem?_modify_self hn _)
  have hnk : a₁.nodes[k]? = some { record x g z with right := some i } :=
    IntervalArena.getElem?_modify_self (((OnlyAt.modify _ i _).nodes k (by grind)).trans hk) _
  have hlower : Yields a₁ (node z i n.entry r) (a₁.refresh i) := by
    apply Joins.refresh
    exact ⟨⟨_, hni, rfl, rfl, hr⟩, hz.beside h₁ (by grind), h.right.beside h₁ (by grind), hlow⟩
  have h₂ : OnlyAt [i, k] a (a₁.refresh i) := h₁.trans ((OnlyAt.modify ..).mono (by simp))
  have hupper : Yields (a₁.refresh i) (node x k g (node z i n.entry r))
      ((a₁.refresh i).refresh k) := by
    apply Joins.refresh
    refine ⟨⟨_, ((OnlyAt.modify _ i _).nodes k (by grind)).trans hnk, rfl, rfl, rfl⟩, ?_,
      hlower.stores, by simpa only [slots_node] using hnodup⟩
    exact hx.beside h₂ (by grind)
  refine ⟨(a₁.refresh i).refresh k, ?_, hupper.stores, ?_⟩
  · simp only [IntervalArena.rotateRight, hn, hl, top, hk, Option.bind_eq_bind, Option.bind_some]
    rfl
  · exact (h₂.mono (by simp)).trans hupper.only

theorem Joins.rotateLeft (h : Joins a l i e (node z k g w)) :
    ∃ b, a.rotateLeft i = some (b, k) ∧ Yields a (node (node l i e z) k g w) b := by
  obtain ⟨n, hn, rfl, hl, hr⟩ := h.links
  obtain ⟨hk, hz, hw⟩ := h.right
  have hnodup : ((l.slots ++ i :: z.slots) ++ k :: w.slots).Nodup := by
    simpa only [slots_node, List.append_assoc, List.cons_append] using h.nodup
  obtain ⟨hlow, hw_nodup, hlow_w⟩ := List.nodup_append.mp hnodup
  have hk_w : k ∉ w.slots := (List.nodup_cons.mp hw_nodup).1
  obtain ⟨-, hz_nodup, hl_z⟩ := List.nodup_append.mp hlow
  have hi_z : i ∉ z.slots := (List.nodup_cons.mp hz_nodup).1
  let a₁ := (a.setRight i z.top).setLeft k (some i)
  have h₁ : OnlyAt [i, k] a a₁ :=
    ((OnlyAt.modify ..).mono (by simp)).trans ((OnlyAt.modify ..).mono (by simp))
  have hni : a₁.nodes[i]? = some { n with right := z.top } :=
    ((OnlyAt.modify _ k _).nodes i (by grind)).trans (IntervalArena.getElem?_modify_self hn _)
  have hnk : a₁.nodes[k]? = some { record z g w with left := some i } :=
    IntervalArena.getElem?_modify_self (((OnlyAt.modify _ i _).nodes k (by grind)).trans hk) _
  have hlower : Yields a₁ (node l i n.entry z) (a₁.refresh i) := by
    apply Joins.refresh
    exact ⟨⟨_, hni, rfl, hl, rfl⟩, h.left.beside h₁ (by grind), hz.beside h₁ (by grind), hlow⟩
  have h₂ : OnlyAt [i, k] a (a₁.refresh i) := h₁.trans ((OnlyAt.modify ..).mono (by simp))
  have hupper : Yields (a₁.refresh i) (node (node l i n.entry z) k g w)
      ((a₁.refresh i).refresh k) := by
    apply Joins.refresh
    refine ⟨⟨_, ((OnlyAt.modify _ i _).nodes k (by grind)).trans hnk, rfl, rfl, rfl⟩,
      hlower.stores, ?_, by simpa only [slots_node] using hnodup⟩
    exact hw.beside h₂ (by grind)
  refine ⟨(a₁.refresh i).refresh k, ?_, hupper.stores, ?_⟩
  · simp only [IntervalArena.rotateLeft, hn, hr, top, hk, Option.bind_eq_bind, Option.bind_some]
    rfl
  · exact (h₂.mono (by simp)).trans hupper.only

/-- The left link of a slot is set to a tree. -/
theorem Joins.setLeft {n : IntervalNode K V} (hn : a.nodes[i]? = some n) (hr : n.right = r.top)
    (hl : l.Stores a) (hr' : r.Stores a) (hnodup : (l.slots ++ i :: r.slots).Nodup) :
    Joins (a.setLeft i l.top) l i n.entry r := by
  have hlocal : OnlyAt [i] a (a.setLeft i l.top) := .modify ..
  obtain ⟨-, hir, hdisj⟩ := List.nodup_append.mp hnodup
  have hi_r : i ∉ r.slots := (List.nodup_cons.mp hir).1
  exact ⟨⟨_, IntervalArena.getElem?_modify_self hn _, rfl, rfl, hr⟩,
    hl.beside hlocal (by grind), hr'.beside hlocal (by grind), hnodup⟩

/-- The right link of a slot is set to a tree. -/
theorem Joins.setRight {n : IntervalNode K V} (hn : a.nodes[i]? = some n) (hl : n.left = l.top)
    (hl' : l.Stores a) (hr : r.Stores a) (hnodup : (l.slots ++ i :: r.slots).Nodup) :
    Joins (a.setRight i r.top) l i n.entry r := by
  have hlocal : OnlyAt [i] a (a.setRight i r.top) := .modify ..
  obtain ⟨-, hir, hdisj⟩ := List.nodup_append.mp hnodup
  have hi_r : i ∉ r.slots := (List.nodup_cons.mp hir).1
  exact ⟨⟨_, IntervalArena.getElem?_modify_self hn _, rfl, hl, rfl⟩,
    hl'.beside hlocal (by grind), hr.beside hlocal (by grind), hnodup⟩

/-- A tree that is stored joins its subtrees. -/
theorem Stores.joins (h : (node l i e r).Stores a) (hnodup : (node l i e r).slots.Nodup) :
    Joins a l i e r :=
  ⟨⟨_, h.1, rfl, rfl, rfl⟩, h.2.1, h.2.2, by simpa only [slots_node] using hnodup⟩

/-- A left side that leans to the right is rotated to the left before it is lifted. -/
theorem Stores.liftLeft (h : (node (node x k g z) i e r).Stores a)
    (hnodup : (node (node x k g z) i e r).slots.Nodup) (hlean : (node x k g z).balance < 0) :
    ∃ b c j, a.rotateLeft k = some (b, j) ∧ (b.setLeft i (some j)).rotateRight i = some (c, j) ∧
      (node (node x k g z).rotateLeft i e r).rotateRight.top = some j ∧
      Yields a (node (node x k g z).rotateLeft i e r).rotateRight c := by
  obtain ⟨hi, hl, hr⟩ := h
  have hk_nodup : (x.slots ++ k :: z.slots).Nodup := by
    simp only [slots_node] at hnodup
    exact (List.nodup_append.mp hnodup).1
  cases z with
  | nil => simp only [balance, height] at hlean; omega
  | node p j f q =>
    obtain ⟨b, hb, hy⟩ := (hl.joins (by simpa only [slots_node] using hk_nodup)).rotateLeft
    have hnodup' : ((node (node x k g p) j f q).slots ++ i :: r.slots).Nodup := by
      simpa only [slots_node, List.append_assoc, List.cons_append] using hnodup
    obtain ⟨-, hir, hdisj⟩ := List.nodup_append.mp hnodup'
    have hi_r : i ∉ r.slots := (List.nodup_cons.mp hir).1
    have hjoin : Joins (b.setLeft i (some j)) (node (node x k g p) j f q) i e r :=
      Joins.setLeft (n := record _ e r) ((hy.only.nodes i (by grind)).trans hi) rfl hy.stores
        (hr.beside hy.only (by grind)) hnodup'
    obtain ⟨c, hc, hz⟩ := hjoin.rotateRight
    refine ⟨b, c, j, hb, hc, rfl, hz.stores, ?_⟩
    have hbc : OnlyAt [i] b (b.setLeft i (some j)) := .modify ..
    have hsub : ∀ s ∈ (node (node x k g p) j f q).slots,
        s ∈ (node (node x k g (node p j f q)).rotateLeft i e r).rotateRight.slots := by
      simp only [slots_rotateRight, slots_rotateLeft, slots_node]
      grind
    exact ((hy.only.mono hsub).trans (hbc.mono (by simp))).trans hz.only

/-- A right side that leans to the left is rotated to the right before it is lifted. -/
theorem Stores.liftRight (h : (node l i e (node z k g w)).Stores a)
    (hnodup : (node l i e (node z k g w)).slots.Nodup) (hlean : 0 < (node z k g w).balance) :
    ∃ b c j, a.rotateRight k = some (b, j) ∧ (b.setRight i (some j)).rotateLeft i = some (c, j) ∧
      (node l i e (node z k g w).rotateRight).rotateLeft.top = some j ∧
      Yields a (node l i e (node z k g w).rotateRight).rotateLeft c := by
  obtain ⟨hi, hl, hr⟩ := h
  have hk_nodup : (z.slots ++ k :: w.slots).Nodup := by
    simp only [slots_node] at hnodup
    exact (List.nodup_cons.mp (List.nodup_append.mp hnodup).2.1).2
  cases z with
  | nil => simp only [balance, height] at hlean; omega
  | node p j f q =>
    obtain ⟨b, hb, hy⟩ := (hr.joins (by simpa only [slots_node] using hk_nodup)).rotateRight
    have hnodup' : (l.slots ++ i :: (node p j f (node q k g w)).slots).Nodup := by
      simpa only [slots_node, List.append_assoc, List.cons_append] using hnodup
    obtain ⟨-, hir, hdisj⟩ := List.nodup_append.mp hnodup'
    have hi_r : i ∉ (node p j f (node q k g w)).slots := (List.nodup_cons.mp hir).1
    have hjoin : Joins (b.setRight i (some j)) l i e (node p j f (node q k g w)) :=
      Joins.setRight (n := record l e _) ((hy.only.nodes i hi_r).trans hi) rfl
        (hl.beside hy.only (by grind)) hy.stores hnodup'
    obtain ⟨c, hc, hz⟩ := hjoin.rotateLeft
    refine ⟨b, c, j, hb, hc, rfl, hz.stores, ?_⟩
    have hbc : OnlyAt [i] b (b.setRight i (some j)) := .modify ..
    have hsub : ∀ s ∈ (node p j f (node q k g w)).slots,
        s ∈ (node l i e (node (node p j f q) k g w).rotateRight).rotateLeft.slots := by
      simp only [slots_rotateRight, slots_rotateLeft, slots_node]
      grind
    exact ((hy.only.mono hsub).trans (hbc.mono (by simp))).trans hz.only

/-- The rotations that the stored balances call for are those of the layout. A tree that leans to
one side has the nodes that they lift. -/
theorem Stores.rebalance (h : (node l i e r).Stores a) (hnodup : (node l i e r).slots.Nodup) :
    ∃ b j, a.rebalance i = some (b, j) ∧ (Layout.rebalance l i e r).top = some j ∧
      Yields a (Layout.rebalance l i e r) b := by
  have hi : a.nodes[i]? = some (record l e r) := h.1
  have hleft : (1 : Int) < (record l e r).balance ↔ r.height + 1 < l.height := by
    simp only [record]; omega
  have hright : (record l e r).balance < -1 ↔ l.height + 1 < r.height := by
    simp only [record]; omega
  have hjoin := h.joins hnodup
  rw [IntervalArena.rebalance, Layout.rebalance]
  simp only [hi, Option.bind_eq_bind, Option.bind_some, hleft, hright]
  by_cases hl : r.height + 1 < l.height
  · simp only [if_pos hl]
    cases l with
    | nil => simp only [height] at hl; omega
    | node x k g z =>
      simp only [record, top, Option.bind_some, hjoin.left.1]
      by_cases hlean : (node x k g z).balance < 0
      · obtain ⟨b, c, j, hb, hc, htop, hy⟩ := h.liftLeft hnodup hlean
        rw [if_pos (by exact hlean), if_pos hlean, hb]
        exact ⟨c, j, hc, htop, hy⟩
      · obtain ⟨b, hb, hy⟩ := hjoin.rotateRight
        rw [if_neg (by exact hlean), if_neg hlean]
        exact ⟨b, k, hb, rfl, hy⟩
  by_cases hr : l.height + 1 < r.height
  · simp only [if_neg hl, if_pos hr]
    cases r with
    | nil => simp only [height] at hr; omega
    | node z k g w =>
      simp only [record, top, Option.bind_some, hjoin.right.1]
      by_cases hlean : 0 < (node z k g w).balance
      · obtain ⟨b, c, j, hb, hc, htop, hy⟩ := h.liftRight hnodup hlean
        rw [if_pos (by exact hlean), if_pos hlean, hb]
        exact ⟨c, j, hc, htop, hy⟩
      · obtain ⟨b, hb, hy⟩ := hjoin.rotateLeft
        rw [if_neg (by exact hlean), if_neg hlean]
        exact ⟨b, k, hb, rfl, hy⟩
  · simp only [if_neg hl, if_neg hr]
    exact ⟨a, i, rfl, rfl, h, .refl _ _⟩

/-- A slot that joins two trees is restored to the rebalanced tree over them. -/
theorem Joins.restore (h : Joins a l i e r) :
    ∃ b j, a.restore i = some (b, j) ∧ (Layout.rebalance l i e r).top = some j ∧
      Yields a (Layout.rebalance l i e r) b := by
  have hy := h.refresh
  obtain ⟨b, j, hb, htop, hz⟩ := hy.stores.rebalance (by simpa only [slots_node] using h.nodup)
  refine ⟨b, j, hb, htop, hz.stores, (hy.only.mono ?_).trans hz.only⟩
  simp only [slots_node, slots_rebalance, List.Subset.refl]

/-- A tree takes the place of the left subtree, and its slot is restored. -/
theorem Stores.restoreLeft {y : Layout K V} (hi : a.nodes[i]? = some (record y e r))
    (hl : l.Stores a) (hr : r.Stores a) (hnodup : (l.slots ++ i :: r.slots).Nodup) :
    ∃ b j, (a.setLeft i l.top).restore i = some (b, j) ∧
      (Layout.rebalance l i e r).top = some j ∧ Yields a (Layout.rebalance l i e r) b := by
  obtain ⟨b, j, hb, htop, hy⟩ := (Joins.setLeft hi rfl hl hr hnodup).restore
  have hlocal : OnlyAt [i] a (a.setLeft i l.top) := .modify ..
  exact ⟨b, j, hb, htop, hy.stores, (hlocal.mono (by simp)).trans hy.only⟩

/-- A tree takes the place of the right subtree, and its slot is restored. -/
theorem Stores.restoreRight {y : Layout K V} (hi : a.nodes[i]? = some (record l e y))
    (hl : l.Stores a) (hr : r.Stores a) (hnodup : (l.slots ++ i :: r.slots).Nodup) :
    ∃ b j, (a.setRight i r.top).restore i = some (b, j) ∧
      (Layout.rebalance l i e r).top = some j ∧ Yields a (Layout.rebalance l i e r) b := by
  obtain ⟨b, j, hb, htop, hy⟩ := (Joins.setRight hi rfl hl hr hnodup).restore
  have hlocal : OnlyAt [i] a (a.setRight i r.top) := .modify ..
  exact ⟨b, j, hb, htop, hy.stores, (hlocal.mono (by simp)).trans hy.only⟩

end Rotations

end Layout

end PlanarDynamics
