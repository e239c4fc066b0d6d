import Mathlib.Tactic.SplitIfs
import PlanarDynamics.IntervalTree.Basic

/-!
# Layouts of interval trees

The search tree that the links of an arena draw, as a tree of slots with their entries, and what
the operations of the arena do to it. Nothing here knows of an arena: what a node stores about its
subtree is computed from the tree.

Every operation is described through `items`, the slots and entries from left to right: a rotation
keeps the list, an insertion adds one item to it and a removal takes one out. These facts need no
law of the keys.
-/

namespace PlanarDynamics

/-- A binary tree of slots with entries. -/
inductive Layout (K V : Type) where
  | nil
  | node (left : Layout K V) (slot : Nat) (entry : IntervalEntry K V) (right : Layout K V)

namespace Layout

variable {K V : Type}

/-- The slots and entries from left to right. -/
def items : Layout K V → List (Nat × IntervalEntry K V)
  | nil => []
  | node l i e r => l.items ++ (i, e) :: r.items

@[simp] theorem items_nil : (nil : Layout K V).items = [] := rfl

@[simp] theorem items_node (l : Layout K V) (i : Nat) (e : IntervalEntry K V) (r : Layout K V) :
    (node l i e r).items = l.items ++ (i, e) :: r.items := rfl

/-- The slots from left to right. -/
def slots (y : Layout K V) : List Nat := y.items.map Prod.fst

@[simp] theorem slots_nil : (nil : Layout K V).slots = [] := rfl

@[simp] theorem slots_node (l : Layout K V) (i : Nat) (e : IntervalEntry K V) (r : Layout K V) :
    (node l i e r).slots = l.slots ++ i :: r.slots := by
  simp only [slots, items_node, List.map_append, List.map_cons]

/-- The entries from left to right. -/
def entries (y : Layout K V) : List (IntervalEntry K V) := y.items.map Prod.snd

@[simp] theorem entries_nil : (nil : Layout K V).entries = [] := rfl

@[simp] theorem entries_node (l : Layout K V) (i : Nat) (e : IntervalEntry K V)
    (r : Layout K V) : (node l i e r).entries = l.entries ++ e :: r.entries := by
  simp only [entries, items_node, List.map_append, List.map_cons]

/-- The entries, each node before its left subtree and that before the right one. -/
def preorder : Layout K V → List (IntervalEntry K V)
  | nil => []
  | node l _ e r => e :: (l.preorder ++ r.preorder)

theorem preorder_perm (y : Layout K V) : y.preorder.Perm y.entries := by
  induction y with
  | nil => exact .refl _
  | node l i e r ihl ihr =>
    rw [preorder, entries_node]
    exact ((ihl.append ihr).cons e).trans List.perm_middle.symm

/-- The link to a tree. -/
def top : Layout K V → Option Nat
  | nil => none
  | node _ i _ _ => some i

@[simp] theorem top_nil : (nil : Layout K V).top = none := rfl

@[simp] theorem top_node (l : Layout K V) (i : Nat) (e : IntervalEntry K V) (r : Layout K V) :
    (node l i e r).top = some i := rfl

/-- The number of levels. -/
def height : Layout K V → Nat
  | nil => 0
  | node l _ _ r => 1 + max l.height r.height

theorem height_le_length (y : Layout K V) : y.height ≤ y.slots.length := by
  induction y with
  | nil => exact Nat.zero_le _
  | node l i e r ihl ihr =>
    simp only [height, slots_node, List.length_append, List.length_cons]
    omega

/-- A bound on the levels of a tree leaves one less for its subtrees. -/
theorem height_node_le {l r : Layout K V} {i d : Nat} {e : IntervalEntry K V}
    (h : (node l i e r).height ≤ d) : ∃ d', d = d' + 1 ∧ l.height ≤ d' ∧ r.height ≤ d' := by
  rw [height] at h
  exact ⟨d - 1, by omega, by omega, by omega⟩

/-- The height of the left subtree less that of the right. -/
def balance : Layout K V → Int
  | nil => 0
  | node l _ _ r => (l.height : Int) - r.height

/-! ## Rotations -/

/-- Lifts the left subtree above the top. -/
def rotateRight : Layout K V → Layout K V
  | node (node a j f b) i e c => node a j f (node b i e c)
  | y => y

/-- Lifts the right subtree above the top. -/
def rotateLeft : Layout K V → Layout K V
  | node a i e (node b j f c) => node (node a i e b) j f c
  | y => y

@[simp] theorem items_rotateRight (y : Layout K V) : y.rotateRight.items = y.items := by
  fun_cases rotateRight y with
  | case1 a j f b i e c => simp only [items_node, List.append_assoc, List.cons_append]
  | case2 => rfl

@[simp] theorem items_rotateLeft (y : Layout K V) : y.rotateLeft.items = y.items := by
  fun_cases rotateLeft y with
  | case1 a i e b j f c => simp only [items_node, List.append_assoc, List.cons_append]
  | case2 => rfl

@[simp] theorem slots_rotateRight (y : Layout K V) : y.rotateRight.slots = y.slots := by
  rw [slots, items_rotateRight, slots]

@[simp] theorem slots_rotateLeft (y : Layout K V) : y.rotateLeft.slots = y.slots := by
  rw [slots, items_rotateLeft, slots]

/-- Rotates a tree whose sides differ by more than one level. A side that leans inwards is first
rotated itself. -/
def rebalance (l : Layout K V) (i : Nat) (e : IntervalEntry K V) (r : Layout K V) :
    Layout K V :=
  if r.height + 1 < l.height then
    if l.balance < 0 then (node l.rotateLeft i e r).rotateRight else (node l i e r).rotateRight
  else if l.height + 1 < r.height then
    if 0 < r.balance then (node l i e r.rotateRight).rotateLeft else (node l i e r).rotateLeft
  else
    node l i e r

@[simp] theorem items_rebalance (l : Layout K V) (i : Nat) (e : IntervalEntry K V)
    (r : Layout K V) : (rebalance l i e r).items = l.items ++ (i, e) :: r.items := by
  unfold rebalance
  split_ifs <;> simp only [items_rotateRight, items_rotateLeft, items_node]

@[simp] theorem entries_rebalance (l : Layout K V) (i : Nat) (e : IntervalEntry K V)
    (r : Layout K V) : (rebalance l i e r).entries = l.entries ++ e :: r.entries := by
  simp only [entries, items_rebalance, List.map_append, List.map_cons]

@[simp] theorem slots_rebalance (l : Layout K V) (i : Nat) (e : IntervalEntry K V)
    (r : Layout K V) : (rebalance l i e r).slots = l.slots ++ i :: r.slots := by
  simp only [slots, items_rebalance, List.map_append, List.map_cons]

/-! ## The first item -/

/-- The slot and entry furthest to the left. -/
def first? : Layout K V → Option (Nat × IntervalEntry K V)
  | nil => none
  | node nil i e _ => some (i, e)
  | node l _ _ _ => l.first?

/-- The tree without its first item. -/
def detachFirst : Layout K V → Layout K V
  | nil => nil
  | node nil _ _ r => r
  | node l i e r => rebalance l.detachFirst i e r

theorem detachFirst_node (x : Layout K V) (k : Nat) (f : IntervalEntry K V) (z : Layout K V)
    (i : Nat) (e : IntervalEntry K V) (r : Layout K V) :
    (node (node x k f z) i e r).detachFirst = rebalance (node x k f z).detachFirst i e r := rfl

/-- A tree that is not empty has a first item, and detaching it leaves the others. -/
theorem exists_first? {y : Layout K V} (h : y ≠ nil) :
    ∃ p, y.first? = some p ∧ y.items = p :: y.detachFirst.items := by
  fun_induction first? y with
  | case1 => exact absurd rfl h
  | case2 i e r => exact ⟨(i, e), rfl, rfl⟩
  | case3 l i e r hl ih =>
    obtain ⟨p, hp, hitems⟩ := ih hl
    refine ⟨p, hp, ?_⟩
    rw [items_node, hitems, detachFirst, items_rebalance, List.cons_append]
    exact hl

theorem slots_eq_cons_of_first? {y : Layout K V} {p : Nat × IntervalEntry K V}
    (hp : y.first? = some p) : y.slots = p.1 :: y.detachFirst.slots := by
  have hy : y ≠ nil := by rintro rfl; exact absurd hp (by simp [first?])
  obtain ⟨q, hq, hitems⟩ := exists_first? hy
  obtain rfl : q = p := Option.some.inj (hq.symm.trans hp)
  simp only [slots, hitems, List.map_cons]

/-! ## Insertion and removal -/

/-- The tree without its top. With two subtrees, the first item of the right one moves up. -/
def withoutTop : Layout K V → Layout K V → Layout K V
  | nil, r => r
  | l, nil => l
  | l, r =>
    match r.first? with
    | none => l
    | some (j, f) => rebalance l j f r.detachFirst

@[simp] theorem items_withoutTop (l r : Layout K V) :
    (withoutTop l r).items = l.items ++ r.items := by
  cases l with
  | nil => rfl
  | node a i e b =>
    cases r with
    | nil => simp only [withoutTop, items_nil, List.append_nil]
    | node c j f d =>
      obtain ⟨p, hp, hitems⟩ := exists_first? (y := node c j f d) (by simp)
      simp only [withoutTop, hp]
      rw [items_rebalance, hitems]

variable [LT K] [DecidableLT K] [Ord V]

/-- Adds an entry in the slot `new`, to the right of the entries equal to it. -/
def insert (new : Nat) (e : IntervalEntry K V) : Layout K V → Layout K V
  | nil => node nil new e nil
  | node l i f r =>
    if e.order f = .lt then rebalance (insert new e l) i f r
    else rebalance l i f (insert new e r)

/-- Removes an entry equal to `e`, if a walk by comparison meets one, and tells its item. -/
def remove (e : IntervalEntry K V) :
    Layout K V → Layout K V × Option (Nat × IntervalEntry K V)
  | nil => (nil, none)
  | node l i f r =>
    match e.order f with
    | .lt => (rebalance (remove e l).1 i f r, (remove e l).2)
    | .gt => (rebalance l i f (remove e r).1, (remove e r).2)
    | .eq => (withoutTop l r, some (i, f))

/-- An insertion adds one item somewhere. -/
theorem items_insert (new : Nat) (e : IntervalEntry K V) (y : Layout K V) :
    ∃ xs ys, y.items = xs ++ ys ∧ (y.insert new e).items = xs ++ (new, e) :: ys := by
  induction y with
  | nil => exact ⟨[], [], rfl, rfl⟩
  | node l i f r ihl ihr =>
    rw [insert]
    split_ifs
    · obtain ⟨xs, ys, hl, hnew⟩ := ihl
      exact ⟨xs, ys ++ (i, f) :: r.items, by simp [hl], by simp [hnew]⟩
    · obtain ⟨xs, ys, hr, hnew⟩ := ihr
      exact ⟨l.items ++ (i, f) :: xs, ys, by simp [hr], by simp [hnew]⟩

theorem slots_insert (new : Nat) (e : IntervalEntry K V) (y : Layout K V) :
    ((y.insert new e).slots).Perm (new :: y.slots) := by
  obtain ⟨xs, ys, hy, hnew⟩ := items_insert new e y
  simp only [slots, hy, hnew, List.map_append, List.map_cons]
  exact List.perm_middle

/-- A removal that tells nothing keeps every item. -/
theorem items_remove_of_none {e : IntervalEntry K V} {y : Layout K V}
    (h : (y.remove e).2 = none) : (y.remove e).1.items = y.items := by
  induction y with
  | nil => rfl
  | node l i f r ihl ihr =>
    rw [remove] at h ⊢
    split at h
    · simp only [items_rebalance, items_node, ihl h]
    · simp only [items_rebalance, items_node, ihr h]
    · exact absurd h (by simp)

/-- A removal takes out the item that it tells, whose entry equals the one asked for. -/
theorem items_remove_of_some {e : IntervalEntry K V} {y : Layout K V}
    {p : Nat × IntervalEntry K V} (h : (y.remove e).2 = some p) :
    e.order p.2 = .eq ∧
      ∃ xs ys, y.items = xs ++ p :: ys ∧ (y.remove e).1.items = xs ++ ys := by
  induction y with
  | nil => exact absurd h (by simp [remove])
  | node l i f r ihl ihr =>
    rw [remove] at h ⊢
    split at h
    · obtain ⟨heq, xs, ys, hl, hrest⟩ := ihl h
      exact ⟨heq, xs, ys ++ (i, f) :: r.items, by simp [hl], by simp [hrest]⟩
    · obtain ⟨heq, xs, ys, hr, hrest⟩ := ihr h
      exact ⟨heq, l.items ++ (i, f) :: xs, ys, by simp [hr], by simp [hrest]⟩
    · rename_i heq
      obtain rfl : (i, f) = p := Option.some.inj h
      exact ⟨heq, l.items, r.items, rfl, items_withoutTop l r⟩

theorem items_remove_sublist (e : IntervalEntry K V) (y : Layout K V) :
    (y.remove e).1.items.Sublist y.items := by
  cases h : (y.remove e).2 with
  | none => exact items_remove_of_none h ▸ .refl _
  | some p =>
    obtain ⟨-, xs, ys, hy, hrest⟩ := items_remove_of_some h
    rw [hy, hrest]
    exact (List.sublist_cons_self p ys).append_left xs

theorem slots_remove_sublist (e : IntervalEntry K V) (y : Layout K V) :
    (y.remove e).1.slots.Sublist y.slots := (items_remove_sublist e y).map Prod.fst

theorem entries_insert (new : Nat) (e : IntervalEntry K V) (y : Layout K V) :
    (y.insert new e).entries.Perm (e :: y.entries) := by
  obtain ⟨xs, ys, hy, hnew⟩ := items_insert new e y
  simp only [entries, hy, hnew, List.map_append, List.map_cons]
  exact List.perm_middle

theorem entries_remove_of_none {e : IntervalEntry K V} {y : Layout K V}
    (h : (y.remove e).2 = none) : (y.remove e).1.entries = y.entries := by
  rw [entries, items_remove_of_none h, entries]

theorem entries_remove_of_some {e : IntervalEntry K V} {y : Layout K V}
    {p : Nat × IntervalEntry K V} (h : (y.remove e).2 = some p) :
    e.order p.2 = .eq ∧ y.entries.Perm (p.2 :: (y.remove e).1.entries) := by
  obtain ⟨heq, xs, ys, hy, hrest⟩ := items_remove_of_some h
  refine ⟨heq, ?_⟩
  simp only [entries, hy, hrest, List.map_append, List.map_cons]
  exact List.perm_middle

end Layout

end PlanarDynamics
