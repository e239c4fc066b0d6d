import Mathlib.Data.Nat.Fib.Basic
import PlanarDynamics.Proofs.IntervalTree.Refinement

/-!
# Balance of interval trees

Insertion and removal change the height of a subtree by at most one, so the sides of a node that is
rebalanced differ by at most two levels, and afterwards by at most one. Nothing of this looks at the
order of the keys: it holds after every sequence of calls, also where keys are not numbers and a
walk takes the wrong side. The order is needed only for the last part of `isBalanced`, that the
entries are sorted.
-/

namespace PlanarDynamics

namespace Layout

variable {K V : Type}

/-- The sides of every node differ by at most one level. -/
def Balanced : Layout K V → Prop
  | nil => True
  | node l _ _ r =>
    l.Balanced ∧ r.Balanced ∧ l.height ≤ r.height + 1 ∧ r.height ≤ l.height + 1

variable {l r y : Layout K V} {i : Nat} {e : IntervalEntry K V}

/-! ## Rotations -/

/-- What rebalancing makes of two sides: a balanced tree with one level more than the higher side,
unless the sides are two levels apart, when the tree may also be as high as that side. -/
structure Rejoins (l r y : Layout K V) : Prop where
  balanced : y.Balanced
  le_height : max l.height r.height ≤ y.height
  height_le : y.height ≤ 1 + max l.height r.height
  height_eq : l.height ≤ r.height + 1 → r.height ≤ l.height + 1 →
    y.height = 1 + max l.height r.height

theorem Balanced.rotateRight (hl : l.Balanced) (hr : r.Balanced)
    (hlr : l.height = r.height + 2) (hlean : ¬ l.balance < 0) (i : Nat) (e : IntervalEntry K V) :
    Rejoins l r (node l i e r).rotateRight := by
  cases l with
  | nil => simp only [height] at hlr; omega
  | node a j f b =>
    simp only [Balanced, balance, height] at hl hlr hlean
    constructor <;> simp only [Layout.rotateRight, Balanced, height, hl, hr, true_and] <;> omega

/-- The right subtree of a left side that leans to the right comes on top, and its own subtrees are
as high as the rest or one level lower. -/
theorem Balanced.rotateLeft_rotateRight (hl : l.Balanced) (hr : r.Balanced)
    (hlr : l.height = r.height + 2) (hlean : l.balance < 0) (i : Nat) (e : IntervalEntry K V) :
    Rejoins l r (node l.rotateLeft i e r).rotateRight := by
  cases l with
  | nil => simp only [height] at hlr; omega
  | node a j f b =>
    cases b with
    | nil => simp only [balance, height] at hlean; omega
    | node p k g q =>
      simp only [Balanced, balance, height] at hl hlr hlean
      constructor <;> simp only [Layout.rotateLeft, Layout.rotateRight, Balanced, height, hl, hr,
        true_and] <;> omega

theorem Balanced.rotateLeft (hl : l.Balanced) (hr : r.Balanced)
    (hlr : r.height = l.height + 2) (hlean : ¬ 0 < r.balance) (i : Nat) (e : IntervalEntry K V) :
    Rejoins l r (node l i e r).rotateLeft := by
  cases r with
  | nil => simp only [height] at hlr; omega
  | node b j f c =>
    simp only [Balanced, balance, height] at hr hlr hlean
    constructor <;> simp only [Layout.rotateLeft, Balanced, height, hl, hr, true_and] <;> omega

theorem Balanced.rotateRight_rotateLeft (hl : l.Balanced) (hr : r.Balanced)
    (hlr : r.height = l.height + 2) (hlean : 0 < r.balance) (i : Nat) (e : IntervalEntry K V) :
    Rejoins l r (node l i e r.rotateRight).rotateLeft := by
  cases r with
  | nil => simp only [height] at hlr; omega
  | node b j f c =>
    cases b with
    | nil => simp only [balance, height] at hlean; omega
    | node p k g q =>
      simp only [Balanced, balance, height] at hr hlr hlean
      constructor <;> simp only [Layout.rotateLeft, Layout.rotateRight, Balanced, height, hl, hr,
        true_and] <;> omega

theorem Balanced.rebalance (hl : l.Balanced) (hr : r.Balanced) (hlr : l.height ≤ r.height + 2)
    (hrl : r.height ≤ l.height + 2) (i : Nat) (e : IntervalEntry K V) :
    Rejoins l r (rebalance l i e r) := by
  unfold Layout.rebalance
  split_ifs with hleft hlean hright hlean
  · exact hl.rotateLeft_rotateRight hr (by omega) hlean i e
  · exact hl.rotateRight hr (by omega) hlean i e
  · exact hl.rotateRight_rotateLeft hr (by omega) hlean i e
  · exact hl.rotateLeft hr (by omega) hlean i e
  · refine ⟨⟨hl, hr, by omega, by omega⟩, ?_, le_rfl, fun _ _ => rfl⟩
    simp only [height]
    omega

/-! ## Insertion and removal -/

/-- The tree `z` is as high as `y` or one level lower. -/
structure Shrinks (y z : Layout K V) : Prop where
  le : z.height ≤ y.height
  le_succ : y.height ≤ z.height + 1

theorem Shrinks.refl (y : Layout K V) : Shrinks y y := ⟨le_rfl, Nat.le_succ _⟩

/-- Sides that lose at most one level make a tree that loses at most one level. -/
theorem Balanced.rebalance_shrinks {l' r' : Layout K V} (h : (node l i e r).Balanced)
    (hl' : l'.Balanced) (hl : Shrinks l l') (hr' : r'.Balanced) (hr : Shrinks r r')
    (j : Nat) (f : IntervalEntry K V) :
    (Layout.rebalance l' j f r').Balanced ∧
      Shrinks (node l i e r) (Layout.rebalance l' j f r') := by
  obtain ⟨hlle, hlge⟩ := hl
  obtain ⟨hrle, hrge⟩ := hr
  obtain ⟨-, -, hlr, hrl⟩ := h
  obtain ⟨hbalanced, hlow, hhigh, heq⟩ := hl'.rebalance hr' (by omega) (by omega) j f
  refine ⟨hbalanced, ?_, ?_⟩ <;> simp only [height] <;> omega

/-- Sides that gain at most one level make a tree that gains at most one level. -/
theorem Balanced.rebalance_grows {l' r' : Layout K V} (h : (node l i e r).Balanced)
    (hl' : l'.Balanced) (hl : Shrinks l' l) (hr' : r'.Balanced) (hr : Shrinks r' r)
    (j : Nat) (f : IntervalEntry K V) :
    (Layout.rebalance l' j f r').Balanced ∧
      Shrinks (Layout.rebalance l' j f r') (node l i e r) := by
  obtain ⟨hlle, hlge⟩ := hl
  obtain ⟨hrle, hrge⟩ := hr
  obtain ⟨-, -, hlr, hrl⟩ := h
  obtain ⟨hbalanced, hlow, hhigh, heq⟩ := hl'.rebalance hr' (by omega) (by omega) j f
  refine ⟨hbalanced, ?_, ?_⟩ <;> simp only [height] <;> omega

theorem Balanced.detachFirst (h : y.Balanced) :
    y.detachFirst.Balanced ∧ Shrinks y y.detachFirst := by
  fun_induction Layout.detachFirst y with
  | case1 => exact ⟨trivial, .refl _⟩
  | case2 i e r =>
    obtain ⟨-, hr, -, hrl⟩ := h
    refine ⟨hr, ?_, ?_⟩ <;> simp only [height] at hrl ⊢ <;> omega
  | case3 l i e r hne ih =>
    obtain ⟨hrest, hshrinks⟩ := ih h.1
    exact h.rebalance_shrinks hrest hshrinks h.2.1 (.refl r) i e

theorem Balanced.withoutTop (h : (node l i e r).Balanced) :
    (withoutTop l r).Balanced ∧ Shrinks (node l i e r) (withoutTop l r) := by
  obtain ⟨hl, hr, hlr, hrl⟩ := id h
  cases l with
  | nil => refine ⟨hr, ?_, ?_⟩ <;> simp only [Layout.withoutTop, height] at hrl ⊢ <;> omega
  | node a j f b =>
    cases r with
    | nil => refine ⟨hl, ?_, ?_⟩ <;> simp only [Layout.withoutTop, height] at hlr ⊢ <;> omega
    | node c k g d =>
      obtain ⟨p, hp, -⟩ := exists_first? (y := node c k g d) (by simp)
      obtain ⟨hrest, hshrinks⟩ := hr.detachFirst
      simp only [Layout.withoutTop, hp]
      exact h.rebalance_shrinks hl (.refl _) hrest hshrinks p.1 p.2

section Calls

variable [LT K] [DecidableLT K] [Ord V]

theorem Balanced.insert (h : y.Balanced) (new : Nat) (e : IntervalEntry K V) :
    (y.insert new e).Balanced ∧ Shrinks (y.insert new e) y := by
  induction y with
  | nil =>
    have hsingle : (node nil new e nil).Balanced :=
      ⟨trivial, trivial, Nat.zero_le _, Nat.zero_le _⟩
    exact ⟨hsingle, Nat.zero_le _, le_rfl⟩
  | node l i f r ihl ihr =>
    rw [Layout.insert]
    split_ifs
    · obtain ⟨hnew, hgrows⟩ := ihl h.1
      exact h.rebalance_grows hnew hgrows h.2.1 (.refl r) i f
    · obtain ⟨hnew, hgrows⟩ := ihr h.2.1
      exact h.rebalance_grows h.1 (.refl l) hnew hgrows i f

theorem Balanced.remove (h : y.Balanced) (e : IntervalEntry K V) :
    (y.remove e).1.Balanced ∧ Shrinks y (y.remove e).1 := by
  induction y with
  | nil => exact ⟨trivial, .refl _⟩
  | node l i f r ihl ihr =>
    rw [Layout.remove]
    split
    case h_1 =>
      obtain ⟨hrest, hshrinks⟩ := ihl h.1
      exact h.rebalance_shrinks hrest hshrinks h.2.1 (.refl r) i f
    case h_2 =>
      obtain ⟨hrest, hshrinks⟩ := ihr h.2.1
      exact h.rebalance_shrinks h.1 (.refl l) hrest hshrinks i f
    case h_3 => exact h.withoutTop

end Calls

/-- Of two heights that differ by at most one, the thinnest trees are as large together as the
thinnest tree above them. -/
theorem fib_above_le {m n : Nat} (hmn : m ≤ n) (hnm : n ≤ m + 1) :
    Nat.fib (1 + n + 2) ≤ Nat.fib (m + 2) + Nat.fib (n + 2) := by
  have hthin : Nat.fib (n + 1) ≤ Nat.fib (m + 2) := Nat.fib_mono (by omega)
  calc Nat.fib (1 + n + 2) = Nat.fib (n + 1 + 2) := by rw [Nat.add_comm 1 n]
    _ = Nat.fib (n + 1) + Nat.fib (n + 2) := Nat.fib_add_two
    _ ≤ Nat.fib (m + 2) + Nat.fib (n + 2) := Nat.add_le_add_right hthin _

/-- A balanced tree of a height has as many entries as the thinnest one, less one: the Fibonacci
numbers count the thinnest trees, whose sides differ everywhere. -/
theorem Balanced.fib_height_le (h : y.Balanced) :
    Nat.fib (y.height + 2) ≤ y.entries.length + 1 := by
  induction y with
  | nil => exact le_rfl
  | node l i e r ihl ihr =>
    obtain ⟨hl, hr, hlr, hrl⟩ := h
    have hlength : (node l i e r).entries.length = l.entries.length + (r.entries.length + 1) := by
      rw [entries_node, List.length_append, List.length_cons]
    have hcount := Nat.add_le_add (ihl hl) (ihr hr)
    rw [height, hlength]
    rcases le_total l.height r.height with hle | hle
    · have habove := fib_above_le hle hrl
      rw [max_eq_right hle]
      omega
    · have habove := fib_above_le hle hlr
      rw [max_eq_left hle]
      omega

/-! ## The check -/

/-- A tree and each of the subtrees of its nodes lie within the tree. -/
inductive Within (z : Layout K V) : Layout K V → Prop
  | refl : Within z z
  | left {l r : Layout K V} (i : Nat) (e : IntervalEntry K V) :
      Within z l → Within z (node l i e r)
  | right {l r : Layout K V} (i : Nat) (e : IntervalEntry K V) :
      Within z r → Within z (node l i e r)

theorem Balanced.within {z : Layout K V} (h : y.Balanced) (hz : z.Within y) : z.Balanced := by
  induction hz with
  | refl => exact h
  | left i e _ ih => exact ih h.1
  | right i e _ ih => exact ih h.2.1

variable [LT K] [DecidableLT K] {a : IntervalArena K V}

theorem Stores.within {z : Layout K V} (h : y.Stores a) (hz : z.Within y) : z.Stores a := by
  induction hz with
  | refl => exact h
  | left i e _ ih => exact ih h.2.1
  | right i e _ ih => exact ih h.2.2

/-- What a node over two subtrees has to store. -/
structure Describes (a : IntervalArena K V) (n : IntervalNode K V) (l r : Layout K V) : Prop where
  left : n.left = l.top
  right : n.right = r.top
  height : n.height = 1 + max l.height r.height
  balance : n.balance = (l.height : Int) - r.height
  balance_mem : n.balance ∈ [-1, 0, 1]
  maxEnd : n.maxEnd = a.maxWith (a.maxWith n.entry.high n.left) n.right

theorem Stores.describes (h : (node l i e r).Stores a) (hbalanced : (node l i e r).Balanced) :
    ∃ n, a.nodes[i]? = some n ∧ n.entry = e ∧ Describes a n l r := by
  obtain ⟨-, -, hlr, hrl⟩ := hbalanced
  refine ⟨record l e r, h.1, rfl, rfl, rfl, rfl, rfl, ?_, ?_⟩
  · simp only [record, List.mem_cons, List.not_mem_nil, or_false]
    omega
  · simp only [record, h.2.1.maxWith, h.2.2.maxWith]

theorem foldl_maxKey (m : K) (j k : Option K) :
    (j.toList ++ k.toList).foldl IntervalEntry.maxKey m = raise (raise m j) k := by
  cases j <;> cases k <;> rfl

variable [LE K] [OrderedKeys K]

theorem Stores.checkAt {d : Nat} (h : y.Stores a) (hbalanced : y.Balanced) (hd : y.height ≤ d) :
    a.checkAt d y.top = some (y.height, y.upperEnd) := by
  induction y generalizing d with
  | nil => cases d <;> rfl
  | node l i e r ihl ihr =>
    obtain ⟨hl, hr, hlr, hrl⟩ := hbalanced
    obtain ⟨d, rfl, hdl, hdr⟩ := height_node_le hd
    have hgap : ((l.height : Int) - r.height).natAbs ≤ 1 := by omega
    have hself (k : K) : IntervalEntry.compareKeys k k = .eq := by
      have hirrefl : ¬ k < k := fun hk => OrderedKeys.not_lt_of_lt hk hk
      simp only [IntervalEntry.compareKeys, hirrefl, if_false]
    simp only [IntervalArena.checkAt, top_node, h.1, record, ihl h.2.1 hl hdl, ihr h.2.2 hr hdr,
      foldl_maxKey, hself, hgap, Option.bind_eq_bind, Option.bind_some, and_self, if_true]
    rfl

end Layout

namespace IntervalTree

variable {K V : Type} [LT K] [DecidableLT K] [Ord V] {t : IntervalTree K V}

theorem isOrdered_of_pairwise {l : List (IntervalEntry K V)}
    (h : l.Pairwise fun e f => (e.order f).isLE) : isOrdered l = true := by
  fun_induction isOrdered l with
  | case1 e f rest ih =>
    obtain ⟨he, hrest⟩ := List.pairwise_cons.mp h
    rw [Bool.and_eq_true, bne_iff_ne]
    exact ⟨Ordering.isLE_iff_ne_gt.mp (he f (List.mem_cons_self ..)), ih hrest⟩
  | case2 => rfl

theorem Reachable.mono {P Q : IntervalEntry K V → Prop} (h : t.Reachable P)
    (hPQ : ∀ e, P e → Q e) : t.Reachable Q := by
  induction h with
  | empty => exact .empty
  | withCapacity capacity => exact .withCapacity capacity
  | apply call _ hcall ih => exact .apply call ih fun e he => hPQ e (hcall e he)

theorem Reachable.exists_balanced {P : IntervalEntry K V → Prop} (h : t.Reachable P) :
    ∃ y, Draws t y ∧ y.Balanced :=
  h.exists_draws trivial (fun hy _ new => (hy.insert new _).1) fun hy e => (hy.remove e).1

theorem Reachable.isBalanced [LE K] [OrderedKeys K] [Std.TransOrd V]
    (h : t.Reachable IntervalEntry.IsKeyed) : t.isBalanced = true := by
  obtain ⟨y, hdraws, hbalanced⟩ := h.exists_balanced
  obtain ⟨z, hdraws', hordered⟩ := h.exists_ordered
  have hcheck : t.arena.checkAt t.depth t.root = some (y.height, y.upperEnd) := by
    rw [hdraws.root]
    exact hdraws.stores.checkAt hbalanced hdraws.height_le_depth
  have hsize : t.toList.length = t.size := by rw [hdraws.toList, hdraws.size_eq]
  have hsorted : isOrdered t.toList = true := by
    rw [hdraws'.toList]
    exact isOrdered_of_pairwise hordered.sorted
  rw [IntervalTree.isBalanced, hcheck, hsize, hsorted, beq_self_eq_true]
  rfl

/-- After any calls, with any keys, every node of the tree that the links draw stores the height,
the balance and the largest upper end of its subtree, no balance is beyond one, and the entries are
at least as many as in the thinnest tree of the height. If all calls were made with keys that are
ordered, the tree passes its own check. -/
theorem Reachable.stays_balanced (h : t.Reachable fun _ => True) :
    ∃ y : Layout K V, Draws t y ∧
      (∀ l i e r, (Layout.node l i e r).Within y →
        ∃ n, t.arena.nodes[i]? = some n ∧ n.entry = e ∧ Layout.Describes t.arena n l r) ∧
      t.height = y.height ∧ t.size = t.toList.length ∧
      Nat.fib (t.height + 2) - 1 ≤ t.toList.length ∧
      ∀ [LE K] [OrderedKeys K] [Std.TransOrd V],
        t.Reachable IntervalEntry.IsKeyed → t.isBalanced = true := by
  obtain ⟨y, hdraws, hbalanced⟩ := h.exists_balanced
  have hheight : t.height = y.height := by
    rw [IntervalTree.height, hdraws.root, hdraws.stores.heightOf]
  refine ⟨y, hdraws, ?_, hheight, ?_, ?_, fun hkeyed => hkeyed.isBalanced⟩
  · intro l i e r hwithin
    exact (hdraws.stores.within hwithin).describes (hbalanced.within hwithin)
  · rw [hdraws.toList, hdraws.size_eq]
  · rw [hheight, hdraws.toList]
    exact Nat.sub_le_of_le_add hbalanced.fib_height_le

/-- A tree of entries with ends that are not numbers, after insertions and a removal, and one whose
entries came in ascending order. -/
theorem Reachable.stays_balanced_notANumber :
    let nan : Float32 := .ofBits 0x7fc00000
    let t : IntervalTree Float32 Nat :=
      ((((((IntervalTree.empty.insert ⟨nan, 0, 0⟩).insert ⟨2, nan, 1⟩).insert ⟨nan, nan, 2⟩).insert
        ⟨1, -1, 3⟩).insert ⟨nan, 5, 4⟩).remove ⟨2, nan, 1⟩).1
    let u : IntervalTree Int64 Nat :=
      ((IntervalTree.empty.insert ⟨1, 0, 0⟩).insert ⟨2, 3, 1⟩).insert ⟨3, 0, 2⟩
    (t.Reachable fun _ => True) ∧ t.height = 3 ∧ t.size = t.toList.length ∧
      Nat.fib 5 - 1 ≤ t.toList.length ∧ (∃ y : Layout Float32 Nat, Draws t y ∧ y.height = 3) ∧
      u.Reachable IntervalEntry.IsKeyed ∧ u.isBalanced = true := by
  intro nan t u
  have ht : t.Reachable fun _ => True :=
    (((((Reachable.empty.insert trivial).insert trivial).insert trivial).insert trivial).insert
      trivial).remove trivial
  have hkeyed (e : IntervalEntry Int64 Nat) : e.IsKeyed := ⟨Int64.le_refl _, Int64.le_refl _⟩
  have hu : u.Reachable IntervalEntry.IsKeyed :=
    ((Reachable.empty.insert (hkeyed _)).insert (hkeyed _)).insert (hkeyed _)
  have hheight : t.height = 3 := by decide
  obtain ⟨y, hdraws, -, hy, hsize, hfib, -⟩ := ht.stays_balanced
  obtain ⟨-, -, -, -, -, -, hchecked⟩ := (hu.mono fun _ _ => trivial).stays_balanced
  rw [hheight] at hy hfib
  exact ⟨ht, hheight, hsize, hfib, ⟨y, hdraws, hy.symm⟩, hu, hchecked hu⟩

end IntervalTree

end PlanarDynamics
