import Mathlib.Data.List.Induction
import Mathlib.Order.Bounds.Basic
import PlanarDynamics.Proofs.IntervalTree.Checked

/-!
# Slots of interval trees

Where the slots of an arena are between calls, whatever the keys. Each is a node of the tree, and
then one path of links leads to it from the root, or it is free. A slot is added only when none is
free, so there are as many slots as there were entries at one time since the tree was made or
cleared.
-/

namespace PlanarDynamics

variable {K V : Type}

/-! ## Paths -/

/-- A side of a node. -/
inductive Side where
  | left
  | right

/-- The link on a side. -/
def IntervalNode.child (n : IntervalNode K V) : Side → Option Nat
  | .left => n.left
  | .right => n.right

namespace IntervalArena

/-- The link at the end of a path that starts with a link. -/
def follow (a : IntervalArena K V) (link : Option Nat) : List Side → Option Nat
  | [] => link
  | side :: path => a.follow ((a.node? link).bind (·.child side)) path

theorem follow_none (a : IntervalArena K V) (path : List Side) : a.follow none path = none := by
  induction path with
  | nil => rfl
  | cons side path ih => exact ih

end IntervalArena

namespace Layout

variable [LT K] [DecidableLT K] {a : IntervalArena K V} {y l r : Layout K V} {i j : Nat}
  {e : IntervalEntry K V} {path other : List Side}

/-- A path from the top of a stored tree ends there or goes on in a subtree. -/
theorem Stores.follow_eq_some_iff (h : (node l i e r).Stores a) :
    a.follow (some i) path = some j ↔
      (path = [] ∧ i = j) ∨
      (∃ p, path = .left :: p ∧ a.follow l.top p = some j) ∨
      ∃ p, path = .right :: p ∧ a.follow r.top p = some j := by
  cases path with
  | nil => simp [IntervalArena.follow]
  | cons side path =>
    cases side <;>
      simp [IntervalArena.follow, IntervalArena.node?, IntervalNode.child, h.1, record]

/-- The paths from the top of a stored tree lead to its slots. -/
theorem Stores.exists_follow_iff (h : y.Stores a) :
    (∃ path, a.follow y.top path = some j) ↔ j ∈ y.slots := by
  induction y with
  | nil => simp [IntervalArena.follow_none]
  | node l i e r ihl ihr =>
    simp only [top_node, h.follow_eq_some_iff, slots_node, List.mem_append, List.mem_cons]
    rw [← ihl h.2.1, ← ihr h.2.2]
    constructor
    · rintro ⟨path, ⟨-, rfl⟩ | ⟨p, -, hp⟩ | ⟨p, -, hp⟩⟩
      · exact .inr (.inl rfl)
      · exact .inl ⟨p, hp⟩
      · exact .inr (.inr ⟨p, hp⟩)
    · rintro (⟨p, hp⟩ | rfl | ⟨p, hp⟩)
      · exact ⟨.left :: p, .inr (.inl ⟨p, rfl, hp⟩)⟩
      · exact ⟨[], .inl ⟨rfl, rfl⟩⟩
      · exact ⟨.right :: p, .inr (.inr ⟨p, rfl, hp⟩)⟩

/-- No two paths from the top of a stored tree lead to one slot. -/
theorem Stores.follow_unique (h : y.Stores a) (hnodup : y.slots.Nodup)
    (hpath : a.follow y.top path = some j) (hother : a.follow y.top other = some j) :
    path = other := by
  induction y generalizing path other with
  | nil => simp [IntervalArena.follow_none] at hpath
  | node l i e r ihl ihr =>
    have hl {p : List Side} (hp : a.follow l.top p = some j) : j ∈ l.slots :=
      h.2.1.exists_follow_iff.mp ⟨p, hp⟩
    have hr {p : List Side} (hp : a.follow r.top p = some j) : j ∈ r.slots :=
      h.2.2.exists_follow_iff.mp ⟨p, hp⟩
    rw [slots_node] at hnodup
    obtain ⟨hnodup_l, hnodup_ir, hdisj⟩ := List.nodup_append.mp hnodup
    obtain ⟨hi_r, hnodup_r⟩ := List.nodup_cons.mp hnodup_ir
    have hi_l : i ∉ l.slots := fun hi => hdisj i hi i (List.mem_cons_self ..) rfl
    have hlr (hjl : j ∈ l.slots) : j ∉ r.slots := fun hjr =>
      hdisj j hjl j (List.mem_cons_of_mem _ hjr) rfl
    -- Each path ends at the top or goes on to one side. Unless both do the same, the slot would be
    -- in two of the three places.
    obtain ⟨rfl, rfl⟩ | ⟨p, rfl, hp⟩ | ⟨p, rfl, hp⟩ := h.follow_eq_some_iff.mp hpath <;>
      obtain ⟨rfl, hij⟩ | ⟨q, rfl, hq⟩ | ⟨q, rfl, hq⟩ := h.follow_eq_some_iff.mp hother
    · rfl
    · exact absurd (hl hq) hi_l
    · exact absurd (hr hq) hi_r
    · exact absurd (hl hp) (hij ▸ hi_l)
    · exact congrArg _ (ihl h.2.1 hnodup_l hp hq)
    · exact absurd (hr hq) (hlr (hl hp))
    · exact absurd (hr hp) (hij ▸ hi_r)
    · exact absurd (hr hp) (hlr (hl hq))
    · exact congrArg _ (ihr h.2.2 hnodup_r hp hq)

end Layout

/-! ## The number of slots -/

namespace Draws

variable [LT K] [DecidableLT K] {t : IntervalTree K V} {y : Layout K V}

theorem size_nodes (h : Draws t y) : t.arena.nodes.size = t.size + t.arena.free.length := by
  have hlength := h.slots.length_eq
  rw [List.length_append, List.length_range] at hlength
  rw [h.size, hlength]

theorem has_root (h : Draws t y) : t.arena.Has t.root := by
  rw [h.root]
  cases y with
  | nil => exact IntervalArena.has_none _
  | node l i e r => exact IntervalArena.has_some (IntervalArena.lt_size h.stores.1)

variable [Ord V]

/-- An insertion adds a slot just when the entries would otherwise outnumber the slots. -/
theorem size_nodes_insert (h : Draws t y) (e : IntervalEntry K V) :
    (t.insert e).arena.nodes.size = max t.arena.nodes.size (t.insert e).size := by
  obtain ⟨b, j, hb, -, hy⟩ := h.insertAt e
  have htree : t.insert e = ⟨b, some j, t.size + 1⟩ := by
    rw [IntervalTree.insert, hb]
  have hcount := h.size_nodes
  rw [htree, hy.only.size]
  cases hfree : t.arena.free with
  | nil =>
    rw [hfree, List.length_nil] at hcount
    simp only [IntervalArena.allocate, hfree, Array.size_push]
    omega
  | cons i rest =>
    rw [hfree, List.length_cons] at hcount
    simp only [IntervalArena.allocate, hfree, Array.size_setIfInBounds]
    omega

theorem size_nodes_remove (h : Draws t y) (e : IntervalEntry K V) :
    (t.remove e).1.arena.nodes.size = t.arena.nodes.size := by
  obtain ⟨b, hb, -, honly⟩ := h.removeAt e
  have hsize : b.nodes.size = t.arena.nodes.size := by
    rw [honly.size, IntervalArena.released_nodes]
  simp only [IntervalTree.remove, hb]
  cases (y.remove e).2.isSome <;> exact hsize

theorem size_nodes_apply (h : Draws t y) {call : TreeCall K V} (hcall : call ≠ .clear) :
    (t.apply call).1.arena.nodes.size = max t.arena.nodes.size (t.apply call).1.size := by
  cases call with
  | insert e => exact h.size_nodes_insert e
  | remove e =>
    have hcount := (h.remove e).1.size_nodes
    have hkept := h.size_nodes_remove e
    simp only [IntervalTree.apply]
    omega
  | clear => exact absurd rfl hcall

end Draws

/-! ## Runs -/

namespace IntervalTree

variable [LT K] [DecidableLT K] [Ord V]

/-- A tree that was just made. -/
inductive Fresh : IntervalTree K V → Prop
  | empty : Fresh .empty
  | withCapacity (capacity : Nat) : Fresh (.withCapacity capacity)

/-- Makes calls one after the other. -/
def run (t : IntervalTree K V) (calls : List (TreeCall K V)) : IntervalTree K V :=
  calls.foldl (fun u call => (u.apply call).1) t

/-- The sizes of a tree before, between and after calls, without those before the last clear. -/
def sizesSinceClear (t : IntervalTree K V) (calls : List (TreeCall K V)) : Set Nat :=
  {n | ∃ past since, past ++ since = calls ∧ .clear ∉ since ∧ (t.run past).size = n}

variable {t : IntervalTree K V} {calls : List (TreeCall K V)} {call : TreeCall K V}

theorem run_concat (t : IntervalTree K V) (calls : List (TreeCall K V)) (call : TreeCall K V) :
    t.run (calls ++ [call]) = ((t.run calls).apply call).1 := List.foldl_concat ..

theorem sizesSinceClear_nil (t : IntervalTree K V) : t.sizesSinceClear [] = {t.size} := by
  ext n
  constructor
  · rintro ⟨past, since, hsplit, -, rfl⟩
    obtain ⟨rfl, rfl⟩ := List.append_eq_nil_iff.mp hsplit
    rfl
  · rintro rfl
    exact ⟨[], [], rfl, List.not_mem_nil, rfl⟩

/-- The last call adds the present size, and a clear forgets the sizes before it. -/
theorem mem_sizesSinceClear_concat {n : Nat} :
    n ∈ t.sizesSinceClear (calls ++ [call]) ↔
      n = (t.run (calls ++ [call])).size ∨ call ≠ .clear ∧ n ∈ t.sizesSinceClear calls := by
  constructor
  · rintro ⟨past, since, hsplit, hclear, rfl⟩
    obtain rfl | ⟨since, last, rfl⟩ := List.eq_nil_or_concat' since
    · rw [List.append_nil] at hsplit
      exact .inl (hsplit ▸ rfl)
    · rw [← List.append_assoc] at hsplit
      obtain ⟨rfl, hlast⟩ := List.append_inj' hsplit rfl
      obtain rfl : last = call := List.singleton_inj.mp hlast
      refine .inr ⟨?_, past, since, rfl, ?_, rfl⟩
      · rintro rfl
        exact hclear (by simp)
      · exact fun hmem => hclear (List.mem_append_left _ hmem)
  · rintro (rfl | ⟨hcall, past, since, rfl, hclear, rfl⟩)
    · exact ⟨calls ++ [call], [], List.append_nil _, List.not_mem_nil, rfl⟩
    · refine ⟨past, since ++ [call], (List.append_assoc ..).symm, ?_, rfl⟩
      simp only [List.mem_append, List.mem_singleton, not_or]
      exact ⟨hclear, hcall.symm⟩

theorem sizesSinceClear_concat (hcall : call ≠ .clear) :
    t.sizesSinceClear (calls ++ [call]) =
      Insert.insert (t.run (calls ++ [call])).size (t.sizesSinceClear calls) := by
  ext n
  rw [mem_sizesSinceClear_concat, Set.mem_insert_iff]
  simp only [hcall, ne_eq, not_false_eq_true, true_and]

theorem sizesSinceClear_clear : t.sizesSinceClear (calls ++ [.clear]) = {0} := by
  ext n
  rw [mem_sizesSinceClear_concat, run_concat, Set.mem_singleton_iff]
  simp only [ne_eq, not_true_eq_false, false_and, or_false]
  rfl

theorem Fresh.reachable (h : t.Fresh) (calls : List (TreeCall K V)) :
    (t.run calls).Reachable fun _ => True := by
  induction calls using List.reverseRecOn with
  | nil =>
    cases h with
    | empty => exact .empty
    | withCapacity capacity => exact .withCapacity capacity
  | append_singleton calls call ih =>
    rw [run_concat]
    exact .apply call ih fun _ _ => trivial

/-- There are as many slots as the tree had entries at its largest since the last clear. -/
theorem Fresh.isGreatest_size_nodes (h : t.Fresh) (calls : List (TreeCall K V)) :
    IsGreatest (t.sizesSinceClear calls) (t.run calls).arena.nodes.size := by
  induction calls using List.reverseRecOn with
  | nil =>
    rw [sizesSinceClear_nil]
    cases h <;> exact isGreatest_singleton
  | append_singleton calls call ih =>
    obtain ⟨y, hy⟩ := (h.reachable calls).exists_layout
    by_cases hcall : call = .clear
    · subst hcall
      rw [sizesSinceClear_clear, run_concat]
      exact isGreatest_singleton
    · rw [sizesSinceClear_concat hcall, run_concat, hy.size_nodes_apply hcall, max_comm]
      exact ih.insert _

/-- After any calls, with any keys, the links from the root of a tree form a finite tree whose
slots, with the free ones, are those of the arena, each once: one path leads to a slot of the tree
and none to a free one. There are as many slots as entries and free slots together, and as many as
there were entries at most since the last clear. The links of all slots, free ones too, lead to
slots, and a further call follows none out of the arena. -/
theorem Fresh.slots_live_or_free (h : t.Fresh) (calls : List (TreeCall K V)) :
    let u := t.run calls
    (∃ y : Layout K V, y.Stores u.arena ∧ u.root = y.top ∧
      (y.slots ++ u.arena.free).Perm (List.range u.arena.nodes.size) ∧
      ∀ i, (∃ path, u.arena.follow u.root path = some i) ↔ i ∈ y.slots) ∧
    (∀ path other i, u.arena.follow u.root path = some i →
      u.arena.follow u.root other = some i → path = other) ∧
    u.arena.nodes.size = u.size + u.arena.free.length ∧
    IsGreatest (t.sizesSinceClear calls) u.arena.nodes.size ∧
    u.arena.Closed ∧ u.arena.Has u.root ∧
    ∀ e, u.insert? e = some (u.insert e) ∧ u.remove? e = some (u.remove e) := by
  intro u
  have hreach : u.Reachable fun _ => True := h.reachable calls
  obtain ⟨y, hy⟩ := hreach.exists_layout
  have hnodup : y.slots.Nodup := (List.nodup_append.mp hy.nodup).1
  refine ⟨⟨y, hy.stores, hy.root, hy.slots, ?_⟩, ?_, hy.size_nodes, h.isGreatest_size_nodes calls,
    hreach.closed, hy.has_root, hreach.checked⟩
  · intro i
    rw [hy.root]
    exact hy.stores.exists_follow_iff
  · intro path other i
    rw [hy.root]
    exact hy.stores.follow_unique hnodup

/-- The root of a tree with ends that are not numbers is removed. Its slot still has the links to
both its children, but no path leads there, and the four slots are those of the four entries that
there were before. -/
theorem Fresh.slots_live_or_free_stale :
    let nan : Float32 := .ofBits 0x7fc00000
    let t : IntervalTree Float32 Nat := .empty
    let calls : List (TreeCall Float32 Nat) :=
      [.insert ⟨9, 9, 0⟩, .clear, .insert ⟨1, 2, 1⟩, .insert ⟨nan, 3, 2⟩, .insert ⟨3, nan, 3⟩,
        .insert ⟨4, 0, 4⟩, .remove ⟨nan, 3, 2⟩]
    let u := t.run calls
    t.Fresh ∧ u.arena.free = [1] ∧
      (u.arena.nodes[1]?.map fun n => (n.left, n.right)) = some (some 0, some 2) ∧
      (∀ path, u.arena.follow u.root path ≠ some 1) ∧
      u.size = 3 ∧ u.arena.nodes.size = 4 ∧ IsGreatest (t.sizesSinceClear calls) 4 := by
  intro nan t calls u
  have hfree : u.arena.free = [1] := by decide
  have hsize : u.size = 3 := by decide
  obtain ⟨⟨y, -, -, hslots, hpaths⟩, -, hcount, hgreatest, -⟩ :=
    Fresh.empty.slots_live_or_free calls
  have hfour : u.arena.nodes.size = 4 := by
    rw [hcount, hfree, hsize]
    rfl
  refine ⟨.empty, hfree, by decide, ?_, hsize, hfour, hfour ▸ hgreatest⟩
  intro path hpath
  have hmem : 1 ∈ y.slots := (hpaths 1).mp ⟨path, hpath⟩
  have hnodup : (y.slots ++ u.arena.free).Nodup := hslots.nodup_iff.mpr List.nodup_range
  rw [hfree] at hnodup
  exact (List.nodup_append.mp hnodup).2.2 1 hmem 1 (List.mem_singleton_self _) rfl

end IntervalTree

end PlanarDynamics
