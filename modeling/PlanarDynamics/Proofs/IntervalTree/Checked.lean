import PlanarDynamics.Proofs.IntervalTree.Refinement

/-!
# Walks that check their accesses

The operations of the tree with every slot looked up before it is read or written. A walk that would
leave the arena, or release a slot when all are free, has no result (`none`). For a tree that calls
lead to, each checked walk has one, and it is that of the walk without checks.

No law of the keys is needed: every link of a slot leads to a slot, also in slots that are free,
and the operations keep it so (`Closed`). That the walks end is known from the layout.
-/

namespace PlanarDynamics

variable {K V : Type}

namespace IntervalArena

/-- There is a slot that a link leads to, if it leads anywhere. -/
def Has (a : IntervalArena K V) (link : Option Nat) : Prop := ∀ i ∈ link, i < a.nodes.size

instance (a : IntervalArena K V) (link : Option Nat) : Decidable (a.Has link) :=
  inferInstanceAs (Decidable (∀ i ∈ link, i < a.nodes.size))

section Operations

/-- Changes the node in slot `i`. -/
def modify? (a : IntervalArena K V) (i : Nat) (f : IntervalNode K V → IntervalNode K V) :
    Option (IntervalArena K V) :=
  if i < a.nodes.size then some (a.modify i f) else none

/-- Links the left side of slot `i`. -/
def setLeft? (a : IntervalArena K V) (i : Nat) (link : Option Nat) : Option (IntervalArena K V) :=
  a.modify? i fun n => { n with left := link }

/-- Links the right side of slot `i`. -/
def setRight? (a : IntervalArena K V) (i : Nat) (link : Option Nat) : Option (IntervalArena K V) :=
  a.modify? i fun n => { n with right := link }

/-- Puts an entry into a slot of its own. The last slot released has to be there. -/
def allocate? (a : IntervalArena K V) (e : IntervalEntry K V) :
    Option (IntervalArena K V × Nat) :=
  if a.Has a.free.head? then some (a.allocate e) else none

/-- Frees a slot, of which there have to be more than free ones. -/
def release? (a : IntervalArena K V) (i : Nat) : Option (IntervalArena K V) :=
  if a.free.length < a.nodes.size then some (a.release i) else none

variable [LT K] [DecidableLT K]

/-- Refreshes slot `i`. It and its children have to be there. -/
def refresh? (a : IntervalArena K V) (i : Nat) : Option (IntervalArena K V) := do
  let n ← a.nodes[i]?
  if a.Has n.left ∧ a.Has n.right then some (a.refresh i) else none

/-- Lifts the left child of slot `i` above it. -/
def rotateRight? (a : IntervalArena K V) (i : Nat) : Option (IntervalArena K V × Nat) := do
  let n ← a.nodes[i]?
  let l ← n.left
  let m ← a.nodes[l]?
  let a ← a.setLeft? i m.right
  let a ← a.setRight? l (some i)
  let a ← a.refresh? i
  return (← a.refresh? l, l)

/-- Lifts the right child of slot `i` above it. -/
def rotateLeft? (a : IntervalArena K V) (i : Nat) : Option (IntervalArena K V × Nat) := do
  let n ← a.nodes[i]?
  let r ← n.right
  let m ← a.nodes[r]?
  let a ← a.setRight? i m.left
  let a ← a.setLeft? r (some i)
  let a ← a.refresh? i
  return (← a.refresh? r, r)

/-- Rotates a subtree whose sides differ by more than one level. -/
def rebalance? (a : IntervalArena K V) (i : Nat) : Option (IntervalArena K V × Nat) := do
  let n ← a.nodes[i]?
  if 1 < n.balance then
    let l ← n.left
    let m ← a.nodes[l]?
    if m.balance < 0 then
      let (a, l) ← a.rotateLeft? l
      (← a.setLeft? i (some l)).rotateRight? i
    else
      a.rotateRight? i
  else if n.balance < -1 then
    let r ← n.right
    let m ← a.nodes[r]?
    if 0 < m.balance then
      let (a, r) ← a.rotateRight? r
      (← a.setRight? i (some r)).rotateLeft? i
    else
      a.rotateLeft? i
  else
    return (a, i)

/-- Refreshes slot `i`, then rebalances it. -/
def restore? (a : IntervalArena K V) (i : Nat) : Option (IntervalArena K V × Nat) := do
  (← a.refresh? i).rebalance? i

/-- Links the left side of slot `i`, then restores it. -/
def relinkLeft? (a : IntervalArena K V) (i : Nat) (link : Option Nat) :
    Option (IntervalArena K V × Nat) := do
  (← a.setLeft? i link).restore? i

/-- Links the right side of slot `i`, then restores it. -/
def relinkRight? (a : IntervalArena K V) (i : Nat) (link : Option Nat) :
    Option (IntervalArena K V × Nat) := do
  (← a.setRight? i link).restore? i

/-- Takes the first entry out of a subtree, without releasing its slot. -/
def detachFirst? (depth : Nat) (a : IntervalArena K V) (i : Nat) :
    Option (IntervalArena K V × Option Nat) :=
  match depth with
  | 0 => none
  | depth + 1 => do
    let n ← a.nodes[i]?
    match n.left with
    | none => return (a, n.right)
    | some l =>
      let (a, child) ← detachFirst? depth a l
      let (a, top) ← a.relinkLeft? i child
      return (a, some top)

/-- Takes the node in slot `i` out of the tree and releases the slot. -/
def removeTop? (depth : Nat) (a : IntervalArena K V) (i : Nat) (n : IntervalNode K V) :
    Option (IntervalArena K V × Option Nat) := do
  let a ← a.release? i
  match n.left, n.right with
  | none, right => some (a, right)
  | left, none => some (a, left)
  | some l, some r => do
    let next ← firstSlot depth a r
    let (a, rest) ← detachFirst? depth a r
    let (a, top) ← (← a.setRight? next rest).relinkLeft? next (some l)
    return (a, some top)

section Search

variable [LE K] [DecidableLE K]

/-- The values of the entries below a link that overlap the range from `low` to `high`. -/
def searchAt? (depth : Nat) (a : IntervalArena K V) (link : Option Nat) (low high : K) :
    Option (List V) :=
  match link, depth with
  | none, _ => some []
  | some _, 0 => none
  | some i, depth + 1 => do
    let n ← a.nodes[i]?
    if n.maxEnd < low then
      return []
    else
      let left ← searchAt? depth a n.left low high
      let right ← if n.entry.low ≤ high then searchAt? depth a n.right low high else some []
      return (if n.entry.overlaps low high then [n.entry.value] else []) ++ left ++ right

end Search

variable [Ord V]

/-- Adds an entry below a link, to the right of the entries equal to it. -/
def insertAt? (depth : Nat) (a : IntervalArena K V) (link : Option Nat) (e : IntervalEntry K V) :
    Option (IntervalArena K V × Nat) :=
  match link, depth with
  | none, _ => a.allocate? e
  | some _, 0 => none
  | some i, depth + 1 => do
    let n ← a.nodes[i]?
    if e.order n.entry = .lt then
      let (a, child) ← insertAt? depth a n.left e
      a.relinkLeft? i (some child)
    else
      let (a, child) ← insertAt? depth a n.right e
      a.relinkRight? i (some child)

/-- Removes an entry equal to `e` from the subtree below a link, if it holds one. -/
def removeAt? (depth : Nat) (a : IntervalArena K V) (link : Option Nat) (e : IntervalEntry K V) :
    Option (IntervalArena K V × Option Nat × Bool) :=
  match link, depth with
  | none, _ => some (a, none, false)
  | some _, 0 => none
  | some i, depth + 1 => do
    let n ← a.nodes[i]?
    match e.order n.entry with
    | .lt =>
      let (a, child, removed) ← removeAt? depth a n.left e
      let (a, top) ← a.relinkLeft? i child
      return (a, some top, removed)
    | .gt =>
      let (a, child, removed) ← removeAt? depth a n.right e
      let (a, top) ← a.relinkRight? i child
      return (a, some top, removed)
    | .eq =>
      let (a, rest) ← removeTop? depth a i n
      return (a, rest, true)

end Operations

/-! ## Closed arenas -/

/-- Every link leads to a slot, and every free slot is there. -/
structure Closed (a : IntervalArena K V) : Prop where
  links : ∀ n ∈ a.nodes, a.Has n.left ∧ a.Has n.right
  free : ∀ i ∈ a.free, i < a.nodes.size

/-- `b` has the slots of `a`, perhaps one more, and its links lead to slots. -/
structure Extends (a b : IntervalArena K V) : Prop where
  closed : b.Closed
  size : a.nodes.size ≤ b.nodes.size

variable {a b c : IntervalArena K V} {i j l r d : Nat} {link : Option Nat} {n : IntervalNode K V}

theorem Extends.trans (hab : a.Extends b) (hbc : b.Extends c) : a.Extends c :=
  ⟨hbc.closed, hab.size.trans hbc.size⟩

theorem Has.mono (h : a.Has link) (hab : a.nodes.size ≤ b.nodes.size) : b.Has link :=
  fun i hi => (h i hi).trans_le hab

theorem has_none (a : IntervalArena K V) : a.Has none := by simp [Has]

theorem has_some (hi : i < a.nodes.size) : a.Has (some i) :=
  fun _ hj => Option.some.inj hj ▸ hi

theorem lt_size (hn : a.nodes[i]? = some n) : i < a.nodes.size :=
  (Array.getElem?_eq_some_iff.mp hn).1

namespace Closed

theorem empty : (empty : IntervalArena K V).Closed :=
  ⟨by simp [IntervalArena.empty], by simp [IntervalArena.empty]⟩

theorem left (h : a.Closed) (hn : a.nodes[i]? = some n) : a.Has n.left :=
  (h.links n (Array.mem_of_getElem? hn)).1

theorem right (h : a.Closed) (hn : a.nodes[i]? = some n) : a.Has n.right :=
  (h.links n (Array.mem_of_getElem? hn)).2

theorem modify (h : a.Closed) (i : Nat) {f : IntervalNode K V → IntervalNode K V}
    (hf : ∀ n ∈ a.nodes, a.Has (f n).left ∧ a.Has (f n).right) : a.Extends (a.modify i f) := by
  have hsize : (a.modify i f).nodes.size = a.nodes.size := Array.size_modify
  refine ⟨⟨fun n hn => ?_, fun j hj => hsize ▸ h.free j hj⟩, hsize.ge⟩
  obtain ⟨k, hk⟩ := Array.getElem?_of_mem hn
  rw [IntervalArena.modify, Array.getElem?_modify] at hk
  split at hk
  · obtain ⟨m, hm, rfl⟩ := Option.map_eq_some_iff.mp hk
    have hlinks := hf m (Array.mem_of_getElem? hm)
    exact ⟨hlinks.1.mono hsize.ge, hlinks.2.mono hsize.ge⟩
  · exact ⟨(h.left hk).mono hsize.ge, (h.right hk).mono hsize.ge⟩

theorem modify? (h : a.Closed) (hi : i < a.nodes.size)
    {f : IntervalNode K V → IntervalNode K V}
    (hf : ∀ n ∈ a.nodes, a.Has (f n).left ∧ a.Has (f n).right) :
    a.modify? i f = some (a.modify i f) ∧ a.Extends (a.modify i f) :=
  ⟨if_pos hi, h.modify i hf⟩

theorem setLeft? (h : a.Closed) (hi : i < a.nodes.size) (hlink : a.Has link) :
    a.setLeft? i link = some (a.setLeft i link) ∧ a.Extends (a.setLeft i link) :=
  h.modify? hi fun n hn => ⟨hlink, (h.links n hn).2⟩

theorem setRight? (h : a.Closed) (hi : i < a.nodes.size) (hlink : a.Has link) :
    a.setRight? i link = some (a.setRight i link) ∧ a.Extends (a.setRight i link) :=
  h.modify? hi fun n hn => ⟨(h.links n hn).1, hlink⟩

theorem allocate? (h : a.Closed) (e : IntervalEntry K V) :
    a.allocate? e = some (a.allocate e) ∧ a.Extends (a.allocate e).1 ∧
      (a.allocate e).1.Has (some (a.allocate e).2) := by
  have hsingle {b : IntervalArena K V} : b.Has (.single e : IntervalNode K V).left ∧
      b.Has (.single e : IntervalNode K V).right := ⟨has_none b, has_none b⟩
  cases hfree : a.free with
  | nil =>
    have hsize : a.nodes.size ≤ (a.nodes.push (.single e)).size :=
      (Nat.le_succ _).trans_eq (Array.size_push _).symm
    simp only [IntervalArena.allocate?, IntervalArena.allocate, hfree]
    refine ⟨if_pos (has_none a), ⟨⟨fun n hn => ?_, by simp⟩, hsize⟩, has_some (by simp)⟩
    rcases Array.mem_push.mp hn with hn | rfl
    · exact ⟨(h.links n hn).1.mono hsize, (h.links n hn).2.mono hsize⟩
    · exact hsingle
  | cons i rest =>
    have hmem : ∀ j ∈ i :: rest, j < a.nodes.size := hfree ▸ h.free
    have hi : i < a.nodes.size := hmem i (List.mem_cons_self ..)
    have hsize : (a.nodes.setIfInBounds i (.single e)).size = a.nodes.size :=
      Array.size_setIfInBounds
    simp only [IntervalArena.allocate?, IntervalArena.allocate, hfree]
    refine ⟨if_pos (has_some hi), ⟨⟨fun n hn => ?_, fun j hj => ?_⟩, hsize.ge⟩,
      has_some (hi.trans_eq hsize.symm)⟩
    · rcases Array.mem_or_eq_of_mem_setIfInBounds hn with hn | rfl
      · exact ⟨(h.links n hn).1.mono hsize.ge, (h.links n hn).2.mono hsize.ge⟩
      · exact hsingle
    · exact (hmem j (List.mem_cons_of_mem _ hj)).trans_eq hsize.symm

theorem release? (h : a.Closed) (hi : i < a.nodes.size) (hfree : a.free.length < a.nodes.size) :
    a.release? i = some (a.release i) ∧ a.Extends (a.release i) :=
  ⟨if_pos hfree, ⟨h.links, List.forall_mem_cons.mpr ⟨hi, h.free⟩⟩, Nat.le_refl _⟩

variable [LT K] [DecidableLT K]

theorem refresh? (h : a.Closed) (hi : i < a.nodes.size) :
    a.refresh? i = some (a.refresh i) ∧ a.Extends (a.refresh i) := by
  refine ⟨?_, h.modify i fun n hn => h.links n hn⟩
  have hn : a.nodes[i]? = some a.nodes[i] := Array.getElem?_eq_getElem hi
  simp only [IntervalArena.refresh?, hn, Option.bind_eq_bind, Option.bind_some]
  exact if_pos ⟨h.left hn, h.right hn⟩

theorem refresh_both (h : a.Closed) (hi : i < a.nodes.size) (hl : l < a.nodes.size) :
    a.refresh? i = some (a.refresh i) ∧
      (a.refresh i).refresh? l = some ((a.refresh i).refresh l) ∧
        a.Extends ((a.refresh i).refresh l) := by
  obtain ⟨heq₁, h₁⟩ := h.refresh? hi
  obtain ⟨heq₂, h₂⟩ := h₁.closed.refresh? (hl.trans_le h₁.size)
  exact ⟨heq₁, heq₂, h₁.trans h₂⟩

theorem rotateRight? (h : a.Closed) (hr : a.rotateRight i = some (b, j)) :
    a.rotateRight? i = some (b, j) ∧ a.Extends b ∧ b.Has (some j) := by
  simp only [IntervalArena.rotateRight, Option.bind_eq_bind, Option.bind_eq_some_iff] at hr
  obtain ⟨n, hn, l, hl, m, hm, hr⟩ := hr
  obtain ⟨rfl, rfl⟩ := Prod.mk.inj (Option.some.inj hr)
  have hi : i < a.nodes.size := lt_size hn
  have hj : l < a.nodes.size := lt_size hm
  obtain ⟨heq₁, h₁⟩ := h.setLeft? hi (h.right hm)
  obtain ⟨heq₂, h₂⟩ := h₁.closed.setRight? (hj.trans_le h₁.size) (has_some (hi.trans_le h₁.size))
  have h₂ := h₁.trans h₂
  obtain ⟨heq₃, heq₄, h₃⟩ := h₂.closed.refresh_both (hi.trans_le h₂.size) (hj.trans_le h₂.size)
  have h₃ := h₂.trans h₃
  refine ⟨?_, h₃, has_some (hj.trans_le h₃.size)⟩
  simp only [IntervalArena.rotateRight?, hn, hl, hm, heq₁, heq₂, heq₃, heq₄, Option.bind_eq_bind,
    Option.bind_some]
  rfl

theorem rotateLeft? (h : a.Closed) (hr : a.rotateLeft i = some (b, j)) :
    a.rotateLeft? i = some (b, j) ∧ a.Extends b ∧ b.Has (some j) := by
  simp only [IntervalArena.rotateLeft, Option.bind_eq_bind, Option.bind_eq_some_iff] at hr
  obtain ⟨n, hn, l, hl, m, hm, hr⟩ := hr
  obtain ⟨rfl, rfl⟩ := Prod.mk.inj (Option.some.inj hr)
  have hi : i < a.nodes.size := lt_size hn
  have hj : l < a.nodes.size := lt_size hm
  obtain ⟨heq₁, h₁⟩ := h.setRight? hi (h.left hm)
  obtain ⟨heq₂, h₂⟩ := h₁.closed.setLeft? (hj.trans_le h₁.size) (has_some (hi.trans_le h₁.size))
  have h₂ := h₁.trans h₂
  obtain ⟨heq₃, heq₄, h₃⟩ := h₂.closed.refresh_both (hi.trans_le h₂.size) (hj.trans_le h₂.size)
  have h₃ := h₂.trans h₃
  refine ⟨?_, h₃, has_some (hj.trans_le h₃.size)⟩
  simp only [IntervalArena.rotateLeft?, hn, hl, hm, heq₁, heq₂, heq₃, heq₄, Option.bind_eq_bind,
    Option.bind_some]
  rfl

theorem rebalance? (h : a.Closed) (hr : a.rebalance i = some (b, j)) :
    a.rebalance? i = some (b, j) ∧ a.Extends b ∧ b.Has (some j) := by
  simp only [IntervalArena.rebalance, Option.bind_eq_bind, Option.bind_eq_some_iff] at hr
  obtain ⟨n, hn, hr⟩ := hr
  have hi : i < a.nodes.size := lt_size hn
  simp only [IntervalArena.rebalance?, hn, Option.bind_eq_bind, Option.bind_some]
  split at hr
  case isTrue hleft =>
    rw [if_pos hleft]
    simp only [Option.bind_eq_some_iff] at hr
    obtain ⟨l, hl, m, hm, hr⟩ := hr
    simp only [hl, hm, Option.bind_some]
    split at hr
    case isTrue hlean =>
      obtain ⟨⟨c, k⟩, hc, hr⟩ := Option.bind_eq_some_iff.mp hr
      obtain ⟨heq₁, h₁, hk⟩ := h.rotateLeft? hc
      obtain ⟨heq₂, h₂⟩ := h₁.closed.setLeft? (hi.trans_le h₁.size) hk
      obtain ⟨heq₃, h₃, hj⟩ := h₂.closed.rotateRight? hr
      rw [if_pos hlean, heq₁, Option.bind_some, heq₂]
      exact ⟨heq₃, (h₁.trans h₂).trans h₃, hj⟩
    case isFalse hlean =>
      rw [if_neg hlean]
      exact h.rotateRight? hr
  case isFalse hleft =>
    rw [if_neg hleft]
    split at hr
    case isTrue hright =>
      rw [if_pos hright]
      simp only [Option.bind_eq_some_iff] at hr
      obtain ⟨r, hrt, m, hm, hr⟩ := hr
      simp only [hrt, hm, Option.bind_some]
      split at hr
      case isTrue hlean =>
        obtain ⟨⟨c, k⟩, hc, hr⟩ := Option.bind_eq_some_iff.mp hr
        obtain ⟨heq₁, h₁, hk⟩ := h.rotateRight? hc
        obtain ⟨heq₂, h₂⟩ := h₁.closed.setRight? (hi.trans_le h₁.size) hk
        obtain ⟨heq₃, h₃, hj⟩ := h₂.closed.rotateLeft? hr
        rw [if_pos hlean, heq₁, Option.bind_some, heq₂]
        exact ⟨heq₃, (h₁.trans h₂).trans h₃, hj⟩
      case isFalse hlean =>
        rw [if_neg hlean]
        exact h.rotateLeft? hr
    case isFalse hright =>
      obtain ⟨rfl, rfl⟩ := Prod.mk.inj (Option.some.inj hr)
      rw [if_neg hright]
      exact ⟨rfl, ⟨h, Nat.le_refl _⟩, has_some hi⟩

theorem restore? (h : a.Closed) (hr : a.restore i = some (b, j)) :
    a.restore? i = some (b, j) ∧ a.Extends b ∧ b.Has (some j) := by
  have hi : i < a.nodes.size := by
    simp only [IntervalArena.restore, IntervalArena.rebalance, Option.bind_eq_bind,
      Option.bind_eq_some_iff] at hr
    obtain ⟨n, hn, -⟩ := hr
    exact (lt_size hn).trans_eq Array.size_modify
  obtain ⟨heq₁, h₁⟩ := h.refresh? hi
  obtain ⟨heq₂, h₂, hj⟩ := h₁.closed.rebalance? hr
  simp only [IntervalArena.restore?, heq₁, Option.bind_eq_bind, Option.bind_some]
  exact ⟨heq₂, h₁.trans h₂, hj⟩

theorem relinkLeft? (h : a.Closed) (hi : i < a.nodes.size) (hlink : a.Has link)
    (hr : (a.setLeft i link).restore i = some (b, j)) :
    a.relinkLeft? i link = some (b, j) ∧ a.Extends b ∧ b.Has (some j) := by
  obtain ⟨heq₁, h₁⟩ := h.setLeft? hi hlink
  obtain ⟨heq₂, h₂, hj⟩ := h₁.closed.restore? hr
  simp only [IntervalArena.relinkLeft?, heq₁, Option.bind_eq_bind, Option.bind_some]
  exact ⟨heq₂, h₁.trans h₂, hj⟩

theorem relinkRight? (h : a.Closed) (hi : i < a.nodes.size) (hlink : a.Has link)
    (hr : (a.setRight i link).restore i = some (b, j)) :
    a.relinkRight? i link = some (b, j) ∧ a.Extends b ∧ b.Has (some j) := by
  obtain ⟨heq₁, h₁⟩ := h.setRight? hi hlink
  obtain ⟨heq₂, h₂, hj⟩ := h₁.closed.restore? hr
  simp only [IntervalArena.relinkRight?, heq₁, Option.bind_eq_bind, Option.bind_some]
  exact ⟨heq₂, h₁.trans h₂, hj⟩

theorem detachFirst? (h : a.Closed) (hr : a.detachFirst d i = some (b, link)) :
    a.detachFirst? d i = some (b, link) ∧ a.Extends b ∧ b.Has link := by
  induction d generalizing i b link with
  | zero => cases hr
  | succ d ih =>
    simp only [IntervalArena.detachFirst, Option.bind_eq_bind, Option.bind_eq_some_iff] at hr
    obtain ⟨n, hn, hr⟩ := hr
    simp only [IntervalArena.detachFirst?, hn, Option.bind_eq_bind, Option.bind_some]
    cases hl : n.left with
    | none =>
      simp only [hl] at hr
      obtain ⟨rfl, rfl⟩ := Prod.mk.inj (Option.some.inj hr)
      exact ⟨rfl, ⟨h, Nat.le_refl _⟩, h.right hn⟩
    | some l =>
      simp only [hl, Option.bind_eq_some_iff] at hr
      obtain ⟨⟨c, child⟩, hc, ⟨c', top⟩, hr, htop⟩ := hr
      obtain ⟨rfl, rfl⟩ := Prod.mk.inj (Option.some.inj htop)
      obtain ⟨heq₁, h₁, hchild⟩ := ih hc
      obtain ⟨heq₂, h₂, hj⟩ := h₁.closed.relinkLeft? ((lt_size hn).trans_le h₁.size) hchild hr
      simp only [heq₁, heq₂, Option.bind_some]
      exact ⟨rfl, h₁.trans h₂, hj⟩

omit [DecidableLT K] [LT K] in
theorem firstSlot_lt (hr : a.firstSlot d i = some j) : j < a.nodes.size := by
  induction d generalizing i with
  | zero => cases hr
  | succ d ih =>
    simp only [firstSlot, Option.bind_eq_bind, Option.bind_eq_some_iff] at hr
    obtain ⟨n, hn, hr⟩ := hr
    split at hr
    case h_1 => exact Option.some.inj hr ▸ lt_size hn
    case h_2 => exact ih hr

theorem removeTop? (h : a.Closed) (hfree : a.free.length < a.nodes.size)
    (hn : a.nodes[i]? = some n) (hr : a.removeTop d i n = some (b, link)) :
    a.removeTop? d i n = some (b, link) ∧ a.Extends b ∧ b.Has link := by
  obtain ⟨heq, hrel⟩ := h.release? (lt_size hn) hfree
  have hleft : (a.release i).Has n.left := (h.left hn).mono hrel.size
  simp only [IntervalArena.removeTop?, heq, Option.bind_eq_bind, Option.bind_some]
  unfold IntervalArena.removeTop at hr
  cases hl : n.left with
  | none =>
    simp only [hl] at hr
    obtain ⟨rfl, rfl⟩ := Prod.mk.inj (Option.some.inj hr)
    exact ⟨rfl, hrel, (h.right hn).mono hrel.size⟩
  | some l =>
    rw [hl] at hleft
    cases hrt : n.right with
    | none =>
      simp only [hl, hrt] at hr
      obtain ⟨rfl, rfl⟩ := Prod.mk.inj (Option.some.inj hr)
      exact ⟨rfl, hrel, hleft⟩
    | some r =>
      simp only [hl, hrt, Option.bind_eq_bind, Option.bind_eq_some_iff] at hr
      obtain ⟨next, hnext, ⟨c, rest⟩, hc, ⟨c', top⟩, hr, htop⟩ := hr
      obtain ⟨rfl, rfl⟩ := Prod.mk.inj (Option.some.inj htop)
      obtain ⟨heq₁, h₁, hrest⟩ := hrel.closed.detachFirst? hc
      have hlt : next < c.nodes.size := (firstSlot_lt hnext).trans_le h₁.size
      obtain ⟨heq₂, h₂⟩ := h₁.closed.setRight? hlt hrest
      obtain ⟨heq₃, h₃, hj⟩ := h₂.closed.relinkLeft? (hlt.trans_le h₂.size)
        (hleft.mono (h₁.trans h₂).size) hr
      simp only [hnext, heq₁, heq₂, heq₃, Option.bind_some]
      exact ⟨rfl, ((hrel.trans h₁).trans h₂).trans h₃, hj⟩

variable [Ord V] {e : IntervalEntry K V}

theorem insertAt?_none (h : a.Closed) (hr : a.insertAt d none e = some (b, j)) :
    a.insertAt? d none e = some (b, j) ∧ a.Extends b ∧ b.Has (some j) := by
  rw [IntervalArena.insertAt] at hr
  obtain ⟨rfl, rfl⟩ := Prod.mk.inj (Option.some.inj hr)
  rw [IntervalArena.insertAt?]
  exact h.allocate? e

theorem insertAt? (h : a.Closed) (hr : a.insertAt d link e = some (b, j)) :
    a.insertAt? d link e = some (b, j) ∧ a.Extends b ∧ b.Has (some j) := by
  induction d generalizing link b j with
  | zero =>
    cases link with
    | none => exact h.insertAt?_none hr
    | some i => cases hr
  | succ d ih =>
    cases link with
    | none => exact h.insertAt?_none hr
    | some i =>
      simp only [IntervalArena.insertAt, Option.bind_eq_bind, Option.bind_eq_some_iff] at hr
      obtain ⟨n, hn, hr⟩ := hr
      simp only [IntervalArena.insertAt?, hn, Option.bind_eq_bind, Option.bind_some]
      split at hr
      case isTrue hlt =>
        obtain ⟨⟨c, child⟩, hc, hr⟩ := Option.bind_eq_some_iff.mp hr
        obtain ⟨heq₁, h₁, hchild⟩ := ih hc
        obtain ⟨heq₂, h₂, hj⟩ := h₁.closed.relinkLeft? ((lt_size hn).trans_le h₁.size) hchild hr
        rw [if_pos hlt, heq₁]
        exact ⟨heq₂, h₁.trans h₂, hj⟩
      case isFalse hlt =>
        obtain ⟨⟨c, child⟩, hc, hr⟩ := Option.bind_eq_some_iff.mp hr
        obtain ⟨heq₁, h₁, hchild⟩ := ih hc
        obtain ⟨heq₂, h₂, hj⟩ := h₁.closed.relinkRight? ((lt_size hn).trans_le h₁.size) hchild hr
        rw [if_neg hlt, heq₁]
        exact ⟨heq₂, h₁.trans h₂, hj⟩

theorem removeAt?_none (h : a.Closed) {found : Bool}
    (hr : a.removeAt d none e = some (b, link, found)) :
    a.removeAt? d none e = some (b, link, found) ∧ a.Extends b ∧ b.Has link := by
  rw [IntervalArena.removeAt] at hr
  cases hr
  rw [IntervalArena.removeAt?]
  exact ⟨rfl, ⟨h, Nat.le_refl _⟩, has_none a⟩

/-- A walk changes nothing before it releases a slot, so that a slot that is not free at its start
is enough. -/
theorem removeAt? (h : a.Closed) (hfree : a.free.length < a.nodes.size) {found : Bool}
    {top : Option Nat} (hr : a.removeAt d link e = some (b, top, found)) :
    a.removeAt? d link e = some (b, top, found) ∧ a.Extends b ∧ b.Has top := by
  induction d generalizing link b top with
  | zero =>
    cases link with
    | none => exact h.removeAt?_none hr
    | some i => cases hr
  | succ d ih =>
    cases link with
    | none => exact h.removeAt?_none hr
    | some i =>
      simp only [IntervalArena.removeAt, Option.bind_eq_bind, Option.bind_eq_some_iff] at hr
      obtain ⟨n, hn, hr⟩ := hr
      simp only [IntervalArena.removeAt?, hn, Option.bind_eq_bind, Option.bind_some]
      cases horder : e.order n.entry with
      | lt =>
        simp only [horder, Option.bind_eq_some_iff] at hr
        obtain ⟨⟨c, child, removed⟩, hc, ⟨c', k⟩, hr, htop⟩ := hr
        cases htop
        obtain ⟨heq₁, h₁, hchild⟩ := ih hc
        obtain ⟨heq₂, h₂, hk⟩ := h₁.closed.relinkLeft? ((lt_size hn).trans_le h₁.size) hchild hr
        simp only [heq₁, heq₂, Option.bind_some]
        exact ⟨rfl, h₁.trans h₂, hk⟩
      | gt =>
        simp only [horder, Option.bind_eq_some_iff] at hr
        obtain ⟨⟨c, child, removed⟩, hc, ⟨c', k⟩, hr, htop⟩ := hr
        cases htop
        obtain ⟨heq₁, h₁, hchild⟩ := ih hc
        obtain ⟨heq₂, h₂, hk⟩ := h₁.closed.relinkRight? ((lt_size hn).trans_le h₁.size) hchild hr
        simp only [heq₁, heq₂, Option.bind_some]
        exact ⟨rfl, h₁.trans h₂, hk⟩
      | eq =>
        simp only [horder, Option.bind_eq_some_iff] at hr
        obtain ⟨⟨c, rest⟩, hc, htop⟩ := hr
        cases htop
        obtain ⟨heq₁, h₁, hrest⟩ := h.removeTop? hfree hn hc
        simp only [heq₁, Option.bind_some]
        exact ⟨rfl, h₁, hrest⟩

end Closed

end IntervalArena

namespace Layout

variable [LT K] [DecidableLT K] [LE K] [DecidableLE K]

/-- A search of a tree that the arena holds meets no link that leads out of it. -/
theorem Stores.searchAt? {a : IntervalArena K V} {y : Layout K V} {d : Nat} (h : y.Stores a)
    (hd : y.height ≤ d) (low high : K) :
    a.searchAt? d y.top low high = some (y.search low high) := by
  induction y generalizing d with
  | nil => rw [top_nil, IntervalArena.searchAt?, search]
  | node l i e r ihl ihr =>
    obtain ⟨d, rfl, hdl, hdr⟩ := height_node_le hd
    have hl := ihl h.2.1 hdl
    have hr := ihr h.2.2 hdr
    simp only [top_node, IntervalArena.searchAt?, h.1, record, hl, hr, search, Option.bind_eq_bind,
      Option.bind_some, Option.pure_def]
    split_ifs <;> simp

end Layout

namespace IntervalTree

variable [LT K] [DecidableLT K] [LE K] [DecidableLE K]

/-- The values of the entries that overlap the closed range from `low` to `high`. -/
def searchAll? (t : IntervalTree K V) (low high : K) : Option (List V) :=
  t.arena.searchAt? t.depth t.root low high

variable [Ord V]

/-- Adds an entry. -/
def insert? (t : IntervalTree K V) (e : IntervalEntry K V) : Option (IntervalTree K V) := do
  let (arena, root) ← t.arena.insertAt? t.depth t.root e
  return ⟨arena, some root, t.size + 1⟩

/-- Removes one entry equal to `e` and says whether there was one. -/
def remove? (t : IntervalTree K V) (e : IntervalEntry K V) : Option (IntervalTree K V × Bool) := do
  let (arena, root, removed) ← t.arena.removeAt? t.depth t.root e
  return (⟨arena, root, if removed then t.size - 1 else t.size⟩, removed)

end IntervalTree

namespace Draws

variable [LT K] [DecidableLT K] [Ord V] {t : IntervalTree K V} {y : Layout K V}

theorem insert? (h : Draws t y) (hclosed : t.arena.Closed) (e : IntervalEntry K V) :
    t.insert? e = some (t.insert e) ∧ (t.insert e).arena.Closed := by
  obtain ⟨b, j, hb, -, -⟩ := h.insertAt e
  obtain ⟨heq, hext, -⟩ := hclosed.insertAt? hb
  simp only [IntervalTree.insert?, IntervalTree.insert, hb, heq]
  exact ⟨rfl, hext.closed⟩

theorem remove? (h : Draws t y) (hclosed : t.arena.Closed) (e : IntervalEntry K V) :
    t.remove? e = some (t.remove e) ∧ (t.remove e).1.arena.Closed := by
  obtain ⟨b, hb, -, -⟩ := h.removeAt e
  have hchecked : t.arena.removeAt? t.depth t.root e =
      some (b, (y.remove e).1.top, (y.remove e).2.isSome) ∧ t.arena.Extends b := by
    cases hroot : t.root with
    | none =>
      obtain ⟨heq, hext, -⟩ := hclosed.removeAt?_none (hroot ▸ hb)
      exact ⟨heq, hext⟩
    | some i =>
      obtain ⟨heq, hext, -⟩ := hclosed.removeAt? (h.length_free_lt (by simp [hroot])) (hroot ▸ hb)
      exact ⟨heq, hext⟩
  simp only [IntervalTree.remove?, IntervalTree.remove, hb, hchecked.1]
  cases (y.remove e).2.isSome <;> exact ⟨rfl, hchecked.2.closed⟩

end Draws

namespace IntervalTree

variable [LT K] [DecidableLT K] [Ord V] {t : IntervalTree K V} {P : IntervalEntry K V → Prop}

theorem Reachable.closed (h : t.Reachable P) : t.arena.Closed := by
  induction h with
  | empty => exact .empty
  | withCapacity capacity => exact .empty
  | apply call ht _ ih =>
    obtain ⟨y, hy⟩ := ht.exists_layout
    cases call with
    | insert e => exact (hy.insert? ih e).2
    | remove e => exact (hy.remove? ih e).2
    | clear => exact .empty

variable (h : t.Reachable P)

include h

/-- The calls of a tree stay inside its arena, and none releases a slot too many. -/
theorem Reachable.checked (e : IntervalEntry K V) :
    t.insert? e = some (t.insert e) ∧ t.remove? e = some (t.remove e) := by
  obtain ⟨y, hy⟩ := h.exists_layout
  exact ⟨(hy.insert? h.closed e).1, (hy.remove? h.closed e).1⟩

theorem Reachable.searchAll? [LE K] [DecidableLE K] (low high : K) :
    t.searchAll? low high = some (t.searchAll low high) := by
  obtain ⟨y, hy⟩ := h.exists_layout
  rw [hy.searchAll, IntervalTree.searchAll?, hy.root]
  exact hy.stores.searchAt? hy.height_le_depth low high

end IntervalTree

end PlanarDynamics
