import PlanarDynamics.PointIndex.RangeTree
import PlanarDynamics.Proofs.PointIndex.Basic

/-!
# Queries of range trees

A query searches one array, that of the root, and then follows the references that merging left in
the entries. What carries it down the tree: the references of the first entry that is not below a
bound lead to the first such entries of the two children. A lower edge that is no number has nothing
below it, and the query then begins at the very first entry.
-/

namespace PlanarDynamics

section Search

variable {β : Type} {passes : β → Bool}

/-- The part that is still searched keeps the end of the passing elements. -/
theorem partitionFrom_eq {xs : Array β} {n base size : Nat}
    (h : ∀ i, xs[i]?.any passes = decide (i < n)) (hbase : base ≤ n) (hn : n ≤ base + size) :
    partitionFrom passes xs base size = n := by
  fun_induction partitionFrom passes xs base size with
  | case1 base size hsize half mid ih =>
    simp only [h, decide_eq_true_eq, dite_eq_ite] at ih ⊢
    by_cases hmid : mid < n
    · rw [if_pos hmid] at ih ⊢
      exact ih (by omega) (by omega)
    · rw [if_neg hmid] at ih ⊢
      exact ih (by omega) (by omega)
  | case2 base size hsize hpass =>
    rw [h, decide_eq_true_eq] at hpass
    omega
  | case3 base size hsize hpass =>
    rw [h, decide_eq_true_eq] at hpass
    omega

/-- Where no element that fails comes before one that passes, the search finds the first that
fails. -/
theorem partitionPoint_eq {xs : Array β}
    (h : xs.toList.Pairwise fun a b => passes b = true → passes a = true) :
    partitionPoint passes xs = xs.toList.findIdx fun a => !passes a := by
  apply partitionFrom_eq
  · intro i
    rw [← Array.getElem?_toList]
    by_cases hi : i < xs.toList.findIdx fun a => !passes a
    · have hlt := hi.trans_le List.findIdx_le_length
      have := List.not_of_lt_findIdx hi
      rw [List.getElem?_eq_getElem hlt, Option.any_some, decide_eq_true hi]
      simpa using this
    · rw [decide_eq_false hi]
      rw [not_lt] at hi
      by_cases hlt : i < xs.toList.length
      · rw [List.getElem?_eq_getElem hlt, Option.any_some]
        have hfirst := List.findIdx_getElem (w := hi.trans_lt hlt)
        rw [Bool.not_eq_true'] at hfirst
        rcases hi.eq_or_lt with heq | hbefore
        · simpa only [heq] using hfirst
        · rw [Bool.eq_false_iff]
          intro hpass
          have := List.pairwise_iff_getElem.mp h _ i (hi.trans_lt hlt) hlt hbefore hpass
          rw [hfirst] at this
          exact Bool.false_ne_true this
      · rw [List.getElem?_eq_none (not_lt.mp hlt), Option.any_none]
  · exact Nat.zero_le _
  · rw [Nat.zero_add]
    exact List.findIdx_le_length

end Search

variable {α V : Type} [Scalar α]

/-- Both coordinates are numbers. -/
structure Vec.IsKeyed (p : Vec α) : Prop where
  x : IsKey p.x
  y : IsKey p.y

namespace YEntry

/-- The point with its value. -/
def item (e : YEntry α V) : Vec α × V := (e.point, e.value)

/-- The entry is not below a bound. -/
def reaches (b : α) (e : YEntry α V) : Bool := !decide (e.point.y < b)

@[simp] theorem reaches_mk {b : α} (e : YEntry α V) (left right : Option Nat) :
    reaches b ⟨e.point, e.value, left, right⟩ = e.reaches b := rfl

/-- The position of the first entry that is not below a bound, with positions counted from `i`. -/
def position (b : α) (i : Nat) (es : List (YEntry α V)) : Option Nat :=
  (es.findIdx? (reaches b)).map (i + ·)

theorem position_nil (b : α) (i : Nat) : position b i ([] : List (YEntry α V)) = none := rfl

theorem position_cons (b : α) (i : Nat) (e : YEntry α V) (es : List (YEntry α V)) :
    position b i (e :: es) = if e.reaches b then some i else position b (i + 1) es := by
  unfold position
  rw [List.findIdx?_cons]
  split
  · rfl
  · rw [Option.map_map]
    congr 1
    funext k
    exact (Nat.add_right_comm i k 1)

theorem map_item_merge (i j : Nat) (ls rs : List (YEntry α V)) :
    ((merge i j ls rs).map item).Perm (ls.map item ++ rs.map item) := by
  fun_induction merge i j ls rs with
  | case1 => exact .refl _
  | case2 i j l ls ih => exact ih.cons (item l)
  | case3 i j r rs ih => exact ih.cons (item r)
  | case4 i j l ls r rs hle ih => exact ih.cons (item l)
  | case5 i j l ls r rs hle ih =>
    simp only [List.map_cons] at ih ⊢
    exact (ih.cons (item r)).trans List.perm_middle.symm

theorem forall_point_merge (P : Vec α → Prop) {i j : Nat} {ls rs : List (YEntry α V)}
    (hls : ∀ e ∈ ls, P e.point) (hrs : ∀ e ∈ rs, P e.point) :
    ∀ e ∈ merge i j ls rs, P e.point := by
  intro e he
  have hmem := (map_item_merge i j ls rs).mem_iff.mp (List.mem_map_of_mem he)
  rcases List.mem_append.mp hmem with hmem | hmem
  · obtain ⟨f, hf, hfe⟩ := List.mem_map.mp hmem
    exact (show f.point = e.point from congrArg Prod.fst hfe) ▸ hls f hf
  · obtain ⟨f, hf, hfe⟩ := List.mem_map.mp hmem
    exact (show f.point = e.point from congrArg Prod.fst hfe) ▸ hrs f hf

variable [LawfulScalar α] {i j : Nat} {ls rs : List (YEntry α V)}

theorem pairwise_merge (hls : ls.Pairwise fun e f => e.point.y ≤ f.point.y)
    (hrs : rs.Pairwise fun e f => e.point.y ≤ f.point.y) (hkl : ∀ e ∈ ls, e.point.IsKeyed)
    (hkr : ∀ e ∈ rs, e.point.IsKeyed) :
    (merge i j ls rs).Pairwise fun e f => e.point.y ≤ f.point.y := by
  fun_induction merge i j ls rs with
  | case1 => exact .nil
  | case2 i j l ls ih =>
    obtain ⟨hl, hls⟩ := List.pairwise_cons.mp hls
    rw [List.forall_mem_cons] at hkl
    exact List.pairwise_cons.mpr
      ⟨forall_point_merge (l.point.y ≤ ·.y) hl nofun, ih hls hrs hkl.2 hkr⟩
  | case3 i j r rs ih =>
    obtain ⟨hr, hrs⟩ := List.pairwise_cons.mp hrs
    rw [List.forall_mem_cons] at hkr
    exact List.pairwise_cons.mpr
      ⟨forall_point_merge (r.point.y ≤ ·.y) nofun hr, ih hls hrs hkl hkr.2⟩
  | case4 i j l ls r rs hle ih =>
    obtain ⟨hl, hls⟩ := List.pairwise_cons.mp hls
    obtain ⟨hr, -⟩ := List.pairwise_cons.mp hrs
    rw [List.forall_mem_cons] at hkl
    refine List.pairwise_cons.mpr ⟨forall_point_merge (l.point.y ≤ ·.y) hl ?_,
      ih hls hrs hkl.2 hkr⟩
    rw [List.forall_mem_cons]
    exact ⟨hle, fun e he => OrderedKeys.le_trans hle (hr e he)⟩
  | case5 i j l ls r rs hle ih =>
    obtain ⟨hl, -⟩ := List.pairwise_cons.mp hls
    obtain ⟨hr, hrs⟩ := List.pairwise_cons.mp hrs
    rw [List.forall_mem_cons] at hkr
    have hge := (OrderedKeys.le_total (hkl l (List.mem_cons_self ..)).y hkr.1.y).resolve_left hle
    refine List.pairwise_cons.mpr ⟨forall_point_merge (r.point.y ≤ ·.y) ?_ hr,
      ih hls hrs hkl hkr.2⟩
    rw [List.forall_mem_cons]
    exact ⟨hge, fun e he => OrderedKeys.le_trans hge (hl e he)⟩

theorem reaches_of_le {b : α} {e f : YEntry α V} (hle : e.point.y ≤ f.point.y)
    (h : e.reaches b = true) : f.reaches b = true := by
  simp only [reaches, Bool.not_eq_true', decide_eq_false_iff_not] at h ⊢
  exact fun hlt => h (OrderedKeys.lt_of_le_of_lt hle hlt)

omit [LawfulScalar α] in
theorem find?_mk_cons {b : α} {x e : YEntry α V} {left right : Option Nat}
    {es : List (YEntry α V)}
    (h : (⟨x.point, x.value, left, right⟩ :: es).find? (reaches b) = some e) :
    (x.reaches b = true ∧ e.left = left ∧ e.right = right) ∨
      (x.reaches b = false ∧ es.find? (reaches b) = some e) := by
  rw [List.find?_cons, reaches_mk] at h
  cases hx : x.reaches b with
  | true =>
    rw [hx] at h
    obtain rfl := Option.some.inj h
    exact .inl ⟨rfl, rfl, rfl⟩
  | false =>
    rw [hx] at h
    exact .inr ⟨rfl, h⟩

/-- The references of the first entry that is not below a bound are the positions of the first such
entries on both sides. -/
theorem references_of_find? {b : α} {e : YEntry α V} (hkl : ∀ e ∈ ls, e.point.IsKeyed)
    (hkr : ∀ e ∈ rs, e.point.IsKeyed) (h : (merge i j ls rs).find? (reaches b) = some e) :
    e.left = position b i ls ∧ e.right = position b j rs := by
  fun_induction merge i j ls rs with
  | case1 => exact absurd h (by simp)
  | case2 i j l ls ih =>
    rw [List.forall_mem_cons] at hkl
    rw [position_cons]
    rcases find?_mk_cons h with ⟨hl, hleft, hright⟩ | ⟨hl, h⟩
    · rw [hl, hleft, hright]
      exact ⟨rfl, rfl⟩
    · rw [hl]
      exact ih hkl.2 hkr h
  | case3 i j r rs ih =>
    rw [List.forall_mem_cons] at hkr
    rw [position_cons]
    rcases find?_mk_cons h with ⟨hr, hleft, hright⟩ | ⟨hr, h⟩
    · rw [hr, hleft, hright]
      exact ⟨rfl, rfl⟩
    · rw [hr]
      exact ih hkl hkr.2 h
  | case4 i j l ls r rs hle ih =>
    rw [List.forall_mem_cons] at hkl
    rw [position_cons b i]
    rcases find?_mk_cons h with ⟨hl, hleft, hright⟩ | ⟨hl, h⟩
    · rw [hl, position_cons, reaches_of_le hle hl, hleft, hright]
      exact ⟨rfl, rfl⟩
    · rw [hl]
      exact ih hkl.2 hkr h
  | case5 i j l ls r rs hle ih =>
    have hge := (OrderedKeys.le_total (hkl l (List.mem_cons_self ..)).y
      (hkr r (List.mem_cons_self ..)).y).resolve_left hle
    rw [List.forall_mem_cons] at hkr
    rw [position_cons b j]
    rcases find?_mk_cons h with ⟨hr, hleft, hright⟩ | ⟨hr, h⟩
    · rw [hr, position_cons, reaches_of_le hge hr, hleft, hright]
      exact ⟨rfl, rfl⟩
    · rw [hr]
      exact ih hkl hkr.2 h

end YEntry

namespace RangeNode

open YEntry

/-- The points below a node from left to right. -/
def items : RangeNode α V → List (Vec α × V)
  | leaf point value => [(point, value)]
  | fork _ _ left right => left.items ++ right.items

/-- Every array is merged from those of the two children. -/
inductive Merged : RangeNode α V → Prop
  | leaf (p : Vec α) (v : V) : Merged (.leaf p v)
  | fork {l r : RangeNode α V} (x : Span α) : Merged l → Merged r →
      Merged (.fork x (merge 0 0 l.ys.toList r.ys.toList).toArray l r)

/-- The array of a node lists the points below it. -/
theorem Merged.map_item_ys {n : RangeNode α V} (h : n.Merged) :
    (n.ys.toList.map item).Perm n.items := by
  induction h with
  | leaf p v => exact .refl _
  | fork x _ _ ihl ihr => exact (map_item_merge ..).trans (ihl.append ihr)

/-- The node is over the points, its array merged from those of its children. -/
inductive Over : RangeNode α V → List (Vec α × V) → Prop
  | leaf (p : Vec α) (v : V) : Over (.leaf p v) [(p, v)]
  | fork {l r : RangeNode α V} {xs ys : List (Vec α × V)} (x : Span α) :
      Over l xs → Over r ys → (∀ p ∈ xs ++ ys, x.start ≤ p.1.x ∧ p.1.x ≤ x.stop) →
      Over (.fork x (merge 0 0 l.ys.toList r.ys.toList).toArray l r) (xs ++ ys)

variable {n : RangeNode α V} {items : List (Vec α × V)}

theorem Over.merged (h : Over n items) : n.Merged ∧ n.items = items := by
  induction h with
  | leaf p v => exact ⟨.leaf p v, rfl⟩
  | fork x _ _ _ ihl ihr => exact ⟨.fork x ihl.1 ihr.1, congrArg₂ (· ++ ·) ihl.2 ihr.2⟩

theorem Over.map_item_ys (h : Over n items) : (n.ys.toList.map item).Perm items := by
  obtain ⟨hmerged, rfl⟩ := h.merged
  exact hmerged.map_item_ys

theorem Over.forall_ys (h : Over n items) {P : Vec α → Prop} (hitems : ∀ p ∈ items, P p.1) :
    ∀ e ∈ n.ys.toList, P e.point :=
  fun e he => hitems e.item (h.map_item_ys.mem_iff.mp (List.mem_map_of_mem he))

/-- Of points in the order of `x`, the first and the last have all others between them. -/
theorem between_of_pairwise {first second : Vec α × V} {rest : List (Vec α × V)}
    (hkeys : ∀ p ∈ first :: second :: rest, IsKey p.1.x)
    (hsorted : (first :: second :: rest).Pairwise fun p q => p.1.x ≤ q.1.x) :
    ∀ p ∈ first :: second :: rest, first.1.x ≤ p.1.x ∧
      p.1.x ≤ ((second :: rest).getLast (List.cons_ne_nil _ _)).1.x := by
  intro p hp
  constructor
  · rcases List.mem_cons.mp hp with rfl | hp
    · exact hkeys p (List.mem_cons_self ..)
    · exact (List.pairwise_cons.mp hsorted).1 p hp
  · rw [← List.getLast_cons (List.cons_ne_nil _ _)]
    exact hsorted.rel_getLast_of_rel_getLast_getLast hp (hkeys _ (List.getLast_mem _))

theorem exists_over_ofSorted? (hne : items ≠ []) (hkeys : ∀ p ∈ items, IsKey p.1.x)
    (hsorted : items.Pairwise fun p q => p.1.x ≤ q.1.x) :
    ∃ n, ofSorted? items = some n ∧ Over n items := by
  fun_induction ofSorted? items with
  | case1 => exact absurd rfl hne
  | case2 p v => exact ⟨_, rfl, .leaf p v⟩
  | case3 first second rest all mid l r hr hl last ihl ihr =>
    have hsplit : all.take mid ++ all.drop mid = all := List.take_append_drop ..
    obtain ⟨l', hl', hleft⟩ := ihl (by simp [all, mid])
      (fun p hp => hkeys p (List.mem_of_mem_take hp)) (hsorted.sublist (List.take_sublist ..))
    obtain ⟨r', hr', hright⟩ := ihr (by simp [all, mid]; omega)
      (fun p hp => hkeys p (List.mem_of_mem_drop hp)) (hsorted.sublist (List.drop_sublist ..))
    obtain rfl : l = l' := Option.some.inj (hl.symm.trans hl')
    obtain rfl : r = r' := Option.some.inj (hr.symm.trans hr')
    have hfork := Over.fork ⟨first.1.x, last.1.x⟩ hleft hright
    rw [hsplit] at hfork
    exact ⟨_, rfl, hfork (between_of_pairwise hkeys hsorted)⟩
  | case4 first second rest all mid hnone ihl ihr =>
    obtain ⟨l, hl, -⟩ := ihl (by simp [all, mid])
      (fun p hp => hkeys p (List.mem_of_mem_take hp)) (hsorted.sublist (List.take_sublist ..))
    obtain ⟨r, hr, -⟩ := ihr (by simp [all, mid]; omega)
      (fun p hp => hkeys p (List.mem_of_mem_drop hp)) (hsorted.sublist (List.drop_sublist ..))
    exact (hnone l r hl hr).elim

/-- The values of the points that are in a rectangle on the `x` axis, up to its upper edge, and not
below its lower one. Where the lower edge is no number, no point is below it. -/
def valuesBetween (r : Rect α) (items : List (Vec α × V)) : List V :=
  (items.filter fun p =>
    r.x.contains p.1.x && (decide (p.1.y ≤ r.y.stop) && !decide (p.1.y < r.y.start))).map Prod.snd

/-- The values of the points in a rectangle or below it. -/
def valuesUnder (r : Rect α) (items : List (Vec α × V)) : List V :=
  (items.filter fun p => r.x.contains p.1.x && decide (p.1.y ≤ r.y.stop)).map Prod.snd

theorem valuesBetween_append (r : Rect α) (xs ys : List (Vec α × V)) :
    valuesBetween r (xs ++ ys) = valuesBetween r xs ++ valuesBetween r ys := by
  simp only [valuesBetween, List.filter_append, List.map_append]

theorem valuesUnder_append (r : Rect α) (xs ys : List (Vec α × V)) :
    valuesUnder r (xs ++ ys) = valuesUnder r xs ++ valuesUnder r ys := by
  simp only [valuesUnder, List.filter_append, List.map_append]

theorem valuesBetween_perm (r : Rect α) {xs ys : List (Vec α × V)} (h : xs.Perm ys) :
    (valuesBetween r xs).Perm (valuesBetween r ys) := (h.filter _).map _

theorem query_none (r : Rect α) (n : RangeNode α V) : n.query r none = [] := by
  cases n <;> rfl

theorem exists_of_position {b : α} {es : List (YEntry α V)} {start : Nat}
    (h : position b 0 es = some start) :
    ∃ e, es[start]? = some e ∧ es.find? (reaches b) = some e := by
  obtain ⟨k, hk, rfl⟩ := Option.map_eq_some_iff.mp h
  rw [List.findIdx?_eq_guard_findIdx_lt, Option.guard_eq_some_iff, decide_eq_true_eq] at hk
  obtain ⟨rfl, hlt⟩ := hk
  have hget : es[es.findIdx (reaches b)]? = some es[es.findIdx (reaches b)] :=
    List.getElem?_eq_getElem hlt
  refine ⟨_, ?_, List.find?_eq_getElem?_findIdx.trans hget⟩
  rw [Nat.zero_add]
  exact hget

variable [LawfulScalar α]

theorem Over.pairwise_ys (h : Over n items) (hkeys : ∀ p ∈ items, p.1.IsKeyed) :
    n.ys.toList.Pairwise fun e f => e.point.y ≤ f.point.y := by
  induction h with
  | leaf p v => exact List.pairwise_singleton ..
  | fork x hl hr _ ihl ihr =>
    rw [List.forall_mem_append] at hkeys
    exact pairwise_merge (ihl hkeys.1) (ihr hkeys.2) (hl.forall_ys hkeys.1) (hr.forall_ys hkeys.2)

/-- The entries from the first one that is not below the rectangle up to the last one that is not
above it are those of the points between its lower and upper edge. -/
theorem report_eq {ys : Array (YEntry α V)} {b top : α} {start : Nat}
    (hsorted : ys.toList.Pairwise fun e f => e.point.y ≤ f.point.y)
    (hstart : position b 0 ys.toList = some start) :
    report ys start top =
      (ys.toList.filter fun e => decide (e.point.y ≤ top) && e.reaches b).map (·.value) := by
  obtain ⟨k, hk, rfl⟩ := Option.map_eq_some_iff.mp hstart
  have hk' : ys.toList.findIdx (reaches b) = k := by
    rw [List.findIdx?_eq_guard_findIdx_lt, Option.guard_eq_some_iff] at hk
    exact hk.1
  have hreach : ys.toList.Pairwise fun e f => e.reaches b = true → f.reaches b = true :=
    hsorted.imp reaches_of_le
  have htop : ys.toList.Pairwise fun e f =>
      decide (f.point.y ≤ top) = true → decide (e.point.y ≤ top) = true := by
    refine hsorted.imp fun hle h => ?_
    rw [decide_eq_true_eq] at h ⊢
    exact OrderedKeys.le_trans hle h
  unfold report
  rw [Nat.zero_add, ← hk', drop_findIdx_eq_filter hreach, takeWhile_eq_filter (htop.filter _),
    List.filter_filter]

omit [LawfulScalar α] in
theorem Over.valuesBetween_eq_nil_of_position (h : Over n items) {r : Rect α}
    (hnone : position r.y.start 0 n.ys.toList = none) : valuesBetween r items = [] := by
  rw [valuesBetween, List.filter_eq_nil_iff.mpr, List.map_nil]
  intro p hp
  rw [position, Option.map_eq_none_iff, List.findIdx?_eq_none_iff] at hnone
  obtain ⟨e, he, rfl⟩ := List.mem_map.mp (h.map_item_ys.mem_iff.mpr hp)
  have hlt : e.point.y < r.y.start := by simpa [reaches] using hnone e he
  simp [item, hlt]

/-- Where all points lie in the rectangle on the `x` axis, the report of the node is that of its
points between the lower and the upper edge. -/
theorem Over.report_perm (h : Over n items) (hkeys : ∀ p ∈ items, p.1.IsKeyed) {r : Rect α}
    (hx : ∀ p ∈ items, r.x.contains p.1.x = true) {start : Nat}
    (hstart : position r.y.start 0 n.ys.toList = some start) :
    (report n.ys start r.y.stop).Perm (valuesBetween r items) := by
  refine .trans ?_ (valuesBetween_perm r h.map_item_ys)
  rw [report_eq (h.pairwise_ys hkeys) hstart, valuesBetween, List.filter_map, List.map_map]
  apply List.Perm.of_eq
  congr 1
  apply List.filter_congr
  intro e he
  have hex := h.forall_ys (P := fun p => r.x.contains p.x = true) hx e he
  simp only [Function.comp_apply, item, hex, Bool.true_and]
  rfl

theorem leaf_query_perm {p : Vec α} {v : V} (hkey : p.IsKeyed) {r : Rect α} {start : Nat}
    (hstart : position r.y.start 0 (leaf p v).ys.toList = some start) :
    ((leaf p v).query r (some start)).Perm (valuesBetween r [(p, v)]) := by
  have hzero : start = 0 := by
    rw [ys, position_cons] at hstart
    split at hstart
    · exact (Option.some.inj hstart).symm
    · exact absurd hstart (by simp [position_nil])
  subst hzero
  rw [query]
  cases hx : r.x.contains p.x with
  | false =>
    have hinter : r.x.intersects ⟨p.x, p.x⟩ = false := hx
    simp [hinter, valuesBetween, hx]
  | true =>
    have hinter : r.x.intersects ⟨p.x, p.x⟩ = true := hx
    have hspan : r.x.containsSpan ⟨p.x, p.x⟩ = true := hx
    simp only [hinter, hspan]
    exact (Over.leaf p v).report_perm (by simpa using hkey) (by simpa using hx) hstart

/-- A node that is entered at its first entry not below the rectangle reports the values of its
points between the edges of the rectangle. -/
theorem Over.query_perm (h : Over n items) (hkeys : ∀ p ∈ items, p.1.IsKeyed) (r : Rect α) :
    (n.query r (position r.y.start 0 n.ys.toList)).Perm (valuesBetween r items) := by
  have hnode := h
  induction h with
  | leaf p v =>
    cases hstart : position r.y.start 0 (RangeNode.leaf p v).ys.toList with
    | none => rw [query_none, hnode.valuesBetween_eq_nil_of_position hstart]
    | some start => exact leaf_query_perm (hkeys (p, v) (List.mem_singleton_self _)) hstart
  | @fork l m xs ys x hl hm hspan ihl ihm =>
    cases hstart : position r.y.start 0
        (RangeNode.fork x (merge 0 0 l.ys.toList m.ys.toList).toArray l m).ys.toList with
    | none => rw [query_none, hnode.valuesBetween_eq_nil_of_position hstart]
    | some start =>
      obtain ⟨e, hget, hfind⟩ := exists_of_position hstart
      rw [RangeNode.ys, Array.getElem?_toList] at hget
      rw [query, hget]
      dsimp only
      split
      case isTrue hapart =>
        rw [valuesBetween, List.filter_eq_nil_iff.mpr, List.map_nil]
        intro p hp hbetween
        rw [Bool.and_eq_true] at hbetween
        have hinter := Span.intersects_of_contains hbetween.1 (hspan p hp)
        simp [hinter] at hapart
      case isFalse =>
        split
        case isTrue hwithin =>
          have hx : ∀ p ∈ xs ++ ys, r.x.contains p.1.x = true := fun p hp =>
            Span.contains_of_containsSpan hwithin (hspan p hp)
          exact hnode.report_perm hkeys hx hstart
        case isFalse =>
          rw [List.forall_mem_append] at hkeys
          obtain ⟨hleft, hright⟩ :=
            references_of_find? (hl.forall_ys hkeys.1) (hm.forall_ys hkeys.2) hfind
          rw [hleft, hright, valuesBetween_append]
          exact (ihl hkeys.1 hl).append (ihm hkeys.2 hm)

/-- If the lower edge is a number or the upper one is none, the points between the edges are the
ones in the rectangle. -/
theorem valuesBetween_eq_valuesIn {r : Rect α} (hkeys : ∀ p ∈ items, p.1.IsKeyed)
    (hr : IsKey r.y.stop → IsKey r.y.start) : valuesBetween r items = valuesIn r items := by
  unfold valuesBetween valuesIn
  congr 1
  refine List.filter_congr fun p hp => ?_
  -- An upper edge that is no number is reached by no point, whatever the lower edge is.
  have hlower (hupper : p.1.y ≤ r.y.stop) : ¬ p.1.y < r.y.start ↔ r.y.start ≤ p.1.y :=
    (hkeys p hp).y.not_lt (hr (OrderedKeys.isKey_of_le hupper).2)
  rw [Bool.eq_iff_iff, Rect.contains_iff, Span.contains_iff (s := r.y)]
  simp only [Bool.and_eq_true, Bool.not_eq_true', decide_eq_true_eq, decide_eq_false_iff_not]
  rw [and_comm (a := r.y.start ≤ p.1.y)]
  exact and_congr_right fun _ => and_congr_right hlower

/-- If the lower edge is no number, no point is held back below it. -/
theorem valuesBetween_eq_valuesUnder {r : Rect α} (hr : ¬ IsKey r.y.start)
    (items : List (Vec α × V)) : valuesBetween r items = valuesUnder r items := by
  unfold valuesBetween valuesUnder
  congr 1
  refine List.filter_congr fun p _ => ?_
  have hlower : ¬ p.1.y < r.y.start := fun hlt => hr (OrderedKeys.lt_iff.mp hlt).2.1
  rw [decide_eq_false hlower, Bool.not_false, Bool.and_true]

end RangeNode

namespace RangeTree

open RangeNode (valuesBetween valuesUnder valuesBetween_perm)

instance : Std.TransCmp (pointOrder : Vec α × V → Vec α × V → Ordering) := by
  have hx := transCmp_comap Scalar.totalCmp fun p : Vec α × V => p.1.x
  have hy := transCmp_comap Scalar.totalCmp fun p : Vec α × V => p.1.y
  exact inferInstanceAs <| Std.TransCmp <| compareLex
    (fun p q : Vec α × V => Scalar.totalCmp p.1.x q.1.x)
    (fun p q : Vec α × V => Scalar.totalCmp p.1.y q.1.y)

variable [LawfulScalar α]

theorem le_of_pointOrder {p q : Vec α × V} (hp : p.1.IsKeyed) (hq : q.1.IsKeyed)
    (h : (pointOrder p q).isLE) : p.1.x ≤ q.1.x := by
  apply LawfulScalar.le_of_totalCmp hp.x hq.x
  intro hgt
  simp [pointOrder, hgt] at h

/-- The search in the root's array enters the tree where a query expects it. -/
theorem query_of_over {root : RangeNode α V} {items : List (Vec α × V)}
    (h : root.Over items) (hkeys : ∀ p ∈ items, p.1.IsKeyed) (r : Rect α) (size : Nat) :
    (query ⟨size, some root⟩ r).Perm (valuesBetween r items) := by
  refine .trans (.of_eq ?_) (h.query_perm hkeys r)
  have hstart : partitionPoint (fun e => decide (e.point.y < r.y.start)) root.ys =
      root.ys.toList.findIdx (YEntry.reaches r.y.start) := by
    refine partitionPoint_eq ((h.pairwise_ys hkeys).imp fun hle hlt => ?_)
    rw [decide_eq_true_eq] at hlt ⊢
    exact OrderedKeys.lt_of_le_of_lt hle hlt
  simp only [query, hstart]
  unfold YEntry.position
  rw [List.findIdx?_eq_guard_findIdx_lt, Array.length_toList]
  split
  case isTrue hlt => simp [Option.guard, hlt]
  case isFalse hge => simp [Option.guard, hge, RangeNode.query_none]

section Queries

variable {points : List (Vec α)} {values : List V} {t : RangeTree α V}

omit [LawfulScalar α] in
theorem build_eq (h : points.length = values.length) : build points values =
    .ok ⟨(points.zip values).length, RangeNode.ofSorted?
      ((points.zip values).mergeSort fun p q => (pointOrder p q).isLE)⟩ :=
  map_pairPoints h _

/-- Over points without missing coordinates, a tree reports for every rectangle the value of each
point between its edges once. -/
theorem query_perm_valuesBetween (ht : build points values = .ok t)
    (hkeys : ∀ p ∈ points, p.IsKeyed) (r : Rect α) :
    (t.query r).Perm (valuesBetween r (points.zip values)) := by
  obtain rfl := eq_of_map_pairPoints ht
  let items := (points.zip values).mergeSort fun p q => (pointOrder p q).isLE
  have hperm : items.Perm (points.zip values) := List.mergeSort_perm ..
  have hkeyed : ∀ p ∈ items, p.1.IsKeyed := fun p hp =>
    hkeys p.1 (List.of_mem_zip (hperm.mem_iff.mp hp)).1
  have hsorted : items.Pairwise fun p q => p.1.x ≤ q.1.x :=
    (pairwise_mergeSort pointOrder (points.zip values)).imp_of_mem fun hp hq =>
      le_of_pointOrder (hkeyed _ hp) (hkeyed _ hq)
  refine .trans ?_ (valuesBetween_perm r hperm)
  show (query ⟨_, RangeNode.ofSorted? items⟩ r).Perm (valuesBetween r items)
  by_cases hnil : items = []
  · rw [hnil, RangeNode.ofSorted?]
    exact .refl _
  · obtain ⟨root, hroot, hover⟩ :=
      RangeNode.exists_over_ofSorted? hnil (fun p hp => (hkeyed p hp).x) hsorted
    rw [hroot]
    exact query_of_over hover hkeyed r _

/-- These are the points in the rectangle, if the lower edge is a number or the upper one is
none. -/
theorem query_perm (ht : build points values = .ok t) (hkeys : ∀ p ∈ points, p.IsKeyed)
    {r : Rect α} (hr : IsKey r.y.stop → IsKey r.y.start) :
    (t.query r).Perm (valuesIn r (points.zip values)) := by
  rw [← RangeNode.valuesBetween_eq_valuesIn (fun p hp => hkeys p.1 (List.of_mem_zip hp).1) hr]
  exact query_perm_valuesBetween ht hkeys r

theorem indexes (h : points.length = values.length) (hkeys : ∀ p ∈ points, p.IsKeyed) :
    Indexes (RangeTree α) points values := by
  have ht := build_eq h
  exact ⟨_, ht, fun r hr => query_perm ht hkeys fun _ => hr⟩

end Queries

/-- For points without missing coordinates, a tree that is entered at its root and followed by
references reports the value of each point in the rectangle once. The rectangle is one between ends
in any order, numbers or not, or any other whose lower edge is a number if its upper edge is. Where
the lower edge is no number, no point is below it: all points of the rectangle on the `x` axis up
to the upper edge are reported. -/
theorem cascading_reports_valuesIn {points : List (Vec Float32)} {values : List V}
    (h : points.length = values.length)
    (hpoints : ∀ p ∈ points, p.x.isNaN = false ∧ p.y.isNaN = false) :
    ∃ t : RangeTree Float32 V, build points values = .ok t ∧
      (∀ x₀ x₁ y₀ y₁ : Float32, (t.query (.ofEnds x₀ x₁ y₀ y₁)).Perm
        (valuesIn (.ofEnds x₀ x₁ y₀ y₁) (points.zip values))) ∧
      (∀ r : Rect Float32, (r.y.start.isNaN = true → r.y.stop.isNaN = true) →
        (t.query r).Perm (valuesIn r (points.zip values))) ∧
      ∀ r : Rect Float32, r.y.start.isNaN = true →
        (t.query r).Perm (valuesUnder r (points.zip values)) := by
  have ht := build_eq h
  have hkeys : ∀ p ∈ points, p.IsKeyed := fun p hp =>
    ⟨Binary32.isKey_iff.mpr (hpoints p hp).1, Binary32.isKey_iff.mpr (hpoints p hp).2⟩
  refine ⟨_, ht, fun x₀ x₁ y₀ y₁ => query_perm ht hkeys Span.isKey_start_ofEnds,
    fun r hr => query_perm ht hkeys fun hstop => ?_, fun r hstart => ?_⟩
  · rw [Binary32.isKey_iff, Bool.eq_false_iff] at hstop ⊢
    exact fun hstart => hstop (hr hstart)
  · have hnot : ¬ IsKey r.y.start := by
      rw [Binary32.isKey_iff, hstart]
      exact Bool.true_eq_false.mp
    rw [← RangeNode.valuesBetween_eq_valuesUnder hnot]
    exact query_perm_valuesBetween ht hkeys r

/-- Two points are the same up to the signs of zeros, and one is at infinity. The ends of the first
query are given the other way round, the second one's on one axis are no numbers, the third is
inverted, and the last has only an upper edge. -/
theorem cascading_signed_zeros :
    let points : List (Vec Float32) :=
      [⟨3, 0⟩, ⟨0, .ofBits 0x80000000⟩, ⟨.ofBits 0x80000000, 0⟩, ⟨.ofBits 0x7f800000, 2⟩, ⟨1, 7⟩]
    let values : List Nat := [10, 11, 12, 13, 14]
    points.length = values.length ∧ (∀ p ∈ points, p.x.isNaN = false ∧ p.y.isNaN = false) ∧
      ∃ t : RangeTree Float32 Nat, build points values = .ok t ∧
        (t.query (.ofEnds 3 (.ofBits 0x80000000) 0 0)).Perm [10, 11, 12] ∧
        t.query (.ofEnds 0 1 (.ofBits 0x7fc00000) (.ofBits 0x7fc00000)) = [] ∧
        t.query ⟨⟨0, .ofBits 0x7f800000⟩, ⟨7, 2⟩⟩ = [] ∧
        (t.query ⟨⟨1, .ofBits 0x7f800000⟩, ⟨.ofBits 0x7fc00000, 2⟩⟩).Perm [10, 13] := by
  intro points values
  have hlength : points.length = values.length := rfl
  have hpoints : ∀ p ∈ points, p.x.isNaN = false ∧ p.y.isNaN = false := by
    simp only [points, List.forall_mem_cons]
    exact ⟨⟨rfl, rfl⟩, ⟨rfl, rfl⟩, ⟨rfl, rfl⟩, ⟨rfl, rfl⟩, ⟨rfl, rfl⟩, nofun⟩
  obtain ⟨t, ht, hends, hinverted, hunder⟩ := cascading_reports_valuesIn hlength hpoints
  refine ⟨hlength, hpoints, t, ht, (hends _ _ _ _).trans (.of_eq ?_),
    List.perm_nil.mp ((hends _ _ _ _).trans (.of_eq ?_)),
    List.perm_nil.mp ((hinverted _ ?_).trans (.of_eq ?_)), (hunder _ rfl).trans (.of_eq ?_)⟩
  · decide
  · decide
  · nofun
  · decide
  · decide

/-- The lower edge of the rectangle is no number, so that the one point is not in it, but the point
is reported: it is in the rectangle on the `x` axis and under the upper edge. -/
theorem reported_without_lower_edge :
    let points : List (Vec Float32) := [⟨0, 0⟩]
    let values : List Nat := [7]
    let r : Rect Float32 := ⟨⟨-1, 1⟩, ⟨.ofBits 0x7fc00000, 1⟩⟩
    points.length = values.length ∧ (∀ p ∈ points, p.x.isNaN = false ∧ p.y.isNaN = false) ∧
      valuesIn r (points.zip values) = [] ∧
      ∃ t : RangeTree Float32 Nat, build points values = .ok t ∧ t.query r = [7] := by
  intro points values r
  have hlength : points.length = values.length := rfl
  have hsort : (points.zip values).mergeSort (fun p q => (pointOrder p q).isLE) = [(⟨0, 0⟩, 7)] :=
    List.mergeSort_singleton _
  refine ⟨hlength, by decide, by decide, ⟨1, some (.leaf ⟨0, 0⟩ 7)⟩, ?_, ?_⟩
  · rw [build_eq hlength, hsort, RangeNode.ofSorted?]
    rfl
  · simp +decide [query, partitionPoint, partitionFrom, RangeNode.query, RangeNode.ys,
      RangeNode.report, r]

end RangeTree

end PlanarDynamics
