import PlanarDynamics.Candidates.Strategy
import PlanarDynamics.Proofs.Candidates.EventOrder
import PlanarDynamics.Proofs.IntervalTree.Refinement

/-!
# The interval sweep against the plain search

Between two events the tree holds the extents of the shapes that the line has reached and not left,
and the pairs found are those of the shapes that it has reached. An end takes out the extent of its
own shape, and behind the last event nothing is left.
-/

namespace PlanarDynamics

namespace Candidates

variable {α : Type}

/-- The vertical extent of a shape, with its position. -/
def entryOf (p : Proxy α) (i : Nat) : IntervalEntry α Nat := ⟨p.aabb.bottom, p.aabb.top, i⟩

/-- The line has reached the shape of an entry and has not left it. -/
def Crosses (shapes : Array (Proxy α)) (met : List (EdgeEvent α)) (e : IntervalEntry α Nat) :
    Prop :=
  (∃ p, shapes[e.value]? = some p ∧ e = entryOf p e.value) ∧
    EdgeEvent.Met met .start e.value ∧ ¬ EdgeEvent.Met met .stop e.value

theorem Crosses.eq_of_value {shapes : Array (Proxy α)} {met : List (EdgeEvent α)}
    {e f : IntervalEntry α Nat} (he : Crosses shapes met e) (hf : Crosses shapes met f)
    (h : e.value = f.value) : e = f := by
  obtain ⟨⟨p, hp, hep⟩, -⟩ := he
  obtain ⟨⟨q, hq, hfq⟩, -⟩ := hf
  rw [h] at hp hep
  obtain rfl : p = q := Option.some.inj (hp.symm.trans hq)
  exact hep.trans hfq.symm

namespace SweepState

variable [Scalar α]

/-- What holds of the sweep between two events. -/
structure Invariant (shapes : Array (Proxy α)) (met : List (EdgeEvent α)) (s : SweepState α) :
    Prop where
  reachable : s.active.Reachable IntervalEntry.IsKeyed
  nodup_active : s.active.toList.Nodup
  mem_active : ∀ e, e ∈ s.active.toList ↔ Crosses shapes met e
  nodup_pairs : s.pairs.Nodup
  mem_pairs : ∀ i j, (i, j) ∈ s.pairs ↔ (i < j ∧ MayTouch shapes i j) ∧
    EdgeEvent.Met met .start i ∧ EdgeEvent.Met met .start j

variable {shapes : Array (Proxy α)} {s : SweepState α} {pre post : List (EdgeEvent α)}
  {p : Proxy α} {i : Nat}

/-- A shape that is reached is paired with active ones and becomes active. -/
theorem step_start (hp : shapes[i]? = some p) : step shapes s (EdgeEvent.meeting p i .start) =
    ⟨s.active.insert (entryOf p i), ((s.active.searchAll p.aabb.bottom p.aabb.top).filter
      (oneMoves shapes i)).map (Pair.ordered i) ++ s.pairs⟩ := by
  simp [step, extent, EdgeEvent.meeting, hp, entryOf]

/-- A shape that is left is looked for by its extent. -/
theorem step_stop (hp : shapes[i]? = some p) : step shapes s (EdgeEvent.meeting p i .stop) =
    { s with active := (s.active.remove (entryOf p i)).1 } := by
  simp [step, extent, EdgeEvent.meeting, hp, entryOf]

theorem invariant_nil (shapes : Array (Proxy α)) :
    Invariant shapes [] ⟨.withCapacity shapes.size, []⟩ where
  reachable := .withCapacity _
  nodup_active := List.nodup_nil
  mem_active e := by
    constructor
    · intro he
      exact absurd he List.not_mem_nil
    · rintro ⟨-, ⟨f, hf, -⟩, -⟩
      exact absurd hf List.not_mem_nil
  nodup_pairs := List.nodup_nil
  mem_pairs i j := by
    constructor
    · intro hij
      exact absurd hij List.not_mem_nil
    · rintro ⟨-, ⟨f, hf, -⟩, -⟩
      exact absurd hf List.not_mem_nil

theorem Invariant.nodup_hits [LawfulScalar α] (hs : Invariant shapes pre s) (low high : α)
    (i : Nat) : ((s.active.searchAll low high).filter (oneMoves shapes i)).Nodup := by
  apply List.Nodup.filter
  rw [(hs.reachable.searchAll_perm low high).nodup_iff]
  refine List.Nodup.map_on ?_ (hs.nodup_active.filter _)
  intro e he f hf hvalue
  have hmem {g} (hg : g ∈ s.active.toList.filter (·.overlaps low high)) :=
    (hs.mem_active g).mp (List.mem_filter.mp hg).1
  exact (hmem he).eq_of_value (hmem hf) hvalue

/-! ## Reaching a shape -/

/-- Of the shapes reached before, those that overlap the new one are those whose extents do and that
have not been left. -/
theorem intersects_iff_of_start [LawfulScalar α] (hsp : p.aabb.IsSweepable) {q : Proxy α} {j : Nat}
    (hsq : q.aabb.IsSweepable) (hq : shapes[j]? = some q)
    (hsplit : EdgeEvent.ofShapes shapes = pre ++ EdgeEvent.meeting p i .start :: post)
    (hmet : EdgeEvent.Met pre .start j) :
    p.aabb.intersects q.aabb = true ↔ ¬ EdgeEvent.Met pre .stop j ∧
      (entryOf q j).overlaps p.aabb.bottom p.aabb.top = true := by
  rw [EdgeEvent.met_iff hsplit hq] at hmet ⊢
  rw [EdgeEvent.order_stop_start hsq hsp, Aabb.intersects_iff]
  have hleft : ¬ p.aabb.right < q.aabb.left := by
    intro hlt
    exact EdgeEvent.not_left_lt_of_order hsq hsp hmet
      (OrderedKeys.lt_of_le_of_lt hsp.left_le_right hlt)
  rw [hsp.top.not_lt hsq.bottom, hsq.top.not_lt hsp.bottom, IntervalEntry.overlaps,
    Bool.and_eq_true, decide_eq_true_eq, decide_eq_true_eq]
  exact ⟨fun hpq => hpq.2, fun hpq => ⟨hleft, hpq⟩⟩

section Start

variable [LawfulScalar α] (h : ∀ p ∈ shapes, p.aabb.IsSweepable) (hs : Invariant shapes pre s)
  (hp : shapes[i]? = some p)
  (hsplit : EdgeEvent.ofShapes shapes = pre ++ EdgeEvent.meeting p i .start :: post)

include h hp hsplit

theorem not_met_of_start (edge : Edge) : ¬ EdgeEvent.Met pre edge i := by
  have hsweepable := h p (Array.mem_of_getElem? hp)
  cases edge with
  | start => exact EdgeEvent.not_met_self hp hsplit
  | stop =>
    rw [EdgeEvent.met_iff hsplit hp, EdgeEvent.order_stop_start hsweepable hsweepable]
    intro hlt
    exact OrderedKeys.not_le_of_lt hlt hsweepable.left_le_right

include hs

/-- A shape is paired with those reached before that it may touch. -/
theorem mem_hits {j : Nat} :
    j ∈ (s.active.searchAll p.aabb.bottom p.aabb.top).filter (oneMoves shapes i) ↔
      EdgeEvent.Met pre .start j ∧ MayTouch shapes i j := by
  rw [List.mem_filter, (hs.reachable.searchAll_perm _ _).mem_iff, List.mem_map]
  constructor
  · rintro ⟨⟨e, he, rfl⟩, hmoves⟩
    obtain ⟨hmem, hoverlaps⟩ := List.mem_filter.mp he
    obtain ⟨⟨q, hq, heq⟩, hmet, hleft⟩ := (hs.mem_active e).mp hmem
    refine ⟨hmet, p, q, hp, hq, ?_⟩
    have hintersects := (intersects_iff_of_start (h p (Array.mem_of_getElem? hp))
      (h q (Array.mem_of_getElem? hq)) hq hsplit hmet).mpr ⟨hleft, heq ▸ hoverlaps⟩
    simp only [oneMoves, hp, hq] at hmoves
    rw [Proxy.mayTouch, hmoves, hintersects]
    rfl
  · rintro ⟨hmet, p', q, hp', hq, htouch⟩
    obtain rfl : p = p' := Option.some.inj (hp.symm.trans hp')
    rw [Proxy.mayTouch, Bool.and_eq_true] at htouch
    obtain ⟨hleft, hoverlaps⟩ := (intersects_iff_of_start (h p (Array.mem_of_getElem? hp))
      (h q (Array.mem_of_getElem? hq)) hq hsplit hmet).mp htouch.2
    have hmem := (hs.mem_active (entryOf q j)).mpr ⟨⟨q, hq, rfl⟩, hmet, hleft⟩
    refine ⟨⟨entryOf q j, List.mem_filter.mpr ⟨hmem, hoverlaps⟩, rfl⟩, ?_⟩
    simp only [oneMoves, hp, hq, htouch.1]

theorem mem_map_hits {a b : Nat} :
    (a, b) ∈ ((s.active.searchAll p.aabb.bottom p.aabb.top).filter (oneMoves shapes i)).map
        (Pair.ordered i) ↔
      (a < b ∧ MayTouch shapes a b) ∧
        (a = i ∧ EdgeEvent.Met pre .start b ∨ EdgeEvent.Met pre .start a ∧ b = i) := by
  simp only [List.mem_map, mem_hits h hs hp hsplit]
  have hnew := not_met_of_start h hp hsplit .start
  constructor
  · rintro ⟨j, ⟨hmet, htouch⟩, hpair⟩
    rcases lt_trichotomy i j with hij | rfl | hji
    · rw [Pair.ordered_of_lt hij] at hpair
      obtain ⟨rfl, rfl⟩ := Prod.mk.inj hpair
      exact ⟨⟨hij, htouch⟩, .inl ⟨rfl, hmet⟩⟩
    · exact absurd hmet hnew
    · rw [Pair.ordered_of_gt hji] at hpair
      obtain ⟨rfl, rfl⟩ := Prod.mk.inj hpair
      exact ⟨⟨hji, htouch.symm⟩, .inr ⟨hmet, rfl⟩⟩
  · rintro ⟨⟨hlt, htouch⟩, ⟨rfl, hmet⟩ | ⟨hmet, rfl⟩⟩
    · exact ⟨b, ⟨hmet, htouch⟩, Pair.ordered_of_lt hlt⟩
    · exact ⟨a, ⟨hmet, htouch.symm⟩, Pair.ordered_of_gt hlt⟩

omit hs in
theorem crosses_start {e : IntervalEntry α Nat} :
    Crosses shapes (pre ++ [EdgeEvent.meeting p i .start]) e ↔
      e = entryOf p i ∨ Crosses shapes pre e := by
  unfold Crosses
  rw [EdgeEvent.met_concat, EdgeEvent.met_concat]
  constructor
  · rintro ⟨⟨q, hq, heq⟩, hmet | ⟨-, hi⟩, hleft⟩
    · exact .inr ⟨⟨q, hq, heq⟩, hmet, fun hstop => hleft (.inl hstop)⟩
    · left
      rw [← hi] at hq heq
      obtain rfl : p = q := Option.some.inj (hp.symm.trans hq)
      exact heq
  · rintro (rfl | ⟨hshape, hmet, hleft⟩)
    · refine ⟨⟨p, hp, rfl⟩, .inr ⟨rfl, rfl⟩, ?_⟩
      rintro (hstop | ⟨hedge, -⟩)
      · exact not_met_of_start h hp hsplit .stop hstop
      · exact Edge.noConfusion hedge
    · refine ⟨hshape, .inl hmet, ?_⟩
      rintro (hstop | ⟨hedge, -⟩)
      · exact hleft hstop
      · exact Edge.noConfusion hedge

theorem invariant_start :
    Invariant shapes (pre ++ [EdgeEvent.meeting p i .start])
      (step shapes s (EdgeEvent.meeting p i .start)) := by
  have hsweepable := h p (Array.mem_of_getElem? hp)
  have hnew := not_met_of_start h hp hsplit .start
  have hinsert := hs.reachable.toList_insert (entryOf p i)
  rw [step_start hp]
  constructor
  · exact hs.reachable.insert ⟨hsweepable.bottom, hsweepable.top⟩
  · rw [hinsert.nodup_iff, List.nodup_cons]
    exact ⟨fun hmem => hnew ((hs.mem_active _).mp hmem).2.1, hs.nodup_active⟩
  · intro e
    rw [hinsert.mem_iff, List.mem_cons, hs.mem_active, crosses_start h hp hsplit]
  · rw [List.nodup_append]
    refine ⟨(hs.nodup_hits _ _ _).map (Pair.ordered_injective i), hs.nodup_pairs, ?_⟩
    rintro ⟨a, b⟩ hab x hx rfl
    obtain ⟨-, hmet_a, hmet_b⟩ := (hs.mem_pairs a b).mp hx
    obtain ⟨-, ⟨rfl, -⟩ | ⟨-, rfl⟩⟩ := (mem_map_hits h hs hp hsplit).mp hab
    · exact hnew hmet_a
    · exact hnew hmet_b
  · intro a b
    rw [List.mem_append, mem_map_hits h hs hp hsplit, hs.mem_pairs, EdgeEvent.met_concat,
      EdgeEvent.met_concat]
    constructor
    · rintro (⟨hab, ⟨rfl, hmet⟩ | ⟨hmet, rfl⟩⟩ | ⟨hab, ha, hb⟩)
      · exact ⟨hab, .inr ⟨rfl, rfl⟩, .inl hmet⟩
      · exact ⟨hab, .inl hmet, .inr ⟨rfl, rfl⟩⟩
      · exact ⟨hab, .inl ha, .inl hb⟩
    · rintro ⟨hab, ha | ⟨-, ha⟩, hb | ⟨-, hb⟩⟩
      · exact .inr ⟨hab, ha, hb⟩
      · exact .inl ⟨hab, .inr ⟨ha, hb.symm⟩⟩
      · exact .inl ⟨hab, .inl ⟨ha.symm, hb⟩⟩
      · exact absurd (ha.symm.trans hb) hab.1.ne

end Start

/-! ## Leaving a shape -/

theorem crosses_stop {e : IntervalEntry α Nat} :
    Crosses shapes (pre ++ [EdgeEvent.meeting p i .stop]) e ↔
      Crosses shapes pre e ∧ e.value ≠ i := by
  unfold Crosses
  rw [EdgeEvent.met_concat, EdgeEvent.met_concat]
  constructor
  · rintro ⟨hshape, hmet | ⟨hedge, -⟩, hleft⟩
    · exact ⟨⟨hshape, hmet, fun hstop => hleft (.inl hstop)⟩,
        fun hvalue => hleft (.inr ⟨rfl, hvalue.symm⟩)⟩
    · exact Edge.noConfusion hedge
  · rintro ⟨⟨hshape, hmet, hleft⟩, hvalue⟩
    refine ⟨hshape, .inl hmet, ?_⟩
    rintro (hstop | ⟨-, hi⟩)
    · exact hleft hstop
    · exact hvalue hi.symm

section Stop

variable [LawfulScalar α] (h : ∀ p ∈ shapes, p.aabb.IsSweepable) (hs : Invariant shapes pre s)
  (hp : shapes[i]? = some p)
  (hsplit : EdgeEvent.ofShapes shapes = pre ++ EdgeEvent.meeting p i .stop :: post)

include h hs hp hsplit

/-- The extent that the start of the shape added is active. -/
theorem mem_active_of_stop : entryOf p i ∈ s.active.toList := by
  have hsweepable := h p (Array.mem_of_getElem? hp)
  have hstart : EdgeEvent.Met pre .start i := by
    rw [EdgeEvent.met_iff hsplit hp, EdgeEvent.order_start_stop hsweepable hsweepable]
    exact fun hlt => OrderedKeys.not_le_of_lt hlt hsweepable.left_le_right
  exact (hs.mem_active _).mpr ⟨⟨p, hp, rfl⟩, hstart, EdgeEvent.not_met_self hp hsplit⟩

/-- The end of a shape takes out the extent that its start added, and nothing else. -/
theorem remove_of_stop : (s.active.remove (entryOf p i)).2 = true ∧
    s.active.bag = entryOf p i ::ₘ (s.active.remove (entryOf p i)).1.bag := by
  have hsweepable := h p (Array.mem_of_getElem? hp)
  have hkeyed : (entryOf p i).IsKeyed := ⟨hsweepable.bottom, hsweepable.top⟩
  have hmem := mem_active_of_stop h hs hp hsplit
  have hself : (entryOf p i).order (entryOf p i) = .eq :=
    @Std.ReflCmp.compare_self _ IntervalEntry.compareKeyed _ ⟨_, hkeyed⟩
  rcases (hs.reachable.bagStep_remove hkeyed).of_remove with
    ⟨hfound, f, hequal, hbag⟩ | ⟨-, -, hnone⟩
  · have hf : f ∈ s.active.toList := by
      rw [← Multiset.mem_coe]
      show f ∈ s.active.bag
      rw [hbag]
      exact Multiset.mem_cons_self ..
    have hvalue : (entryOf p i).value = f.value := by
      simp only [IntervalEntry.order, Ordering.then_eq_eq, Nat.compare_eq_eq] at hequal
      exact hequal.2.2
    obtain rfl := ((hs.mem_active _).mp hmem).eq_of_value ((hs.mem_active f).mp hf) hvalue
    exact ⟨hfound, hbag⟩
  · exact absurd hself (hnone _ hmem)

theorem invariant_stop :
    Invariant shapes (pre ++ [EdgeEvent.meeting p i .stop])
      (step shapes s (EdgeEvent.meeting p i .stop)) := by
  have hsweepable := h p (Array.mem_of_getElem? hp)
  have hbag : s.active.toList.Perm
      (entryOf p i :: (s.active.remove (entryOf p i)).1.toList) :=
    Multiset.coe_eq_coe.mp (remove_of_stop h hs hp hsplit).2
  have hnodup := hbag.nodup_iff.mp hs.nodup_active
  rw [List.nodup_cons] at hnodup
  rw [step_stop hp]
  constructor
  · exact hs.reachable.remove ⟨hsweepable.bottom, hsweepable.top⟩
  · exact hnodup.2
  · intro e
    rw [crosses_stop, ← hs.mem_active]
    constructor
    · intro he
      have hactive := hbag.mem_iff.mpr (List.mem_cons_of_mem _ he)
      refine ⟨hactive, fun hvalue => hnodup.1 ?_⟩
      have hcrosses := (hs.mem_active _).mp (mem_active_of_stop h hs hp hsplit)
      exact ((hs.mem_active e).mp hactive).eq_of_value hcrosses hvalue ▸ he
    · rintro ⟨he, hvalue⟩
      rcases List.mem_cons.mp (hbag.mem_iff.mp he) with rfl | he'
      · exact absurd rfl hvalue
      · exact he'
  · exact hs.nodup_pairs
  · intro a b
    rw [hs.mem_pairs, EdgeEvent.met_concat, EdgeEvent.met_concat]
    have hedge : ¬ (EdgeEvent.meeting p i .stop).edge = .start := Edge.noConfusion
    simp only [hedge, false_and, or_false]

end Stop

/-! ## The whole sweep -/

theorem run_concat (shapes : Array (Proxy α)) (pre : List (EdgeEvent α)) (e : EdgeEvent α) :
    run shapes (pre ++ [e]) = step shapes (run shapes pre) e := List.foldl_concat ..

/-- What holds between two events holds after any number of them. -/
theorem invariant_run [LawfulScalar α] (h : ∀ p ∈ shapes, p.aabb.IsSweepable)
    (hsplit : EdgeEvent.ofShapes shapes = pre ++ post) :
    Invariant shapes pre (run shapes pre) := by
  induction pre using List.reverseRecOn generalizing post with
  | nil => exact invariant_nil shapes
  | append_singleton pre e ih =>
    rw [List.append_assoc, List.singleton_append] at hsplit
    have hs := ih hsplit
    obtain ⟨p, hp, he⟩ := EdgeEvent.mem_ofShapes.mp
      (hsplit ▸ List.mem_append_right _ (List.mem_cons_self ..) : e ∈ EdgeEvent.ofShapes shapes)
    rw [he] at hsplit ⊢
    rw [run_concat]
    generalize e.edge = edge at hsplit ⊢
    cases edge with
    | start => exact invariant_start h hs hp hsplit
    | stop => exact invariant_stop h hs hp hsplit

end SweepState

section Whole

variable [Scalar α] [LawfulScalar α] {shapes : Array (Proxy α)}

theorem intervalSweep_eq (h : ∀ p ∈ shapes, p.aabb.IsSweepable) :
    intervalSweep shapes = allPairs shapes := by
  have hrun := SweepState.invariant_run h (List.append_nil (EdgeEvent.ofShapes shapes)).symm
  apply sort_eq_allPairs hrun.nodup_pairs
  intro i j
  rw [hrun.mem_pairs]
  refine ⟨fun hij => hij.1, fun hij => ⟨hij, ?_⟩⟩
  obtain ⟨p, q, hp, hq, -⟩ := hij.2
  exact ⟨EdgeEvent.met_ofShapes hp .start, EdgeEvent.met_ofShapes hq .start⟩

/-- Every removal of the sweep takes out the extent of the shape that ends, and nothing else. -/
theorem remove_of_split (h : ∀ p ∈ shapes, p.aabb.IsSweepable) {pre post : List (EdgeEvent α)}
    {x : α} {i : Nat} (hsplit : EdgeEvent.ofShapes shapes = pre ++ ⟨x, .stop, i⟩ :: post) :
    ∃ e, extent shapes i = some e ∧ ((SweepState.run shapes pre).active.remove e).2 = true ∧
      (SweepState.run shapes pre).active.bag =
        e ::ₘ ((SweepState.run shapes pre).active.remove e).1.bag := by
  have hmem : (⟨x, .stop, i⟩ : EdgeEvent α) ∈ EdgeEvent.ofShapes shapes :=
    hsplit ▸ List.mem_append_right _ (List.mem_cons_self ..)
  obtain ⟨p, hp, he⟩ := EdgeEvent.mem_ofShapes.mp hmem
  rw [he] at hsplit
  have hs := SweepState.invariant_run h hsplit
  refine ⟨entryOf p i, ?_, SweepState.remove_of_stop h hs hp hsplit⟩
  rw [extent, hp]
  rfl

theorem run_ofShapes_active (h : ∀ p ∈ shapes, p.aabb.IsSweepable) :
    (SweepState.run shapes (EdgeEvent.ofShapes shapes)).active.isEmpty = true ∧
      (SweepState.run shapes (EdgeEvent.ofShapes shapes)).active.toList = [] := by
  have hrun := SweepState.invariant_run h (List.append_nil (EdgeEvent.ofShapes shapes)).symm
  have hnil : (SweepState.run shapes (EdgeEvent.ofShapes shapes)).active.toList = [] := by
    rw [List.eq_nil_iff_forall_not_mem]
    intro e he
    obtain ⟨⟨p, hp, -⟩, -, hleft⟩ := (hrun.mem_active e).mp he
    exact hleft (EdgeEvent.met_ofShapes hp .stop)
  exact ⟨hrun.reachable.isEmpty_of_toList hnil, hnil⟩

end Whole

/-- On boxes without missing coordinates whose left and right edges are in order, the sweep agrees
with the plain search. Every end takes out the extent of its own shape, so no removal fails, and
after the last event the tree is empty. -/
theorem intervalSweep_eq_allPairs {shapes : Array (Proxy Float32)}
    (h : ∀ p ∈ shapes, p.aabb.left ≤ p.aabb.right ∧ p.aabb.bottom.isNaN = false ∧
      p.aabb.top.isNaN = false) :
    intervalSweep shapes = allPairs shapes ∧
    (∀ pre post x i, EdgeEvent.ofShapes shapes = pre ++ ⟨x, .stop, i⟩ :: post →
      ∃ e, extent shapes i = some e ∧
        ((SweepState.run shapes pre).active.remove e).2 = true ∧
        (SweepState.run shapes pre).active.bag =
          e ::ₘ ((SweepState.run shapes pre).active.remove e).1.bag) ∧
    (SweepState.run shapes (EdgeEvent.ofShapes shapes)).active.isEmpty = true ∧
    (SweepState.run shapes (EdgeEvent.ofShapes shapes)).active.toList = [] := by
  have hsweepable : ∀ p ∈ shapes, p.aabb.IsSweepable := fun p hp =>
    ⟨(h p hp).1, Binary32.isKey_iff.mpr (h p hp).2.1, Binary32.isKey_iff.mpr (h p hp).2.2⟩
  exact ⟨intervalSweep_eq hsweepable, fun _ _ _ _ hsplit => remove_of_split hsweepable hsplit,
    run_ofShapes_active hsweepable⟩

/-- The first box ends where the second begins, at a zero of the other sign, and the lower edge of
the second lies above its upper one. -/
theorem intervalSweep_shared_edge :
    let shapes : Array (Proxy Float32) :=
      #[⟨⟨-1, 0, 0, 1⟩, .ball⟩, ⟨⟨.ofBits 0x80000000, 1, 1, 0⟩, .ball⟩]
    (∀ p ∈ shapes, p.aabb.left ≤ p.aabb.right ∧ p.aabb.bottom.isNaN = false ∧
      p.aabb.top.isNaN = false) ∧ intervalSweep shapes = [(0, 1)] := by
  intro shapes
  have hshapes : ∀ p ∈ shapes, p.aabb.left ≤ p.aabb.right ∧ p.aabb.bottom.isNaN = false ∧
      p.aabb.top.isNaN = false := by
    simp only [shapes, List.mem_toArray, List.forall_mem_cons]
    exact ⟨⟨by decide, rfl, rfl⟩, ⟨by decide, rfl, rfl⟩, nofun⟩
  have hstatic : ShapeKind.ball.isStatic = false := by cbv
  have hpairs : allPairs shapes = [(0, 1)] := by
    simp only [shapes, allPairs, List.zipIdx, pairsWithin, Proxy.mayTouch, Proxy.bothStatic,
      Proxy.isStatic, hstatic]
    decide
  exact ⟨hshapes, (intervalSweep_eq_allPairs hshapes).1.trans hpairs⟩

end Candidates

end PlanarDynamics
