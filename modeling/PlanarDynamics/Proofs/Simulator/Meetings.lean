import PlanarDynamics.Proofs.Simulator.Checked

/-!
# Contacts by handles

The plain search names shapes by their positions among the references. Read with the references, its
pairs are pairs of handles: each shape with those behind it that it may touch. So what a step does
to the shapes can be followed without positions.
-/

namespace PlanarDynamics.Simulator

variable {α : Type} [Scalar α] {s : Simulator α} {handles : Array Handle} {law : ContactLaw α}
  {a : Handle} {entries : List (Proxy α × Nat)} {l : List Handle}

/-- What the search for pairs sees of the shape that a handle names. -/
def proxyOf (s : Simulator α) (a : Handle) : Option (Proxy α) :=
  (s.aabbOf a).map fun aabb => ⟨aabb, a.kind⟩

/-- The shapes that two handles name may touch. -/
def mayMeet (s : Simulator α) (a b : Handle) : Bool :=
  match s.proxyOf a, s.proxyOf b with
  | some p, some q => p.mayTouch q
  | _, _ => false

/-- Each handle with those behind it whose shapes its own may touch. -/
def meetings (s : Simulator α) : List Handle → List (Handle × Handle)
  | [] => []
  | a :: rest => (rest.filter (s.mayMeet a)).map (fun b => (a, b)) ++ s.meetings rest

/-- The state after the contact of two shapes, if they touch. -/
def meet (law : ContactLaw α) (s : Simulator α) (pair : Handle × Handle) : Simulator α :=
  (s.resolve law pair.1 pair.2).getD s

/-- A shape is seen at the position of its handle. -/
def SeenAt (s : Simulator α) (handles : Array Handle) (entry : Proxy α × Nat) (a : Handle) : Prop :=
  handles[entry.2]? = some a ∧ s.proxyOf a = some entry.1

theorem map_filter_mayTouch {p : Proxy α} (hp : s.proxyOf a = some p)
    (h : List.Forall₂ (s.SeenAt handles) entries l) :
    (entries.filter fun q => p.mayTouch q.1).map (fun q => handles[q.2]?) =
      (l.filter (s.mayMeet a)).map some := by
  induction h with
  | nil => rfl
  | @cons entry b entries l hentry _ ih =>
    obtain ⟨hb, hq⟩ := hentry
    have hmeet : s.mayMeet a b = p.mayTouch entry.1 := by rw [mayMeet, hp, hq]
    simp only [List.filter_cons, hmeet]
    split
    · rw [List.map_cons, List.map_cons, hb, ih]
    · exact ih

/-- The pairs of positions that the plain search finds, as pairs of handles. -/
theorem map_pairsWithin (h : List.Forall₂ (s.SeenAt handles) entries l) :
    (Candidates.pairsWithin entries).map (fun pair => (handles[pair.1]?, handles[pair.2]?)) =
      (s.meetings l).map fun pair => (some pair.1, some pair.2) := by
  induction h with
  | nil => rfl
  | @cons entry a entries l hentry hrest ih =>
    obtain ⟨ha, hp⟩ := hentry
    rw [Candidates.pairsWithin, meetings, List.map_append, List.map_append, ih, List.map_map,
      List.map_map]
    congr 1
    have hfirst := congrArg (List.map fun b => (some a, b)) (map_filter_mayTouch hp hrest)
    simpa only [List.map_map, Function.comp_def, ha] using hfirst

theorem forall₂_seenAt (h : s.SeesShapes) :
    List.Forall₂ (s.SeenAt s.references.shapes) s.seen.toList.zipIdx
      s.references.shapes.toList := by
  rw [List.forall₂_iff_get]
  refine ⟨by simpa using h.size, fun i hi hi' => ?_⟩
  have hshape : i < s.references.shapes.size := by simpa using hi'
  have hplace : i < s.seen.size := by simpa using hi
  obtain ⟨aabb, haabb, hseen⟩ := h.place i _ (Array.getElem?_eq_getElem hshape)
  simp only [List.get_eq_getElem, List.getElem_zipIdx, Array.getElem_toList, Nat.zero_add]
  refine ⟨Array.getElem?_eq_getElem hshape, ?_⟩
  rw [proxyOf, haabb, Option.map_some, ← hseen]
  exact Array.getElem?_eq_getElem hplace

/-- The state after the contact of the shapes of two handles, if there are two. -/
def meet? (law : ContactLaw α) (s : Simulator α) : Option Handle × Option Handle → Simulator α
  | (some a, some b) => s.meet law (a, b)
  | _ => s

theorem fst_resolvePair (law : ContactLaw α) (handles : Array Handle) (state : Simulator α × Nat)
    (pair : Pair) : (resolvePair law handles state pair).1 =
      state.1.meet? law (handles[pair.1]?, handles[pair.2]?) := by
  unfold resolvePair
  split
  case h_1 a b ha hb =>
    rw [ha, hb, meet?, meet]
    dsimp only
    cases state.1.resolve law a b <;> rfl
  case h_2 hnone =>
    unfold meet?
    split
    case h_1 a b heq =>
      obtain ⟨ha, hb⟩ := Prod.mk.inj heq
      exact absurd hb (hnone a b ha)
    case h_2 => rfl

theorem fst_resolvePairs (law : ContactLaw α) (handles : Array Handle) (pairs : List Pair)
    (s : Simulator α) : (resolvePairs law handles pairs s).1 =
      (pairs.map fun pair => (handles[pair.1]?, handles[pair.2]?)).foldl (meet? law) s := by
  rw [resolvePairs_eq]
  generalize (0 : Nat) = contacts
  induction pairs generalizing s contacts with
  | nil => rfl
  | cons pair pairs ih =>
    rw [List.foldl_cons, List.map_cons, List.foldl_cons,
      ← fst_resolvePair law handles (s, contacts)]
    exact ih _ _

/-- After the plain search every two shapes that may touch meet in turn. -/
theorem fst_resolvePairs_allPairs (law : ContactLaw α) (h : s.SeesShapes) :
    (resolvePairs law s.references.shapes (Candidates.allPairs s.seen) s).1 =
      (s.meetings s.references.shapes.toList).foldl (meet law) s := by
  rw [fst_resolvePairs, Candidates.allPairs, map_pairsWithin (forall₂_seenAt h), List.foldl_map]
  rfl

end PlanarDynamics.Simulator
