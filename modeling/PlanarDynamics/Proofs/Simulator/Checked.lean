import PlanarDynamics.Proofs.Candidates.Checked
import PlanarDynamics.Proofs.Simulator.References

/-!
# Runs that check their accesses

A run without a result where its search for pairs would leave an array, where a pair names a
position that the references do not have, or where one of the two handles names no shape. As the
references that are kept name every shape once, a run of a state that calls lead to has a result,
and it is that of the run without checks. No argument of a call needs to be a number.
-/

namespace PlanarDynamics.Simulator

variable {α : Type} {s t : Simulator α}

/-- Each handle is seen at its place, as none of them is without a shape. -/
theorem map_some_proxies {handles : Array Handle}
    (h : ∀ a ∈ handles, (s.aabbOf a).isSome = true) :
    (s.proxies handles).toList.map some =
      handles.toList.map fun a => (s.aabbOf a).map fun aabb => ⟨aabb, a.kind⟩ := by
  rw [proxies, Array.toList_filterMap]
  have h : ∀ a ∈ handles.toList, (s.aabbOf a).isSome = true := by simpa using h
  generalize handles.toList = l at h
  induction l with
  | nil => rfl
  | cons a l ih =>
    rw [List.forall_mem_cons] at h
    obtain ⟨aabb, haabb⟩ := Option.isSome_iff_exists.mp h.1
    simp only [List.filterMap_cons, List.map_cons, haabb, Option.map_some, ih h.2]

variable [Scalar α]

section Operations

/-- Resolves the shapes at two positions among the handles, which have to be there. -/
def resolvePair? (law : ContactLaw α) (handles : Array Handle) (state : Simulator α × Nat)
    (pair : Pair) : Option (Simulator α × Nat) := do
  let a ← handles[pair.1]?
  let b ← handles[pair.2]?
  if (state.1.aabbOf a).isSome && (state.1.aabbOf b).isSome then
    match state.1.resolve law a b with
    | some s => some (s, state.2 + 1)
    | none => some state
  else
    none

/-- One step: move, attract, find candidates, resolve them, count. Moving and attraction go through
the shapes as they lie and look none up. -/
def step? (law : ContactLaw α) (dt : α) (s : Simulator α) : Option (Simulator α) := do
  let s := s.move dt
  let pairs ← s.config.strategy.pairs? s.seen
  let (t, contacts) ← pairs.foldlM (resolvePair? law s.references.shapes) (s, 0)
  return { t with
    stats := { t.stats with
      candidates := t.stats.candidates + pairs.length
      contacts := t.stats.contacts + contacts } }

/-- The state after the first `k` steps of a run. -/
def afterSteps? (s : Simulator α) (seconds : α) : Nat → Option (Simulator α)
  | 0 => some s.beginRun
  | k + 1 => do step? s.law (s.stepTime seconds) (← s.afterSteps? seconds k)

/-- Runs for `seconds`, in the number of steps that the settings give. -/
def simulate? (s : Simulator α) (seconds : α) : Option (Simulator α) := do
  let t ← s.afterSteps? seconds s.steps
  return { t with hasTiming := t.hasTiming || t.config.timed }

end Operations

/-- The search for pairs sees every shape at its place among the references, and what any strategy
finds are pairs of two different shapes. -/
structure SeesShapes (s : Simulator α) : Prop where
  size : s.seen.size = s.references.shapes.size
  place : ∀ (i : Nat) (a : Handle), s.references.shapes[i]? = some a →
    ∃ aabb, s.aabbOf a = some aabb ∧ s.seen[i]? = some ⟨aabb, a.kind⟩
  pairs : ∀ (strategy : Strategy) (i j : Nat), (i, j) ∈ strategy.pairs s.seen →
    ∃ a b, s.references.shapes[i]? = some a ∧ s.references.shapes[j]? = some b ∧ a ≠ b ∧
      (s.aabbOf a).isSome = true ∧ (s.aabbOf b).isSome = true

theorem seesShapes [LawfulScalar α] (h : s.references.Names s) : s.SeesShapes := by
  have hsome : ∀ a ∈ s.references.shapes, (s.aabbOf a).isSome = true :=
    fun a ha => h.mem_shapes.mp ha
  have hseen : s.seen.toList.map some = s.references.shapes.toList.map fun a =>
      (s.aabbOf a).map fun aabb => ⟨aabb, a.kind⟩ := map_some_proxies hsome
  have hsize : s.seen.size = s.references.shapes.size := by
    simpa using congrArg List.length hseen
  refine ⟨hsize, fun i a ha => ?_, fun strategy i j hij => ?_⟩
  · obtain ⟨aabb, haabb⟩ := Option.isSome_iff_exists.mp (hsome a (Array.mem_of_getElem? ha))
    have hget := congrArg (fun l => l[i]?) hseen
    simp only [List.getElem?_map, Array.getElem?_toList, ha, haabb, Option.map_some] at hget
    obtain ⟨p, hp, heq⟩ := Option.map_eq_some_iff.mp hget
    exact ⟨aabb, haabb, hp.trans heq⟩
  · obtain ⟨hlt, hmoves⟩ := (Candidates.ascending_pairs strategy s.seen).mem i j hij
    have hj : j < s.references.shapes.size :=
      (Candidates.lt_size_of_oneMoves hmoves).trans_eq hsize
    have hi : i < s.references.shapes.size := hlt.trans hj
    refine ⟨_, _, Array.getElem?_eq_getElem hi, Array.getElem?_eq_getElem hj, ?_,
      hsome _ (Array.getElem_mem hi), hsome _ (Array.getElem_mem hj)⟩
    intro heq
    rw [← Array.getElem_toList, ← Array.getElem_toList] at heq
    exact hlt.ne (h.nodup.getElem_inj_iff.mp heq)

theorem resolvePair?_eq {law : ContactLaw α} {handles : Array Handle} {state : Simulator α × Nat}
    {pair : Pair} {a b : Handle} (ha : handles[pair.1]? = some a) (hb : handles[pair.2]? = some b)
    (hsa : (state.1.aabbOf a).isSome = true) (hsb : (state.1.aabbOf b).isSome = true) :
    resolvePair? law handles state pair = some (resolvePair law handles state pair) := by
  simp only [resolvePair?, resolvePair, ha, hb, hsa, hsb, Option.bind_eq_bind, Option.bind_some,
    Bool.and_self, if_true]
  cases state.1.resolve law a b <;> rfl

theorem Reachable.names_search (h : s.Reachable) (seconds : α) (k : Nat) :
    (s.beforeSearch seconds k).references.Names (s.beforeSearch seconds k) := by
  rw [references_beforeSearch]
  exact h.names_beforeSearch seconds k

variable [LawfulScalar α]

/-- Contacts move shapes but leave all of them where the handles find them, so that each pair is of
two shapes when its turn comes. -/
theorem step?_eq (law : ContactLaw α) {dt : α} (h : (s.move dt).references.Names (s.move dt)) :
    step? law dt s = some (step law dt s) := by
  have hpairs : ((s.move dt).config.strategy.pairs (s.move dt).seen).foldlM
      (resolvePair? law (s.move dt).references.shapes) (s.move dt, 0) =
        some (resolvePairs law (s.move dt).references.shapes
          ((s.move dt).config.strategy.pairs (s.move dt).seen) (s.move dt)) := by
    rw [resolvePairs_eq]
    apply foldlM_eq_some (P := fun state : Simulator α × Nat => (s.move dt).Keeps state.1) _
      (.refl _)
    rintro ⟨i, j⟩ hij state hkeeps
    obtain ⟨a, b, ha, hb, -, hsa, hsb⟩ := (seesShapes h).pairs _ i j hij
    rw [← hkeeps.isSome_aabbOf] at hsa hsb
    exact ⟨resolvePair?_eq ha hb hsa hsb, hkeeps.trans (keeps_resolvePair ..)⟩
  simp only [step?, Strategy.pairs?_eq, hpairs, Option.bind_eq_bind, Option.bind_some]
  rfl

theorem Reachable.afterSteps? (h : s.Reachable) (seconds : α) (k : Nat) :
    s.afterSteps? seconds k = some (s.afterSteps seconds k) := by
  induction k with
  | zero => rfl
  | succ k ih =>
    rw [Simulator.afterSteps?, ih, afterSteps_succ]
    exact step?_eq _ (h.names_search seconds k)

theorem Reachable.simulate? (h : s.Reachable) (seconds : α) :
    s.simulate? seconds = some (s.simulate seconds) := by
  rw [Simulator.simulate?, h.afterSteps?]
  rfl

/-- Whatever the arguments of the calls were, references that are kept name every shape once, and
those that move in the same order. In each step of a run the search therefore sees the shapes in the
order of the references, any strategy finds pairs of two shapes only, and the run reads and writes
nothing outside its arrays. -/
theorem references_name_every_shape {s : Simulator Float32} (h : s.Reachable) :
    (∀ r ∈ s.refs, r.shapes.toList.Nodup ∧ (∀ a, a ∈ r.shapes ↔ (s.aabbOf a).isSome = true) ∧
      r.moving.toList = r.shapes.toList.filter Handle.moves) ∧
    ∀ seconds : Float32,
      (∀ k, (s.beforeSearch seconds k).SeesShapes) ∧
        s.simulate? seconds = some (s.simulate seconds) := by
  refine ⟨fun r hr => ?_, fun seconds => ⟨fun k => ?_, h.simulate? seconds⟩⟩
  · have hnames := h.names r hr
    exact ⟨hnames.nodup, fun a => hnames.mem_shapes, hnames.moving⟩
  · exact seesShapes (h.names_search seconds k)

/-- A line and a ball of negative radius, at places that are not numbers. -/
def degenerate : Simulator Float32 :=
  (((create ⟨2, .ofBits 0x7fc00000, -1, .ofBits 0x7f800000, .intervalSweep, false⟩).call
    (.add (.ball 1 (-2) ⟨.ofBits 0x7fc00000, 0⟩ ⟨.ofBits 0x7f800000, 3⟩ 0 0))).call
      (.add (.line ⟨0, .ofBits 0x7fc00000⟩ ⟨.ofBits 0xff800000, 0⟩ none))).call .references

/-- The ball and the line are named, and a run of no proper time has a result. -/
theorem references_name_every_shape_degenerate :
    let s := degenerate
    s.Reachable ∧ (∃ r, s.refs = some r ∧ .ball 0 ∈ r.shapes ∧ .line 0 ∈ r.shapes) ∧
      s.simulate? (.ofBits 0x7fc00000) = some (s.simulate (.ofBits 0x7fc00000)) := by
  intro s
  have hreach : s.Reachable := (((Reachable.create _).call _).call _).call _
  obtain ⟨hrefs, hruns⟩ := references_name_every_shape hreach
  refine ⟨hreach, ⟨_, rfl, ?_, ?_⟩, (hruns _).2⟩
  · rw [(hrefs _ rfl).2.1]
    decide +kernel
  · rw [(hrefs _ rfl).2.1]
    decide +kernel

end PlanarDynamics.Simulator
