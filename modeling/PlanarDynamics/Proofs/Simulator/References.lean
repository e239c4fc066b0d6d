import Mathlib.Data.List.Nodup
import PlanarDynamics.Proofs.SortedList
import PlanarDynamics.Proofs.Simulator.Calls
import PlanarDynamics.Proofs.Simulator.Runs
import PlanarDynamics.Scalar.Binary32

/-!
# The references to shapes

References that are kept name every shape once, and the shapes that move in the same order as all
shapes. Adding a shape drops them, and nothing else changes the number of shapes, so this holds
whenever there are any. They are in the order of the left edges when they are sorted. A run moves
the edges and keeps the references, so that the order of a later state need not be theirs.
-/

namespace PlanarDynamics

/-- The handle of a shape that moves. -/
def Handle.moves : Handle → Bool
  | line _ => false
  | _ => true

namespace Simulator

variable {α : Type} {s t : Simulator α}

/-- The handles of shapes that move: particles, balls, boxes. -/
def movingHandles (s : Simulator α) : List Handle :=
  (List.range s.particles.size).map .particle ++ (List.range s.balls.size).map .ball ++
    (List.range s.boxes.size).map .box

/-- The handles of lines. -/
def lineHandles (s : Simulator α) : List Handle := (List.range s.lines.size).map .line

/-- The handles of all shapes. -/
def handles (s : Simulator α) : List Handle := s.movingHandles ++ s.lineHandles

theorem mem_handles {h : Handle} : h ∈ s.handles ↔ (s.aabbOf h).isSome = true := by
  cases h <;>
    simp [handles, movingHandles, lineHandles, aabbOf, isSome_read]

theorem nodup_handles (s : Simulator α) : s.handles.Nodup := by
  have hline : Function.Injective Handle.line := fun _ _ => Handle.line.inj
  have hparticle : Function.Injective Handle.particle := fun _ _ => Handle.particle.inj
  have hball : Function.Injective Handle.ball := fun _ _ => Handle.ball.inj
  have hbox : Function.Injective Handle.box := fun _ _ => Handle.box.inj
  simp only [handles, movingHandles, lineHandles, List.nodup_append, List.nodup_range.map hline,
    List.nodup_range.map hparticle, List.nodup_range.map hball, List.nodup_range.map hbox,
    List.mem_append, List.mem_map]
  grind

theorem filter_moves_handles (s : Simulator α) :
    s.handles.filter Handle.moves = s.movingHandles := by
  simp [handles, movingHandles, lineHandles, List.filter_append, List.filter_map,
    Function.comp_def, Handle.moves]

theorem moves_of_mem_movingHandles {h : Handle} (hmem : h ∈ s.movingHandles) : h.moves = true := by
  rw [← filter_moves_handles] at hmem
  exact (List.mem_filter.mp hmem).2

end Simulator

/-- The references name every shape of a simulation once, and those that move in the same order. -/
structure References.Names {α : Type} (r : References) (s : Simulator α) : Prop where
  perm : r.shapes.toList.Perm s.handles
  moving : r.moving.toList = r.shapes.toList.filter Handle.moves

namespace References.Names

variable {α : Type} {r : References} {s t : Simulator α}

theorem nodup (h : r.Names s) : r.shapes.toList.Nodup := h.perm.nodup_iff.mpr s.nodup_handles

theorem mem_shapes (h : r.Names s) {a : Handle} :
    a ∈ r.shapes ↔ (s.aabbOf a).isSome = true := by
  rw [← Array.mem_toList_iff, h.perm.mem_iff, Simulator.mem_handles]

/-- Whether references name all shapes depends on the numbers of shapes only. -/
theorem congr (h : r.Names s) (hlines : t.lines.size = s.lines.size)
    (hparticles : t.particles.size = s.particles.size) (hballs : t.balls.size = s.balls.size)
    (hboxes : t.boxes.size = s.boxes.size) : r.Names t where
  perm := by
    rw [Simulator.handles, Simulator.movingHandles, Simulator.lineHandles, hlines, hparticles,
      hballs, hboxes]
    exact h.perm
  moving := h.moving

theorem keeps (h : r.Names s) (hst : s.Keeps t) : r.Names t :=
  h.congr (congrArg Array.size hst.lines) hst.particles hst.balls hst.boxes

end References.Names

namespace Simulator

variable {α : Type} [Scalar α] {s t : Simulator α}

/-! ## Sorting -/

section Sorting

/-- The order of entries by their edges. -/
def edgeOrder (a b : Handle × α) : Ordering := Scalar.totalCmp a.2 b.2

instance : Std.TransCmp (edgeOrder : Handle × α → Handle × α → Ordering) :=
  transCmp_comap Scalar.totalCmp fun p : Handle × α => p.2

theorem sortByLeft_perm (l : List (Handle × α)) : (sortByLeft l).Perm l := List.mergeSort_perm ..

theorem pairwise_sortByLeft (l : List (Handle × α)) :
    (sortByLeft l).Pairwise fun a b => (edgeOrder a b).isLE := pairwise_mergeSort edgeOrder l

omit [Scalar α] in
theorem map_handle_zipIdx {β : Type} (handle : Nat → Handle) (left : β → α) (xs : Array β) :
    (xs.toList.zipIdx.map fun x => (handle x.2, left x.1)).map Prod.fst =
      (List.range xs.size).map handle := by
  rw [List.map_map, List.range_eq_range', ← Array.length_toList, ← List.zipIdx_map_snd,
    List.map_map]
  rfl

omit [Scalar α] in
theorem map_fst_movingEdges (s : Simulator α) : s.movingEdges.map Prod.fst = s.movingHandles := by
  simp only [movingEdges, List.map_append, movingHandles,
    map_handle_zipIdx Handle.particle fun p : Particle α => p.aabb.left,
    map_handle_zipIdx Handle.ball fun b : Ball α => b.aabb.left,
    map_handle_zipIdx Handle.box fun b : Box α => b.aabb.left]

omit [Scalar α] in
theorem map_fst_lineEdges (s : Simulator α) : s.lineEdges.map Prod.fst = s.lineHandles :=
  map_handle_zipIdx .line (·.aabb.left) s.lines

theorem moving_sortReferences_perm (s : Simulator α) :
    s.sortReferences.moving.toList.Perm s.movingHandles := by
  rw [← map_fst_movingEdges]
  exact (sortByLeft_perm s.movingEdges).map Prod.fst

theorem shapes_sortReferences_perm (s : Simulator α) :
    s.sortReferences.shapes.toList.Perm s.handles := by
  rw [handles, ← map_fst_movingEdges, ← map_fst_lineEdges, ← List.map_append]
  exact ((sortByLeft_perm _).trans ((sortByLeft_perm _).append_right _)).map Prod.fst

/-- The shapes that move are sorted before the lines come in, and the second sorting keeps their
order. -/
theorem moving_sortReferences_sublist (s : Simulator α) :
    s.sortReferences.moving.toList.Sublist s.sortReferences.shapes.toList :=
  (sublist_mergeSort edgeOrder (pairwise_sortByLeft _) (List.sublist_append_left ..)).map Prod.fst

theorem names_sortReferences (s : Simulator α) : s.sortReferences.Names s where
  perm := s.shapes_sortReferences_perm
  moving := by
    have hmoving := s.moving_sortReferences_perm
    have hself : s.sortReferences.moving.toList.filter Handle.moves =
        s.sortReferences.moving.toList :=
      List.filter_eq_self.mpr fun h hh => moves_of_mem_movingHandles (hmoving.mem_iff.mp hh)
    have hsub := s.moving_sortReferences_sublist.filter Handle.moves
    rw [hself] at hsub
    apply hsub.eq_of_length
    rw [hmoving.length_eq, (s.shapes_sortReferences_perm.filter _).length_eq, filter_moves_handles]

end Sorting

/-! ## Calls -/

omit [Scalar α] in
theorem exists_of_bind_ok {ε β γ : Type} {x : Except ε β} {f : β → Except ε γ} {c : γ}
    (h : x >>= f = .ok c) : ∃ b, x = .ok b ∧ f b = .ok c := by
  cases x with
  | error e => cases h
  | ok b => exact ⟨b, rfl, h⟩

omit [Scalar α] in
/-- What holds of the state with any shape of a kind added holds after one that is not refused. -/
theorem of_added {σ : Type} {shape : Except (MassError α) σ} {add : σ → Simulator α × Nat}
    {P : Simulator α → Prop} (hadd : ∀ x, P (add x).1)
    (h : (shape >>= fun x => pure (add x)).map (·.1) = .ok t) : P t := by
  cases shape with
  | error e => cases h
  | ok x =>
    obtain rfl := Except.ok.inj h
    exact hadd x

/-- A command that is carried out adds a field, or adds a shape and drops the references. -/
theorem refs_run {command : Command α} (h : command.run s = .ok t) :
    t.refs = none ∨ ∃ fields, t = { s with fields } := by
  cases command with
  | line start stop facing =>
    cases facing with
    | none =>
      obtain rfl := Except.ok.inj h
      exact .inl rfl
    | some point =>
      obtain rfl := Except.ok.inj h
      exact .inl rfl
  | particle mass radius pos vel =>
    exact .inl (of_added (P := fun t => t.refs = none) (fun _ => rfl) h)
  | ball mass radius pos vel angle angVel =>
    exact .inl (of_added (P := fun t => t.refs = none) (fun _ => rfl) h)
  | box mass width height pos vel angle angVel =>
    exact .inl (of_added (P := fun t => t.refs = none) (fun _ => rfl) h)
  | gravity g =>
    obtain rfl := Except.ok.inj h
    exact .inr ⟨_, rfl⟩

theorem names_references (h : ∀ r ∈ s.refs, r.Names s) : s.references.Names s := by
  unfold references
  cases hrefs : s.refs with
  | none => exact s.names_sortReferences
  | some r => exact h r hrefs

/-- In every state that calls lead to, references that are kept name all shapes. -/
theorem Reachable.names (h : s.Reachable) : ∀ r ∈ s.refs, r.Names s := by
  refine h.invariant (P := fun s => ∀ r ∈ s.refs, r.Names s) ?_ ?_ ?_ ?_ ?_ ?_
  · rintro config _ ⟨⟩
    exact ⟨.refl _, rfl⟩
  · intro s t command hs ht
    rcases refs_run ht with hnone | ⟨fields, rfl⟩
    · rw [hnone]
      exact nofun
    · exact fun r hr => (hs r hr).congr rfl rfl rfl rfl
  · exact fun fields hs r hr => (hs r hr).congr rfl rfl rfl rfl
  · exact fun config hs r hr => (hs r hr).congr rfl rfl rfl rfl
  · rintro s hs _ ⟨⟩
    exact (names_references hs).congr rfl rfl rfl rfl
  · intro s seconds hs r hr
    rw [refs_simulate] at hr
    obtain rfl := Option.some.inj hr
    have hbegin : s.references.Names s.beginRun :=
      (names_references hs).congr rfl rfl rfl rfl
    exact (hbegin.keeps (keeps_afterSteps s seconds s.steps)).congr rfl rfl rfl rfl

theorem Reachable.names_references (h : s.Reachable) : s.references.Names s :=
  Simulator.names_references h.names

theorem Reachable.names_beforeSearch (h : s.Reachable) (seconds : α) (k : Nat) :
    s.references.Names (s.beforeSearch seconds k) := by
  have hbegin : s.references.Names s.beginRun := h.names_references.congr rfl rfl rfl rfl
  exact hbegin.keeps (keeps_beforeSearch s seconds k)

/-! ## Two particles -/

/-- A particle at the origin that moves to the right, and another at rest in its way. -/
def chase (strategy : Strategy) : Simulator Float32 :=
  ((create ⟨1, 1, 0, 0, strategy, false⟩).call (.add (.particle 1 1 ⟨0, 0⟩ ⟨10, 0⟩))).call
    (.add (.particle 1 1 ⟨8, 0⟩ ⟨0, 0⟩))

theorem reachable_chase (strategy : Strategy) : (chase strategy).Reachable :=
  ((Reachable.create _).call _).call _

theorem references_chase (strategy : Strategy) : (chase strategy).references =
    ⟨#[.particle 0, .particle 1], #[.particle 0, .particle 1]⟩ := by
  have hmoving : (chase strategy).movingEdges = [(.particle 0, -1), (.particle 1, 7)] := by
    cases strategy <;> decide +kernel
  have hlines : (chase strategy).lineEdges = [] := by cases strategy <;> decide +kernel
  have hsorted : sortByLeft [(.particle 0, (-1 : Float32)), (.particle 1, 7)] =
      [(.particle 0, -1), (.particle 1, 7)] := List.mergeSort_of_pairwise (by decide +kernel)
  have hnone : (chase strategy).refs = none := by cases strategy <;> rfl
  simp only [references, hnone, Option.getD_none, sortReferences, hmoving, hlines, hsorted,
    List.append_nil, List.map_cons, List.map_nil]

theorem keepReferences_chase (strategy : Strategy) : (chase strategy).keepReferences =
    { chase strategy with
      refs := some ⟨#[.particle 0, .particle 1], #[.particle 0, .particle 1]⟩ } := by
  rw [keepReferences, references_chase]

end Simulator

end PlanarDynamics
