import PlanarDynamics.Proofs.Simulator.Makes

/-!
# Bounds at the time of the search

Shapes refresh their bounds when they move. Fields and attraction change velocities only, so each
search for pairs sees bounds around the positions at which contacts are looked at. The bounds of a
line are those that it was built with.
-/

namespace PlanarDynamics

variable {α : Type}

namespace Mover

variable {m : Mover α}

@[simp] theorem particle?_eq_some {p : Particle α} : m.particle? = some p ↔ m = .particle p := by
  cases m <;> simp [particle?]

@[simp] theorem ball?_eq_some {b : Ball α} : m.ball? = some b ↔ m = .ball b := by
  cases m <;> simp [ball?]

@[simp] theorem box?_eq_some {b : Box α} : m.box? = some b ↔ m = .box b := by
  cases m <;> simp [box?]

end Mover

variable [Scalar α]

/-- The bounds of a shape are those at its current pose, swept along some motion. -/
def Mover.IsRefreshed : Mover α → Prop
  | .particle p => ∃ motion, p.aabb = circleBounds p.body.pos p.radius motion
  | .ball b => ∃ motion, b.aabb = circleBounds b.body.pos b.radius motion
  | .box b =>
    ∃ motion, b.aabb = (Corners.ofPose b.body.pos b.width b.height b.spin.angle).bounds motion

theorem Mover.isRefreshed_applyImpulse (m : Mover α) (impulse contact : Vec α) :
    (m.applyImpulse impulse contact).IsRefreshed = m.IsRefreshed := by
  cases m <;> rfl

/-- A line with the bounds of its segment. -/
def Line.IsPadded (line : Line α) : Prop := line = .withNormal line.start line.stop line.normal

/-- What advancing establishes and impulses keep holds after a shape has moved. -/
theorem integrate_induction {σ : Type} [Moving σ α] {P : σ → Prop}
    (hadvance : ∀ (x : σ) (dt : α), P (Moving.advance x dt))
    (himpulse : ∀ (x : σ) (impulse contact : Vec α),
      P x → P (Moving.applyImpulse x impulse contact))
    (fields : Array (ForceField α)) (dt : α) (x : σ) : P (integrate fields dt x) := by
  rw [integrate, ← Array.foldl_toList]
  have hstart := hadvance x dt
  generalize Moving.advance x dt = y at hstart
  induction fields.toList generalizing y with
  | nil => exact hstart
  | cons field fields ih => exact ih _ (himpulse _ _ _ hstart)

namespace Simulator

variable {s t : Simulator α}

omit [Scalar α] in
theorem forall_movers {P : Mover α → Prop} : (∀ m ∈ s.movers, P m) ↔
    (∀ p ∈ s.particles, P (.particle p)) ∧ (∀ b ∈ s.balls, P (.ball b)) ∧
      ∀ b ∈ s.boxes, P (.box b) := by
  simp only [movers, List.forall_mem_append, List.forall_mem_map, Array.mem_toList_iff, and_assoc]

omit [Scalar α] in
/-- Putting moving shapes back by kind puts back all of them. -/
theorem mem_movers_withMovers {movers : List (Mover α)} {m : Mover α} :
    m ∈ (s.withMovers movers).movers ↔ m ∈ movers := by
  cases m <;> simp [withMovers, Simulator.movers]

/-- All bounds of moving shapes are refreshed. -/
def IsRefreshed (s : Simulator α) : Prop := ∀ m ∈ s.movers, m.IsRefreshed

theorem isRefreshed_integrateAll (s : Simulator α) (dt : α) : (s.integrateAll dt).IsRefreshed := by
  have hmap {σ : Type} [Moving σ α] {P : σ → Prop} {xs : Array σ}
      (h : ∀ x, P (integrate s.fields dt x)) : ∀ y ∈ xs.map (integrate s.fields dt), P y := by
    intro y hy
    obtain ⟨x, -, rfl⟩ := Array.mem_map.mp hy
    exact h x
  refine forall_movers.mpr ⟨hmap fun p => ?_, hmap fun b => ?_, hmap fun b => ?_⟩
  · exact integrate_induction (P := fun p => (Mover.particle p).IsRefreshed)
      (fun _ _ => ⟨_, rfl⟩) (fun _ _ _ h => h) s.fields dt p
  · exact integrate_induction (P := fun b => (Mover.ball b).IsRefreshed)
      (fun _ _ => ⟨_, rfl⟩) (fun _ _ _ h => h) s.fields dt b
  · exact integrate_induction (P := fun b => (Mover.box b).IsRefreshed)
      (fun _ _ => ⟨_, rfl⟩) (fun _ _ _ h => h) s.fields dt b

theorem IsRefreshed.attractAll (h : s.IsRefreshed) (dt : α) : (s.attractAll dt).IsRefreshed := by
  unfold Simulator.attractAll
  split
  case isTrue =>
    have hsame := Attraction.map_attractAll Mover.isRefreshed_applyImpulse s.config.attraction dt
      s.movers
    intro m hm
    rw [mem_movers_withMovers] at hm
    have hmem := List.mem_map_of_mem (f := Mover.IsRefreshed) hm
    rw [hsame] at hmem
    obtain ⟨m', hm', heq⟩ := List.mem_map.mp hmem
    rw [← heq]
    exact h m' hm'
  case isFalse => exact h

theorem isRefreshed_move (s : Simulator α) (dt : α) : (s.move dt).IsRefreshed :=
  (s.isRefreshed_integrateAll dt).attractAll dt

/-- The lines are as they were built. -/
def IsPadded (s : Simulator α) : Prop := ∀ line ∈ s.lines, line.IsPadded

/-- A command leaves the lines or adds one. -/
theorem lines_run {command : Command α} (h : command.run s = .ok t) :
    t.lines = s.lines ∨ ∃ line : Line α, line.IsPadded ∧ t.lines = s.lines.push line := by
  have hadd {σ : Type} {shape : Except (MassError α) σ} {add : σ → Simulator α × Nat}
      (hlines : ∀ x, (add x).1.lines = s.lines)
      (h : (shape >>= fun x => pure (add x)).map (·.1) = .ok t) : t.lines = s.lines :=
    of_added (P := fun t => t.lines = s.lines) hlines h
  cases command with
  | line start stop facing =>
    cases facing with
    | none =>
      obtain rfl := Except.ok.inj h
      exact .inr ⟨.create start stop, rfl, rfl⟩
    | some point =>
      obtain rfl := Except.ok.inj h
      exact .inr ⟨.facing start stop point, rfl, rfl⟩
  | particle mass radius pos vel => exact .inl (hadd (fun _ => rfl) h)
  | ball mass radius pos vel angle angVel => exact .inl (hadd (fun _ => rfl) h)
  | box mass width height pos vel angle angVel => exact .inl (hadd (fun _ => rfl) h)
  | gravity g =>
    obtain rfl := Except.ok.inj h
    exact .inl rfl

theorem IsPadded.congr (h : s.IsPadded) (hlines : t.lines = s.lines) : t.IsPadded := by
  rw [IsPadded, hlines]
  exact h

theorem Reachable.isPadded (h : s.Reachable) : s.IsPadded := by
  refine h.invariant (P := IsPadded) ?_ ?_ ?_ ?_ ?_ ?_
  · exact fun config line hline => absurd hline (Array.not_mem_empty line)
  · intro s t command hs ht
    rcases lines_run ht with hsame | ⟨line, hline, hpush⟩
    · exact hs.congr hsame
    · intro line' hline'
      rw [hpush, Array.mem_push] at hline'
      rcases hline' with hline' | rfl
      · exact hs line' hline'
      · exact hline
  · exact fun fields hs => hs
  · exact fun config hs => hs
  · exact fun hs => hs
  · exact fun {s} seconds hs => hs.congr (keeps_afterSteps s seconds s.steps).lines

end Simulator

end PlanarDynamics
