import PlanarDynamics.Proofs.Scene.Interpretation
import PlanarDynamics.Proofs.Simulator.References

/-!
# Applying parsed scenes

A scene from text has no mass that a shape could be refused for, be it written or drawn. So each of
its commands is carried out, and the simulation holds the scene and nothing of what it held before.
-/

namespace PlanarDynamics

/-! ## What commands add -/

namespace Command

variable {α : Type} [Scalar α]

/-- The line that a command adds. -/
def line? : Command α → Option (Line α)
  | line start stop none => some (.create start stop)
  | line start stop (some point) => some (.facing start stop point)
  | _ => none

/-- The particle that a command adds, if its mass is accepted. -/
def particle? : Command α → Option (Except (MassError α) (Particle α))
  | particle mass radius pos vel => some (Particle.create pos vel mass radius)
  | _ => none

/-- The ball that a command adds, if its mass is accepted. -/
def ball? : Command α → Option (Except (MassError α) (Ball α))
  | ball mass radius pos vel angle angVel => some (Ball.create pos vel mass radius angle angVel)
  | _ => none

/-- The box that a command adds, if its mass is accepted. -/
def box? : Command α → Option (Except (MassError α) (Box α))
  | box mass width height pos vel angle angVel =>
    some (Box.create pos vel mass width height angle angVel)
  | _ => none

/-- The field that a command adds. -/
def field? : Command α → Option (ForceField α)
  | gravity g => some (.uniform g)
  | _ => none

end Command

namespace Simulator

variable {α : Type} [Scalar α] {s t u : Simulator α} {command : Command α}
  {commands : List (Command α)}

/-- `t` holds what `s` does and, behind it, what the commands add, in their order. -/
structure Adds (s : Simulator α) (commands : List (Command α)) (t : Simulator α) : Prop where
  lines : t.lines.toList = s.lines.toList ++ commands.filterMap Command.line?
  particles : t.particles.toList.map .ok =
    s.particles.toList.map .ok ++ commands.filterMap Command.particle?
  balls : t.balls.toList.map .ok = s.balls.toList.map .ok ++ commands.filterMap Command.ball?
  boxes : t.boxes.toList.map .ok = s.boxes.toList.map .ok ++ commands.filterMap Command.box?
  fields : t.fields.toList = s.fields.toList ++ commands.filterMap Command.field?
  config : t.config = s.config
  stats : t.stats = s.stats
  hasTiming : t.hasTiming = s.hasTiming

theorem Adds.refl (s : Simulator α) : s.Adds [] s := by
  constructor <;> simp

theorem Adds.trans {more : List (Command α)} (hst : s.Adds commands t) (htu : t.Adds more u) :
    s.Adds (commands ++ more) u where
  lines := by rw [htu.lines, hst.lines, List.filterMap_append, List.append_assoc]
  particles := by rw [htu.particles, hst.particles, List.filterMap_append, List.append_assoc]
  balls := by rw [htu.balls, hst.balls, List.filterMap_append, List.append_assoc]
  boxes := by rw [htu.boxes, hst.boxes, List.filterMap_append, List.append_assoc]
  fields := by rw [htu.fields, hst.fields, List.filterMap_append, List.append_assoc]
  config := htu.config.trans hst.config
  stats := htu.stats.trans hst.stats
  hasTiming := htu.hasTiming.trans hst.hasTiming

omit [Scalar α] in
theorem exists_of_added {σ : Type} {shape : Except (MassError α) σ} {add : σ → Simulator α × Nat}
    (h : (shape >>= fun x => pure (add x)).map (·.1) = .ok t) :
    ∃ x, shape = .ok x ∧ (add x).1 = t := by
  cases shape with
  | error e => cases h
  | ok x => exact ⟨x, rfl, Except.ok.inj h⟩

omit [Scalar α] in
theorem map_ok_push {σ : Type} {shape : Except (MassError α) σ} {x : σ} (xs : Array σ)
    (h : shape = .ok x) : (xs.push x).toList.map .ok = xs.toList.map .ok ++ [shape] := by
  rw [h, Array.toList_push, List.map_append]
  rfl

/-- A command that is carried out adds its shape or field and nothing else. -/
theorem adds_of_run (h : command.run s = .ok t) : s.Adds [command] t := by
  have hkeep {β : Type} (xs : List β) : xs = xs ++ [] := (List.append_nil xs).symm
  cases command with
  | line start stop facing =>
    cases facing with
    | none =>
      obtain rfl := Except.ok.inj h
      exact ⟨Array.toList_push, hkeep _, hkeep _, hkeep _, hkeep _, rfl, rfl, rfl⟩
    | some point =>
      obtain rfl := Except.ok.inj h
      exact ⟨Array.toList_push, hkeep _, hkeep _, hkeep _, hkeep _, rfl, rfl, rfl⟩
  | particle mass radius pos vel =>
    obtain ⟨p, hcreate, rfl⟩ := exists_of_added h
    exact ⟨hkeep _, map_ok_push _ hcreate, hkeep _, hkeep _, hkeep _, rfl, rfl, rfl⟩
  | ball mass radius pos vel angle angVel =>
    obtain ⟨b, hcreate, rfl⟩ := exists_of_added h
    exact ⟨hkeep _, hkeep _, map_ok_push _ hcreate, hkeep _, hkeep _, rfl, rfl, rfl⟩
  | box mass width height pos vel angle angVel =>
    obtain ⟨b, hcreate, rfl⟩ := exists_of_added h
    exact ⟨hkeep _, hkeep _, hkeep _, map_ok_push _ hcreate, hkeep _, rfl, rfl, rfl⟩
  | gravity g =>
    obtain rfl := Except.ok.inj h
    exact ⟨hkeep _, hkeep _, hkeep _, hkeep _, Array.toList_push, rfl, rfl, rfl⟩

theorem exists_run (hmass : ∀ mass ∈ command.mass?, isMass mass = true) (s : Simulator α) :
    ∃ t, command.run s = .ok t := by
  cases command with
  | line start stop facing => cases facing <;> exact ⟨_, rfl⟩
  | particle mass radius pos vel =>
    simp only [Command.run, addParticle, Particle.create, Body.create, if_pos (hmass mass rfl)]
    exact ⟨_, rfl⟩
  | ball mass radius pos vel angle angVel =>
    simp only [Command.run, addBall, Ball.create, Body.create, if_pos (hmass mass rfl)]
    exact ⟨_, rfl⟩
  | box mass width height pos vel angle angVel =>
    simp only [Command.run, addBox, Box.create, Body.create, if_pos (hmass mass rfl)]
    exact ⟨_, rfl⟩
  | gravity g => exact ⟨_, rfl⟩

/-- The state after commands, each given as a call of its own. -/
def populate (s : Simulator α) (commands : List (Command α)) : Simulator α :=
  commands.foldl (fun s command => s.call (.add command)) s

/-- Commands whose masses are accepted are carried out, all of them. -/
theorem runAll_of_masses (hmass : ∀ command ∈ commands, ∀ mass ∈ command.mass?, isMass mass = true)
    (s : Simulator α) :
    Command.runAll s commands = (s.populate commands, none) ∧
      s.Adds commands (s.populate commands) := by
  induction commands generalizing s with
  | nil => exact ⟨rfl, .refl s⟩
  | cons command rest ih =>
    rw [List.forall_mem_cons] at hmass
    obtain ⟨t, ht⟩ := exists_run hmass.1 s
    have hcall : s.populate (command :: rest) = t.populate rest := by
      simp only [populate, List.foldl_cons, call, Command.runAll, ht]
    obtain ⟨hrun, hadds⟩ := ih hmass.2 t
    rw [hcall, Command.runAll, ht]
    exact ⟨hrun, (adds_of_run ht).trans hadds⟩

/-- The simulation holds what the commands add, in their order, and nothing else. Nothing has been
counted or timed. -/
structure Holds (s : Simulator α) (commands : List (Command α)) : Prop where
  lines : s.lines.toList = commands.filterMap Command.line?
  particles : s.particles.toList.map .ok = commands.filterMap Command.particle?
  balls : s.balls.toList.map .ok = commands.filterMap Command.ball?
  boxes : s.boxes.toList.map .ok = commands.filterMap Command.box?
  fields : s.fields.toList = commands.filterMap Command.field?
  stats : s.stats = ⟨0, 0, 0, 0⟩
  hasTiming : s.hasTiming = false

theorem Adds.holds {config : Config α} (h : (create config).Adds commands t) :
    t.Holds commands :=
  ⟨h.lines, h.particles, h.balls, h.boxes, h.fields, h.stats, h.hasTiming⟩

end Simulator

/-! ## Masses of parsed scenes -/

section Masses

variable {γ : Type} [WordSource γ] {source rest : γ} {commands : List (Command Float32)}

/-- The masses are those that shapes may have. -/
def HasMasses (commands : List (Command Float32)) : Prop :=
  ∀ command ∈ commands, ∀ mass ∈ command.mass?, isMass mass = true

theorem Batch.Gives.hasMasses {b : Batch} {n : Nat}
    (hproper : 0 < n → ∀ r ∈ b.ranges, r.isProper = true) (hmass : isMass b.mass.lo = true)
    (h : b.Gives n source commands rest) : HasMasses commands := by
  induction h with
  | zero => exact nofun
  | succ hone _ ih =>
    have hranges := hproper (Nat.succ_pos _)
    refine List.forall_mem_cons.mpr ⟨?_, ih fun _ => hranges⟩
    cases hone with
    | particle hx hy hdrawn hradius =>
      rintro _ ⟨rfl⟩
      exact hdrawn.isMass (hranges b.mass (by simp [ranges])) hmass

theorem Accepts.hasMasses {line : List Char} {d : Directive} (h : Accepts line d)
    (hissues : Directive.Issues source d commands rest) : HasMasses commands := by
  cases hissues with
  | skip | viewport | title => exact nofun
  | command c => exact List.forall_mem_singleton.mpr h.mass
  | batch hgives => exact hgives.hasMasses (h.ranges _ rfl) (h.mass _ rfl)

theorem Scene.hasMasses_of_carries {lines : List (List Char)} {ds : List Directive}
    (h : List.Forall₂ Accepts lines ds) (hcarries : Carries ds source commands rest) :
    HasMasses commands := by
  induction h generalizing source commands with
  | nil =>
    cases hcarries
    exact nofun
  | cons haccepts _ ih =>
    cases hcarries with
    | cons hissues hrest =>
      exact List.forall_mem_append.mpr ⟨haccepts.hasMasses hissues, ih hrest⟩

/-- No shape of a scene from text is refused. -/
theorem Scene.hasMasses_of_parse {text origin : String} {scene : Scene Float32}
    (h : parse text origin source = .ok (scene, rest)) : HasMasses scene.commands := by
  obtain ⟨ds, hds, hcarries, -⟩ := parse_eq_ok_iff.mp h
  exact hasMasses_of_carries hds hcarries

end Masses

namespace Scene

open Simulator

variable {γ : Type} [WordSource γ]

/-- A scene from text replaces what any two simulations hold. Afterwards neither they nor a new one
with the same settings that is given the commands can be told apart by any calls. -/
theorem apply_parsed {text origin : String} {source rest : γ} {scene : Scene Float32}
    (hparse : parse text origin source = .ok (scene, rest)) {s t : Simulator Float32}
    (hconfig : t.config = s.config) :
    (scene.apply s).2 = none ∧ (scene.apply t).2 = none ∧
      (scene.apply s).1.Holds scene.commands ∧ (scene.apply t).1.Holds scene.commands ∧
        ∀ calls : List (Call Float32),
          calls.foldl call (scene.apply s).1 =
              calls.foldl call ((create s.config).populate scene.commands) ∧
            calls.foldl call (scene.apply t).1 =
              calls.foldl call ((create s.config).populate scene.commands) := by
  obtain ⟨hrun, hadds⟩ := runAll_of_masses (hasMasses_of_parse hparse) (create s.config)
  have happly_s : scene.apply s = ((create s.config).populate scene.commands, none) := hrun
  have happly_t : scene.apply t = ((create s.config).populate scene.commands, none) := by
    rw [apply, clear, hconfig]
    exact hrun
  rw [happly_s, happly_t]
  exact ⟨rfl, rfl, hadds.holds, hadds.holds, fun calls => ⟨rfl, rfl⟩⟩

/-- A particle and two drawn ones, after two other particles and after nothing. -/
theorem apply_parsed_batch :
    let s := chase .allPairs
    ∃ scene rest, parse "PARTICLE 1 1 0 0\nREPEAT 2 PARTICLE 1 2 1 1 0 4 0 0" ""
        (LinearGenerator.mk 0) = .ok (scene, rest) ∧
      (scene.apply s).2 = none ∧ (scene.apply s).1 = (scene.apply (create s.config)).1 ∧
        (scene.apply s).1.Holds scene.commands := by
  intro s
  have hok : (parse "PARTICLE 1 1 0 0\nREPEAT 2 PARTICLE 1 2 1 1 0 4 0 0" ""
      (LinearGenerator.mk 0)).isOk = true := by decide +kernel
  cases hparse : parse "PARTICLE 1 1 0 0\nREPEAT 2 PARTICLE 1 2 1 1 0 4 0 0" ""
      (LinearGenerator.mk 0) with
  | error e =>
    rw [hparse] at hok
    cases hok
  | ok result =>
    obtain ⟨hnone, -, hholds, -, hsame⟩ :=
      apply_parsed hparse (show (create s.config).config = s.config from rfl)
    obtain ⟨hs, ht⟩ := hsame []
    exact ⟨_, _, rfl, hnone, hs.trans ht.symm, hholds⟩

end Scene

end PlanarDynamics
