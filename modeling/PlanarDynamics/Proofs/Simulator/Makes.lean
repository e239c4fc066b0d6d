import PlanarDynamics.Proofs.Scene.Grammar
import PlanarDynamics.Proofs.Simulator.Calls
import PlanarDynamics.Proofs.Simulator.References

/-!
# What shapes are made of

Motion changes where a shape is, how fast it moves and turns, and its bounds. The rest of a shape,
its make, is as its constructor computed it: calls add shapes behind those that are there, and a run
changes shapes where they lie. So a handle names one shape until the simulation is cleared.
-/

namespace PlanarDynamics

/-- All about a shape that motion does not change. Of a line that is the whole line. -/
inductive Make (α : Type) where
  | line (line : Line α)
  | particle (mass invMass radius : α)
  | ball (mass invMass radius inertia invInertia : α)
  | box (mass invMass width height inertia invInertia : α)
  deriving DecidableEq

/-- The kind of the shapes of a make. -/
def Make.kind {α : Type} : Make α → ShapeKind
  | line _ => .line
  | particle .. => .particle
  | ball .. => .ball
  | box .. => .box

/-- The position that a handle names among the shapes of its kind. -/
def Handle.index : Handle → Nat
  | line i => i
  | particle i => i
  | ball i => i
  | box i => i

section Makes

variable {α : Type}

/-- The make of a particle. -/
def Particle.make (p : Particle α) : Make α := .particle p.body.mass p.body.invMass p.radius

/-- The make of a ball. -/
def Ball.make (b : Ball α) : Make α :=
  .ball b.body.mass b.body.invMass b.radius b.spin.inertia b.spin.invInertia

/-- The make of a box. -/
def Box.make (b : Box α) : Make α :=
  .box b.body.mass b.body.invMass b.width b.height b.spin.inertia b.spin.invInertia

/-- The makes of the shapes of a kind, in the order of their positions. -/
def Simulator.makes (s : Simulator α) : ShapeKind → List (Make α)
  | .line => s.lines.toList.map .line
  | .particle => s.particles.toList.map Particle.make
  | .ball => s.balls.toList.map Ball.make
  | .box => s.boxes.toList.map Box.make
  | .base | .dynamic | .rigid => []

/-- The make of the shape that a handle names. -/
def Simulator.makeOf (s : Simulator α) (h : Handle) : Option (Make α) := (s.makes h.kind)[h.index]?

/-- The moving shape that a handle names. -/
def Simulator.moverOf (s : Simulator α) : Handle → Option (Mover α)
  | .line _ => none
  | .particle i => s.particles[i]?.map .particle
  | .ball i => s.balls[i]?.map .ball
  | .box i => s.boxes[i]?.map .box

variable [Scalar α]

/-- The make of the shape that a command adds. A field is no shape, and a shape without a proper
mass is not added. -/
def Command.make? : Command α → Option (Make α)
  | .line start stop none => some (.line (.create start stop))
  | .line start stop (some point) => some (.line (.facing start stop point))
  | .particle mass radius pos vel =>
    (Particle.create pos vel mass radius).toOption.map Particle.make
  | .ball mass radius pos vel angle angVel =>
    (Ball.create pos vel mass radius angle angVel).toOption.map Ball.make
  | .box mass width height pos vel angle angVel =>
    (Box.create pos vel mass width height angle angVel).toOption.map Box.make
  | .gravity _ => none

/-- The make of the shape that a call adds. -/
def Call.make? : Call α → Option (Make α)
  | .add command => command.make?
  | _ => none

/-- The call removes all shapes. Applying a scene clears first. -/
def Call.clears : Call α → Bool
  | .clear => true
  | .apply _ => true
  | _ => false

end Makes

namespace ContactLaw

variable {α : Type} [Scalar α] {law : ContactLaw α}

theorem make_particles {p p' q q' : Particle α} (h : law.particles p q = some (p', q')) :
    p'.make = p.make ∧ q'.make = q.make := by
  unfold particles at h
  dsimp only at h
  split_ifs at h <;> cases h <;> exact ⟨rfl, rfl⟩

theorem make_particleLine {p p' : Particle α} {line : Line α}
    (h : law.particleLine p line = some p') : p'.make = p.make := by
  simp only [particleLine, Option.bind_eq_bind, Option.bind_eq_some_iff] at h
  obtain ⟨pos, -, h⟩ := h
  split at h <;> obtain rfl := Option.some.inj h <;> rfl

theorem make_ballLine {b b' : Ball α} {line : Line α} (h : law.ballLine b line = some b') :
    b'.make = b.make := by
  simp only [ballLine, Option.bind_eq_bind, Option.bind_eq_some_iff] at h
  obtain ⟨pos, -, h⟩ := h
  split at h <;> obtain rfl := Option.some.inj h <;> rfl

theorem make_boxLine {b b' : Box α} {line : Line α} (h : law.boxLine b line = some b') :
    b'.make = b.make := by
  simp only [boxLine, Option.bind_eq_bind, Option.bind_eq_some_iff] at h
  obtain ⟨pos, -, h⟩ := h
  split at h <;> obtain rfl := Option.some.inj h <;> rfl

end ContactLaw

namespace Simulator

variable {α : Type} {s t u : Simulator α}

theorem makes_congr (hlines : t.lines = s.lines)
    (hparticles : t.particles.toList.map Particle.make = s.particles.toList.map Particle.make)
    (hballs : t.balls.toList.map Ball.make = s.balls.toList.map Ball.make)
    (hboxes : t.boxes.toList.map Box.make = s.boxes.toList.map Box.make) : t.makes = s.makes := by
  funext kind
  cases kind with
  | line => rw [makes, hlines]; rfl
  | particle => exact hparticles
  | ball => exact hballs
  | box => exact hboxes
  | base | dynamic | rigid => rfl

/-- Writing to an array something of the make that stands there leaves the makes. -/
theorem map_setIfInBounds {σ β : Type} {make : σ → β} {xs : Array σ} {i : Nat} {x y : σ}
    (hx : xs[i]? = some x) (hmake : make y = make x) :
    (xs.setIfInBounds i y).toList.map make = xs.toList.map make := by
  obtain ⟨hi, rfl⟩ := Array.getElem?_eq_some_iff.mp hx
  have hset := @List.set_getElem_self _ (xs.toList.map make) i (by simpa using hi)
  rw [Array.toList_setIfInBounds, List.map_set, hmake]
  simpa using hset

variable [Scalar α]

/-! ## Runs -/

section Runs

/-- Fields push a shape and leave what no advance and no impulse changes. -/
theorem map_integrate {σ β : Type} [Moving σ α] {make : σ → β}
    (hadvance : ∀ (x : σ) (dt : α), make (Moving.advance x dt) = make x)
    (himpulse : ∀ (x : σ) (impulse contact : Vec α),
      make (Moving.applyImpulse x impulse contact) = make x)
    (fields : Array (ForceField α)) (dt : α) (xs : Array σ) :
    (xs.map (integrate fields dt)).toList.map make = xs.toList.map make := by
  have hone (x : σ) : make (integrate fields dt x) = make x := by
    rw [integrate, ← Array.foldl_toList, ← hadvance x dt]
    generalize Moving.advance x dt = y
    induction fields.toList generalizing y with
    | nil => rfl
    | cons field fields ih => rw [List.foldl_cons, ih, himpulse]
  rw [Array.toList_map, List.map_map]
  exact List.map_congr_left fun x _ => hone x

theorem makes_integrateAll (s : Simulator α) (dt : α) : (s.integrateAll dt).makes = s.makes :=
  makes_congr rfl (map_integrate (fun _ _ => rfl) (fun _ _ _ => rfl) ..)
    (map_integrate (fun _ _ => rfl) (fun _ _ _ => rfl) ..)
    (map_integrate (fun _ _ => rfl) (fun _ _ _ => rfl) ..)

theorem makes_attractAll (s : Simulator α) (dt : α) : (s.attractAll dt).makes = s.makes := by
  unfold attractAll
  split
  case isFalse => rfl
  case isTrue =>
    obtain ⟨hparticles, hballs, hboxes⟩ := s.filterMap_movers
    refine makes_congr rfl ?_ ?_ ?_
    · rw [withMovers, List.toList_toArray, Attraction.map_filterMap_attractAll, hparticles]
      rintro (_ | _ | _) _ _ <;> rfl
    · rw [withMovers, List.toList_toArray, Attraction.map_filterMap_attractAll, hballs]
      rintro (_ | _ | _) _ _ <;> rfl
    · rw [withMovers, List.toList_toArray, Attraction.map_filterMap_attractAll, hboxes]
      rintro (_ | _ | _) _ _ <;> rfl

variable {law : ContactLaw α} {a b : Handle}

theorem Contact.makes (h : Contact law s a b t) : t.makes = s.makes := by
  induction h with
  | @particles i j p q p' q' hij hp hq hcontact =>
    obtain ⟨hmake, hmake'⟩ := ContactLaw.make_particles hcontact
    have hq' : (s.particles.setIfInBounds i p')[j]? = some q := by
      rw [Array.getElem?_setIfInBounds_ne hij, hq]
    have hmakes := (map_setIfInBounds hq' hmake').trans (map_setIfInBounds hp hmake)
    exact makes_congr rfl hmakes rfl rfl
  | particleLine hp _ hcontact =>
    exact makes_congr rfl (map_setIfInBounds hp (ContactLaw.make_particleLine hcontact)) rfl rfl
  | ballLine hb _ hcontact =>
    exact makes_congr rfl rfl (map_setIfInBounds hb (ContactLaw.make_ballLine hcontact)) rfl
  | boxLine hb _ hcontact =>
    exact makes_congr rfl rfl rfl (map_setIfInBounds hb (ContactLaw.make_boxLine hcontact))
  | flip _ ih => exact ih

omit [Scalar α] in
theorem getElem?_setIfInBounds_of_ne {σ : Type} {xs : Array σ} {i j : Nat} {x : σ}
    (h : j ≠ i) : (xs.setIfInBounds i x)[j]? = xs[j]? := Array.getElem?_setIfInBounds_ne h.symm

/-- A contact changes the shapes of its pair and no other one. -/
theorem Contact.moverOf (h : Contact law s a b t) {c : Handle} (ha : c ≠ a) (hb : c ≠ b) :
    t.moverOf c = s.moverOf c := by
  induction h with
  | particles =>
    cases c with
    | particle k =>
      have hi := fun heq => ha (congrArg Handle.particle heq)
      have hj := fun heq => hb (congrArg Handle.particle heq)
      rw [Simulator.moverOf, getElem?_setIfInBounds_of_ne hj, getElem?_setIfInBounds_of_ne hi]
      rfl
    | _ => rfl
  | particleLine =>
    cases c with
    | particle k =>
      rw [Simulator.moverOf,
        getElem?_setIfInBounds_of_ne fun heq => ha (congrArg Handle.particle heq)]
      rfl
    | _ => rfl
  | ballLine =>
    cases c with
    | ball k =>
      rw [Simulator.moverOf, getElem?_setIfInBounds_of_ne fun heq => ha (congrArg Handle.ball heq)]
      rfl
    | _ => rfl
  | boxLine =>
    cases c with
    | box k =>
      rw [Simulator.moverOf, getElem?_setIfInBounds_of_ne fun heq => ha (congrArg Handle.box heq)]
      rfl
    | _ => rfl
  | flip _ ih => exact ih hb ha

theorem makes_resolvePair (law : ContactLaw α) (handles : Array Handle)
    (state : Simulator α × Nat) (pair : Pair) :
    (resolvePair law handles state pair).1.makes = state.1.makes := by
  unfold resolvePair
  split
  case h_1 a b _ _ =>
    split
    case h_1 t ht => exact (contact_of_resolve ht).makes
    case h_2 => rfl
  case h_2 => rfl

theorem makes_resolvePairs (law : ContactLaw α) (handles : Array Handle) (pairs : List Pair)
    (s : Simulator α) : (resolvePairs law handles pairs s).1.makes = s.makes := by
  rw [resolvePairs_eq]
  generalize (0 : Nat) = contacts
  induction pairs generalizing s contacts with
  | nil => rfl
  | cons pair pairs ih => exact (ih _ _).trans (makes_resolvePair law handles (s, contacts) pair)

theorem makes_move (s : Simulator α) (dt : α) : (s.move dt).makes = s.makes :=
  (makes_attractAll _ dt).trans (makes_integrateAll s dt)

theorem makes_step (law : ContactLaw α) (dt : α) (s : Simulator α) :
    (step law dt s).makes = s.makes := by
  rw [step_eq, ← makes_move s dt]
  exact makes_resolvePairs ..

theorem makes_afterSteps (s : Simulator α) (seconds : α) (k : Nat) :
    (s.afterSteps seconds k).makes = s.makes := by
  induction k with
  | zero => rfl
  | succ k ih => rw [afterSteps_succ, makes_step, ih]

theorem makes_simulate (s : Simulator α) (seconds : α) : (s.simulate seconds).makes = s.makes :=
  makes_afterSteps s seconds s.steps

end Runs

/-! ## Calls -/

section Calls

/-- The makes of a kind among some, in their order. -/
def ofKind (kind : ShapeKind) (makes : List (Make α)) : List (Make α) :=
  makes.filter fun m => m.kind = kind

/-- Carries out a command. With the new state comes the handle of the shape that was added. -/
def add (s : Simulator α) : Command α → Except (MassError α) (Simulator α × Option Handle)
  | .line start stop none => .ok ((s.addLine start stop).map id fun i => some (.line i))
  | .line start stop (some point) =>
    .ok ((s.addLineFacing start stop point).map id fun i => some (.line i))
  | .particle mass radius pos vel =>
    (s.addParticle mass radius pos vel).map (Prod.map id fun i => some (.particle i))
  | .ball mass radius pos vel angle angVel =>
    (s.addBall mass radius pos vel angle angVel).map (Prod.map id fun i => some (.ball i))
  | .box mass width height pos vel angle angVel =>
    (s.addBox mass width height pos vel angle angVel).map (Prod.map id fun i => some (.box i))
  | .gravity g => .ok ((s.addField (.uniform g)).map id fun _ => none)

theorem run_eq_add (s : Simulator α) (command : Command α) :
    command.run s = (s.add command).map Prod.fst := by
  cases command with
  | line start stop facing => cases facing <;> rfl
  | particle mass radius pos vel =>
    simp only [Command.run, add]
    cases s.addParticle mass radius pos vel <;> rfl
  | ball mass radius pos vel angle angVel =>
    simp only [Command.run, add]
    cases s.addBall mass radius pos vel angle angVel <;> rfl
  | box mass width height pos vel angle angVel =>
    simp only [Command.run, add]
    cases s.addBox mass width height pos vel angle angVel <;> rfl
  | gravity g => rfl

theorem call_add (s : Simulator α) (command : Command α) :
    s.call (.add command) = match s.add command with
      | .ok (t, _) => t
      | .error _ => s := by
  rw [call, Command.runAll, run_eq_add]
  cases s.add command <;> rfl

/-- `t` has a shape of the given make behind those of its kind, under the given handle, and
otherwise the shapes of `s`. -/
structure Appends (s : Simulator α) (m : Make α) (h : Handle) (t : Simulator α) : Prop where
  kind : h.kind = m.kind
  index : h.index = (s.makes m.kind).length
  makes : ∀ kind, t.makes kind = s.makes kind ++ ofKind kind [m]

omit [Scalar α] in
theorem Appends.makeOf {m : Make α} {h : Handle} (happends : s.Appends m h t) :
    s.makeOf h = none ∧ t.makeOf h = some m := by
  have hself : ofKind m.kind [m] = [m] := List.filter_cons_of_pos (by simp)
  rw [Simulator.makeOf, Simulator.makeOf, happends.kind, happends.index, happends.makes, hself]
  exact ⟨by simp, by simp⟩

section Created

variable {σ : Type} {shape : Except (MassError α) σ} {push : σ → Simulator α × Nat}
  {name : Nat → Option Handle}

omit [Scalar α] in
theorem exists_of_add {named : Option Handle}
    (h : (shape >>= fun x => pure (push x)).map (Prod.map id name) = .ok (t, named)) :
    ∃ x, shape = .ok x ∧ (push x).1 = t ∧ name (push x).2 = named := by
  cases shape with
  | error e => cases h
  | ok x =>
    obtain ⟨ht, hname⟩ := Prod.mk.inj (Except.ok.inj h)
    exact ⟨x, rfl, ht, hname⟩

omit [Scalar α] in
theorem add_eq_error {e : MassError α} :
    (shape >>= fun x => pure (push x)).map (Prod.map id name) = .error e ↔ shape = .error e := by
  cases shape with
  | error e =>
    exact ⟨fun h => congrArg _ (Except.error.inj h), fun h => congrArg _ (Except.error.inj h)⟩
  | ok x => exact iff_of_false nofun nofun

theorem create_eq_error {mass : α} {pos vel : Vec α} {build : Body α → σ} {e : MassError α} :
    (Body.create pos vel mass >>= fun body => pure (build body)) = .error e ↔
      isMass mass = false ∧ e = ⟨mass⟩ := by
  unfold Body.create
  cases hmass : isMass mass with
  | true => exact iff_of_false nofun (fun h => nomatch h.1)
  | false => exact ⟨fun h => ⟨rfl, (Except.error.inj h).symm⟩, fun h => by rw [h.2]; rfl⟩

end Created

/-- A command that is carried out adds a field, or a shape as its constructor computes it. -/
theorem makes_add {command : Command α} {named : Option Handle}
    (h : s.add command = .ok (t, named)) :
    (named = none ∧ command.make? = none ∧ t.makes = s.makes) ∨
      ∃ handle m, named = some handle ∧ command.make? = some m ∧ s.Appends m handle t := by
  have hline (line : Line α) :
      s.Appends (.line line) (.line s.lines.size) (s.pushLine line).1 := by
    refine ⟨rfl, by simp [makes, Make.kind, Handle.index], fun kind => ?_⟩
    cases kind <;> simp [makes, pushLine, ofKind, Make.kind]
  cases command with
  | line start stop facing =>
    cases facing with
    | none =>
      obtain ⟨rfl, rfl⟩ := Prod.mk.inj (Except.ok.inj h)
      exact .inr ⟨_, _, rfl, rfl, hline _⟩
    | some point =>
      obtain ⟨rfl, rfl⟩ := Prod.mk.inj (Except.ok.inj h)
      exact .inr ⟨_, _, rfl, rfl, hline _⟩
  | particle mass radius pos vel =>
    obtain ⟨p, hp, rfl, rfl⟩ := exists_of_add h
    refine .inr ⟨_, p.make, rfl, by rw [Command.make?, hp]; rfl, rfl, ?_, fun kind => ?_⟩
    · simp [makes, Particle.make, Make.kind, Handle.index]
    · cases kind <;> simp [makes, ofKind, Particle.make, Make.kind]
  | ball mass radius pos vel angle angVel =>
    obtain ⟨b, hb, rfl, rfl⟩ := exists_of_add h
    refine .inr ⟨_, b.make, rfl, by rw [Command.make?, hb]; rfl, rfl, ?_, fun kind => ?_⟩
    · simp [makes, Ball.make, Make.kind, Handle.index]
    · cases kind <;> simp [makes, ofKind, Ball.make, Make.kind]
  | box mass width height pos vel angle angVel =>
    obtain ⟨b, hb, rfl, rfl⟩ := exists_of_add h
    refine .inr ⟨_, b.make, rfl, by rw [Command.make?, hb]; rfl, rfl, ?_, fun kind => ?_⟩
    · simp [makes, Box.make, Make.kind, Handle.index]
    · cases kind <;> simp [makes, ofKind, Box.make, Make.kind]
  | gravity g =>
    obtain ⟨rfl, rfl⟩ := Prod.mk.inj (Except.ok.inj h)
    exact .inl ⟨rfl, rfl, rfl⟩

/-- A command is refused for the mass that it gives, if that is no mass, and for nothing else. -/
theorem add_eq_error_iff {command : Command α} {e : MassError α} : s.add command = .error e ↔
    ∃ mass, command.mass? = some mass ∧ isMass mass = false ∧ e = ⟨mass⟩ := by
  cases command with
  | line start stop facing => cases facing <;> exact iff_of_false nofun nofun
  | gravity g => exact iff_of_false nofun nofun
  | particle | ball | box =>
    simp only [Command.mass?, Option.some.injEq, exists_eq_left']
    exact add_eq_error.trans create_eq_error

/-- The mass that is refused is the one that the command gives, and no shape comes of it. -/
theorem make?_of_add_eq_error {command : Command α} {e : MassError α}
    (h : s.add command = .error e) : command.make? = none := by
  cases command with
  | line start stop facing => cases facing <;> cases h
  | gravity g => rfl
  | particle | ball | box =>
    have hshape := add_eq_error.mp h
    rw [Command.make?, hshape]
    rfl

theorem makes_call {c : Call α} (hc : c.clears = false) (kind : ShapeKind) :
    (s.call c).makes kind = s.makes kind ++ ofKind kind c.make?.toList := by
  have hkeep (l : List (Make α)) : l = l ++ ofKind kind [] := (List.append_nil l).symm
  cases c with
  | add command =>
    rw [call_add, Call.make?]
    cases hadd : s.add command with
    | error e =>
      rw [make?_of_add_eq_error hadd]
      exact hkeep _
    | ok result =>
      rcases makes_add hadd with ⟨-, hmake, hmakes⟩ | ⟨handle, m, -, hmake, happends⟩
      · rw [hmake, hmakes]
        exact hkeep _
      · rw [hmake]
        exact happends.makes kind
  | addField field => exact hkeep _
  | setField i field => exact hkeep _
  | moveField i pos => exact hkeep _
  | set setting => exact hkeep _
  | clear => cases hc
  | apply scene => cases hc
  | references => exact hkeep _
  | simulate seconds => rw [call, makes_simulate]; exact hkeep _

theorem makes_calls {calls : List (Call α)} (h : ∀ c ∈ calls, c.clears = false)
    (kind : ShapeKind) :
    (calls.foldl call s).makes kind = s.makes kind ++ ofKind kind (calls.filterMap Call.make?) := by
  induction calls generalizing s with
  | nil => exact (List.append_nil _).symm
  | cons c calls ih =>
    rw [List.forall_mem_cons] at h
    rw [List.foldl_cons, ih h.2, makes_call h.1, List.append_assoc, ofKind, ofKind,
      ← List.filter_append]
    cases hmake : c.make? <;> simp [hmake, ofKind]

/-- Until the simulation is cleared, the shapes of each kind are those that were there, in their
order, and behind them those that the calls added, each of the make that its constructor computed.
So a handle that comes with a new shape was free and names that shape after all further calls. A
contact changes the shapes of its pair only, and a shape of no proper mass is refused without a
change of any kind. -/
theorem handles_keep_naming {calls : List (Call α)} (h : ∀ c ∈ calls, c.clears = false) :
    (∀ kind, (calls.foldl call s).makes kind =
      s.makes kind ++ ofKind kind (calls.filterMap Call.make?)) ∧
    (∀ handle m, s.makeOf handle = some m → (calls.foldl call s).makeOf handle = some m) ∧
    (∀ command t handle, s.add command = .ok (t, some handle) →
      t = s.call (.add command) ∧ s.makeOf handle = none ∧ ∃ m, command.make? = some m ∧
        (calls.foldl call t).makeOf handle = some m) ∧
    (∀ law a b t c, s.resolve law a b = some t → c ≠ a → c ≠ b → t.moverOf c = s.moverOf c) ∧
    ∀ command mass, command.mass? = some mass → isMass mass = false →
      s.add command = .error ⟨mass⟩ ∧ s.call (.add command) = s := by
  have hkept {t : Simulator α} {handle : Handle} {m : Make α} (hm : t.makeOf handle = some m) :
      (calls.foldl call t).makeOf handle = some m := by
    rw [makeOf, makes_calls h]
    exact List.getElem?_append_left (List.getElem?_eq_some_iff.mp hm).1 ▸ hm
  refine ⟨makes_calls h, fun _ _ => hkept, fun command t handle hadd => ?_,
    fun law a b t c hresolve => (contact_of_resolve hresolve).moverOf,
    fun command mass hmass hno => ?_⟩
  · have hcall : t = s.call (.add command) := by rw [call_add, hadd]
    rcases makes_add hadd with ⟨hnone, -, -⟩ | ⟨_, m, hnamed, hmake, happends⟩
    · cases hnone
    · obtain rfl := Option.some.inj hnamed
      exact ⟨hcall, happends.makeOf.1, m, hmake, hkept happends.makeOf.2⟩
  · have hrefused : s.add command = .error ⟨mass⟩ :=
      add_eq_error_iff.mpr ⟨mass, hmass, hno, rfl⟩
    exact ⟨hrefused, by rw [call_add, hrefused]⟩

/-- One particle runs into the other, a ball without mass is refused, and a line comes in. -/
theorem handles_keep_naming_chase :
    let s := chase .allPairs
    let ball : Command Float32 := .ball 0 1 0 0 0 0
    let calls : List (Call Float32) :=
      [.simulate 1, .add ball, .set (.subSteps 3), .add (.line 0 ⟨1, 0⟩ none), .simulate 2]
    (∀ c ∈ calls, c.clears = false) ∧
      (calls.foldl call s).makeOf (.particle 1) = some (.particle 1 1 1) ∧
      (calls.foldl call s).makes .line = [.line (.create 0 ⟨1, 0⟩)] ∧
      s.add ball = .error ⟨0⟩ ∧ s.call (.add ball) = s := by
  intro s ball calls
  have hcalls : ∀ c ∈ calls, c.clears = false := by
    simp only [calls, List.forall_mem_cons]
    exact ⟨rfl, rfl, rfl, rfl, rfl, nofun⟩
  obtain ⟨hmakes, hnamed, -, -, hrefused⟩ := handles_keep_naming (s := s) hcalls
  refine ⟨hcalls, hnamed _ _ (by decide +kernel), (hmakes .line).trans (by decide +kernel), ?_⟩
  exact hrefused ball 0 rfl (by decide +kernel)

end Calls

end Simulator

end PlanarDynamics
