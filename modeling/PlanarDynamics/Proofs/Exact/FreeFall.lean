import PlanarDynamics.Proofs.Exact.Attraction
import PlanarDynamics.Proofs.Shape.Spin
import PlanarDynamics.Proofs.Simulator.Bystanders
import PlanarDynamics.Proofs.Simulator.LastRefresh
import PlanarDynamics.Proofs.Simulator.SubSteps

/-!
# Free fall

A step moves every shape with the velocity that it has and only then lets the fields act. Under
uniform fields the velocity is therefore exact after each step, and the position is that of a fall
whose velocity lacks the acceleration of half a step all the way.
-/

namespace PlanarDynamics

/-! ## Uniform fields -/

/-- The field accelerates every shape by `g`. Its point of reference does not matter. -/
def ForceField.IsUniform (field : ForceField Exact) (g : Vec Exact) : Prop :=
  field.law = (uniform g).law

/-- All fields are uniform, and `G` is the sum of their accelerations. -/
def Simulator.InUniformFields (s : Simulator Exact) (G : ℝ × ℝ) : Prop :=
  ∃ gs : List (Vec Exact), List.Forall₂ ForceField.IsUniform s.fields.toList gs ∧
    (gs.map Vec.coords).sum = G

theorem Body.HasMass.congr {a b : Body Exact} (ha : a.HasMass) (hmass : b.mass = a.mass)
    (hinv : b.invMass = a.invMass) : b.HasMass :=
  ⟨hmass ▸ ha.pos, by rw [hinv, hmass, ha.invMass]⟩

/-- Where the body is after the time `t` if it moves along a parabola. -/
noncomputable def Body.parabola (b : Body Exact) (G : ℝ × ℝ) (t : ℝ) : ℝ × ℝ :=
  b.pos.coords + t • b.vel.coords + (0.5 * t ^ 2) • G

namespace Mover

variable {m n : Mover Exact} {G : ℝ × ℝ}

/-- The angular state of a shape that turns. -/
def spin? {α : Type} : Mover α → Option (Spin α)
  | particle _ => none
  | ball b => some b.spin
  | box b => some b.spin

@[simp] theorem body_advance {α : Type} [Scalar α] (m : Mover α) (dt : α) :
    (m.advance dt).body = m.body.drift dt := by
  cases m <;> rfl

@[simp] theorem spin?_advance {α : Type} [Scalar α] (m : Mover α) (dt : α) :
    (m.advance dt).spin? = m.spin?.map (·.drift dt) := by
  cases m <;> rfl

@[simp] theorem spin?_accelerated (m : Mover Exact) (gain : ℝ × ℝ) :
    (m.accelerated gain).spin? = m.spin? := by
  cases m <;> rfl

/-- Uniform fields accelerate a shape of any mass by the sum of their accelerations. -/
theorem foldl_of_isUniform {fields : List (ForceField Exact)} {gs : List (Vec Exact)}
    (h : List.Forall₂ ForceField.IsUniform fields gs) (dt : Exact) (hm : m.body.HasMass) :
    fields.foldl (fun m field => m.applyImpulse (dt • field.force m) m.body.pos) m =
      m.accelerated (dt.val • (gs.map Vec.coords).sum) := by
  induction h generalizing m with
  | nil =>
    rw [List.map_nil, List.sum_nil, smul_zero, accelerated_zero]
    rfl
  | @cons field g fields gs hfield _ ih =>
    have himpulse : (dt • field.force m).coords = m.body.mass.val • dt.val • g.coords := by
      rw [ForceField.force, hfield]
      show (dt • m.body.mass • g).coords = _
      rw [Vec.coords_smul, Vec.coords_smul, smul_comm]
    have hmass : (m.accelerated (dt.val • g.coords)).body.HasMass := by
      rw [body_accelerated]
      exact hm.congr rfl rfl
    rw [List.foldl_cons, applyImpulse_center hm himpulse, ih hmass, accelerated_accelerated,
      ← smul_add, List.map_cons, List.sum_cons]

theorem integrate_of_inUniformFields {s : Simulator Exact} (h : s.InUniformFields G) (dt : Exact)
    (hm : m.body.HasMass) :
    m.integrate s.fields dt = (m.advance dt).accelerated (dt.val • G) := by
  obtain ⟨gs, hfields, rfl⟩ := h
  have hmass : (m.advance dt).body.HasMass := by
    rw [body_advance]
    exact hm.congr rfl rfl
  rw [integrate_eq, foldl_of_isUniform hfields dt hmass]

/-! ## The state after a fall -/

/-- `n` is what becomes of `m` in `k` steps of length `dt` under the acceleration `G`. -/
structure FallsTo (m : Mover Exact) (G : ℝ × ℝ) (dt : ℝ) (k : ℕ) (n : Mover Exact) : Prop where
  mass : n.body.mass = m.body.mass
  invMass : n.body.invMass = m.body.invMass
  vel : n.body.vel.coords = m.body.vel.coords + (k * dt) • G
  pos : n.body.pos.coords = m.body.pos.coords + (k * dt) • m.body.vel.coords +
    (dt ^ 2 * (k * (k - 1) / 2)) • G
  spin : n.spin? = m.spin?.map fun spin =>
    { spin with angle := ⟨spin.angle.val + k * dt * spin.angVel.val⟩ }

namespace FallsTo

theorem start (m : Mover Exact) (G : ℝ × ℝ) (dt : ℝ) : m.FallsTo G dt 0 m where
  mass := rfl
  invMass := rfl
  vel := by simp
  pos := by simp
  spin := by simp

variable {k : ℕ}

/-- One more step: the shape moves, then it is accelerated. -/
theorem step {dt : Exact} (h : m.FallsTo G dt.val k n) :
    m.FallsTo G dt.val (k + 1) ((n.advance dt).accelerated (dt.val • G)) where
  mass := by
    rw [body_accelerated, body_advance]
    exact h.mass
  invMass := by
    rw [body_accelerated, body_advance]
    exact h.invMass
  vel := by
    have hstep : ((n.advance dt).accelerated (dt.val • G)).body.vel.coords =
        n.body.vel.coords + dt.val • G := by
      rw [body_accelerated, body_advance]
      rfl
    rw [hstep, h.vel]
    push_cast
    module
  pos := by
    have hstep : ((n.advance dt).accelerated (dt.val • G)).body.pos.coords =
        n.body.pos.coords + dt.val • n.body.vel.coords := by
      rw [body_accelerated, body_advance, ← Vec.coords_smul, ← Vec.coords_add]
      rfl
    rw [hstep, h.pos, h.vel]
    push_cast
    module
  spin := by
    have hdrift (spin : Spin Exact) :
        Spin.drift { spin with angle := ⟨spin.angle.val + k * dt.val * spin.angVel.val⟩ } dt =
          { spin with angle := ⟨spin.angle.val + (k + 1 : ℕ) * dt.val * spin.angVel.val⟩ } := by
      refine congrArg (Spin.mk spin.inertia spin.invInertia · spin.angVel) (Exact.ext ?_)
      simp only [Exact.val_add, Exact.val_mul]
      push_cast
      ring
    rw [spin?_accelerated, spin?_advance, h.spin, Option.map_map]
    exact congrArg (Option.map · m.spin?) (funext hdrift)

/-- The position is behind the parabola by what the gained velocity covers in half a step. -/
theorem parabola_sub_pos {dt : ℝ} (h : m.FallsTo G dt k n) :
    m.body.parabola G (k * dt) - n.body.pos.coords = (k * dt * dt / 2) • G := by
  rw [Body.parabola, h.pos]
  module

end FallsTo

end Mover

/-! ## Steps without contacts -/

namespace Simulator

section Steps

variable {α : Type} [Scalar α] {law : ContactLaw α} {s t : Simulator α} {dt : α}

omit [Scalar α] in
theorem moverOf_congr (hparticles : t.particles = s.particles) (hballs : t.balls = s.balls)
    (hboxes : t.boxes = s.boxes) : t.moverOf = s.moverOf := by
  funext h
  cases h with
  | line i => rfl
  | particle i => rw [moverOf, hparticles]; rfl
  | ball i => rw [moverOf, hballs]; rfl
  | box i => rw [moverOf, hboxes]; rfl

theorem moverOf_integrateAll (s : Simulator α) (dt : α) (h : Handle) :
    (s.integrateAll dt).moverOf h = (s.moverOf h).map (Mover.integrate s.fields dt) := by
  cases h with
  | line => rfl
  | particle | ball | box =>
    simp only [moverOf, integrateAll, Array.getElem?_map, Option.map_map]
    rfl

/-- The contacts of a step are resolved after all shapes have moved, and counted. -/
theorem exists_contacts_step (law : ContactLaw α) (dt : α) (s : Simulator α) :
    ∃ contacts t, Contacts law (s.move dt) contacts t ∧ (step law dt s).moverOf = t.moverOf ∧
      (step law dt s).stats.contacts = s.stats.contacts + contacts.length := by
  obtain ⟨hcontacts, hcount⟩ := contacts_resolvePairs law (s.move dt).references.shapes
    ((s.move dt).config.strategy.pairs (s.move dt).seen) (s.move dt)
  refine ⟨_, _, hcontacts, moverOf_congr rfl rfl rfl, ?_⟩
  rw [step_eq, settle_eq, stats_resolvePairs, stats_move, hcount]
  rfl

theorem monotone_contacts (s : Simulator α) (seconds : α) :
    Monotone fun j => (s.afterSteps seconds j).stats.contacts := by
  refine monotone_nat_of_le_succ fun j => ?_
  obtain ⟨contacts, t, -, -, hcount⟩ :=
    exists_contacts_step s.law (s.stepTime seconds) (s.afterSteps seconds j)
  rw [afterSteps_succ, hcount]
  exact Nat.le_add_right ..

/-- A step that resolves no contact moves the shapes and does nothing else to them. -/
theorem moverOf_step (hoff : ¬ 0 < s.config.attraction)
    (hcontacts : (step law dt s).stats.contacts = s.stats.contacts) (h : Handle) :
    (step law dt s).moverOf h = (s.moverOf h).map (Mover.integrate s.fields dt) := by
  obtain ⟨contacts, t, hrun, hmovers, hcount⟩ := exists_contacts_step law dt s
  have hnone : contacts = [] :=
    List.length_eq_zero_iff.mp (Nat.add_eq_left.mp (hcount.symm.trans hcontacts))
  rw [hnone] at hrun
  rw [hmovers, hrun.moverOf (List.forall_mem_nil _), move_of_not_attraction hoff,
    moverOf_integrateAll]

/-- A command that is carried out leaves every moving shape as it is, and may add one. -/
theorem moverOf_run {command : Command α} (hrun : command.run s = .ok t) {h : Handle} {m : Mover α}
    (hm : s.moverOf h = some m) : t.moverOf h = some m := by
  have hadd {σ : Type} {shape : Except (MassError α) σ} {add : σ → Simulator α × ℕ}
      (hkeep : ∀ x, (add x).1.moverOf h = some m)
      (hrun : (shape >>= fun x => pure (add x)).map (·.1) = .ok t) : t.moverOf h = some m :=
    of_added (P := fun t => t.moverOf h = some m) hkeep hrun
  have hpush {σ : Type} {xs : Array σ} {wrap : σ → Mover α} {i : ℕ} (x : σ)
      (hi : xs[i]?.map wrap = some m) : (xs.push x)[i]?.map wrap = some m := by
    obtain ⟨y, hy, -⟩ := Option.map_eq_some_iff.mp hi
    rw [Array.getElem?_push, if_neg (Array.getElem?_eq_some_iff.mp hy).1.ne, hi]
  cases command with
  | line start stop facing =>
    cases facing <;> obtain rfl := Except.ok.inj hrun <;> cases h <;> exact hm
  | particle mass radius pos vel =>
    refine hadd (fun p => ?_) hrun
    cases h with
    | particle i => exact hpush p hm
    | _ => exact hm
  | ball mass radius pos vel angle angVel =>
    refine hadd (fun b => ?_) hrun
    cases h with
    | ball i => exact hpush b hm
    | _ => exact hm
  | box mass width height pos vel angle angVel =>
    refine hadd (fun b => ?_) hrun
    cases h with
    | box i => exact hpush b hm
    | _ => exact hm
  | gravity g =>
    obtain rfl := Except.ok.inj hrun
    cases h <;> exact hm

/-- So does every call, unless it clears or runs the simulation. -/
theorem moverOf_call {c : Call α} (hclears : c.clears = false)
    (hruns : ∀ seconds, c ≠ .simulate seconds) {h : Handle} {m : Mover α}
    (hm : s.moverOf h = some m) : (s.call c).moverOf h = some m := by
  cases c with
  | add command =>
    exact runAll_induction (P := fun t => t.moverOf h = some m)
      (fun _ hm hrun => moverOf_run hrun hm) hm [command]
  | addField | setField | moveField | set | references => cases h <;> exact hm
  | clear | apply => cases hclears
  | simulate seconds => exact absurd rfl (hruns seconds)

end Steps

/-! ## Free runs -/

variable {G : ℝ × ℝ} {dt : Exact} {s t : Simulator Exact} {k : ℕ}

/-- From `s` to `t` there are `k` steps of length `dt`. During each all fields are uniform with the
sum `G`, shapes do not attract each other and no contact is resolved. Between steps anything may
happen that leaves the moving shapes alone. -/
inductive FreeRun (G : ℝ × ℝ) (dt : Exact) (s : Simulator Exact) : ℕ → Simulator Exact → Prop
  | start : FreeRun G dt s 0 s
  | step {k : ℕ} {t : Simulator Exact} (law : ContactLaw Exact) : FreeRun G dt s k t →
      t.InUniformFields G → ¬ 0 < t.config.attraction →
      (step law dt t).stats.contacts = t.stats.contacts → FreeRun G dt s (k + 1) (step law dt t)
  | between {k : ℕ} {t u : Simulator Exact} : FreeRun G dt s k t →
      (∀ h m, t.moverOf h = some m → u.moverOf h = some m) → FreeRun G dt s k u

/-- Every shape falls during a free run. -/
theorem FreeRun.fallsTo (hrun : s.FreeRun G dt k t) {h : Handle} {m : Mover Exact}
    (hm : s.moverOf h = some m) (hmass : m.body.HasMass) :
    ∃ n, t.moverOf h = some n ∧ m.FallsTo G dt.val k n := by
  induction hrun with
  | start => exact ⟨m, hm, .start ..⟩
  | step law _ hfields hoff hcontacts ih =>
    obtain ⟨n, hn, hfalls⟩ := ih
    refine ⟨_, ?_, hfalls.step⟩
    rw [moverOf_step hoff hcontacts, hn, Option.map_some,
      Mover.integrate_of_inUniformFields hfields dt (hmass.congr hfalls.mass hfalls.invMass)]
  | between _ hstay ih =>
    obtain ⟨n, hn, hfalls⟩ := ih
    exact ⟨n, hstay h n hn, hfalls⟩

/-- Steps of a run that count no contact go on with a free run. -/
theorem FreeRun.afterSteps {seconds : Exact} {i : ℕ}
    (hrun : s.FreeRun G dt k (t.afterSteps seconds i)) (hfields : t.InUniformFields G)
    (hoff : ¬ 0 < t.config.attraction) (hdt : t.stepTime seconds = dt) {j : ℕ}
    (hcontacts : (t.afterSteps seconds (i + j)).stats.contacts =
      (t.afterSteps seconds i).stats.contacts) :
    s.FreeRun G dt (k + j) (t.afterSteps seconds (i + j)) := by
  induction j with
  | zero => exact hrun
  | succ j ih =>
    have hmono := t.monotone_contacts seconds
    -- Counts do not go down, so none was added before the last of the steps either.
    have hbefore : (t.afterSteps seconds (i + j)).stats.contacts =
        (t.afterSteps seconds i).stats.contacts :=
      ((hmono (i + j).le_succ).trans hcontacts.le).antisymm (hmono (i.le_add_right j))
    have hstep := hcontacts.trans hbefore.symm
    have hkeeps := t.keeps_afterSteps seconds (i + j)
    rw [← Nat.add_assoc i, afterSteps_succ, hdt] at hstep ⊢
    refine (ih hbefore).step t.law ?_ ?_ hstep
    · rw [InUniformFields, hkeeps.fields]
      exact hfields
    · rw [hkeeps.config]
      exact hoff

theorem FreeRun.simulate (hrun : s.FreeRun G dt k t) (hfields : t.InUniformFields G)
    (hoff : ¬ 0 < t.config.attraction) {seconds : Exact} (hdt : t.stepTime seconds = dt)
    (hcontacts : (t.simulate seconds).stats.contacts = 0) :
    s.FreeRun G dt (k + t.steps) (t.simulate seconds) := by
  have hbegin : s.FreeRun G dt k (t.afterSteps seconds 0) :=
    hrun.between fun h m hm => (congrFun (moverOf_congr rfl rfl rfl) h).trans hm
  have hsteps : s.FreeRun G dt (k + t.steps) (t.afterSteps seconds (0 + t.steps)) := by
    refine hbegin.afterSteps hfields hoff hdt ?_
    rw [Nat.zero_add]
    exact hcontacts
  rw [Nat.zero_add] at hsteps
  exact hsteps.between fun h m hm => (congrFun (moverOf_congr rfl rfl rfl) h).trans hm

/-- Under uniform fields with the sum `G` a shape of any mass has fallen after `k` free steps of
length `dt`: its velocity has grown by `k dt G`, it has moved by `k dt` times its first velocity and
`dt² k (k - 1) / 2` times `G`, and it has turned at its angular velocity, which stays. It is
`G (k dt) dt / 2` away from the parabola. The steps may be those of any number of runs, from within
a run or to within one, as long as they count no contact, and other calls may come between runs. -/
theorem free_fall (G : ℝ × ℝ) (dt : Exact) (s : Simulator Exact) :
    (∀ k t, s.FreeRun G dt k t → ∀ h m, s.moverOf h = some m → m.body.HasMass →
      ∃ n, t.moverOf h = some n ∧ m.FallsTo G dt.val k n ∧
        m.body.parabola G (k * dt.val) - n.body.pos.coords = (k * dt.val * dt.val / 2) • G) ∧
    (∀ k t seconds, t.InUniformFields G → ¬ 0 < t.config.attraction → t.stepTime seconds = dt →
      (∀ i j, s.FreeRun G dt k (t.afterSteps seconds i) →
        (t.afterSteps seconds (i + j)).stats.contacts = (t.afterSteps seconds i).stats.contacts →
          s.FreeRun G dt (k + j) (t.afterSteps seconds (i + j))) ∧
      (s.FreeRun G dt k t → (t.simulate seconds).stats.contacts = 0 →
        s.FreeRun G dt (k + t.steps) (t.simulate seconds))) ∧
    ∀ k t, s.FreeRun G dt k t → ∀ c : Call Exact, c.clears = false →
      (∀ seconds, c ≠ .simulate seconds) → s.FreeRun G dt k (t.call c) := by
  refine ⟨fun k t hrun h m hm hmass => ?_, fun k t seconds hfields hoff hdt => ⟨?_, ?_⟩,
    fun k t hrun c hclears hruns => ?_⟩
  · obtain ⟨n, hn, hfalls⟩ := hrun.fallsTo hm hmass
    exact ⟨n, hn, hfalls, hfalls.parabola_sub_pos⟩
  · exact fun i j hrun hcontacts => hrun.afterSteps hfields hoff hdt hcontacts
  · exact fun hrun hcontacts => hrun.simulate hfields hoff hdt hcontacts
  · exact hrun.between fun h m hm => moverOf_call hclears hruns hm

/-! ## A fall over two runs -/

section Sparse

variable {α : Type} [Scalar α] {law : ContactLaw α} {s t : Simulator α}

/-- Where there are no lines and no two particles, nothing can touch. -/
structure IsSparse (s : Simulator α) : Prop where
  lines : s.lines = #[]
  particles : s.particles.size ≤ 1

omit [Scalar α] in
theorem IsSparse.of_keeps (hs : s.IsSparse) (h : s.Keeps t) : t.IsSparse :=
  ⟨h.lines.trans hs.lines, h.particles.trans_le hs.particles⟩

theorem IsSparse.not_contact (hs : s.IsSparse) {a b : Handle} : ¬ Contact law s a b t := by
  have hline {l : ℕ} {line : Line α} : s.lines[l]? ≠ some line := by
    rw [hs.lines]
    exact nofun
  intro h
  induction h with
  | particles hij hp hq _ =>
    have hsize := hs.particles
    have hi := (Array.getElem?_eq_some_iff.mp hp).1
    have hj := (Array.getElem?_eq_some_iff.mp hq).1
    omega
  | particleLine _ h _ => exact hline h
  | ballLine _ h _ => exact hline h
  | boxLine _ h _ => exact hline h
  | flip _ ih => exact ih

theorem IsSparse.contacts_step (hs : s.IsSparse) (law : ContactLaw α) (dt : α) :
    (step law dt s).stats.contacts = s.stats.contacts := by
  obtain ⟨contacts, t, hrun, -, hcount⟩ := exists_contacts_step law dt s
  cases hrun with
  | nil => exact hcount
  | cons hcontact _ => exact absurd hcontact (hs.of_keeps (keeps_move dt s)).not_contact

theorem IsSparse.contacts_afterSteps (hs : s.IsSparse) (seconds : α) (j : ℕ) :
    (s.afterSteps seconds j).stats.contacts = 0 := by
  induction j with
  | zero => rfl
  | succ j ih =>
    have hbegin : s.beginRun.IsSparse := ⟨hs.lines, hs.particles⟩
    rw [afterSteps_succ, (hbegin.of_keeps (s.keeps_afterSteps seconds j)).contacts_step, ih]

end Sparse

/-- A ball that turns as it falls. -/
noncomputable def turningBall : Ball Exact :=
  ⟨⟨⟨0, 100.0⟩, ⟨4.0, 0⟩, 3.0, 1 / 3.0⟩, ⟨1, 1, 0, 2.0⟩, 1, ⟨0, 0, 0, 0⟩⟩

/-- One shape of each kind, in two uniform fields of which one has been moved. -/
noncomputable def falling : Simulator Exact :=
  { create ⟨2, 1, 0, 0, .allPairs, false⟩ with
    particles := #[⟨⟨⟨0, 0⟩, ⟨1, 0⟩, 1, 1 / 1⟩, 1, ⟨0, 0, 0, 0⟩⟩]
    balls := #[turningBall]
    boxes := #[⟨⟨⟨3.0, 0⟩, ⟨0, 0⟩, 9.0, 1 / 9.0⟩, ⟨1, 1, 0, 0⟩, 1, 1, ⟨0, 0, 0, 0⟩, ⟨0, 0, 0, 0⟩⟩]
    fields := #[.uniform ⟨1, 2.0⟩, { ForceField.uniform ⟨0, -10.0⟩ with pos := ⟨7.0, 0⟩ }] }

/-- The ball falls for two steps of one run and three of another. -/
theorem free_fall_falling :
    let t := (falling.simulate 1).call (.set (.subSteps 3))
    falling.FreeRun (1, -8) 0.5 5 (t.simulate 1.5) ∧
      ∃ n, (t.simulate 1.5).moverOf (.ball 0) = some n ∧ n.body.vel.coords = (6.5, -20) ∧
        n.body.pos.coords = (12.5, 80) ∧
          n.spin?.map (fun spin => (spin.angle.val, spin.angVel.val)) = some (5, 2) := by
  intro t
  obtain ⟨hfall, hruns, hcalls⟩ := free_fall (1, -8) 0.5 falling
  have hfields : falling.InUniformFields (1, -8) := by
    refine ⟨[⟨1, 2.0⟩, ⟨0, -10.0⟩], .cons rfl (.cons rfl .nil), ?_⟩
    norm_num [Vec.coords]
  have hoff : ¬ 0 < falling.config.attraction := lt_irrefl (0 : ℝ)
  have hsparse : falling.IsSparse := ⟨rfl, le_refl 1⟩
  have hkeeps := falling.keeps_afterSteps 1 2
  have hconfig : t.config = { falling.config with subSteps := 3 } :=
    congrArg (fun config => Config.setSubSteps config 3) hkeeps.config
  have hfirst : falling.FreeRun (1, -8) 0.5 2 (falling.simulate 1) := by
    have htime : falling.stepTime 1 = 0.5 := by
      apply Exact.ext
      show (1 : ℝ) / (2 : ℕ) = 0.5
      norm_num
    exact (hruns 0 falling 1 hfields hoff htime).2 .start (hsparse.contacts_afterSteps 1 2)
  have hbetween : falling.FreeRun (1, -8) 0.5 2 t := by
    refine hcalls 2 _ hfirst _ rfl fun seconds h => ?_
    cases h
  have hall : falling.FreeRun (1, -8) 0.5 5 (t.simulate 1.5) := by
    have hsteps : t.steps = 3 := by
      show (if t.config.subSteps = 0 then 1 else t.config.subSteps) = 3
      rw [hconfig]
      rfl
    have htime : t.stepTime 1.5 = 0.5 := by
      apply Exact.ext
      show (1.5 : ℝ) / (t.steps : ℕ) = 0.5
      norm_num [hsteps]
    have hfields' : t.InUniformFields (1, -8) := by
      rw [InUniformFields, show t.fields = falling.fields from hkeeps.fields]
      exact hfields
    have hsparse' : t.IsSparse := ⟨hkeeps.lines, hkeeps.particles.le⟩
    have hoff' : ¬ 0 < t.config.attraction := by rwa [hconfig]
    have hrun := (hruns 2 t 1.5 hfields' hoff' htime).2 hbetween
      (hsparse'.contacts_afterSteps 1.5 t.steps)
    rwa [hsteps] at hrun
  have hmass : turningBall.body.HasMass := ⟨by norm_num [turningBall], rfl⟩
  obtain ⟨n, hn, hfalls, -⟩ := hfall 5 _ hall (.ball 0) (.ball turningBall) rfl hmass
  refine ⟨hall, n, hn, ?_, ?_, ?_⟩
  · rw [hfalls.vel]
    norm_num [Mover.body, turningBall, Vec.coords]
  · rw [hfalls.pos]
    norm_num [Mover.body, turningBall, Vec.coords]
  · rw [hfalls.spin]
    norm_num [Mover.spin?, turningBall]

end Simulator

end PlanarDynamics
