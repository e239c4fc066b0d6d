import PlanarDynamics.Proofs.Candidates.SortedSweep
import PlanarDynamics.Proofs.Simulator.Meetings

/-!
# Balls and boxes are bystanders

Without mutual attraction a particle is moved by fields, lines and other particles. Balls and boxes
stand between them in the references and take part in the search for pairs, but the sorting is
stable and the search lists its pairs in order, so that the contacts of particles come in the order
that they would without them.
-/

namespace PlanarDynamics

/-- The handle of a ball or a box. -/
def Handle.isRigid : Handle → Bool
  | ball _ => true
  | box _ => true
  | _ => false

namespace Simulator

variable {α : Type} {s t : Simulator α} {l : List Handle}

/-- The same lines and particles. -/
structure Alike (s t : Simulator α) : Prop where
  lines : t.lines = s.lines
  particles : t.particles = s.particles

theorem Alike.symm (h : s.Alike t) : t.Alike s := ⟨h.lines.symm, h.particles.symm⟩

theorem Alike.trans {u : Simulator α} (h : s.Alike t) (h' : t.Alike u) : s.Alike u :=
  ⟨h'.lines.trans h.lines, h'.particles.trans h.particles⟩

theorem Alike.aabbOf (h : s.Alike t) {a : Handle} (ha : a.isRigid = false) :
    t.aabbOf a = s.aabbOf a := by
  cases a with
  | line i => rw [Simulator.aabbOf, h.lines]; rfl
  | particle i => rw [Simulator.aabbOf, h.particles]; rfl
  | ball i => cases ha
  | box i => cases ha

/-- The handles of lines and particles. -/
def plain (l : List Handle) : List Handle := l.filter fun a => !a.isRigid

theorem plain_cons_of_rigid {a : Handle} (ha : a.isRigid = true) : plain (a :: l) = plain l :=
  List.filter_cons_of_neg (by simp [ha])

theorem plain_cons {a : Handle} (ha : a.isRigid = false) : plain (a :: l) = a :: plain l :=
  List.filter_cons_of_pos (by simp [ha])

/-- Neither handle of a pair is that of a ball or a box. -/
def bothPlain (pair : Handle × Handle) : Bool := !pair.1.isRigid && !pair.2.isRigid

variable [Scalar α]

/-! ## Contacts -/

section Contacts

variable {law : ContactLaw α} {a b : Handle}

/-- The contact of two lines or particles is decided by lines and particles. -/
theorem Alike.resolve (h : s.Alike t) (ha : a.isRigid = false) (hb : b.isRigid = false) :
    t.resolve law a b =
      (s.resolve law a b).map fun u => { t with particles := u.particles } := by
  have hparticles (i j : Nat) : t.resolveParticles law i j =
      (s.resolveParticles law i j).map fun u => { t with particles := u.particles } := by
    unfold resolveParticles
    split
    · rfl
    · simp only [Option.bind_eq_bind, Option.map_bind, Function.comp_def, h.particles]
      rfl
  have hline (i j : Nat) : t.resolveParticleLine law i j =
      (s.resolveParticleLine law i j).map fun u => { t with particles := u.particles } := by
    simp only [resolveParticleLine, Option.bind_eq_bind, Option.map_bind, Function.comp_def,
      h.particles, h.lines]
    rfl
  cases a with
  | line i =>
    cases b with
    | line j => rfl
    | particle j => exact hline j i
    | ball j => cases hb
    | box j => cases hb
  | particle i =>
    cases b with
    | line j => exact hline i j
    | particle j => exact hparticles i j
    | ball j => cases hb
    | box j => cases hb
  | ball i => cases ha
  | box i => cases ha

theorem Alike.meet (h : s.Alike t) {pair : Handle × Handle} (hplain : bothPlain pair = true) :
    (s.meet law pair).Alike (t.meet law pair) := by
  rw [bothPlain, Bool.and_eq_true, Bool.not_eq_true', Bool.not_eq_true'] at hplain
  rw [Simulator.meet, Simulator.meet, h.resolve hplain.1 hplain.2]
  cases hresolve : s.resolve law pair.1 pair.2 with
  | none => exact h
  | some u => exact ⟨h.lines.trans (keeps_resolve hresolve).lines.symm, rfl⟩

/-- The contact of a ball or a box moves no particle. -/
theorem particles_resolve_of_rigid {u : Simulator α} (hrigid : a.isRigid = true ∨ b.isRigid = true)
    (h : s.resolve law a b = some u) : u.particles = s.particles := by
  have hball {i j : Nat} (h : s.resolveBallLine law i j = some u) :
      u.particles = s.particles := by
    simp only [resolveBallLine, Option.bind_eq_bind, Option.bind_eq_some_iff] at h
    obtain ⟨_, -, _, -, _, -, h⟩ := h
    obtain rfl := Option.some.inj h
    rfl
  have hbox {i j : Nat} (h : s.resolveBoxLine law i j = some u) : u.particles = s.particles := by
    simp only [resolveBoxLine, Option.bind_eq_bind, Option.bind_eq_some_iff] at h
    obtain ⟨_, -, _, -, _, -, h⟩ := h
    obtain rfl := Option.some.inj h
    rfl
  unfold Simulator.resolve at h
  split at h
  case h_1 | h_2 | h_3 => rcases hrigid with hrigid | hrigid <;> cases hrigid
  case h_4 | h_5 => exact hball h
  case h_6 | h_7 => exact hbox h
  case h_8 => cases h

theorem alike_meet_of_rigid (s : Simulator α) {pair : Handle × Handle}
    (hrigid : bothPlain pair = false) : s.Alike (s.meet law pair) := by
  rw [Simulator.meet]
  cases hresolve : s.resolve law pair.1 pair.2 with
  | none => exact ⟨rfl, rfl⟩
  | some u =>
    refine ⟨(keeps_resolve hresolve).lines, particles_resolve_of_rigid ?_ hresolve⟩
    rw [bothPlain, Bool.and_eq_false_iff, Bool.not_eq_false', Bool.not_eq_false'] at hrigid
    exact hrigid

/-- Contacts that happen on one side only are those of balls and boxes. -/
theorem Alike.foldl_meet (h : s.Alike t) (law : ContactLaw α) (pairs : List (Handle × Handle)) :
    (pairs.foldl (Simulator.meet law) s).Alike
      ((pairs.filter bothPlain).foldl (Simulator.meet law) t) := by
  induction pairs generalizing s t with
  | nil => exact h
  | cons pair pairs ih =>
    cases hplain : bothPlain pair with
    | true =>
      rw [List.filter_cons_of_pos hplain]
      exact ih (h.meet hplain)
    | false =>
      rw [List.filter_cons_of_neg (by simp [hplain])]
      exact ih ((s.alike_meet_of_rigid hplain).symm.trans h)

end Contacts

/-! ## Pairs -/

/-- Leaving out the handles of balls and boxes leaves out their pairs and no others. -/
theorem filter_bothPlain_meetings (s : Simulator α) (l : List Handle) :
    (s.meetings l).filter bothPlain = s.meetings (plain l) := by
  induction l with
  | nil => rfl
  | cons a l ih =>
    rw [meetings, List.filter_append, ih, List.filter_map]
    cases ha : a.isRigid with
    | true =>
      rw [plain_cons_of_rigid ha, List.filter_eq_nil_iff.mpr, List.map_nil, List.nil_append]
      intro b _
      simp [bothPlain, ha]
    | false =>
      have hpick : (l.filter (s.mayMeet a)).filter (bothPlain ∘ fun b => (a, b)) =
          (plain l).filter (s.mayMeet a) := by
        rw [plain, List.filter_comm]
        congr 1
        apply List.filter_congr
        intro b _
        simp [bothPlain, ha]
      rw [plain_cons ha, meetings, hpick]

theorem Alike.meetings (h : s.Alike t) (hl : ∀ a ∈ l, a.isRigid = false) :
    t.meetings l = s.meetings l := by
  induction l with
  | nil => rfl
  | cons a l ih =>
    rw [List.forall_mem_cons] at hl
    have hmeet : ∀ b ∈ l, t.mayMeet a b = s.mayMeet a b := fun b hb => by
      rw [mayMeet, mayMeet, proxyOf, proxyOf, proxyOf, proxyOf, h.aabbOf hl.1, h.aabbOf (hl.2 b hb)]
    rw [Simulator.meetings, Simulator.meetings, ih hl.2, List.filter_congr hmeet]

/-! ## References -/

section References

theorem filter_sortByLeft (picked : Handle × α → Bool) (edges : List (Handle × α)) :
    (sortByLeft edges).filter picked = sortByLeft (edges.filter picked) :=
  filter_mergeSort edgeOrder picked edges

omit [Scalar α] in
theorem filter_map_plain {β : Type} {f : β → Handle × α} {xs : List β}
    (h : ∀ x, (f x).1.isRigid = false) :
    (xs.map f).filter (fun edge => !edge.1.isRigid) = xs.map f := by
  simp [h]

omit [Scalar α] in
theorem filter_map_rigid {β : Type} {f : β → Handle × α} {xs : List β}
    (h : ∀ x, (f x).1.isRigid = true) :
    (xs.map f).filter (fun edge => !edge.1.isRigid) = [] := by
  simp [h]

omit [Scalar α] in
theorem Alike.filter_movingEdges (h : s.Alike t) (hballs : t.balls = #[]) (hboxes : t.boxes = #[]) :
    s.movingEdges.filter (fun edge => !edge.1.isRigid) = t.movingEdges := by
  rw [movingEdges, List.filter_append, List.filter_append, filter_map_plain, filter_map_rigid,
    filter_map_rigid, movingEdges, h.particles, hballs, hboxes]
  · rfl
  · exact fun _ => rfl
  · exact fun _ => rfl
  · exact fun _ => rfl

/-- The references of the one are those of the other without balls and boxes. -/
theorem Alike.sortReferences (h : s.Alike t) (hballs : t.balls = #[]) (hboxes : t.boxes = #[]) :
    t.sortReferences.shapes.toList = plain s.sortReferences.shapes.toList := by
  have hlines : s.lineEdges.filter (fun edge => !edge.1.isRigid) = t.lineEdges := by
    rw [lineEdges, filter_map_plain, lineEdges, h.lines]
    exact fun _ => rfl
  calc t.sortReferences.shapes.toList
      = (sortByLeft (sortByLeft t.movingEdges ++ t.lineEdges)).map Prod.fst := rfl
    _ = ((sortByLeft (sortByLeft s.movingEdges ++ s.lineEdges)).filter
          fun edge => !edge.1.isRigid).map Prod.fst := by
      rw [filter_sortByLeft, List.filter_append, filter_sortByLeft,
        h.filter_movingEdges hballs hboxes, hlines]
    _ = plain s.sortReferences.shapes.toList :=
      (List.filter_map (p := fun a : Handle => !a.isRigid) ..).symm

end References

/-! ## Runs -/

/-- `t` is `s` without balls and boxes. Shapes do not attract each other, and the search for pairs
is the plain one or the sweep. -/
structure Beside (s t : Simulator α) : Prop extends Alike s t where
  config : t.config = s.config
  fields : t.fields = s.fields
  balls : t.balls = #[]
  boxes : t.boxes = #[]
  attraction : ¬ 0 < s.config.attraction
  strategy : s.config.strategy = .allPairs ∨ s.config.strategy = .sortedSweep

/-- The references of `t` are those of `s` without balls and boxes. -/
def RefersBeside (s t : Simulator α) : Prop :=
  t.references.shapes.toList = plain s.references.shapes.toList

/-- The left edges that the search for pairs is given are numbers. -/
def SeesLeft (s : Simulator α) : Prop := ∀ p ∈ s.seen, IsKey p.aabb.left

theorem move_of_not_attraction (hoff : ¬ 0 < s.config.attraction) (dt : α) :
    s.move dt = s.integrateAll dt := if_neg hoff

theorem Beside.move (h : s.Beside t) (dt : α) : (s.move dt).Beside (t.move dt) := by
  have hoff : ¬ 0 < t.config.attraction := by
    rw [h.config]
    exact h.attraction
  rw [move_of_not_attraction h.attraction, move_of_not_attraction hoff]
  refine ⟨⟨h.lines, ?_⟩, h.config, h.fields, ?_, ?_, h.attraction, h.strategy⟩
  · rw [integrateAll, integrateAll, h.particles, h.fields]
  · simp [integrateAll, h.balls]
  · simp [integrateAll, h.boxes]

theorem Beside.keeps {u v : Simulator α} (h : s.Beside t) (hu : s.Keeps u) (hv : t.Keeps v)
    (halike : u.Alike v) : u.Beside v where
  toAlike := halike
  config := by rw [hu.config, hv.config, h.config]
  fields := by rw [hu.fields, hv.fields, h.fields]
  balls := Array.eq_empty_of_size_eq_zero (by rw [hv.balls, h.balls]; rfl)
  boxes := Array.eq_empty_of_size_eq_zero (by rw [hv.boxes, h.boxes]; rfl)
  attraction := by rw [hu.config]; exact h.attraction
  strategy := by rw [hu.config]; exact h.strategy

theorem mem_seen {p : Proxy α} :
    p ∈ s.seen ↔ ∃ a ∈ s.references.shapes, s.proxyOf a = some p := Array.mem_filterMap

theorem isRigid_of_mem_plain {a : Handle} (h : a ∈ plain l) : a.isRigid = false := by
  simpa using (List.mem_filter.mp h).2

theorem Beside.seesLeft (h : s.Beside t) (hrefs : s.RefersBeside t) (hleft : s.SeesLeft) :
    t.SeesLeft := by
  intro p hp
  obtain ⟨a, ha, hproxy⟩ := mem_seen.mp hp
  rw [← Array.mem_toList_iff, hrefs] at ha
  rw [proxyOf, h.aabbOf (isRigid_of_mem_plain ha)] at hproxy
  exact hleft p (mem_seen.mpr ⟨a, Array.mem_toList_iff.mp (List.mem_filter.mp ha).1, hproxy⟩)

variable [LawfulScalar α]

theorem pairs_eq_allPairs
    (h : s.config.strategy = .allPairs ∨ s.config.strategy = .sortedSweep) (hleft : s.SeesLeft) :
    s.config.strategy.pairs s.seen = Candidates.allPairs s.seen := by
  rcases h with h | h
  · rw [h]
    rfl
  · rw [h]
    exact Candidates.sortedSweep_eq hleft

/-- Balls and boxes make no difference to the contacts of lines and particles. -/
theorem Beside.settle (h : s.Beside t) (hrefs : s.RefersBeside t) (hs : s.SeesShapes)
    (ht : t.SeesShapes) (hleft : s.SeesLeft) (law : ContactLaw α) :
    (s.settle law (s.config.strategy.pairs s.seen)).Beside
      (t.settle law (t.config.strategy.pairs t.seen)) := by
  have hstrategy : t.config.strategy = .allPairs ∨ t.config.strategy = .sortedSweep := by
    rw [h.config]
    exact h.strategy
  rw [pairs_eq_allPairs h.strategy hleft, pairs_eq_allPairs hstrategy (h.seesLeft hrefs hleft)]
  refine h.keeps (keeps_settle ..) (keeps_settle ..) ?_
  have hpairs : t.meetings t.references.shapes.toList =
      (s.meetings s.references.shapes.toList).filter bothPlain := by
    rw [filter_bothPlain_meetings, hrefs]
    exact h.meetings fun a ha => isRigid_of_mem_plain ha
  have hmeet := h.toAlike.foldl_meet law (s.meetings s.references.shapes.toList)
  rw [← hpairs, ← fst_resolvePairs_allPairs law hs, ← fst_resolvePairs_allPairs law ht] at hmeet
  exact ⟨hmeet.lines, hmeet.particles⟩

/-- What a step needs of the states in which it looks for pairs. -/
theorem Beside.step (h : s.Beside t) {law : ContactLaw α} {dt : α}
    (hrefs : (s.move dt).RefersBeside (t.move dt)) (hs : (s.move dt).SeesShapes)
    (ht : (t.move dt).SeesShapes) (hleft : (s.move dt).SeesLeft) :
    (step law dt s).Beside (step law dt t) := by
  rw [step_eq, step_eq]
  exact (h.move dt).settle hrefs hs ht hleft law

/-- `t` is `s` without balls and boxes, and the references of the one are those of the other without
them. -/
structure Bystanders (s t : Simulator α) : Prop extends Beside s t where
  references : s.RefersBeside t

omit [LawfulScalar α] in
theorem Beside.beginRun (h : s.Beside t) : s.beginRun.Beside t.beginRun := by
  refine ⟨⟨h.lines, h.particles⟩, ?_, h.fields, h.balls, h.boxes, h.attraction, h.strategy⟩
  rw [Simulator.beginRun, Simulator.beginRun, keepReferences, keepReferences, h.config]

theorem Bystanders.afterSteps (h : s.Bystanders t) (hs : s.Reachable) (ht : t.Reachable)
    {seconds : α} {k : Nat} (hleft : ∀ j < k, (s.beforeSearch seconds j).SeesLeft) :
    (s.afterSteps seconds k).Beside (t.afterSteps seconds k) := by
  have hsteps : t.steps = s.steps := congrArg Config.subSteps h.beginRun.config
  have hlaw : t.law = s.law := by rw [Simulator.law, Simulator.law, h.config]
  have htime : t.stepTime seconds = s.stepTime seconds := by rw [stepTime, stepTime, hsteps]
  induction k with
  | zero => exact h.beginRun
  | succ k ih =>
    have hprevious := ih fun j hj => hleft j (Nat.lt_succ_of_lt hj)
    have ht_search := seesShapes (ht.names_search seconds k)
    rw [beforeSearch, htime] at ht_search
    rw [afterSteps_succ, afterSteps_succ, hlaw, htime]
    refine hprevious.step ?_ (seesShapes (hs.names_search seconds k)) ht_search
      (hleft k (Nat.lt_succ_self k))
    have hkept := h.references
    rw [RefersBeside, ← references_beforeSearch s seconds k,
      ← references_beforeSearch t seconds k, beforeSearch, beforeSearch, htime] at hkept
    exact hkept

/-- Balls and boxes make no difference to lines and particles in a run. -/
theorem Bystanders.simulate (h : s.Bystanders t) (hs : s.Reachable) (ht : t.Reachable)
    {seconds : α} (hleft : ∀ k < s.steps, (s.beforeSearch seconds k).SeesLeft) :
    (s.simulate seconds).Bystanders (t.simulate seconds) := by
  have hsteps : t.steps = s.steps := congrArg Config.subSteps h.beginRun.config
  have hrun := h.afterSteps hs ht hleft
  refine ⟨?_, ?_⟩
  · rw [simulate_eq, simulate_eq, hsteps]
    exact ⟨⟨hrun.lines, hrun.particles⟩, hrun.config, hrun.fields, hrun.balls, hrun.boxes,
      hrun.attraction, hrun.strategy⟩
  · rw [RefersBeside, Simulator.references, Simulator.references, refs_simulate, refs_simulate]
    exact h.references

omit [LawfulScalar α] in
theorem Bystanders.moveField (h : s.Bystanders t) (i : Nat) (pos : Vec α) :
    (s.moveField i pos).Bystanders (t.moveField i pos) where
  lines := h.lines
  particles := h.particles
  config := h.config
  fields := by rw [Simulator.moveField, Simulator.moveField, h.fields]
  balls := h.balls
  boxes := h.boxes
  attraction := h.attraction
  strategy := h.strategy
  references := h.references

/-! ## Populating -/

omit [LawfulScalar α]

/-- A call that adds a line, a particle or a field. -/
inductive AddsPlain : Call α → Prop
  | line (start stop : Vec α) (facing : Option (Vec α)) : AddsPlain (.add (.line start stop facing))
  | particle (mass radius : α) (pos vel : Vec α) : AddsPlain (.add (.particle mass radius pos vel))
  | field (field : ForceField α) : AddsPlain (.addField field)

/-- A call that adds a ball or a box. -/
inductive AddsRigid : Call α → Prop
  | ball (mass radius : α) (pos vel : Vec α) (angle angVel : α) :
    AddsRigid (.add (.ball mass radius pos vel angle angVel))
  | box (mass width height : α) (pos vel : Vec α) (angle angVel : α) :
    AddsRigid (.add (.box mass width height pos vel angle angVel))

/-- The references are those that sorting anew would give. -/
def IsSorted (s : Simulator α) : Prop := s.references = s.sortReferences

theorem isSorted_create (config : Config α) : (create config).IsSorted := by
  simp [IsSorted, references, create, sortReferences, movingEdges, lineEdges, sortByLeft]

theorem IsSorted.add (h : s.IsSorted) (command : Command α) :
    (s.call (.add command)).IsSorted := by
  rw [Simulator.call, Command.runAll]
  cases hrun : command.run s with
  | error e => exact h
  | ok t =>
    obtain hnone | ⟨fields, rfl⟩ := refs_run hrun
    · have hsorted : t.references = t.sortReferences := by rw [references, hnone, Option.getD_none]
      exact hsorted
    · exact h

theorem AddsPlain.isSorted {c : Call α} (hc : AddsPlain c) (h : s.IsSorted) :
    (s.call c).IsSorted := by
  cases hc with
  | line | particle => exact h.add _
  | field => exact h

theorem AddsRigid.isSorted {c : Call α} (hc : AddsRigid c) (h : s.IsSorted) :
    (s.call c).IsSorted := by
  cases hc <;> exact h.add _

theorem AddsPlain.beside {c : Call α} (hc : AddsPlain c) (h : s.Beside t) :
    (s.call c).Beside (t.call c) := by
  cases hc with
  | line start stop facing =>
    cases facing with
    | none =>
      exact ⟨⟨congrArg (·.push (.create start stop)) h.lines, h.particles⟩, h.config, h.fields,
        h.balls, h.boxes, h.attraction, h.strategy⟩
    | some point =>
      exact ⟨⟨congrArg (·.push (.facing start stop point)) h.lines, h.particles⟩, h.config,
        h.fields, h.balls, h.boxes, h.attraction, h.strategy⟩
  | particle mass radius pos vel =>
    simp only [call, Command.runAll, Command.run, addParticle]
    cases Particle.create pos vel mass radius with
    | error e => exact h
    | ok p =>
      exact ⟨⟨h.lines, congrArg (·.push p) h.particles⟩, h.config, h.fields, h.balls, h.boxes,
        h.attraction, h.strategy⟩
  | field f =>
    exact ⟨⟨h.lines, h.particles⟩, h.config, congrArg (·.push f) h.fields, h.balls, h.boxes,
      h.attraction, h.strategy⟩

/-- Balls and boxes may be added to the one at any time. -/
theorem Beside.of_eq {u : Simulator α} (h : s.Beside t) (hlines : u.lines = s.lines)
    (hparticles : u.particles = s.particles) (hconfig : u.config = s.config)
    (hfields : u.fields = s.fields) : u.Beside t where
  lines := h.lines.trans hlines.symm
  particles := h.particles.trans hparticles.symm
  config := h.config.trans hconfig.symm
  fields := h.fields.trans hfields.symm
  balls := h.balls
  boxes := h.boxes
  attraction := by rw [hconfig]; exact h.attraction
  strategy := by rw [hconfig]; exact h.strategy

theorem AddsRigid.beside {c : Call α} (hc : AddsRigid c) (h : s.Beside t) :
    (s.call c).Beside t := by
  cases hc with
  | ball mass radius pos vel angle angVel =>
    simp only [call, Command.runAll, Command.run, addBall]
    cases Ball.create pos vel mass radius angle angVel with
    | error e => exact h
    | ok b => exact h.of_eq rfl rfl rfl rfl
  | box mass width height pos vel angle angVel =>
    simp only [call, Command.runAll, Command.run, addBox]
    cases Box.create pos vel mass width height angle angVel with
    | error e => exact h
    | ok b => exact h.of_eq rfl rfl rfl rfl

/-- Two simulations with the same settings, without attraction and with the plain search or the
sweep, that are given the same lines, particles and fields, and one of them balls and boxes at any
time in between. -/
inductive Populated : Simulator α → Simulator α → Prop
  | create (config : Config α) (attraction : ¬ 0 < config.attraction)
    (strategy : config.strategy = .allPairs ∨ config.strategy = .sortedSweep) :
      Populated (.create config) (.create config)
  | both {s t : Simulator α} {c : Call α} : Populated s t → AddsPlain c →
      Populated (s.call c) (t.call c)
  | one {s t : Simulator α} {c : Call α} : Populated s t → AddsRigid c → Populated (s.call c) t

theorem Populated.reachable (h : Populated s t) : s.Reachable ∧ t.Reachable := by
  induction h with
  | create config => exact ⟨.create config, .create config⟩
  | both _ _ ih => exact ⟨ih.1.call _, ih.2.call _⟩
  | one _ _ ih => exact ⟨ih.1.call _, ih.2⟩

theorem Populated.bystanders (h : Populated s t) : s.Bystanders t := by
  have hsorted : s.Beside t ∧ s.IsSorted ∧ t.IsSorted := by
    induction h with
    | create config hattraction hstrategy =>
      exact ⟨⟨⟨rfl, rfl⟩, rfl, rfl, rfl, rfl, hattraction, hstrategy⟩, isSorted_create config,
        isSorted_create config⟩
    | both _ hc ih => exact ⟨hc.beside ih.1, hc.isSorted ih.2.1, hc.isSorted ih.2.2⟩
    | one _ hc ih => exact ⟨hc.beside ih.1, hc.isSorted ih.2.1, ih.2.2⟩
  obtain ⟨hbeside, hs, ht⟩ := hsorted
  refine ⟨hbeside, ?_⟩
  rw [RefersBeside, hs, ht]
  exact hbeside.sortReferences hbeside.balls hbeside.boxes

/-! ## Simulations alongside each other -/

section Alongside

variable {s t : Simulator Float32}

/-- No left edge of a shape is `NaN` when a run looks for pairs. -/
def KeepsLeftEdges (s : Simulator Float32) (seconds : Float32) : Prop :=
  ∀ k < s.steps, ∀ p ∈ (s.beforeSearch seconds k).seen, p.aabb.left.isNaN = false

/-- Simulations that were populated in the same way, up to balls and boxes of the first one, and
then are run for the same times and have the same fields moved. -/
inductive Alongside : Simulator Float32 → Simulator Float32 → Prop
  | populated {s t : Simulator Float32} : Populated s t → Alongside s t
  | moveField {s t : Simulator Float32} (i : Nat) (pos : Vec Float32) : Alongside s t →
      Alongside (s.call (.moveField i pos)) (t.call (.moveField i pos))
  | simulate {s t : Simulator Float32} (seconds : Float32) : Alongside s t →
      s.KeepsLeftEdges seconds → Alongside (s.call (.simulate seconds)) (t.call (.simulate seconds))

theorem Alongside.reachable (h : Alongside s t) : s.Reachable ∧ t.Reachable := by
  induction h with
  | populated h => exact h.reachable
  | moveField i pos _ ih => exact ⟨ih.1.call _, ih.2.call _⟩
  | simulate seconds _ _ ih => exact ⟨ih.1.call _, ih.2.call _⟩

theorem Alongside.bystanders (h : Alongside s t) : s.Bystanders t := by
  induction h with
  | populated h => exact h.bystanders
  | moveField i pos _ ih => exact ih.moveField i pos
  | simulate seconds h hleft ih =>
    exact ih.simulate h.reachable.1 h.reachable.2 fun k hk p hp =>
      Binary32.isKey_iff.mpr (hleft k hk p hp)

/-- Balls and boxes never influence lines and particles. -/
theorem Alongside.lines_and_particles (h : Alongside s t) :
    t.lines = s.lines ∧ t.particles = s.particles :=
  ⟨h.bystanders.lines, h.bystanders.particles⟩

theorem forall_seen {P : Aabb Float32 → Prop} (hlines : ∀ x ∈ s.lines, P x.aabb)
    (hparticles : ∀ x ∈ s.particles, P x.aabb) (hballs : ∀ x ∈ s.balls, P x.aabb)
    (hboxes : ∀ x ∈ s.boxes, P x.aabb) : ∀ p ∈ s.seen, P p.aabb := by
  intro p hp
  obtain ⟨a, -, hproxy⟩ := mem_seen.mp hp
  obtain ⟨aabb, haabb, rfl⟩ := Option.map_eq_some_iff.mp hproxy
  cases a with
  | line i =>
    obtain ⟨x, hx, rfl⟩ := Option.map_eq_some_iff.mp haabb
    exact hlines x (Array.mem_of_getElem? hx)
  | particle i =>
    obtain ⟨x, hx, rfl⟩ := Option.map_eq_some_iff.mp haabb
    exact hparticles x (Array.mem_of_getElem? hx)
  | ball i =>
    obtain ⟨x, hx, rfl⟩ := Option.map_eq_some_iff.mp haabb
    exact hballs x (Array.mem_of_getElem? hx)
  | box i =>
    obtain ⟨x, hx, rfl⟩ := Option.map_eq_some_iff.mp haabb
    exact hboxes x (Array.mem_of_getElem? hx)

/-- A ball stands between a particle and the one that it runs into. -/
theorem Alongside.lines_and_particles_ball :
    let config : Config Float32 := ⟨1, 1, 0, 0, .sortedSweep, false⟩
    let s := (((create config).call (.add (.ball 1 1 ⟨4, 0⟩ 0 0 0))).call
      (.add (.particle 1 1 ⟨0, 0⟩ ⟨10, 0⟩))).call (.add (.particle 1 1 ⟨8, 0⟩ ⟨0, 0⟩))
    let t := chase .sortedSweep
    s.balls.size = 1 ∧ Alongside (s.call (.simulate 1)) (t.call (.simulate 1)) ∧
      (t.call (.simulate 1)).particles = (s.call (.simulate 1)).particles := by
  intro config s t
  have hpopulated : Populated s t :=
    (((Populated.create config (by decide +kernel) (.inr rfl)).one (.ball ..)).both
      (.particle ..)).both (.particle ..)
  have hleft : s.KeepsLeftEdges 1 := by
    intro k hk
    obtain rfl : k = 0 := Nat.lt_one_iff.mp hk
    apply forall_seen (P := fun aabb => aabb.left.isNaN = false) <;> decide +kernel
  have hrun := (Alongside.populated hpopulated).simulate 1 hleft
  exact ⟨by decide +kernel, hrun, hrun.lines_and_particles.2⟩

end Alongside

end Simulator

end PlanarDynamics
