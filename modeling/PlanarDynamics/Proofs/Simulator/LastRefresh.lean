import PlanarDynamics.Proofs.Shape.Bounds
import PlanarDynamics.Proofs.Simulator.Refreshed

/-!
# Bounds after a run

Bounds are refreshed when a shape moves, before the search for pairs, and by nothing else. The
contacts that are resolved after the search may put shapes elsewhere, and their bounds stay behind.
So what a run leaves are the bounds of the positions at which its last search found the shapes.
-/

namespace PlanarDynamics

/-! ## Discs -/

/-- A particle or a ball as a circle, and its bounds as of the last refresh. -/
structure Disc (α : Type) where
  pos : Vec α
  radius : α
  aabb : Aabb α
  deriving DecidableEq

section

variable {α : Type}

/-- The circle of a particle. -/
def Particle.disc (p : Particle α) : Disc α := ⟨p.body.pos, p.radius, p.aabb⟩

/-- The circle of a ball. -/
def Ball.disc (b : Ball α) : Disc α := ⟨b.body.pos, b.radius, b.aabb⟩

/-- The circle of a shape that is one. -/
def Mover.disc? : Mover α → Option (Disc α)
  | particle p => some p.disc
  | ball b => some b.disc
  | box _ => none

namespace Simulator

variable {s t : Simulator α} {h : Handle} {d : Disc α}

/-- The circle of the particle or ball that a handle names. -/
def discOf (s : Simulator α) (h : Handle) : Option (Disc α) := (s.moverOf h).bind Mover.disc?

theorem discOf_eq_some : s.discOf h = some d ↔
    (∃ i p, h = .particle i ∧ s.particles[i]? = some p ∧ p.disc = d) ∨
      ∃ i b, h = .ball i ∧ s.balls[i]? = some b ∧ b.disc = d := by
  cases h <;> simp [discOf, moverOf, Option.bind_eq_some_iff, Mover.disc?]

theorem aabbOf_of_discOf (h' : s.discOf h = some d) : s.aabbOf h = some d.aabb := by
  rcases discOf_eq_some.mp h' with ⟨i, p, rfl, hp, rfl⟩ | ⟨i, b, rfl, hb, rfl⟩
  · exact aabbOf_particle hp
  · exact aabbOf_ball hb

theorem IsRefreshed.of_discOf [Scalar α] (hs : s.IsRefreshed) (h' : s.discOf h = some d) :
    ∃ motion, d.aabb = circleBounds d.pos d.radius motion := by
  obtain ⟨hparticles, hballs, -⟩ := forall_movers.mp hs
  rcases discOf_eq_some.mp h' with ⟨i, p, rfl, hp, rfl⟩ | ⟨i, b, rfl, hb, rfl⟩
  · exact hparticles p (Array.mem_of_getElem? hp)
  · exact hballs b (Array.mem_of_getElem? hb)

end Simulator

end

/-! ## What contacts do to them -/

/-- The circle has gone elsewhere, from a finite position if it is at one, and left its bounds. -/
structure Disc.Follows (d' d : Disc Float32) : Prop where
  radius : d'.radius = d.radius
  aabb : d'.aabb = d.aabb
  isFinite : d'.pos.IsFinite → d.pos.IsFinite

theorem Disc.Follows.refl (d : Disc Float32) : d.Follows d := ⟨rfl, rfl, id⟩

theorem Disc.Follows.trans {d d' d'' : Disc Float32} (h : d'.Follows d) (h' : d''.Follows d') :
    d''.Follows d :=
  ⟨h'.radius.trans h.radius, h'.aabb.trans h.aabb, h.isFinite ∘ h'.isFinite⟩

theorem Vec.IsFinite.of_add {v w : Vec Float32} (h : (v + w).IsFinite) : v.IsFinite :=
  ⟨Binary32.isFinite_of_isFinite_add h.x, Binary32.isFinite_of_isFinite_add h.y⟩

theorem Vec.IsFinite.of_sub {v w : Vec Float32} (h : (v - w).IsFinite) : v.IsFinite :=
  ⟨Binary32.isFinite_of_isFinite_sub h.x, Binary32.isFinite_of_isFinite_sub h.y⟩

namespace ContactLaw

variable {law : ContactLaw Float32} {line : Line Float32}

theorem follows_particles {p p' q q' : Particle Float32} (h : law.particles p q = some (p', q')) :
    p'.disc.Follows p.disc ∧ q'.disc.Follows q.disc := by
  unfold particles at h
  dsimp only at h
  split_ifs at h <;> cases h
  · exact ⟨⟨rfl, rfl, Vec.IsFinite.of_add⟩, ⟨rfl, rfl, Vec.IsFinite.of_sub⟩⟩
  · exact ⟨⟨rfl, rfl, Vec.IsFinite.of_add⟩, ⟨rfl, rfl, Vec.IsFinite.of_sub⟩⟩
  · exact ⟨⟨rfl, rfl, id⟩, ⟨rfl, rfl, id⟩⟩
  · exact ⟨⟨rfl, rfl, id⟩, ⟨rfl, rfl, id⟩⟩

theorem isFinite_of_pushOut {pos pos' : Vec Float32} {radius : Float32}
    (h : pushOut pos radius line = some pos') (hfinite : pos'.IsFinite) : pos.IsFinite := by
  unfold pushOut at h
  dsimp only at h
  split_ifs at h <;> cases h
  · exact hfinite.of_sub
  · exact hfinite

theorem follows_particleLine {p p' : Particle Float32} (h : law.particleLine p line = some p') :
    p'.disc.Follows p.disc := by
  simp only [particleLine, Option.bind_eq_bind, Option.bind_eq_some_iff] at h
  obtain ⟨pos, hpos, h⟩ := h
  split at h <;> obtain rfl := Option.some.inj h <;> exact ⟨rfl, rfl, isFinite_of_pushOut hpos⟩

theorem follows_ballLine {b b' : Ball Float32} (h : law.ballLine b line = some b') :
    b'.disc.Follows b.disc := by
  simp only [ballLine, Option.bind_eq_bind, Option.bind_eq_some_iff] at h
  obtain ⟨pos, hpos, h⟩ := h
  split at h <;> obtain rfl := Option.some.inj h <;> exact ⟨rfl, rfl, isFinite_of_pushOut hpos⟩

end ContactLaw

namespace Simulator

/-- Where one shape of an array is replaced by one that follows it, all shapes follow. -/
theorem follows_setIfInBounds {σ : Type} {disc : σ → Disc Float32} {xs : Array σ} {i k : Nat}
    {x y z : σ} (hx : xs[i]? = some x) (hy : (disc y).Follows (disc x))
    (hz : (xs.setIfInBounds i y)[k]? = some z) :
    ∃ w, xs[k]? = some w ∧ (disc z).Follows (disc w) := by
  rw [Array.getElem?_setIfInBounds] at hz
  split_ifs at hz with hik hi
  · cases hz
    exact ⟨x, hik ▸ hx, hy⟩
  · exact ⟨z, hz, .refl _⟩

section Contacts

variable {law : ContactLaw Float32} {s t : Simulator Float32} {a b h : Handle} {d' : Disc Float32}

/-- No contact refreshes bounds. -/
theorem Contact.follows (hcontact : Contact law s a b t) (h' : t.discOf h = some d') :
    ∃ d, s.discOf h = some d ∧ d'.Follows d := by
  have hparticle {i : ℕ} {w : Particle Float32} (hw : s.particles[i]? = some w)
      (hfollows : d'.Follows w.disc) : ∃ d, s.discOf (.particle i) = some d ∧ d'.Follows d :=
    ⟨w.disc, discOf_eq_some.mpr (.inl ⟨i, w, rfl, hw, rfl⟩), hfollows⟩
  have hball {i : ℕ} {w : Ball Float32} (hw : s.balls[i]? = some w)
      (hfollows : d'.Follows w.disc) : ∃ d, s.discOf (.ball i) = some d ∧ d'.Follows d :=
    ⟨w.disc, discOf_eq_some.mpr (.inr ⟨i, w, rfl, hw, rfl⟩), hfollows⟩
  rw [discOf_eq_some] at h'
  -- A contact writes to one of the arrays only; the shapes of the other follow themselves.
  induction hcontact with
  | @particles i j p q p' q' hij hp hq hlaw =>
    obtain ⟨hfirst, hsecond⟩ := ContactLaw.follows_particles hlaw
    rcases h' with ⟨k, z, rfl, hz, rfl⟩ | ⟨k, z, rfl, hz, rfl⟩
    · have hq' : (s.particles.setIfInBounds i p')[j]? = some q := by
        rw [Array.getElem?_setIfInBounds_ne hij, hq]
      obtain ⟨w, hw, hzw⟩ := follows_setIfInBounds hq' hsecond hz
      obtain ⟨v, hv, hwv⟩ := follows_setIfInBounds hp hfirst hw
      exact hparticle hv (hwv.trans hzw)
    · exact hball hz (.refl _)
  | particleLine hp _ hlaw =>
    rcases h' with ⟨k, z, rfl, hz, rfl⟩ | ⟨k, z, rfl, hz, rfl⟩
    · obtain ⟨w, hw, hzw⟩ := follows_setIfInBounds hp (ContactLaw.follows_particleLine hlaw) hz
      exact hparticle hw hzw
    · exact hball hz (.refl _)
  | ballLine hb _ hlaw =>
    rcases h' with ⟨k, z, rfl, hz, rfl⟩ | ⟨k, z, rfl, hz, rfl⟩
    · exact hparticle hz (.refl _)
    · obtain ⟨w, hw, hzw⟩ := follows_setIfInBounds hb (ContactLaw.follows_ballLine hlaw) hz
      exact hball hw hzw
  | boxLine =>
    rcases h' with ⟨k, z, rfl, hz, rfl⟩ | ⟨k, z, rfl, hz, rfl⟩
    · exact hparticle hz (.refl _)
    · exact hball hz (.refl _)
  | flip _ ih => exact ih h'

end Contacts

/-! ## The contacts of a step -/

section Steps

variable {α : Type} [Scalar α] {law : ContactLaw α} {handles : Array Handle} {s t u : Simulator α}

/-- The contacts that are resolved one after another, by their handles. -/
inductive Contacts (law : ContactLaw α) : Simulator α → List (Handle × Handle) → Simulator α → Prop
  | nil (s : Simulator α) : Contacts law s [] s
  | cons {s t u : Simulator α} {a b : Handle} {contacts : List (Handle × Handle)} :
    Contact law s a b t → Contacts law t contacts u → Contacts law s ((a, b) :: contacts) u

/-- The handles of a pair of positions and the state after their contact, if they touch. -/
def contact? (law : ContactLaw α) (handles : Array Handle) (s : Simulator α) (pair : Pair) :
    Option ((Handle × Handle) × Simulator α) := do
  let a ← handles[pair.1]?
  let b ← handles[pair.2]?
  let t ← s.resolve law a b
  return ((a, b), t)

/-- The contacts among pairs of positions, in the order in which they are resolved. -/
def contactsAmong (law : ContactLaw α) (handles : Array Handle) :
    List Pair → Simulator α → List (Handle × Handle)
  | [], _ => []
  | pair :: pairs, s =>
    match contact? law handles s pair with
    | some (contact, t) => contact :: contactsAmong law handles pairs t
    | none => contactsAmong law handles pairs s

theorem resolvePair_eq (state : Simulator α × ℕ) (pair : Pair) :
    resolvePair law handles state pair =
      match contact? law handles state.1 pair with
      | some (_, t) => (t, state.2 + 1)
      | none => state := by
  unfold resolvePair contact?
  cases handles[pair.1]? with
  | none => rfl
  | some a =>
    cases handles[pair.2]? with
    | none => rfl
    | some b =>
      dsimp only [Option.bind_eq_bind, Option.bind_some]
      cases state.1.resolve law a b <;> rfl

theorem contact_of_contact? {pair : Pair} {contact : Handle × Handle}
    (h : contact? law handles s pair = some (contact, t)) :
    Contact law s contact.1 contact.2 t := by
  simp only [contact?, Option.bind_eq_bind, Option.bind_eq_some_iff] at h
  obtain ⟨a, -, b, -, u, hu, h⟩ := h
  cases h
  exact contact_of_resolve hu

theorem contacts_resolvePairs (law : ContactLaw α) (handles : Array Handle) (pairs : List Pair)
    (s : Simulator α) :
    Contacts law s (contactsAmong law handles pairs s) (resolvePairs law handles pairs s).1 ∧
      (resolvePairs law handles pairs s).2 = (contactsAmong law handles pairs s).length := by
  have hfold (n : ℕ) : Contacts law s (contactsAmong law handles pairs s)
        (pairs.foldl (resolvePair law handles) (s, n)).1 ∧
      (pairs.foldl (resolvePair law handles) (s, n)).2 =
        n + (contactsAmong law handles pairs s).length := by
    induction pairs generalizing s n with
    | nil => exact ⟨.nil s, rfl⟩
    | cons pair pairs ih =>
      rw [List.foldl_cons, resolvePair_eq, contactsAmong]
      cases hpair : contact? law handles s pair with
      | none => exact ih s n
      | some result =>
        obtain ⟨hcontacts, hcount⟩ := ih result.2 (n + 1)
        exact ⟨.cons (contact_of_contact? hpair) hcontacts,
          hcount.trans (Nat.succ_add_eq_add_succ ..)⟩
  rw [resolvePairs_eq]
  obtain ⟨hcontacts, hcount⟩ := hfold 0
  exact ⟨hcontacts, hcount.trans (Nat.zero_add _)⟩

/-- A shape that is in none of the contacts is as it was. -/
theorem Contacts.moverOf {contacts : List (Handle × Handle)} {h : Handle}
    (hcontacts : Contacts law s contacts t) (hh : ∀ c ∈ contacts, h ≠ c.1 ∧ h ≠ c.2) :
    t.moverOf h = s.moverOf h := by
  induction hcontacts with
  | nil => rfl
  | cons hcontact _ ih =>
    obtain ⟨⟨ha, hb⟩, hothers⟩ := List.forall_mem_cons.mp hh
    exact (ih hothers).trans (hcontact.moverOf ha hb)

theorem Contacts.follows {law : ContactLaw Float32} {s t : Simulator Float32}
    {contacts : List (Handle × Handle)} {h : Handle} {d' : Disc Float32}
    (hcontacts : Contacts law s contacts t) (h' : t.discOf h = some d') :
    ∃ d, s.discOf h = some d ∧ d'.Follows d := by
  induction hcontacts with
  | nil => exact ⟨d', h', .refl d'⟩
  | cons hcontact _ ih =>
    obtain ⟨d, hd, hfollows⟩ := ih h'
    obtain ⟨d₀, hd₀, hfollows₀⟩ := hcontact.follows hd
    exact ⟨d₀, hd₀, hfollows₀.trans hfollows⟩

/-- The state in which the last step of a run looks for pairs. -/
def lastSearch (s : Simulator α) (seconds : α) : Simulator α := s.beforeSearch seconds (s.steps - 1)

/-- The contacts of the last step of a run. -/
def lastContacts (s : Simulator α) (seconds : α) : List (Handle × Handle) :=
  let t := s.lastSearch seconds
  contactsAmong s.law t.references.shapes (t.config.strategy.pairs t.seen) t

theorem steps_pos (s : Simulator α) : 0 < s.steps := by
  show 0 < if s.config.subSteps = 0 then 1 else s.config.subSteps
  split
  case isTrue => exact Nat.one_pos
  case isFalse h => exact Nat.pos_of_ne_zero h

/-- After its last search a run resolves contacts and does nothing else to shapes. -/
theorem contacts_simulate (s : Simulator α) (seconds : α) :
    ∃ t, Contacts s.law (s.lastSearch seconds) (s.lastContacts seconds) t ∧
      (s.simulate seconds).moverOf = t.moverOf := by
  let t := s.lastSearch seconds
  obtain ⟨hcontacts, -⟩ :=
    contacts_resolvePairs s.law t.references.shapes (t.config.strategy.pairs t.seen) t
  refine ⟨_, hcontacts, ?_⟩
  have hsteps : s.steps = s.steps - 1 + 1 := (Nat.sub_add_cancel s.steps_pos).symm
  rw [simulate_eq, hsteps, afterSteps_succ, step_eq]
  funext h
  cases h <;> rfl

end Steps

/-! ## The bounds that a run leaves -/

/-- After a run the bounds of a particle or ball enclose it where the last search found it. For a
shape in none of the contacts that were resolved after that search, this is where it is. -/
theorem bounds_of_last_search (s : Simulator Float32) (seconds : Float32) {h : Handle}
    {d : Disc Float32} (hd : (s.simulate seconds).discOf h = some d) (hpos : d.pos.IsFinite)
    (hradius : 0 ≤ d.radius) :
    (s.simulate seconds).aabbOf h = some d.aabb ∧
    ∃ searched : Vec Float32, (s.lastSearch seconds).discOf h = some ⟨searched, d.radius, d.aabb⟩ ∧
      (∃ motion, d.aabb.EnclosesCircle searched d.radius motion) ∧
      ((∀ c ∈ s.lastContacts seconds, h ≠ c.1 ∧ h ≠ c.2) → searched = d.pos ∧
        d.aabb.Contains (d.pos - Vec.splat d.radius) ∧
          d.aabb.Contains (d.pos + Vec.splat d.radius)) := by
  refine ⟨aabbOf_of_discOf hd, ?_⟩
  obtain ⟨t, hcontacts, hmovers⟩ := s.contacts_simulate seconds
  have ht : t.discOf h = some d := by
    rw [discOf, ← hmovers]
    exact hd
  obtain ⟨⟨searched, radius, aabb⟩, hd₀, hradius₀, haabb₀, hfinite⟩ := hcontacts.follows ht
  obtain rfl : d.radius = radius := hradius₀
  obtain rfl : d.aabb = aabb := haabb₀
  have hrefreshed : (s.lastSearch seconds).IsRefreshed := isRefreshed_move _ _
  obtain ⟨motion, hmotion⟩ := hrefreshed.of_discOf hd₀
  have hencloses : d.aabb.EnclosesCircle searched d.radius motion := by
    rw [hmotion]
    exact Aabb.enclosesCircle_circleBounds (hfinite hpos) hradius motion
  refine ⟨searched, hd₀, ⟨motion, hencloses⟩, fun hapart => ?_⟩
  have hsame : (s.lastSearch seconds).discOf h = some d := by
    rw [discOf, ← hcontacts.moverOf hapart]
    exact ht
  have heq : searched = d.pos := congrArg Disc.pos (Option.some.inj (hd₀.symm.trans hsame))
  exact ⟨heq, heq ▸ hencloses.lowest, heq ▸ hencloses.highest⟩

/-- In a quarter of a second the first particle does not reach the second one. -/
theorem bounds_of_last_search_apart :
    let s := (chase .allPairs).keepReferences
    let d : Disc Float32 := ⟨⟨2.5, 0⟩, 1, ⟨1.5, -1, 6, 1⟩⟩
    (s.simulate 0.25).discOf (.particle 0) = some d ∧ d.pos.IsFinite ∧ 0 ≤ d.radius ∧
      s.lastContacts 0.25 = [] ∧ d.aabb.Contains (d.pos - Vec.splat d.radius) ∧
        d.aabb.Contains (d.pos + Vec.splat d.radius) := by
  intro s d
  have hdisc : (s.simulate 0.25).discOf (.particle 0) = some d := by
    simp only [s, keepReferences_chase]
    decide +kernel
  have hcontacts : s.lastContacts 0.25 = [] := by
    simp only [s, keepReferences_chase]
    decide +kernel
  have hpos : d.pos.IsFinite := ⟨by decide +kernel, by decide +kernel⟩
  have hradius : 0 ≤ d.radius := by decide +kernel
  obtain ⟨-, searched, -, -, hapart⟩ := bounds_of_last_search s 0.25 hdisc hpos hradius
  obtain ⟨-, hlow, hhigh⟩ := hapart (by rw [hcontacts]; exact nofun)
  exact ⟨hdisc, hpos, hradius, hcontacts, hlow, hhigh⟩

/-- The first particle runs into the second one and both are pushed apart, each beyond its
bounds. -/
theorem bounds_left_behind :
    let s := (chase .allPairs).keepReferences.simulate 0.75
    s.Reachable ∧ (∀ h d, s.discOf h = some d → d.pos.IsFinite ∧ 0 ≤ d.radius) ∧
      ∃ d, s.discOf (.particle 0) = some d ∧ s.aabbOf (.particle 0) = some d.aabb ∧
        ¬ d.aabb.Contains (d.pos - Vec.splat d.radius) := by
  intro s
  have hreach : s.Reachable := ((reachable_chase _).call .references).call (.simulate 0.75)
  have hparticles : s.particles = #[⟨⟨⟨6, 0⟩, ⟨0, 0⟩, 1, 1⟩, 1, ⟨6.5, -1, 16, 1⟩⟩,
      ⟨⟨⟨9.5, 0⟩, ⟨10, 0⟩, 1, 1⟩, 1, ⟨7, -1, 9, 1⟩⟩] := by
    simp only [s, keepReferences_chase]
    decide +kernel
  have hballs : s.balls = #[] := by
    simp only [s, keepReferences_chase]
    decide +kernel
  have hdiscs : ∀ h d, s.discOf h = some d → d.pos.IsFinite ∧ 0 ≤ d.radius := by
    intro h d hd
    rcases discOf_eq_some.mp hd with ⟨i, p, -, hp, rfl⟩ | ⟨i, b, -, hb, rfl⟩
    · have hmem := Array.mem_of_getElem? hp
      rw [hparticles] at hmem
      simp only [List.mem_toArray, List.mem_cons, List.not_mem_nil, or_false] at hmem
      rcases hmem with rfl | rfl
      · exact ⟨⟨by decide +kernel, by decide +kernel⟩, by decide +kernel⟩
      · exact ⟨⟨by decide +kernel, by decide +kernel⟩, by decide +kernel⟩
    · rw [hballs] at hb
      cases hb
  have hfirst : s.discOf (.particle 0) = some ⟨⟨6, 0⟩, 1, ⟨6.5, -1, 16, 1⟩⟩ := by
    rw [discOf, moverOf, hparticles]
    rfl
  refine ⟨hreach, hdiscs, _, hfirst, aabbOf_of_discOf hfirst, fun h => ?_⟩
  exact absurd h.left (by decide +kernel)

end Simulator

end PlanarDynamics
