import PlanarDynamics.Simulator.Step

/-!
# What a step leaves alone

A step moves shapes and changes their velocities. It adds and removes none, and it touches neither
the lines nor the fields, the settings or the references.
-/

namespace PlanarDynamics

variable {α : Type}

namespace Attraction

variable [Scalar α] {β : Type} {f : Mover α → β}

theorem map_attract (hf : ∀ (m : Mover α) (impulse contact : Vec α),
    f (m.applyImpulse impulse contact) = f m) (g dt : α) (a b : Mover α) :
    f (attract g dt a b).1 = f a ∧ f (attract g dt a b).2 = f b := by
  unfold attract
  dsimp only
  split
  · exact ⟨rfl, rfl⟩
  · exact ⟨hf .., hf ..⟩

theorem map_attractEach (hf : ∀ (m : Mover α) (impulse contact : Vec α),
    f (m.applyImpulse impulse contact) = f m) (g dt : α) (a : Mover α) (others : List (Mover α)) :
    f (attractEach g dt a others).1 = f a ∧
      (attractEach g dt a others).2.map f = others.map f := by
  induction others generalizing a with
  | nil => exact ⟨rfl, rfl⟩
  | cons b rest ih =>
    obtain ⟨ha, hb⟩ := map_attract hf g dt a b
    obtain ⟨hfirst, hrest⟩ := ih (attract g dt a b).1
    simp only [attractEach, List.map_cons, hfirst, hrest, ha, hb, and_self]

/-- What no impulse changes about a shape is the same after attraction, shape by shape. -/
theorem map_attractAll (hf : ∀ (m : Mover α) (impulse contact : Vec α),
    f (m.applyImpulse impulse contact) = f m) (g dt : α) (movers : List (Mover α)) :
    (attractAll g dt movers).map f = movers.map f := by
  fun_induction attractAll g dt movers with
  | case1 => rfl
  | case2 a rest result ih =>
    obtain ⟨hfirst, hrest⟩ := map_attractEach hf g dt a rest
    rw [List.map_cons, List.map_cons, ih, hfirst, hrest]

/-- What no impulse changes about the shapes of a kind is the same after attraction. -/
theorem map_filterMap_attractAll {σ γ : Type} {pick : Mover α → Option σ} {g : σ → γ}
    (hpick : ∀ (m : Mover α) (impulse contact : Vec α),
      (pick (m.applyImpulse impulse contact)).map g = (pick m).map g) (k dt : α)
    (movers : List (Mover α)) :
    ((attractAll k dt movers).filterMap pick).map g = (movers.filterMap pick).map g := by
  have hmap := map_attractAll (f := fun m => (pick m).map g) hpick k dt movers
  simpa only [List.filterMap_map, Function.id_comp, List.map_filterMap] using
    congrArg (List.filterMap id) hmap

/-- Attraction leaves as many shapes of a kind as there were. -/
theorem length_filterMap_attractAll {σ : Type} {pick : Mover α → Option σ}
    (hpick : ∀ (m : Mover α) (impulse contact : Vec α),
      (pick (m.applyImpulse impulse contact)).map (fun _ => ()) = (pick m).map fun _ => ())
    (g dt : α) (movers : List (Mover α)) :
    ((attractAll g dt movers).filterMap pick).length = (movers.filterMap pick).length := by
  simpa only [List.length_map] using
    congrArg List.length (map_filterMap_attractAll hpick g dt movers)

end Attraction

theorem isSome_read {β : Type} (xs : Array β) (i : Nat) :
    xs[i]?.isSome = decide (i < xs.size) := by
  rw [Bool.eq_iff_iff]
  simp only [isSome_getElem?, decide_eq_true_eq]

namespace Simulator

/-- `t` is `s` with other states of its moving shapes and other counts. -/
structure Keeps (s t : Simulator α) : Prop where
  config : t.config = s.config
  lines : t.lines = s.lines
  fields : t.fields = s.fields
  refs : t.refs = s.refs
  hasTiming : t.hasTiming = s.hasTiming
  particles : t.particles.size = s.particles.size
  balls : t.balls.size = s.balls.size
  boxes : t.boxes.size = s.boxes.size

variable {s t u : Simulator α}

theorem Keeps.refl (s : Simulator α) : s.Keeps s := ⟨rfl, rfl, rfl, rfl, rfl, rfl, rfl, rfl⟩

theorem Keeps.trans (hst : s.Keeps t) (htu : t.Keeps u) : s.Keeps u where
  config := htu.config.trans hst.config
  lines := htu.lines.trans hst.lines
  fields := htu.fields.trans hst.fields
  refs := htu.refs.trans hst.refs
  hasTiming := htu.hasTiming.trans hst.hasTiming
  particles := htu.particles.trans hst.particles
  balls := htu.balls.trans hst.balls
  boxes := htu.boxes.trans hst.boxes

/-- Which handles name a shape depends on the numbers of shapes only. -/
theorem Keeps.isSome_aabbOf (h : s.Keeps t) (handle : Handle) :
    (t.aabbOf handle).isSome = (s.aabbOf handle).isSome := by
  cases handle <;>
    simp only [aabbOf, Option.isSome_map, isSome_read, h.lines, h.particles, h.balls, h.boxes]

section Bounds

variable {i : Nat}

theorem aabbOf_line {line : Line α} (h : s.lines[i]? = some line) :
    s.aabbOf (.line i) = some line.aabb := by
  rw [aabbOf, h, Option.map_some]

theorem aabbOf_particle {p : Particle α} (h : s.particles[i]? = some p) :
    s.aabbOf (.particle i) = some p.aabb := by
  rw [aabbOf, h, Option.map_some]

theorem aabbOf_ball {b : Ball α} (h : s.balls[i]? = some b) :
    s.aabbOf (.ball i) = some b.aabb := by
  rw [aabbOf, h, Option.map_some]

theorem aabbOf_box {b : Box α} (h : s.boxes[i]? = some b) :
    s.aabbOf (.box i) = some b.aabb := by
  rw [aabbOf, h, Option.map_some]

end Bounds

theorem filterMap_movers (s : Simulator α) :
    s.movers.filterMap Mover.particle? = s.particles.toList ∧
      s.movers.filterMap Mover.ball? = s.balls.toList ∧
        s.movers.filterMap Mover.box? = s.boxes.toList := by
  have hnone {β γ : Type} (l : List β) : l.filterMap (fun _ => (none : Option γ)) = [] :=
    List.filterMap_eq_nil_iff.mpr fun _ _ => rfl
  simp [movers, List.filterMap_map, Function.comp_def, Mover.particle?, Mover.ball?, Mover.box?,
    hnone]

variable [Scalar α]

theorem keeps_integrateAll (s : Simulator α) (dt : α) : s.Keeps (s.integrateAll dt) :=
  ⟨rfl, rfl, rfl, rfl, rfl, Array.size_map, Array.size_map, Array.size_map⟩

theorem keeps_attractAll (s : Simulator α) (dt : α) : s.Keeps (s.attractAll dt) := by
  unfold attractAll
  split
  case isFalse => exact .refl s
  case isTrue =>
    obtain ⟨hparticles, hballs, hboxes⟩ := s.filterMap_movers
    refine ⟨rfl, rfl, rfl, rfl, rfl, ?_, ?_, ?_⟩
    · rw [withMovers, List.size_toArray, Attraction.length_filterMap_attractAll, hparticles,
        Array.length_toList]
      rintro (_ | _ | _) _ _ <;> rfl
    · rw [withMovers, List.size_toArray, Attraction.length_filterMap_attractAll, hballs,
        Array.length_toList]
      rintro (_ | _ | _) _ _ <;> rfl
    · rw [withMovers, List.size_toArray, Attraction.length_filterMap_attractAll, hboxes,
        Array.length_toList]
      rintro (_ | _ | _) _ _ <;> rfl

section Resolve

variable {law : ContactLaw α} {a b : Handle}

/-- What the contact of the shapes of two handles makes of a simulation. -/
inductive Contact (law : ContactLaw α) (s : Simulator α) : Handle → Handle → Simulator α → Prop
  | particles {i j : Nat} {p q p' q' : Particle α} : i ≠ j → s.particles[i]? = some p →
      s.particles[j]? = some q → law.particles p q = some (p', q') →
      Contact law s (.particle i) (.particle j)
        { s with particles := (s.particles.setIfInBounds i p').setIfInBounds j q' }
  | particleLine {i l : Nat} {p p' : Particle α} {line : Line α} : s.particles[i]? = some p →
      s.lines[l]? = some line → law.particleLine p line = some p' →
      Contact law s (.particle i) (.line l) { s with particles := s.particles.setIfInBounds i p' }
  | ballLine {i l : Nat} {b b' : Ball α} {line : Line α} : s.balls[i]? = some b →
      s.lines[l]? = some line → law.ballLine b line = some b' →
      Contact law s (.ball i) (.line l) { s with balls := s.balls.setIfInBounds i b' }
  | boxLine {i l : Nat} {b b' : Box α} {line : Line α} : s.boxes[i]? = some b →
      s.lines[l]? = some line → law.boxLine b line = some b' →
      Contact law s (.box i) (.line l) { s with boxes := s.boxes.setIfInBounds i b' }
  | flip {a : Handle} {l : Nat} {t : Simulator α} : Contact law s a (.line l) t →
      Contact law s (.line l) a t

theorem contact_of_resolveParticles {i j : Nat} (h : s.resolveParticles law i j = some t) :
    Contact law s (.particle i) (.particle j) t := by
  unfold resolveParticles at h
  split at h
  case isTrue => cases h
  case isFalse hij =>
    simp only [Option.bind_eq_bind, Option.bind_eq_some_iff] at h
    obtain ⟨p, hp, q, hq, ⟨p', q'⟩, hcontact, h⟩ := h
    obtain rfl := Option.some.inj h
    exact .particles hij hp hq hcontact

theorem contact_of_resolveParticleLine {i l : Nat} (h : s.resolveParticleLine law i l = some t) :
    Contact law s (.particle i) (.line l) t := by
  simp only [resolveParticleLine, Option.bind_eq_bind, Option.bind_eq_some_iff] at h
  obtain ⟨p, hp, line, hline, p', hcontact, h⟩ := h
  obtain rfl := Option.some.inj h
  exact .particleLine hp hline hcontact

theorem contact_of_resolveBallLine {i l : Nat} (h : s.resolveBallLine law i l = some t) :
    Contact law s (.ball i) (.line l) t := by
  simp only [resolveBallLine, Option.bind_eq_bind, Option.bind_eq_some_iff] at h
  obtain ⟨b, hb, line, hline, b', hcontact, h⟩ := h
  obtain rfl := Option.some.inj h
  exact .ballLine hb hline hcontact

theorem contact_of_resolveBoxLine {i l : Nat} (h : s.resolveBoxLine law i l = some t) :
    Contact law s (.box i) (.line l) t := by
  simp only [resolveBoxLine, Option.bind_eq_bind, Option.bind_eq_some_iff] at h
  obtain ⟨b, hb, line, hline, b', hcontact, h⟩ := h
  obtain rfl := Option.some.inj h
  exact .boxLine hb hline hcontact

/-- Two shapes that are resolved are in contact in one of the four ways. -/
theorem contact_of_resolve (h : s.resolve law a b = some t) : Contact law s a b t := by
  unfold resolve at h
  split at h
  · exact contact_of_resolveParticles h
  · exact contact_of_resolveParticleLine h
  · exact .flip (contact_of_resolveParticleLine h)
  · exact contact_of_resolveBallLine h
  · exact .flip (contact_of_resolveBallLine h)
  · exact contact_of_resolveBoxLine h
  · exact .flip (contact_of_resolveBoxLine h)
  · cases h

theorem Contact.keeps (h : Contact law s a b t) : s.Keeps t := by
  induction h with
  | particles =>
    exact ⟨rfl, rfl, rfl, rfl, rfl, Array.size_setIfInBounds.trans Array.size_setIfInBounds,
      rfl, rfl⟩
  | particleLine => exact ⟨rfl, rfl, rfl, rfl, rfl, Array.size_setIfInBounds, rfl, rfl⟩
  | ballLine => exact ⟨rfl, rfl, rfl, rfl, rfl, rfl, Array.size_setIfInBounds, rfl⟩
  | boxLine => exact ⟨rfl, rfl, rfl, rfl, rfl, rfl, rfl, Array.size_setIfInBounds⟩
  | flip _ ih => exact ih

theorem keeps_resolve (h : s.resolve law a b = some t) : s.Keeps t := (contact_of_resolve h).keeps

end Resolve

/-- The state and the count after one more pair. -/
def resolvePair (law : ContactLaw α) (handles : Array Handle) (state : Simulator α × Nat)
    (pair : Pair) : Simulator α × Nat :=
  match handles[pair.1]?, handles[pair.2]? with
  | some a, some b =>
    match state.1.resolve law a b with
    | some s => (s, state.2 + 1)
    | none => state
  | _, _ => state

theorem resolvePairs_eq (law : ContactLaw α) (handles : Array Handle) (pairs : List Pair)
    (s : Simulator α) :
    resolvePairs law handles pairs s = pairs.foldl (resolvePair law handles) (s, 0) := rfl

theorem keeps_resolvePair (law : ContactLaw α) (handles : Array Handle)
    (state : Simulator α × Nat) (pair : Pair) :
    state.1.Keeps (resolvePair law handles state pair).1 := by
  unfold resolvePair
  split
  case h_1 a b _ _ =>
    split
    case h_1 t ht => exact keeps_resolve ht
    case h_2 => exact .refl _
  case h_2 => exact .refl _

theorem keeps_resolvePairs (law : ContactLaw α) (handles : Array Handle) (pairs : List Pair)
    (s : Simulator α) : s.Keeps (resolvePairs law handles pairs s).1 := by
  rw [resolvePairs_eq]
  generalize (0 : Nat) = contacts
  induction pairs generalizing s contacts with
  | nil => exact .refl s
  | cons pair pairs ih =>
    exact (keeps_resolvePair law handles (s, contacts) pair).trans (ih _ _)

end Simulator

end PlanarDynamics
