import PlanarDynamics.Proofs.Binary32.Reciprocal
import PlanarDynamics.Proofs.Shape.Bounds
import PlanarDynamics.Proofs.Simulator.Refreshed

/-!
# Impulses at the centre

An impulse at a shape's own position has no arm, so that its torque is a zero. A zero times a finite
inverse inertia turns nothing, and neither fields nor attraction then change the spin of a shape.
The inverse of a positive inertia up to `2 ^ (-128)` is not finite though: such a shape loses its
angular velocity at the first impulse.
-/

namespace PlanarDynamics

open Binary32

/-! ## Torque at the centre -/

theorem Vec.perpDot_center {pos impulse : Vec Float32} (hpos : pos.IsFinite)
    (himpulse : impulse.IsFinite) : ((pos - pos).perpDot impulse == 0) = true :=
  sub_beq_zero (mul_beq_zero (sub_self_beq_zero hpos.x) himpulse.y)
    (mul_beq_zero (sub_self_beq_zero hpos.y) himpulse.x)

theorem Vec.IsFinite.neg {v : Vec Float32} (h : v.IsFinite) : (-v).IsFinite :=
  ⟨(isFinite_neg_iff v.x).trans h.x, (isFinite_neg_iff v.y).trans h.y⟩

namespace Spin

/-- The same inertia and the same angular velocity, which may be no number in both. -/
structure KeepsOn (s t : Spin Float32) : Prop where
  invInertia : t.invInertia = s.invInertia
  angVel : Binary32.Alike t.angVel s.angVel

theorem KeepsOn.trans {s t u : Spin Float32} (h : s.KeepsOn t) (h' : t.KeepsOn u) : s.KeepsOn u :=
  ⟨h'.invInertia.trans h.invInertia, h'.angVel.trans h.angVel⟩

variable {s : Spin Float32} {pos impulse : Vec Float32}

theorem angVel_beq_of_isFinite (hpos : pos.IsFinite) (himpulse : impulse.IsFinite)
    (h : s.invInertia.isFinite = true) (hnan : s.angVel.isNaN = false) :
    ((s.twist (pos - pos) impulse).angVel == s.angVel) = true := by
  have htorque := mul_beq_zero (Vec.perpDot_center hpos himpulse) h
  have hfinite := isFinite_of_beq_zero htorque
  apply add_beq_of_value_zero hnan (isNaN_of_isFinite hfinite)
  rw [value_eq_toReal hfinite, toReal_of_beq_zero htorque]
  rfl

/-- An impulse at the centre leaves the angular velocity as it is if and only if the inverse inertia
is finite. -/
theorem angVel_beq_iff (hpos : pos.IsFinite) (himpulse : impulse.IsFinite)
    (hnan : s.angVel.isNaN = false) :
    ((s.twist (pos - pos) impulse).angVel == s.angVel) = true ↔ s.invInertia.isFinite = true := by
  constructor
  · intro hsame
    by_contra hinfinite
    have htorque := isNaN_mul_of_beq_zero (Vec.perpDot_center hpos himpulse)
      (Bool.eq_false_of_not_eq_true hinfinite)
    have hsum := isNaN_add_of_isNaN s.angVel htorque
    exact Bool.false_ne_true ((isNaN_eq_false_of_beq hsame).1.symm.trans hsum)
  · exact fun h => angVel_beq_of_isFinite hpos himpulse h hnan

theorem keepsOn_twist (hpos : pos.IsFinite) (himpulse : impulse.IsFinite)
    (h : s.invInertia.isFinite = true) : s.KeepsOn (s.twist (pos - pos) impulse) := by
  refine ⟨rfl, ?_⟩
  cases hnan : s.angVel.isNaN with
  | false => exact .inl (angVel_beq_of_isFinite hpos himpulse h hnan)
  | true =>
    refine .inr ⟨?_, hnan⟩
    show (s.angVel + _).isNaN = true
    rw [add_swap]
    exact isNaN_add_of_isNaN _ hnan

/-- Inertia has a finite inverse unless it is positive and too small. -/
theorem isFinite_invInertia_create (inertia angle angVel : Float32) :
    (create inertia angle angVel).invInertia.isFinite = true ↔
      ¬ (0 < inertia ∧ inertia ≤ reciprocalLimit) := by
  unfold create
  dsimp only
  split
  case isTrue hpos =>
    have hkey : IsKey inertia := isKey_iff.mpr (isNaN_eq_false_of_lt hpos).2
    have hlimit : IsKey reciprocalLimit := isKey_iff.mpr rfl
    refine (isFinite_reciprocal_iff hpos).trans ⟨fun hlt h => ?_, fun h => ?_⟩
    · exact (hlimit.not_lt hkey).mpr h.2 hlt
    · exact of_not_not fun hlt => h ⟨hpos, (hlimit.not_lt hkey).mp hlt⟩
  case isFalse hpos => exact iff_of_true rfl fun h => hpos h.1

end Spin

/-- A mass has a finite inverse if and only if it is not too small. -/
theorem Body.of_create {pos vel : Vec Float32} {mass : Float32} {b : Body Float32}
    (h : create pos vel mass = .ok b) :
    b.pos = pos ∧ (b.invMass.isFinite = true ↔ reciprocalLimit < mass) := by
  unfold create isMass at h
  split at h
  case isTrue hmass =>
    rw [Bool.and_eq_true, decide_eq_true_eq] at hmass
    obtain rfl := Except.ok.inj h
    exact ⟨rfl, isFinite_reciprocal_iff hmass.2⟩
  case isFalse => cases h

/-! ## Shapes -/

namespace Mover

section Generic

variable {α : Type} [Scalar α]

/-- Moves the shape for the time `dt`. -/
def advance (dt : α) : Mover α → Mover α
  | particle p => particle (p.advance dt)
  | ball b => ball (b.advance dt)
  | box b => box (b.advance dt)

/-- The shape after it has moved and has taken the impulses of the fields. -/
def integrate (fields : Array (ForceField α)) (dt : α) : Mover α → Mover α
  | particle p => particle (PlanarDynamics.integrate fields dt p)
  | ball b => ball (PlanarDynamics.integrate fields dt b)
  | box b => box (PlanarDynamics.integrate fields dt b)

theorem integrate_eq (fields : Array (ForceField α)) (dt : α) (m : Mover α) :
    m.integrate fields dt = fields.toList.foldl
      (fun m field => m.applyImpulse (dt • field.force m) m.body.pos) (m.advance dt) := by
  cases m <;>
  · rw [integrate, PlanarDynamics.integrate, ← Array.foldl_toList]
    exact (List.foldl_hom _ fun _ _ => rfl).symm

theorem body_applyImpulse (m : Mover α) (impulse contact : Vec α) :
    (m.applyImpulse impulse contact).body = m.body.push impulse := by
  cases m <;> rfl

end Generic

/-- The inverse inertia is finite, if the shape turns at all. -/
def HasInertia : Mover Float32 → Prop
  | particle _ => True
  | ball b => b.spin.invInertia.isFinite = true
  | box b => b.spin.invInertia.isFinite = true

/-- Two states of a shape with the same spin but for the angle. -/
inductive KeepsSpin : Mover Float32 → Mover Float32 → Prop
  | particle (p q : Particle Float32) : KeepsSpin (.particle p) (.particle q)
  | ball {b c : Ball Float32} (h : b.spin.KeepsOn c.spin) : KeepsSpin (.ball b) (.ball c)
  | box {b c : Box Float32} (h : b.spin.KeepsOn c.spin) : KeepsSpin (.box b) (.box c)

theorem KeepsSpin.trans {a b c : Mover Float32} (h : a.KeepsSpin b) (h' : b.KeepsSpin c) :
    a.KeepsSpin c := by
  cases h with
  | particle p q =>
    cases h'
    exact .particle ..
  | ball h =>
    cases h' with
    | ball h' => exact .ball (h.trans h')
  | box h =>
    cases h' with
    | box h' => exact .box (h.trans h')

theorem keepsSpin_advance (dt : Float32) (m : Mover Float32) : m.KeepsSpin (m.advance dt) := by
  cases m with
  | particle p => exact .particle ..
  | ball b => exact .ball ⟨rfl, .refl _⟩
  | box b => exact .box ⟨rfl, .refl _⟩

/-- A shape before and after impulses at its centre: only its velocity has changed. -/
structure Nudged (m n : Mover Float32) : Prop where
  pos : n.body.pos = m.body.pos
  mass : n.body.mass = m.body.mass
  spin : m.KeepsSpin n

/-- A shape whose spin no finite impulse at its centre changes. -/
structure IsSteady (m : Mover Float32) : Prop where
  pos : m.body.pos.IsFinite
  inertia : m.HasInertia

variable {a b m n : Mover Float32} {impulse : Vec Float32}

theorem HasInertia.of_keepsSpin (hm : m.HasInertia) (h : m.KeepsSpin n) : n.HasInertia := by
  cases h with
  | particle p q => trivial
  | ball h => exact (congrArg Float32.isFinite h.invInertia).trans hm
  | box h => exact (congrArg Float32.isFinite h.invInertia).trans hm

theorem Nudged.refl (m : Mover Float32) : m.Nudged m := by
  refine ⟨rfl, rfl, ?_⟩
  cases m with
  | particle p => exact .particle ..
  | ball b => exact .ball ⟨rfl, .refl _⟩
  | box b => exact .box ⟨rfl, .refl _⟩

theorem Nudged.trans (h : a.Nudged b) (h' : b.Nudged m) : a.Nudged m :=
  ⟨h'.pos.trans h.pos, h'.mass.trans h.mass, h.spin.trans h'.spin⟩

theorem Nudged.isSteady (h : m.Nudged n) (hm : m.IsSteady) : n.IsSteady :=
  ⟨h.pos ▸ hm.pos, hm.inertia.of_keepsSpin h.spin⟩

theorem IsSteady.nudged (hm : m.IsSteady) (himpulse : impulse.IsFinite) :
    m.Nudged (m.applyImpulse impulse m.body.pos) := by
  refine ⟨by rw [body_applyImpulse]; rfl, by rw [body_applyImpulse]; rfl, ?_⟩
  obtain ⟨hpos, hinertia⟩ := hm
  cases m with
  | particle p => exact .particle ..
  | ball b => exact .ball (Spin.keepsOn_twist hpos himpulse hinertia)
  | box b => exact .box (Spin.keepsOn_twist hpos himpulse hinertia)

/-- Fields whose impulses are all finite. The impulse of each is that at the state to which those
before it have brought the shape. -/
theorem IsSteady.nudged_foldl (hm : m.IsSteady) (dt : Float32)
    (fields : List (ForceField Float32))
    (h : ∀ k (hk : k < fields.length), (dt • fields[k].force ((fields.take k).foldl
      (fun m field => m.applyImpulse (dt • field.force m) m.body.pos) m)).IsFinite) :
    m.Nudged (fields.foldl
      (fun m field => m.applyImpulse (dt • field.force m) m.body.pos) m) := by
  induction fields generalizing m with
  | nil => exact .refl m
  | cons field fields ih =>
    have hfirst := hm.nudged (h 0 (Nat.zero_lt_succ _))
    exact hfirst.trans (ih (hfirst.isSteady hm) fun k hk => h (k + 1) (Nat.succ_lt_succ hk))

end Mover

/-! ## Attraction -/

section Lists

variable {β : Type} {R : β → β → Prop} {xs ys zs : List β}

theorem forall₂_trans (h : ∀ {x y z}, R x y → R y z → R x z) (hxy : List.Forall₂ R xs ys)
    (hyz : List.Forall₂ R ys zs) : List.Forall₂ R xs zs := by
  induction hxy generalizing zs with
  | nil => exact hyz
  | cons hhead htail ih =>
    cases hyz with
    | cons hhead' htail' => exact .cons (h hhead hhead') (ih htail')

theorem forall_of_forall₂ {P Q : β → Prop} (h : ∀ {x y}, R x y → P x → Q y)
    (hxy : List.Forall₂ R xs ys) (hxs : ∀ x ∈ xs, P x) : ∀ y ∈ ys, Q y := by
  induction hxy with
  | nil => exact List.forall_mem_nil Q
  | cons hhead htail ih =>
    rw [List.forall_mem_cons] at hxs ⊢
    exact ⟨h hhead hxs.1, ih hxs.2⟩

theorem pairwise_of_forall₂ {S : β → β → Prop}
    (h : ∀ {x x' y y'}, R x x' → R y y' → S x y → S x' y') (hxy : List.Forall₂ R xs ys)
    (hxs : xs.Pairwise S) : ys.Pairwise S := by
  induction hxy with
  | nil => exact .nil
  | cons hhead htail ih =>
    rw [List.pairwise_cons] at hxs ⊢
    exact ⟨forall_of_forall₂ (P := S _) (Q := S _) (h hhead) htail hxs.1, ih hxs.2⟩

end Lists

namespace Attraction

/-- The impulse on the first of two shapes; that on the second is opposite. -/
def pull {α : Type} [Scalar α] (g dt : α) (a b : Mover α) : Vec α :=
  let (dist, dir) := (b.body.pos - a.body.pos).magnitudeAndDirection
  dt • ((g * a.body.mass * b.body.mass / (dist * dist)) • dir)

/-- The impulses of two shapes on each other are finite, if there are any. -/
def PullsFinitely (g dt : Float32) (a b : Mover Float32) : Prop :=
  ((b.body.pos - a.body.pos).magnitudeAndDirection.1 == 0) = true ∨ (pull g dt a b).IsFinite

variable {g dt : Float32} {a a' b b' : Mover Float32}

/-- Impulses at the centres do not change what attraction will be. -/
theorem PullsFinitely.of_nudged (h : PullsFinitely g dt a b) (ha : a.Nudged a')
    (hb : b.Nudged b') : PullsFinitely g dt a' b' := by
  unfold PullsFinitely pull at h ⊢
  rwa [ha.pos, ha.mass, hb.pos, hb.mass]

theorem nudged_attract (ha : a.IsSteady) (hb : b.IsSteady) (h : PullsFinitely g dt a b) :
    a.Nudged (attract g dt a b).1 ∧ b.Nudged (attract g dt a b).2 := by
  have hattract : attract g dt a b =
      if (b.body.pos - a.body.pos).magnitudeAndDirection.1 == 0 then (a, b)
      else (a.applyImpulse (pull g dt a b) a.body.pos,
        b.applyImpulse (-pull g dt a b) b.body.pos) := rfl
  rw [hattract]
  split
  case isTrue => exact ⟨.refl a, .refl b⟩
  case isFalse hne =>
    have hfinite := h.resolve_left hne
    exact ⟨ha.nudged hfinite, hb.nudged hfinite.neg⟩

theorem nudged_attractEach {others : List (Mover Float32)} (ha : a.IsSteady)
    (hothers : ∀ b ∈ others, b.IsSteady) (h : ∀ b ∈ others, PullsFinitely g dt a b) :
    a.Nudged (attractEach g dt a others).1 ∧
      List.Forall₂ Mover.Nudged others (attractEach g dt a others).2 := by
  induction others generalizing a with
  | nil => exact ⟨.refl a, .nil⟩
  | cons b rest ih =>
    rw [List.forall_mem_cons] at hothers h
    obtain ⟨hfirst, hsecond⟩ := nudged_attract ha hothers.1 h.1
    obtain ⟨hlast, hrest⟩ := ih (hfirst.isSteady ha) hothers.2
      fun c hc => (h.2 c hc).of_nudged hfirst (.refl c)
    exact ⟨hfirst.trans hlast, .cons hsecond hrest⟩

/-- Attraction with finite impulses leaves the spin of every shape as it is. -/
theorem nudged_attractAll {movers : List (Mover Float32)} (hsteady : ∀ m ∈ movers, m.IsSteady)
    (h : movers.Pairwise (PullsFinitely g dt)) :
    List.Forall₂ Mover.Nudged movers (attractAll g dt movers) := by
  fun_induction attractAll g dt movers with
  | case1 => exact .nil
  | case2 a rest result ih =>
    rw [List.forall_mem_cons] at hsteady
    rw [List.pairwise_cons] at h
    obtain ⟨hfirst, hrest⟩ := nudged_attractEach hsteady.1 hsteady.2 h.1
    refine .cons hfirst (forall₂_trans Mover.Nudged.trans hrest (ih ?_ ?_))
    · exact forall_of_forall₂ (P := Mover.IsSteady) (Q := Mover.IsSteady) Mover.Nudged.isSteady
        hrest hsteady.2
    · exact pairwise_of_forall₂ (fun hx hy hxy => hxy.of_nudged hx hy) hrest h.2

end Attraction

/-! ## Simulations -/

namespace Simulator

variable {s : Simulator Float32} {dt : Float32}

/-- No shape moves out of the format, and all impulses that it takes at its centre are finite: those
of the fields in their order and those of attraction. -/
structure PushesFinitely (s : Simulator Float32) (dt : Float32) : Prop where
  pos : ∀ m ∈ s.movers, (m.advance dt).body.pos.IsFinite
  fields : ∀ m ∈ s.movers, ∀ k (hk : k < s.fields.size),
    (dt • s.fields[k].force (m.integrate (s.fields.take k) dt)).IsFinite
  attraction : 0 < s.config.attraction →
    (s.integrateAll dt).movers.Pairwise (Attraction.PullsFinitely s.config.attraction dt)

theorem movers_integrateAll {α : Type} [Scalar α] (s : Simulator α) (dt : α) :
    (s.integrateAll dt).movers = s.movers.map (Mover.integrate s.fields dt) := by
  simp only [movers, integrateAll, Array.toList_map, List.map_append, List.map_map]
  rfl

/-- A shape that is moved by finite impulses keeps its spin and can be attracted. -/
theorem PushesFinitely.integrate (h : s.PushesFinitely dt) {m : Mover Float32} (hm : m ∈ s.movers)
    (hinertia : m.HasInertia) :
    m.KeepsSpin (m.integrate s.fields dt) ∧ (m.integrate s.fields dt).IsSteady := by
  have hadvance := m.keepsSpin_advance dt
  have hsteady : (m.advance dt).IsSteady := ⟨h.pos m hm, hinertia.of_keepsSpin hadvance⟩
  have hnudged := hsteady.nudged_foldl dt s.fields.toList fun k hk => by
    have hfinite := h.fields m hm k hk
    rwa [Mover.integrate_eq, Array.take_eq_extract, Array.toList_extract,
      List.extract_eq_take_drop] at hfinite
  rw [Mover.integrate_eq]
  exact ⟨hadvance.trans hnudged.spin, hnudged.isSteady hsteady⟩

theorem PushesFinitely.keepsSpin_move (h : s.PushesFinitely dt)
    (hinertia : ∀ m ∈ s.movers, m.HasInertia) :
    ∃ movers, List.Forall₂ Mover.KeepsSpin s.movers movers ∧
      (s.move dt).balls.toList = movers.filterMap Mover.ball? ∧
        (s.move dt).boxes.toList = movers.filterMap Mover.box? := by
  have hmoved : List.Forall₂ Mover.KeepsSpin s.movers (s.integrateAll dt).movers := by
    rw [movers_integrateAll, List.forall₂_map_right_iff, List.forall₂_same]
    exact fun m hm => (h.integrate hm (hinertia m hm)).1
  have hsteady : ∀ m ∈ (s.integrateAll dt).movers, m.IsSteady := by
    rw [movers_integrateAll, List.forall_mem_map]
    exact fun m hm => (h.integrate hm (hinertia m hm)).2
  obtain ⟨-, hballs, hboxes⟩ := (s.integrateAll dt).filterMap_movers
  unfold move attractAll
  split
  case isTrue hpos =>
    refine ⟨_, forall₂_trans Mover.KeepsSpin.trans hmoved ?_, rfl, rfl⟩
    exact (Attraction.nudged_attractAll hsteady (h.attraction hpos)).imp fun _ _ h => h.spin
  case isFalse => exact ⟨_, hmoved, hballs.symm, hboxes.symm⟩

/-- Fields and attraction turn no ball and no box. -/
theorem PushesFinitely.angVel_move (h : s.PushesFinitely dt)
    (hinertia : ∀ m ∈ s.movers, m.HasInertia) :
    List.Forall₂ (fun b c => Binary32.Alike c.spin.angVel b.spin.angVel) s.balls.toList
      (s.move dt).balls.toList ∧
    List.Forall₂ (fun b c => Binary32.Alike c.spin.angVel b.spin.angVel) s.boxes.toList
      (s.move dt).boxes.toList := by
  obtain ⟨movers, hspins, hballs, hboxes⟩ := h.keepsSpin_move hinertia
  obtain ⟨-, hballs₀, hboxes₀⟩ := s.filterMap_movers
  rw [hballs, hboxes, ← hballs₀, ← hboxes₀]
  constructor
  · refine List.rel_filterMap ?_ hspins
    rintro _ _ (_ | ⟨h⟩ | _)
    · exact .none
    · exact .some h.angVel
    · exact .none
  · refine List.rel_filterMap ?_ hspins
    rintro _ _ (_ | _ | ⟨h⟩)
    · exact .none
    · exact .none
    · exact .some h.angVel

end Simulator

/-- The body and the spin of a new shape: when its reciprocals are finite, and what an impulse at
the centre does. -/
theorem center_of_create {pos vel : Vec Float32} {mass angVel : Float32} {body : Body Float32}
    (hpos : pos.IsFinite) (hangVel : angVel.isFinite = true)
    (h : Body.create pos vel mass = .ok body) (inertia angle : Float32) :
    let spin := Spin.create inertia angle angVel
    (body.invMass.isFinite = true ↔ reciprocalLimit < mass) ∧
    (spin.invInertia.isFinite = true ↔ ¬ (0 < spin.inertia ∧ spin.inertia ≤ reciprocalLimit)) ∧
    ∀ impulse : Vec Float32, impulse.IsFinite →
      (((spin.twist (body.pos - body.pos) impulse).angVel == spin.angVel) = true ↔
        spin.invInertia.isFinite = true) := by
  obtain ⟨rfl, hmass⟩ := Body.of_create h
  exact ⟨hmass, Spin.isFinite_invInertia_create .., fun impulse himpulse =>
    Spin.angVel_beq_iff hpos himpulse (isNaN_of_isFinite hangVel)⟩

/-- Where it is created, a ball or box has a finite inverse mass unless its mass is at most the
limit, and a finite inverse inertia unless its inertia is positive and at most the limit. If and
only if the inverse inertia is finite, a finite impulse at the own position leaves the angular
velocity as it is. In a simulation without shapes of infinite inverse inertia, fields and attraction
change no spin as long as all they compute is finite. -/
theorem impulses_at_center_keep_spin {pos : Vec Float32} {angVel : Float32} (hpos : pos.IsFinite)
    (hangVel : angVel.isFinite = true) (vel : Vec Float32) (mass angle : Float32) :
    (∀ (radius : Float32) (b : Ball Float32),
      Ball.create pos vel mass radius angle angVel = .ok b →
      (b.body.invMass.isFinite = true ↔ reciprocalLimit < mass) ∧
      (b.spin.invInertia.isFinite = true ↔
        ¬ (0 < b.spin.inertia ∧ b.spin.inertia ≤ reciprocalLimit)) ∧
      ∀ impulse : Vec Float32, impulse.IsFinite →
        (((b.applyImpulse impulse b.body.pos).spin.angVel == b.spin.angVel) = true ↔
          b.spin.invInertia.isFinite = true)) ∧
    (∀ (width height : Float32) (b : Box Float32),
      Box.create pos vel mass width height angle angVel = .ok b →
      (b.body.invMass.isFinite = true ↔ reciprocalLimit < mass) ∧
      (b.spin.invInertia.isFinite = true ↔
        ¬ (0 < b.spin.inertia ∧ b.spin.inertia ≤ reciprocalLimit)) ∧
      ∀ impulse : Vec Float32, impulse.IsFinite →
        (((b.applyImpulse impulse b.body.pos).spin.angVel == b.spin.angVel) = true ↔
          b.spin.invInertia.isFinite = true)) ∧
    ∀ (s : Simulator Float32) (dt : Float32), s.PushesFinitely dt →
      (∀ m ∈ s.movers, m.HasInertia) →
      List.Forall₂ (fun b c => Binary32.Alike c.spin.angVel b.spin.angVel) s.balls.toList
        (s.move dt).balls.toList ∧
      List.Forall₂ (fun b c => Binary32.Alike c.spin.angVel b.spin.angVel) s.boxes.toList
        (s.move dt).boxes.toList := by
  refine ⟨fun radius b h => ?_, fun width height b h => ?_,
    fun s dt hfinite hinertia => hfinite.angVel_move hinertia⟩
  · obtain ⟨body, hbody, hb⟩ := Simulator.exists_of_bind_ok h
    obtain rfl := Except.ok.inj hb
    exact center_of_create hpos hangVel hbody ..
  · obtain ⟨body, hbody, hb⟩ := Simulator.exists_of_bind_ok h
    obtain rfl := Except.ok.inj hb
    exact center_of_create hpos hangVel hbody ..

/-- Two balls that fall under gravity and attract each other. -/
def attractedBalls : Simulator Float32 :=
  { Simulator.create ⟨1, 1, 0, 6, .allPairs, false⟩ with
    balls := #[⟨⟨⟨0, 0⟩, ⟨1, 0⟩, 2, 0.5⟩, ⟨1, 1, 0, 3⟩, 1, ⟨0, 0, 0, 0⟩⟩,
      ⟨⟨⟨8, 0⟩, ⟨0, 0⟩, 1, 1⟩, ⟨0.5, 2, 0, -1⟩, 1, ⟨0, 0, 0, 0⟩⟩]
    fields := #[.earthGravity] }

/-- Balls of common size keep their spin when they fall. -/
theorem impulses_at_center_keep_spin_falling :
    (∃ b : Ball Float32, Ball.create ⟨1, 2⟩ ⟨0, 0⟩ 2 1 0 3 = .ok b ∧
      b.body.invMass.isFinite = true ∧ b.spin.invInertia.isFinite = true ∧
      ((b.applyImpulse ⟨0, -9.8⟩ b.body.pos).spin.angVel == b.spin.angVel) = true) ∧
    (∃ b : Box Float32, Box.create ⟨1, 2⟩ ⟨0, 0⟩ 2 1 3 0 3 = .ok b ∧
      b.body.invMass.isFinite = true ∧ b.spin.invInertia.isFinite = true ∧
      ((b.applyImpulse ⟨0, -9.8⟩ b.body.pos).spin.angVel == b.spin.angVel) = true) ∧
    attractedBalls.PushesFinitely 0.5 ∧ (∀ m ∈ attractedBalls.movers, m.HasInertia) ∧
    List.Forall₂ (fun b c => Binary32.Alike c.spin.angVel b.spin.angVel) attractedBalls.balls.toList
      (attractedBalls.move 0.5).balls.toList := by
  have hpos : (⟨1, 2⟩ : Vec Float32).IsFinite := ⟨by decide +kernel, by decide +kernel⟩
  have hangVel : (3 : Float32).isFinite = true := rfl
  obtain ⟨hball, hbox, hmove⟩ := impulses_at_center_keep_spin hpos hangVel ⟨0, 0⟩ 2 0
  have hpull : (⟨0, -9.8⟩ : Vec Float32).IsFinite := ⟨by decide +kernel, by decide +kernel⟩
  have hmovers {P : Mover Float32 → Prop} (hfirst : P (.ball attractedBalls.balls[0]))
      (hsecond : P (.ball attractedBalls.balls[1])) : ∀ m ∈ attractedBalls.movers, P m :=
    List.forall_mem_cons.mpr ⟨hfirst, List.forall_mem_cons.mpr ⟨hsecond, List.forall_mem_nil P⟩⟩
  have hinertia : ∀ m ∈ attractedBalls.movers, m.HasInertia := hmovers rfl rfl
  have hfinite : attractedBalls.PushesFinitely 0.5 := by
    refine ⟨hmovers ?_ ?_, hmovers ?_ ?_, fun _ => ?_⟩
    · exact ⟨by decide +kernel, by decide +kernel⟩
    · exact ⟨by decide +kernel, by decide +kernel⟩
    · intro k hk
      obtain rfl : k = 0 := Nat.lt_one_iff.mp hk
      exact ⟨by decide +kernel +revert, by decide +kernel +revert⟩
    · intro k hk
      obtain rfl : k = 0 := Nat.lt_one_iff.mp hk
      exact ⟨by decide +kernel +revert, by decide +kernel +revert⟩
    · rw [Simulator.movers_integrateAll]
      refine List.pairwise_pair.mpr (.inr ?_)
      exact ⟨by decide +kernel, by decide +kernel⟩
  obtain ⟨hmass, hspin, hcenter⟩ := hball 1 _ rfl
  obtain ⟨hmass', hspin', hcenter'⟩ := hbox 1 3 _ rfl
  have hinv := hspin.mpr (by decide +kernel)
  have hinv' := hspin'.mpr (by decide +kernel)
  exact ⟨⟨_, rfl, hmass.mpr (by decide +kernel), hinv, (hcenter _ hpull).mpr hinv⟩,
    ⟨_, rfl, hmass'.mpr (by decide +kernel), hinv', (hcenter' _ hpull).mpr hinv'⟩,
    hfinite, hinertia, (hmove _ _ hfinite hinertia).1⟩

/-- A ball of radius `1e-20` is accepted, and the first impulse at its centre leaves an angular
velocity that is no number. So does a step under gravity. -/
theorem tiny_ball_loses_spin :
    ∃ b : Ball Float32, Ball.create ⟨0, 0⟩ ⟨0, 0⟩ 1 1e-20 0 0 = .ok b ∧
      b.spin.invInertia.isFinite = false ∧
      ((b.applyImpulse ⟨0, -9.8⟩ b.body.pos).spin.angVel == b.spin.angVel) = false ∧
      let s : Simulator Float32 := { Simulator.create ⟨1, 1, 0, 0, .allPairs, false⟩ with
        balls := #[b]
        fields := #[.earthGravity] }
      (s.simulate 1).balls.map (fun b => b.spin.angVel.isNaN) = #[true] := by
  refine ⟨_, rfl, ?_, ?_, ?_⟩ <;> decide +kernel

end PlanarDynamics
