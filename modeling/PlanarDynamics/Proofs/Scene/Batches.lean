import PlanarDynamics.Proofs.Random.Uniform
import PlanarDynamics.Scene.Parse

/-!
# Batches of drawn particles

What a batch gives, as a relation between the random source before and after, and when there is
nothing to give: the first of its ranges that cannot be drawn from decides.
-/

namespace PlanarDynamics

variable {γ : Type} [WordSource γ] {source rest : γ} {x : Float32} {fault : LineFault}

namespace SampleRange

variable {r : SampleRange}

/-- What a range gives, and the source that is left. -/
inductive Gives (r : SampleRange) (source : γ) : Float32 → γ → Prop
  | point : (r.lo == r.hi) = true → Gives r source r.lo source
  | sampled {x : Float32} {rest : γ} : (r.lo == r.hi) = false →
      Uniform.sample? r.lo r.hi source = some (x, rest) → Gives r source x rest

/-- The width of a proper range overflows when it is scaled. -/
def isTooWide (r : SampleRange) : Bool :=
  r.isProper && !(r.lo == r.hi) && !((r.hi - r.lo) / Uniform.largest).isFinite

/-- Why nothing can be drawn from a range. -/
def fault? (r : SampleRange) : Option LineFault :=
  if r.isTooWide then some .wideRange
  else if r.isProper then none
  else some (.malformed "REPEAT")

theorem draw_of_gives (hproper : r.isProper = true) (h : r.Gives source x rest) :
    r.draw source = .ok (x, rest) := by
  rw [draw, if_pos hproper]
  cases h with
  | point heq => rw [if_pos heq]
  | sampled hne hsample => rw [if_neg (by rw [hne]; exact Bool.false_ne_true), hsample]

/-- A proper range gives nothing only if its ends differ and their distance overflows. -/
theorem sample?_eq_none_iff (hproper : r.isProper = true) (hne : (r.lo == r.hi) = false) :
    Uniform.sample? r.lo r.hi source = none ↔ r.isTooWide = true := by
  rw [isTooWide, hproper, hne, Uniform.sample?, Option.map_eq_none_iff, Uniform.scale?]
  cases ((r.hi - r.lo) / Uniform.largest).isFinite <;> simp

/-- A range that begins with a mass gives masses. -/
theorem Gives.isMass (hproper : r.isProper = true) (hmass : isMass r.lo = true)
    (h : r.Gives source x rest) : isMass x = true := by
  cases h with
  | point => exact hmass
  | sampled hne hsample =>
    rw [isProper, Bool.and_eq_true, decide_eq_true_eq, Bool.and_eq_true] at hproper
    obtain ⟨hle, hlo, hhi⟩ := hproper
    have hlt : r.lo < r.hi := Binary32.lt_of_le_of_beq hle (by rw [hne]; exact Bool.false_ne_true)
    obtain ⟨hlow, hhigh, -⟩ := Uniform.sample?_bounds hlo hhi hlt hsample
    rw [PlanarDynamics.isMass, Bool.and_eq_true, decide_eq_true_eq] at hmass ⊢
    exact ⟨Binary32.isFinite_of_between hlo hhi hlow hhigh,
      OrderedKeys.lt_of_lt_of_le hmass.2 hlow⟩

theorem proper_of_fault? (h : r.fault? = none) : r.isProper = true ∧ r.isTooWide = false := by
  unfold fault? at h
  split at h
  case isTrue => cases h
  case isFalse hwidth =>
    split at h
    case isTrue hproper => exact ⟨hproper, Bool.eq_false_of_not_eq_true hwidth⟩
    case isFalse => cases h

theorem exists_gives (h : r.fault? = none) (source : γ) : ∃ x rest, r.Gives source x rest := by
  obtain ⟨hproper, hwidth⟩ := proper_of_fault? h
  cases heq : r.lo == r.hi with
  | true => exact ⟨_, _, .point heq⟩
  | false =>
    have hsample : Uniform.sample? r.lo r.hi source ≠ none := by
      rw [Ne, sample?_eq_none_iff hproper heq, hwidth]
      exact Bool.false_ne_true
    obtain ⟨⟨x, rest⟩, hx⟩ := Option.ne_none_iff_exists'.mp hsample
    exact ⟨x, rest, .sampled heq hx⟩

theorem draw_of_fault? (h : r.fault? = some fault) : r.draw source = .error fault := by
  unfold fault? at h
  split at h
  case isTrue hwidth =>
    obtain rfl := Option.some.inj h
    have hproper : r.isProper = true ∧ (r.lo == r.hi) = false := by
      simp only [isTooWide, Bool.and_eq_true, Bool.not_eq_true'] at hwidth
      exact hwidth.1
    rw [draw, if_pos hproper.1, if_neg (by rw [hproper.2]; exact Bool.false_ne_true),
      (sample?_eq_none_iff hproper.1 hproper.2).mpr hwidth]
  case isFalse =>
    split at h
    case isTrue => cases h
    case isFalse hproper =>
      obtain rfl := Option.some.inj h
      rw [draw, if_neg hproper]

end SampleRange

namespace Batch

variable {b : Batch} {particle : Command Float32} {particles : List (Command Float32)} {n : Nat}

/-- The ranges in the order in which they are drawn from. -/
def ranges (b : Batch) : List SampleRange := [b.x, b.y, b.mass, b.radius]

/-- One particle at rest, whose quantities are drawn in turn. -/
inductive GivesOne (b : Batch) (source : γ) : Command Float32 → γ → Prop
  | particle {x y mass radius : Float32} {source₁ source₂ source₃ rest : γ} :
    b.x.Gives source x source₁ → b.y.Gives source₁ y source₂ → b.mass.Gives source₂ mass source₃ →
      b.radius.Gives source₃ radius rest →
        GivesOne b source (.particle mass radius ⟨x, y⟩ 0) rest

/-- A number of particles, drawn one after another. -/
inductive Gives (b : Batch) : Nat → γ → List (Command Float32) → γ → Prop
  | zero (source : γ) : Gives b 0 source [] source
  | succ {n : Nat} {source source₁ rest : γ} {particle : Command Float32}
    {particles : List (Command Float32)} : b.GivesOne source particle source₁ →
      Gives b n source₁ particles rest → Gives b (n + 1) source (particle :: particles) rest

/-- Why nothing can be drawn: the fault of the first range that has one. A batch of no particles
draws from none. -/
def fault? (b : Batch) : Option LineFault :=
  if b.count = 0 then none else b.ranges.findSome? SampleRange.fault?

/-- A fault is that of a range that is too wide or not proper. -/
theorem eq_or_eq_of_fault? (h : b.fault? = some fault) : fault = .wideRange ∨
    fault = .malformed "REPEAT" ∧ 0 < b.count ∧ ∃ r ∈ b.ranges, r.isProper = false := by
  unfold fault? at h
  split at h
  case isTrue => cases h
  case isFalse hcount =>
    obtain ⟨r, hr, hfault⟩ := List.exists_of_findSome?_eq_some h
    unfold SampleRange.fault? at hfault
    split at hfault
    case isTrue => exact .inl (Option.some.inj hfault).symm
    case isFalse =>
      split at hfault
      case isTrue => cases hfault
      case isFalse hproper =>
        exact .inr ⟨(Option.some.inj hfault).symm, Nat.pos_of_ne_zero hcount, r, hr,
          Bool.eq_false_of_not_eq_true hproper⟩

theorem drawOne_of_gives (hproper : ∀ r ∈ b.ranges, r.isProper = true)
    (h : b.GivesOne source particle rest) : b.drawOne source = .ok (particle, rest) := by
  simp only [ranges, List.forall_mem_cons] at hproper
  obtain ⟨hpx, hpy, hpmass, hpradius, -⟩ := hproper
  cases h with
  | particle hx hy hmass hradius =>
    simp only [drawOne, bind, Except.bind, SampleRange.draw_of_gives hpx hx,
      SampleRange.draw_of_gives hpy hy, SampleRange.draw_of_gives hpmass hmass,
      SampleRange.draw_of_gives hpradius hradius]
    rfl

theorem exists_givesOne (h : b.ranges.findSome? SampleRange.fault? = none) (source : γ) :
    ∃ particle rest, b.GivesOne source particle rest := by
  simp only [List.findSome?_eq_none_iff, ranges, List.forall_mem_cons] at h
  obtain ⟨hx, hy, hmass, hradius, -⟩ := h
  obtain ⟨x, source₁, hx⟩ := SampleRange.exists_gives hx source
  obtain ⟨y, source₂, hy⟩ := SampleRange.exists_gives hy source₁
  obtain ⟨mass, source₃, hmass⟩ := SampleRange.exists_gives hmass source₂
  obtain ⟨radius, rest, hradius⟩ := SampleRange.exists_gives hradius source₃
  exact ⟨_, rest, .particle hx hy hmass hradius⟩

/-- A range without a fault gives a number, and the next one decides. -/
theorem draw_bind_of_fault? {β : Type} {r : SampleRange} {ranges : List SampleRange}
    {next : Float32 × γ → Except LineFault β}
    (h : (r :: ranges).findSome? SampleRange.fault? = some fault)
    (hnext : ∀ x source, ranges.findSome? SampleRange.fault? = some fault →
      next (x, source) = .error fault) : (r.draw source >>= next) = .error fault := by
  rw [List.findSome?_cons] at h
  cases hr : r.fault? with
  | some f =>
    rw [hr] at h
    obtain rfl := Option.some.inj h
    rw [SampleRange.draw_of_fault? hr]
    rfl
  | none =>
    rw [hr] at h
    obtain ⟨x, rest, hx⟩ := SampleRange.exists_gives hr source
    rw [SampleRange.draw_of_gives (SampleRange.proper_of_fault? hr).1 hx]
    exact hnext x rest h

theorem drawOne_of_fault? (h : b.ranges.findSome? SampleRange.fault? = some fault) :
    b.drawOne source = .error fault := by
  refine draw_bind_of_fault? h fun x source₁ h => ?_
  refine draw_bind_of_fault? h fun y source₂ h => ?_
  refine draw_bind_of_fault? h fun mass source₃ h => ?_
  refine draw_bind_of_fault? h fun radius rest h => ?_
  cases h

theorem drawOnto_of_gives {drawn : List (Command Float32)}
    (hproper : 0 < n → ∀ r ∈ b.ranges, r.isProper = true) (h : b.Gives n source particles rest) :
    b.drawOnto n drawn source = .ok (particles.reverse ++ drawn, rest) := by
  induction h generalizing drawn with
  | zero => rfl
  | succ hone _ ih =>
    rw [drawOnto, drawOne_of_gives (hproper (Nat.succ_pos _)) hone, List.reverse_cons,
      List.append_assoc]
    exact ih fun _ => hproper (Nat.succ_pos _)

theorem draw_of_gives (hproper : 0 < b.count → ∀ r ∈ b.ranges, r.isProper = true)
    (h : b.Gives b.count source particles rest) : b.draw source = .ok (particles, rest) := by
  rw [draw, drawOnto_of_gives hproper h, List.append_nil]
  exact congrArg Except.ok (Prod.ext (List.reverse_reverse _) rfl)

theorem exists_gives (h : b.ranges.findSome? SampleRange.fault? = none) (n : Nat) (source : γ) :
    ∃ particles rest, b.Gives n source particles rest := by
  induction n generalizing source with
  | zero => exact ⟨[], source, .zero source⟩
  | succ n ih =>
    obtain ⟨particle, source₁, hone⟩ := exists_givesOne h source
    obtain ⟨particles, rest, hmany⟩ := ih source₁
    exact ⟨particle :: particles, rest, .succ hone hmany⟩

theorem exists_gives_of_fault? (h : b.fault? = none) (source : γ) :
    (0 < b.count → ∀ r ∈ b.ranges, r.isProper = true) ∧
      ∃ particles rest, b.Gives b.count source particles rest := by
  unfold fault? at h
  split at h
  case isTrue hzero =>
    rw [hzero]
    exact ⟨fun hpos => absurd hpos (Nat.lt_irrefl 0), [], source, .zero source⟩
  case isFalse =>
    have hproper := List.findSome?_eq_none_iff.mp h
    exact ⟨fun _ r hr => (SampleRange.proper_of_fault? (hproper r hr)).1,
      exists_gives h b.count source⟩

theorem draw_of_fault? (h : b.fault? = some fault) : b.draw source = .error fault := by
  unfold fault? at h
  split at h
  case isTrue => cases h
  case isFalse hcount =>
    obtain ⟨n, hn⟩ := Nat.exists_eq_succ_of_ne_zero hcount
    rw [draw, hn, drawOnto, drawOne_of_fault? h]
    rfl

end Batch

end PlanarDynamics
