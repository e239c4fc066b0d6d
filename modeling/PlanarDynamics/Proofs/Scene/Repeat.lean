import PlanarDynamics.Proofs.Binary32.Overflow
import PlanarDynamics.Proofs.Scene.Interpretation

/-!
# Words of a batch

A quantity takes one word of the random source if its range has more than one number, and none
otherwise. All particles of a batch take equally many words, so each one is made of words whose
place is known in advance, and what a line draws does not shift with the numbers drawn before.
-/

namespace PlanarDynamics

variable {γ : Type} [WordSource γ] {source rest : γ}

namespace WordSource

/-- The source that is left after `n` words. -/
def after (source : γ) (n : ℕ) : γ := (fun source => (next source).2)^[n] source

/-- The word after `n` others. -/
def word (source : γ) (n : ℕ) : UInt32 := (next (after source n)).1

theorem next_after (source : γ) (n : ℕ) : (next (after source n)).2 = after source (n + 1) :=
  (Function.iterate_succ_apply' (fun source => (next source).2) n source).symm

end WordSource

open WordSource

namespace SampleRange

variable {r : SampleRange} {x : Float32}

/-- The number lies in the range. -/
structure Contains (r : SampleRange) (x : Float32) : Prop where
  lo_le : r.lo ≤ x
  le_hi : x ≤ r.hi

/-- The number of words that a quantity takes. -/
def words (r : SampleRange) : ℕ := if r.lo < r.hi then 1 else 0

/-- The quantity that comes of a word, which is not looked at if the range is a point. -/
def pick (r : SampleRange) (word : UInt32) : Option Float32 :=
  if r.lo < r.hi then
    (Uniform.scale? r.lo r.hi).map fun scale => Uniform.fraction word * scale + r.lo
  else
    some r.lo

/-- A proper range is a point exactly if its ends are equal. -/
theorem lt_iff_of_isProper (h : r.isProper = true) : r.lo < r.hi ↔ (r.lo == r.hi) = false := by
  rw [isProper, Bool.and_eq_true, decide_eq_true_eq] at h
  obtain ⟨hlo, hhi⟩ := Binary32.isNaN_eq_false_of_le h.1
  have hle := (Binary32.le_iff_value_le hlo hhi).mp h.1
  rw [← Bool.not_eq_true, Binary32.beq_iff_value_eq hlo hhi, Binary32.lt_iff_value_lt hlo hhi]
  exact ⟨ne_of_lt, hle.lt_of_ne⟩

theorem Gives.eq_pick {n : ℕ} (hproper : r.isProper = true)
    (h : r.Gives (after source n) x rest) :
    r.pick (word source n) = some x ∧ rest = after source (n + r.words) ∧ r.Contains x := by
  have hlt := lt_iff_of_isProper hproper
  rw [isProper, Bool.and_eq_true, decide_eq_true_eq, Bool.and_eq_true] at hproper
  obtain ⟨hle, hlo, hhi⟩ := hproper
  rw [pick, words]
  cases h with
  | point heq =>
    have hnot : ¬ r.lo < r.hi := by
      rw [hlt, heq]
      exact Bool.noConfusion
    rw [if_neg hnot, if_neg hnot]
    exact ⟨rfl, rfl, (OrderedKeys.isKey_of_le hle).1, hle⟩
  | sampled hne hsample =>
    have hlt := hlt.mpr hne
    rw [if_pos hlt, if_pos hlt, ← next_after]
    obtain ⟨hlow, hhigh, hrest⟩ := Uniform.sample?_bounds hlo hhi hlt hsample
    obtain ⟨scale, hscale, hx⟩ := Option.map_eq_some_iff.mp hsample
    rw [hscale]
    exact ⟨congrArg some (Prod.mk.inj hx).1, hrest, hlow, hhigh⟩

end SampleRange

namespace Batch

variable {b : Batch} {particle : Command Float32} {particles : List (Command Float32)} {n : ℕ}

/-- The number of words that a particle takes. -/
def words (b : Batch) : ℕ := b.x.words + b.y.words + b.mass.words + b.radius.words

/-- The particle is at rest, and its position, mass and radius come in this order of the words from
the `n`-th on, one for each range that is not a point, and lie in their ranges. -/
inductive Makes (b : Batch) (word : ℕ → UInt32) (n : ℕ) : Command Float32 → Prop
  | particle {x y mass radius : Float32} :
    b.x.pick (word n) = some x →
    b.y.pick (word (n + b.x.words)) = some y →
    b.mass.pick (word (n + b.x.words + b.y.words)) = some mass →
    b.radius.pick (word (n + b.x.words + b.y.words + b.mass.words)) = some radius →
    b.x.Contains x → b.y.Contains y → b.mass.Contains mass → b.radius.Contains radius →
    isMass mass = true →
      Makes b word n (.particle mass radius ⟨x, y⟩ 0)

theorem GivesOne.makes (hproper : ∀ r ∈ b.ranges, r.isProper = true)
    (hmass : isMass b.mass.lo = true) (h : b.GivesOne (after source n) particle rest) :
    b.Makes (word source) n particle ∧ rest = after source (n + b.words) := by
  simp only [ranges, List.forall_mem_cons] at hproper
  obtain ⟨hpx, hpy, hpmass, hpradius, -⟩ := hproper
  cases h with
  | particle hx hy hm hr =>
    obtain ⟨hpickx, rfl, hinx⟩ := hx.eq_pick hpx
    obtain ⟨hpicky, rfl, hiny⟩ := hy.eq_pick hpy
    obtain ⟨hpickm, rfl, hinm⟩ := hm.eq_pick hpmass
    obtain ⟨hpickr, rfl, hinr⟩ := hr.eq_pick hpradius
    refine ⟨.particle hpickx hpicky hpickm hpickr hinx hiny hinm hinr (hm.isMass hpmass hmass), ?_⟩
    rw [words, ← Nat.add_assoc, ← Nat.add_assoc, ← Nat.add_assoc]

/-- Particles follow each other in the words as in the list. -/
theorem Gives.makes {k : ℕ} (hproper : 0 < k → ∀ r ∈ b.ranges, r.isProper = true)
    (hmass : isMass b.mass.lo = true) (h : b.Gives k (after source n) particles rest) :
    particles.length = k ∧ rest = after source (n + k * b.words) ∧
      ∀ i particle, particles[i]? = some particle →
        b.Makes (word source) (n + i * b.words) particle := by
  -- Each particle starts where the one before it ended, so the place in the words is generalized.
  generalize hstart : after source n = start at h
  induction h generalizing n with
  | zero => exact ⟨rfl, by rw [Nat.zero_mul, Nat.add_zero, hstart], nofun⟩
  | succ hone _ ih =>
    subst hstart
    obtain ⟨hfirst, rfl⟩ := hone.makes (hproper (Nat.succ_pos _)) hmass
    obtain ⟨hlength, hrest, hmakes⟩ := ih (fun _ => hproper (Nat.succ_pos _)) rfl
    have hplace (i : ℕ) : n + b.words + i * b.words = n + (i + 1) * b.words := by ring
    refine ⟨congrArg (· + 1) hlength, by rw [hrest, hplace], fun i particle hi => ?_⟩
    cases i with
    | zero =>
      obtain rfl := Option.some.inj hi
      rw [Nat.zero_mul, Nat.add_zero]
      exact hfirst
    | succ i =>
      rw [← hplace]
      exact hmakes i particle hi

end Batch

namespace Scene

open Directive

variable {commands : List (Command Float32)} {scene : Scene Float32}
  {before after : List (List Char)} {line : List Char} {origin text : String}

theorem Carries.of_append {ds ds' : List Directive} (h : Carries (ds ++ ds') source commands rest) :
    ∃ first middle more, Carries ds source first middle ∧ Carries ds' middle more rest ∧
      commands = first ++ more := by
  induction ds generalizing source commands with
  | nil => exact ⟨[], source, commands, .nil source, h, rfl⟩
  | cons d ds ih =>
    cases h with
    | @cons _ _ _ _ _ issued _ hissues hrest =>
      obtain ⟨first, middle, more, hfirst, hmore, rfl⟩ := ih hrest
      exact ⟨issued ++ first, middle, more, .cons hissues hfirst, hmore,
        (List.append_assoc ..).symm⟩

/-- Around a line, the lines before it are interpreted on their own, and those after it from the
source that it leaves. -/
theorem Interprets.of_line (h : Interprets (before ++ line :: after) source scene rest) :
    ∃ earlier start d issued middle later, Interprets before source earlier start ∧
      Accepts line d ∧ Issues start d issued middle ∧ Interprets after middle later rest ∧
        scene.commands = earlier.commands ++ issued ++ later.commands := by
  obtain ⟨ds, hds, hcarries, -⟩ := h
  have hfirst := (List.forall₂_take_append ds before (line :: after) hds.flip).flip
  have hothers := (List.forall₂_drop_append ds before (line :: after) hds.flip).flip
  rw [← List.take_append_drop before.length ds] at hcarries
  obtain ⟨earlier, start, tail, hearlier, htail, hcommands⟩ := hcarries.of_append
  obtain ⟨d, more, haccepts, hmore, heq⟩ := List.forall₂_cons_left_iff.mp hothers
  rw [heq] at htail
  cases htail with
  | @cons _ _ _ middle _ issued later hissues hlater =>
    refine ⟨⟨_, _, earlier⟩, start, d, issued, middle, ⟨_, _, later⟩,
      ⟨_, hfirst, hearlier, rfl, rfl⟩, haccepts, hissues, ⟨more, hmore, hlater, rfl, rfl⟩, ?_⟩
    rw [hcommands, List.append_assoc]

/-- An accepted line that starts with a keyword is a phrase of it. -/
theorem phrase_of_accepts {d : Directive} {keyword : Keyword} {args : List (List Char)}
    (haccepts : Accepts line d) (hline : StartsWith line keyword args) (hstop : keyword ≠ .stop)
    (htitle : keyword ≠ .title) : Phrase keyword args d := by
  have hread : readAfter line args keyword = .ok d := by
    rw [← ofLine_of_startsWith hline, ofLine_of_reads haccepts.reads,
      checked_of_mass haccepts.mass]
  have hdecides : Decides keyword args (readAfter line args keyword) :=
    decides_readAfter hstop htitle
  obtain ⟨hphrase, hother⟩ := hdecides
  by_cases hexists : ∃ d', Phrase keyword args d'
  · obtain ⟨d', hd'⟩ := hexists
    obtain rfl := eq_of_checked ((hphrase d' hd').symm.trans hread)
    exact hd'
  · rw [hother (not_exists.mp hexists)] at hread
    cases hread

/-- A batch of particles in a text that is parsed adds as many commands as its count says, none if
that is negative, between those of the lines before and after it. Each is a particle at rest with
its quantities in their ranges and a proper mass, and takes the words of the source in turn: one for
each range that is not a point, in the order `x`, `y`, mass, radius. -/
theorem parse_draws_batch {c : List Char} {args : List (List Char)}
    (hparse : parse text origin source = .ok (scene, rest))
    (hbody : body text = before ++ line :: after)
    (hline : StartsWith line .batch (c :: "PARTICLE".toList :: args)) :
    ∃ (count : ℤ) (b : Batch) (earlier later : Scene Float32) (start : γ)
      (drawn : List (Command Float32)),
      Decimal.readInt64? c = some count ∧
      AreNumbers args [b.mass.lo, b.mass.hi, b.radius.lo, b.radius.hi, b.x.lo, b.x.hi, b.y.lo,
        b.y.hi] ∧
      Interprets before source earlier start ∧
      Interprets after (WordSource.after start (drawn.length * b.words)) later rest ∧
      scene.commands = earlier.commands ++ drawn ++ later.commands ∧
      drawn.length = max count 0 ∧
      ∀ i particle, drawn[i]? = some particle →
        b.Makes (word start) (i * b.words) particle := by
  obtain ⟨earlier, start, d, drawn, middle, later, hearlier, haccepts, hissues, hlater,
    hcommands⟩ := (hbody ▸ parse_eq_ok_iff.mp hparse).of_line
  have hphrase := phrase_of_accepts haccepts hline nofun nofun
  cases hphrase with
  | otherBatch _ hitem => exact absurd rfl hitem
  | @batch _ _ count m₀ m₁ r₀ r₁ x₀ x₁ y₀ y₁ hcount hnumbers =>
    cases hissues with
    | batch hgives =>
      have hmass := haccepts.mass _ rfl
      obtain ⟨hlength, rfl, hmakes⟩ :=
        Batch.Gives.makes (n := 0) (haccepts.ranges _ rfl) hmass hgives
      simp only [Nat.zero_add] at hlater hmakes
      refine ⟨count, _, earlier, later, start, drawn, hcount, hnumbers, hearlier, ?_, hcommands, ?_,
        hmakes⟩
      · rw [hlength]
        exact hlater
      · rw [hlength]
        exact Int.toNat_eq_max count

/-- Two particles between a line and a field, whose radius takes no word. -/
theorem parse_draws_batch_between :
    let text := "LINE 0 0 1 0\nREPEAT 2 PARTICLE 1 2 1 1 0 4 -1 1\nGRAVITY"
    ∃ scene rest, parse text "" (LinearGenerator.mk 0) = .ok (scene, rest) ∧
      body text = ["LINE 0 0 1 0".toList] ++
        "REPEAT 2 PARTICLE 1 2 1 1 0 4 -1 1".toList :: ["GRAVITY".toList] ∧
      StartsWith "REPEAT 2 PARTICLE 1 2 1 1 0 4 -1 1".toList .batch ("2".toList ::
        "PARTICLE".toList :: ["1", "2", "1", "1", "0", "4", "-1", "1"].map String.toList) ∧
      ∃ earlier drawn later : List (Command Float32),
        scene.commands = earlier ++ drawn ++ later ∧ drawn.length = 2 := by
  intro text
  have hbody : body text = ["LINE 0 0 1 0".toList] ++
      "REPEAT 2 PARTICLE 1 2 1 1 0 4 -1 1".toList :: ["GRAVITY".toList] := by decide +kernel
  have hline : StartsWith "REPEAT 2 PARTICLE 1 2 1 1 0 4 -1 1".toList .batch ("2".toList ::
      "PARTICLE".toList :: ["1", "2", "1", "1", "0", "4", "-1", "1"].map String.toList) := by
    unfold StartsWith
    decide +kernel
  have hparsed : ((parse text "" (LinearGenerator.mk 0)).toOption).isSome = true := by
    decide +kernel
  cases hparse : parse text "" (LinearGenerator.mk 0) with
  | error e =>
    rw [hparse] at hparsed
    cases hparsed
  | ok result =>
  obtain ⟨scene, rest⟩ := result
  obtain ⟨count, b, earlier, later, start, drawn, hcount, -, -, -, hcommands, hlength, -⟩ :=
    parse_draws_batch hparse hbody hline
  have htwo : Decimal.readInt64? "2".toList = some 2 := by decide +kernel
  obtain rfl := Option.some.inj (htwo.symm.trans hcount)
  exact ⟨scene, rest, rfl, hbody, hline, earlier.commands, drawn, later.commands, hcommands,
    Int.ofNat_inj.mp hlength⟩

end Scene

end PlanarDynamics
