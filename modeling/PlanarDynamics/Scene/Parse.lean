import PlanarDynamics.Random.Uniform
import PlanarDynamics.Scene.Directive
import PlanarDynamics.Text.Lines

/-!
# Scenes from text

The lines of a text are carried out from the first on, up to the end of the scene or the first line
that is at fault. Batches are drawn as they are met, so the words of the random source are used in
the order of the text.
-/

namespace PlanarDynamics

namespace SampleRange

/-- The ends are finite and in order. -/
def isProper (r : SampleRange) : Bool :=
  decide (r.lo ≤ r.hi) && (r.lo.isFinite && r.hi.isFinite)

/-- Draws from a range. Where the ends are equal no word is used. -/
def draw {γ : Type} [WordSource γ] (r : SampleRange) (source : γ) :
    Except LineFault (Float32 × γ) :=
  if r.isProper then
    if r.lo == r.hi then
      .ok (r.lo, source)
    else
      match Uniform.sample? r.lo r.hi source with
      | some result => .ok result
      | none => .error .wideRange
  else
    .error (.malformed "REPEAT")

end SampleRange

namespace Batch

variable {γ : Type} [WordSource γ]

/-- Draws one particle: `x`, `y`, mass, radius. -/
def drawOne (b : Batch) (source : γ) : Except LineFault (Command Float32 × γ) := do
  let (x, source) ← b.x.draw source
  let (y, source) ← b.y.draw source
  let (mass, source) ← b.mass.draw source
  let (radius, source) ← b.radius.draw source
  return (.particle mass radius ⟨x, y⟩ 0, source)

/-- Draws particles one after another and puts them in front of those drawn before. -/
def drawOnto (b : Batch) : Nat → List (Command Float32) → γ →
    Except LineFault (List (Command Float32) × γ)
  | 0, drawn, source => .ok (drawn, source)
  | n + 1, drawn, source => do
    let (particle, source) ← b.drawOne source
    b.drawOnto n (particle :: drawn) source

/-- Draws all particles of the batch. -/
def draw (b : Batch) (source : γ) : Except LineFault (List (Command Float32) × γ) := do
  let (drawn, source) ← b.drawOnto b.count [] source
  return (drawn.reverse, source)

end Batch

namespace Scene

variable {γ : Type} [WordSource γ]

/-- Carries out the directives of numbered lines, with the commands so far in reverse. -/
def parseLines (origin : String) : List (List Char × Nat) → Scene Float32 → γ →
    Except SceneError (Scene Float32 × γ)
  | [], scene, source => .ok (scene, source)
  | (line, number) :: rest, scene, source =>
    match Directive.ofLine line with
    | .error fault => .error (.atLine origin number fault)
    | .ok .skip => parseLines origin rest scene source
    | .ok (.viewport v) => parseLines origin rest { scene with viewport := some v } source
    | .ok (.title t) => parseLines origin rest { scene with title := some t } source
    | .ok (.command c) =>
      parseLines origin rest { scene with commands := c :: scene.commands } source
    | .ok (.batch b) =>
      match b.draw source with
      | .error fault => .error (.atLine origin number fault)
      | .ok (drawn, source) =>
        parseLines origin rest { scene with commands := drawn.reverse ++ scene.commands } source
    | .ok .stop => .ok (scene, source)

/-- The scene that a text describes. `origin` names the text in errors. -/
def parse (text origin : String) (source : γ) : Except SceneError (Scene Float32 × γ) := do
  let (scene, source) ← parseLines origin ((Text.lines text.toList).zipIdx 1) .empty source
  return ({ scene with commands := scene.commands.reverse }, source)

end Scene

end PlanarDynamics
