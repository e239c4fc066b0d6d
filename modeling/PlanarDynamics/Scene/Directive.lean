import PlanarDynamics.Decimal.Read
import PlanarDynamics.Scalar.Binary32
import PlanarDynamics.Scene.Command
import PlanarDynamics.Scene.Error
import PlanarDynamics.Text.Blank

/-!
# Directives

What a single line of a scene's text asks for. A line is read without regard to the lines around it
and without drawing random words.
-/

namespace PlanarDynamics

/-- Ends of a closed range in the order given. -/
structure SampleRange where
  lo : Float32
  hi : Float32
  deriving DecidableEq

/-- A number of particles at rest, with each quantity drawn from a range. -/
structure Batch where
  count : Nat
  mass : SampleRange
  radius : SampleRange
  x : SampleRange
  y : SampleRange
  deriving DecidableEq

/-- The meaning of a line. -/
inductive Directive where
  /-- Nothing: a blank line, a comment, or a batch of something other than particles. -/
  | skip
  | viewport (v : Viewport Float32)
  | title (text : String)
  | command (c : Command Float32)
  | batch (b : Batch)
  /-- The scene ends here. -/
  | stop
  deriving DecidableEq

namespace Directive

/-- All words as numbers. -/
def numbers (directive : String) (args : List (List Char)) : Except LineFault (List Float32) :=
  match args.mapM Decimal.readFloat? with
  | some xs => .ok xs
  | none => .error (.malformed directive)

/-- A mass that a shape may have. -/
def checkMass (mass : Float32) : Except LineFault Float32 :=
  if isMass mass then .ok mass else .error (.mass ⟨mass⟩)

/-- The velocity, angle and angular velocity that may follow the position of a rigid shape; those
left out are zero. -/
def motion? : List Float32 → Option (Vec Float32 × Float32 × Float32)
  | [] => some (0, 0, 0)
  | [vx, vy] => some (⟨vx, vy⟩, 0, 0)
  | [vx, vy, angle] => some (⟨vx, vy⟩, angle, 0)
  | [vx, vy, angle, angVel] => some (⟨vx, vy⟩, angle, angVel)
  | _ => none

/-- `SIZE width height left top right bottom`. -/
def readSize (args : List (List Char)) : Except LineFault Directive :=
  match args with
  | w :: h :: rest =>
    match Decimal.readUInt32? w, Decimal.readUInt32? h, rest.mapM Decimal.readFloat? with
    | some width, some height, some [left, top, right, bottom] =>
      .ok (.viewport ⟨width, height, left, top, right, bottom⟩)
    | _, _, _ => .error (.malformed "SIZE")
  | _ => .error (.malformed "SIZE")

/-- `TITLE text`: what follows the directive on the line, without the blanks around it. -/
def readTitle (line : List Char) : Except LineFault Directive :=
  let text := Text.trim ((Text.trimStart line).drop "TITLE".length)
  if text.isEmpty then .error (.malformed "TITLE") else .ok (.title (String.ofList text))

/-- `LINE x1 y1 x2 y2 [px py]`. -/
def readLine (args : List (List Char)) : Except LineFault Directive := do
  match ← numbers "LINE" args with
  | [x₁, y₁, x₂, y₂] => return .command (.line ⟨x₁, y₁⟩ ⟨x₂, y₂⟩ none)
  | [x₁, y₁, x₂, y₂, px, py] => return .command (.line ⟨x₁, y₁⟩ ⟨x₂, y₂⟩ (some ⟨px, py⟩))
  | _ => throw (.malformed "LINE")

/-- `PARTICLE mass radius x y [vx vy]`. -/
def readParticle (args : List (List Char)) : Except LineFault Directive := do
  match ← numbers "PARTICLE" args with
  | [m, radius, x, y] => return .command (.particle (← checkMass m) radius ⟨x, y⟩ 0)
  | [m, radius, x, y, vx, vy] =>
    return .command (.particle (← checkMass m) radius ⟨x, y⟩ ⟨vx, vy⟩)
  | _ => throw (.malformed "PARTICLE")

/-- `BALL mass radius x y [vx vy [angle [angular velocity]]]`. -/
def readBall (args : List (List Char)) : Except LineFault Directive := do
  match ← numbers "BALL" args with
  | m :: radius :: x :: y :: rest =>
    match motion? rest with
    | some (vel, angle, angVel) =>
      return .command (.ball (← checkMass m) radius ⟨x, y⟩ vel angle angVel)
    | none => throw (.malformed "BALL")
  | _ => throw (.malformed "BALL")

/-- `BOX mass width height x y [vx vy [angle [angular velocity]]]`. -/
def readBox (args : List (List Char)) : Except LineFault Directive := do
  match ← numbers "BOX" args with
  | m :: width :: height :: x :: y :: rest =>
    match motion? rest with
    | some (vel, angle, angVel) =>
      return .command (.box (← checkMass m) width height ⟨x, y⟩ vel angle angVel)
    | none => throw (.malformed "BOX")
  | _ => throw (.malformed "BOX")

/-- `GRAVITY [gx gy]`, by default that of the earth. -/
def readGravity (args : List (List Char)) : Except LineFault Directive := do
  match ← numbers "GRAVITY" args with
  | [] => return .command (.gravity ForceField.earthAcceleration)
  | [gx, gy] => return .command (.gravity ⟨gx, gy⟩)
  | _ => throw (.malformed "GRAVITY")

/-- `REPEAT count PARTICLE` and the ends of the ranges of mass, radius, x and y. A count below zero
is zero, and batches of anything else are skipped. -/
def readRepeat (args : List (List Char)) : Except LineFault Directive :=
  match args with
  | c :: item :: rest =>
    match Decimal.readInt64? c with
    | none => .error (.malformed "REPEAT")
    | some count =>
      if String.ofList item = "PARTICLE" then do
        match ← numbers "REPEAT" rest with
        | [m₀, m₁, r₀, r₁, x₀, x₁, y₀, y₁] =>
          let m₀ ← checkMass m₀
          return .batch ⟨count.toNat, ⟨m₀, m₁⟩, ⟨r₀, r₁⟩, ⟨x₀, x₁⟩, ⟨y₀, y₁⟩⟩
        | _ => throw (.malformed "REPEAT")
      else
        .ok .skip
  | _ => .error (.malformed "REPEAT")

/-- The meaning of a line. -/
def ofLine (line : List Char) : Except LineFault Directive :=
  match Text.words line with
  | [] => .ok .skip
  | first :: args =>
    if first.head? = some '#' then
      .ok .skip
    else
      match String.ofList first with
      | "SIZE" => readSize args
      | "TITLE" => readTitle line
      | "LINE" => readLine args
      | "PARTICLE" => readParticle args
      | "BALL" => readBall args
      | "BOX" => readBox args
      | "GRAVITY" => readGravity args
      | "REPEAT" => readRepeat args
      | "END" => .ok .stop
      | name => .error (.unknown name)

end Directive

end PlanarDynamics
