import PlanarDynamics.Decimal.Binary32
import PlanarDynamics.Shape.Body

/-!
# Scene errors

What is wrong with a scene's text, and what keeps it from being read at all, with the wording where
there is one.
-/

namespace PlanarDynamics

/-- The wording of a refused mass. -/
def MassError.message (e : MassError Float32) : String :=
  "mass must be finite and > 0, got " ++ Binary32.text .plain e.mass

/-- What is wrong with a line. -/
inductive LineFault where
  /-- The words after the directive are not what it takes. -/
  | malformed (directive : String)
  /-- There is no such directive. -/
  | unknown (directive : String)
  | mass (cause : MassError Float32)
  /-- A range is too wide to be sampled. The run breaks off there and reports nothing. -/
  | wideRange
  deriving DecidableEq

/-- The wording of a fault that is reported, without the place. -/
def LineFault.message? : LineFault → Option String
  | malformed directive => some s!"invalid '{directive}' input"
  | unknown directive => some s!"unknown directive '{directive}'"
  | mass cause => some cause.message
  | wideRange => none

/-- Why a file cannot be read. -/
inductive ReadError where
  | notFound
  | notADirectory
  | isADirectory
  | invalidText
  deriving DecidableEq

/-- The wording of the reason. -/
def ReadError.message : ReadError → String
  | notFound => "No such file or directory (os error 2)"
  | notADirectory => "Not a directory (os error 20)"
  | isADirectory => "Is a directory (os error 21)"
  | invalidText => "stream did not contain valid UTF-8"

/-- Why there is no scene: a faulty line, named by the origin of the text and its number from one
on, or a file that cannot be read. -/
inductive SceneError where
  | atLine (origin : String) (line : Nat) (fault : LineFault)
  | unreadable (path : String) (cause : ReadError)
  deriving DecidableEq

/-- The wording of an error that is reported, with the place. -/
def SceneError.message? : SceneError → Option String
  | atLine origin line fault => fault.message?.map fun text => s!"{origin}:{line}: {text}"
  | unreadable path cause => some s!"failed to read {path}: {cause.message}"

end PlanarDynamics
