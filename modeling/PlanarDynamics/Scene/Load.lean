import PlanarDynamics.Scene.FileTree
import PlanarDynamics.Scene.Parse

/-!
# Scenes from files
-/

namespace PlanarDynamics

/-- Reads and parses the file at a path, which is also the origin that errors name. -/
def Scene.load {γ : Type} [WordSource γ] (tree : FileTree) (path : String) (source : γ) :
    Except SceneError (Scene Float32 × γ) :=
  match tree.readText path with
  | .error cause => .error (.unreadable path cause)
  | .ok text => parse text path source

end PlanarDynamics
