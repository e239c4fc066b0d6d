/-!
# Sources of random words

A source gives one 32-bit word at a time. Two sources that always give the same words serve where
what is drawn has to be known.
-/

namespace PlanarDynamics

/-- A state from which words are drawn one by one. -/
class WordSource (γ : Type) where
  next : γ → UInt32 × γ

/-- A linear congruential generator modulo `2 ^ 32`, which gives its new state. -/
structure LinearGenerator where
  state : UInt32
  deriving DecidableEq

instance : WordSource LinearGenerator where
  next g :=
    let state := g.state * 1664525 + 1013904223
    (state, ⟨state⟩)

/-- A list of words, given in turn and over again. -/
structure WordCycle where
  words : Array UInt32
  /-- The number of words given. -/
  given : Nat
  deriving DecidableEq

instance : WordSource WordCycle where
  next g := (g.words.getD (g.given % g.words.size) 0, { g with given := g.given + 1 })

end PlanarDynamics
