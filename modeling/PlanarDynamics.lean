import PlanarDynamics.ForceField.Text
import PlanarDynamics.Scalar.Binary32
import PlanarDynamics.Simulator.Step
import PlanarDynamics.Scene.Load
import PlanarDynamics.Proofs.IntervalTree.Layout
import PlanarDynamics.Proofs.IntervalTree.Stores
import PlanarDynamics.Proofs.IntervalTree.Descent
import PlanarDynamics.Proofs.IntervalTree.KeyOrder
import PlanarDynamics.Proofs.IntervalTree.Ordered
import PlanarDynamics.Proofs.IntervalTree.Search
import PlanarDynamics.Proofs.IntervalTree.Draws
import PlanarDynamics.Proofs.IntervalTree.Refinement
import PlanarDynamics.Proofs.Binary32.Format
import PlanarDynamics.Proofs.Binary32.Rounding
import PlanarDynamics.Proofs.Binary32.Value
import PlanarDynamics.Proofs.Binary32.Arithmetic
import PlanarDynamics.Proofs.Candidates.Widening
import PlanarDynamics.Proofs.Candidates.AllPairs
import PlanarDynamics.Proofs.LawfulScalar
import PlanarDynamics.Proofs.PointIndex.Basic
import PlanarDynamics.Proofs.PointIndex.KdTree
import PlanarDynamics.Proofs.PointIndex.RangeTree
import PlanarDynamics.Proofs.PointIndex.Once
import PlanarDynamics.Proofs.Candidates.IndexQuery
import PlanarDynamics.Proofs.Candidates.EventOrder
import PlanarDynamics.Proofs.Candidates.IntervalSweep
import PlanarDynamics.Proofs.IntervalTree.Balance
import PlanarDynamics.Proofs.IntervalTree.Checked
import PlanarDynamics.Proofs.IntervalTree.Slots
import PlanarDynamics.Proofs.Candidates.SortedSweep
import PlanarDynamics.Proofs.Candidates.SweepCoverage
import PlanarDynamics.Proofs.Candidates.Ascending
import PlanarDynamics.Proofs.PointIndex.Checked
import PlanarDynamics.Proofs.Candidates.Checked
import PlanarDynamics.Proofs.Simulator.Frame
import PlanarDynamics.Proofs.Simulator.Runs
import PlanarDynamics.Proofs.Simulator.Adjust
import PlanarDynamics.Proofs.Simulator.Calls
import PlanarDynamics.Proofs.Simulator.References
import PlanarDynamics.Proofs.Simulator.LeftOrder
import PlanarDynamics.Proofs.Simulator.StrategySwitch
import PlanarDynamics.Proofs.Simulator.Checked
import PlanarDynamics.Proofs.Binary32.Positive
import PlanarDynamics.Proofs.Random.Uniform
import PlanarDynamics.Proofs.Text.Blank
import PlanarDynamics.Proofs.Scene.Grammar
import PlanarDynamics.Proofs.Scene.Batches
import PlanarDynamics.Proofs.Scene.Lines
import PlanarDynamics.Proofs.Scene.Interpretation
import PlanarDynamics.Proofs.Scene.Apply
import PlanarDynamics.Proofs.Simulator.Meetings
import PlanarDynamics.Proofs.Simulator.Bystanders
import PlanarDynamics.Proofs.Simulator.Makes
import PlanarDynamics.Proofs.Simulator.Refreshed
import PlanarDynamics.Proofs.Binary32.Quotient
import PlanarDynamics.Proofs.Simulator.SubSteps
import PlanarDynamics.Proofs.Exact.Scalar
import PlanarDynamics.Proofs.Exact.Bounds
import PlanarDynamics.Proofs.Exact.Search
import PlanarDynamics.Proofs.Exact.Candidates
import PlanarDynamics.Proofs.Exact.Touching
import PlanarDynamics.Proofs.Exact.BoxCircle
import PlanarDynamics.Proofs.Exact.ParticleContact
import PlanarDynamics.Proofs.Binary32.Overflow
import PlanarDynamics.Proofs.Shape.Bounds
import PlanarDynamics.Proofs.Simulator.LastRefresh
import PlanarDynamics.Proofs.Scene.Repeat
import PlanarDynamics.Proofs.Binary32.Opposite
import PlanarDynamics.Proofs.Binary32.Reciprocal
import PlanarDynamics.Proofs.Contact.Order
import PlanarDynamics.Proofs.Shape.Spin
import PlanarDynamics.Proofs.Exact.LineContact
import PlanarDynamics.Proofs.Exact.BallSpin
import PlanarDynamics.Proofs.Exact.Attraction
import PlanarDynamics.Proofs.PointIndex.NotANumber
import PlanarDynamics.Proofs.Binary32.SquareRoot
import PlanarDynamics.Proofs.Binary32.Scale
import PlanarDynamics.Proofs.Geometry.Magnitude
import PlanarDynamics.Proofs.Geometry.Normalize
import PlanarDynamics.Proofs.Shape.Facing
import PlanarDynamics.Proofs.Shape.Kind
import PlanarDynamics.Proofs.Exact.Segment
import PlanarDynamics.Proofs.Exact.FreeFall
import PlanarDynamics.Proofs.PointIndex.Cascading
