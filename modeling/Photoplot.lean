import Photoplot.Scalar
import Photoplot.Binary64
import Photoplot.Decimal
import Photoplot.Decimal.Shortest
import Photoplot.Decimal.Fixed
import Photoplot.Precision
import Photoplot.Angle
import Photoplot.Point
import Photoplot.Box
import Photoplot.Segment
import Photoplot.Segment.Extent
import Photoplot.Diagnostic
import Photoplot.Options
import Photoplot.ArcMove
import Photoplot.Aperture
import Photoplot.Shape
import Photoplot.Flash
import Photoplot.Sweep
import Photoplot.Figure
import Photoplot.Stroke
import Photoplot.Plot
import Photoplot.Report.Number
import Photoplot.Report.Message
import Photoplot.Proofs.Options
import Photoplot.Proofs.Bounds
import Photoplot.Proofs.Binary64
import Photoplot.Proofs.Run
import Photoplot.Proofs.Run.Drawing
import Photoplot.Proofs.Run.Grouping
import Photoplot.Proofs.Run.Refusal
import Photoplot.Proofs.Run.Warnings
import Photoplot.Proofs.Run.Marks
import Photoplot.Proofs.Run.Idle
import Photoplot.Proofs.Run.Width
import Photoplot.Proofs.Exact
import Photoplot.Proofs.Exact.Turn
import Photoplot.Proofs.Exact.AxisWalk
import Photoplot.Proofs.Exact.Reach
import Photoplot.Proofs.Exact.Arc
import Photoplot.Proofs.Exact.Extent
import Photoplot.Proofs.Exact.Outline
import Photoplot.Proofs.Exact.Hole
import Photoplot.Proofs.Exact.QuarterArc
import Photoplot.Proofs.Exact.Coherence
import Photoplot.Proofs.Run.Hull
import Photoplot.Proofs.Exact.Places
import Photoplot.Proofs.Exact.RegularPolygon
import Photoplot.Proofs.Exact.Search
import Photoplot.Proofs.Chain
import Photoplot.Proofs.Exact.Polygon
import Photoplot.Proofs.Exact.Hexagon
import Photoplot.Proofs.Exact.Sweep
import Photoplot.Proofs.Exact.Displaced
import Photoplot.Proofs.Exact.Overhang
import Photoplot.Proofs.Run.Uninterpolated
import Photoplot.Proofs.Run.Displaced
import Photoplot.Proofs.Reversal
import Photoplot.Proofs.Exact.Reversal
import Photoplot.Proofs.Binary64.Finite
import Photoplot.Proofs.Chain.Joined
import Photoplot.Proofs.Chain.Rectangle
import Photoplot.Proofs.Binary64.Mismatch
import Photoplot.Proofs.Binary64.Value
import Photoplot.Proofs.Binary64.Rounding
import Photoplot.Proofs.Binary64.Difference
import Photoplot.Proofs.Binary64.Absorption
import Photoplot.Proofs.Binary64.Join
import Photoplot.Proofs.Binary64.Nearest
import Photoplot.Proofs.Binary64.Tolerance
import Photoplot.Proofs.Binary64.Turn
import Photoplot.Proofs.Binary64.Arctangent
import Photoplot.Proofs.Binary64.FullCircle
import Photoplot.Proofs.Binary64.QuarterArc
