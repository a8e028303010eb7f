import FleetHealth.Anomaly.Detector
import FleetHealth.Binary64
import FleetHealth.Capacity.Fleet
import FleetHealth.Capacity.Forecast
import FleetHealth.Capacity.Line
import FleetHealth.Command.Request
import FleetHealth.Command.Run
import FleetHealth.Command.Switches
import FleetHealth.Correlation.Coefficient
import FleetHealth.Correlation.Pairing
import FleetHealth.Decimal.Digits
import FleetHealth.Decimal.Reading
import FleetHealth.Decimal.Shortest
import FleetHealth.Diagnosis.Pattern
import FleetHealth.Diagnosis.Scorer
import FleetHealth.Index
import FleetHealth.Instant
import FleetHealth.Instant.Calendar
import FleetHealth.Instant.Text
import FleetHealth.Json
import FleetHealth.Json.Fields
import FleetHealth.Json.Reader
import FleetHealth.Json.Writer
import FleetHealth.Main
import FleetHealth.Metric
import FleetHealth.Monitor.Engine
import FleetHealth.Monitor.Journal
import FleetHealth.Proofs.Anomaly.FlatWindow
import FleetHealth.Proofs.Anomaly.HeldValues
import FleetHealth.Proofs.Binary64.Arithmetic
import FleetHealth.Proofs.Binary64.Bounds
import FleetHealth.Proofs.Binary64.DecimalPlaces
import FleetHealth.Proofs.Binary64.Decimals
import FleetHealth.Proofs.Binary64.Errors
import FleetHealth.Proofs.Binary64.Exact
import FleetHealth.Proofs.Binary64.Finite
import FleetHealth.Proofs.Binary64.Nearest
import FleetHealth.Proofs.Binary64.Order
import FleetHealth.Proofs.Binary64.Ranks
import FleetHealth.Proofs.Binary64.Rounding
import FleetHealth.Proofs.Binary64.Signed
import FleetHealth.Proofs.Binary64.Sums
import FleetHealth.Proofs.Binary64.Within
import FleetHealth.Proofs.Binary64.Zeros
import FleetHealth.Proofs.Capacity.Consistency
import FleetHealth.Proofs.Capacity.Crossing
import FleetHealth.Proofs.Capacity.Drift
import FleetHealth.Proofs.Capacity.Eligibility
import FleetHealth.Proofs.Capacity.FlatLine
import FleetHealth.Proofs.Capacity.FlatSeries
import FleetHealth.Proofs.Capacity.LeastSquares
import FleetHealth.Proofs.Capacity.Points
import FleetHealth.Proofs.Capacity.Selection
import FleetHealth.Proofs.Capacity.Stride
import FleetHealth.Proofs.Capacity.Thinning
import FleetHealth.Proofs.Capacity.Urgency
import FleetHealth.Proofs.Capacity.Window
import FleetHealth.Proofs.Checked
import FleetHealth.Proofs.Correlation.Alignment
import FleetHealth.Proofs.Correlation.Pairing
import FleetHealth.Proofs.Correlation.Selection
import FleetHealth.Proofs.Correlation.Symmetry
import FleetHealth.Proofs.Decimal.Digits
import FleetHealth.Proofs.Diagnosis.Deviations
import FleetHealth.Proofs.Diagnosis.Explanation
import FleetHealth.Proofs.Diagnosis.Fleet
import FleetHealth.Proofs.Diagnosis.Score
import FleetHealth.Proofs.Diagnosis.VerdictOrder
import FleetHealth.Proofs.FiniteResults
import FleetHealth.Proofs.Index
import FleetHealth.Proofs.Index.Filled
import FleetHealth.Proofs.Instant
import FleetHealth.Proofs.Instant.Calendar
import FleetHealth.Proofs.Instant.Shift
import FleetHealth.Proofs.Instant.Text
import FleetHealth.Proofs.Monitor.Accounts
import FleetHealth.Proofs.Monitor.EntityScan
import FleetHealth.Proofs.Monitor.FleetScan
import FleetHealth.Proofs.Monitor.ForecastAgreement
import FleetHealth.Proofs.Monitor.Listings
import FleetHealth.Proofs.Monitor.Operations
import FleetHealth.Proofs.Monitor.Refusals
import FleetHealth.Proofs.Monitor.Runs
import FleetHealth.Proofs.Monitor.Safety
import FleetHealth.Proofs.Monitor.SharedMemo
import FleetHealth.Proofs.Monitor.WalkOrder
import FleetHealth.Proofs.Repeats
import FleetHealth.Proofs.Series
import FleetHealth.Proofs.Sorting
import FleetHealth.Proofs.Store.Buckets
import FleetHealth.Proofs.Store.FleetRead
import FleetHealth.Proofs.Store.Log
import FleetHealth.Proofs.Store.Lookback
import FleetHealth.Proofs.Store.WalkedReads
import FleetHealth.Proofs.Store.Walks
import FleetHealth.Proofs.Wire.RoundTrip
import FleetHealth.Proofs.Words
import FleetHealth.Report
import FleetHealth.Sample
import FleetHealth.Settings
import FleetHealth.Settings.Format
import FleetHealth.Settings.Layers
import FleetHealth.Settings.Tree
import FleetHealth.Store
import FleetHealth.Store.Buckets
import FleetHealth.Store.File
import FleetHealth.Store.Snapshot
import FleetHealth.Terminal
import FleetHealth.Toml.Document
import FleetHealth.Toml.Reader
import FleetHealth.Toml.Scalar
import FleetHealth.Toml.Text
import FleetHealth.Wire.Results
import FleetHealth.Wire.Series
