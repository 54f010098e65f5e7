import LiveScene.Ensemble
import LiveScene.Main
import LiveScene.Proofs.Graph.Relink
import LiveScene.Proofs.Graph.Recreation
import LiveScene.Proofs.Performer.Capability
import LiveScene.Proofs.Scene.Cells
import LiveScene.Proofs.Scene.Delay
import LiveScene.Proofs.Scene.InFlight
import LiveScene.Proofs.Scene.Numbers
import LiveScene.Proofs.Scene.Teardown
import LiveScene.Proofs.Performer.Effects
import LiveScene.Proofs.Performer.Handover
import LiveScene.Proofs.Scene.Effects
import LiveScene.Proofs.Performer.Twin
import LiveScene.Proofs.Scene.Twin
import LiveScene.Proofs.Ensemble.Isolation
import LiveScene.Proofs.Document.Event
import LiveScene.Proofs.Assembly.Following
import LiveScene.Proofs.CellStore.Clients
import LiveScene.Proofs.Timer.Cadence
import LiveScene.Proofs.Scene.ItemName
import LiveScene.Proofs.Performer.Triage
import LiveScene.Proofs.Performer.LowLatency
import LiveScene.Proofs.Timer.Due
import LiveScene.Proofs.Timer.Flags
import LiveScene.Proofs.Graph.Violations
import LiveScene.Proofs.Graph.Lookup
import LiveScene.Proofs.Assembly.Interleaving
import LiveScene.Proofs.Template.Placeholder
import LiveScene.Proofs.RecordStore.Ids
import LiveScene.Proofs.RecordStore.History
import LiveScene.Proofs.Performer.ItemRecord
import LiveScene.Proofs.Animation.Step
import LiveScene.Proofs.Color.Interpolation
import LiveScene.Proofs.Expr.Outputs
import LiveScene.Proofs.Expr.Modulo
import LiveScene.Proofs.Scene.TextCell
import LiveScene.Proofs.Expr.Comparison
import LiveScene.Proofs.CommandLine.Clock
