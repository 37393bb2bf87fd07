import Montage.Demonstration
import Montage.Main
import Montage.Proofs.Composition.Planning
import Montage.Proofs.Graph.Decoding
import Montage.Proofs.Graph.FlatCommand
import Montage.Proofs.Graph.Walk
import Montage.Proofs.Timing.LatestChange
import Montage.Proofs.Timing.Reordering
import Montage.Proofs.Media.Growth
import Montage.Proofs.Media.InPlace
import Montage.Proofs.Graph.Independence
import Montage.Proofs.Timing.AcceptedTicks
import Montage.Proofs.Timing.LastTicks
import Montage.Proofs.Timing.LineOrder
import Montage.Proofs.Render.Schedule
import Montage.Proofs.Render.Rerun
import Montage.Proofs.Render.Retry
import Montage.Proofs.Render.DryRun
import Montage.Proofs.Timing.OwnRecording
import Montage.Proofs.Timing.SpeedInForce
import Montage.Proofs.Composition.Loading
import Montage.Proofs.Text.Pieces
import Montage.Proofs.Path.Siblings
import Montage.Proofs.Timing.OtherRecordings
import Montage.Proofs.Timing.RunNames
import Montage.Proofs.Store.Names
import Montage.Proofs.Composition.OtherFiles
import Montage.Proofs.Media.Batches
import Montage.Proofs.Graph.Tree
import Montage.Proofs.Graph.InputTable
import Montage.Proofs.Graph.Outcome
import Montage.Proofs.Timing.NamedSlots
import Montage.Proofs.Registry.Shortlex
import Montage.Proofs.Registry.History
import Montage.Proofs.Timing.TableInvariant
import Montage.Proofs.Manifest.ReadBack
import Montage.Proofs.Timing.CodeTexts
import Montage.Proofs.Manifest.Complaints
import Montage.Proofs.Composition.Crashes
import Montage.Proofs.Settings.Choices
import Montage.Proofs.Settings.ReadBack
