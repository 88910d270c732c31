import RouteTree.Router.Catchall
import RouteTree.Documentation.Views
import RouteTree.Inspect
import RouteTree.Router.Routes
import RouteTree.Router.Screen
import RouteTree.Router.Registry
import RouteTree.Settings.Load
import RouteTree.Proofs.Grouping
import RouteTree.Proofs.Building
import RouteTree.Proofs.Readings
import RouteTree.Proofs.Shape
import RouteTree.Proofs.Leaves
import RouteTree.Proofs.Endpoints
import RouteTree.Proofs.Acceptance
import RouteTree.Proofs.Forms
import RouteTree.Proofs.Levels
import RouteTree.Proofs.Obstacles
import RouteTree.Proofs.Registrations
import RouteTree.Proofs.Calls
import RouteTree.Proofs.Plans
import RouteTree.Proofs.Joining
import RouteTree.Proofs.Guarding
import RouteTree.Proofs.Coherence
import RouteTree.Proofs.Rerooting
import RouteTree.Proofs.Printing
import RouteTree.Proofs.Documenting
import RouteTree.Proofs.Counting
import RouteTree.Proofs.ByteOrder
import RouteTree.Proofs.Agreement
import RouteTree.Proofs.Piecewise
import RouteTree.Proofs.JsonReading
import RouteTree.Proofs.Decoding
import RouteTree.Proofs.Contexts
import RouteTree.Proofs.KeySequences
import RouteTree.Proofs.SiblingOrder
import RouteTree.Proofs.Resolving
import RouteTree.Proofs.Ending
import RouteTree.Proofs.Failing
import RouteTree.Proofs.Serving
import RouteTree.Proofs.Repeating
import RouteTree.Proofs.Layering
import RouteTree.Proofs.Covering
import RouteTree.Proofs.Classes
import RouteTree.Proofs.Labels
import RouteTree.Proofs.Lineages
import RouteTree.Proofs.Updates
import RouteTree.Proofs.MethodSets
