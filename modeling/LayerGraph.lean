import LayerGraph.Builder
import LayerGraph.Cancellation
import LayerGraph.Command
import LayerGraph.Construction
import LayerGraph.Dump
import LayerGraph.Error
import LayerGraph.Generator
import LayerGraph.Graph.Cyclic
import LayerGraph.Graph.Path
import LayerGraph.Json
import LayerGraph.Json.Reader
import LayerGraph.Key
import LayerGraph.Layer
import LayerGraph.Memory
import LayerGraph.Parameter
import LayerGraph.Proofs.Absence
import LayerGraph.Proofs.Adequacy
import LayerGraph.Proofs.Assembly
import LayerGraph.Proofs.Bindings
import LayerGraph.Proofs.Bracketing
import LayerGraph.Proofs.Calls
import LayerGraph.Proofs.Cancelling
import LayerGraph.Proofs.Casting
import LayerGraph.Proofs.CompletedCourses
import LayerGraph.Proofs.Components
import LayerGraph.Proofs.Confluence
import LayerGraph.Proofs.Coupling
import LayerGraph.Proofs.Course
import LayerGraph.Proofs.Cycles
import LayerGraph.Proofs.Deferring
import LayerGraph.Proofs.Delegation
import LayerGraph.Proofs.Determinacy
import LayerGraph.Proofs.EagerOrder
import LayerGraph.Proofs.Eagerness
import LayerGraph.Proofs.Engine
import LayerGraph.Proofs.Evaluation
import LayerGraph.Proofs.Filling
import LayerGraph.Proofs.Foretelling
import LayerGraph.Proofs.Growth
import LayerGraph.Proofs.Hoisting
import LayerGraph.Proofs.Honoring
import LayerGraph.Proofs.IdleWorlds
import LayerGraph.Proofs.Indifference
import LayerGraph.Proofs.Interfaces
import LayerGraph.Proofs.Labels
import LayerGraph.Proofs.Lasting
import LayerGraph.Proofs.Laziness
import LayerGraph.Proofs.Listings
import LayerGraph.Proofs.Locking
import LayerGraph.Proofs.Mirroring
import LayerGraph.Proofs.Moments
import LayerGraph.Proofs.Nesting
import LayerGraph.Proofs.Outcomes
import LayerGraph.Proofs.Paths
import LayerGraph.Proofs.Precedence
import LayerGraph.Proofs.Propagation
import LayerGraph.Proofs.Provenance
import LayerGraph.Proofs.Recounting
import LayerGraph.Proofs.Registers
import LayerGraph.Proofs.Registrations
import LayerGraph.Proofs.Reordering
import LayerGraph.Proofs.Reparenting
import LayerGraph.Proofs.RuntimeCycles
import LayerGraph.Proofs.Searching
import LayerGraph.Proofs.Shortening
import LayerGraph.Proofs.Shuffling
import LayerGraph.Proofs.Simulation
import LayerGraph.Proofs.Snapshots
import LayerGraph.Proofs.Stability
import LayerGraph.Proofs.StaticCycles
import LayerGraph.Proofs.Storing
import LayerGraph.Proofs.Termination
import LayerGraph.Proofs.Transparency
import LayerGraph.Proofs.Unhoisted
import LayerGraph.Proofs.Unmarked
import LayerGraph.Proofs.Validation
import LayerGraph.Proofs.Validity
import LayerGraph.Proofs.Variables
import LayerGraph.Recipe
import LayerGraph.Reply
import LayerGraph.Report
import LayerGraph.Request
import LayerGraph.Resolution
import LayerGraph.Session
import LayerGraph.Settings
import LayerGraph.Settings.Environment
import LayerGraph.Settings.Stored
import LayerGraph.Signature
import LayerGraph.Table
import LayerGraph.Text.Blank
import LayerGraph.Text.Printable
import LayerGraph.Text.Quoted
import LayerGraph.Trace
import LayerGraph.World
