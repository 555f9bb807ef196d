import Provision.Bootstrap
import Provision.FileSystem.Listing
import Provision.Launch.Script
import Provision.Main
import Provision.Proofs.Preparation
import Provision.Proofs.DryRun
import Provision.Proofs.Launches
import Provision.Proofs.Tasks
import Provision.Proofs.Grammar
import Provision.Proofs.FailStop
import Provision.Proofs.Trees
import Provision.Proofs.Walks
import Provision.Proofs.Paths
import Provision.Proofs.Calls
import Provision.Proofs.Growth
import Provision.Proofs.Moves
import Provision.Proofs.Installation
import Provision.Proofs.Validation
import Provision.Proofs.Executions
import Provision.Proofs.Retries
import Provision.Proofs.Fetching
import Provision.Proofs.Additions
import Provision.Proofs.Effects
import Provision.Proofs.Frame
import Provision.Proofs.Keeping
import Provision.Proofs.Settled
import Provision.Proofs.Reruns
import Provision.Proofs.Announcements
import Provision.Proofs.Accounting
import Provision.Proofs.Places
import Provision.Proofs.Segments
import Provision.Proofs.PlainTrees
import Provision.Proofs.Containment
import Provision.Proofs.Workspace
import Provision.Proofs.Refusals
import Provision.Proofs.Escapes
import Provision.Proofs.Clones
import Provision.Proofs.Scripts
import Provision.Proofs.Unpacking
import Provision.Proofs.Roots
import Provision.Proofs.Toolchains
import Provision.Proofs.Routes
import Provision.Proofs.DefaultLink
import Provision.Proofs.Decoding
import Provision.Proofs.Messages
import Provision.Proofs.Traces
import Provision.Proofs.Forecasts
import Provision.Proofs.Records
import Provision.Proofs.Documents
import Provision.Proofs.RuleGrammar
import Provision.Proofs.OwnKeys
import Provision.Proofs.Precedence
import Provision.Proofs.Relinking
import Provision.Proofs.Refreshing
import Provision.Proofs.Words
import Provision.Proofs.Outlines
import Provision.Proofs.Nodes
import Provision.Proofs.Versions
import Provision.Proofs.WrittenRules
import Provision.Proofs.Regions
import Provision.Proofs.WorkingDirectories
