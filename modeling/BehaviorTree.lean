import BehaviorTree.Proofs.RunState
import BehaviorTree.Script.Catalogue
import BehaviorTree.Script.Notebook
import BehaviorTree.Script.Session
import BehaviorTree.Script.Solo
import BehaviorTree.Proofs.Operation
import BehaviorTree.Proofs.Steadiness
import BehaviorTree.Proofs.Run
import BehaviorTree.Proofs.Frame
import BehaviorTree.Proofs.Simulation
import BehaviorTree.Proofs.ActivePath
import BehaviorTree.Proofs.Journal
import BehaviorTree.Proofs.Trace
import BehaviorTree.Proofs.Lifecycles
import BehaviorTree.Proofs.Granting
import BehaviorTree.Proofs.Clearing
import BehaviorTree.Proofs.Invariant
import BehaviorTree.Proofs.Pacing
import BehaviorTree.Proofs.Loads
import BehaviorTree.Proofs.Loadability
import BehaviorTree.Proofs.Expansion
import BehaviorTree.Proofs.Macros
import BehaviorTree.Proofs.Derivation
import BehaviorTree.Proofs.Reading
import BehaviorTree.Proofs.Complaints
import BehaviorTree.Proofs.Furnishing
import BehaviorTree.Proofs.Writing
import BehaviorTree.Proofs.Numerals
import BehaviorTree.Proofs.RoundTrip
import BehaviorTree.Proofs.Ledger
import BehaviorTree.Proofs.Nesting
import BehaviorTree.Proofs.SequenceNesting
import BehaviorTree.Proofs.Discretion
import BehaviorTree.Proofs.SelectorNesting
import BehaviorTree.Proofs.Driving
import BehaviorTree.Proofs.Outcome
import BehaviorTree.Proofs.Consistency
import BehaviorTree.Proofs.Documents
import BehaviorTree.Proofs.Escaping
import BehaviorTree.Proofs.Contexts
import BehaviorTree.Proofs.Requests
import BehaviorTree.Proofs.Coherence
import BehaviorTree.Proofs.Release
import BehaviorTree.Proofs.Passes
import BehaviorTree.Proofs.Editing
import BehaviorTree.Proofs.Scanning
import BehaviorTree.Proofs.Survey
import BehaviorTree.Proofs.Visits
import BehaviorTree.Proofs.Engagements
import BehaviorTree.Proofs.Meaning
import BehaviorTree.Proofs.Stability
import BehaviorTree.Proofs.Composition
import BehaviorTree.Proofs.Upkeep
import BehaviorTree.Proofs.Sites
import BehaviorTree.Proofs.Activation
import BehaviorTree.Proofs.Clause
import BehaviorTree.Proofs.Stopping
import BehaviorTree.Proofs.Bytewise
import BehaviorTree.Proofs.Precedence
import BehaviorTree.Proofs.Interning
