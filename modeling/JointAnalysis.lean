import JointAnalysis.Analyses.Script
import JointAnalysis.Composition.Network
import JointAnalysis.Interchange.Codec
import JointAnalysis.Interchange.Reader
import JointAnalysis.Object.Combination
import JointAnalysis.Proofs.Cache
import JointAnalysis.Proofs.Outcome
import JointAnalysis.Proofs.Resolution
import JointAnalysis.Proofs.Denotation
import JointAnalysis.Proofs.Session
import JointAnalysis.Proofs.Walk
import JointAnalysis.Proofs.Soundness
import JointAnalysis.Proofs.Machine
import JointAnalysis.Proofs.Nesting
import JointAnalysis.Proofs.Rest
import JointAnalysis.Proofs.DispatchBound
import JointAnalysis.Proofs.Deepening
import JointAnalysis.Proofs.Termination
import JointAnalysis.Proofs.OwnQuestion
import JointAnalysis.Proofs.Relapse
import JointAnalysis.Proofs.Provenance
import JointAnalysis.Proofs.Fitting
import JointAnalysis.Proofs.Meaning
import JointAnalysis.Proofs.Faithful
import JointAnalysis.Proofs.Agreement
import JointAnalysis.Proofs.Preservation
import JointAnalysis.Proofs.Memo
import JointAnalysis.Proofs.Lockstep
import JointAnalysis.Proofs.Redirection
import JointAnalysis.Proofs.Transparency
import JointAnalysis.Proofs.Anonymity
import JointAnalysis.Proofs.Layering
import JointAnalysis.Proofs.Reachability
import JointAnalysis.Proofs.Forest
import JointAnalysis.Proofs.Attachment
import JointAnalysis.Proofs.Operands
import JointAnalysis.Proofs.Comparison
import JointAnalysis.Proofs.Literal
import JointAnalysis.Proofs.Interpretation
import JointAnalysis.Proofs.Conjunction
import JointAnalysis.Proofs.Silence
import JointAnalysis.Proofs.Routing
import JointAnalysis.Proofs.SetSemantics
import JointAnalysis.Proofs.Overlap
import JointAnalysis.Proofs.Certainty
import JointAnalysis.Proofs.Inclusion
import JointAnalysis.Proofs.Repetition
import JointAnalysis.Proofs.Knowledge
import JointAnalysis.Proofs.ResultPlace
import JointAnalysis.Proofs.Symmetry
import JointAnalysis.Proofs.MutualInclusion
import JointAnalysis.Proofs.Wrapping
import JointAnalysis.Proofs.Unclaimed
import JointAnalysis.Proofs.Kinship
import JointAnalysis.Proofs.KeyHistory
import JointAnalysis.Proofs.Listing
import JointAnalysis.Proofs.Bounds
