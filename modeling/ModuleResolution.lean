import ModuleResolution.Main
import ModuleResolution.Proofs.Versions
import ModuleResolution.Proofs.Needed
import ModuleResolution.Proofs.Cycles
import ModuleResolution.Proofs.SourceOrder
import ModuleResolution.Proofs.Sources
import ModuleResolution.Proofs.Undeclared
import ModuleResolution.Proofs.Accounts
import ModuleResolution.Proofs.Edges
import ModuleResolution.Proofs.Log
import ModuleResolution.Proofs.Rejected
import ModuleResolution.Proofs.Shortcut
import ModuleResolution.Proofs.Limit
import ModuleResolution.Proofs.Linear
import ModuleResolution.Proofs.Unavailable
import ModuleResolution.Proofs.ArtifactOrder
import ModuleResolution.Proofs.Attribution
import ModuleResolution.Proofs.CycleChain
import ModuleResolution.Proofs.Balance
import ModuleResolution.Proofs.Graph
import ModuleResolution.Proofs.Replay
import ModuleResolution.Proofs.Provenance
import ModuleResolution.Proofs.Interning
import ModuleResolution.Proofs.Foundation
import ModuleResolution.Proofs.Verdict
import ModuleResolution.Proofs.Detection
import ModuleResolution.Proofs.Numerals
import ModuleResolution.Proofs.Untaken
import ModuleResolution.Proofs.Additions
import ModuleResolution.Proofs.LowerImports
import ModuleResolution.Proofs.ImplicitEdges
import ModuleResolution.Proofs.Documents
import ModuleResolution.Proofs.SharedStart
