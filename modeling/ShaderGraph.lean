import ShaderGraph.Main
import ShaderGraph.Files.Outline
import ShaderGraph.Session
import ShaderGraph.Proofs.Acceptance
import ShaderGraph.Proofs.Wgsl.Values
import ShaderGraph.Proofs.Wgsl.Widths
import ShaderGraph.Proofs.Editing
import ShaderGraph.Proofs.Replacement
import ShaderGraph.Proofs.Refusals
import ShaderGraph.Proofs.Operands
import ShaderGraph.Proofs.RoundTrip
import ShaderGraph.Proofs.Settling
import ShaderGraph.Proofs.Wgsl.Numbers
import ShaderGraph.Proofs.Agreement
import ShaderGraph.Proofs.Irrelevance
import ShaderGraph.Proofs.Ordering
import ShaderGraph.Proofs.Disposal
import ShaderGraph.Proofs.SharedNodes
import ShaderGraph.Proofs.Undoing
import ShaderGraph.Proofs.PartialDefaults
import ShaderGraph.Proofs.Runs
import ShaderGraph.Proofs.HexColors
import ShaderGraph.Proofs.Nesting
import ShaderGraph.Proofs.Wgsl.Mentions
