import ClassLang.Compile
import ClassLang.Proofs.Draft.Basic
import ClassLang.Proofs.Draft.Finished
import ClassLang.Proofs.Draft.Ssa
import ClassLang.Proofs.FinallyCopies
import ClassLang.Proofs.TryNesting
import ClassLang.Proofs.Refinement.Program
import ClassLang.Proofs.WellFormed
import ClassLang.Proofs.Dispatch.Descent
import ClassLang.Proofs.Analysis.DeclarationOrder
import ClassLang.Proofs.Analysis.Signatures
import ClassLang.Proofs.Parsing.Recovery
import ClassLang.Proofs.Printing.Roundtrip
import ClassLang.Proofs.Symbols.Unique
import ClassLang.Proofs.Analysis.Placement
import ClassLang.Proofs.Analysis.Undefined
import ClassLang.Proofs.Analysis.Inference
import ClassLang.Proofs.Instances.Finite
import ClassLang.Proofs.Instances.Once
import ClassLang.Proofs.Lockstep.Misplaced
import ClassLang.Proofs.Lockstep.Positions
import ClassLang.Proofs.Scopes.Tree
import ClassLang.Proofs.Stacks.Reached
import ClassLang.Proofs.Analysis.Accepted
import ClassLang.Proofs.Continuation.Program
import ClassLang.Proofs.Nodes.Program
import ClassLang.Proofs.Literals.Quotation
import ClassLang.Proofs.Operators.Chain
import ClassLang.Proofs.Printing.Angles
import ClassLang.Proofs.Tokens.Places
import ClassLang.Proofs.Analysis.Redeclaration
import ClassLang.Proofs.Tokens.Spacing
import ClassLang.Proofs.Types.Substitution
import ClassLang.Proofs.Types.Assignability
import ClassLang.Proofs.ConstantConversion
import ClassLang.Proofs.Symbols.Assembly
import ClassLang.Proofs.Locations.Labels
import ClassLang.Proofs.Capture.Program
import ClassLang.Proofs.Types.Lineage
