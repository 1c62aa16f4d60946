import VarRenaming.Flow.Program
import VarRenaming.Proofs.Alternatives.Associativity
import VarRenaming.Proofs.Alternatives.Collection
import VarRenaming.Proofs.Alternatives.Commutation
import VarRenaming.Proofs.Alternatives.Inversion
import VarRenaming.Proofs.Alternatives.Renaming
import VarRenaming.Proofs.Alternatives.Selection
import VarRenaming.Proofs.Alternatives.Subsumption
import VarRenaming.Proofs.Alternatives.Units
import VarRenaming.Proofs.Answer.Agreement
import VarRenaming.Proofs.Answer.Projection
import VarRenaming.Proofs.Flow.Fusion
import VarRenaming.Proofs.Flow.Interleaving
import VarRenaming.Proofs.Settings.Printer
import VarRenaming.Proofs.Supply.Concepts
import VarRenaming.Proofs.Supply.Variables
import VarRenaming.Proofs.Text.Rendering
import VarRenaming.Proofs.Unifier.Comparison
import VarRenaming.Proofs.Unifier.Construction
import VarRenaming.Proofs.Unifier.Inclusion
import VarRenaming.Proofs.Unifier.Inverse
import VarRenaming.Proofs.Unifier.JointRenaming
import VarRenaming.Proofs.Unifier.Kernel
import VarRenaming.Settings.Reader
