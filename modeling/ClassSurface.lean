import ClassSurface.Codebase.Decode
import ClassSurface.Project.ClassFiles
import ClassSurface.Proofs.Codebase.Insertion
import ClassSurface.Proofs.Codebase.Overriding
import ClassSurface.Proofs.Codebase.Unfolding
import ClassSurface.Proofs.Codebase.Written
import ClassSurface.Proofs.DocBlock.NormalForm
import ClassSurface.Proofs.DocBlock.Relayout
import ClassSurface.Proofs.Json.Spelling
import ClassSurface.Proofs.Project.ReadBack
import ClassSurface.Proofs.Project.Rendered
import ClassSurface.Proofs.Registry.Chronicle
import ClassSurface.Proofs.Registry.Locality
import ClassSurface.Proofs.Registry.Parameters
import ClassSurface.Proofs.Registry.References
import ClassSurface.Proofs.Registry.Repetition
import ClassSurface.Proofs.Registry.ReturnTypes
import ClassSurface.Proofs.Registry.Simulation
import ClassSurface.Proofs.Registry.Staircase
import ClassSurface.Proofs.Registry.Termination
import ClassSurface.Proofs.Registry.UnusableDocs
