import JsonShape.CommandLine.Session
import JsonShape.Main
import JsonShape.Proofs.Search
import JsonShape.Proofs.Shapes
import JsonShape.Proofs.Slots
import JsonShape.Proofs.Values
import JsonShape.Proofs.Compilation
import JsonShape.Proofs.Locality
import JsonShape.Proofs.Termination
import JsonShape.Proofs.Conformance
import JsonShape.Proofs.Projection
import JsonShape.Proofs.Creation
import JsonShape.Proofs.Circuits
import JsonShape.Proofs.Occurrences
import JsonShape.Proofs.Acceptance
import JsonShape.Proofs.Trimming
import JsonShape.Proofs.Deletion
import JsonShape.Proofs.Repetition
import JsonShape.Proofs.Retention
import JsonShape.Proofs.Blame
import JsonShape.Proofs.Independence
import JsonShape.Proofs.Inlining
import JsonShape.Proofs.Widening
import JsonShape.Proofs.Lexemes
import JsonShape.Proofs.Rereading
import JsonShape.Proofs.Fields
import JsonShape.Proofs.Spelling
import JsonShape.Proofs.Reading
import JsonShape.Proofs.Documents
import JsonShape.Proofs.Encoding
import JsonShape.Proofs.Publication
import JsonShape.Proofs.Diagnosis
import JsonShape.Proofs.Lines
import JsonShape.Proofs.Naming
import JsonShape.Proofs.Directories
import JsonShape.Proofs.Framing
import JsonShape.Proofs.Absence
import JsonShape.Proofs.Comparison
import JsonShape.Proofs.Tidying
import JsonShape.Proofs.Legibility
import JsonShape.Proofs.Flattening
import JsonShape.Proofs.Reordering
import JsonShape.Proofs.Merging
import JsonShape.Proofs.Linkage
import JsonShape.Proofs.Calls
import JsonShape.Proofs.Guards
