import TunedKernel.CommandLine.Folder
import TunedKernel.Main
import TunedKernel.Json.Writer
import TunedKernel.Operation.Encoding
import TunedKernel.Proofs.Tuning.Levels
import TunedKernel.Proofs.Tuning.Resolution
import TunedKernel.Proofs.Execution.Elements
import TunedKernel.Proofs.Execution.Confinement
import TunedKernel.Proofs.Execution.Evaluation
import TunedKernel.Proofs.Execution.Machine
import TunedKernel.Proofs.Execution.Worker
import TunedKernel.Proofs.Execution.Group
import TunedKernel.Proofs.Execution.Operands
import TunedKernel.Proofs.Batch.Collecting
import TunedKernel.Proofs.Execution.Signature
import TunedKernel.Proofs.MatrixProduct.Emission
import TunedKernel.Proofs.Execution.Walk
import TunedKernel.Proofs.MatrixProduct.Block
import TunedKernel.Proofs.MatrixProduct.Tile
import TunedKernel.Proofs.Execution.Footing
import TunedKernel.Proofs.MatrixProduct.Launch
import TunedKernel.Proofs.MatrixProduct.Stages
import TunedKernel.Proofs.MatrixProduct.Correctness
import TunedKernel.Proofs.Execution.Tree
import TunedKernel.Proofs.Batch.Statements
import TunedKernel.Proofs.Batch.Variables
import TunedKernel.Proofs.Batch.Partition
import TunedKernel.Proofs.RowReduction.Emission
import TunedKernel.Proofs.RowReduction.Launch
import TunedKernel.Proofs.RowReduction.Worker
import TunedKernel.Proofs.RowReduction.Stages
import TunedKernel.Proofs.RowReduction.Correctness
import TunedKernel.Proofs.Execution.Split
import TunedKernel.Proofs.Batch.Carrying
import TunedKernel.Proofs.Batch.Nodes
import TunedKernel.Proofs.Reduction.Emission
import TunedKernel.Proofs.Reduction.Launch
import TunedKernel.Proofs.Reduction.Worker
import TunedKernel.Proofs.Reduction.Stages
import TunedKernel.Proofs.Reduction.Correctness
import TunedKernel.Proofs.Execution.Outline
import TunedKernel.Proofs.Execution.Watch
import TunedKernel.Proofs.Batch.Arrays
import TunedKernel.Proofs.Batch.Accesses
import TunedKernel.Proofs.VectorStatements.Accesses
import TunedKernel.Proofs.MatrixStatements.Emission
import TunedKernel.Proofs.MatrixStatements.Accesses
import TunedKernel.Proofs.Reduction.Accesses
import TunedKernel.Proofs.RowReduction.Accesses
import TunedKernel.Proofs.MatrixProduct.Accesses
import TunedKernel.Proofs.Generation.Accesses
import TunedKernel.Proofs.Generation.LocalNames
import TunedKernel.Proofs.Generation.Hygiene
import TunedKernel.Proofs.Execution.Single
import TunedKernel.Proofs.Generation.Alone
import TunedKernel.Proofs.Generation.Batching
import TunedKernel.Proofs.Batch.Sweeping
import TunedKernel.Proofs.Batch.Packs
import TunedKernel.Proofs.MatrixStatements.Sequence
import TunedKernel.Proofs.VectorStatements.Correctness
import TunedKernel.Proofs.Tuning.Loading
import TunedKernel.Proofs.Tuning.Overriding
import TunedKernel.Proofs.Generation.Overflows
import TunedKernel.Proofs.Generation.Loaded
import TunedKernel.Proofs.Execution.Wrapping
import TunedKernel.Proofs.Execution.Counting
import TunedKernel.Proofs.Execution.Pieces
import TunedKernel.Proofs.Generation.Halting
import TunedKernel.Proofs.VectorStatements.Loops
import TunedKernel.Proofs.MatrixStatements.Loops
import TunedKernel.Proofs.Reduction.Loops
import TunedKernel.Proofs.RowReduction.Loops
import TunedKernel.Proofs.MatrixProduct.Loops
import TunedKernel.Proofs.Generation.Loops
import TunedKernel.Proofs.Generation.Trips
import TunedKernel.Proofs.Source.Words
import TunedKernel.Proofs.Source.Scoping
import TunedKernel.Proofs.Batch.Scoping
import TunedKernel.Proofs.Generation.Resolved
import TunedKernel.Proofs.Source.Reading
import TunedKernel.Proofs.Source.Definitions
import TunedKernel.Proofs.Generation.Metadata
import TunedKernel.Proofs.Execution.Barriers
import TunedKernel.Proofs.Execution.Stints
import TunedKernel.Proofs.Execution.Meeting
import TunedKernel.Proofs.Batch.Sharing
import TunedKernel.Proofs.Generation.Synchrony
import TunedKernel.Proofs.RowReduction.Barriers
import TunedKernel.Proofs.Reduction.Barriers
import TunedKernel.Proofs.MatrixProduct.Barriers
import TunedKernel.Proofs.Generation.Barriers
import TunedKernel.Proofs.Tuning.Contents
import TunedKernel.Proofs.Generation.Dispatch
import TunedKernel.Proofs.Generation.Validity
import TunedKernel.Proofs.Generation.Refusals
import TunedKernel.Proofs.Generation.FirstStatement
import TunedKernel.Proofs.Json.Writing
import TunedKernel.Proofs.Operation.Documents
import TunedKernel.Proofs.Source.Lexemes
import TunedKernel.Proofs.Source.Grammar
import TunedKernel.Proofs.Source.Rendering
import TunedKernel.Proofs.Source.Layout
import TunedKernel.Proofs.Batch.Layout
import TunedKernel.Proofs.Generation.Layout
import TunedKernel.Proofs.Generation.Order
import TunedKernel.Proofs.Tuning.Consistency
import TunedKernel.Proofs.Execution.Folding
import TunedKernel.Proofs.Batch.Terms
import TunedKernel.Proofs.Generation.Verdicts
import TunedKernel.Proofs.Reduction.Acceptance
import TunedKernel.Proofs.RowReduction.Acceptance
import TunedKernel.Proofs.Generation.Elementwise
import TunedKernel.Proofs.MatrixProduct.Acceptance
import TunedKernel.Proofs.Operation.Addressing
import TunedKernel.Proofs.Execution.Traces
import TunedKernel.Proofs.Generation.Uniform
import TunedKernel.Proofs.MatrixProduct.Traces
import TunedKernel.Proofs.MatrixProduct.Fetching
import TunedKernel.Proofs.MatrixProduct.Geometry
import TunedKernel.Proofs.Text.Runs
import TunedKernel.Proofs.Text.Numerals
import TunedKernel.Proofs.Text.Quoting
import TunedKernel.Proofs.Device.Families
import TunedKernel.Proofs.Device.Keys
import TunedKernel.Proofs.Tuning.Tags
import TunedKernel.Proofs.Source.Joining
import TunedKernel.Proofs.Source.Pieces
