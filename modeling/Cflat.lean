import Cflat.Asm.Directive
import Cflat.Asm.Emitter
import Cflat.Asm.Operation
import Cflat.Asm.Listing
import Cflat.Asm.Literal
import Cflat.Asm.Operand
import Cflat.Asm.Width
import Cflat.Asm.Writer
import Cflat.Build.Run
import Cflat.Build.Settings
import Cflat.Build.Stage
import Cflat.CommandLine.App
import Cflat.CommandLine.Flag
import Cflat.CommandLine.Help
import Cflat.CommandLine.Parse
import Cflat.Diagnostic
import Cflat.Document.Basic
import Cflat.Document.Decode
import Cflat.Duration
import Cflat.Fault
import Cflat.FileTree.Basic
import Cflat.FileTree.Glob
import Cflat.Golden.Backend
import Cflat.Golden.Digest
import Cflat.Golden.Report
import Cflat.Golden.Result
import Cflat.Golden.Run
import Cflat.Golden.Settings
import Cflat.Golden.Suite
import Cflat.Golden.Summary
import Cflat.Json.Basic
import Cflat.Json.Fields
import Cflat.Json.Printer
import Cflat.Json.Reader
import Cflat.Json.Token
import Cflat.Launch
import Cflat.Main
import Cflat.Options.Basic
import Cflat.Options.Switches
import Cflat.Options.Target
import Cflat.Path.Basic
import Cflat.Path.Pattern
import Cflat.Program.Basic
import Cflat.Program.Dump
import Cflat.Program.Generate
import Cflat.Program.Input
import Cflat.Program.Load
import Cflat.Proofs.Acceptance
import Cflat.Proofs.Accepts
import Cflat.Proofs.Addresses
import Cflat.Proofs.AppendOnly
import Cflat.Proofs.Arguments
import Cflat.Proofs.Assembler
import Cflat.Proofs.Automatics
import Cflat.Proofs.Calls
import Cflat.Proofs.Classification
import Cflat.Proofs.Columns
import Cflat.Proofs.Commutation
import Cflat.Proofs.DataLayout
import Cflat.Proofs.Dimensions
import Cflat.Proofs.Elaboration
import Cflat.Proofs.Emission
import Cflat.Proofs.FirstFailure
import Cflat.Proofs.FlagSpellings
import Cflat.Proofs.Generation
import Cflat.Proofs.Interference
import Cflat.Proofs.Interleaving
import Cflat.Proofs.Interning
import Cflat.Proofs.Lines
import Cflat.Proofs.Literals
import Cflat.Proofs.Locations
import Cflat.Proofs.Names
import Cflat.Proofs.Objects
import Cflat.Proofs.Operands
import Cflat.Proofs.Ordinals
import Cflat.Proofs.Outcome
import Cflat.Proofs.Parsing
import Cflat.Proofs.Partition
import Cflat.Proofs.Paths
import Cflat.Proofs.Places
import Cflat.Proofs.Provenance
import Cflat.Proofs.Registration
import Cflat.Proofs.Rendering
import Cflat.Proofs.Reuse
import Cflat.Proofs.Rounding
import Cflat.Proofs.Sessions
import Cflat.Proofs.Shorthands
import Cflat.Proofs.SingleFlags
import Cflat.Proofs.Sizes
import Cflat.Proofs.Spellings
import Cflat.Proofs.Stateful
import Cflat.Proofs.Streaming
import Cflat.Proofs.Switches
import Cflat.Proofs.Symbols
import Cflat.Proofs.Targets
import Cflat.Proofs.Tests
import Cflat.Proofs.Tokens
import Cflat.Proofs.TypeGrammar
import Cflat.Proofs.Updates
import Cflat.Proofs.Warnings
import Cflat.Proofs.WellFormed
import Cflat.Proofs.Words
import Cflat.Proofs.Wrapping
import Cflat.Scope.Change
import Cflat.Scope.Classes
import Cflat.Scope.Declarations
import Cflat.Scope.Entity
import Cflat.Scope.Request
import Cflat.Scope.Tree
import Cflat.Text.Blank
import Cflat.Text.Decimal
import Cflat.Text.IntLiteral
import Cflat.Text.Padding
import Cflat.Text.Printable
import Cflat.Text.Quoted
import Cflat.Toolchain
import Cflat.Ty.Basic
import Cflat.Ty.Spelling
import Cflat.Xxh64
