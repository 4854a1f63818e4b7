import Brainfuck.Block
import Brainfuck.Bytes
import Brainfuck.Command
import Brainfuck.CommandLine
import Brainfuck.Config
import Brainfuck.Disk
import Brainfuck.Fault
import Brainfuck.Flags
import Brainfuck.Instruction
import Brainfuck.Machine
import Brainfuck.Main
import Brainfuck.Position
import Brainfuck.Program
import Brainfuck.Prompt
import Brainfuck.Proofs.Agreement
import Brainfuck.Proofs.Archives
import Brainfuck.Proofs.ArenaCalls
import Brainfuck.Proofs.Arenas
import Brainfuck.Proofs.Benchmarks
import Brainfuck.Proofs.Blocks
import Brainfuck.Proofs.Brackets
import Brainfuck.Proofs.Chunks
import Brainfuck.Proofs.Closing
import Brainfuck.Proofs.Compilation
import Brainfuck.Proofs.Consoles
import Brainfuck.Proofs.Correctness
import Brainfuck.Proofs.Decimals
import Brainfuck.Proofs.Delivery
import Brainfuck.Proofs.Dialogue
import Brainfuck.Proofs.Disks
import Brainfuck.Proofs.Draft
import Brainfuck.Proofs.Failures
import Brainfuck.Proofs.Conversations
import Brainfuck.Proofs.FinalLine
import Brainfuck.Proofs.Inputs
import Brainfuck.Proofs.Jumps
import Brainfuck.Proofs.Listing
import Brainfuck.Proofs.Meaning
import Brainfuck.Proofs.Nesting
import Brainfuck.Proofs.Paths
import Brainfuck.Proofs.Positions
import Brainfuck.Proofs.Runes
import Brainfuck.Proofs.Runs
import Brainfuck.Proofs.Safety
import Brainfuck.Proofs.Samples
import Brainfuck.Proofs.Saving
import Brainfuck.Proofs.Scanning
import Brainfuck.Proofs.Stepping
import Brainfuck.Proofs.StoreCalls
import Brainfuck.Proofs.Stores
import Brainfuck.Proofs.Streams
import Brainfuck.Proofs.Tables
import Brainfuck.Proofs.Tapes
import Brainfuck.Proofs.Timestamps
import Brainfuck.Proofs.Tracing
import Brainfuck.Proofs.Transparency
import Brainfuck.Proofs.Turns
import Brainfuck.Report
import Brainfuck.Sample
import Brainfuck.Session
import Brainfuck.Session.Bench
import Brainfuck.Source
import Brainfuck.Stepper
import Brainfuck.Store
import Brainfuck.Store.Archive
import Brainfuck.Store.Database
import Brainfuck.Store.Run
import Brainfuck.Store.Shelf
import Brainfuck.Stream
import Brainfuck.Stream.Console
import Brainfuck.Stream.Feed
import Brainfuck.Stream.Memory
import Brainfuck.Text.Blank
import Brainfuck.Text.Numeral
import Brainfuck.Text.Path
import Brainfuck.Text.Printable
import Brainfuck.Text.Quantity
import Brainfuck.Text.Quoted
import Brainfuck.Text.Rune
import Brainfuck.Text.Uuid
import Brainfuck.Time.Age
import Brainfuck.Time.Duration
import Brainfuck.Time.Layout
import Brainfuck.Time.Rfc3339
import Brainfuck.Time.Timestamp
import Brainfuck.Toml.Document
import Brainfuck.Toml.Literal
import Brainfuck.Toml.Number
import Brainfuck.Toml.Quotation
import Brainfuck.Toml.Statement
import Brainfuck.Trace
import Brainfuck.Proofs.Composition
import Brainfuck.Proofs.Depth
import Brainfuck.Proofs.Capacity
import Brainfuck.Proofs.Causality
import Brainfuck.Proofs.Records
import Brainfuck.Proofs.Wraparound
import Brainfuck.Proofs.Keys
import Brainfuck.Proofs.Visibility
import Brainfuck.Proofs.History
import Brainfuck.Proofs.Copying
import Brainfuck.Proofs.Lines
import Brainfuck.Proofs.Stacks
import Brainfuck.Proofs.Buffers
import Brainfuck.Proofs.Disassembly
import Brainfuck.Proofs.Shelves
