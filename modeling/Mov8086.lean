import Mov8086.Main
import Mov8086.Cycle.Script
import Mov8086.Decoder.Script
import Mov8086.Instruction.Grammar
import Mov8086.Instruction.Legal
import Mov8086.Instruction.Reader
import Mov8086.Listing.Reader
import Mov8086.Log.Reader
import Mov8086.Reading.Script
import Mov8086.Record.Encoding
import Mov8086.Trace
import Mov8086.Proofs.ByteStream
import Mov8086.Proofs.Packing
import Mov8086.Proofs.Script
import Mov8086.Proofs.Simulation
import Mov8086.Proofs.LittleEndian
import Mov8086.Proofs.Numeral
import Mov8086.Proofs.TextReader
import Mov8086.Proofs.Operand
import Mov8086.Proofs.Instruction
import Mov8086.Proofs.Log
import Mov8086.Proofs.Reading
import Mov8086.Proofs.Record
import Mov8086.Proofs.Record.Move
import Mov8086.Proofs.Cycle.Phases
import Mov8086.Proofs.Cycle.Faultless
import Mov8086.Proofs.Cycle.Outcome
import Mov8086.Proofs.Cycle.Instruction
import Mov8086.Proofs.Cycle.Legal
import Mov8086.Proofs.Transcript
import Mov8086.Proofs.Decoder.Attempt
import Mov8086.Proofs.Decoder.Calls
import Mov8086.Proofs.Decoder.Attempts
import Mov8086.Proofs.Decoder.Uses
import Mov8086.Proofs.Decoder.Script
import Mov8086.Proofs.Decoder.Pulls
import Mov8086.Proofs.Decoder.Disassemble
import Mov8086.Proofs.Layout
import Mov8086.Proofs.Decoder.Append
import Mov8086.Proofs.Decoder.Gap
import Mov8086.Proofs.Disassembly
import Mov8086.Proofs.Listing
import Mov8086.Proofs.Command.Report
import Mov8086.Proofs.Command.Folder
import Mov8086.Proofs.Command.Status
import Mov8086.Proofs.Command.Agreement
import Mov8086.Proofs.Command.Lines
import Mov8086.Proofs.Command.Columns
import Mov8086.Proofs.Command.Loop
import Mov8086.Proofs.Command.Log
import Mov8086.Proofs.Command.Verbosity
import Mov8086.Proofs.Decoder.Progress
import Mov8086.Proofs.Faults
import Mov8086.Proofs.Cycle.Flags
import Mov8086.Proofs.Reading.Script
import Mov8086.Proofs.Command.Arrangement
import Mov8086.Proofs.Command.Repetition
