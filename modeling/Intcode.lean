import Intcode.Device.Feed
import Intcode.Main
import Intcode.Proofs.Lexing
import Intcode.Proofs.LineGrammar
import Intcode.Proofs.InstructionWord
import Intcode.Proofs.Reassembly
import Intcode.Proofs.Runs
import Intcode.Proofs.Truncation
import Intcode.Proofs.OperationTable
import Intcode.Proofs.ParsedLine
import Intcode.Proofs.Placement
import Intcode.Proofs.Faults
import Intcode.Proofs.Devices
import Intcode.Proofs.InputExtension
import Intcode.Proofs.MemoryHistory
import Intcode.Proofs.ParsedStatements
import Intcode.Proofs.ParseImage
import Intcode.Proofs.Counters
import Intcode.Proofs.Endings
import Intcode.Proofs.ZeroPadding
import Intcode.Proofs.ConsoleInput
import Intcode.Proofs.SourceListing
import Intcode.Proofs.FailedInstructions
import Intcode.Proofs.Tracing
import Intcode.Proofs.RunReports
import Intcode.Proofs.SourceLines
import Intcode.Proofs.ErrorColumns
import Intcode.Proofs.LabelErrors
import Intcode.Proofs.RelativeOffsets
import Intcode.Proofs.CanonicalWords
import Intcode.Proofs.Numerals
import Intcode.Proofs.ProgramText
import Intcode.Proofs.InstructionText
import Intcode.Proofs.InputLiterals
import Intcode.Proofs.ConsoleRequests
import Intcode.Proofs.ConsolePipes
import Intcode.Proofs.LineEndings
import Intcode.Proofs.ListingComments
import Intcode.Proofs.TokenPatterns
import Intcode.Proofs.LongestMatch
