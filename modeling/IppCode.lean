import IppCode.Text.Blank
import IppCode.Text.Ascii
import IppCode.Text.Escape
import IppCode.Text.Numeral
import IppCode.Table
import IppCode.Stack
import IppCode.ValueType
import IppCode.Value
import IppCode.Variable
import IppCode.Opcode
import IppCode.Instruction
import IppCode.Fault
import IppCode.Text.Utf8
import IppCode.Frame
import IppCode.Memory
import IppCode.Arithmetic
import IppCode.Characters
import IppCode.Operator
import IppCode.Operation
import IppCode.Check
import IppCode.Program
import IppCode.Streams
import IppCode.Machine
import IppCode.Markup.Character
import IppCode.Markup.Scanner
import IppCode.Markup.Name
import IppCode.Markup.CharacterData
import IppCode.Markup.Token
import IppCode.Markup.Node
import IppCode.Markup.Namespace
import IppCode.Markup.Document
import IppCode.Markup.Parser
import IppCode.Document
import IppCode.Session
import IppCode.Directory
import IppCode.CommandLine
import IppCode.Main
import IppCode.Proofs.Operands
import IppCode.Proofs.Constants
import IppCode.Proofs.Labels
import IppCode.Proofs.Acceptance
import IppCode.Proofs.Linking
import IppCode.Proofs.Memory
import IppCode.Proofs.Rules
import IppCode.Proofs.Runs
import IppCode.Proofs.ControlState
import IppCode.Proofs.DirectExecution
import IppCode.Proofs.ConstantTable
import IppCode.Proofs.RuntimeErrors
import IppCode.Proofs.LiteralText
import IppCode.Proofs.Typing
import IppCode.Proofs.LabelInsertion
import IppCode.Proofs.Calls
import IppCode.Proofs.ForwardPrograms
import IppCode.Proofs.MemoryAccess
import IppCode.Proofs.RenamedRuns
import IppCode.Proofs.StackDiscipline
import IppCode.Proofs.VariableLifetime
import IppCode.Proofs.DocumentWords
import IppCode.Proofs.Attributes
import IppCode.Proofs.DocumentArguments
import IppCode.Proofs.DocumentGrammar
import IppCode.Proofs.DocumentComments
import IppCode.Proofs.Streams
import IppCode.Proofs.Requests
import IppCode.Proofs.SessionOutcome
import IppCode.Proofs.OutputOrder
import IppCode.Proofs.BoundedOutput
import IppCode.Proofs.InputLines
import IppCode.Proofs.NumeralGrammar
import IppCode.Proofs.ValueOrder
import IppCode.Proofs.MemoryDump
import IppCode.Proofs.ConditionalJumps
import IppCode.Proofs.CharacterArrays
import IppCode.Proofs.EscapeScanning
import IppCode.Proofs.ReadBack
import IppCode.Proofs.CharacterCodes
import IppCode.Proofs.VariableText
import IppCode.Proofs.CanonicalFrames
import IppCode.Proofs.FailedInstructions
