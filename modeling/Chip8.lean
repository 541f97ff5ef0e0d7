import Chip8.Text.Numeral
import Chip8.Text.Words
import Chip8.Text.Lines
import Chip8.Token
import Chip8.Nibble
import Chip8.Mnemonic
import Chip8.Directive
import Chip8.Target
import Chip8.Fault
import Chip8.SymbolTable
import Chip8.Instruction
import Chip8.Stack
import Chip8.Statement
import Chip8.Program
import Chip8.Assembly
import Chip8.Command.Path
import Chip8.Command.Files
import Chip8.Command.Request
import Chip8.Command.Run
import Chip8.Main
import Chip8.Proofs.Positional
import Chip8.Proofs.Outcome
import Chip8.Proofs.Tables
import Chip8.Proofs.Passes
import Chip8.Proofs.TwoRuns
import Chip8.Proofs.Encoding
import Chip8.Proofs.Reading
import Chip8.Proofs.Expansion
import Chip8.Proofs.Layout
import Chip8.Proofs.FirstFailure
import Chip8.Proofs.Relisting
import Chip8.Proofs.Extension
import Chip8.Proofs.Linking
import Chip8.Proofs.LabelPlacement
import Chip8.Proofs.FaultOrigins
import Chip8.Proofs.Machine
import Chip8.Proofs.StackCode
import Chip8.Proofs.StackHistory
import Chip8.Proofs.StackPrograms
import Chip8.Proofs.Retargeting
import Chip8.Proofs.PartialOperations
import Chip8.Proofs.Renumbering
import Chip8.Proofs.Spelling
import Chip8.Proofs.Renaming
import Chip8.Proofs.Requests
import Chip8.Proofs.CommandRuns
import Chip8.Proofs.Addresses
import Chip8.Proofs.Opcodes
import Chip8.Proofs.SavedRegisters
import Chip8.Proofs.Decoding
import Chip8.Proofs.CanonicalText
import Chip8.Proofs.LabelHistory
import Chip8.Proofs.LineGrammar
import Chip8.Proofs.DefinitionOrder
import Chip8.Proofs.Resolution
import Chip8.Proofs.Numerals
import Chip8.Proofs.TokenClasses
import Chip8.Proofs.FixedWidth
import Chip8.Proofs.LineEndings
import Chip8.Proofs.Listings
import Chip8.Proofs.Pushes
import Chip8.Proofs.Text
import Chip8.Proofs.Directives
