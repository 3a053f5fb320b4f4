import AsmTranslit.Disk
import AsmTranslit.Main
import AsmTranslit.Proofs.CheckedRuns
import AsmTranslit.Register
import AsmTranslit.Proofs.OperandGrammar
import AsmTranslit.Proofs.DecimalNumerals
import AsmTranslit.Proofs.GoAddressText
import AsmTranslit.Proofs.EffectiveAddress
import AsmTranslit.Proofs.RoutineSpans
import AsmTranslit.Proofs.InstructionLines
import AsmTranslit.Proofs.LocalLabels
import AsmTranslit.Proofs.ControlFlow
import AsmTranslit.Proofs.OutputLabels
import AsmTranslit.Proofs.DataBytes
import AsmTranslit.Proofs.DataLines
import AsmTranslit.Proofs.TableSteps
import AsmTranslit.Proofs.TableContents
import AsmTranslit.Proofs.MentionedSymbols
import AsmTranslit.Proofs.TableReferences
import AsmTranslit.Proofs.UnknownDirectives
import AsmTranslit.Proofs.OutputTables
import AsmTranslit.Proofs.SymbolTokens
import AsmTranslit.Proofs.UnresolvedReferences
import AsmTranslit.Proofs.OperandDerivations
import AsmTranslit.Proofs.PairedRuns
import AsmTranslit.Proofs.TablePolicies
import AsmTranslit.Proofs.IgnoredLines
import AsmTranslit.Proofs.FailureLocations
import AsmTranslit.Proofs.PrintableLines
import AsmTranslit.Proofs.OutputFile
import AsmTranslit.Proofs.CommandLineRequests
import AsmTranslit.Proofs.AlignmentSpellings
import AsmTranslit.Proofs.NamedPredicates
import AsmTranslit.Proofs.StringInstructions
import AsmTranslit.Proofs.RegisterWeights
import AsmTranslit.Proofs.IndexRegisters
import AsmTranslit.Proofs.JumpTargets
import AsmTranslit.Proofs.BranchResolution
import AsmTranslit.Proofs.OperandSizes
import AsmTranslit.Proofs.RegisterNames
import AsmTranslit.Proofs.TermOrder
import AsmTranslit.Proofs.StringData
import AsmTranslit.Proofs.OperandTexts
import AsmTranslit.Proofs.NumberReadings
import AsmTranslit.Proofs.InstructionPrefixes
import AsmTranslit.Proofs.ShortForms
import AsmTranslit.Proofs.LetterCase
import AsmTranslit.Proofs.SymbolRuns
import AsmTranslit.Proofs.TableSymbols
import AsmTranslit.Proofs.TableRuns
import AsmTranslit.Proofs.TokenSpans
import AsmTranslit.Proofs.LabelNames
import AsmTranslit.Proofs.PendingAlignment
import AsmTranslit.Proofs.FloatRounding
