import CommandShell.Main
import CommandShell.Manifest.Reader
import CommandShell.Proofs.Nesting
import CommandShell.Proofs.OwnOutput
import CommandShell.Proofs.Protection
import CommandShell.Proofs.Reporting
import CommandShell.Proofs.Evaluation.Passage
import CommandShell.Proofs.Reading.Statement
import CommandShell.Proofs.Evaluation.Program
import CommandShell.Proofs.Progress
import CommandShell.Proofs.Sequencing
import CommandShell.Proofs.Aliases
import CommandShell.Proofs.Injection
import CommandShell.Proofs.Reading.ArrayText
import CommandShell.Proofs.ArrayRoundTrip
import CommandShell.Proofs.InertArrays
import CommandShell.Proofs.ArrayLiterals
import CommandShell.Proofs.Evaluation.Manifests
import CommandShell.Proofs.SupportedTypes
import CommandShell.Proofs.TypedArguments
import CommandShell.Proofs.BoundedOutput
import CommandShell.Proofs.ManifestPrefix
import CommandShell.Proofs.Liveness
import CommandShell.Proofs.PrintedTexts
import CommandShell.Proofs.Repetition
import CommandShell.Proofs.RecursionLimit
import CommandShell.Proofs.Variables
import CommandShell.Proofs.LineBreaks
import CommandShell.Proofs.Reading.Unterminated
import CommandShell.Proofs.Reading.ArrayParts
import CommandShell.Proofs.ConversionFailures
import CommandShell.Proofs.AliasListing
import CommandShell.Proofs.HostMembers
import CommandShell.Proofs.LiteralData
import CommandShell.Proofs.PrintedIntegers
import CommandShell.Proofs.WholeNumbers
import CommandShell.Proofs.HostState
import CommandShell.Proofs.PlayerHealth
