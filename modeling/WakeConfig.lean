import WakeConfig.Files.Tree
import WakeConfig.Main
import WakeConfig.Proofs.AddressText
import WakeConfig.Proofs.Agreement
import WakeConfig.Proofs.Canonical
import WakeConfig.Proofs.Escapes
import WakeConfig.Proofs.ExitCodes
import WakeConfig.Proofs.Failures
import WakeConfig.Proofs.IntegerFields
import WakeConfig.Proofs.Json.Reading
import WakeConfig.Proofs.Rendering
import WakeConfig.Proofs.Resolution
import WakeConfig.Proofs.Sealed
import WakeConfig.Proofs.Source
import WakeConfig.Proofs.StrictFile
import WakeConfig.Proofs.Toml.Lexemes
import WakeConfig.Proofs.Toml.Untouched
import WakeConfig.Proofs.Unsigned
import WakeConfig.Proofs.Versions
import WakeConfig.Proofs.WellFormed
import WakeConfig.Text.Json.Reader
import WakeConfig.Proofs.Checks
import WakeConfig.Proofs.StartCommand
import WakeConfig.Proofs.FirstError
import WakeConfig.Proofs.DirectPaths
import WakeConfig.Proofs.CommandLines
import WakeConfig.Proofs.ServerDirectory
import WakeConfig.Proofs.MethodLists
import WakeConfig.Proofs.Documentation
import WakeConfig.Proofs.LogLines
import WakeConfig.Proofs.Stripping
import WakeConfig.Proofs.TestAndShow
import WakeConfig.Proofs.Toml.Scanning
import WakeConfig.Proofs.Toml.LiteralKinds
