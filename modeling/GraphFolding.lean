import GraphFolding.Main
import GraphFolding.Proofs.Parity
import GraphFolding.Proofs.FoldStates
import GraphFolding.Proofs.NamedClicks
import GraphFolding.Proofs.Escaping
import GraphFolding.Proofs.ScopeLaws
import GraphFolding.Proofs.ReadingTags
import GraphFolding.Proofs.ReadingContent
import GraphFolding.Proofs.ReadingDocuments
import GraphFolding.Proofs.Holding
import GraphFolding.Proofs.RoundTrip
import GraphFolding.Proofs.Commuting
import GraphFolding.Proofs.FoldActions
import GraphFolding.Proofs.Clickable
import GraphFolding.Proofs.StaleMarks
import GraphFolding.Proofs.EditRuns
import GraphFolding.Proofs.AttributeNames
import GraphFolding.Proofs.KeptContent
import GraphFolding.Proofs.PreparedTwice
import GraphFolding.Proofs.FlagFormulas
import GraphFolding.Proofs.TakingTurns
import GraphFolding.Proofs.Deliveries
import GraphFolding.Proofs.Unfolding
import GraphFolding.Proofs.HeaderOrder
import GraphFolding.Proofs.LinkRoles
import GraphFolding.Proofs.OpenStarts
import GraphFolding.Proofs.NamesAsWritten
import GraphFolding.Proofs.InjectedNamespaces
import GraphFolding.Proofs.ClassAlgebra
import GraphFolding.Proofs.SvgLookup
import GraphFolding.Proofs.StoredScopes
import GraphFolding.Proofs.BufferedRules
import GraphFolding.Proofs.Backgrounds
import GraphFolding.Proofs.SettingsEntries
import GraphFolding.Proofs.PathDepth
import GraphFolding.Proofs.WrittenOrder
import GraphFolding.Proofs.Replacements
