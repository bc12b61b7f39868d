import RouteTemplates.Catalog
import RouteTemplates.Template.Separators
import RouteTemplates.Template.Validation
import RouteTemplates.Trie.Outline
import RouteTemplates.Settings
import RouteTemplates.Proofs.Text.FirstCut
import RouteTemplates.Trie.Arena
import RouteTemplates.Proofs.Template.WellFormed
import RouteTemplates.Proofs.Template.Instance
import RouteTemplates.Proofs.Trie.Paths
import RouteTemplates.Proofs.Trie.Shape
import RouteTemplates.Proofs.Trie.Route
import RouteTemplates.Proofs.Trie.Represents
import RouteTemplates.Proofs.History
import RouteTemplates.Proofs.Resolution.Soundness
import RouteTemplates.Proofs.Template.Lookup
import RouteTemplates.Proofs.Resolution.SingleBody
import RouteTemplates.Proofs.Trie.Layout
import RouteTemplates.Proofs.Trie.ArenaInsertion
import RouteTemplates.Proofs.Trie.Contents
import RouteTemplates.Proofs.Template.Spelling
import RouteTemplates.Proofs.Trie.Ranked
import RouteTemplates.Proofs.Trie.SiblingOrder
import RouteTemplates.Proofs.Trie.Choice
import RouteTemplates.Proofs.Resolution.RegistrationOrder
import RouteTemplates.Proofs.Resolution.Alias
import RouteTemplates.Proofs.Trie.Continuations
import RouteTemplates.Proofs.Trie.Priority
import RouteTemplates.Proofs.Trie.Descent
import RouteTemplates.Proofs.Resolution.MostSpecific
import RouteTemplates.Proofs.Resolution.PrefixRoutes
import RouteTemplates.Proofs.Template.Key
import RouteTemplates.Proofs.Text.Quoting
import RouteTemplates.Proofs.Reregistration
import RouteTemplates.Proofs.Resolution.ExactLiteral
import RouteTemplates.Proofs.Reassembly
import RouteTemplates.Proofs.Text.LineBreaks
import RouteTemplates.Proofs.Trie.Outline
import RouteTemplates.Proofs.Trie.Course
import RouteTemplates.Proofs.Resolution.EmptyValue
import RouteTemplates.Proofs.Trie.FirstEnd
import RouteTemplates.Proofs.Resolution.FirstName
import RouteTemplates.Proofs.Resolution.Unrelated
import RouteTemplates.Proofs.Template.Splitting
import RouteTemplates.Proofs.Resolution.Refilling
import RouteTemplates.Proofs.Template.Assembly
import RouteTemplates.Proofs.Template.Pieces
import RouteTemplates.Proofs.Template.Refusal
import RouteTemplates.Proofs.Scratch.Growth
import RouteTemplates.Proofs.Scratch.Accounting
import RouteTemplates.Proofs.Trie.Trail
import RouteTemplates.Proofs.Scratch.SingleBuffer
import RouteTemplates.Proofs.Scratch.LentBuffers
import RouteTemplates.Trie.Walk
