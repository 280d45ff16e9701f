import TagAlias.Syntax.Node
import TagAlias.Grammar.Parser
import TagAlias.Dialect
import TagAlias.Grammar.Signatures
import TagAlias.Grammar.Markup
import TagAlias.Grammar.Program
import TagAlias.Text.Lines
import TagAlias.Text.Identifier
import TagAlias.Text.Lowercase
import TagAlias.Scope.Analysis
import TagAlias.Failure
import TagAlias.Data.Value
import TagAlias.Path
import TagAlias.Data.Json
import TagAlias.Data.Toml.Reader
import TagAlias.Data.Toml.Writer
import TagAlias.Config
import TagAlias.Message.Bus
import TagAlias.Workspace.App
import TagAlias.Workspace.Builder
import TagAlias.Alias.Transform
import TagAlias.Proofs.Scope.Bindings
import TagAlias.Proofs.Scope.Table
import TagAlias.Proofs.Syntax.Preorder
import TagAlias.Proofs.Scope.Reads
import TagAlias.Proofs.Scope.Lexical
import TagAlias.Proofs.Scope.Resolution
import TagAlias.Proofs.Scope.Frames
import TagAlias.Proofs.Component.Places
import TagAlias.Proofs.Component.Method
import TagAlias.Proofs.Alias.Collected
import TagAlias.Proofs.Component.Nearest
import TagAlias.Proofs.Component.Attribution
import TagAlias.Proofs.Component.BodyStart
import TagAlias.Proofs.Syntax.Corresponding
import TagAlias.Proofs.Component.Twin
import TagAlias.Proofs.Alias.Planned
import TagAlias.Proofs.Alias.Hygiene
import TagAlias.Proofs.Text.LineStart
import TagAlias.Proofs.Text.Edits
import TagAlias.Proofs.Text.Insertion
import TagAlias.Proofs.Alias.Declaration
import TagAlias.Proofs.Alias.Graft
import TagAlias.Proofs.Alias.GraftScope
import TagAlias.Proofs.Alias.GraftSurvey
import TagAlias.Proofs.Alias.Spliced
import TagAlias.Proofs.Alias.Grow
import TagAlias.Proofs.Alias.Settled
import TagAlias.Proofs.Alias.Again
import TagAlias.Proofs.Alias.Fidelity
import TagAlias.Proofs.Alias.Undisturbed
import TagAlias.Proofs.Grammar.Declared
import TagAlias.Proofs.Files.Frame
import TagAlias.Proofs.Grammar.Sound
import TagAlias.Proofs.Grammar.SoundTypes
import TagAlias.Proofs.Grammar.SoundPrograms
import TagAlias.Proofs.Grammar.Located
import TagAlias.Proofs.Alias.Reported
import TagAlias.Proofs.Workspace.Performed
import TagAlias.Proofs.Workspace.Fate
import TagAlias.Proofs.Workspace.Contained
import TagAlias.Proofs.Config.Accepted
import TagAlias.Proofs.Config.Loaded
import TagAlias.Proofs.Files.Proper
import TagAlias.Proofs.Message.Kept
import TagAlias.Proofs.Workspace.Isolated
import TagAlias.Proofs.Workspace.Repeated
import TagAlias.Proofs.Alias.Remarked
import TagAlias.Proofs.Alias.Policies
import TagAlias.Proofs.Alias.Inserted
import TagAlias.Proofs.Alias.Indented
import TagAlias.Proofs.Workspace.Selected
import TagAlias.Proofs.Workspace.Usable
import TagAlias.Proofs.Workspace.Listed
import TagAlias.Proofs.Alias.Called
import TagAlias.Proofs.Syntax.Faulty
import TagAlias.Proofs.Message.Lookup
import TagAlias.Proofs.Message.Emitted
import TagAlias.Proofs.Scope.Forest
import TagAlias.Proofs.Syntax.Bound
import TagAlias.Proofs.Text.Identified
