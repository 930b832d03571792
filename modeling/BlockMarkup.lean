import BlockMarkup.Files.Disk
import BlockMarkup.Main
import BlockMarkup.Proofs.Component.PathTrie
import BlockMarkup.Proofs.Lint.Returns
import BlockMarkup.Proofs.Placeholder.Frame
import BlockMarkup.Proofs.Placeholder.Linted
import BlockMarkup.Proofs.Placeholder.Rerun
import BlockMarkup.Proofs.Stylesheet.Coverage
import BlockMarkup.Proofs.Stylesheet.Index
import BlockMarkup.Proofs.Stylesheet.IndexMerge
import BlockMarkup.Proofs.Stylesheet.Repeated
import BlockMarkup.Proofs.Stylesheet.Resolve
import BlockMarkup.Proofs.Stylesheet.RootChoice
import BlockMarkup.Proofs.Stylesheet.Sections
import BlockMarkup.Proofs.Wrapping
import BlockMarkup.Proofs.Component.Grouping
import BlockMarkup.Proofs.Component.Names
import BlockMarkup.Proofs.Component.WellFormed
import BlockMarkup.Proofs.Stylesheet.Interaction
import BlockMarkup.Proofs.Stylesheet.Selectors
import BlockMarkup.Proofs.Component.Mergers
import BlockMarkup.Proofs.Markup.Serialized
import BlockMarkup.Proofs.Markup.ClassTokens
import BlockMarkup.Proofs.Markup.RootNode
import BlockMarkup.Proofs.Markup.Frontmatter
import BlockMarkup.Proofs.Naming.ModifierPrefix
import BlockMarkup.Proofs.Naming.ValueLimit
import BlockMarkup.Proofs.Markup.TemplateTokens
import BlockMarkup.Proofs.Naming.FileNames
import BlockMarkup.Proofs.Naming.PatternWarnings
import BlockMarkup.Proofs.Placeholder.Promoted
import BlockMarkup.Proofs.Selector.Policy
import BlockMarkup.Proofs.Stylesheet.Loading
import BlockMarkup.Proofs.Stylesheet.Summary
import BlockMarkup.Proofs.Selector.AttributeText
import BlockMarkup.Proofs.Naming.SplitWords
import BlockMarkup.Proofs.Naming.CasePatterns
import BlockMarkup.Proofs.Files.ConfigFile
import BlockMarkup.Proofs.Placeholder.Returns
