import DesignTokens.CommandLine.Arguments
import DesignTokens.CommandLine.Markup
import DesignTokens.CommandLine.Request
import DesignTokens.CommandLine.Session
import DesignTokens.Decimal.Dyadic
import DesignTokens.Decimal.Layout
import DesignTokens.Decimal.Numeral
import DesignTokens.Decimal.Shortest
import DesignTokens.Dictionary
import DesignTokens.Entries
import DesignTokens.Error
import DesignTokens.Figma.Document
import DesignTokens.Figma.TextStyles
import DesignTokens.Files.Loading
import DesignTokens.Files.Path
import DesignTokens.Files.Pattern
import DesignTokens.Files.Search
import DesignTokens.Files.Tree
import DesignTokens.Json.Reader
import DesignTokens.Json.Writer
import DesignTokens.Main
import DesignTokens.Mode.Axis
import DesignTokens.Mode.Breakpoint
import DesignTokens.Mode.Names
import DesignTokens.Name
import DesignTokens.Notice
import DesignTokens.Project.Basic
import DesignTokens.Project.Build
import DesignTokens.Project.Export
import DesignTokens.Project.Sheets
import DesignTokens.Project.Sources
import DesignTokens.Project.Validation
import DesignTokens.Project.Work
import DesignTokens.Proofs.Decimal.Order
import DesignTokens.Proofs.Decimal.Unsigned
import DesignTokens.Proofs.Entries
import DesignTokens.Proofs.Mode.Names
import DesignTokens.Proofs.Mode.Thresholds
import DesignTokens.Proofs.Paired
import DesignTokens.Proofs.Reference.Dotted
import DesignTokens.Proofs.Reference.Grammar
import DesignTokens.Proofs.Resolution.Checks
import DesignTokens.Proofs.Resolution.Cycles
import DesignTokens.Proofs.Resolution.Distinct
import DesignTokens.Proofs.Resolution.Ends
import DesignTokens.Proofs.Resolution.FixedPoint
import DesignTokens.Proofs.Resolution.Replacement
import DesignTokens.Proofs.Resolution.Search
import DesignTokens.Proofs.Schema
import DesignTokens.Proofs.Stylesheet.Accounts
import DesignTokens.Proofs.Stylesheet.Cascade
import DesignTokens.Proofs.Stylesheet.Categories
import DesignTokens.Proofs.Stylesheet.Closure
import DesignTokens.Proofs.Stylesheet.ColorSchemes
import DesignTokens.Proofs.Stylesheet.Combined
import DesignTokens.Proofs.Stylesheet.Marked
import DesignTokens.Proofs.Stylesheet.ModeFiles
import DesignTokens.Proofs.Stylesheet.Parts
import DesignTokens.Proofs.Stylesheet.Properties
import DesignTokens.Proofs.Stylesheet.TextStyles
import DesignTokens.Proofs.Stylesheet.Widths
import DesignTokens.Proofs.Stylesheet.Written
import DesignTokens.Proofs.Text
import DesignTokens.Proofs.Traced
import DesignTokens.Reference
import DesignTokens.Resolution
import DesignTokens.Schema
import DesignTokens.Settings.Basic
import DesignTokens.Settings.Environment
import DesignTokens.Settings.Loading
import DesignTokens.Settings.Reader
import DesignTokens.Stylesheet.Category
import DesignTokens.Stylesheet.Color
import DesignTokens.Stylesheet.ColorSchemes
import DesignTokens.Stylesheet.Document
import DesignTokens.Stylesheet.ImportSheet
import DesignTokens.Stylesheet.Literal
import DesignTokens.Stylesheet.Rendering
import DesignTokens.Stylesheet.Typography
import DesignTokens.Stylesheet.Widths
import DesignTokens.Text.Blank
import DesignTokens.Text.Cased
import DesignTokens.Text.Digit
import DesignTokens.Text.Lowercase
import DesignTokens.Text.Printable
import DesignTokens.Text.Quoted
import DesignTokens.Text.Radix
import DesignTokens.Text.Stretch
import DesignTokens.Token
import DesignTokens.Toml.Item
import DesignTokens.Toml.Reader
import DesignTokens.Toml.Scalar
import DesignTokens.Traced
import DesignTokens.Tree.Authored
import DesignTokens.Tree.Delegation
import DesignTokens.Tree.Keys
import DesignTokens.Tree.Merge
import DesignTokens.Value.Basic
import DesignTokens.Value.Calendar
import DesignTokens.Value.Data
import DesignTokens.Value.Shape
import DesignTokens.Version
import DesignTokens.Yaml.Cursor
import DesignTokens.Yaml.Layout
import DesignTokens.Yaml.Node
import DesignTokens.Yaml.Reader
import DesignTokens.Yaml.Scalar
import DesignTokens.Yaml.ScalarText
import DesignTokens.Yaml.Token
import DesignTokens.Proofs.Value.UniqueKeys
import DesignTokens.Proofs.Json.Reader
import DesignTokens.Proofs.Tree.Leaves
import DesignTokens.Proofs.Tree.Merged
import DesignTokens.Proofs.Files.Sources
import DesignTokens.Proofs.Files.Loaded
import DesignTokens.Proofs.Stylesheet.Failures
import DesignTokens.Proofs.Figma.Nested
import DesignTokens.Proofs.Tree.Conventions
import DesignTokens.Proofs.Resolution.Uniqueness
import DesignTokens.Proofs.Stylesheet.Embedded
import DesignTokens.Proofs.Files.Places
import DesignTokens.Proofs.Files.Writing
import DesignTokens.Proofs.Files.Rewriting
import DesignTokens.Proofs.Files.Found
import DesignTokens.Proofs.Project.Outputs
import DesignTokens.Proofs.Project.Readings
import DesignTokens.Proofs.Project.Rebuilding
import DesignTokens.Proofs.Project.Orders
import DesignTokens.Proofs.Tree.Overlaid
import DesignTokens.Proofs.Files.Overriding
import DesignTokens.Proofs.Stylesheet.Imports
import DesignTokens.Proofs.Stylesheet.ImportSheets
import DesignTokens.Proofs.Stylesheet.ImportOrder
import DesignTokens.Proofs.Settings.Failures
import DesignTokens.Proofs.Tree.Inherited
import DesignTokens.Proofs.Resolution.Members
import DesignTokens.Proofs.Stylesheet.Inheritance
import DesignTokens.Proofs.Stylesheet.Literal
import DesignTokens.Proofs.Stylesheet.Shadows
import DesignTokens.Proofs.Stylesheet.FontStacks
import DesignTokens.Proofs.Name
import DesignTokens.Proofs.Stylesheet.ModeNames
import DesignTokens.Proofs.Stylesheet.DeclaredOnce
import DesignTokens.Proofs.Resolution.Homographs
import DesignTokens.Proofs.Stylesheet.Braced
import DesignTokens.Proofs.Figma.Variants
import DesignTokens.Proofs.Files.Shown
import DesignTokens.Proofs.Project.TierTokens
import DesignTokens.Proofs.Figma.Pruned
import DesignTokens.Proofs.Figma.Exported
import DesignTokens.Proofs.Figma.Italics
import DesignTokens.Proofs.Figma.Overwritten
import DesignTokens.Proofs.Figma.ItalicAliases
import DesignTokens.Proofs.Reference.Asked
import DesignTokens.Proofs.Stylesheet.Lookups
import DesignTokens.Proofs.Stylesheet.Channels
import DesignTokens.Proofs.Stylesheet.TokenFaults
import DesignTokens.Proofs.Settings.Tables
import DesignTokens.Proofs.Resolution.Residue
import DesignTokens.Proofs.Name.Kebab
import DesignTokens.Proofs.Tree.Pathwise
import DesignTokens.Proofs.Files.AllOrNothing
import DesignTokens.Proofs.Project.Refusals
import DesignTokens.Proofs.Project.Validated
import DesignTokens.Proofs.Name.Steps
import DesignTokens.Proofs.Figma.Nodes
