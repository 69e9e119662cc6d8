import RoutePattern.Text
import RoutePattern.Text.Digit
import RoutePattern.Text.Blank
import RoutePattern.Text.Printable
import RoutePattern.Text.Letter
import RoutePattern.Pattern
import RoutePattern.Pattern.Path
import RoutePattern.Pattern.Reader
import RoutePattern.Pattern.Capture
import RoutePattern.Table
import RoutePattern.Query
import RoutePattern.Target
import RoutePattern.Number.Shortest
import RoutePattern.Number.FloatText
import RoutePattern.Number.Whole
import RoutePattern.Text.Utf8
import RoutePattern.Text.Base64
import RoutePattern.Number.Decimal
import RoutePattern.Calendar
import RoutePattern.Uuid
import RoutePattern.Text.Quoted
import RoutePattern.Value
import RoutePattern.Value.Refusal
import RoutePattern.Value.Tagged
import RoutePattern.Query.Session
import RoutePattern.Matcher
import RoutePattern.Renderer
import RoutePattern.Pattern.Report
import RoutePattern.Specificity
import RoutePattern.Diagnostic
import RoutePattern.Codec
import RoutePattern.Schema.Issue
import RoutePattern.Schema
import RoutePattern.Schema.Listing
import RoutePattern.Fault
import RoutePattern.Log
import RoutePattern.Route
import RoutePattern.Description
import RoutePattern.Text.Line
import RoutePattern.Cache
import RoutePattern.Route.Cache
import RoutePattern.Route.Cache.Session
import RoutePattern.Document.Json
import RoutePattern.Document.Yaml
import RoutePattern.Document.Assignments
import RoutePattern.Files
import RoutePattern.Settings
import RoutePattern.Settings.Routing
import RoutePattern.Settings.Load
import RoutePattern.Text.Terminal
import RoutePattern.Text.Similarity
import RoutePattern.CommandLine.Command
import RoutePattern.CommandLine.Fault
import RoutePattern.CommandLine.Invocation
import RoutePattern.CommandLine.Assignment
import RoutePattern.CommandLine.Help
import RoutePattern.CommandLine
import RoutePattern.Main
import RoutePattern.Proofs.Results
import RoutePattern.Proofs.JoinedPath
import RoutePattern.Proofs.Renumbering
import RoutePattern.Proofs.Grouping
import RoutePattern.Proofs.LaidOut
import RoutePattern.Proofs.Concatenation
import RoutePattern.Proofs.Reading.Pieces
import RoutePattern.Proofs.Reading.Segments
import RoutePattern.Proofs.Reading.Source
import RoutePattern.Proofs.Reading.Braces
import RoutePattern.Proofs.Reading.Places
import RoutePattern.Proofs.FaultPlaces
import RoutePattern.Proofs.Separator
import RoutePattern.Proofs.Escape
import RoutePattern.Proofs.WrittenForm
import RoutePattern.Proofs.Rereading
import RoutePattern.Proofs.Reading.Layout
import RoutePattern.Proofs.Reading.Steps
import RoutePattern.Proofs.Reading.Bare
import RoutePattern.Proofs.Erasure
import RoutePattern.Proofs.HiddenBlock
import RoutePattern.Proofs.Tables
import RoutePattern.Proofs.StepCaptures
import RoutePattern.Proofs.Rendering
import RoutePattern.Proofs.Captures
import RoutePattern.Proofs.Matching
import RoutePattern.Proofs.Keys
import RoutePattern.Proofs.Succession
import RoutePattern.Proofs.Cursors
import RoutePattern.Proofs.LooseMatch
import RoutePattern.Proofs.RoundTrip.Parameters
import RoutePattern.Proofs.RoundTrip.Segments
import RoutePattern.Proofs.RoundTrip.QueryText
import RoutePattern.Proofs.RoundTrip
import RoutePattern.Proofs.Codecs
import RoutePattern.Proofs.Conversions
import RoutePattern.Proofs.Tagging
import RoutePattern.Proofs.Given
import RoutePattern.Proofs.Lossless
import RoutePattern.Proofs.Usable
import RoutePattern.Proofs.EndFlag
import RoutePattern.Proofs.Localization
import RoutePattern.Proofs.QueryDecoding
import RoutePattern.Proofs.VerbatimQuery
import RoutePattern.Proofs.QueryCaptures
import RoutePattern.Proofs.DigitTexts
import RoutePattern.Proofs.DecimalTexts
import RoutePattern.Proofs.IdentifierTexts
import RoutePattern.Proofs.CodecTexts
import RoutePattern.Proofs.CanonicalBytes
import RoutePattern.Proofs.NormalTexts
import RoutePattern.Proofs.TypedRoutes
import RoutePattern.Proofs.CacheSteps
import RoutePattern.Proofs.CacheHistory
import RoutePattern.Proofs.CacheAccounts
import RoutePattern.Proofs.Invalidation
import RoutePattern.Proofs.FreshRoutes
import RoutePattern.Proofs.LeastRecent
import RoutePattern.Proofs.TransparentCache
import RoutePattern.Proofs.DistinctKeys
import RoutePattern.Proofs.Precedence
import RoutePattern.Proofs.LastWriter
import RoutePattern.Proofs.RoutingOutcomes
import RoutePattern.Proofs.SpecificityOrder
import RoutePattern.Proofs.TagChecks
import RoutePattern.Proofs.AbsentItems
import RoutePattern.Proofs.PlainPatterns
import RoutePattern.Proofs.Shadowing
import RoutePattern.Proofs.FixedPaths
import RoutePattern.Proofs.Descriptions
import RoutePattern.Proofs.OmittedKeys
import RoutePattern.Proofs.Templates
import RoutePattern.Proofs.ConstantRoutes
import RoutePattern.Proofs.SideBySide
import RoutePattern.Proofs.DividedTexts
import RoutePattern.Proofs.SharedSegments
import RoutePattern.Proofs.LostSegments
import RoutePattern.Proofs.LedRepetitions
import RoutePattern.Proofs.QueryValues
import RoutePattern.Proofs.QueryConstruction
import RoutePattern.Proofs.RouteItems
import RoutePattern.Proofs.Combinators
import RoutePattern.Proofs.StackedModifiers
import RoutePattern.Proofs.CanonicalPath
import RoutePattern.Proofs.Outcomes
import RoutePattern.Proofs.KeyedEntries
import RoutePattern.Proofs.FieldConversions
import RoutePattern.Proofs.StructItems
import RoutePattern.Proofs.OuterStructs
import RoutePattern.Proofs.ReportingCodecs
import RoutePattern.Proofs.ShortValues
import RoutePattern.Proofs.DecodeIssues
import RoutePattern.Proofs.DecodedValues
import RoutePattern.Proofs.ReportedFaults
import RoutePattern.Proofs.EncodingFaults
import RoutePattern.Proofs.RouteFaults
import RoutePattern.Proofs.AssignedParameters
