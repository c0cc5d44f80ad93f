import XmlPipeline.Archive.Crc32
import XmlPipeline.Archive.Field
import XmlPipeline.Archive.Stored
import XmlPipeline.Archive.Zip
import XmlPipeline.CommandLine.Grammar
import XmlPipeline.CommandLine.HelpText
import XmlPipeline.CommandLine.Invocation
import XmlPipeline.CommandLine.Run
import XmlPipeline.Decimal.Binary64
import XmlPipeline.Engine.Basic
import XmlPipeline.Engine.Config
import XmlPipeline.Engine.ConfigFile
import XmlPipeline.Engine.Destination
import XmlPipeline.Engine.Execution
import XmlPipeline.Engine.Journal
import XmlPipeline.Engine.Listener
import XmlPipeline.Engine.ParameterSet
import XmlPipeline.Engine.Plan
import XmlPipeline.Engine.Processor
import XmlPipeline.Engine.Report
import XmlPipeline.Engine.Request
import XmlPipeline.Engine.Scope
import XmlPipeline.Engine.Script
import XmlPipeline.Engine.Source
import XmlPipeline.Engine.TemplateCache
import XmlPipeline.Error.Basic
import XmlPipeline.Error.Help
import XmlPipeline.FileReader
import XmlPipeline.FileTree
import XmlPipeline.Json.Basic
import XmlPipeline.Json.Decoder.Basic
import XmlPipeline.Json.Decoder.Form
import XmlPipeline.Json.Decoder.Number
import XmlPipeline.Json.Decoder.Skip
import XmlPipeline.Json.Decoder.Text
import XmlPipeline.Json.Decoder.Value
import XmlPipeline.Json.Printer
import XmlPipeline.Json.Problem
import XmlPipeline.Log
import XmlPipeline.Main
import XmlPipeline.Output.Body
import XmlPipeline.Output.Charset
import XmlPipeline.Output.FinalSerializer
import XmlPipeline.Output.JsonBody
import XmlPipeline.Output.Properties
import XmlPipeline.Output.Sink
import XmlPipeline.Output.ZipBody
import XmlPipeline.Path
import XmlPipeline.Pipeline.Attribute
import XmlPipeline.Pipeline.Basic
import XmlPipeline.Pipeline.Definition
import XmlPipeline.Pipeline.Parameter
import XmlPipeline.Pipeline.Step
import XmlPipeline.SortedMap
import XmlPipeline.Text.Blank
import XmlPipeline.Text.Cut
import XmlPipeline.Text.Quoted
import XmlPipeline.Text.Shapeless
import XmlPipeline.Text.Unsigned
import XmlPipeline.Text.Utf8
import XmlPipeline.Xml.Document
import XmlPipeline.Xml.Escape
import XmlPipeline.Xml.Event
import XmlPipeline.Xml.Markup
import XmlPipeline.Xml.Namespace
import XmlPipeline.Xml.Reader
import XmlPipeline.Xml.SyntaxError
import XmlPipeline.Xml.Tag
import XmlPipeline.Xml.Writer
import XmlPipeline.Proofs.Pipeline.Vocabulary
import XmlPipeline.Proofs.Pipeline.InForce
import XmlPipeline.Proofs.Pipeline.Reading
import XmlPipeline.Proofs.Xml.WellFormed
import XmlPipeline.Proofs.Xml.WrittenTag
import XmlPipeline.Proofs.Xml.RoundTrip
import XmlPipeline.Proofs.Engine.Action
import XmlPipeline.Proofs.Engine.Bindings
import XmlPipeline.Proofs.Engine.Conduct
import XmlPipeline.Proofs.Engine.Steps
import XmlPipeline.Proofs.Engine.Parameters
import XmlPipeline.Proofs.Engine.Threading
import XmlPipeline.Proofs.Result
import XmlPipeline.Proofs.Xml.ReadTag
import XmlPipeline.Proofs.Xml.Nesting
import XmlPipeline.Proofs.Engine.Templates
import XmlPipeline.Proofs.Engine.Passage
import XmlPipeline.Proofs.Engine.Correspondence
import XmlPipeline.Proofs.Engine.Reached
import XmlPipeline.Proofs.Engine.Modes
import XmlPipeline.Proofs.Engine.Abort
import XmlPipeline.Proofs.Engine.Failure
import XmlPipeline.Proofs.Pipeline.Literal
import XmlPipeline.Proofs.Engine.Answer
import XmlPipeline.Proofs.Engine.Isolation
import XmlPipeline.Proofs.Xml.Resolution
import XmlPipeline.Proofs.Xml.Indentation
import XmlPipeline.Proofs.Engine.Reports
import XmlPipeline.Proofs.Engine.Requests
import XmlPipeline.Proofs.Engine.Turns
import XmlPipeline.Proofs.Engine.Conclusion
import XmlPipeline.Proofs.Engine.Calls
import XmlPipeline.Proofs.Engine.Unlogged
import XmlPipeline.Proofs.Engine.Shown
import XmlPipeline.Proofs.Engine.Stopping
import XmlPipeline.Proofs.CommandLine.Planning
import XmlPipeline.Proofs.Pipeline.Opening
import XmlPipeline.Proofs.Pipeline.Coherence
import XmlPipeline.Proofs.Pipeline.Acceptance
import XmlPipeline.Proofs.Pipeline.Values
import XmlPipeline.Proofs.Text.Utf8
import XmlPipeline.Proofs.Output.Transcoding
import XmlPipeline.Proofs.Output.Spelling
import XmlPipeline.Proofs.Output.XmlBody
import XmlPipeline.Proofs.Pipeline.Refusal
import XmlPipeline.Proofs.Pipeline.Copying
import XmlPipeline.Proofs.Text.Characters
import XmlPipeline.Proofs.Output.Pieces
import XmlPipeline.Proofs.Output.Refusing
import XmlPipeline.Proofs.Output.Serializing
import XmlPipeline.Proofs.Output.HtmlBody
import XmlPipeline.Proofs.Output.Limits
import XmlPipeline.Proofs.Output.Names
import XmlPipeline.Proofs.Output.JsonForm
import XmlPipeline.Proofs.Xml.LineBreaks
import XmlPipeline.Proofs.Xml.Leaves
import XmlPipeline.Proofs.Engine.Validating
import XmlPipeline.Proofs.Output.JsonAttributes
import XmlPipeline.Proofs.Archive.Reading
import XmlPipeline.Proofs.Output.ZipEntries
import XmlPipeline.Proofs.Path.Walk
import XmlPipeline.Proofs.Engine.Caching
import XmlPipeline.Proofs.Engine.Release
import XmlPipeline.Proofs.Engine.ReportDocument
import XmlPipeline.Proofs.Xml.Scanning
import XmlPipeline.Proofs.Xml.Ending
import XmlPipeline.Proofs.Text.Blank
import XmlPipeline.Proofs.Pipeline.Directive
import XmlPipeline.Proofs.Pipeline.Failing
import XmlPipeline.Proofs.Pipeline.Editing
