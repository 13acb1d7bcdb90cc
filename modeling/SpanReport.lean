import SpanReport.Detect.Segments
import SpanReport.Detect.Session
import SpanReport.File.Disk
import SpanReport.Line.Walk
import SpanReport.Main
import SpanReport.Proofs.Detect.Capitals
import SpanReport.Proofs.Detect.Sample
import SpanReport.Proofs.Finding.Log
import SpanReport.Proofs.Line.Layout
import SpanReport.Proofs.Line.Lookup
import SpanReport.Proofs.Report.Capitals
import SpanReport.Proofs.Report.Entry
import SpanReport.Proofs.Report.LineEnding
import SpanReport.Proofs.Report.Sample
import SpanReport.Proofs.Report.Stretch
import SpanReport.Proofs.Text.LineEnding
import SpanReport.Proofs.Text.Token
import SpanReport.Report.External
import SpanReport.Proofs.Report.Locate
import SpanReport.Proofs.Report.RoundTrip
import SpanReport.Proofs.Compiler.Store
import SpanReport.Proofs.Compiler.Requests
import SpanReport.Proofs.Detect.Session
import SpanReport.Proofs.Report.Joined
import SpanReport.Proofs.Detect.Segments
import SpanReport.Proofs.Report.CapitalTokens
import SpanReport.Proofs.Artifact.Directory
import SpanReport.Proofs.Command.Run
import SpanReport.Proofs.Detect.Concatenated
import SpanReport.Proofs.Report.Decision
import SpanReport.Proofs.Text.Scanner
import SpanReport.Proofs.Line.Append
import SpanReport.Proofs.Line.Character
import SpanReport.Proofs.Line.Walk
import SpanReport.Proofs.Detect.Joined
import SpanReport.Proofs.Report.Ends
import SpanReport.Proofs.Report.Order
import SpanReport.Proofs.Line.Joined
import SpanReport.Proofs.Text.Read
import SpanReport.Proofs.Command.Number
import SpanReport.Proofs.Command.Options
import SpanReport.Proofs.Draw.Generator
