import AnnotationReport.Main
import AnnotationReport.Proofs.Json.Layout
import AnnotationReport.Proofs.Api.Unchanged
import AnnotationReport.Proofs.Report.Limited
import AnnotationReport.Proofs.Report.Lines
import AnnotationReport.Proofs.Report.Window
import AnnotationReport.Proofs.Run.ExitStatus
import AnnotationReport.Proofs.Run.TokenSecrecy
import AnnotationReport.Proofs.Api.JobAnswers
import AnnotationReport.Proofs.Api.KeptMembers
import AnnotationReport.Proofs.Run.JobIds
import AnnotationReport.Proofs.Url.Addresses
import AnnotationReport.Proofs.Url.Hosts
import AnnotationReport.Proofs.Url.Authorities
import AnnotationReport.Proofs.Url.Paths
import AnnotationReport.Proofs.Url.RoundTrip
import AnnotationReport.Proofs.Config.Rereading
import AnnotationReport.Proofs.Config.BaseUrl
import AnnotationReport.Proofs.Api.Answers
import AnnotationReport.Proofs.Settings.Flags
import AnnotationReport.Proofs.Config.Settings
import AnnotationReport.Proofs.Report.Sessions
