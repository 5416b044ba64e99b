import MetricSurvey.Connection.Exchange
import MetricSurvey.Main
import MetricSurvey.Proofs.Config.Dump
import MetricSurvey.Proofs.Connection.Conversation
import MetricSurvey.Proofs.Connection.Keepalive
import MetricSurvey.Proofs.Metric.History
import MetricSurvey.Proofs.Metric.Preaggregation
import MetricSurvey.Proofs.Metric.Samples
import MetricSurvey.Proofs.Metric.Snapshot
import MetricSurvey.Proofs.Server.Ghosts
import MetricSurvey.Proofs.Survey.Accounts
import MetricSurvey.Proofs.Survey.Owed
import MetricSurvey.Proofs.Survey.Replacements
import MetricSurvey.Proofs.Survey.Spacing
import MetricSurvey.Proofs.Survey.Windows
import MetricSurvey.Proofs.Time.Firing
import MetricSurvey.Proofs.Time.Ticker
import MetricSurvey.Proofs.Wire.Lenient
import MetricSurvey.Proofs.Wire.Truncation
import MetricSurvey.Proofs.Metric.Key
import MetricSurvey.Proofs.Metric.Contents
import MetricSurvey.Proofs.Output.Isolation
import MetricSurvey.Proofs.Output.Writing
import MetricSurvey.Proofs.Survey.Shapes
