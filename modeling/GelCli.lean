import GelCli.Dump.Reported
import GelCli.Release.FixedPoint
import GelCli.Release.PhaseAuthority
import GelCli.Release.Digests
import GelCli.LocalBackup.Liveness
import GelCli.LocalBackup.RestoreFailure
import GelCli.LocalBackup.AutoLimits
import GelCli.Upgrade.Runs
import GelCli.Migrations.Resume
import GelCli.Branch.RebaseOutcome
import GelCli.Install.OneAtATime
import GelCli.Install.Inside
import GelCli.Locking.Exclusion
import GelCli.Locking.Handles
import GelCli.Migrations.PathEnds
import GelCli.Prompt.NamedTuple
import GelCli.Migrations.MergeFiles
import GelCli.Migrations.ExtractOutcome
import GelCli.Migrations.SquashFixups
import GelCli.Migrations.MergedHistory
import GelCli.Migrations.InteractiveRecord
import GelCli.Migrations.SourceMap
import GelCli.Versions.UpwardClosed
import GelCli.Versions.Hint
import GelCli.Versions.AllPackages
import GelCli.Print.VectorPrefix
import GelCli.Print.JsonRoundTrip
import GelCli.Repl.JsonLimit
import GelCli.Repl.Completion
import GelCli.Upgrade.ScoopRoot
import GelCli.Print.BigNumbers
import GelCli.Analyze.TableWords
import GelCli.Analyze.TableWidths
import GelCli.Analyze.Numbers
import GelCli.Project.Stash
import GelCli.Watch.SyncTrigger
import GelCli.Watch.SkippedHooks
import GelCli.Ports.FreePorts
import GelCli.Install.Downloads
import GelCli.Migrations.Repaired
import GelCli.Foundation.Remote
import GelCli.Release.DraftShape
import GelCli.Release.Hub
import GelCli.Release.VerifyDraft
import GelCli.Release.Publish
import GelCli.Release.PublishSafety
import GelCli.Release.PublishChecks
import GelCli.Release.PublishRetry
import GelCli.Release.LatestRelease
import GelCli.Foundation.Series
import GelCli.Release.Staging
import GelCli.Release.StagingSafety
import GelCli.Release.ResolveLive
import GelCli.Release.PreviewNumbers
import GelCli.Foundation.JsonDumps
import GelCli.Release.RecordFile
import GelCli.Release.Distribution
import GelCli.Release.DistributionChecks
import GelCli.Release.DistributionRoundTrip
import GelCli.Release.PublishedPromises
