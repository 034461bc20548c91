import AccessPolicy.Command.Report
import AccessPolicy.Main
import AccessPolicy.Proofs.Command.Endings
import AccessPolicy.Proofs.Command.Installed
import AccessPolicy.Proofs.Deployment.Announcement
import AccessPolicy.Proofs.Deployment.Configured
import AccessPolicy.Proofs.Deployment.DryRun
import AccessPolicy.Proofs.Deployment.Fallback
import AccessPolicy.Proofs.Deployment.FaultedWrite
import AccessPolicy.Proofs.Deployment.Leftover
import AccessPolicy.Proofs.Deployment.Named
import AccessPolicy.Proofs.Deployment.NoOutcome
import AccessPolicy.Proofs.Deployment.Pair
import AccessPolicy.Proofs.Deployment.Reapplied
import AccessPolicy.Proofs.Deployment.Reported
import AccessPolicy.Proofs.Directive.Continuation
import AccessPolicy.Proofs.Directive.Shown
import AccessPolicy.Proofs.Document.Repeated
import AccessPolicy.Proofs.Policy.Blocks
import AccessPolicy.Proofs.Policy.Commuting
import AccessPolicy.Proofs.Policy.FirstViolation
import AccessPolicy.Proofs.Policy.Gate
import AccessPolicy.Proofs.Policy.Inert
import AccessPolicy.Proofs.Policy.OrderFree
import AccessPolicy.Proofs.Policy.Partition
import AccessPolicy.Proofs.SiteConfig.Unreadable
