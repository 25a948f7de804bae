import FamilyPlatform.Lib.Table
import FamilyPlatform.Kernel.Plain
import FamilyPlatform.Kernel.RuleRoundTrip
import FamilyPlatform.Lib.Interleaving
import FamilyPlatform.Membership.Ownership
import FamilyPlatform.Identity.Revocation
import FamilyPlatform.Identity.Deletion
import FamilyPlatform.Api.HandledOnce
import FamilyPlatform.Api.TaskRoutes
import FamilyPlatform.Api.Replays
import FamilyPlatform.Membership.Coverage
import FamilyPlatform.Tasks.SeriesRuns
import FamilyPlatform.Tasks.Overdue
import FamilyPlatform.Relay.Delivered
import FamilyPlatform.Relay.Consumer
import FamilyPlatform.Tasks.Hidden
import FamilyPlatform.Calendar.Hidden
import FamilyPlatform.Tasks.Transactions
import FamilyPlatform.Worker.Sweeping
import FamilyPlatform.Membership.Household
import FamilyPlatform.Membership.Roster
import FamilyPlatform.Membership.Invitations
import FamilyPlatform.Membership.Stale
import FamilyPlatform.Identity.Credentials
import FamilyPlatform.Identity.Throttling
import FamilyPlatform.Tasks.Instances
import FamilyPlatform.Tasks.Advances
import FamilyPlatform.Tasks.Times
import FamilyPlatform.Kernel.MonthDays
import FamilyPlatform.Kernel.YearZero
import FamilyPlatform.Relay.Backlog
import FamilyPlatform.Relay.Isolated
import FamilyPlatform.Tasks.Cramped
import FamilyPlatform.Calendar.Covered
import FamilyPlatform.Kernel.RuleForms
import FamilyPlatform.Tasks.Patched
import FamilyPlatform.Tasks.Handed
import FamilyPlatform.Worker.Stalls
import FamilyPlatform.Calendar.Planned
import FamilyPlatform.Calendar.Cancelled
import FamilyPlatform.Api.Pages
import FamilyPlatform.Calendar.AllDay
import FamilyPlatform.Calendar.Ranges
import FamilyPlatform.Identity.Retention
import FamilyPlatform.Api.LocalDates
import FamilyPlatform.Api.FamilyClosed
import FamilyPlatform.Api.FamilyOutsiders
import FamilyPlatform.Api.FamilyAudit
