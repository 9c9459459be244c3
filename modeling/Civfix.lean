import Civfix.KeyedTables
import Civfix.LockedTransactions
import Civfix.InterleavedCalls
import Civfix.SpelledIds
import Civfix.AttendanceTables
import Civfix.AttendanceLocks
import Civfix.RegistrationRepository
import Civfix.WaitlistRepository
import Civfix.RosterRepository
import Civfix.AttendanceOperations
import Civfix.SeatLedger
import Civfix.SeatReleases
import Civfix.AttendanceRules
import Civfix.RegistrationRules
import Civfix.WaitlistRules
import Civfix.RosterRules
import Civfix.TicketTypeRules
import Civfix.AttendanceGuarantees
import Civfix.BroadcastRepository
import Civfix.BroadcastPipeline
import Civfix.BroadcastSteps
import Civfix.BroadcastDeliveries
import Civfix.BroadcastSending
import Civfix.BroadcastBudgets
import Civfix.BroadcastCooldowns
import Civfix.BroadcastEmails
import Civfix.ChatPresence
import Civfix.SessionService
import Civfix.SessionSteps
import Civfix.SessionInvariants
import Civfix.SessionRevocation
import Civfix.SessionEpochs
import Civfix.SessionSuspension
import Civfix.SessionLifetime
import Civfix.ErasureRepository
import Civfix.ErasureRules
import Civfix.FilingRepository
import Civfix.FilingService
import Civfix.FilingSteps
import Civfix.FilingLifecycle
import Civfix.FilingResults
import Civfix.FilingEmails
import Civfix.FilingOperators
import Civfix.FilingCreation
import Civfix.CityUpdateTables
import Civfix.CityUpdateTransactions
import Civfix.CityUpdateRules
import Civfix.CityUpdateEffects
import Civfix.EventEdits
import Civfix.EventWindows
import Civfix.VolunteerHoursTables
import Civfix.VolunteerHoursRepository
import Civfix.VolunteerHoursService
import Civfix.VolunteerHoursChanges
import Civfix.VolunteerHoursRules
import Civfix.VolunteerHoursLedger
import Civfix.OtpService
import Civfix.OtpSteps
import Civfix.OtpCodes
import Civfix.OtpIssues
import Civfix.CreditedDays
import Civfix.DailyHoursCap
import Civfix.RelyConditions
import Civfix.Schedules
import Civfix.OrganizationTables
import Civfix.OrganizationTransactions
import Civfix.OrganizationRules
import Civfix.OrganizationAuthority
import Civfix.OrganizationOwners
import Civfix.OrganizationInvites
import Civfix.EffectLeases
import Civfix.ReplyAdvances
import Civfix.HoldReleases
import Civfix.ModerationItems
import Civfix.RelationalStores
import Civfix.AnonymousReports
import Civfix.ReportOperations
import Civfix.ReportVotes
import Civfix.ClaimCodes
import Civfix.PostRepository
import Civfix.PostCounters
import Civfix.Reposts
import Civfix.DoorPresence
import Civfix.MediaChecks
import Civfix.ReadyMedia
import Civfix.RejectedMedia
import Civfix.MediaClaims
import Civfix.UploadOwners
import Civfix.OrphanDeletes
import Civfix.EventBans
import Civfix.GuestRsvps
import Civfix.CertificateObjects
import Civfix.EmailLimits
import Civfix.SendDedupe
import Civfix.InboundAttachments
import Civfix.ExportCsv
import Civfix.TicketTexts
import Civfix.FilingCorrelator
import Civfix.BroadcastPlanning
import Civfix.PlannedDeliveries
import Civfix.SlotCapacity
import Civfix.WorkerJobs
import Civfix.ProvedRuns
import Civfix.FilingRequeues
import Civfix.FilerPresses
import Civfix.FilerSystem
import Civfix.DelimitedRecords
import Civfix.ExportRecords
import Civfix.PortalFingerprints
import Civfix.SendStates
import Civfix.JsonTexts
import Civfix.TranscriptModels
import Civfix.LegalConsents
import Civfix.ConsentSettled
import Civfix.GuestGates
import Civfix.FilingPhotos
import Civfix.KeysetPages
import Civfix.MessageHistory
import Civfix.MessageWindows
import Civfix.AddressTexts
import Civfix.PushAddresses
import Civfix.TextScans
import Civfix.TagTexts
import Civfix.InboundHtml
import Civfix.InboundHtmlSafe
import Civfix.CityReplies
import Civfix.CalendarDates
import Civfix.KeysetCursors
import Civfix.CursorPages
import Civfix.RosterPages
import Civfix.ThreadPages
import Civfix.UniqueIndexes
import Civfix.SlotReconciliation
import Civfix.LinkedReports
import Civfix.WaitlistPromotion
import Civfix.AnswerValidation
import Civfix.Leaderboards
import Civfix.BitGroups
import Civfix.TicketTokens
import Civfix.Utf8Texts
import Civfix.OutboundDeadlines
import Civfix.TokenBuckets
import Civfix.SendLimits
import Civfix.DerivedIds
import Civfix.Groupings
import Civfix.MapClusters
import Civfix.FeedRanking
import Civfix.FeedPages
import Civfix.Base64Url
import Civfix.JsonValues
import Civfix.UnsubscribeTokens
import Civfix.IpBuckets
import Civfix.CloseTagCursors
import Civfix.InboundHtmlFixed
