import AtlasAuth.Framework.Prog
import AtlasAuth.Framework.Pool
import AtlasAuth.Framework.Contract
import AtlasAuth.Framework.Sequential
import AtlasAuth.Framework.Faulty
import AtlasAuth.Framework.Once
import AtlasAuth.Framework.Table
import AtlasAuth.Framework.Links
import AtlasAuth.Framework.Expiring
import AtlasAuth.Framework.RateLimit
import AtlasAuth.Framework.Lockout
import AtlasAuth.Framework.Loop
import AtlasAuth.Framework.Double
import AtlasAuth.Framework.Chain
import AtlasAuth.Framework.Ledger
import AtlasAuth.Framework.Outage
import AtlasAuth.Framework.Journal
import AtlasAuth.Framework.JsValue
import AtlasAuth.Framework.FrontEnd
import AtlasAuth.Framework.Rely
import AtlasAuth.Framework.Refusal
import AtlasAuth.Model.Types
import AtlasAuth.Model.World
import AtlasAuth.Model.Repositories
import AtlasAuth.Model.Rbac
import AtlasAuth.Model.Tokens
import AtlasAuth.Model.AuthService
import AtlasAuth.Model.AccountServices
import AtlasAuth.Model.App
import AtlasAuth.Model.Audit
import AtlasAuth.Model.Throttler
import AtlasAuth.Model.Guards
import AtlasAuth.Model.Filter
import AtlasAuth.Model.Mail
import AtlasAuth.Model.Seed
import AtlasAuth.Model.Config
import AtlasAuth.Model.Api
import AtlasAuth.Proof.Dates
import AtlasAuth.Proof.Calls
import AtlasAuth.Proof.Effect
import AtlasAuth.Proof.Grows
import AtlasAuth.Proof.Revocation
import AtlasAuth.Proof.SingleUse
import AtlasAuth.Proof.PasswordCalls
import AtlasAuth.Proof.PasswordRace
import AtlasAuth.Proof.FailedLogins
import AtlasAuth.Proof.Issue
import AtlasAuth.Proof.Evict
import AtlasAuth.Proof.Accounts
import AtlasAuth.Proof.Changes
import AtlasAuth.Proof.Families
import AtlasAuth.Proof.Replay
import AtlasAuth.Proof.Blacklist
import AtlasAuth.Proof.SessionEnd
import AtlasAuth.Proof.Reset
import AtlasAuth.Proof.RevokedSessions
import AtlasAuth.Proof.Listing
import AtlasAuth.Proof.Lockout
import AtlasAuth.Proof.Throttler
import AtlasAuth.Proof.Deeds
import AtlasAuth.Proof.Rbac
import AtlasAuth.Proof.ResetOnce
import AtlasAuth.Proof.Addresses
import AtlasAuth.Proof.Indexes
import AtlasAuth.Proof.Verify
import AtlasAuth.Proof.Verified
import AtlasAuth.Proof.Conflict
import AtlasAuth.Proof.LinkTables
import AtlasAuth.Proof.Redemptions
import AtlasAuth.Proof.Redeemable
import AtlasAuth.Proof.Mailbox
import AtlasAuth.Proof.Enumeration
import AtlasAuth.Proof.AllOrNothing
import AtlasAuth.Proof.Issuable
import AtlasAuth.Proof.Interrupted
import AtlasAuth.Proof.RefreshRetry
import AtlasAuth.Proof.RegisterRetry
import AtlasAuth.Proof.RedisOutage
import AtlasAuth.Proof.ResetInterrupted
import AtlasAuth.Proof.Eviction
import AtlasAuth.Proof.LogoutCookie
import AtlasAuth.Proof.RevocationRetry
import AtlasAuth.Proof.Administration
import AtlasAuth.Proof.Events
import AtlasAuth.Proof.AuditTrail
import AtlasAuth.Proof.ReuseAlarm
import AtlasAuth.Proof.Filter
import AtlasAuth.Proof.ForgotPassword
import AtlasAuth.Proof.Seed
import AtlasAuth.Proof.Durations
import AtlasAuth.Proof.Api
import AtlasAuth.Proof.Clearance
import AtlasAuth.Proof.Privileges
import AtlasAuth.Proof.Isolation
import AtlasAuth.Proof.Replies
import AtlasAuth.Proof.Refusals
import AtlasAuth.Proof.TrueEvents
