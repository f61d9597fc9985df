import NestApp.Lib.Pool
import NestApp.Lib.Table
import NestApp.Lib.RingBuffer
import NestApp.Lib.ReadCommitted
import NestApp.Lib.Deadlock
import NestApp.Lib.Heap
import NestApp.Lib.Linked
import NestApp.Lib.Prog
import NestApp.Lib.Json
import NestApp.Lib.Number
import NestApp.Lib.Numeral
import NestApp.Lib.Replace
import NestApp.Lib.FixedWindow
import NestApp.Lib.Ensure
import NestApp.Schema
import NestApp.Auth.Database
import NestApp.Auth.Refresh
import NestApp.Auth.Session
import NestApp.Auth.PasswordReset
import NestApp.Users.SoftDelete
import NestApp.Auth.Service
import NestApp.Auth.Family
import NestApp.Auth.Theft
import NestApp.Auth.ForcedLogin
import NestApp.Auth.ResetLinks
import NestApp.Auth.SingleUse
import NestApp.Auth.Locks
import NestApp.Auth.LockOrder
import NestApp.Auth.LockRank
import NestApp.Auth.Accounts
import NestApp.Auth.HalfDone
import NestApp.Auth.Enumeration
import NestApp.Users.Update
import NestApp.Rbac.Database
import NestApp.Rbac.Services
import NestApp.Rbac.Outcome
import NestApp.Rbac.Seed
import NestApp.Rbac.CacheCoherence
import NestApp.Rbac.Guard
import NestApp.Rbac.SystemRoles
import NestApp.Rbac.Reseed
import NestApp.Rbac.Recache
import NestApp.Rbac.Staleness
import NestApp.Rbac.JoinRows
import NestApp.Rbac.RoleLocks
import NestApp.LockCycles
import NestApp.Rbac.Replace
import NestApp.Users.SetRoles
import NestApp.Users.Lockout
import NestApp.Realtime.Gateway
import NestApp.Shared.Metrics
import NestApp.Shared.ErrorRateMonitor
import NestApp.Shared.RouteTable
import NestApp.Lib.Like
import NestApp.Lib.Paging
import NestApp.Users.FindAll
import NestApp.Rbac.Postgres
import NestApp.Rbac.Patch
import NestApp.Rbac.Bodies
import NestApp.Realtime.Bearer
import NestApp.Realtime.ConnectLimit
import NestApp.Realtime.RedisIoAdapter
import NestApp.Users.Creation
import NestApp.Common.LoggingInterceptor
import NestApp.Common.WsThrottleGuard
import NestApp.Config.JwtConfig
import NestApp.Config.EnvValidation
import NestApp.Seeds.SeedRolesPermissions
import NestApp.Seeds.Plan
import NestApp.Seeds.Resumption
import NestApp.Lib.Along
import NestApp.Lib.Coupled
import NestApp.Auth.Rotation
import NestApp.Auth.Provenance
import NestApp.Http.App
import NestApp.Http.Writes
import NestApp.Http.Mediation
import NestApp.Http.Escalation
import NestApp.Http.Secrecy
import NestApp.Http.Takeover
import NestApp.Http.Deleted
import NestApp.Lib.Percent
import NestApp.Auth.MailTemplates
import NestApp.Http.Recovery
import NestApp.Process
import NestApp.BroadcastRate
import NestApp.Shared.ResilientThrottler
import NestApp.Http.Throttled
import NestApp.Lib.Ddl
import NestApp.Migrations
