import BreezeGateway.Effects.Program
import BreezeGateway.Effects.Network
import BreezeGateway.Effects.Guarantee
import BreezeGateway.Effects.ExpiringStore
import BreezeGateway.Text
import BreezeGateway.Http.Header
import BreezeGateway.Http.Uri
import BreezeGateway.Admission
import BreezeGateway.Redis
import BreezeGateway.RedisAdmission.Task
import BreezeGateway.RedisAdmission.Lease
import BreezeGateway.RedisAdmission.LeaseContract
import BreezeGateway.RedisAdmission.LeaseFacts
import BreezeGateway.RedisAdmission.LeaseNetwork
import BreezeGateway.RedisAdmission.LeaseInvariant
import BreezeGateway.RedisAdmission.Participation
import BreezeGateway.Http.Router
import BreezeGateway.RedisAdmission.Policy
import BreezeGateway.RedisAdmission.Provider
import BreezeGateway.RedisAdmission.ProviderContract
import BreezeGateway.RedisAdmission.ProviderNetwork
import BreezeGateway.RedisAdmission.SingleFlight
import BreezeGateway.RedisAdmission.Quota
import BreezeGateway.RedisAdmission.QuotaBound
import BreezeGateway.RedisAdmission.Reservation
import BreezeGateway.RedisAdmission.SlotTokens
import BreezeGateway.RedisAdmission.PolicyStore
import BreezeGateway.RedisAdmission.PolicyLoads
import BreezeGateway.Effects.Substitution
import BreezeGateway.Gateway
import BreezeGateway.HopByHop
import BreezeGateway.Attempts
import BreezeGateway.ReplayedRequest
import BreezeGateway.Dispatch
import BreezeGateway.RequestSafety
import BreezeGateway.ReservedControls
import BreezeGateway.TrustedOrigin
import BreezeGateway.RedisAdmission.CommandTrace
import BreezeGateway.RedisAdmission.ForwardedTicket
import BreezeGateway.RedisAdmission.RefreshCycle
import BreezeGateway.RedisAdmission.LeaseTiming
import BreezeGateway.RedisAdmission.Registration
import BreezeGateway.Http.Pattern
import BreezeGateway.RedisAdmission.PolicyMatching
import BreezeGateway.ForwardedFor
import BreezeGateway.UpgradeHandshake
import BreezeGateway.Effects.Validation
import BreezeGateway.RouteCompilation
import BreezeGateway.TicketHeaders
import BreezeGateway.RedisAdmission.GatewayLimit
import BreezeGateway.RedisAdmission.KeyRoles
import BreezeGateway.Effects.Transcript
import BreezeGateway.RedisAdmission.Answers
import BreezeGateway.Effects.LeaseLock
import BreezeGateway.RedisAdmission.SlotLock
import BreezeGateway.Effects.Parallel
import BreezeGateway.RedisAdmission.Fleet
import BreezeGateway.Effects.Solo
import BreezeGateway.RedisAdmission.Undisturbed
import BreezeGateway.RedisAdmission.Election
import BreezeGateway.RedisAdmission.Recovery
import BreezeGateway.RedisAdmission.LoneAdmission
import BreezeGateway.RedisAdmission.Installation
