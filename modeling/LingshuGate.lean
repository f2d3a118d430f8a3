import LingshuGate.Access.ExternalLimits
import LingshuGate.OAuth.Revocation
import LingshuGate.OAuth.Attenuation
import LingshuGate.OAuth.Completion
import LingshuGate.OAuth.Confirmation
import LingshuGate.Auth.UserUpdates
import LingshuGate.Delivery.Deploy
import LingshuGate.Runtime.StdioMatching
import LingshuGate.Retention.Cleanup
import LingshuGate.Auth.ConfirmedSaves
import LingshuGate.OAuth.EffectiveTools
import LingshuGate.Credentials.SessionIsolation
import LingshuGate.Runtime.ConnectionRuns
import LingshuGate.Config.Compensation
import LingshuGate.Config.Rebuilds
import LingshuGate.Config.Continuity
import LingshuGate.Runtime.DispatchLock
import LingshuGate.Runtime.LateResponses
import LingshuGate.Results.CacheRuns
import LingshuGate.Tools.IndexRuns
import LingshuGate.Connector.Honesty
import LingshuGate.Access.Reconciliation
import LingshuGate.Access.SamePrincipal
import LingshuGate.Tools.Expansion
import LingshuGate.OAuth.SigningKeys
import LingshuGate.OAuth.Callback
import LingshuGate.Credentials.UserHeaders
import LingshuGate.Access.PolicyStore
import LingshuGate.Runtime.ToolCalls
import LingshuGate.Runtime.HttpReplies
import LingshuGate.Credentials.CredentialStore
import LingshuGate.Delivery.BuildLogs
import LingshuGate.Git.Extraction
import LingshuGate.Files.Retries
import LingshuGate.Runtime.ToolIds
import LingshuGate.OAuth.ExternalKeys
import LingshuGate.Executor.EngineRange
import LingshuGate.Delivery.ToolchainChoices
import LingshuGate.Git.Scanning
import LingshuGate.OpenApi.SchemaMeaning
import LingshuGate.Delivery.ReleaseVersions
import LingshuGate.Runtime.HttpFraming
import LingshuGate.Runtime.BoundedLines
import LingshuGate.Delivery.NetworkProfiles
import LingshuGate.Delivery.LockedMirror
