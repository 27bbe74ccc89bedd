import Jobworkerp.UnstartedDispatch
import Jobworkerp.EnqueueFailure
import Jobworkerp.LostExecution
import Jobworkerp.CancelSignal
import Jobworkerp.Scheduled
import Jobworkerp.RecoveryClaims
import Jobworkerp.Feed
import Jobworkerp.InstanceRecovery
import Jobworkerp.Overrides
import Jobworkerp.RetryTiming
import Jobworkerp.ResultSettlement
import Jobworkerp.StatusIndex
import Jobworkerp.StatusStores
import Jobworkerp.QueueListing
import Jobworkerp.WorkerCaches
import Jobworkerp.ToolNames
import Jobworkerp.ChatMessages
import Jobworkerp.SchemaSanitize
import Jobworkerp.Workflow.Directives
import Jobworkerp.Workflow.Secrets
import Jobworkerp.Workflow.Pointer
import Jobworkerp.Workflow.ErrorTypes
import Jobworkerp.Workflow.SecretNames
import Jobworkerp.Workflow.ChildJobs
import Jobworkerp.Workflow.StatusRace
import Jobworkerp.Workflow.ResumeWorkflow
import Jobworkerp.Sandbox.Narrowing
import Jobworkerp.AgUi.ResumeBatch
import Jobworkerp.AgUi.TerminalEvent
import Jobworkerp.AgUi.Reconnect
import Jobworkerp.AgUi.TextMessage
import Jobworkerp.AgUi.EventStores
import Jobworkerp.StreamGuard
