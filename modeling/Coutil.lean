import Coutil.EventRefinement
import Coutil.EmitLoop
import Coutil.QueuedDelivery
import Coutil.QueuedFailure
import Coutil.QueuedConservation
import Coutil.AwaitArguments
import Coutil.AwaitSemantics
import Coutil.TokenEquality
import Coutil.MutexExclusion
import Coutil.PromiseAwaiting
import Coutil.OperationCompletion
import Coutil.SuspendDue
import Coutil.ObjectPairing
import Coutil.ObjectClosing
import Coutil.ReadBuffer
import Coutil.ListenAccept
import Coutil.ObjectRequest
import Coutil.RequestStates
import Coutil.StateTransfer
import Coutil.StateCoroutine
import Coutil.StateQueue
import Coutil.PoolDemand
import Coutil.PoolResize
import Coutil.SchedulerRun
import Coutil.TaskScheduler
import Coutil.TaskPublication
import Coutil.TaskYield
import Coutil.TaskCounts
import Coutil.ChannelReferences
import Coutil.ChannelAnswer
import Coutil.ChannelNames
import Coutil.ChannelIsolation
import Coutil.BufferRange
import Coutil.AddressHints
import Coutil.AddressRoundTrip
import Coutil.AddressGrammar
import Coutil.AddressBounds
import Coutil.ProcessArguments
import Coutil.ProcessEnvReading
import Coutil.ProcessEnvCheck
import Coutil.FileInfoValues
import Coutil.AwaitOperation
import Coutil.ChannelAwait
import Coutil.ExchangeMovable
import Coutil.ChannelUse
import Coutil.ChannelSteps
import Coutil.ChannelInUse
import Coutil.Ownership
import Coutil.FoundAddresses
import Coutil.FileResources
import Coutil.FileSystem
import Coutil.RequestPhase
import Coutil.FileCustody
import Coutil.FileCalls
import Coutil.FileReturns
import Coutil.FileOwnership
import Coutil.FileSteps
import Coutil.FileLosses
import Coutil.FilePermissions
