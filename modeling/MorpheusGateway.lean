import MorpheusGateway.Protocol.Steps
import MorpheusGateway.Protocol.Shared
import MorpheusGateway.Protocol.Opening
import MorpheusGateway.Protocol.Closing
import MorpheusGateway.Protocol.Reconciling
import MorpheusGateway.Protocol.Wallet
import MorpheusGateway.Native.Stake
import MorpheusGateway.Policies
import MorpheusGateway.Protocol.Maintenance
import MorpheusGateway.Native.Journal
import MorpheusGateway.NodeHelper
import MorpheusGateway.Transport
import MorpheusGateway.Protocol.Borrowing
import MorpheusGateway.Protocol.Requests
import MorpheusGateway.Coroutine.Interference
import MorpheusGateway.Protocol.Runs
import MorpheusGateway.Guarantees.Binding
import MorpheusGateway.Guarantees.Decoding
import MorpheusGateway.Guarantees.Dispatching
import MorpheusGateway.Guarantees.Reconciling
import MorpheusGateway.Guarantees.Restarting
import MorpheusGateway.Guarantees.Admitting
import MorpheusGateway.Guarantees.Attempting
import MorpheusGateway.Guarantees.Labelling
import MorpheusGateway.Guarantees.Rebalancing
import MorpheusGateway.NodeHelper.Endpoints
import MorpheusGateway.Coroutine.Course
import MorpheusGateway.Guarantees.Backoff
import MorpheusGateway.Guarantees.Openers
import MorpheusGateway.Guarantees.Ending
import MorpheusGateway.Guarantees.Limiting
import MorpheusGateway.Guarantees.Storing
import MorpheusGateway.Guarantees.Forwarding
import MorpheusGateway.Guarantees.Streaming
import MorpheusGateway.Records
import MorpheusGateway.Console
import MorpheusGateway.Guarantees.Recording
import MorpheusGateway.Guarantees.Persisting
import MorpheusGateway.Guarantees.Signing
import MorpheusGateway.Coroutine.Effects
import MorpheusGateway.Protocol.Powers
import MorpheusGateway.Protocol.Programs
import MorpheusGateway.Guarantees.Revoking
import MorpheusGateway.Guarantees.Exclusion
import MorpheusGateway.Disk
import MorpheusGateway.NodeHelper.Durability
import MorpheusGateway.Boundary
import MorpheusGateway.Guarantees.Scanning
import MorpheusGateway.Guarantees.Conserving
import MorpheusGateway.Guarantees.Showing
import MorpheusGateway.Guarantees.Withdrawing
import MorpheusGateway.Guarantees.Walking
