import ChangeDispatch.Event.Ack
import ChangeDispatch.Event.Issue
import ChangeDispatch.Json.Grammar
import ChangeDispatch.Script.Report
import ChangeDispatch.Proofs.Wait.Early
import ChangeDispatch.Proofs.DeadLetter.Losses
import ChangeDispatch.Proofs.Publisher.Log
import ChangeDispatch.Proofs.Shutdown.Complete
import ChangeDispatch.Proofs.Wire.RoundTrip
import ChangeDispatch.Proofs.Shutdown.Reports
import ChangeDispatch.Proofs.Wait.Confirmed
import ChangeDispatch.Proofs.DeadLetter.Agreement
import ChangeDispatch.Proofs.DeadLetter.Exactness
import ChangeDispatch.Proofs.Wait.Lifetimes
import ChangeDispatch.Proofs.Wait.Expiry
import ChangeDispatch.Proofs.Wait.Outcome
import ChangeDispatch.Proofs.Broker.Law
import ChangeDispatch.Proofs.Queue.Fifo
import ChangeDispatch.Proofs.DeadLetter.Courses
import ChangeDispatch.Proofs.DeadLetter.Work
import ChangeDispatch.Proofs.DeadLetter.Chains
import ChangeDispatch.Proofs.Garbage.Harmless
import ChangeDispatch.Proofs.Publisher.Retry
import ChangeDispatch.Proofs.Publisher.Outage
import ChangeDispatch.Proofs.Wait.Schedule
import ChangeDispatch.Proofs.Queue.Backpressure
import ChangeDispatch.Proofs.Publisher.Submission
import ChangeDispatch.Proofs.Publisher.Construction
import ChangeDispatch.Proofs.Wire.Compatible
import ChangeDispatch.Proofs.Wait.Independence
import ChangeDispatch.Proofs.Config.Lookup
import ChangeDispatch.Proofs.Issue.Concurrent
import ChangeDispatch.Proofs.Queue.Length
import ChangeDispatch.Proofs.Broker.Closing
import ChangeDispatch.Proofs.Event.Validation
import ChangeDispatch.Proofs.Topic.Grammar
import ChangeDispatch.Proofs.Wait.Numbering
import ChangeDispatch.Proofs.Run.Scripts
