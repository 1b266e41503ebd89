import StatesLanguage.Interpreter
import StatesLanguage.Log.Logger
import StatesLanguage.Polling.Rehearsal
import StatesLanguage.Proofs.Accounts
import StatesLanguage.Proofs.ActivityQueue
import StatesLanguage.Proofs.Answers
import StatesLanguage.Proofs.Asks
import StatesLanguage.Proofs.Attempts
import StatesLanguage.Proofs.Awaiting
import StatesLanguage.Proofs.Backoff
import StatesLanguage.Proofs.Books
import StatesLanguage.Proofs.CamelCase
import StatesLanguage.Proofs.Capacity
import StatesLanguage.Proofs.CatchAll
import StatesLanguage.Proofs.Chronicle
import StatesLanguage.Proofs.ClientPool
import StatesLanguage.Proofs.Concurrency
import StatesLanguage.Proofs.Containers
import StatesLanguage.Proofs.Course
import StatesLanguage.Proofs.Crew
import StatesLanguage.Proofs.Definite
import StatesLanguage.Proofs.Delivery
import StatesLanguage.Proofs.FanOut
import StatesLanguage.Proofs.Format
import StatesLanguage.Proofs.Functions
import StatesLanguage.Proofs.Handoff
import StatesLanguage.Proofs.History
import StatesLanguage.Proofs.Interleaving
import StatesLanguage.Proofs.Labels
import StatesLanguage.Proofs.Leftovers
import StatesLanguage.Proofs.Lens
import StatesLanguage.Proofs.Literals
import StatesLanguage.Proofs.NestedCalls
import StatesLanguage.Proofs.Numerals
import StatesLanguage.Proofs.Pact
import StatesLanguage.Proofs.Parts
import StatesLanguage.Proofs.Patterns
import StatesLanguage.Proofs.Permits
import StatesLanguage.Proofs.Policy
import StatesLanguage.Proofs.Possible
import StatesLanguage.Proofs.Process
import StatesLanguage.Proofs.Questions
import StatesLanguage.Proofs.Quota
import StatesLanguage.Proofs.Reports
import StatesLanguage.Proofs.ResourceNames
import StatesLanguage.Proofs.ResourceTexts
import StatesLanguage.Proofs.Retrying
import StatesLanguage.Proofs.RuleTrees
import StatesLanguage.Proofs.Scanning
import StatesLanguage.Proofs.Scheduler
import StatesLanguage.Proofs.Separators
import StatesLanguage.Proofs.Settlement
import StatesLanguage.Proofs.Settles
import StatesLanguage.Proofs.Steady
import StatesLanguage.Proofs.TaskEvents
import StatesLanguage.Proofs.Team
import StatesLanguage.Proofs.TemplateErrors
import StatesLanguage.Proofs.Timeless
import StatesLanguage.Proofs.Timestamps
import StatesLanguage.Proofs.Timing
import StatesLanguage.Proofs.Trace
import StatesLanguage.Proofs.Tracing
import StatesLanguage.Proofs.Uncaught
import StatesLanguage.Proofs.Uniform
import StatesLanguage.Proofs.Waiting
import StatesLanguage.Proofs.WholeNumbers
