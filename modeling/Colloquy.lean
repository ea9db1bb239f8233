import Colloquy.Main
import Colloquy.Session.Pool
import Colloquy.Snapshot.Binary
import Colloquy.Flow.Document
import Colloquy.Proofs.Session.Refusal
import Colloquy.Proofs.Session.Lineage
import Colloquy.Proofs.Session.Cancelling
import Colloquy.Proofs.Turn.Blindness
import Colloquy.Proofs.Session.Recovery
import Colloquy.Proofs.Session.Digression
import Colloquy.Proofs.Session.Rehearsal
import Colloquy.Proofs.Compile.Edges
import Colloquy.Proofs.Session.Failures
import Colloquy.Proofs.Turn.Sources
import Colloquy.Proofs.Session.Validation
import Colloquy.Proofs.Compile.Loops
import Colloquy.Proofs.Compile.Jumps
import Colloquy.Proofs.Compile.Sets
import Colloquy.Proofs.Compile.Linear
import Colloquy.Proofs.Condition.Grammar
import Colloquy.Proofs.Condition.Comparison
import Colloquy.Proofs.Condition.Order
import Colloquy.Proofs.Condition.Tokens
import Colloquy.Proofs.Condition.Literals
import Colloquy.Proofs.Session.Shield
import Colloquy.Proofs.Session.Transcript
import Colloquy.Proofs.Snapshot.Restoring
import Colloquy.Proofs.Snapshot.Binary
import Colloquy.Proofs.Snapshot.Document
import Colloquy.Proofs.Stack.Order
import Colloquy.Proofs.Session.Batch
import Colloquy.Proofs.Session.Budget
import Colloquy.Proofs.Stack.Bracket
import Colloquy.Proofs.Session.Silence
import Colloquy.Proofs.Session.Retry
import Colloquy.Proofs.Session.Template
