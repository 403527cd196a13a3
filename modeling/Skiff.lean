import Skiff.Main
import Skiff.Value.Literal
import Skiff.Proofs.Heap.Apart
import Skiff.Proofs.Heap.Iteration
import Skiff.Proofs.Scope.LookUp
import Skiff.Proofs.Tree.RoundTrip
import Skiff.Proofs.Tree.Spans
import Skiff.Proofs.Session
import Skiff.Proofs.Concurrent.Cancel
import Skiff.Proofs.Compile.Operands
import Skiff.Proofs.Compile.Confined
import Skiff.Proofs.Compile.Files
import Skiff.Proofs.Budget.Shared
import Skiff.Proofs.Code.Listing
import Skiff.Proofs.Compile.Calls
import Skiff.Proofs.Realm.Limits
import Skiff.Proofs.Merge.Again
import Skiff.Proofs.Token.Munch
import Skiff.Proofs.Token.Escapes
import Skiff.Proofs.Concurrent.Channel
import Skiff.Proofs.Value.Arithmetic
import Skiff.Proofs.Value.Format
import Skiff.Proofs.Machine.Range
import Skiff.Proofs.Machine.Splice
import Skiff.Proofs.Machine.Assignment
