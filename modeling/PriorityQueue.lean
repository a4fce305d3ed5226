import PriorityQueue.Cursor.Lemmas
import PriorityQueue.Element.Nested
import PriorityQueue.Element.Scalar
import PriorityQueue.Element.Text
import PriorityQueue.Heap.Lemmas
import PriorityQueue.Heap.Ordered
import PriorityQueue.Heap.Word
import PriorityQueue.Sift.Word
import PriorityQueue.Workspace
import PriorityQueue.Proofs.HeapOrder
import PriorityQueue.Proofs.Invariant
import PriorityQueue.Proofs.Removal
import PriorityQueue.Proofs.Bag
import PriorityQueue.Proofs.Ranking
import PriorityQueue.Proofs.NumberOrder
import PriorityQueue.Proofs.TopContract
import PriorityQueue.Proofs.Sorting
import PriorityQueue.Proofs.WorkspaceOrder
import PriorityQueue.Proofs.Conservation
import PriorityQueue.Proofs.Ties
import PriorityQueue.Proofs.Rebuilding
import PriorityQueue.Proofs.Correspondence
import PriorityQueue.Proofs.TwoRuns
import PriorityQueue.Proofs.PartialOrder
import PriorityQueue.Proofs.Rotation
import PriorityQueue.Proofs.Placement
import PriorityQueue.Proofs.Insertion
import PriorityQueue.Proofs.Displacement
import PriorityQueue.Proofs.PushContract
import PriorityQueue.Proofs.Schedule
import PriorityQueue.Proofs.Undoing
import PriorityQueue.Proofs.Reversal
import PriorityQueue.Proofs.WindowEnds
import PriorityQueue.Proofs.Split
import PriorityQueue.Proofs.Iteration
import PriorityQueue.Proofs.WordSift
import PriorityQueue.Proofs.WordHeap
import PriorityQueue.Proofs.Repair
