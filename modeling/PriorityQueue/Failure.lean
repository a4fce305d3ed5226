import PriorityQueue.Outline

/-!
# Failures

A queue operation fails for one of three causes: an argument of a constructor was unusable, the
top of an empty queue was asked for, or more room was asked for than storage can ever have. Each
cause has one text. An empty queue is not a failure for the operations that answer optionally.
-/

namespace PriorityQueue

/-- A constructor argument that was missing or unusable, with the reason. -/
structure InvalidArgument where
  /-- What was wrong with the argument. -/
  detail : String
deriving DecidableEq

namespace InvalidArgument

/-- The text shown to a user. -/
def message (error : InvalidArgument) : String := "invalid argument: " ++ error.detail

/-- The reason given when a queue is made without a rule. -/
def missingRule : InvalidArgument := ⟨"less function is required to define heap ordering"⟩

end InvalidArgument

instance instDescribeInvalidArgument : Describe InvalidArgument where
  outline error := .labelled "InvalidArgument" [outline error.detail]

/-- Why an operation on a queue failed. -/
inductive Failure where
  /-- A constructor refused one of its arguments. -/
  | invalidArgument (error : InvalidArgument)
  /-- The top of an empty queue was asked for. -/
  | emptyTop
  /-- More room was asked for than storage can have. -/
  | capacityOverflow
deriving DecidableEq

/-- The text of a failure. -/
def Failure.message : Failure → String
  | .invalidArgument error => error.message
  | .emptyTop => "cannot retrieve top element from an empty heap"
  | .capacityOverflow => "capacity overflow"

end PriorityQueue
