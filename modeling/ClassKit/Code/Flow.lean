import Std.Data.HashMap
import ClassKit.Code.Body
import ClassKit.Error

/-!
# Control flow of a body

The flow graph of a body numbers its entries by position (labels included), places every label,
and turns the handlers' labels into position ranges. Building it fails on a label placed twice
or a handler naming a label that is never placed.

`Body.maxStack` bounds the operand stack by a depth-first search from the first entry: every
entry gets the depth with which it is first reached, a handler starts at depth one, a `jsr`
target receives the return address, `ret` ends its path, and popping an empty stack stops at
zero.
-/

namespace ClassKit

/-- A handler's covered range `[start, stop)` and its target, as positions. -/
structure HandlerRange where
  start : Nat
  stop : Nat
  target : Nat
  catchType : Option BinaryName
  deriving DecidableEq, Repr

/-- The entries of a body with the position of every label and the handler ranges. -/
structure FlowGraph where
  entries : Array Entry
  positions : Std.HashMap Label Nat
  ranges : List HandlerRange

namespace FlowGraph

/-- Positions of the labels, failing on the first label placed a second time. -/
def placeLabels (entries : Array Entry) : Except ClassError (Std.HashMap Label Nat) :=
  entries.toList.zipIdx.foldlM (fun positions (entry, index) =>
    match entry with
    | .label label =>
      if positions.contains label then .error (.duplicateLabel label)
      else .ok (positions.insert label index)
    | _ => .ok positions) {}

/-- The position of a label. -/
def labelPosition (positions : Std.HashMap Label Nat) (label : Label) : Except ClassError Nat :=
  match positions[label]? with
  | some position => .ok position
  | none => .error (.unplacedLabel label)

/-- The flow graph of a body. -/
def ofBody (body : Body) : Except ClassError FlowGraph := do
  let positions ← placeLabels body.entries
  let ranges ← body.handlers.mapM fun handler => do
    let start ← labelPosition positions handler.start
    let stop ← labelPosition positions handler.stop
    let target ← labelPosition positions handler.target
    pure { start, stop, target, catchType := handler.catchType : HandlerRange }
  pure { entries := body.entries, positions, ranges }

/-- The number of entries. -/
def size (graph : FlowGraph) : Nat := graph.entries.size

/-- The positions a branch may jump to, the default of a switch first. -/
def branchTargets (graph : FlowGraph) (branch : Branch Label) : Except ClassError (List Nat) :=
  branch.targets.mapM (labelPosition graph.positions)

/-- The targets of the handlers covering a position, in handler order. -/
def covering (graph : FlowGraph) (position : Nat) : List Nat :=
  (graph.ranges.filter fun range => range.start ≤ position && position < range.stop).map
    (·.target)

end FlowGraph

/-- The state of the depth search: the first depth seen at each position, the positions still
to look at (most recent first), and the deepest stack so far. -/
structure DepthSearch where
  depths : Array (Option Nat)
  pending : List Nat
  deepest : Nat

namespace DepthSearch

/-- Reaches a position with a depth; only the first visit of a position counts. -/
def visit (search : DepthSearch) (position depth : Nat) : DepthSearch :=
  match search.depths[position]? with
  | some none =>
    { depths := search.depths.set! position (some depth),
      pending := position :: search.pending,
      deepest := max search.deepest depth }
  | _ => search

/-- Follows every path; each position is looked at once, so `rounds` of at least the number
of entries suffice. -/
def run (graph : FlowGraph) : Nat → DepthSearch → Except ClassError Nat
  | 0, search => .ok search.deepest
  | rounds + 1, search =>
    match search.pending with
    | [] => .ok search.deepest
    | position :: rest => do
      let search := { search with pending := rest }
      let depth := (search.depths[position]?.join).getD 0
      let search := (graph.covering position).foldl (fun search target => search.visit target 1) search
      match graph.entries[position]? with
      | some (.label _) => run graph rounds (search.visit (position + 1) depth)
      | some (.instruction instruction) =>
        let (pops, pushes) := instruction.stackEffect
        let after := depth - pops + pushes
        let search := { search with deepest := max search.deepest after }
        match instruction with
        | .ret _ => run graph rounds search
        | _ => run graph rounds (search.visit (position + 1) after)
      | some (.branch branch) =>
        let after := depth - branch.stackPops
        let intoTarget := match branch with
          | .jsr _ => after + 1
          | _ => after
        let targets ← graph.branchTargets branch
        let search := targets.foldl (fun search target => search.visit target intoTarget) search
        if branch.fallsThrough then run graph rounds (search.visit (position + 1) after)
        else run graph rounds search
      | none => run graph rounds search

end DepthSearch

namespace Body

/-- The deepest operand stack the body can reach. -/
def maxStack (body : Body) : Except ClassError Nat := do
  let graph ← FlowGraph.ofBody body
  let start : DepthSearch := ⟨Array.replicate graph.size none, [], 0⟩
  DepthSearch.run graph (graph.size + 1) (start.visit 0 0)

end Body

end ClassKit
