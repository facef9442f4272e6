import GelCli.Foundation.HashMap
import GelCli.Foundation.Text
import Std.Data.TreeMap.Lemmas

/-!
# The contexts of an analysis

`analyze` marks the places of the query that the nodes of a plan are about. `preprocess`
of `src/analyze/contexts.rs` collects the contexts of all nodes by their location and
numbers the locations. The counter is a natural number: a query has less than 2^32 places.
-/

namespace GelCli.Analyze

open GelCli.Foundation

abbrev ContextId := Nat

abbrev Number := Nat

structure Context where
  start : Nat
  end_ : Nat
  bufferIdx : Nat
  contextId : ContextId
  deriving DecidableEq

/-- What the scan reads of a shape, a plan or a node of the debug information. -/
inductive Node where
  | node (contexts : List Context) (children : List Node)

abbrev Shape := Node

abbrev Plan := Node

abbrev DebugNode := Node

structure DebugInfo where
  fullPlan : Option DebugNode

structure Arguments where
  execute : Bool
  buffers : Bool

structure AnalysisData where
  buffers : List Text
  fineGrained : Option Plan
  coarseGrained : Option Shape
  debugInfo : Option DebugInfo
  arguments : Arguments

structure ContextSpan where
  offset : Nat
  len : Nat
  num : Number
  deriving DecidableEq

structure Buffer where
  text : Text
  contexts : List ContextSpan

structure Analysis where
  buffers : List Buffer
  fineGrained : Option Plan
  coarseGrained : Option Shape
  debugInfo : Option DebugInfo
  arguments : Arguments
  contexts : HashMap ContextId Number

/-! ## Gathering -/

/-- `(BufferIdx, Offset)` -/
structure Location where
  bufferIdx : Nat
  offset : Nat
  deriving DecidableEq

namespace Location

/-- The order of the pairs. -/
def compare : Location → Location → Ordering :=
  compareLex (compareOn bufferIdx) (compareOn offset)

instance transCmp : Std.TransCmp compare :=
  inferInstanceAs (Std.TransCmp (compareLex (compareOn bufferIdx) (compareOn offset)))

instance lawfulEqCmp : Std.LawfulEqCmp compare where
  eq_of_compare {a b} h := by
    obtain ⟨hbuf, hoffset⟩ := compareLex_eq_eq.mp h
    have hbuf : a.bufferIdx = b.bufferIdx := Nat.compare_eq_eq.mp hbuf
    have hoffset : a.offset = b.offset := Nat.compare_eq_eq.mp hoffset
    cases a
    cases b
    exact congrArg₂ mk hbuf hoffset

/-- The location comes before the other one. -/
def Before (a b : Location) : Prop := compare a b = .lt

theorem Before.bufferIdx_le {a b : Location} (h : a.Before b) : a.bufferIdx ≤ b.bufferIdx := by
  by_contra hlt
  have hgt : Ord.compare a.bufferIdx b.bufferIdx = .gt := Nat.compare_eq_gt.mpr (Nat.not_le.mp hlt)
  unfold Before compare compareLex compareOn at h
  rw [hgt] at h
  cases h

end Location

def Context.location (self : Context) : Location :=
  { bufferIdx := self.bufferIdx, offset := self.start }

structure Gather where
  byLocation : Std.TreeMap Location (Nat × List ContextId) Location.compare
  siblings : HashMap ContextId (List Context)

namespace Gather

def new : Gather := { byLocation := ∅, siblings := HashMap.empty }

/-- One round of the loops over the contexts of a node. -/
def visit (contexts : List Context) (self : Gather) (ctx : Context) : Gather :=
  { byLocation := self.byLocation.alter ctx.location fun entry =>
      let (len, ids) := entry.getD (ctx.end_ - ctx.start, [])
      some (len, ids ++ [ctx.contextId])
    siblings := self.siblings.insert ctx.contextId contexts }

mutual

/-- The body that `scan_shape`, `scan_expanded` and `scan_debug` share. -/
def scanNode (self : Gather) : Node → Gather
  | .node contexts children => scanNodes (contexts.foldl (visit contexts) self) children

def scanNodes (self : Gather) : List Node → Gather
  | [] => self
  | child :: children => scanNodes (scanNode self child) children

end

def scanShape (self : Gather) (shape : Shape) : Gather := self.scanNode shape

def scanExpanded (self : Gather) (plan : Plan) : Gather := self.scanNode plan

def scanDebug (self : Gather) (plan : DebugNode) : Gather := self.scanNode plan

def scan (explain : AnalysisData) : Gather :=
  let me := match explain.coarseGrained with
    | some shape => new.scanShape shape
    | none => new
  let me := match explain.fineGrained with
    | some plan => me.scanExpanded plan
    | none => me
  match explain.debugInfo.bind DebugInfo.fullPlan with
  | some node => me.scanDebug node
  | none => me

end Gather

/-! ## Numbering -/

/-- The state of the loop over the locations. -/
structure Numbering where
  contexts : HashMap ContextId Number
  index : Number
  buffersCtx : List (List ContextSpan)

abbrev Entry := Location × Nat × List ContextId

def Entry.span (entry : Entry) (num : Number) : ContextSpan :=
  { offset := entry.1.offset, len := entry.2.1, num := num }

/-- The number for a context and those of its siblings that have none. -/
def numberId (siblings : HashMap ContextId (List Context)) (num : Number)
    (contexts : HashMap ContextId Number) (id : ContextId) : HashMap ContextId Number :=
  match contexts.get id with
  | some _ => contexts
  | none =>
      ((siblings.get id).getD []).foldl (fun contexts sub => contexts.orInsert sub.contextId num)
        (contexts.insert id num)

namespace Numbering

def push (self : Numbering) (entry : Entry) (num : Number) : Numbering :=
  { self with
    buffersCtx := self.buffersCtx.modify entry.1.bufferIdx fun ctxs => ctxs ++ [entry.span num] }

def step (siblings : HashMap ContextId (List Context)) (self : Numbering) (entry : Entry) :
    Numbering :=
  match entry.2.2.findSome? self.contexts.get with
  | some num => self.push entry num
  | none =>
      { self with
        contexts := entry.2.2.foldl (numberId siblings self.index) self.contexts
        index := self.index + 1 }.push entry self.index

end Numbering

def preprocess (input : AnalysisData) : Analysis :=
  let gather := Gather.scan input
  let numbering := gather.byLocation.toList.foldl (Numbering.step gather.siblings)
    { contexts := HashMap.empty, index := 0, buffersCtx := input.buffers.map fun _ => [] }
  { buffers := List.zipWith Buffer.mk input.buffers numbering.buffersCtx
    fineGrained := input.fineGrained
    coarseGrained := input.coarseGrained
    debugInfo := input.debugInfo
    arguments := input.arguments
    contexts := numbering.contexts }

end GelCli.Analyze
