import Confuse.Filesystem
import Confuse.Interaction
import Confuse.ResolverOp

/-!
# The adapter's state and its effects

A callback is a program over `Effect`: calls of the file system, sections under the resolver's lock,
sections under the locks of the open state, and the caller's fill callbacks. A drained forget list is
always delivered at once, so a drain and its loop over `Filesystem::forget` are one effect. A `Host`
is everything outside the adapter; it answers the effects and may be anything.
-/

namespace Confuse

open Interaction

structure AdapterContext where
  fh : FileHandle := ⟨0⟩
  flags : FopenFlags := ⟨0⟩
  ino : INodeNo := ⟨0⟩
  isDir : Bool := false
  lockOwner : Option LockOwner := none
  requestIds : RequestIds := .unavailable 0
  deriving DecidableEq

def renameDescendantPathKey (oldRoot newRoot key : Str) : Option Str :=
  let withSlash (root : Str) := if root.getLast? = some '\\' then root else root ++ ['\\']
  if key = oldRoot then some newRoot
  else if (withSlash oldRoot).isPrefixOf key then
    some (withSlash newRoot ++ key.drop (withSlash oldRoot).length)
  else none

def remapDescendantKeys {ν : Type} (items : KeyedMap Str ν) (oldRoot newRoot : Str) :
    KeyedMap Str ν :=
  let remapped := items.entries.filterMap fun e =>
    (renameDescendantPathKey oldRoot newRoot e.1).map fun nextKey => (nextKey, e.2)
  remapped.foldl (fun m e => m.insert e.1 e.2)
    (items.retain fun key _ => (renameDescendantPathKey oldRoot newRoot key).isNone)

/-- Sections under the locks of `handles` and `dir_offsets`. -/
inductive OpenStateOp
  | rememberOpenContext (key : Str) (ctx : AdapterContext)
  | removeHandle (key : Str)
  | remapHandles (oldRoot newRoot : Str)
  | directoryOffset (key : Str)
  | insertOffset (key : Str) (offset : Int64)
  | removeOffset (key : Str)
  | remapOffsets (oldRoot newRoot : Str)
  deriving DecidableEq

structure OpenState where
  handles : KeyedMap Str AdapterContext
  dirOffsets : KeyedMap Str Int64

namespace OpenStateOp

def Result : OpenStateOp → Type
  | .directoryOffset _ => Int64
  | _ => Unit

def apply : (o : OpenStateOp) → OpenState → o.Result × OpenState
  | .rememberOpenContext key ctx, s => ((), { s with handles := s.handles.insert key ctx })
  | .removeHandle key, s => ((), { s with handles := s.handles.erase key })
  | .remapHandles oldRoot newRoot, s =>
      ((), { s with handles := remapDescendantKeys s.handles oldRoot newRoot })
  | .directoryOffset key, s => ((s.dirOffsets.lookup key).getD 0, s)
  | .insertOffset key offset, s => ((), { s with dirOffsets := s.dirOffsets.insert key offset })
  | .removeOffset key, s => ((), { s with dirOffsets := s.dirOffsets.erase key })
  | .remapOffsets oldRoot newRoot, s =>
      ((), { s with dirOffsets := remapDescendantKeys s.dirOffsets oldRoot newRoot })

end OpenStateOp

/-! ## Effects -/

inductive Effect
  | fs (c : FsCall)
  | table (o : TableOp)
  | deliver (req : Request) (o : DrainOp)
  | openState (o : OpenStateOp)
  | fillFindData (data : FindData)
  | fillFindStreamData (data : FindStreamData)

/-- The fill callbacks answer whether they accepted the entry. -/
def Effect.Res : Effect → Type
  | .fs c => c.Reply
  | .table o => o.Result
  | .deliver _ _ => Unit
  | .openState o => o.Result
  | .fillFindData _ => Bool
  | .fillFindStreamData _ => Bool

def effects : Signature := ⟨Effect, Effect.Res⟩

abbrev Routine (α : Type) := Prog effects α

namespace Routine

def fs (c : FsCall) : Routine c.Reply := .perform (S := effects) (.fs c)

def table (o : TableOp) : Routine o.Result := .perform (S := effects) (.table o)

def deliver (req : Request) (o : DrainOp) : Routine Unit := .perform (S := effects) (.deliver req o)

def openState (o : OpenStateOp) : Routine o.Result := .perform (S := effects) (.openState o)

def fillFindData (data : FindData) : Routine Bool :=
  .perform (S := effects) (.fillFindData data)

def fillFindStreamData (data : FindStreamData) : Routine Bool :=
  .perform (S := effects) (.fillFindStreamData data)

end Routine

/-! ## Runs -/

/-- What happened, in order. -/
inductive Event
  | call (c : FsCall) (reply : c.Reply)
  | forget (req : Request) (ino : INodeNo) (nlookup : ℕ)
  | table (now : Instant) (o : TableOp) (result : o.Result)
  | drain (now : Instant) (o : DrainOp) (forgets : Forgets)
  | notify (now : Instant) (n : NotifierCall)
  | fillFindData (data : FindData) (accepted : Bool)
  | fillFindStreamData (data : FindStreamData) (accepted : Bool)

/-- The functions of other crates that the routines use. -/
structure Platform where
  caseFold : CaseFold
  isNameInExpression : U16CStr → U16CStr → Bool → Bool

/-- The file system, the clock and the caller, each with a state of its own. -/
structure Host (β φ : Type) where
  reply : (c : FsCall) → β → c.Reply × β
  forget : Request → INodeNo → ℕ → β → β
  clock : ℕ → Instant
  fillFindData : FindData → φ → Bool × φ
  fillFindStreamData : FindStreamData → φ → Bool × φ

structure World (β φ : Type) where
  resolver : PathResolver
  openState : OpenState
  backend : β
  caller : φ
  steps : ℕ
  log : List Event

namespace World
variable {β φ : Type}

/-- The adapter as it is mounted, with the configured time to live of negative entries. -/
def initial (negativeTtl : Duration) (backend : β) (caller : φ) : World β φ where
  resolver := (default : PathResolver).setNegativeTtl negativeTtl
  openState := ⟨∅, ∅⟩
  backend := backend
  caller := caller
  steps := 0
  log := []

def call (h : Host β φ) (c : FsCall) (w : World β φ) : c.Reply × World β φ :=
  let answer := h.reply c w.backend
  (answer.1, { w with backend := answer.2, log := w.log ++ [.call c answer.1] })

def table (pf : Platform) (h : Host β φ) (o : TableOp) (w : World β φ) : o.Result × World β φ :=
  let now := h.clock w.steps
  let answer := o.apply pf.caseFold now w.resolver
  (answer.1, { w with resolver := answer.2, log := w.log ++ [.table now o answer.1] })

def forget (h : Host β φ) (req : Request) (w : World β φ) (f : INodeNo × ℕ) : World β φ :=
  { w with
    backend := h.forget req f.1 f.2 w.backend
    log := w.log ++ [.forget req f.1 f.2] }

def deliver (pf : Platform) (h : Host β φ) (req : Request) (o : DrainOp) (w : World β φ) :
    World β φ :=
  let now := h.clock w.steps
  let answer := o.apply pf.caseFold now w.resolver
  answer.1.foldl (forget h req)
    { w with resolver := answer.2, log := w.log ++ [.drain now o answer.1] }

def notify (pf : Platform) (h : Host β φ) (w : World β φ) (n : NotifierCall) : World β φ :=
  let now := h.clock w.steps
  { w with resolver := n.apply pf.caseFold now w.resolver, log := w.log ++ [.notify now n] }

def perform (pf : Platform) (h : Host β φ) : (e : Effect) → World β φ → e.Res × World β φ
  | .fs c, w => w.call h c
  | .table o, w => w.table pf h o
  | .deliver req o, w => ((), w.deliver pf h req o)
  | .openState o, w =>
      let answer := o.apply w.openState
      (answer.1, { w with openState := answer.2 })
  | .fillFindData data, w =>
      let answer := h.fillFindData data w.caller
      (answer.1, { w with caller := answer.2, log := w.log ++ [.fillFindData data answer.1] })
  | .fillFindStreamData data, w =>
      let answer := h.fillFindStreamData data w.caller
      (answer.1, { w with caller := answer.2, log := w.log ++ [.fillFindStreamData data answer.1] })

end World

variable {β φ : Type}

/-- What other threads tell the notifier before each effect. -/
abbrev Notices := ℕ → List NotifierCall

/-- The machine that performs effects one after the other, with notifier calls in between. -/
def machine (pf : Platform) (h : Host β φ) (notices : Notices) :
    Prog.Machine effects (World β φ) :=
  fun e w =>
    let answer := ((notices w.steps).foldl (World.notify pf h) w).perform pf h e
    (answer.1, { answer.2 with steps := answer.2.steps + 1 })

/-- No other thread uses the notifier. -/
def undisturbed : Notices := fun _ => []

end Confuse
