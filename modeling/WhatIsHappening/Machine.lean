/-
# The machine

Every step of the extension's code that touches something another process, a signal or an error
can see is one operation `Op`; `exec` is its effect.  The programs of the later files are the C
functions written over these operations, statement by statement.

A `mark` is not a statement of the source.  It records where control is, so that properties can
speak of "the entry returned to this backend" or "the query recorded last"; no program reads it.
-/
import WhatIsHappening.Entry
import WhatIsHappening.Lib.System

namespace WhatIsHappening

open Interleaving

/-! ## 1. `entry_search_lock` -/

inductive LWLockMode where
  | LW_SHARED
  | LW_EXCLUSIVE
  deriving DecidableEq, Repr

/-- A lightweight lock: its exclusive holder, and one item for each time it is held shared. -/
structure LWLock where
  exclusive : Option Pid := none
  shared : List Pid := []

namespace LWLock

/-- `LWLockAcquire`; `none` while the caller has to wait. -/
def acquire (l : LWLock) (m : LWLockMode) (p : Pid) : Option LWLock :=
  match m with
  | .LW_SHARED => if l.exclusive = none then some { l with shared := p :: l.shared } else none
  | .LW_EXCLUSIVE =>
    if l.exclusive = none ∧ l.shared = [] then some { l with exclusive := some p } else none

/-- `LWLockRelease`; `none` when the caller does not hold the lock. -/
def release (l : LWLock) (p : Pid) : Option LWLock :=
  if l.exclusive = some p then some { l with exclusive := none }
  else if p ∈ l.shared then some { l with shared := l.shared.erase p }
  else none

/-- `LWLockReleaseAll`. -/
def releaseAll (l : LWLock) (p : Pid) : LWLock where
  exclusive := if l.exclusive = some p then none else l.exclusive
  shared := l.shared.filter (· ≠ p)

/-- The process holds the lock, in either mode. -/
def HeldBy (l : LWLock) (p : Pid) : Prop := l.exclusive = some p ∨ p ∈ l.shared

end LWLock

/-! ## 2. The state -/

/-- The signals sent with `kill`: the null signal and `SIGUSR2`. -/
inductive Signal where
  | null
  | SIGUSR2
  deriving DecidableEq, Repr

/-- The globals of one process, and what PostgreSQL keeps for it. -/
structure Backend (D : Type) where
  isAlive : Bool
  isEnabled : Bool
  minCostToTrack : D
  /-- `CURRENT_QUERY_DESC` -/
  currentQueryDesc : Option QueryDescPtr := none
  wasBackendInitialized : Bool := false
  wasSignalHandlerInstalled : Bool := false
  inSignalHandler : Bool := false
  interruptHoldoffCount : UInt32 := 0
  /-- How often `query_cleanup_callback` and `backend_exit_callback` are registered. -/
  xactCallbacks : Nat := 0
  exitCallbacks : Nat := 0
  /-- The queries whose executor was started and neither ended nor discarded, latest first. -/
  started : List QueryDescPtr := []
  /-- `funcctx->user_fctx` of a `v1_status_f` scan: slot index and node index. -/
  scan : Option (UInt32 × UInt32) := none
  /-- Marks: the entry returned to this process and not released by it since, the query it
  recorded last, whether it recorded one since it last set `CURRENT_QUERY_DESC`, the queries it
  recorded to the end that are still open, the slot it is reading, the slot it found active in a
  poll and has not yet taken the pid of, and whether `backend_exit_callback` has searched the table
  for it. -/
  heldEntry : Option Nat := none
  lastRecorded : Option QueryDescPtr := none
  isRecording : Bool := false
  recorded : List QueryDescPtr := []
  visiting : Option Nat := none
  polling : Option Nat := none
  isUnlinked : Bool := false

/-- The state all processes share, and the processes.  `recordedTree i` is the query whose tree
was last recorded in slot `i`, `recordedNode i j` the plan node that got id `j` there, and
`measured` the instrumentation values that were read. -/
structure State (D : Type) where
  entries : Nat → PwhSharedMemoryBackendEntry D
  entrySearchLock : LWLock
  backends : Pid → Backend D
  recordedTree : Nat → Option QueryDescPtr := fun _ => none
  recordedNode : Nat → Nat → Option PlanStatePtr := fun _ _ => none
  measured : List (PlanStatePtr × Instrumentation D) := []

namespace State

variable {D : Type}

/-- The pid in slot `i`. -/
def pid (s : State D) (i : Nat) : Pid := (s.entries i).backendPid

def modifyEntry (s : State D) (i : Nat)
    (f : PwhSharedMemoryBackendEntry D → PwhSharedMemoryBackendEntry D) : State D :=
  { s with entries := Function.update s.entries i (f (s.entries i)) }

def modifyBackend (s : State D) (p : Pid) (f : Backend D → Backend D) : State D :=
  { s with backends := Function.update s.backends p (f (s.backends p)) }

end State

/-! ## 3. The operations -/

/-- Where control is. -/
inductive Mark where
  | entryReturned (i : Nat)
  | rememberQuery (i : Nat) (q : QueryDescPtr)
  | rememberNode (i j : Nat) (ps : PlanStatePtr)
  | collectTree (i : Nat) (ps : PlanStatePtr)
  | collectNode (i j : Nat) (ps : PlanStatePtr)
  | visitEntry (i : Nat)
  | leaveEntry
  | exitScan
  | entriesExhausted
  | endHookFailed (q : QueryDescPtr)

inductive Op (D : Type) where
  /- `entry_search_lock` -/
  | lwLockAcquire (m : LWLockMode)
  | lwLockRelease
  | lwLockReleaseAll
  /- the fields of a slot -/
  | readBackendPid (i : Nat)
  | pollBackendPid (i : Nat) (again : Bool)
  | writeBackendPid (i : Nat) (p : Pid)
  | incPollGeneration (i : Nat)
  | readCountOfMetrics (i : Nat)
  | writeCountOfMetrics (i : Nat) (n : UInt32)
  | writeQueryStartTime (i : Nat) (t : Int64)
  | readQueryId (i : Nat)
  | writeQueryId (i : Nat) (id : UInt64)
  | readQueryText (i : Nat)
  | writeQueryTextByte (i k : Nat) (b : UInt8)
  | readNode (i j : Nat) (f : NodeField)
  | writeNode (i j : Nat) (f : NodeField) (v : f.ty D)
  /- the globals of the process -/
  | isEnabled
  | minCostToTrack
  | getCurrentQueryDesc
  | setCurrentQueryDesc (q : Option QueryDescPtr)
  | getWasBackendInitialized
  | setWasBackendInitialized (b : Bool)
  | registerXactCallback
  | beforeShmemExit
  | pwhInstallSignalHandler
  | setInSignalHandler (b : Bool)
  | getScan
  | setScan (sc : Option (UInt32 × UInt32))
  | reload (enabled : Bool) (minCost : D)
  /- PostgreSQL and the operating system -/
  | standardExecutorStart (q : QueryDescPtr)
  | standardExecutorEnd (q : QueryDescPtr)
  | discard (qs : List QueryDescPtr)
  | discardAll
  | countXactCallbacks
  | countExitCallbacks
  | popExitCallbacks
  | getCurrentTimestamp
  | readInstrument (ps : PlanStatePtr)
  | stackFramesLeft
  | raisesHere
  | ereportError
  | kill (p : Pid) (sig : Signal)
  | processExit
  | fork (enabled : Bool) (minCost : D)
  | emit (e : Emission D)
  | mark (m : Mark)

/-- The type of an operation's answer. -/
@[reducible] def Res {D : Type} : Op D → Type
  | .lwLockRelease | .isEnabled | .getWasBackendInitialized | .raisesHere | .kill _ _ => Bool
  | .readBackendPid _ | .pollBackendPid _ _ => Pid
  | .readCountOfMetrics _ => UInt32
  | .readQueryId _ => UInt64
  | .readQueryText _ => List UInt8
  | .readNode _ _ f => f.ty D
  | .minCostToTrack => D
  | .getCurrentQueryDesc => Option QueryDescPtr
  | .getScan => Option (UInt32 × UInt32)
  | .countXactCallbacks | .countExitCallbacks | .stackFramesLeft => Nat
  | .getCurrentTimestamp => Int64
  | .readInstrument _ => Option (Instrumentation D)
  | _ => Unit

/-- What the environment decides at an operation: whether an error is raised, the time, the
instrumentation of the node that is read, and how many calls the stack still admits. -/
structure Env (D : Type) where
  raises : Bool := false
  now : Int64 := 0
  instrument : Option (Instrumentation D) := none
  stackFrames : Nat := 100000

/-- A program of the extension. -/
abbrev PgProg (D : Type) (α : Type) := Prog (Res (D := D)) α

/-- The effect of a mark. -/
def State.record {D : Type} (s : State D) (p : Pid) : Mark → State D
  | .entryReturned i => s.modifyBackend p fun b => { b with heldEntry := some i }
  | .rememberQuery i q =>
    { s.modifyBackend p fun b => { b with lastRecorded := some q, isRecording := true } with
      recordedTree := Function.update s.recordedTree i (some q) }
  | .rememberNode i j ps =>
    { s with recordedNode :=
        Function.update s.recordedNode i (Function.update (s.recordedNode i) j (some ps)) }
  | .collectTree _ _ => s
  | .collectNode _ _ _ => s
  | .visitEntry i => s.modifyBackend p fun b => { b with visiting := some i }
  | .leaveEntry => s.modifyBackend p fun b => { b with visiting := none }
  | .exitScan => s.modifyBackend p fun b => { b with isUnlinked := true }
  | .entriesExhausted => s
  | .endHookFailed _ => s

/-- `kill(pid, sig) == 0`: the process exists.  `kill(0, sig)` signals the caller's own process
group and succeeds. -/
def State.killSucceeds {D : Type} (s : State D) (p : Pid) : Bool :=
  p == 0 || (s.backends p).isAlive

/-- The effect of one operation of process `p`; `none` while it has to wait. -/
def exec {D : Type} (srv : Server D) (p : Pid) :
    (o : Op D) → Env D → State D → Option (Res o × State D)
  | .lwLockAcquire m, _, s => (s.entrySearchLock.acquire m p).map fun l =>
      ((), { s with entrySearchLock := l }.modifyBackend p fun b =>
        { b with interruptHoldoffCount := b.interruptHoldoffCount + 1 })
  | .lwLockRelease, _, s =>
    match s.entrySearchLock.release p with
    | some l => some (true, { s with entrySearchLock := l }.modifyBackend p fun b =>
        { b with interruptHoldoffCount := b.interruptHoldoffCount - 1 })
    -- "lock is not held" is an ERROR, and raising one resets the hold-off count
    | none => some (false, s.modifyBackend p fun b => { b with interruptHoldoffCount := 0 })
  | .lwLockReleaseAll, _, s =>
    some ((), { s with entrySearchLock := s.entrySearchLock.releaseAll p })
  | .readBackendPid i, _, s => some (s.pid i, s)
  -- the two reads of one poll: for the activity test, and `again` for the call of `kill`
  | .pollBackendPid i again, _, s =>
    some (s.pid i, s.modifyBackend p fun b =>
      { b with polling := if again ∨ s.pid i = 0 then none else some i })
  | .writeBackendPid i v, _, s =>
    -- a process that writes 0 into the slot it holds has released it
    some ((), (s.modifyEntry i fun be => { be with backendPid := v }).modifyBackend p fun b =>
      { b with heldEntry := if v = 0 ∧ b.heldEntry = some i then none else b.heldEntry })
  | .incPollGeneration i, _, s =>
    some ((), s.modifyEntry i fun be => { be with pollGeneration := be.pollGeneration + 1 })
  | .readCountOfMetrics i, _, s => some ((s.entries i).countOfMetrics, s)
  | .writeCountOfMetrics i n, _, s =>
    some ((), s.modifyEntry i fun be => { be with countOfMetrics := n })
  | .writeQueryStartTime i t, _, s =>
    some ((), s.modifyEntry i fun be => { be with queryStartTime := t })
  | .readQueryId i, _, s => some ((s.entries i).queryId, s)
  | .writeQueryId i id, _, s => some ((), s.modifyEntry i fun be => { be with queryId := id })
  | .readQueryText i, _, s => some ((s.entries i).text srv.gucs.maxQueryTextLen, s)
  | .writeQueryTextByte i k b, _, s =>
    some ((), s.modifyEntry i fun be =>
      { be with queryText := Function.update be.queryText k b })
  | .readNode i j f, _, s => some (((s.entries i).metrics j).get f, s)
  | .writeNode i j f v, _, s =>
    some ((), s.modifyEntry i fun be =>
      { be with metrics := Function.update be.metrics j ((be.metrics j).set f v) })
  | .isEnabled, _, s => some ((s.backends p).isEnabled, s)
  | .minCostToTrack, _, s => some ((s.backends p).minCostToTrack, s)
  | .getCurrentQueryDesc, _, s => some ((s.backends p).currentQueryDesc, s)
  | .setCurrentQueryDesc q, _, s =>
    some ((), s.modifyBackend p fun b =>
      { b with currentQueryDesc := q, isRecording := false,
               recorded := match q with | some q => q :: b.recorded | none => b.recorded })
  | .getWasBackendInitialized, _, s => some ((s.backends p).wasBackendInitialized, s)
  | .setWasBackendInitialized v, _, s =>
    some ((), s.modifyBackend p fun b =>
      { b with wasBackendInitialized := v, isUnlinked := if v then false else b.isUnlinked })
  | .registerXactCallback, _, s =>
    some ((), s.modifyBackend p fun b => { b with xactCallbacks := b.xactCallbacks + 1 })
  | .beforeShmemExit, _, s =>
    some ((), s.modifyBackend p fun b => { b with exitCallbacks := b.exitCallbacks + 1 })
  | .pwhInstallSignalHandler, _, s =>
    some ((), s.modifyBackend p fun b => { b with wasSignalHandlerInstalled := true })
  | .setInSignalHandler v, _, s =>
    some ((), s.modifyBackend p fun b => { b with inSignalHandler := v })
  | .getScan, _, s => some ((s.backends p).scan, s)
  | .setScan sc, _, s => some ((), s.modifyBackend p fun b => { b with scan := sc })
  | .reload enabled minCost, _, s =>
    some ((), s.modifyBackend p fun b =>
      { b with isEnabled := enabled, minCostToTrack := minCost })
  | .standardExecutorStart q, _, s =>
    some ((), s.modifyBackend p fun b => { b with started := q :: b.started })
  | .standardExecutorEnd q, _, s =>
    some ((), s.modifyBackend p fun b =>
      { b with started := b.started.erase q, recorded := b.recorded.filter (· ≠ q) })
  | .discard qs, _, s =>
    some ((), s.modifyBackend p fun b =>
      { b with started := b.started.filter (· ∉ qs), recorded := b.recorded.filter (· ∉ qs) })
  | .discardAll, _, s =>
    some ((), s.modifyBackend p fun b => { b with started := [], recorded := [], scan := none })
  | .countXactCallbacks, _, s => some ((s.backends p).xactCallbacks, s)
  | .countExitCallbacks, _, s => some ((s.backends p).exitCallbacks, s)
  | .popExitCallbacks, _, s =>
    some ((), s.modifyBackend p fun b => { b with exitCallbacks := 0 })
  | .getCurrentTimestamp, e, s => some (e.now, s)
  | .readInstrument ps, e, s =>
    some (e.instrument, match e.instrument with
      | some i => { s with measured := (ps, i) :: s.measured }
      | none => s)
  | .stackFramesLeft, e, s => some (e.stackFrames, s)
  | .raisesHere, e, s =>
    some (e.raises, if e.raises then
      s.modifyBackend p fun b => { b with interruptHoldoffCount := 0 } else s)
  | .ereportError, _, s =>
    some ((), s.modifyBackend p fun b => { b with interruptHoldoffCount := 0 })
  | .kill v _, _, s => some (s.killSucceeds v, s)
  | .processExit, _, s =>
    some ((), { s with entrySearchLock := s.entrySearchLock.releaseAll p }.modifyBackend p
      fun b => { b with isAlive := false })
  | .fork enabled minCost, _, s =>
    some ((), s.modifyBackend p fun _ =>
      { isAlive := true, isEnabled := enabled, minCostToTrack := minCost })
  | .emit _, _, s => some ((), s.modifyBackend p fun b => { b with visiting := none })
  | .mark m, _, s => some ((), s.record p m)

end WhatIsHappening
