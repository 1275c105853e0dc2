/-
# The two systems

`clusterSystem`: any number of processes, each of which runs queries, takes part in transactions,
reads the view or serves the endpoint, in any order, interleaved operation by operation.

`backendSystem`: one process alone, with the slots of the others changing under it.  Both run the
same programs.
-/
import WhatIsHappening.BgWorker
import WhatIsHappening.Hooks

namespace WhatIsHappening

open Interleaving

variable {D : Type}

/-! ## 1. What a process may do -/

/-- What happens to a process from outside the extension. -/
inductive Call (D : Type) where
  | fork (enabled : Bool) (minCost : D)
  | reload (enabled : Bool) (minCost : D)
  | executorStart (q : QueryDescPtr)
  | executorEnd (q : QueryDescPtr)
  | abort (event : XactEvent)
  | commit
  | abortSub (qs : List QueryDescPtr)
  | fetchStatus
  | scrape (req : HttpRequest) (palloced : Nat → UInt8)
  | exit

/-- Whether process `p` may do it now: a process is forked once it is not running, a query is
started once at a time and ended while it is open, and an abort is delivered as one of the two
abort events. -/
def Call.admitted (s : State D) (p : Pid) : Call D → Bool
  | .fork _ _ => p != 0 && !(s.backends p).isAlive
  | .executorStart q => (s.backends p).isAlive && q ∉ (s.backends p).started
  | .executorEnd q => (s.backends p).isAlive && q ∈ (s.backends p).started
  | .abort event => (s.backends p).isAlive &&
      (event = .XACT_EVENT_ABORT ∨ event = .XACT_EVENT_PARALLEL_ABORT)
  | _ => (s.backends p).isAlive

variable [CDouble D]

/-- The program it runs. -/
def Call.program (srv : Server D) (p : Pid) : Call D → PgProg D Unit
  | .fork enabled minCost => act (.fork enabled minCost)
  | .reload enabled minCost => act (.reload enabled minCost)
  | .executorStart q => queryStartHook srv p q
  | .executorEnd q => queryEndHook srv p q
  | .abort event => abortTransaction srv p event
  | .commit => commitTransaction srv p
  | .abortSub qs => abortSubTransaction qs
  | .fetchStatus => do let _ ← v1StatusF srv
  | .scrape req palloced => do let _ ← metricsHandler srv palloced req
  | .exit => procExit srv p

def enter (srv : Server D) (p : Pid) (c : Call D) (s : State D) : Option (PgProg D Unit) :=
  if c.admitted s p then some (c.program srv p) else none

/-- A process takes SIGUSR2 once its handler is installed, and not while the handler runs. -/
def takeSigusr2 (srv : Server D) (p : Pid) (s : State D) : Option (PgProg D Unit) :=
  if (s.backends p).isAlive && (s.backends p).wasSignalHandlerInstalled &&
      !(s.backends p).inSignalHandler then some (deliverSigusr2 srv p) else none

/-! ## 2. The start -/

/-- A node record of cleared memory. -/
def PwhNodeMetrics.zero : PwhNodeMetrics D where
  tag := .other 0
  nodeId := 0
  parentNodeId := 0
  execution :=
    let zero := CDouble.ofNat 0
    ⟨zero, zero, zero, zero, zero, zero⟩
  bufferUsage := ⟨0, 0, 0, 0, 0, 0⟩
  magic := 0

/-- A slot as `pwh_shared_memory_startup_hook` leaves it: `MemSet(be, 0, stride)`. -/
def PwhSharedMemoryBackendEntry.zero : PwhSharedMemoryBackendEntry D where
  backendPid := 0
  queryId := 0
  pollGeneration := 0
  queryStartTime := 0
  countOfMetrics := 0
  queryText := fun _ => 0
  metrics := fun _ => .zero

/-- The state after `pwh_shared_memory_startup_hook`, before any process is forked. -/
def State.init : State D where
  entries := fun _ => .zero
  entrySearchLock := {}
  backends := fun _ => { isAlive := false, isEnabled := false, minCostToTrack := CDouble.ofNat 0 }

/-! ## 3. The systems -/

/-- All processes. -/
def clusterSystem (srv : Server D) :
    System Pid (Call D) Empty (Env D) (State D) (Res (D := D)) where
  exec := exec srv
  enter := enter srv
  interrupt := takeSigusr2 srv
  external := nofun

/-- The start of a cluster: every process idle. -/
def clusterInit : Config Pid (State D) (Res (D := D)) := ⟨.init, fun _ => .ret ()⟩

/-- Another process overwrites a slot that is not this process's, and does not put its pid
there. -/
structure ForeignWrite (D : Type) where
  slot : Nat
  entry : PwhSharedMemoryBackendEntry D

def ForeignWrite.apply (p : Pid) (w : ForeignWrite D) (s : State D) : Option (State D) :=
  if s.pid w.slot ≠ p ∧ w.entry.backendPid ≠ p then some (s.modifyEntry w.slot fun _ => w.entry)
  else none

/-- Process `p` alone. -/
def backendSystem (srv : Server D) (p : Pid) :
    System Unit (Call D) (ForeignWrite D) (Env D) (State D) (Res (D := D)) where
  exec := fun _ => exec srv p
  enter := fun _ => enter srv p
  interrupt := fun _ => takeSigusr2 srv p
  external := ForeignWrite.apply p

/-- The start of one process. -/
def backendInit : Config Unit (State D) (Res (D := D)) := ⟨.init, fun _ => .ret ()⟩

/-- Every run is admitted. -/
def anyRun {ι Ext : Type} : Config ι (State D) (Res (D := D)) →
    Event ι (Call D) Ext (Env D) → Prop := fun _ _ => True

/-! ## 4. A small server -/

/-- Two slots of 16 nodes and 64 bytes of text.  The query `q` is a sequential scan with query id
and cost `q`. -/
def smallServer : Server ℚ where
  version := .v14_
  gucs := { maxTrackedQueries := 2, maxNodesPerQuery := 16, maxQueryTextLen := 64 }
  planState _ := { plan := some .seqScan }
  queryDesc q :=
    { planstate := some q, queryId := UInt64.ofNat q, totalCost := q, sourceText := none }

/-- `n` operations of one process, with the answers of the default environment. -/
def runs {ι Ext : Type} (i : ι) (n : Nat) : List (Event ι (Call ℚ) Ext (Env ℚ)) :=
  List.replicate n (.run i {})

/-- Process `p` is forked and starts query `q`: the 70 operations of its start hook. -/
def startQuery (p : Pid) (q : QueryDescPtr) : List (Event Pid (Call ℚ) Empty (Env ℚ)) :=
  [.call p (.fork true 0)] ++ runs p 1 ++ [.call p (.executorStart q)] ++ runs p 70

end WhatIsHappening
