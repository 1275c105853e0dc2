/-
# `pg_what_is_happening.c` and `signal_handler.c`: the hooks, the callbacks and the signal handler

Each function is the source's, with the parts of PostgreSQL that call it (the executor, the
transaction manager, process exit) as the short programs of section 4.
-/
import WhatIsHappening.PlanTreeWalker

namespace WhatIsHappening

open Interleaving Prog

variable {D : Type}

/-! ## 1. Query ids and query text -/

/-- `pwh_compute_query_id` (`compatibility.c`), at the time `now`. -/
def pwhComputeQueryId (p : Pid) (qd : QueryDesc D) (now : Int64) : UInt64 :=
  let hash : UInt64 :=
    match qd.sourceText with
    | some text => pwhHashDjb2 5381 text.bytes
    | none => 5381
  (hash ^^^ (now.toUInt64 >>> 16)) ^^^ UInt64.ofNat p

/-- `get_query_id`. -/
def getQueryId (p : Pid) (qd : QueryDesc D) : PgProg D UInt64 :=
  if qd.queryId = 0 then do
    let now ← act .getCurrentTimestamp
    return pwhComputeQueryId p qd now
  else return qd.queryId

/-- The bytes `snprintf(query_text, n, "%s", text)` writes, in order: at most `n - 1` of the text
and a NUL. -/
def snprintfWrites (n : Nat) (text : CString) : List (Nat × UInt8) :=
  let shown := text.bytes.take (n - 1)
  shown.zipIdx.map (fun bk => (bk.2, bk.1)) ++ [(shown.length, 0)]

/-- Write bytes of the query text one by one. -/
def writeQueryText (be : Nat) : List (Nat × UInt8) → PgProg D Unit
  | [] => return ()
  | w :: ws => do
    act (.writeQueryTextByte be w.1 w.2)
    writeQueryText be ws

/-- `if (queryDesc->sourceText != NULL) snprintf(...) else query_text[0] = '\0'`. -/
def copyQueryText (srv : Server D) (be : Nat) (qd : QueryDesc D) : PgProg D Unit :=
  match qd.sourceText with
  | some text => writeQueryText be (snprintfWrites srv.gucs.maxQueryTextLen text)
  | none => act (.writeQueryTextByte be 0 0)

/-! ## 2. Callbacks -/

/-- `pwh_set_current_query_desc`. -/
def pwhSetCurrentQueryDesc (q : Option QueryDescPtr) : PgProg D Unit :=
  act (.setCurrentQueryDesc q)

/-- `backend_exit_callback`. -/
def backendExitCallback (srv : Server D) (p : Pid) : PgProg D Unit := do
  pwhLwlockAcquire .LW_EXCLUSIVE
  releaseFirst p srv.gucs.maxTrackedQueries 0
  act (.mark .exitScan)
  pwhLwlockRelease
  act (.setWasBackendInitialized false)

/-- `XactEvent`. -/
inductive XactEvent where
  | XACT_EVENT_COMMIT
  | XACT_EVENT_PARALLEL_COMMIT
  | XACT_EVENT_ABORT
  | XACT_EVENT_PARALLEL_ABORT
  | XACT_EVENT_PREPARE
  | XACT_EVENT_PRE_COMMIT
  | XACT_EVENT_PARALLEL_PRE_COMMIT
  | XACT_EVENT_PRE_PREPARE
  deriving DecidableEq, Repr

/-- `PWH_IS_ABORT_EVENT`.  The macro asks the preprocessor whether `XACT_EVENT_PARALLEL_ABORT` is
defined; it is an enumerator and never a macro, so every build takes the `#else` branch. -/
def pwhIsAbortEvent (event : XactEvent) : Bool := event = .XACT_EVENT_ABORT

/-- `query_cleanup_callback`. -/
def queryCleanupCallback (srv : Server D) (p : Pid) (event : XactEvent) : PgProg D Unit :=
  if ¬ pwhIsAbortEvent event then return ()
  else do
    pwhSetCurrentQueryDesc none
    if ← act .isEnabled then pwhReleaseMyBackendEntry srv p
    else return ()

/-- `initialize_state_once_per_backend`. -/
def initializeStateOncePerBackend : PgProg D Unit := do
  act .registerXactCallback
  act .beforeShmemExit
  act .pwhInstallSignalHandler
  act (.setWasBackendInitialized true)

section Hooks

variable [CDouble D]

/-! ## 3. The hooks and the signal handler -/

/-- What the try block of `query_start_hook` does with the entry `be`. -/
def trackQuery (srv : Server D) (p : Pid) (be : Nat) (q : QueryDescPtr) : PgProg D Unit := do
  act (.mark (.rememberQuery be q))
  let numNodes ← pwhRememberPlanstateTreeAsMetricStructure srv (srv.queryDesc q).planstate be
    srv.gucs.maxNodesPerQuery
  act (.writeCountOfMetrics be (UInt32.ofNat numNodes))
  let now ← act .getCurrentTimestamp
  act (.writeQueryStartTime be now)
  let queryId ← getQueryId p (srv.queryDesc q)
  act (.writeQueryId be queryId)
  copyQueryText srv be (srv.queryDesc q)
  pwhSetCurrentQueryDesc (some q)

/-- The try block of `query_start_hook`. -/
def queryStartTry (srv : Server D) (p : Pid) (q : QueryDescPtr) : PgProg D Unit := do
  match ← pwhGetOrCreateMyBackendEntry srv p with
  | none => return ()
  | some be => trackQuery srv p be q

/-- The catch block of `query_start_hook`. -/
def queryStartCatch (srv : Server D) (p : Pid) : PgProg D Unit := do
  pwhSetCurrentQueryDesc none
  backendExitCallback srv p

/-- `query_start_hook`. -/
def queryStartHook (srv : Server D) (p : Pid) (q : QueryDescPtr) : PgProg D Unit := do
  act (.standardExecutorStart q)
  if ← act .isEnabled then
    let minCost ← act .minCostToTrack
    if CDouble.gt minCost (srv.queryDesc q).totalCost then return ()
    else
      let initialized ← act .getWasBackendInitialized
      pgWhen (!initialized) initializeStateOncePerBackend
      pgTryCatch (queryStartTry srv p q) (queryStartCatch srv p)
  else return ()

/-- The final metrics and the release of the entry `be`. -/
def captureAndRelease (srv : Server D) (be : Nat) (q : QueryDescPtr) : PgProg D Unit := do
  pwhCollectPlanstateMetrics srv (srv.queryDesc q).planstate be srv.gucs.maxNodesPerQuery
  pwhReleaseBackendEntryUnlocked be

/-- What the try block of `query_end_hook` does with the entry `be`. -/
def finishQuery (srv : Server D) (be : Nat) (q : QueryDescPtr) : PgProg D Unit := do
  pwhLwlockAcquire .LW_EXCLUSIVE
  let active ← pwhIsBackendEntryActive be
  pgWhen active (captureAndRelease srv be q)
  pwhLwlockRelease
  pwhSetCurrentQueryDesc none

/-- The try block of `query_end_hook`. -/
def queryEndTry (srv : Server D) (p : Pid) (q : QueryDescPtr) : PgProg D Unit := do
  match ← pwhGetMyBackendEntry srv p with
  | none => return ()
  | some be => finishQuery srv be q

/-- The catch block of `query_end_hook`. -/
def queryEndCatch (q : QueryDescPtr) : PgProg D Unit := do
  act (.mark (.endHookFailed q))
  pwhSetCurrentQueryDesc none
  pwhLwlockRelease

/-- `query_end_hook`. -/
def queryEndHook (srv : Server D) (p : Pid) (q : QueryDescPtr) : PgProg D Unit := do
  let enabled ← act .isEnabled
  let initialized ← act .getWasBackendInitialized
  pgWhen (enabled && initialized) (pgTryCatch (queryEndTry srv p q) (queryEndCatch q))
  act (.standardExecutorEnd q)

/-- The search of `pwh_sigusr2_handler` for the slot of this process: `k` slots from `i` on are
left. -/
def findMySlot (p : Pid) : (k i : Nat) → PgProg D (Option Nat)
  | 0, _ => return none
  | k + 1, i => do
    let pid ← act (.readBackendPid i)
    if pid = p then return some i else findMySlot p k (i + 1)

/-- `pwh_sigusr2_handler`.  `PWH_SHMEM` is set before any backend is forked. -/
def pwhSigusr2Handler (srv : Server D) (p : Pid) : PgProg D Unit := do
  match ← act .getCurrentQueryDesc with
  | none => return ()
  | some q =>
    match (srv.queryDesc q).planstate with
    | none => return ()
    | some planstate =>
      match ← findMySlot p srv.gucs.maxTrackedQueries 0 with
      | none => return ()
      | some be =>
        pwhCollectPlanstateMetrics srv (some planstate) be srv.gucs.maxNodesPerQuery
        act (.incPollGeneration be)

/-! ## 4. What PostgreSQL runs -/

/-- Delivery of SIGUSR2.  The signal is blocked while its handler runs.  The only error that can
leave the handler is that of `check_stack_depth`, which PostgreSQL raises in the code that was
interrupted.  Here the interrupted code goes on: in a try block an error may be raised in front of
the next statement anyway, and elsewhere an abort may follow; a result that must not admit the
statements in between assumes that polls find enough stack. -/
def deliverSigusr2 (srv : Server D) (p : Pid) : PgProg D Unit := do
  act (.setInSignalHandler true)
  (pwhSigusr2Handler srv p).catching (return ())
  act (.setInSignalHandler false)

/-- `CallXactCallbacks`: a callback that is registered `n` times runs `n` times. -/
def callXactCallbacks (srv : Server D) (p : Pid) (event : XactEvent) : Nat → PgProg D Unit
  | 0 => return ()
  | n + 1 => do
    queryCleanupCallback srv p event
    callXactCallbacks srv p event n

/-- `AbortTransaction`: locks are released, the callbacks run, and every query is discarded
without an ExecutorEnd. -/
def abortTransaction (srv : Server D) (p : Pid) (event : XactEvent) : PgProg D Unit := do
  act .lwLockReleaseAll
  let n ← act .countXactCallbacks
  callXactCallbacks srv p event n
  act .discardAll

/-- `CommitTransaction`: its queries were ended before. -/
def commitTransaction (srv : Server D) (p : Pid) : PgProg D Unit := do
  let n ← act .countXactCallbacks
  callXactCallbacks srv p .XACT_EVENT_COMMIT n

/-- `AbortSubTransaction`: the queries `qs` started inside it are discarded without an
ExecutorEnd.  The extension registers no subtransaction callback. -/
def abortSubTransaction (qs : List QueryDescPtr) : PgProg D Unit := do
  act .lwLockReleaseAll
  act (.discard qs)

/-- The `before_shmem_exit` callbacks. -/
def callExitCallbacks (srv : Server D) (p : Pid) : Nat → PgProg D Unit
  | 0 => return ()
  | n + 1 => do
    backendExitCallback srv p
    callExitCallbacks srv p n

/-- `proc_exit`: the exit callbacks, the abort of an open transaction, and the end of the
process. -/
def procExit (srv : Server D) (p : Pid) : PgProg D Unit := do
  let n ← act .countExitCallbacks
  callExitCallbacks srv p n
  act .popExitCallbacks
  abortTransaction srv p .XACT_EVENT_ABORT
  act .processExit

end Hooks

end WhatIsHappening
