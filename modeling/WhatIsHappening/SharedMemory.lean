/-
# `shared_memory.c`

The functions that look up, claim, release and signal slots.  `p` is `MyProcPid`; a pointer to an
entry is the index of its slot.
-/
import WhatIsHappening.Machine

namespace WhatIsHappening

open Interleaving Prog

variable {D : Type}

/-! ## 1. Errors and the lock -/

/-- One statement of the source. -/
def act (o : Op D) : PgProg D (Res o) := perform o

@[simp] theorem act_bind {α : Type} (o : Op D) (f : Res o → PgProg D α) :
    (act o >>= f) = .op o f := rfl

/-- `ereport(ERROR, ...)`. -/
def ereportError {α : Type} : PgProg D α := .op .ereportError fun _ => .raise

/-- `if (c) { p }`, with the code after it. -/
def pgWhen (c : Bool) (p : PgProg D Unit) : PgProg D Unit := if c then p else .ret ()

/-- `PG_TRY(); body PG_CATCH(); handler PG_END_TRY();` where an error may be raised at every
statement of the body. -/
def pgTryCatch (body handler : PgProg D Unit) : PgProg D Unit :=
  (body.faulty (.raisesHere : Op D) id).catching handler

/-- `PWH_LWLOCK_ACQUIRE(PWH_SHMEM->entry_search_lock, m)`. -/
def pwhLwlockAcquire (m : LWLockMode) : PgProg D Unit := act (.lwLockAcquire m)

@[simp] theorem pwhLwlockAcquire_bind {α : Type} (m : LWLockMode) (f : Unit → PgProg D α) :
    (pwhLwlockAcquire m >>= f) = act (.lwLockAcquire m) >>= f := rfl

/-- `PWH_LWLOCK_RELEASE(PWH_SHMEM->entry_search_lock)`: an error when the lock is not held. -/
def pwhLwlockRelease : PgProg D Unit :=
  .op .lwLockRelease fun held => if held then .ret () else .raise

@[simp] theorem pwhLwlockRelease_bind {α : Type} (f : Unit → PgProg D α) :
    (pwhLwlockRelease >>= f) = act .lwLockRelease >>= fun held =>
      if held then f () else .raise := by
  refine congrArg (Prog.op _) (funext fun held => ?_)
  cases held <;> rfl

/-! ## 2. Claiming and releasing a slot -/

/-- The value of `free_slot_idx` that stands for "none found": `-1U`. -/
def NO_FREE_SLOT : Nat := 4294967295

/-- `pwh_release_backend_entry_unlocked`. -/
def pwhReleaseBackendEntryUnlocked (be : Nat) : PgProg D Unit := do
  act (.writeBackendPid be 0)
  act (.incPollGeneration be)

/-- The `return` of `pwh_get_or_create_my_backend_entry_impl` with an entry. -/
def returnEntry (be : Nat) : PgProg D (Option Nat) := do
  act (.mark (.entryReturned be))
  return some be

/-- What `pwh_get_or_create_my_backend_entry_impl` does when its loop has found no entry of this
process.  The mark is its `ereport(LOG, "All backend entries exhausted")`. -/
def claimFreeSlot (p : Pid) (shouldCreate : Bool) (freeSlotIdx : Nat) : PgProg D (Option Nat) :=
  if shouldCreate ∧ freeSlotIdx ≠ NO_FREE_SLOT then do
    act (.writeBackendPid freeSlotIdx p)
    pwhLwlockRelease
    returnEntry freeSlotIdx
  else do
    pwhLwlockRelease
    pgWhen shouldCreate (act (.mark .entriesExhausted))
    return none

/-- The loop of `pwh_get_or_create_my_backend_entry_impl`: `k` slots from `i` on are left. -/
def searchSlots (p : Pid) (shouldCreate : Bool) : (k i freeSlotIdx : Nat) → PgProg D (Option Nat)
  | 0, _, freeSlotIdx => claimFreeSlot p shouldCreate freeSlotIdx
  | k + 1, i, freeSlotIdx =>
    -- the `if` reads the pid only while no free slot is known, the `else if` reads it again
    if freeSlotIdx = NO_FREE_SLOT then do
      let pid ← act (.readBackendPid i)
      if pid = 0 then searchSlots p shouldCreate k (i + 1) i
      else do
        let pid ← act (.readBackendPid i)
        if pid = p then do
          pwhLwlockRelease
          returnEntry i
        else searchSlots p shouldCreate k (i + 1) freeSlotIdx
    else do
      let pid ← act (.readBackendPid i)
      if pid = p then do
        pwhLwlockRelease
        returnEntry i
      else searchSlots p shouldCreate k (i + 1) freeSlotIdx

/-- `pwh_get_or_create_my_backend_entry_impl`. -/
def pwhGetOrCreateMyBackendEntryImpl (srv : Server D) (p : Pid) (shouldCreate : Bool) :
    PgProg D (Option Nat) := do
  pwhLwlockAcquire .LW_SHARED
  searchSlots p shouldCreate srv.gucs.maxTrackedQueries 0 NO_FREE_SLOT

/-- `pwh_get_or_create_my_backend_entry`. -/
def pwhGetOrCreateMyBackendEntry (srv : Server D) (p : Pid) : PgProg D (Option Nat) :=
  pwhGetOrCreateMyBackendEntryImpl srv p true

/-- `pwh_get_my_backend_entry`. -/
def pwhGetMyBackendEntry (srv : Server D) (p : Pid) : PgProg D (Option Nat) :=
  pwhGetOrCreateMyBackendEntryImpl srv p false

/-- The loop that releases the first slot of this process: `k` slots from `i` on are left. -/
def releaseFirst (p : Pid) : (k i : Nat) → PgProg D Unit
  | 0, _ => return ()
  | k + 1, i => do
    let pid ← act (.readBackendPid i)
    if pid = p then pwhReleaseBackendEntryUnlocked i else releaseFirst p k (i + 1)

/-- `pwh_release_my_backend_entry`. -/
def pwhReleaseMyBackendEntry (srv : Server D) (p : Pid) : PgProg D Unit := do
  pwhLwlockAcquire .LW_SHARED
  releaseFirst p srv.gucs.maxTrackedQueries 0
  pwhLwlockRelease

/-! ## 3. Reading slots -/

/-- `pwh_get_backend_entry`: the lock is taken around the pointer arithmetic only. -/
def pwhGetBackendEntry (srv : Server D) (index : Nat) : PgProg D (Option Nat) :=
  if srv.gucs.maxTrackedQueries ≤ index then return none
  else do
    pwhLwlockAcquire .LW_SHARED
    pwhLwlockRelease
    return some index

/-- `pwh_is_backend_entry_active`. -/
def pwhIsBackendEntryActive (be : Nat) : PgProg D Bool := do
  let pid ← act (.readBackendPid be)
  return pid ≠ 0

@[simp] theorem pwhIsBackendEntryActive_bind {α : Type} (be : Nat) (f : Bool → PgProg D α) :
    (pwhIsBackendEntryActive be >>= f) = act (.readBackendPid be) >>= fun pid => f (pid ≠ 0) :=
  rfl

/-- `pwh_validate_node_magic`. -/
def pwhValidateNodeMagic (be j : Nat) : PgProg D Bool := do
  let magic ← act (.readNode be j .magic)
  return decide (magic = PWH_NODE_MAGIC)

@[simp] theorem pwhValidateNodeMagic_bind {α : Type} (be j : Nat) (f : Bool → PgProg D α) :
    (pwhValidateNodeMagic be j >>= f) =
      act (.readNode be j .magic) >>= fun magic => f (decide (magic = PWH_NODE_MAGIC)) := rfl

/-! ## 4. Signalling -/

/-- `signal_process`. -/
def signalProcess (pid : Pid) (sig : Signal) : PgProg D Bool := act (.kill pid sig)

/-- `check_if_process_exists`. -/
def checkIfProcessExists (pid : Pid) : PgProg D Bool := act (.kill pid .null)

/-- The loop of `pwh_request_backend_metrics_unlocked`: `k` slots from `i` on are left, and
`n_signaled` processes were signalled.  `pollBackendPid i false` is the read of
`pwh_is_backend_entry_active`. -/
def requestBackendMetrics : (k i nSignaled : Nat) → PgProg D Nat
  | 0, _, nSignaled => return nSignaled
  | k + 1, i, nSignaled => do
    let pid ← act (.pollBackendPid i false)
    if pid ≠ 0 then
      -- `backend_pid` is volatile and is read a second time for the call
      let pid ← act (.pollBackendPid i true)
      if ← signalProcess pid .SIGUSR2 then requestBackendMetrics k (i + 1) (nSignaled + 1)
      else requestBackendMetrics k (i + 1) nSignaled
    else requestBackendMetrics k (i + 1) nSignaled

/-- `pwh_request_backend_metrics_unlocked`. -/
def pwhRequestBackendMetricsUnlocked (srv : Server D) : PgProg D Nat :=
  requestBackendMetrics srv.gucs.maxTrackedQueries 0 0

/-- The loop of `pwh_cleanup_orphaned_slots`: `k` slots from `i` on are left. -/
def cleanupOrphanedSlots (srv : Server D) : (k i nCleaned : Nat) → PgProg D Nat
  | 0, _, nCleaned => return nCleaned
  | k + 1, i, nCleaned => do
    let _ ← pwhGetBackendEntry srv i
    if ← pwhIsBackendEntryActive i then
      let pid ← act (.readBackendPid i)
      if ← checkIfProcessExists pid then cleanupOrphanedSlots srv k (i + 1) nCleaned
      else
        pwhReleaseBackendEntryUnlocked i
        cleanupOrphanedSlots srv k (i + 1) (nCleaned + 1)
    else cleanupOrphanedSlots srv k (i + 1) nCleaned

/-- `pwh_cleanup_orphaned_slots`. -/
def pwhCleanupOrphanedSlots (srv : Server D) : PgProg D Nat :=
  cleanupOrphanedSlots srv srv.gucs.maxTrackedQueries 0 0

end WhatIsHappening
