/-
# Every call gives the lock back

The lock discipline is checked on the programs (`Call.program_lock`): whoever acquires the lock
holds nothing that stands in its way, and every way out of a call, by a return or by an error,
leaves it free.  A program that has nothing to do with the lock is passed over as a whole.
-/
import WhatIsHappening.Slots.LockHold

namespace WhatIsHappening

open Interleaving Prog

variable {D : Type}

/-! ## 1. What has nothing to do with the lock

Loops over the table and walks neither touch the lock nor raise an error, so they leave the hold as
it is. -/

section Programs

variable {srv : Server D} {p : Pid} {m : Bool} {h : LockHold}

/-- Upkeep of single slots does not touch the lock. -/
theorem pwhReleaseBackendEntryUnlocked_ignoresLock (be : Nat) :
    (pwhReleaseBackendEntryUnlocked be : PgProg D Unit).All Op.IgnoresLock :=
  act_all trivial fun _ => act_all trivial fun _ => trivial

/-- The search for a slot to release. -/
theorem releaseFirst_ignoresLock :
    ∀ k i, (releaseFirst p k i : PgProg D Unit).All Op.IgnoresLock
  | 0, _ => trivial
  | k + 1, i => by
    unfold releaseFirst
    refine act_all trivial fun pid => ?_
    split
    · exact pwhReleaseBackendEntryUnlocked_ignoresLock i
    · exact releaseFirst_ignoresLock k (i + 1)

/-- It reports no error. -/
theorem releaseFirst_noRaise : ∀ k i, (releaseFirst p k i : PgProg D Unit).NoRaise
  | 0, _ => trivial
  | k + 1, i => by
    unfold releaseFirst
    refine act_noRaise fun pid => ?_
    split
    · exact act_noRaise fun _ => act_noRaise fun _ => trivial
    · exact releaseFirst_noRaise k (i + 1)

/-- The signals of a poll. -/
theorem requestBackendMetrics_ignoresLock :
    ∀ k i n, (requestBackendMetrics k i n : PgProg D Nat).All Op.IgnoresLock
  | 0, _, _ => trivial
  | k + 1, i, n => by
    unfold requestBackendMetrics
    refine act_all trivial fun pid => ?_
    split
    · refine act_all trivial fun pid => act_all (o := .kill pid .SIGUSR2) trivial fun ok => ?_
      split <;> exact requestBackendMetrics_ignoresLock k (i + 1) _
    · exact requestBackendMetrics_ignoresLock k (i + 1) n

/-- A signal that cannot be sent is no error. -/
theorem requestBackendMetrics_noRaise :
    ∀ k i n, (requestBackendMetrics k i n : PgProg D Nat).NoRaise
  | 0, _, _ => trivial
  | k + 1, i, n => by
    unfold requestBackendMetrics
    refine act_noRaise fun pid => ?_
    split
    · refine act_noRaise fun pid => act_noRaise (o := .kill pid .SIGUSR2) fun ok => ?_
      split <;> exact requestBackendMetrics_noRaise k (i + 1) _
    · exact requestBackendMetrics_noRaise k (i + 1) n

/-- A query is recorded without the lock, and measured without it. -/
theorem Op.OfTrack.ignoresLock {be : Nat} {o : Op D} (ho : o.OfTrack be) : o.IgnoresLock := by
  cases o <;> trivial

/-- A reader holds the lock already. -/
theorem Op.ReadsEntry.ignoresLock {o : Op D} (ho : o.ReadsEntry) : o.IgnoresLock := by
  cases o <;> trivial

/-- Looking an entry up takes the lock once more, and gives it back. -/
theorem wp_lock_getBackendEntry {E : LockHold → Prop} (hex : h.exclusive = false) (index : Nat) :
    (lockContract D).wp false (pwhGetBackendEntry srv index) (fun _ t => t = h) E h := by
  unfold pwhGetBackendEntry
  split
  · exact wp_lock_ret rfl
  · rw [pwhLwlockAcquire_bind]
    refine wp_lock_step hex fun _ _ => ?_
    refine wp_lock_release nofun (fun hf => ?_) (wp_lock_ret ?_)
    · cases congrArg LockHold.shared hf
    · obtain ⟨exclusive, shared⟩ := h
      obtain rfl : exclusive = false := hex
      rfl

/-! ## 2. The lookup of the own slot

It takes the lock shared and gives it up on each way out. -/

section Lookup

variable {shouldCreate : Bool} {free : Nat}

/-- A lookup that has the lock shared gives it back on every way. -/
theorem wp_lock_returnEntry (be : Nat) :
    (lockContract D).wp false ((pwhLwlockRelease >>= fun _ => returnEntry be).faulty
      (.raisesHere : Op D) id) (fun _ t => t = .free) (fun t => t = .free) ⟨false, 1⟩ := by
  refine wp_lock_fault_release nofun nofun ?_
  exact wp_lock_fault (fun _ => rfl) trivial fun _ _ => wp_lock_ret rfl

/-- Where the table is full the lock is given back before the warning. -/
theorem wp_lock_claimFreeSlot :
    (lockContract D).wp false ((claimFreeSlot p shouldCreate free).faulty (.raisesHere : Op D) id)
      (fun _ t => t = .free) (fun t => t = .free) ⟨false, 1⟩ := by
  unfold claimFreeSlot
  split
  · exact wp_lock_fault nofun trivial fun _ _ => wp_lock_returnEntry free
  · refine wp_lock_fault_release nofun nofun ?_
    refine wp_lock_fault_ignored ?_ rfl fun _ => wp_lock_ret rfl
    cases shouldCreate
    · trivial
    · exact ⟨trivial, fun _ => trivial⟩

/-- The induction is on the slots that are left; the lock is held shared all the way. -/
theorem wp_lock_searchSlots :
    ∀ k i free, (lockContract D).wp false
      ((searchSlots p shouldCreate k i free).faulty (.raisesHere : Op D) id)
      (fun _ t => t = .free) (fun t => t = .free) ⟨false, 1⟩
  | 0, _, _ => wp_lock_claimFreeSlot
  | k + 1, i, free => by
    have hread : ∀ free, (lockContract D).wp false ((act (.readBackendPid i) >>= fun pid =>
        if pid = p then (pwhLwlockRelease >>= fun _ => returnEntry i)
        else searchSlots p shouldCreate k (i + 1) free : PgProg D (Option Nat)).faulty
        (.raisesHere : Op D) id) (fun _ t => t = .free) (fun t => t = .free) ⟨false, 1⟩ := by
      intro free
      refine wp_lock_fault nofun trivial fun pid _ => ?_
      split
      · exact wp_lock_returnEntry i
      · exact wp_lock_searchSlots k (i + 1) free
    unfold searchSlots
    split
    · refine wp_lock_fault nofun trivial fun pid _ => ?_
      split
      · exact wp_lock_searchSlots k (i + 1) i
      · exact hread free
    · exact hread free

/-- The lookup, wherever an error strikes in front of it. -/
theorem wp_lock_getMyEntry :
    (lockContract D).wp false ((pwhGetOrCreateMyBackendEntryImpl srv p shouldCreate).faulty
      (.raisesHere : Op D) id) (fun _ t => t = .free) (fun t => t = .free) .free := by
  unfold pwhGetOrCreateMyBackendEntryImpl
  rw [pwhLwlockAcquire_bind]
  exact wp_lock_fault (fun _ => rfl) rfl fun _ _ => wp_lock_searchSlots _ 0 _

end Lookup

/-! ## 3. Hooks

A try block may be left with the lock held: by an error of the walk in the end hook.  Its catch
block releases the lock, and where it is not held that is an error of its own, which leaves the hook
without the lock as well. -/

/-- A program that starts and ends without the lock, by an error too. -/
def LeavesFree (prog : PgProg D Unit) : Prop :=
  (lockContract D).wp false prog (fun _ t => t = .free) (fun t => t = .free) .free

/-- The lock is taken exclusively, so whoever runs this must hold nothing. -/
theorem backendExitCallback_lock : LeavesFree (backendExitCallback srv p) := by
  unfold LeavesFree backendExitCallback
  rw [pwhLwlockAcquire_bind]
  refine wp_lock_step rfl fun _ _ => ?_
  refine wp_lock_bind (wp_lock_reads (releaseFirst_ignoresLock _ _) (releaseFirst_noRaise _ _)) ?_
  rintro _ t rfl
  refine wp_lock_step trivial fun _ _ => wp_lock_release nofun nofun ?_
  exact wp_lock_step trivial fun _ _ => wp_lock_ret rfl

/-- The release under the shared lock. -/
theorem pwhReleaseMyBackendEntry_lock : LeavesFree (pwhReleaseMyBackendEntry srv p) := by
  unfold LeavesFree pwhReleaseMyBackendEntry
  rw [pwhLwlockAcquire_bind]
  refine wp_lock_step rfl fun _ _ => ?_
  refine wp_lock_bind (wp_lock_reads (releaseFirst_ignoresLock _ _) (releaseFirst_noRaise _ _)) ?_
  rintro _ t rfl
  exact wp_lock_release_last nofun nofun rfl

/-- An operation at the end of a program that starts without the lock. -/
theorem leavesFree_act {o : Op D} {f : Res o → PgProg D Unit} (ho : o.IgnoresLock)
    (hf : ∀ r, LeavesFree (f r)) : LeavesFree (act o >>= f) := by
  refine wp_lock_step (ho.admits _) fun r _ => ?_
  rw [ho.after]
  exact hf r

/-- Nothing to do. -/
theorem leavesFree_ret : LeavesFree (.ret () : PgProg D Unit) := wp_lock_ret rfl

/-- One after the other. -/
theorem LeavesFree.bind {q : PgProg D Unit} {g : Unit → PgProg D Unit} (hq : LeavesFree q)
    (hg : LeavesFree (g ())) : LeavesFree (q >>= g) := by
  refine wp_lock_bind hq ?_
  rintro _ t rfl
  exact hg

/-- A try block that leaves the lock free or, by an error only, as `h`. -/
theorem leavesFree_tryCatch {body handler : PgProg D Unit}
    (hb : (lockContract D).wp false (body.faulty (.raisesHere : Op D) id) (fun _ t => t = .free)
      (fun t => t = h ∨ t = .free) .free)
    (hh : (lockContract D).wp false handler (fun _ t => t = .free) (fun t => t = .free) h)
    (hf : LeavesFree handler) : LeavesFree (pgTryCatch body handler) := by
  refine Contract.wp_catching (Contract.wp_mono hb (fun _ _ _ ht => ht) fun t _ ht => ?_) nofun
  rcases ht with rfl | rfl
  · exact hh
  · exact hf

section Hooks

variable [CDouble D]

/-- A query is recorded without the lock. -/
theorem trackQuery_ignoresLock (be : Nat) (q : QueryDescPtr) :
    (trackQuery srv p be q).All Op.IgnoresLock :=
  (trackQuery_all be q).mono fun _ ho => ho.ignoresLock

/-- The walk that measures does not know of it. -/
theorem pwhCollectPlanstateMetrics_ignoresLock (ps : Option PlanStatePtr) (be n : Nat) :
    (pwhCollectPlanstateMetrics srv ps be n).All Op.IgnoresLock :=
  (pwhCollectPlanstateMetrics_all ps be n).mono fun _ ho => ho.ofTrack.ignoresLock

/-- Its try block holds the lock in the lookup only, and its catch block takes it anew. -/
theorem queryStartHook_lock (q : QueryDescPtr) : LeavesFree (queryStartHook srv p q) := by
  have hcatch : LeavesFree (queryStartCatch srv p) :=
    leavesFree_act (o := .setCurrentQueryDesc none) trivial fun _ => backendExitCallback_lock
  unfold queryStartHook
  refine leavesFree_act trivial fun _ => leavesFree_act trivial fun enabled => ?_
  split
  · refine leavesFree_act trivial fun minCost => ?_
    split
    · exact leavesFree_ret
    · refine leavesFree_act trivial fun initialized => LeavesFree.bind ?_ ?_
      · unfold pgWhen
        split
        · exact leavesFree_act trivial fun _ => leavesFree_act trivial fun _ =>
            leavesFree_act trivial fun _ => leavesFree_act trivial fun _ => leavesFree_ret
        · exact leavesFree_ret
      · refine leavesFree_tryCatch (h := .free) ?_ hcatch hcatch
        unfold queryStartTry
        rw [faulty_bind]
        refine Contract.wp_bind (Contract.wp_mono wp_lock_getMyEntry ?_ fun _ _ ht => .inl ht)
        rintro entry t - rfl
        cases entry with
        | none => exact wp_lock_ret rfl
        | some be =>
          refine Contract.wp_mono (wp_lock_ignored (All.faulty (P := Op.IgnoresLock) trivial
            (trackQuery_ignoresLock be q))) (fun _ _ _ ht => ht) fun _ _ ht => .inl ht
  · exact leavesFree_ret

/-- The exclusive section of `query_end_hook`. -/
theorem wp_lock_finishQuery (be : Nat) (q : QueryDescPtr) :
    (lockContract D).wp false ((finishQuery srv be q).faulty (.raisesHere : Op D) id)
      (fun _ t => t = .free) (fun t => t = ⟨true, 0⟩ ∨ t = .free) .free := by
  unfold finishQuery
  rw [pwhLwlockAcquire_bind]
  refine wp_lock_fault (fun _ => .inr rfl) rfl fun _ _ => ?_
  rw [pwhIsBackendEntryActive_bind]
  refine wp_lock_fault (fun _ => .inl rfl) trivial fun pid _ => ?_
  refine wp_lock_fault_ignored ?_ (.inl rfl) fun _ => ?_
  · unfold pgWhen
    split
    · exact (pwhCollectPlanstateMetrics_ignoresLock _ _ _).bind fun _ =>
        pwhReleaseBackendEntryUnlocked_ignoresLock be
    · trivial
  · refine wp_lock_fault_release (fun _ => .inl rfl) nofun ?_
    exact wp_lock_fault (f := .ret) (o := .setCurrentQueryDesc none) (fun _ => .inr rfl) trivial
      fun _ _ => wp_lock_ret rfl

omit [CDouble D] in
/-- Its catch block releases what may still be held. -/
theorem wp_lock_queryEndCatch (q : QueryDescPtr) (hh : h = ⟨true, 0⟩ ∨ h = .free) :
    (lockContract D).wp false (queryEndCatch q : PgProg D Unit) (fun _ t => t = .free)
      (fun t => t = .free) h := by
  unfold queryEndCatch
  refine wp_lock_step trivial fun _ _ => wp_lock_step (o := .setCurrentQueryDesc none)
    trivial fun _ _ => ?_
  rcases hh with rfl | rfl
  · exact wp_lock_release_last nofun nofun rfl
  · refine wp_lock_step (o := .lwLockRelease) (f := fun held => if held then .ret () else .raise)
      trivial fun held hans => ?_
    obtain rfl : held = false := hans
    exact Contract.seq_raise fun _ => rfl

/-- The exclusive section may be left by an error, and then the catch block gives the lock back. -/
theorem queryEndHook_lock (q : QueryDescPtr) : LeavesFree (queryEndHook srv p q) := by
  unfold queryEndHook
  refine leavesFree_act trivial fun enabled => leavesFree_act trivial fun initialized =>
    LeavesFree.bind ?_ (leavesFree_act (f := .ret) (o := .standardExecutorEnd q) trivial
      fun _ => leavesFree_ret)
  unfold pgWhen
  split
  · refine leavesFree_tryCatch (h := ⟨true, 0⟩) ?_ (wp_lock_queryEndCatch q (.inl rfl))
      (wp_lock_queryEndCatch q (.inr rfl))
    unfold queryEndTry
    rw [faulty_bind]
    refine Contract.wp_bind (Contract.wp_mono wp_lock_getMyEntry ?_ fun _ _ ht => .inr ht)
    rintro entry t - rfl
    cases entry with
    | none => exact wp_lock_ret rfl
    | some be => exact wp_lock_finishQuery be q
  · exact leavesFree_ret

/-! ## 4. Callbacks, readers and the signal handler

A reader takes the lock once more for every entry it looks at, which a shared hold admits.  The
handler of SIGUSR2 runs under whatever hold it finds. -/

omit [CDouble D] in
/-- A callback that is registered twice takes the lock twice, one after the other. -/
theorem callXactCallbacks_lock (event : XactEvent) :
    ∀ n, LeavesFree (callXactCallbacks srv p event n)
  | 0 => leavesFree_ret
  | n + 1 => by
    refine LeavesFree.bind ?_ (callXactCallbacks_lock event n)
    unfold queryCleanupCallback
    split
    · exact leavesFree_ret
    · refine leavesFree_act (o := .setCurrentQueryDesc none) trivial fun _ =>
        leavesFree_act trivial fun enabled => ?_
      split
      · exact pwhReleaseMyBackendEntry_lock
      · exact leavesFree_ret

omit [CDouble D] in
/-- An abort begins with the release of all locks. -/
theorem abortTransaction_lock (event : XactEvent) : LeavesFree (abortTransaction srv p event) :=
  wp_lock_step trivial fun _ _ => leavesFree_act trivial fun n =>
    (callXactCallbacks_lock event n).bind <|
      leavesFree_act (f := .ret) (o := .discardAll) trivial fun _ => leavesFree_ret

omit [CDouble D] in
/-- Every registered callback. -/
theorem callExitCallbacks_lock : ∀ n, LeavesFree (callExitCallbacks srv p n)
  | 0 => leavesFree_ret
  | n + 1 => backendExitCallback_lock.bind (callExitCallbacks_lock n)

omit [CDouble D] in
/-- The end of a process. -/
theorem procExit_lock : LeavesFree (procExit srv p) :=
  leavesFree_act trivial fun n => (callExitCallbacks_lock n).bind <|
    leavesFree_act trivial fun _ => (abortTransaction_lock _).bind <|
      wp_lock_step (f := .ret) (o := .processExit) trivial fun _ _ => leavesFree_ret

section Readers

variable {E : LockHold → Prop}

omit [CDouble D] in
/-- The cleanup takes and releases the lock for each entry, above the hold it runs under. -/
theorem wp_lock_cleanupOrphanedSlots (hex : h.exclusive = false) :
    ∀ k i n, (lockContract D).wp false (cleanupOrphanedSlots srv k i n) (fun _ t => t = h) E h := by
  intro k
  induction k with
  | zero => exact fun _ _ => wp_lock_ret rfl
  | succ k ih =>
    intro i n
    unfold cleanupOrphanedSlots
    refine wp_lock_bind (wp_lock_getBackendEntry hex i) ?_
    rintro _ t ht
    rw [ht]
    rw [pwhIsBackendEntryActive_bind]
    refine wp_lock_step trivial fun pid _ => ?_
    split
    · refine wp_lock_step trivial fun pid _ => wp_lock_step (o := .kill pid .null) trivial
        fun ok _ => ?_
      split
      · exact ih (i + 1) n
      · refine wp_lock_step trivial fun _ _ => wp_lock_step trivial fun _ _ => ?_
        exact ih (i + 1) (n + 1)
    · exact ih (i + 1) n

/-- An entry is printed under that hold. -/
theorem formatEntry_ignoresLock (ver : PgVersion) (be : Nat) (buf : FormatterBuffer) :
    (formatEntry ver be buf : PgProg D FormatterBuffer).All Op.IgnoresLock :=
  formatEntry_all (fun _ ho => ho.ignoresLock) (fun _ => trivial) ver be buf

/-- So is the page, entry by entry. -/
theorem wp_lock_formatEntries (hex : h.exclusive = false) :
    ∀ k i buf, (lockContract D).wp false (formatEntries srv k i buf) (fun _ t => t = h) E h := by
  intro k
  induction k with
  | zero => exact fun _ _ => wp_lock_ret rfl
  | succ k ih =>
    intro i buf
    unfold formatEntries
    refine wp_lock_bind (wp_lock_getBackendEntry hex i) ?_
    rintro _ t ht
    rw [ht]
    refine wp_lock_step trivial fun _ _ => ?_
    rw [pwhIsBackendEntryActive_bind]
    refine wp_lock_step trivial fun pid _ => ?_
    split
    · refine wp_lock_bind (wp_lock_reads (formatEntry_ignoresLock _ i buf)
        (formatEntry_noRaise _ i buf)) ?_
      rintro buf t ht
      rw [ht]
      exact ih (i + 1) buf
    · exact wp_lock_step trivial fun _ _ => ih (i + 1) buf

/-- `metrics_handler`. -/
theorem metricsHandler_lock (palloced : Nat → UInt8) (req : HttpRequest) :
    (lockContract D).wp false (metricsHandler srv palloced req) (fun _ t => t = .free)
      (fun t => t = .free) .free := by
  unfold metricsHandler
  split
  · exact wp_lock_ret rfl
  rw [pwhLwlockAcquire_bind]
  refine wp_lock_step rfl fun _ _ => ?_
  refine wp_lock_bind (wp_lock_cleanupOrphanedSlots rfl _ 0 0) ?_
  rintro _ t rfl
  refine wp_lock_bind (wp_lock_reads (requestBackendMetrics_ignoresLock _ 0 0)
    (requestBackendMetrics_noRaise _ 0 0)) ?_
  rintro _ t rfl
  refine wp_lock_bind (A := fun t => t = ⟨false, 1⟩)
    (wp_lock_bind (wp_lock_formatEntries rfl _ 0 _) ?_) ?_
  · rintro buf t rfl
    exact wp_lock_ret rfl
  · rintro metrics t rfl
    exact wp_lock_release nofun nofun (wp_lock_ret rfl)

/-- The scan holds nothing between two entries. -/
theorem wp_lock_v1StatusLoop :
    ∀ k slotIdx nodeIdx, (lockContract D).wp false (v1StatusLoop srv k slotIdx nodeIdx)
      (fun _ t => t = .free) (fun t => t = .free) .free
  | 0, _, _ => wp_lock_step trivial fun _ _ => wp_lock_ret rfl
  | k + 1, slotIdx, nodeIdx => by
    unfold v1StatusLoop
    refine wp_lock_bind (wp_lock_getBackendEntry rfl _) ?_
    rintro _ t rfl
    refine wp_lock_step trivial fun _ _ => ?_
    refine wp_lock_bind (p := isNodeCounted slotIdx.toNat nodeIdx) (wp_lock_ignored ?_) ?_
    · unfold isNodeCounted
      rw [pwhIsBackendEntryActive_bind]
      refine act_all trivial fun pid => ?_
      split
      · exact act_all trivial fun _ => trivial
      · trivial
    · rintro counted t rfl
      split
      · refine wp_lock_bind (wp_lock_ignored ((sumTotalQueryTime_all _).mono
          fun _ ho => ho.ignoresLock)) ?_
        rintro total t rfl
        refine wp_lock_bind (wp_lock_ignored (pwhFillV1StatusTuple_all (fun _ => trivial) trivial
          trivial trivial total)) ?_
        rintro row t rfl
        exact wp_lock_step trivial fun _ _ => wp_lock_step trivial fun _ _ =>
          wp_lock_ret rfl
      · exact wp_lock_step trivial fun _ _ => wp_lock_step trivial fun _ _ =>
          wp_lock_v1StatusLoop k (slotIdx + 1) 0

/-- `v1_status_f`. -/
theorem v1StatusF_lock :
    (lockContract D).wp false (v1StatusF srv) (fun _ t => t = .free) (fun t => t = .free)
      .free := by
  refine wp_lock_step trivial fun scan _ => ?_
  rcases scan with _ | ⟨slotIdx, nodeIdx⟩
  · refine wp_lock_bind (p := v1StatusFirstCall srv) (A := fun t => t = .free) ?_ ?_
    · unfold v1StatusFirstCall
      rw [pwhLwlockAcquire_bind]
      refine wp_lock_step rfl fun _ _ => ?_
      refine wp_lock_bind (wp_lock_reads (requestBackendMetrics_ignoresLock _ 0 0)
        (requestBackendMetrics_noRaise _ 0 0)) ?_
      rintro _ t rfl
      refine wp_lock_release nofun nofun ?_
      exact wp_lock_step (f := .ret) trivial fun _ _ => wp_lock_ret rfl
    · rintro _ t rfl
      exact wp_lock_v1StatusLoop _ _ _
  · exact wp_lock_v1StatusLoop _ _ _

end Readers

/-- **Every call starts and ends without the lock**, and never waits for itself. -/
theorem Call.program_lock (c : Call D) : LeavesFree (c.program srv p) := by
  cases c with
  | fork enabled minCost =>
    exact leavesFree_act (f := .ret) (o := .fork enabled minCost) trivial fun _ => leavesFree_ret
  | reload enabled minCost =>
    exact leavesFree_act (f := .ret) (o := .reload enabled minCost) trivial fun _ => leavesFree_ret
  | executorStart q => exact queryStartHook_lock q
  | executorEnd q => exact queryEndHook_lock q
  | abort event => exact abortTransaction_lock event
  | commit => exact leavesFree_act trivial fun n => callXactCallbacks_lock _ n
  | abortSub qs =>
    exact wp_lock_step trivial fun _ _ =>
      leavesFree_act (f := .ret) (o := .discard qs) trivial fun _ => leavesFree_ret
  | fetchStatus =>
    refine wp_lock_bind v1StatusF_lock ?_
    rintro _ t rfl
    exact leavesFree_ret
  | scrape req palloced =>
    refine wp_lock_bind (metricsHandler_lock palloced req) ?_
    rintro _ t rfl
    exact leavesFree_ret
  | exit => exact procExit_lock

/-- The handler leaves the hold as it found it. -/
theorem deliverSigusr2_lock :
    (lockContract D).wp false (deliverSigusr2 srv p) (fun _ t => t = h) (fun _ => False) h := by
  refine wp_lock_reads ?_ deliverSigusr2_noRaise
  refine act_all trivial fun _ => Prog.All.bind (Prog.All.catching ?_ trivial) fun _ =>
    act_all (o := .setInSignalHandler false) trivial fun _ => trivial
  unfold pwhSigusr2Handler
  refine act_all trivial fun current => ?_
  cases current with
  | none => trivial
  | some q =>
    dsimp only
    split
    · trivial
    refine (findMySlot_all (fun _ => trivial) _ _).bind fun found => ?_
    cases found with
    | none => trivial
    | some be =>
      exact (pwhCollectPlanstateMetrics_ignoresLock _ be _).bind fun _ =>
        act_all (o := .incPollGeneration be) trivial fun _ => trivial

end Hooks

end Programs

end WhatIsHappening
