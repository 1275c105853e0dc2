/-
# What the hooks, the callbacks and the handlers perform

What is left beside the walks and the readers is upkeep: the lock, the pids, the globals of a
process and what PostgreSQL keeps for it.  None of it touches the query data of a slot.  The second
part looks at the hooks and callbacks as wholes: they signal nobody and show nothing.
-/
import WhatIsHappening.Frame.Readers
import WhatIsHappening.Frame.Walks

namespace WhatIsHappening

open Interleaving Prog

variable {D : Type} {srv : Server D} {p : Pid} {o : Op D} {e : Env D} {s t : State D}
  {r : Res o}

/-! ## 1. Upkeep -/

/-- The operations that neither read nor write the query data of a slot, and track no query: the
lock, the pids, the globals of the process, and PostgreSQL. -/
def Op.IsHousekeeping : Op D → Prop
  | .readCountOfMetrics _ | .writeCountOfMetrics _ _ | .writeQueryStartTime _ _ | .readQueryId _
  | .writeQueryId _ _ | .readQueryText _ | .writeQueryTextByte _ _ _ | .readNode _ _ _
  | .writeNode _ _ _ _ | .setInSignalHandler _ | .readInstrument _ | .emit _ | .fork _ _ => False
  | .setCurrentQueryDesc q => q = none
  | .mark m =>
    match m with
    | .entryReturned _ | .exitScan | .entriesExhausted | .endHookFailed _ => True
    | _ => False
  | _ => True

/-- ...but for those of the initialization and of a failed end hook. -/
def Op.IsUpkeep : Op D → Prop
  | .registerXactCallback | .beforeShmemExit | .mark (.endHookFailed _) => False
  | o => o.IsHousekeeping

/-- Upkeep is housekeeping that goes on after the initialization. -/
theorem Op.IsUpkeep.isHousekeeping {o : Op D} (h : o.IsUpkeep) : o.IsHousekeeping := by
  cases o
  case mark m => cases m <;> trivial
  all_goals first | exact h | exact h.elim

/-- The operations of a search of process `p` for its slot. -/
def Op.OfSearch (p : Pid) : Op D → Prop
  | .readBackendPid _ | .lwLockRelease | .mark (.entryReturned _) | .mark .entriesExhausted => True
  | .writeBackendPid _ v => v = p
  | _ => False

/-- A search is upkeep. -/
theorem Op.OfSearch.isUpkeep {o : Op D} (h : o.OfSearch p) : o.IsUpkeep := by
  cases o
  case mark m => cases m <;> trivial
  all_goals trivial

/-- It never waits. -/
theorem Op.OfSearch.exec_ne_none {o : Op D} (h : o.OfSearch p) (e : Env D) (s : State D) :
    exec srv p o e s ≠ none := by
  cases o
  case lwLockRelease =>
    simp only [exec]
    split <;> exact Option.some_ne_none _
  all_goals first | exact h.elim | exact Option.some_ne_none _

section Housekeeping

/-- A slot is claimed, or none is free; the lock is given back either way. -/
theorem claimFreeSlot_all (shouldCreate : Bool) (free : Nat) :
    (claimFreeSlot p shouldCreate free : PgProg D (Option Nat)).All (Op.OfSearch p) := by
  unfold claimFreeSlot
  split
  · exact act_all rfl fun _ => (pwhLwlockRelease_all trivial).bind fun _ =>
      act_all trivial fun _ => trivial
  · refine (pwhLwlockRelease_all trivial).bind fun _ => Prog.All.bind ?_ fun _ => trivial
    cases shouldCreate
    · trivial
    · exact ⟨trivial, fun _ => trivial⟩

/-- The search for the own slot goes over the table once. -/
theorem searchSlots_all (shouldCreate : Bool) :
    ∀ k i free,
      (searchSlots p shouldCreate k i free : PgProg D (Option Nat)).All (Op.OfSearch p)
  | 0, _, free => claimFreeSlot_all shouldCreate free
  | k + 1, i, free => by
    have hread : ∀ free, (act (.readBackendPid i) >>= fun pid =>
        if pid = p then (pwhLwlockRelease >>= fun _ => returnEntry i)
        else searchSlots p shouldCreate k (i + 1) free :
        PgProg D (Option Nat)).All (Op.OfSearch p) := by
      intro free
      refine act_all trivial fun pid => ?_
      split
      · exact (pwhLwlockRelease_all trivial).bind fun _ => act_all trivial fun _ => trivial
      · exact searchSlots_all shouldCreate k (i + 1) free
    unfold searchSlots
    split
    · refine act_all trivial fun pid => ?_
      split
      · exact searchSlots_all shouldCreate k (i + 1) i
      · exact hread free
    · exact hread free

/-- The lookup is a search under the lock. -/
theorem pwhGetOrCreateMyBackendEntryImpl_all (shouldCreate : Bool) :
    (pwhGetOrCreateMyBackendEntryImpl srv p shouldCreate).All Op.IsUpkeep :=
  act_all trivial fun _ => (searchSlots_all _ _ _ _).mono fun _ h => h.isUpkeep

theorem pwhReleaseBackendEntryUnlocked_all (be : Nat) :
    (pwhReleaseBackendEntryUnlocked be : PgProg D Unit).All Op.IsUpkeep :=
  act_all trivial fun _ => act_all trivial fun _ => trivial

/-- The first slot with the pid is released, if there is one. -/
theorem releaseFirst_all :
    ∀ k i, (releaseFirst p k i : PgProg D Unit).All Op.IsUpkeep
  | 0, _ => trivial
  | k + 1, i => by
    unfold releaseFirst
    refine act_all trivial fun pid => ?_
    split
    · exact pwhReleaseBackendEntryUnlocked_all i
    · exact releaseFirst_all k (i + 1)

theorem pwhReleaseMyBackendEntry_all :
    (pwhReleaseMyBackendEntry srv p).All Op.IsUpkeep :=
  act_all trivial fun _ => (releaseFirst_all _ _).bind fun _ => pwhLwlockRelease_all trivial

/-- The exit of a process releases a slot and forgets its query... -/
theorem backendExitCallback_all : (backendExitCallback srv p).All Op.IsUpkeep :=
  act_all trivial fun _ => (releaseFirst_all _ _).bind fun _ => act_all trivial fun _ =>
    (pwhLwlockRelease_all trivial).bind fun _ => act_all trivial fun _ => trivial

/-- ...and so does an error in the start hook. -/
theorem queryStartCatch_all : (queryStartCatch srv p).All Op.IsUpkeep :=
  act_all (o := .setCurrentQueryDesc none) rfl fun _ => backendExitCallback_all

/-- The try block of the end hook: the upkeep of the slots and the last collection. -/
theorem queryEndTry_all [CDouble D] {P : Op D → Prop} (hupkeep : ∀ o : Op D, o.IsUpkeep → P o)
    (hcollect : ∀ be ps,
      (pwhCollectPlanstateMetrics srv ps be srv.gucs.maxNodesPerQuery).All P) (q : QueryDescPtr) :
    (queryEndTry srv p q).All P := by
  unfold queryEndTry
  refine Prog.All.bind ((pwhGetOrCreateMyBackendEntryImpl_all false).mono hupkeep) fun entry => ?_
  cases entry with
  | none => trivial
  | some be =>
    dsimp only
    unfold finishQuery
    refine act_all (hupkeep _ trivial) fun _ => ?_
    rw [pwhIsBackendEntryActive_bind]
    refine act_all (hupkeep _ trivial) fun pid => Prog.All.bind ?_ fun _ =>
      (pwhLwlockRelease_all (hupkeep _ trivial)).bind fun _ =>
        act_all (hupkeep (.setCurrentQueryDesc none) rfl) fun _ => trivial
    unfold pgWhen
    split
    · exact (hcollect be _).bind fun _ => (pwhReleaseBackendEntryUnlocked_all be).mono hupkeep
    · trivial

/-- The callbacks are registered once for each backend. -/
theorem initializeStateOncePerBackend_all :
    (initializeStateOncePerBackend : PgProg D Unit).All Op.IsHousekeeping :=
  act_all trivial fun _ => act_all trivial fun _ => act_all trivial fun _ =>
    act_all trivial fun _ => trivial

/-- A callback at the end of a transaction; for a parallel worker it returns at once. -/
theorem queryCleanupCallback_all (event : XactEvent) :
    (queryCleanupCallback srv p event).All Op.IsUpkeep := by
  unfold queryCleanupCallback
  split
  · trivial
  · refine act_all (o := .setCurrentQueryDesc none) rfl fun _ => act_all trivial fun enabled => ?_
    split
    · exact pwhReleaseMyBackendEntry_all
    · trivial

theorem callXactCallbacks_all (event : XactEvent) :
    ∀ n, (callXactCallbacks srv p event n).All Op.IsUpkeep
  | 0 => trivial
  | n + 1 => (queryCleanupCallback_all event).bind fun _ => callXactCallbacks_all event n

/-- An abort gives the lock back before it runs the callbacks. -/
theorem abortTransaction_all (event : XactEvent) :
    (abortTransaction srv p event).All Op.IsUpkeep :=
  act_all trivial fun _ => act_all trivial fun n => (callXactCallbacks_all event n).bind fun _ =>
    act_all trivial fun _ => trivial

theorem commitTransaction_all : (commitTransaction srv p).All Op.IsUpkeep :=
  act_all trivial fun n => callXactCallbacks_all _ n

theorem abortSubTransaction_all (qs : List QueryDescPtr) :
    (abortSubTransaction qs : PgProg D Unit).All Op.IsUpkeep :=
  act_all trivial fun _ => act_all trivial fun _ => trivial

theorem callExitCallbacks_all : ∀ n, (callExitCallbacks srv p n).All Op.IsUpkeep
  | 0 => trivial
  | n + 1 => backendExitCallback_all.bind fun _ => callExitCallbacks_all n

/-- Leaving a process is upkeep as well: its callbacks and an abort. -/
theorem procExit_all : (procExit srv p).All Op.IsUpkeep :=
  act_all trivial fun n => (callExitCallbacks_all n).bind fun _ => act_all trivial fun _ =>
    (abortTransaction_all _).bind fun _ => act_all trivial fun _ => trivial

/-- The handler of SIGUSR2 looks for its slot without the lock. -/
theorem findMySlot_all {P : Op D → Prop} (h : ∀ i, P (.readBackendPid i)) :
    ∀ k i, (findMySlot p k i).All P
  | 0, _ => trivial
  | k + 1, i => by
    unfold findMySlot
    refine act_all (h i) fun pid => ?_
    split
    · trivial
    · exact findMySlot_all h k (i + 1)

theorem findMySlot_noRaise : ∀ k i, (findMySlot p k i : PgProg D (Option Nat)).NoRaise
  | 0, _ => trivial
  | k + 1, i => by
    unfold findMySlot
    refine act_noRaise fun pid => ?_
    split
    · trivial
    · exact findMySlot_noRaise k (i + 1)

/-- A request to measure signals the backends with a query. -/
theorem requestBackendMetrics_all :
    ∀ k i n, (requestBackendMetrics k i n : PgProg D Nat).All Op.IsUpkeep
  | 0, _, _ => trivial
  | k + 1, i, n => by
    unfold requestBackendMetrics
    refine act_all trivial fun pid => ?_
    split
    · refine act_all trivial fun pid => act_all (o := .kill pid .SIGUSR2) trivial fun ok => ?_
      split <;> exact requestBackendMetrics_all k (i + 1) _
    · exact requestBackendMetrics_all k (i + 1) n

theorem pwhGetBackendEntry_housekeeping (index : Nat) :
    (pwhGetBackendEntry srv index).All Op.IsUpkeep := by
  unfold pwhGetBackendEntry
  split
  · trivial
  · exact act_all trivial fun _ => (pwhLwlockRelease_all trivial).bind fun _ => trivial

/-- A slot whose process is gone is released by the scraper. -/
theorem cleanupOrphanedSlots_all :
    ∀ k i n, (cleanupOrphanedSlots srv k i n).All Op.IsUpkeep
  | 0, _, _ => trivial
  | k + 1, i, n => by
    unfold cleanupOrphanedSlots
    refine (pwhGetBackendEntry_housekeeping i).bind fun _ => ?_
    rw [pwhIsBackendEntryActive_bind]
    refine act_all trivial fun pid => ?_
    split
    · refine act_all trivial fun pid => act_all (o := .kill pid .null) trivial fun ok => ?_
      split
      · exact cleanupOrphanedSlots_all k (i + 1) n
      · exact (pwhReleaseBackendEntryUnlocked_all i).bind fun _ =>
          cleanupOrphanedSlots_all k (i + 1) (n + 1)
    · exact cleanupOrphanedSlots_all k (i + 1) n

/-- The first call of the view asks the backends to measure. -/
theorem v1StatusFirstCall_all : (v1StatusFirstCall srv).All Op.IsUpkeep :=
  act_all trivial fun _ => (requestBackendMetrics_all _ _ _).bind fun _ =>
    (pwhLwlockRelease_all trivial).bind fun _ => act_all trivial fun _ => trivial

variable [CDouble D]

/-- The operations of a reader. -/
theorem v1StatusF_all : (v1StatusF srv).All fun o => o.IsUpkeep ∨ o.OfReader := by
  refine act_all (.inl trivial) fun scan => ?_
  have hloop : ∀ k slotIdx nodeIdx, (v1StatusLoop srv k slotIdx nodeIdx).All fun o =>
      o.IsUpkeep ∨ o.OfReader := fun k slotIdx nodeIdx =>
    (v1StatusLoop_all k slotIdx nodeIdx).mono fun _ h => .inr h
  rcases scan with _ | ⟨slotIdx, nodeIdx⟩
  · exact (v1StatusFirstCall_all.mono fun _ h => .inl h).bind fun _ => hloop _ _ _
  · exact hloop _ _ _

/-- The endpoint tidies up, asks the backends to measure, and shows the slots. -/
theorem metricsHandler_all (palloced : Nat → UInt8) (req : HttpRequest) :
    (metricsHandler srv palloced req).All fun o => o.IsUpkeep ∨ o.OfReader := by
  unfold metricsHandler
  split
  · trivial
  refine act_all (.inl trivial) fun _ => ?_
  refine ((cleanupOrphanedSlots_all _ _ _).mono fun _ h => .inl h).bind fun _ => ?_
  refine ((requestBackendMetrics_all _ _ _).mono fun _ h => .inl h).bind fun _ => ?_
  have hformat : (pwhFormatOpenmetrics srv palloced).All fun o => o.IsUpkeep ∨ o.OfReader :=
    ((formatEntries_all _ _ _).mono fun _ h => .inr h).bind fun _ => trivial
  exact hformat.bind fun _ => (pwhLwlockRelease_all (.inl trivial)).bind fun _ => trivial

/-- What is delivered takes up the error of its handler. -/
theorem deliverSigusr2_noRaise : (deliverSigusr2 srv p).NoRaise :=
  act_noRaise fun _ => Prog.NoRaise.bind (Prog.NoRaise.catching trivial) fun _ _ => trivial

end Housekeeping

/-! ## 2. Hooks and callbacks as wholes -/

/-- The operations of hooks and callbacks: nobody is signalled, nothing is shown, and of a node
only its magic is read. -/
def Op.OfHook : Op D → Prop
  | .pollBackendPid _ _ | .kill _ _ | .readCountOfMetrics _ | .readQueryId _ | .readQueryText _
  | .getScan | .setScan _ | .emit _ | .mark (.visitEntry _) | .mark .leaveEntry
  | .setInSignalHandler _ => False
  | .readNode _ _ f => f = .magic
  | _ => True

section HookOps

variable {P : Op D → Prop}

/-- A search is a part of hooks. -/
theorem Op.OfSearch.ofHook {o : Op D} (h : o.OfSearch p) : o.OfHook := by
  cases o
  case mark m => cases m <;> trivial
  all_goals trivial

theorem pwhGetOrCreateMyBackendEntryImpl_ofHook (shouldCreate : Bool) :
    (pwhGetOrCreateMyBackendEntryImpl srv p shouldCreate).All Op.OfHook :=
  act_all trivial fun _ => (searchSlots_all _ _ _ _).mono fun _ h => h.ofHook

theorem releaseFirst_ofHook : ∀ k i, (releaseFirst p k i : PgProg D Unit).All Op.OfHook
  | 0, _ => trivial
  | k + 1, i => by
    unfold releaseFirst
    refine act_all trivial fun pid => ?_
    split
    · exact act_all trivial fun _ => act_all trivial fun _ => trivial
    · exact releaseFirst_ofHook k (i + 1)

theorem backendExitCallback_ofHook : (backendExitCallback srv p).All Op.OfHook :=
  act_all trivial fun _ => (releaseFirst_ofHook _ _).bind fun _ => act_all trivial fun _ =>
    (pwhLwlockRelease_all trivial).bind fun _ => act_all trivial fun _ => trivial

/-- The callbacks of a transaction... -/
theorem callXactCallbacks_ofHook (event : XactEvent) :
    ∀ n, (callXactCallbacks srv p event n).All Op.OfHook
  | 0 => trivial
  | n + 1 => by
    refine Prog.All.bind (p := queryCleanupCallback srv p event) ?_ fun _ =>
      callXactCallbacks_ofHook event n
    unfold queryCleanupCallback
    split
    · trivial
    · refine act_all trivial fun _ => act_all trivial fun enabled => ?_
      split
      · exact act_all trivial fun _ => (releaseFirst_ofHook _ _).bind fun _ =>
          pwhLwlockRelease_all trivial
      · trivial

theorem abortTransaction_ofHook (event : XactEvent) :
    (abortTransaction srv p event).All Op.OfHook :=
  act_all trivial fun _ => act_all trivial fun n => (callXactCallbacks_ofHook event n).bind
    fun _ => act_all trivial fun _ => trivial

theorem callExitCallbacks_ofHook : ∀ n, (callExitCallbacks srv p n).All Op.OfHook
  | 0 => trivial
  | n + 1 => backendExitCallback_ofHook.bind fun _ => callExitCallbacks_ofHook n

/-- ...and of an exit. -/
theorem procExit_ofHook : (procExit srv p).All Op.OfHook :=
  act_all trivial fun n => (callExitCallbacks_ofHook n).bind fun _ => act_all trivial fun _ =>
    (abortTransaction_ofHook _).bind fun _ => act_all trivial fun _ => trivial

variable [CDouble D]

/-- The end hook measures once more. -/
theorem pwhCollectPlanstateMetrics_ofHook (ps : Option PlanStatePtr) (be maxNodes : Nat) :
    (pwhCollectPlanstateMetrics srv ps be maxNodes).All Op.OfHook :=
  pwhCollectPlanstateMetrics_performs (fun _ => trivial) trivial trivial (fun _ => rfl)
    (fun _ _ => trivial) (fun _ => trivial) (fun _ _ _ _ => trivial) ps maxNodes

/-- A query is recorded: the walk, and the other fields of the slot. -/
theorem trackQuery_ofHook (be : Nat) (q : QueryDescPtr) :
    (trackQuery srv p be q).All Op.OfHook := by
  unfold trackQuery
  refine act_all trivial fun _ => Prog.All.bind ?_ fun numNodes => ?_
  · unfold pwhRememberPlanstateTreeAsMetricStructure
    split
    · trivial
    · refine act_all trivial fun stackFrames => (walkPlanstateRecursive_all trivial
        (fun ps parentId counter => ?_) _ _ _ _).bind fun _ => trivial
      unfold topologyVisitor
      split
      · trivial
      · exact act_all trivial fun _ => (writeNodeFields_all _ fun _ _ => trivial).bind
          fun _ => trivial
  · refine act_all trivial fun _ => act_all trivial fun now => act_all trivial fun _ => ?_
    refine Prog.All.bind ?_ fun queryId => act_all trivial fun _ => Prog.All.bind ?_ fun _ =>
      ⟨trivial, fun _ => trivial⟩
    · unfold getQueryId
      split
      · exact act_all trivial fun _ => trivial
      · trivial
    · unfold copyQueryText
      split
      · exact writeQueryText_all _ fun _ _ => trivial
      · exact ⟨trivial, fun _ => trivial⟩

/-- **The start hook signals nobody and shows nothing**... -/
theorem queryStartHook_ofHook (q : QueryDescPtr) : (queryStartHook srv p q).All Op.OfHook := by
  unfold queryStartHook
  refine act_all trivial fun _ => act_all trivial fun enabled => ?_
  split
  · refine act_all trivial fun minCost => ?_
    split
    · trivial
    · refine act_all trivial fun initialized => Prog.All.bind ?_ fun _ => ?_
      · unfold pgWhen
        split
        · exact act_all trivial fun _ => act_all trivial fun _ => act_all trivial fun _ =>
            act_all trivial fun _ => trivial
        · trivial
      · refine Prog.All.catching (Prog.All.faulty trivial ?_)
          (act_all trivial fun _ => backendExitCallback_ofHook)
        refine (pwhGetOrCreateMyBackendEntryImpl_ofHook true).bind fun entry => ?_
        cases entry with
        | none => trivial
        | some be => exact trackQuery_ofHook be q
  · trivial

/-- ...and neither does the end hook. -/
theorem queryEndHook_ofHook (q : QueryDescPtr) : (queryEndHook srv p q).All Op.OfHook := by
  unfold queryEndHook
  refine act_all trivial fun enabled => act_all trivial fun initialized =>
    Prog.All.bind ?_ fun _ => act_all trivial fun _ => trivial
  unfold pgWhen
  split
  · refine Prog.All.catching (Prog.All.faulty trivial ?_)
      (act_all trivial fun _ => act_all trivial fun _ => pwhLwlockRelease_all trivial)
    refine (pwhGetOrCreateMyBackendEntryImpl_ofHook false).bind fun entry => ?_
    cases entry with
    | none => trivial
    | some be =>
      dsimp only
      unfold finishQuery
      refine act_all trivial fun _ => ?_
      rw [pwhIsBackendEntryActive_bind]
      refine act_all trivial fun pid => Prog.All.bind ?_ fun _ =>
        (pwhLwlockRelease_all trivial).bind fun _ => act_all trivial fun _ => trivial
      unfold pgWhen
      split
      · exact (pwhCollectPlanstateMetrics_ofHook _ be _).bind fun _ =>
          act_all trivial fun _ => act_all trivial fun _ => trivial
      · trivial
  · trivial

/-- Everything but the two readers. -/
def Call.IsHook : Call D → Prop
  | .fetchStatus | .scrape _ _ => False
  | _ => True

/-- The same of every call but those of the readers. -/
theorem Call.program_ofHook {c : Call D} (hc : c.IsHook) : (c.program srv p).All Op.OfHook := by
  cases c with
  | fork enabled minCost => exact ⟨trivial, fun _ => trivial⟩
  | reload enabled minCost => exact ⟨trivial, fun _ => trivial⟩
  | executorStart q => exact queryStartHook_ofHook q
  | executorEnd q => exact queryEndHook_ofHook q
  | abort event => exact abortTransaction_ofHook event
  | commit => exact act_all trivial fun n => callXactCallbacks_ofHook _ n
  | abortSub qs => exact act_all trivial fun _ => act_all trivial fun _ => trivial
  | fetchStatus => exact hc.elim
  | scrape req palloced => exact hc.elim
  | exit => exact procExit_ofHook

end HookOps

end WhatIsHappening
