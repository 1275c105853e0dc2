/-
# Every access is in the table

Which slot an operation goes to is decided by loop counters and by what the searches return, never
by what memory holds.  So it is a property of the programs alone, whatever they are answered, that
each of them keeps to the slots of the table, and that it writes below the limits of the text and
of the node array.
-/
import WhatIsHappening.Slots.Apart

namespace WhatIsHappening

open Interleaving Prog

variable {D : Type}

/-! ## 1. Which slots are accessed -/

/-- The slot that an operation reads or writes. -/
def Op.slotIdx : Op D → Option Nat
  | .readBackendPid i | .pollBackendPid i _ | .writeBackendPid i _ | .incPollGeneration i
  | .readCountOfMetrics i | .writeCountOfMetrics i _ | .writeQueryStartTime i _ | .readQueryId i
  | .writeQueryId i _ | .readQueryText i | .writeQueryTextByte i _ _ | .readNode i _ _
  | .writeNode i _ _ _ => some i
  | _ => none

/-- It is one of the first `n`. -/
def Op.SlotBelow (n : Nat) (o : Op D) : Prop := ∀ i, o.slotIdx = some i → i < n

/-- An operation on no slot. -/
theorem slotBelow_of_none {n : Nat} {o : Op D} (h : o.slotIdx = none) : o.SlotBelow n := by
  intro i hi
  rw [h] at hi
  cases hi

theorem slotBelow_of_some {n i : Nat} {o : Op D} (h : o.slotIdx = some i) (hi : i < n) :
    o.SlotBelow n := by
  intro j hj
  obtain rfl : i = j := Option.some.inj (h.symm.trans hj)
  exact hi

/-- What `trackQuery` does goes to the slot of its entry. -/
theorem Op.OfTrack.slotBelow {n be : Nat} {o : Op D} (h : o.OfTrack be) (hbe : be < n) :
    o.SlotBelow n := by
  cases o
  case mark m => exact slotBelow_of_none rfl
  all_goals first
    | exact slotBelow_of_none rfl
    | exact h.elim
    | (cases h; exact slotBelow_of_some rfl hbe)

/-! ## 2. The loops over the table

`k` slots from `i` on are left, so `i + k` never passes the length of the table; that is the whole
invariant of every loop.  What a search hands on is the index it stopped at, and its callers go to
that slot and to no other. -/

section Searches

variable {srv : Server D} {p : Pid} {n : Nat}

/-- The loop variable `free_slot_idx`: a slot that was seen, or none. -/
def FreeBelow (n free : Nat) : Prop := free ≠ NO_FREE_SLOT → free < n

/-- The claim goes to the slot that was remembered as free. -/
theorem claimFreeSlot_slotBelow (shouldCreate : Bool) {free : Nat} (h : FreeBelow n free) :
    (claimFreeSlot p shouldCreate free : PgProg D (Option Nat)).All (Op.SlotBelow n) := by
  unfold claimFreeSlot
  split
  · rename_i hc
    exact act_all (slotBelow_of_some rfl (h hc.2)) fun _ =>
      (pwhLwlockRelease_all (slotBelow_of_none rfl)).bind fun _ =>
        act_all (slotBelow_of_none rfl) fun _ => trivial
  · refine (pwhLwlockRelease_all (slotBelow_of_none rfl)).bind fun _ => Prog.All.bind ?_
      fun _ => trivial
    cases shouldCreate
    · trivial
    · exact ⟨slotBelow_of_none rfl, fun _ => trivial⟩

/-- The search looks at every slot once or twice and claims one it has seen. -/
theorem searchSlots_slotBelow (shouldCreate : Bool) :
    ∀ k i free, i + k ≤ n → FreeBelow n free →
      (searchSlots p shouldCreate k i free : PgProg D (Option Nat)).All (Op.SlotBelow n)
  | 0, _, _, _, hfree => claimFreeSlot_slotBelow shouldCreate hfree
  | k + 1, i, free, hik, hfree => by
    have hi : i < n := by omega
    have hread : ∀ free, FreeBelow n free → (act (.readBackendPid i) >>= fun pid =>
        if pid = p then (pwhLwlockRelease >>= fun _ => returnEntry i)
        else searchSlots p shouldCreate k (i + 1) free :
        PgProg D (Option Nat)).All (Op.SlotBelow n) := by
      -- the second look at the same slot, in whichever branch it comes
      intro free hfree
      refine act_all (slotBelow_of_some rfl hi) fun pid => ?_
      split
      · exact (pwhLwlockRelease_all (slotBelow_of_none rfl)).bind fun _ =>
          act_all (slotBelow_of_none rfl) fun _ => trivial
      · exact searchSlots_slotBelow shouldCreate k (i + 1) free (by omega) hfree
    unfold searchSlots
    split
    · refine act_all (slotBelow_of_some rfl hi) fun pid => ?_
      split
      · exact searchSlots_slotBelow shouldCreate k (i + 1) i (by omega) fun _ => hi
      · exact hread free hfree
    · exact hread free hfree

/-- A program that returns `a` behind an operation returns it for some answer. -/
theorem act_returns {α : Type} {o : Op D} {f : Res o → PgProg D α} {a : α}
    (h : (act o >>= f).Returns a) : ∃ r, (f r).Returns a := h

theorem pwhLwlockRelease_returns {α : Type} {f : Unit → PgProg D α} {a : α}
    (h : (pwhLwlockRelease >>= f).Returns a) : (f ()).Returns a := by
  obtain ⟨u, -, h⟩ := returns_bind.mp h
  exact h

/-- An entry that is claimed is in the table. -/
theorem claimFreeSlot_returns {shouldCreate : Bool} {free be : Nat} (hfree : FreeBelow n free)
    (h : (claimFreeSlot p shouldCreate free : PgProg D (Option Nat)).Returns (some be)) :
    be < n := by
  unfold claimFreeSlot at h
  split at h
  · rename_i hc
    obtain ⟨_, h⟩ := h
    obtain ⟨_, h⟩ := pwhLwlockRelease_returns h
    cases h
    exact hfree hc.2
  · have h := pwhLwlockRelease_returns h
    obtain ⟨_, -, h⟩ := returns_bind.mp h
    cases h

/-- ...and so is one that is found. -/
theorem searchSlots_returns {shouldCreate : Bool} {be : Nat} :
    ∀ k i free, i + k ≤ n → FreeBelow n free →
      (searchSlots p shouldCreate k i free : PgProg D (Option Nat)).Returns (some be) → be < n
  | 0, _, _, _, hfree, h => claimFreeSlot_returns hfree h
  | k + 1, i, free, hik, hfree, h => by
    have hi : i < n := by omega
    have hread : ∀ free, FreeBelow n free → ∀ pid : Pid, (if pid = p then
        (pwhLwlockRelease >>= fun _ => returnEntry i)
        else searchSlots p shouldCreate k (i + 1) free :
        PgProg D (Option Nat)).Returns (some be) → be < n := by
      intro free hfree pid h
      split at h
      · obtain ⟨_, h⟩ := pwhLwlockRelease_returns h
        cases h
        exact hi
      · exact searchSlots_returns k (i + 1) free (by omega) hfree h
    unfold searchSlots at h
    split at h
    · obtain ⟨pid, h⟩ := act_returns h
      split at h
      · exact searchSlots_returns k (i + 1) i (by omega) (fun _ => hi) h
      · obtain ⟨pid', h⟩ := act_returns h
        exact hread free hfree pid' h
    · obtain ⟨pid, h⟩ := act_returns h
      exact hread free hfree pid h

theorem freeBelow_none : FreeBelow n NO_FREE_SLOT := fun h => absurd rfl h

/-- `pwh_get_or_create_my_backend_entry_impl`, on the whole table. -/
theorem pwhGetOrCreateMyBackendEntryImpl_slotBelow (shouldCreate : Bool) :
    (pwhGetOrCreateMyBackendEntryImpl srv p shouldCreate).All
      (Op.SlotBelow srv.gucs.maxTrackedQueries) :=
  act_all (slotBelow_of_none rfl) fun _ =>
    searchSlots_slotBelow shouldCreate _ 0 _ (by omega) freeBelow_none

/-- The entry a process gets is one of the table, whatever the table holds. -/
theorem pwhGetOrCreateMyBackendEntryImpl_returns {shouldCreate : Bool} {be : Nat}
    (h : (pwhGetOrCreateMyBackendEntryImpl srv p shouldCreate).Returns (some be)) :
    be < srv.gucs.maxTrackedQueries := by
  obtain ⟨_, h⟩ := h
  exact searchSlots_returns _ 0 _ (by omega) freeBelow_none h

/-- A release goes to the slot it is called for. -/
theorem pwhReleaseBackendEntryUnlocked_slotBelow {be : Nat} (hbe : be < n) :
    (pwhReleaseBackendEntryUnlocked be : PgProg D Unit).All (Op.SlotBelow n) :=
  act_all (slotBelow_of_some rfl hbe) fun _ => act_all (slotBelow_of_some rfl hbe) fun _ => trivial

/-- The exit callback releases a slot it has looked at. -/
theorem releaseFirst_slotBelow :
    ∀ k i, i + k ≤ n → (releaseFirst p k i : PgProg D Unit).All (Op.SlotBelow n)
  | 0, _, _ => trivial
  | k + 1, i, hik => by
    have hi : i < n := by omega
    unfold releaseFirst
    refine act_all (slotBelow_of_some rfl hi) fun pid => ?_
    split
    · exact pwhReleaseBackendEntryUnlocked_slotBelow hi
    · exact releaseFirst_slotBelow k (i + 1) (by omega)

/-- The second read before `kill` is of the slot of the first. -/
theorem requestBackendMetrics_slotBelow :
    ∀ k i count, i + k ≤ n → (requestBackendMetrics k i count : PgProg D Nat).All (Op.SlotBelow n)
  | 0, _, _, _ => trivial
  | k + 1, i, count, hik => by
    have hi : i < n := by omega
    unfold requestBackendMetrics
    refine act_all (slotBelow_of_some rfl hi) fun pid => ?_
    split
    · refine act_all (slotBelow_of_some rfl hi) fun pid =>
        act_all (o := .kill pid .SIGUSR2) (slotBelow_of_none rfl) fun ok => ?_
      split <;> exact requestBackendMetrics_slotBelow k (i + 1) _ (by omega)
    · exact requestBackendMetrics_slotBelow k (i + 1) count (by omega)

/-- `pwh_get_backend_entry` computes an address and reads nothing. -/
theorem pwhGetBackendEntry_slotBelow (index : Nat) :
    (pwhGetBackendEntry srv index).All (Op.SlotBelow n) := by
  unfold pwhGetBackendEntry
  split
  · trivial
  · exact act_all (slotBelow_of_none rfl) fun _ =>
      (pwhLwlockRelease_all (slotBelow_of_none rfl)).bind fun _ => trivial

/-- The cleanup releases a slot it has looked at. -/
theorem cleanupOrphanedSlots_slotBelow :
    ∀ k i count, i + k ≤ n → (cleanupOrphanedSlots srv k i count).All (Op.SlotBelow n)
  | 0, _, _, _ => trivial
  | k + 1, i, count, hik => by
    have hi : i < n := by omega
    unfold cleanupOrphanedSlots
    refine (pwhGetBackendEntry_slotBelow i).bind fun _ => ?_
    rw [pwhIsBackendEntryActive_bind]
    refine act_all (slotBelow_of_some rfl hi) fun pid => ?_
    split
    · refine act_all (slotBelow_of_some rfl hi) fun pid =>
        act_all (o := .kill pid .null) (slotBelow_of_none rfl) fun ok => ?_
      split
      · exact cleanupOrphanedSlots_slotBelow k (i + 1) count (by omega)
      · exact (pwhReleaseBackendEntryUnlocked_slotBelow hi).bind fun _ =>
          cleanupOrphanedSlots_slotBelow k (i + 1) (count + 1) (by omega)
    · exact cleanupOrphanedSlots_slotBelow k (i + 1) count (by omega)

/-- The slot the signal handler finds is one of the table. -/
theorem findMySlot_returns {be : Nat} :
    ∀ k i, i + k ≤ n → (findMySlot p k i : PgProg D (Option Nat)).Returns (some be) → be < n
  | 0, _, _, h => by cases h
  | k + 1, i, hik, h => by
    unfold findMySlot at h
    obtain ⟨pid, h⟩ := act_returns h
    split at h
    · cases h
      omega
    · exact findMySlot_returns k (i + 1) (by omega) h

/-- It looks at slots of the table until then. -/
theorem findMySlot_slotBelow :
    ∀ k i, i + k ≤ n → (findMySlot p k i : PgProg D (Option Nat)).All (Op.SlotBelow n)
  | 0, _, _ => trivial
  | k + 1, i, hik => by
    unfold findMySlot
    refine act_all (slotBelow_of_some rfl (by omega)) fun pid => ?_
    split
    · trivial
    · exact findMySlot_slotBelow k (i + 1) (by omega)

end Searches

/-! ## 3. The readers

Both readers go through the table from its first slot on; the function scan resumes where its last
call left it, which is why the bound is on its index and not on the number of its rounds. -/

section Programs

variable [CDouble D] {srv : Server D} {p : Pid} {n : Nat}

/-- The sum of the times is over the nodes of one slot. -/
theorem sumTotalQueryTime_slotBelow {be : Nat} (hbe : be < n) :
    (sumTotalQueryTime be : PgProg D D).All (Op.SlotBelow n) := by
  unfold sumTotalQueryTime
  refine forNodes_all (slotBelow_of_some rfl hbe) (fun j total => ?_) _ _ _
  exact act_all (slotBelow_of_some rfl hbe) fun _ => trivial

/-- What is read of a slot is read through its own entry. -/
theorem readEntry_slotBelow {be : Nat} (hbe : be < n) (ver : PgVersion) (buf : FormatterBuffer) :
    (readEntry ver be buf : PgProg D _).All (Op.SlotBelow n) := by
  have hread : ∀ o : Op D, o.slotIdx = some be → o.SlotBelow n :=
    fun o ho => slotBelow_of_some ho hbe
  unfold readEntry formatterAppendQueryInfo
  refine Prog.All.bind (act_all (hread _ rfl) fun _ => act_all (hread _ rfl) fun _ =>
    act_all (hread _ rfl) fun _ => trivial) fun (buf, reading) => ?_
  refine act_all (hread _ rfl) fun queryId => (sumTotalQueryTime_slotBelow hbe).bind
    fun total => ?_
  refine Prog.All.bind (forNodes_all (hread _ rfl) (fun j acc => ?_) _ _ _) fun _ => trivial
  rw [pwhValidateNodeMagic_bind]
  refine act_all (hread _ rfl) fun magic => ?_
  split
  · exact formatterAppendAllNodeMetrics_all (fun _ => hread _ rfl) ver queryId total _
  · trivial

/-- The endpoint's page, slot by slot. -/
theorem formatEntries_slotBelow :
    ∀ k i buf, i + k ≤ n → (formatEntries srv k i buf).All (Op.SlotBelow n)
  | 0, _, _, _ => trivial
  | k + 1, i, buf, hik => by
    have hi : i < n := by omega
    unfold formatEntries
    refine (pwhGetBackendEntry_slotBelow i).bind fun _ => act_all (slotBelow_of_none rfl)
      fun _ => ?_
    rw [pwhIsBackendEntryActive_bind]
    refine act_all (slotBelow_of_some rfl hi) fun pid => ?_
    split
    · refine Prog.All.bind ?_ fun buf => formatEntries_slotBelow k (i + 1) buf (by omega)
      rw [formatEntry_eq]
      refine (readEntry_slotBelow hi _ buf).bind fun _ => ?_
      exact act_all (slotBelow_of_none rfl) fun _ => trivial
    · exact act_all (slotBelow_of_none rfl) fun _ =>
        formatEntries_slotBelow k (i + 1) buf (by omega)

/-- The rounds of the function scan; the index is a `uint32`, and 256 slots are far below its
end. -/
theorem v1StatusLoop_slotBelow (hn : n ≤ 256) :
    ∀ k (slotIdx nodeIdx : UInt32), slotIdx.toNat + k ≤ n ∨ k = 0 →
      (v1StatusLoop srv k slotIdx nodeIdx).All (Op.SlotBelow n)
  | 0, _, _, _ => act_all (slotBelow_of_none rfl) fun _ => trivial
  | k + 1, slotIdx, nodeIdx, hk => by
    have hi : slotIdx.toNat < n := by omega
    have hread : ∀ o : Op D, o.slotIdx = some slotIdx.toNat → o.SlotBelow n :=
      fun o ho => slotBelow_of_some ho hi
    have hnext : (slotIdx + 1).toNat = slotIdx.toNat + 1 := by
      rw [UInt32.toNat_add, UInt32.toNat_one]
      exact Nat.mod_eq_of_lt (by omega)
    unfold v1StatusLoop
    refine (pwhGetBackendEntry_slotBelow _).bind fun _ => act_all (slotBelow_of_none rfl)
      fun _ => ?_
    refine Prog.All.bind (p := isNodeCounted slotIdx.toNat nodeIdx) ?_ fun counted => ?_
    · unfold isNodeCounted
      rw [pwhIsBackendEntryActive_bind]
      refine act_all (hread _ rfl) fun pid => ?_
      split
      · exact act_all (hread _ rfl) fun _ => trivial
      · trivial
    · split
      · exact (sumTotalQueryTime_slotBelow hi).bind fun total =>
          (pwhFillV1StatusTuple_all (fun _ => hread _ rfl) (hread _ rfl) (hread _ rfl)
            (hread _ rfl) total).bind fun row => act_all (slotBelow_of_none rfl) fun _ =>
              act_all (slotBelow_of_none rfl) fun _ => trivial
      · exact act_all (slotBelow_of_none rfl) fun _ => act_all (slotBelow_of_none rfl) fun _ =>
          v1StatusLoop_slotBelow hn k (slotIdx + 1) 0 (by omega)

/-- `v1_status_f`: a first call or a later one. -/
theorem v1StatusF_slotBelow :
    (v1StatusF srv).All (Op.SlotBelow srv.gucs.maxTrackedQueries) := by
  have hn := srv.gucs.maxTrackedQueries_le
  refine act_all (slotBelow_of_none rfl) fun scan => ?_
  -- the first call asks for fresh numbers before it begins at slot 0
  rcases scan with _ | ⟨slotIdx, nodeIdx⟩
  · refine Prog.All.bind (p := v1StatusFirstCall srv) ?_ fun _ =>
      v1StatusLoop_slotBelow hn _ _ _ (.inl ?_)
    · exact act_all (slotBelow_of_none rfl) fun _ =>
        (requestBackendMetrics_slotBelow _ 0 0 (by omega)).bind fun _ =>
          (pwhLwlockRelease_all (slotBelow_of_none rfl)).bind fun _ =>
            act_all (slotBelow_of_none rfl) fun _ => trivial
    · rw [UInt32.toNat_zero, Nat.zero_add]
  · exact v1StatusLoop_slotBelow hn _ _ _ (by omega)

/-- `metrics_handler`: the cleanup, the requests and the page. -/
theorem metricsHandler_slotBelow (palloced : Nat → UInt8) (req : HttpRequest) :
    (metricsHandler srv palloced req).All (Op.SlotBelow srv.gucs.maxTrackedQueries) := by
  unfold metricsHandler
  split
  · trivial
  refine act_all (slotBelow_of_none rfl) fun _ => ?_
  refine (cleanupOrphanedSlots_slotBelow _ 0 0 (by omega)).bind fun _ => ?_
  refine (requestBackendMetrics_slotBelow _ 0 0 (by omega)).bind fun _ => ?_
  exact Prog.All.bind ((formatEntries_slotBelow _ 0 _ (by omega)).bind fun _ => trivial)
    fun _ => (pwhLwlockRelease_all (slotBelow_of_none rfl)).bind fun _ => trivial

/-! ## 4. Hooks and callbacks -/

/-- A walk stays with the slot it was started for. -/
theorem pwhCollectPlanstateMetrics_slotBelow {be : Nat} (hbe : be < n) (ps : Option PlanStatePtr)
    (maxNodes : Nat) : (pwhCollectPlanstateMetrics srv ps be maxNodes).All (Op.SlotBelow n) :=
  (pwhCollectPlanstateMetrics_all ps be maxNodes).mono fun _ ho => ho.ofTrack.slotBelow hbe

omit [CDouble D] in
/-- `backend_exit_callback`, which the catch block of the start hook calls too. -/
theorem backendExitCallback_slotBelow :
    (backendExitCallback srv p).All (Op.SlotBelow srv.gucs.maxTrackedQueries) :=
  act_all (slotBelow_of_none rfl) fun _ => (releaseFirst_slotBelow _ 0 (by omega)).bind fun _ =>
    act_all (slotBelow_of_none rfl) fun _ => (pwhLwlockRelease_all (slotBelow_of_none rfl)).bind
      fun _ => act_all (slotBelow_of_none rfl) fun _ => trivial

/-- `query_start_hook`. -/
theorem queryStartHook_slotBelow (q : QueryDescPtr) :
    (queryStartHook srv p q).All (Op.SlotBelow srv.gucs.maxTrackedQueries) := by
  unfold queryStartHook
  refine act_all (slotBelow_of_none rfl) fun _ => act_all (slotBelow_of_none rfl) fun enabled => ?_
  split
  · refine act_all (slotBelow_of_none rfl) fun minCost => ?_
    split
    · trivial
    · refine act_all (slotBelow_of_none rfl) fun initialized => Prog.All.bind ?_ fun _ => ?_
      · unfold pgWhen
        split
        · exact act_all (slotBelow_of_none rfl) fun _ => act_all (slotBelow_of_none rfl) fun _ =>
            act_all (slotBelow_of_none rfl) fun _ => act_all (slotBelow_of_none rfl) fun _ =>
              trivial
        · trivial
      · refine Prog.All.catching (Prog.All.faulty (slotBelow_of_none rfl) ?_) ?_
        -- only what the search returned is written through
        · refine (pwhGetOrCreateMyBackendEntryImpl_slotBelow true).bind_of_returns
            fun entry hentry => ?_
          cases entry with
          | none => trivial
          | some be =>
            exact (trackQuery_all be q).mono fun _ ho =>
              ho.slotBelow (pwhGetOrCreateMyBackendEntryImpl_returns hentry)
        · exact act_all (slotBelow_of_none rfl) fun _ => backendExitCallback_slotBelow
  · trivial

/-- `query_end_hook`. -/
theorem queryEndHook_slotBelow (q : QueryDescPtr) :
    (queryEndHook srv p q).All (Op.SlotBelow srv.gucs.maxTrackedQueries) := by
  unfold queryEndHook
  refine act_all (slotBelow_of_none rfl) fun enabled => act_all (slotBelow_of_none rfl)
    fun initialized => Prog.All.bind ?_ fun _ => act_all (slotBelow_of_none rfl) fun _ => trivial
  unfold pgWhen
  split
  · refine Prog.All.catching (Prog.All.faulty (slotBelow_of_none rfl) ?_) ?_
    · refine (pwhGetOrCreateMyBackendEntryImpl_slotBelow false).bind_of_returns
        fun entry hentry => ?_
      cases entry with
      | none => trivial
      | some be =>
        have hbe := pwhGetOrCreateMyBackendEntryImpl_returns hentry
        refine act_all (slotBelow_of_none rfl) fun _ => ?_
        rw [pwhIsBackendEntryActive_bind]
        refine act_all (slotBelow_of_some rfl hbe) fun pid => Prog.All.bind ?_ fun _ =>
          (pwhLwlockRelease_all (slotBelow_of_none rfl)).bind fun _ =>
            act_all (slotBelow_of_none rfl) fun _ => trivial
        unfold pgWhen
        split
        · exact (pwhCollectPlanstateMetrics_slotBelow hbe _ _).bind fun _ =>
            pwhReleaseBackendEntryUnlocked_slotBelow hbe
        · trivial
    · exact act_all (slotBelow_of_none rfl) fun _ => act_all (slotBelow_of_none rfl) fun _ =>
        pwhLwlockRelease_all (slotBelow_of_none rfl)
  · trivial

omit [CDouble D] in
/-- The callback is called once for every registration. -/
theorem callXactCallbacks_slotBelow (event : XactEvent) :
    ∀ k, (callXactCallbacks srv p event k).All (Op.SlotBelow srv.gucs.maxTrackedQueries)
  | 0 => trivial
  | k + 1 => by
    refine Prog.All.bind (p := queryCleanupCallback srv p event) ?_ fun _ =>
      callXactCallbacks_slotBelow event k
    unfold queryCleanupCallback
    split
    · trivial
    · refine act_all (slotBelow_of_none rfl) fun _ => act_all (slotBelow_of_none rfl)
        fun enabled => ?_
      split
      · exact act_all (slotBelow_of_none rfl) fun _ => (releaseFirst_slotBelow _ 0 (by omega)).bind
          fun _ => pwhLwlockRelease_all (slotBelow_of_none rfl)
      · trivial

omit [CDouble D] in
/-- The abort of a transaction. -/
theorem abortTransaction_slotBelow (event : XactEvent) :
    (abortTransaction srv p event).All (Op.SlotBelow srv.gucs.maxTrackedQueries) :=
  act_all (slotBelow_of_none rfl) fun _ => act_all (slotBelow_of_none rfl) fun k =>
    (callXactCallbacks_slotBelow event k).bind fun _ =>
      act_all (slotBelow_of_none rfl) fun _ => trivial

omit [CDouble D] in
/-- So are the exit callbacks. -/
theorem callExitCallbacks_slotBelow :
    ∀ k, (callExitCallbacks srv p k).All (Op.SlotBelow srv.gucs.maxTrackedQueries)
  | 0 => trivial
  | k + 1 => backendExitCallback_slotBelow.bind fun _ => callExitCallbacks_slotBelow k

/-- **No program of a process leaves the table**, whatever it reads. -/
theorem Call.program_slotBelow (c : Call D) :
    (c.program srv p).All (Op.SlotBelow srv.gucs.maxTrackedQueries) := by
  cases c with
  | fork enabled minCost => exact ⟨slotBelow_of_none rfl, fun _ => trivial⟩
  | reload enabled minCost => exact ⟨slotBelow_of_none rfl, fun _ => trivial⟩
  | executorStart q => exact queryStartHook_slotBelow q
  | executorEnd q => exact queryEndHook_slotBelow q
  | abort event => exact abortTransaction_slotBelow event
  | commit => exact act_all (slotBelow_of_none rfl) fun k => callXactCallbacks_slotBelow _ k
  | abortSub qs =>
    exact act_all (slotBelow_of_none rfl) fun _ => act_all (slotBelow_of_none rfl) fun _ => trivial
  | fetchStatus => exact v1StatusF_slotBelow.bind fun _ => trivial
  | scrape req palloced => exact (metricsHandler_slotBelow palloced req).bind fun _ => trivial
  | exit =>
    exact act_all (slotBelow_of_none rfl) fun k => (callExitCallbacks_slotBelow k).bind fun _ =>
      act_all (slotBelow_of_none rfl) fun _ => (abortTransaction_slotBelow _).bind fun _ =>
        act_all (slotBelow_of_none rfl) fun _ => trivial

/-- Nor does the handler of SIGUSR2, which writes to the slot it found. -/
theorem deliverSigusr2_slotBelow :
    (deliverSigusr2 srv p).All (Op.SlotBelow srv.gucs.maxTrackedQueries) := by
  refine act_all (slotBelow_of_none rfl) fun _ => Prog.All.bind (Prog.All.catching ?_ trivial)
    fun _ => act_all (slotBelow_of_none rfl) fun _ => trivial
  unfold pwhSigusr2Handler
  refine act_all (slotBelow_of_none rfl) fun current => ?_
  cases current with
  | none => trivial
  | some q =>
    dsimp only
    split
    · trivial
    refine (findMySlot_slotBelow _ 0 (by omega)).bind_of_returns fun found hfound => ?_
    cases found with
    | none => trivial
    | some be =>
      have hbe : be < srv.gucs.maxTrackedQueries := findMySlot_returns _ 0 (by omega) hfound
      exact (pwhCollectPlanstateMetrics_slotBelow hbe _ _).bind fun _ =>
        ⟨slotBelow_of_some rfl hbe, fun _ => trivial⟩

end Programs

/-! ## 5. What is written is inside its part of the slot

The walks stop at the length of the node array and `snprintf` at the size it is given, so this holds
of the programs as well; only the hooks write texts and nodes, everything else writes fields of the
entry. -/

/-- No store goes past the end of a text or of a node array. -/
def Op.WritesWithin (g : SlotSettings) (o : Op D) : Prop := ∀ pl, o.place = some pl → pl.Within g

section Within

variable {g : SlotSettings} {o : Op D}

/-- An operation that writes nothing. -/
theorem writesWithin_of_none (h : o.place = none) : o.WritesWithin g := by
  intro pl hpl
  rw [h] at hpl
  cases hpl

/-- What an action writes is within its slot. -/
theorem Op.WritesSlot.writesWithin {i : Nat} (h : o.WritesSlot g i) : o.WritesWithin g :=
  fun pl hpl => (h pl hpl).2

/-- The fields of an entry have their place in every slot. -/
theorem Op.IsHousekeeping.writesWithin (h : o.IsHousekeeping) : o.WritesWithin g := by
  cases o
  all_goals first
    | exact writesWithin_of_none rfl
    | exact h.elim
    | (intro pl hpl; cases hpl; trivial)

/-- A reader writes nothing. -/
theorem Op.OfReader.writesWithin (h : o.OfReader) : o.WritesWithin g := by
  cases o
  all_goals first | exact writesWithin_of_none rfl | exact h.elim

variable [CDouble D] {srv : Server D} {p : Pid}

/-- The start hook writes the nodes and the text of its query. -/
theorem queryStartHook_writesWithin (q : QueryDescPtr) :
    (queryStartHook srv p q).All (Op.WritesWithin srv.gucs.slotSettings) := by
  have hkeep : ∀ o : Op D, o.IsUpkeep → o.WritesWithin srv.gucs.slotSettings :=
    fun _ ho => ho.isHousekeeping.writesWithin
  unfold queryStartHook
  refine act_all (writesWithin_of_none rfl) fun _ => act_all (writesWithin_of_none rfl)
    fun enabled => ?_
  split
  · refine act_all (writesWithin_of_none rfl) fun minCost => ?_
    split
    · trivial
    · refine act_all (writesWithin_of_none rfl) fun initialized => Prog.All.bind ?_ fun _ => ?_
      · unfold pgWhen
        split
        · exact initializeStateOncePerBackend_all.mono fun _ ho => ho.writesWithin
        · trivial
      · refine Prog.All.catching (Prog.All.faulty (writesWithin_of_none rfl) ?_)
          (queryStartCatch_all.mono hkeep)
        refine Prog.All.bind ((pwhGetOrCreateMyBackendEntryImpl_all true).mono hkeep)
          fun entry => ?_
        cases entry with
        | none => trivial
        | some be => exact (trackQuery_writesSlot be q).mono fun _ ho => ho.writesWithin
  · trivial

/-- The end hook writes the final numbers of the nodes. -/
theorem queryEndHook_writesWithin (q : QueryDescPtr) :
    (queryEndHook srv p q).All (Op.WritesWithin srv.gucs.slotSettings) := by
  have hkeep : ∀ o : Op D, o.IsUpkeep → o.WritesWithin srv.gucs.slotSettings :=
    fun _ ho => ho.isHousekeeping.writesWithin
  unfold queryEndHook
  refine act_all (writesWithin_of_none rfl) fun enabled => act_all (writesWithin_of_none rfl)
    fun initialized => Prog.All.bind ?_ fun _ => act_all (writesWithin_of_none rfl)
      fun _ => trivial
  unfold pgWhen
  split
  · refine Prog.All.catching (Prog.All.faulty (writesWithin_of_none rfl)
      (queryEndTry_all hkeep (fun be ps => ?_) q)) ?_
    · exact (collect_writesSlot (g := srv.gucs.slotSettings) ps).mono fun _ ho => ho.writesWithin
    · exact act_all (writesWithin_of_none rfl) fun _ => act_all (writesWithin_of_none rfl)
        fun _ => pwhLwlockRelease_all (writesWithin_of_none rfl)
  · trivial

/-- **No program of a process writes past the parts of a slot.** -/
theorem Call.program_writesWithin (c : Call D) :
    (c.program srv p).All (Op.WritesWithin srv.gucs.slotSettings) := by
  have hkeep : ∀ o : Op D, o.IsUpkeep → o.WritesWithin srv.gucs.slotSettings :=
    fun _ ho => ho.isHousekeeping.writesWithin
  have hread : ∀ o : Op D, o.IsUpkeep ∨ o.OfReader → o.WritesWithin srv.gucs.slotSettings :=
    fun o ho => ho.elim (hkeep o) Op.OfReader.writesWithin
  cases c with
  | fork enabled minCost => exact ⟨writesWithin_of_none rfl, fun _ => trivial⟩
  | reload enabled minCost => exact ⟨writesWithin_of_none rfl, fun _ => trivial⟩
  | executorStart q => exact queryStartHook_writesWithin q
  | executorEnd q => exact queryEndHook_writesWithin q
  | abort event => exact (abortTransaction_all event).mono hkeep
  | commit => exact commitTransaction_all.mono hkeep
  | abortSub qs => exact (abortSubTransaction_all qs).mono hkeep
  | fetchStatus => exact (v1StatusF_all.mono hread).bind fun _ => trivial
  | scrape req palloced =>
    exact ((metricsHandler_all palloced req).mono hread).bind fun _ => trivial
  | exit => exact procExit_all.mono hkeep

/-- The handler of SIGUSR2 writes numbers into nodes, within the array. -/
theorem deliverSigusr2_writesWithin :
    (deliverSigusr2 srv p).All (Op.WritesWithin srv.gucs.slotSettings) := by
  refine act_all (writesWithin_of_none rfl) fun _ => Prog.All.bind (Prog.All.catching ?_ trivial)
    fun _ => act_all (writesWithin_of_none rfl) fun _ => trivial
  refine pwhSigusr2Handler_good.mono fun o ho pl hpl => ?_
  cases o <;> cases hpl
  case writeNode i j f v => exact ho.1
  case writeQueryTextByte i k b => exact ho.1
  all_goals trivial

end Within

end WhatIsHappening
