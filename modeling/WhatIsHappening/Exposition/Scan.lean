/-
# The rows of a full scan

`v1_status_f` returns one row a call and keeps its place in the function's context.  On a table that
nothing changes, the calls go through the counted nodes of the active slots, in index order, and
then end: `statusRows_eq`.
-/
import WhatIsHappening.Exposition.Format

namespace WhatIsHappening

open Interleaving Prog

variable {D : Type} [CDouble D]

/-! ## 1. The rows of a table -/

/-- The row of one node. -/
def PwhSharedMemoryBackendEntry.statusRow (srv : Server D) (be : PwhSharedMemoryBackendEntry D)
    (j : Nat) : StatusRow D where
  backendPid := be.backendPid
  queryId := be.queryId
  queryText := be.text srv.gucs.maxQueryTextLen
  nodeId := (be.metrics j).nodeId
  parentNodeId := (be.metrics j).parentNodeId
  nodeTag := (be.metrics j).tag
  startupTimeUs := (be.metrics j).execution.startupTimeUs
  totalTimeUs := (be.metrics j).execution.totalTimeUs
  loopsExecuted := (be.metrics j).execution.loopsExecuted
  tuplesReturned := (be.metrics j).execution.tuplesReturned
  timeSeconds := (be.timeShares j).1
  timePercent := (be.timeShares j).2
  cacheHits := (be.metrics j).bufferUsage.cacheHits
  cacheMisses := (be.metrics j).bufferUsage.cacheMisses
  localCacheHits := (be.metrics j).bufferUsage.localCacheHits
  localCacheMisses := (be.metrics j).bufferUsage.localCacheMisses
  spillFileReads := (be.metrics j).bufferUsage.spillFileReads
  spillFileWrites := (be.metrics j).bufferUsage.spillFileWrites
  rowsFilteredByJoins := (be.metrics j).execution.rowsFilteredByJoins
  rowsFilteredByExpressions := (be.metrics j).execution.rowsFilteredByExpressions

/-- The row that is filled for record `j` of a slot. -/
def PwhSharedMemoryBackendEntry.filledRow (srv : Server D) (be : PwhSharedMemoryBackendEntry D)
    (j : Nat) (totalQueryTime : D) : StatusRow D :=
  let time := (be.metrics j).execution.totalTimeUs
  { be.statusRow srv j with
    timeSeconds := CDouble.div time (CDouble.ofNat 1000000)
    timePercent :=
      if CDouble.gt totalQueryTime (CDouble.ofNat 0) then
        CDouble.mul (CDouble.div time totalQueryTime) (CDouble.ofNat 100)
      else CDouble.ofNat 0 }

/-- The counted nodes of `k` slots from `i` on, those of slot `i` from `j` on. -/
def positionsFrom (entries : Nat → PwhSharedMemoryBackendEntry D) :
    (k i j : Nat) → List (Nat × Nat)
  | 0, _, _ => []
  | k + 1, i, j =>
    (if (entries i).isActive then
      (List.range' j ((entries i).countOfMetrics.toNat - j)).map (Prod.mk i)
    else []) ++ positionsFrom entries k (i + 1) 0

/-- All counted nodes of the active slots, in index order. -/
def positions (srv : Server D) (entries : Nat → PwhSharedMemoryBackendEntry D) :
    List (Nat × Nat) :=
  (activeSlots srv entries).flatMap fun i =>
    (List.range (entries i).countOfMetrics.toNat).map (Prod.mk i)

/-- Calls of `v1_status_f` until it is done: the rows they return. -/
def scanRows (srv : Server D) (p : Pid) : (calls : Nat) → State D → Option (List (StatusRow D))
  | 0, _ => none
  | calls + 1, s =>
    match (v1StatusF srv).solo (alone srv p) s with
    | none => none
    | some (none, _) => some []
    | some (some row, s) => (scanRows srv p calls s).map (row :: ·)

/-- The calls a full scan may take: one for each counted node, and the last one. -/
def scanCalls (srv : Server D) (entries : Nat → PwhSharedMemoryBackendEntry D) : Nat :=
  ((List.range srv.gucs.maxTrackedQueries).map fun i => (entries i).countOfMetrics.toNat).sum + 1

/-- The rows `v1_status_f` returns over a full scan of a table that nothing changes meanwhile. -/
def statusRows (srv : Server D) (p : Pid) (entries : Nat → PwhSharedMemoryBackendEntry D) :
    Option (List (StatusRow D)) :=
  scanRows srv p (scanCalls srv entries) { (State.init : State D) with entries := entries }

/-! ## 2. One call

A call goes on at the place it finds in the function's context, passes over what is not counted, and
leaves the place behind the row it returns. -/

section Call

variable {srv : Server D} {p : Pid} {entries : Nat → PwhSharedMemoryBackendEntry D}

/-- The tuple is filled from the record it is about. -/
theorem pwhFillV1StatusTuple_fills (be j : Nat) (totalQueryTime : D) :
    Yields (alone srv p) (Holding entries) (pwhFillV1StatusTuple be j totalQueryTime)
      ((entries be).filledRow srv j totalQueryTime) := by
  have hshares : Yields (alone srv p) (Holding entries) (nodeTimeShares be j totalQueryTime)
      (((entries be).filledRow srv j totalQueryTime).timeSeconds,
        ((entries be).filledRow srv j totalQueryTime).timePercent) := by
    unfold nodeTimeShares PwhSharedMemoryBackendEntry.filledRow
    apply yields_readNode
    dsimp only
    split
    · exact yields_readNode (yields_ret _)
    · exact yields_ret _
  refine hshares.bind ?_
  refine yields_readBackendPid (yields_readQueryId (yields_readQueryText ?_))
  iterate 15 refine yields_readNode ?_
  exact yields_ret _

theorem pwhFillV1StatusTuple_yields (be j : Nat) :
    Yields (alone srv p) (Holding entries)
      (pwhFillV1StatusTuple be j (entries be).totalQueryTime) ((entries be).statusRow srv j) :=
  pwhFillV1StatusTuple_fills be j (entries be).totalQueryTime

omit [CDouble D] in
/-- A node is counted when the slot is active and its index below the count. -/
theorem isNodeCounted_yields (be : Nat) (nodeIdx : UInt32) :
    Yields (alone srv p) (Holding entries) (isNodeCounted be nodeIdx)
      ((entries be).isActive && decide (nodeIdx < (entries be).countOfMetrics)) := by
  refine (pwhIsBackendEntryActive_yields be).bind ?_
  by_cases hactive : (entries be).isActive = true
  · rw [if_pos hactive, hactive, Bool.true_and]
    exact yields_readCountOfMetrics (yields_ret _)
  · rw [if_neg hactive, eq_false_of_ne_true hactive, Bool.false_and]
    exact yields_ret _

/-- The nodes that are left to a scan: all of them before its first call. -/
def remaining (srv : Server D) (entries : Nat → PwhSharedMemoryBackendEntry D) :
    Option (UInt32 × UInt32) → List (Nat × Nat)
  | none => positionsFrom entries srv.gucs.maxTrackedQueries 0 0
  | some (slotIdx, nodeIdx) =>
    positionsFrom entries (srv.gucs.maxTrackedQueries - slotIdx.toNat) slotIdx.toNat nodeIdx.toNat

/-- A scan that has `rest` left. -/
structure ScanAt (srv : Server D) (p : Pid) (entries : Nat → PwhSharedMemoryBackendEntry D)
    (rest : List (Nat × Nat)) (s : State D) : Prop where
  holding : Holding entries s
  slot_le : ∀ sc, (s.backends p).scan = some sc → sc.1.toNat ≤ srv.gucs.maxTrackedQueries
  remaining : remaining srv entries (s.backends p).scan = rest

/-- What a call returns, and where it leaves the scan. -/
def CallEnds (srv : Server D) (p : Pid) (entries : Nat → PwhSharedMemoryBackendEntry D)
    (prog : PgProg D (Option (StatusRow D))) : List (Nat × Nat) → Prop
  | [] => Ends (alone srv p) (Holding entries) prog none fun _ => True
  | x :: rest => Ends (alone srv p) (Holding entries) prog
      (some ((entries x.1).statusRow srv x.2)) (ScanAt srv p entries rest)

omit [CDouble D] in
theorem CallEnds.after [CDouble D] {α : Type} {part : PgProg D α} {a : α}
    {f : α → PgProg D (Option (StatusRow D))} {l : List (Nat × Nat)}
    (hpart : Yields (alone srv p) (Holding entries) part a)
    (hf : CallEnds srv p entries (f a) l) : CallEnds srv p entries (part >>= f) l := by
  cases l with
  | nil => exact hpart.ends hf
  | cons x rest => exact hpart.ends hf

omit [CDouble D] in
theorem setScan_yields (sc : Option (UInt32 × UInt32)) :
    Yields (alone srv p) (Holding entries) (act (.setScan sc)) () :=
  yields_op (fun _ hs => ⟨_, rfl, hs⟩) (yields_ret _)

theorem toNat_succ {n : UInt32} (h : n.toNat + 1 < 4294967296) : (n + 1).toNat = n.toNat + 1 := by
  rw [UInt32.toNat_add]
  exact Nat.mod_eq_of_lt h

omit [CDouble D] in
/-- The next counted node. -/
theorem positionsFrom_counted {k i j : Nat} (hactive : (entries i).isActive = true)
    (hj : j < (entries i).countOfMetrics.toNat) :
    positionsFrom entries (k + 1) i j = (i, j) :: positionsFrom entries (k + 1) i (j + 1) := by
  obtain ⟨m, hm⟩ : ∃ m, (entries i).countOfMetrics.toNat - j = m + 1 :=
    ⟨(entries i).countOfMetrics.toNat - j - 1, by omega⟩
  have hm' : (entries i).countOfMetrics.toNat - (j + 1) = m := by omega
  rw [positionsFrom, positionsFrom, if_pos hactive, if_pos hactive, hm, hm', List.range'_succ,
    List.map_cons, List.cons_append]

omit [CDouble D] in
theorem positionsFrom_notCounted {k i j : Nat}
    (h : ¬ ((entries i).isActive = true ∧ j < (entries i).countOfMetrics.toNat)) :
    positionsFrom entries (k + 1) i j = positionsFrom entries k (i + 1) 0 := by
  rw [positionsFrom]
  split
  · rename_i hactive
    have hle : (entries i).countOfMetrics.toNat ≤ j := Nat.not_lt.mp fun hj => h ⟨hactive, hj⟩
    rw [Nat.sub_eq_zero_of_le hle]
    rfl
  · rfl

/-- **The loop of one call** stops at the next counted node. -/
theorem v1StatusLoop_ends : ∀ k (slotIdx nodeIdx : UInt32),
    slotIdx.toNat + k = srv.gucs.maxTrackedQueries →
    CallEnds srv p entries (v1StatusLoop srv k slotIdx nodeIdx)
      (positionsFrom entries k slotIdx.toNat nodeIdx.toNat) := by
  intro k
  induction k with
  | zero =>
    intro slotIdx nodeIdx _
    exact (setScan_yields none).ends fun s _ => ⟨s, rfl, trivial⟩
  | succ k ih =>
    intro slotIdx nodeIdx hk
    have hmax := srv.gucs.maxTrackedQueries_le
    refine CallEnds.after (pwhGetBackendEntry_yields (by omega)) ?_
    refine CallEnds.after (yields_mark (yields_ret ())) ?_
    refine CallEnds.after (isNodeCounted_yields _ _) ?_
    by_cases hcounted : (entries slotIdx.toNat).isActive = true ∧
        nodeIdx.toNat < (entries slotIdx.toNat).countOfMetrics.toNat
    · rw [positionsFrom_counted hcounted.1 hcounted.2, if_pos (by
        simpa [hcounted.1, UInt32.lt_iff_toNat_lt] using hcounted.2)]
      have hnext : (nodeIdx + 1).toNat = nodeIdx.toNat + 1 := by
        have := (entries slotIdx.toNat).countOfMetrics.toNat_lt
        exact toNat_succ (by omega)
      refine (sumTotalQueryTime_yields _).ends ?_
      refine (pwhFillV1StatusTuple_yields _ _).ends ?_
      refine (yields_emit (yields_ret ())).ends ?_
      intro s hs
      refine ⟨_, rfl, hs, ?_, ?_⟩
      · simp only [State.modifyBackend, Function.update_self]
        rintro _ ⟨⟩
        exact Nat.le_trans (Nat.le_add_right _ _) (Nat.le_of_eq hk)
      · simp only [State.modifyBackend, Function.update_self, remaining, hnext, ← hk,
          Nat.add_sub_cancel_left]
    · rw [positionsFrom_notCounted hcounted, if_neg (by
        simpa [UInt32.lt_iff_toNat_lt] using hcounted)]
      have hnext : (slotIdx + 1).toNat = slotIdx.toNat + 1 := toNat_succ (by omega)
      have hrest := ih (slotIdx + 1) 0 (by omega)
      rw [hnext] at hrest
      refine CallEnds.after (yields_mark (yields_ret ())) ?_
      exact CallEnds.after (setScan_yields _) hrest

/-- The table is as given, and the process holds the lock. -/
def Locked (p : Pid) (entries : Nat → PwhSharedMemoryBackendEntry D) (s : State D) : Prop :=
  Holding entries s ∧ p ∈ s.entrySearchLock.shared

omit [CDouble D] in
/-- The signals of the first call leave the table and the lock alone. -/
theorem requestBackendMetrics_runs : ∀ k i nSignaled,
    Runs (alone srv p) (Locked p entries) (requestBackendMetrics k i nSignaled) := by
  intro k
  induction k with
  | zero => exact fun _ nSignaled => runs_ret nSignaled
  | succ k ih =>
    intro i nSignaled
    rw [requestBackendMetrics, act_bind]
    refine runs_op (fun s hs => ⟨_, _, rfl, hs⟩) fun pid => ?_
    split
    · rw [act_bind]
      refine runs_op (fun s hs => ⟨_, _, rfl, hs⟩) fun pid => ?_
      rw [signalProcess, act_bind]
      refine runs_op (fun s hs => ⟨_, _, rfl, hs⟩) fun succeeded => ?_
      split
      · exact ih _ _
      · exact ih _ _
    · exact ih _ _

omit [CDouble D] in
theorem lwLockAcquire_locks (s : State D) (hs : Holding entries s) :
    ∃ t, alone srv p (.lwLockAcquire .LW_SHARED) s = some ((), t) ∧ Locked p entries t := by
  have hacquire : s.entrySearchLock.acquire .LW_SHARED p =
      some { s.entrySearchLock with shared := p :: s.entrySearchLock.shared } := if_pos hs.2
  rw [alone, exec, hacquire]
  exact ⟨_, rfl, hs, List.mem_cons_self⟩

omit [CDouble D] in
theorem lwLockRelease_unlocks (s : State D) (hs : Locked p entries s) :
    ∃ t, alone srv p .lwLockRelease s = some (true, t) ∧ Holding entries t := by
  have hexclusive : s.entrySearchLock.exclusive ≠ some p := by simp [hs.1.2]
  have hrelease : s.entrySearchLock.release p =
      some { s.entrySearchLock with shared := s.entrySearchLock.shared.erase p } := by
    rw [LWLock.release, if_neg hexclusive, if_pos hs.2]
  rw [alone, exec, hrelease]
  exact ⟨_, rfl, hs.1⟩

omit [CDouble D] in
/-- The first call begins the scan. -/
theorem v1StatusFirstCall_yields :
    Yields (alone srv p) (Holding entries) (v1StatusFirstCall srv) () := by
  have hunlock : Ends (alone srv p) (Locked p entries)
      (pwhLwlockRelease >>= fun _ => act (.setScan (some (0, 0)))) () (Holding entries) := by
    rw [pwhLwlockRelease_bind]
    exact ends_op lwLockRelease_unlocks (setScan_yields _)
  rw [v1StatusFirstCall, pwhLwlockAcquire_bind, act_bind]
  exact ends_op lwLockAcquire_locks ((requestBackendMetrics_runs _ _ _).ends fun _ => hunlock)

/-- **One call** of a scan returns the row of the next node, or ends the scan. -/
theorem v1StatusF_ends {rest : List (Nat × Nat)} {s : State D} (hs : ScanAt srv p entries rest s) :
    ∃ prog, (v1StatusF srv).solo (alone srv p) s = prog.solo (alone srv p) s ∧
      CallEnds srv p entries prog rest := by
  obtain ⟨hholding, hslot, hrest⟩ := hs
  cases hscan : (s.backends p).scan with
  | none =>
    rw [hscan] at hrest
    refine ⟨v1StatusFirstCall srv >>= fun _ => v1StatusLoop srv srv.gucs.maxTrackedQueries 0 0,
      ?_, ?_⟩
    · rw [v1StatusF, act_bind, solo, alone, exec, Option.bind_some, hscan]
    · rw [← hrest]
      exact CallEnds.after v1StatusFirstCall_yields (v1StatusLoop_ends _ 0 0 (Nat.zero_add _))
  | some sc =>
    obtain ⟨slotIdx, nodeIdx⟩ := sc
    rw [hscan] at hrest
    refine ⟨v1StatusLoop srv (srv.gucs.maxTrackedQueries - slotIdx.toNat) slotIdx nodeIdx, ?_, ?_⟩
    · rw [v1StatusF, act_bind, solo, alone, exec, Option.bind_some, hscan]
    · rw [← hrest]
      exact v1StatusLoop_ends _ slotIdx nodeIdx (Nat.add_sub_cancel' (hslot _ hscan))

end Call

/-! ## 3. The whole scan

By induction on the rows that are left; the calls allowed are more than the counted nodes, since the
last call returns no row. -/

section Scan

variable {srv : Server D} {p : Pid} {entries : Nat → PwhSharedMemoryBackendEntry D}

/-- The calls go through what is left. -/
theorem scanRows_eq : ∀ (rest : List (Nat × Nat)) (s : State D) (calls : Nat),
    ScanAt srv p entries rest s → rest.length < calls →
    scanRows srv p calls s = some (rest.map fun x => (entries x.1).statusRow srv x.2) := by
  intro rest
  induction rest with
  | nil =>
    intro s calls hs hcalls
    obtain ⟨calls, rfl⟩ : ∃ n, calls = n + 1 := ⟨calls - 1, by omega⟩
    obtain ⟨prog, hsolo, hends⟩ := v1StatusF_ends hs
    obtain ⟨t, ht, -⟩ := hends s hs.holding
    rw [scanRows, hsolo, ht]
    rfl
  | cons x rest ih =>
    intro s calls hs hcalls
    obtain ⟨calls, rfl⟩ : ∃ n, calls = n + 1 := ⟨calls - 1, by omega⟩
    obtain ⟨prog, hsolo, hends⟩ := v1StatusF_ends hs
    obtain ⟨t, ht, hnext⟩ := hends s hs.holding
    rw [scanRows, hsolo, ht]
    simp only [ih t calls hnext (Nat.lt_of_succ_lt_succ hcalls), Option.map_some, List.map_cons]

omit [CDouble D] in
theorem positionsFrom_eq : ∀ k i, positionsFrom entries k i 0 =
    (activeFrom entries k i).flatMap fun i =>
      (List.range (entries i).countOfMetrics.toNat).map (Prod.mk i) := by
  intro k
  induction k with
  | zero => exact fun _ => rfl
  | succ k ih =>
    intro i
    rw [positionsFrom, ih, activeFrom_succ, List.flatMap_append, Nat.sub_zero,
      ← List.range_eq_range']
    split
    · rw [List.flatMap_singleton]
    · rfl

omit [CDouble D] in
/-- There are no more rows than counted nodes. -/
theorem length_positionsFrom_le : ∀ k i, (positionsFrom entries k i 0).length ≤
    ((List.range' i k).map fun i => (entries i).countOfMetrics.toNat).sum := by
  intro k
  induction k with
  | zero => exact fun _ => Nat.le_refl 0
  | succ k ih =>
    intro i
    have hrest := ih (i + 1)
    rw [positionsFrom, List.range'_succ, List.map_cons, List.sum_cons, List.length_append]
    split
    · rw [List.length_map, List.length_range']
      omega
    · rw [List.length_nil]
      omega

/-- **The rows of a full scan** are those of the counted nodes of the active slots. -/
theorem statusRows_eq (srv : Server D) (p : Pid)
    (entries : Nat → PwhSharedMemoryBackendEntry D) :
    statusRows srv p entries =
      some ((positions srv entries).map fun x => (entries x.1).statusRow srv x.2) := by
  have hpositions : positionsFrom entries srv.gucs.maxTrackedQueries 0 0 = positions srv entries :=
    positionsFrom_eq _ _
  have hlength : (positions srv entries).length < scanCalls srv entries := by
    rw [← hpositions, scanCalls, List.range_eq_range']
    exact Nat.lt_succ_of_le (length_positionsFrom_le _ _)
  have hstart : ScanAt srv p entries (positions srv entries)
      { (State.init : State D) with entries := entries } :=
    ⟨⟨rfl, rfl⟩, nofun, hpositions⟩
  exact scanRows_eq _ _ _ hstart hlength

end Scan

end WhatIsHappening
