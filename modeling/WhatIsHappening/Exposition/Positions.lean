/-
# A scan of a table that changes

A scan of `v1_status_f` lasts as long as its reader likes, and the slots it walks are released,
taken and filled meanwhile.  Here every operation of the scan meets a table of its own.  What the
scan keeps is its place, and that only moves forward (`scan_neither_repeats_nor_skips`).
-/
import Mathlib.Data.Prod.Lex
import WhatIsHappening.Exposition.Scan

namespace WhatIsHappening

open Interleaving Prog

variable {D : Type}

/-! ## 1. A changing table -/

/-- A process that scans the table: its state, the table that each operation to come will meet, and
the record whose `node_id` it read last. -/
structure ScanWatch (D : Type) where
  state : State D
  tables : Nat → Nat → PwhSharedMemoryBackendEntry D
  shown : Nat × Nat

/-- The place of the record whose `node_id` an operation reads; no other column needs it. -/
def Op.showsNode : Op D → Option (Nat × Nat)
  | .readNode i j .nodeId => some (i, j)
  | _ => none

/-- One operation of the scan, on the table it meets. -/
def watch (srv : Server D) (p : Pid) (o : Op D) (x : ScanWatch D) : Option (Res o × ScanWatch D) :=
  (exec srv p o {} { x.state with entries := x.tables 0 }).map fun r =>
    (r.1, { state := r.2, tables := fun n => x.tables (n + 1), shown := o.showsNode.getD x.shown })

/-- The calls of one scan: the slot and the node of each row that is returned. -/
def scanPositions [CDouble D] (srv : Server D) (p : Pid) :
    (calls : Nat) → ScanWatch D → Option (List (Nat × Nat))
  | 0, _ => none
  | calls + 1, x =>
    match (v1StatusF srv).solo (watch srv p) x with
    | none => none
    | some (none, _) => some []
    | some (some _, x) => (scanPositions srv p calls x).map (x.shown :: ·)

/-! ## 2. What a call keeps

Every operation of a call may meet another table, so a call knows only what its single reads told
it: that one table had the slot active and one counted the node (`Seen`), or that one table did not
(`Missed`). -/

/-- The tables to come are `ok`, nobody holds the lock exclusively, and the scan stands at `sc`. -/
structure Watching (p : Pid) (ok : (Nat → PwhSharedMemoryBackendEntry D) → Prop)
    (sc : Option (UInt32 × UInt32)) (x : ScanWatch D) : Prop where
  tables : ∀ n, ok (x.tables n)
  lock : x.state.entrySearchLock.exclusive = none
  scan : (x.state.backends p).scan = sc

section Call

variable {srv : Server D} {p : Pid} {ok : (Nat → PwhSharedMemoryBackendEntry D) → Prop}
  {sc : Option (UInt32 × UInt32)} {x : ScanWatch D}

/-- An operation that touches neither the lock nor the place only moves on to the next table. -/
theorem Watching.later (h : Watching p ok sc x) {y : ScanWatch D}
    (htables : ∀ n, y.tables n = x.tables (n + 1))
    (hlock : y.state.entrySearchLock = x.state.entrySearchLock)
    (hscan : (y.state.backends p).scan = (x.state.backends p).scan) : Watching p ok sc y where
  tables n := by
    rw [htables]
    exact h.tables (n + 1)
  lock := by rw [hlock, h.lock]
  scan := by rw [hscan, h.scan]

/-- The reads of a table, and what goes with them. -/
theorem watch_reads {o : Op D} (ho : o.ReadsEntry) (hx : Watching p ok sc x) :
    ∃ r y, watch srv p o x = some (r, y) ∧ Watching p ok sc y := by
  cases o
  case readBackendPid | readCountOfMetrics | readQueryId | readQueryText | readNode =>
    exact ⟨_, _, rfl, hx.later (fun _ => rfl) rfl rfl⟩
  all_goals exact ho.elim

variable (srv) in
/-- The lock is taken, and given back. -/
theorem watch_lwLockAcquire (hx : Watching p ok sc x) :
    ∃ y, watch srv p (.lwLockAcquire .LW_SHARED) x = some ((), y) ∧ Watching p ok sc y ∧
      p ∈ y.state.entrySearchLock.shared := by
  have hacquire : x.state.entrySearchLock.acquire .LW_SHARED p =
      some { x.state.entrySearchLock with shared := p :: x.state.entrySearchLock.shared } :=
    if_pos hx.lock
  rw [watch, exec, hacquire]
  refine ⟨_, rfl, ⟨fun n => hx.tables (n + 1), hx.lock, ?_⟩, List.mem_cons_self⟩
  simpa using hx.scan

variable (srv) in
theorem watch_lwLockRelease (hx : Watching p ok sc x) (hheld : p ∈ x.state.entrySearchLock.shared) :
    ∃ y, watch srv p .lwLockRelease x = some (true, y) ∧ Watching p ok sc y := by
  have hexclusive : x.state.entrySearchLock.exclusive ≠ some p := by simp [hx.lock]
  have hrelease : x.state.entrySearchLock.release p =
      some { x.state.entrySearchLock with shared := x.state.entrySearchLock.shared.erase p } := by
    rw [LWLock.release, if_neg hexclusive, if_pos hheld]
  rw [watch, exec, hrelease]
  refine ⟨_, rfl, fun n => hx.tables (n + 1), hx.lock, ?_⟩
  simpa using hx.scan

variable (srv) in
theorem watch_setScan (sc' : Option (UInt32 × UInt32)) (hx : Watching p ok sc x) :
    ∃ y, watch srv p (.setScan sc') x = some ((), y) ∧ Watching p ok sc' y ∧ y.shown = x.shown := by
  refine ⟨_, rfl, ⟨fun n => hx.tables (n + 1), hx.lock, ?_⟩, rfl⟩
  simp [State.modifyBackend]

/-- To find a slot by its index the lock is taken and given back. -/
theorem pwhGetBackendEntry_watched {i : Nat} (hi : i < srv.gucs.maxTrackedQueries)
    (hx : Watching p ok sc x) :
    RunsTo (watch srv p) (pwhGetBackendEntry srv i) (fun _ => Watching p ok sc) x := by
  rw [pwhGetBackendEntry, if_neg (Nat.not_le.mpr hi), pwhLwlockAcquire_bind,
    pwhLwlockRelease_bind]
  obtain ⟨y, hacquire, hy, hheld⟩ := watch_lwLockAcquire srv hx
  obtain ⟨z, hrelease, hz⟩ := watch_lwLockRelease srv hy hheld
  exact runsTo_op hacquire (runsTo_op hrelease (runsTo_ret hz))

/-- A node that was found counted: its slot active, and then its count read. -/
def Seen (ok : (Nat → PwhSharedMemoryBackendEntry D) → Prop) (pos : Nat × Nat) : Prop :=
  (∃ entries, ok entries ∧ (entries pos.1).isActive = true) ∧
    ∃ entries, ok entries ∧ pos.2 < (entries pos.1).countOfMetrics.toNat

/-- A node that some table does not count. -/
def Missed (ok : (Nat → PwhSharedMemoryBackendEntry D) → Prop) (pos : Nat × Nat) : Prop :=
  ∃ entries, ok entries ∧
    ¬ ((entries pos.1).isActive = true ∧ pos.2 < (entries pos.1).countOfMetrics.toNat)

theorem watched_readBackendPid {α : Type} {be : Nat} {k : Pid → PgProg D α}
    {Q : α → ScanWatch D → Prop} (hx : Watching p ok sc x)
    (h : ∀ y, Watching p ok sc y → RunsTo (watch srv p) (k (x.tables 0 be).backendPid) Q y) :
    RunsTo (watch srv p) (.op (.readBackendPid be) k) Q x :=
  runsTo_op rfl (h _ (hx.later (fun _ => rfl) rfl rfl))

theorem watched_readCountOfMetrics {α : Type} {be : Nat} {k : UInt32 → PgProg D α}
    {Q : α → ScanWatch D → Prop} (hx : Watching p ok sc x)
    (h : ∀ y, Watching p ok sc y → RunsTo (watch srv p) (k (x.tables 0 be).countOfMetrics) Q y) :
    RunsTo (watch srv p) (.op (.readCountOfMetrics be) k) Q x :=
  runsTo_op rfl (h _ (hx.later (fun _ => rfl) rfl rfl))

/-- A mark moves neither the scan nor the lock. -/
theorem watched_mark {α : Type} {m : Mark} {k : Unit → PgProg D α} {Q : α → ScanWatch D → Prop}
    (hx : Watching p ok sc x) (h : ∀ y, Watching p ok sc y → RunsTo (watch srv p) (k ()) Q y) :
    RunsTo (watch srv p) (.op (.mark m) k) Q x := by
  refine runsTo_op rfl (h _ (hx.later (fun _ => rfl) ?_ ?_))
  · cases m <;> rfl
  · cases m <;> simp [State.record]

theorem watched_emit {α : Type} {e : Emission D} {k : Unit → PgProg D α}
    {Q : α → ScanWatch D → Prop}
    (hx : Watching p ok sc x)
    (h : ∀ y, Watching p ok sc y → y.shown = x.shown → RunsTo (watch srv p) (k ()) Q y) :
    RunsTo (watch srv p) (.op (.emit e) k) Q x :=
  runsTo_op rfl (h _ (hx.later (fun _ => rfl) rfl (by simp [State.modifyBackend])) rfl)

/-- Whether a node is counted is asked of two tables.  The answer no is one for every later node of
the slot as well. -/
theorem isNodeCounted_watched (be : Nat) (nodeIdx : UInt32) (hx : Watching p ok sc x) :
    RunsTo (watch srv p) (isNodeCounted be nodeIdx)
      (fun b y => Watching p ok sc y ∧ (b = true → Seen ok (be, nodeIdx.toNat)) ∧
        (b = false → ∀ j, nodeIdx.toNat ≤ j → Missed ok (be, j))) x := by
  rw [isNodeCounted, pwhIsBackendEntryActive_bind, act_bind]
  refine watched_readBackendPid hx fun y hy => ?_
  by_cases hactive : (x.tables 0 be).isActive = true
  · have hpid : (x.tables 0 be).backendPid ≠ 0 := by
      simpa [PwhSharedMemoryBackendEntry.isActive] using hactive
    rw [if_pos (decide_eq_true hpid), act_bind]
    refine watched_readCountOfMetrics hy fun z hz => runsTo_ret ⟨hz, fun hcount => ?_, ?_⟩
    · exact ⟨⟨x.tables 0, hx.tables 0, hactive⟩, y.tables 0, hy.tables 0,
        UInt32.lt_iff_toNat_lt.mp (of_decide_eq_true hcount)⟩
    · intro hcount j hj
      refine ⟨y.tables 0, hy.tables 0, fun h => of_decide_eq_false hcount ?_⟩
      exact UInt32.lt_iff_toNat_lt.mpr (Nat.lt_of_le_of_lt hj h.2)
  · have hpid : (x.tables 0 be).backendPid = 0 := by
      simpa [PwhSharedMemoryBackendEntry.isActive] using hactive
    rw [if_neg (by rw [decide_eq_true_eq]; exact absurd hpid)]
    exact runsTo_ret
      ⟨hy, by simp, fun _ j _ => ⟨x.tables 0, hx.tables 0, fun h => hactive h.1⟩⟩

/-- The row of record `j` of slot `be` is what is shown. -/
theorem pwhFillV1StatusTuple_watched [CDouble D] (be j : Nat) (total : D)
    (hx : Watching p ok sc x) :
    RunsTo (watch srv p) (pwhFillV1StatusTuple be j total)
      (fun _ y => Watching p ok sc y ∧ y.shown = (be, j)) x := by
  have hreads : (nodeTimeShares be j total).All Op.ReadsEntry :=
    nodeTimeShares_all (fun _ => trivial) total
  have hshares : RunsTo (watch srv p) (nodeTimeShares be j total) (fun _ => Watching p ok sc) x :=
    runsTo_of_all hreads (nodeTimeShares_noRaise be j total) (fun _ _ => watch_reads) hx
  refine RunsTo.bind (hshares.mono fun shares y hy => ?_)
  exact ⟨_, _, rfl, ⟨fun n => hy.tables (n + 18), hy.lock, hy.scan⟩, rfl⟩

/-- What a call that goes on from the place `start` returns, and where it leaves the scan. -/
inductive Finds (srv : Server D) (p : Pid) (ok : (Nat → PwhSharedMemoryBackendEntry D) → Prop)
    (start : Nat × Nat) : Option (StatusRow D) → ScanWatch D → Prop
  /-- the row of a node it saw, and it missed all between -/
  | row {row : StatusRow D} {slotIdx nodeIdx : UInt32} {y : ScanWatch D}
      (hy : Watching p ok (some (slotIdx, nodeIdx + 1)) y)
      (hshown : y.shown = (slotIdx.toNat, nodeIdx.toNat))
      (hle : toLex start ≤ toLex y.shown) (hslot : slotIdx.toNat < srv.gucs.maxTrackedQueries)
      (hseen : Seen ok y.shown)
      (hmissed : ∀ pos, toLex start ≤ toLex pos → toLex pos < toLex y.shown → Missed ok pos) :
      Finds srv p ok start (some row) y
  /-- SRF_RETURN_DONE, and it missed all that was left -/
  | done {y : ScanWatch D} (hmissed : ∀ pos, toLex start ≤ toLex pos →
      pos.1 < srv.gucs.maxTrackedQueries → Missed ok pos) : Finds srv p ok start none y

/-- A place the scan goes over. -/
theorem Finds.skip {start next : Nat × Nat} {r : Option (StatusRow D)} {y : ScanWatch D}
    (h : Finds srv p ok next r y) (hle : toLex start ≤ toLex next)
    (hskip : ∀ pos, toLex start ≤ toLex pos → toLex pos < toLex next → Missed ok pos) :
    Finds srv p ok start r y := by
  cases h with
  | row hy hshown hle' hslot hseen hmissed =>
    refine .row hy hshown (hle.trans hle') hslot hseen fun pos hpos hlt => ?_
    rcases lt_or_ge (toLex pos) (toLex next) with h | h
    · exact hskip pos hpos h
    · exact hmissed pos h hlt
  | done hmissed =>
    refine .done fun pos hpos hslot => ?_
    rcases lt_or_ge (toLex pos) (toLex next) with h | h
    · exact hskip pos hpos h
    · exact hmissed pos h hslot

variable [CDouble D]

/-- **The loop of one call** goes forward to the next node it sees. -/
theorem v1StatusLoop_finds : ∀ k (slotIdx nodeIdx : UInt32) sc x,
    slotIdx.toNat + k = srv.gucs.maxTrackedQueries → Watching p ok sc x →
    RunsTo (watch srv p) (v1StatusLoop srv k slotIdx nodeIdx)
      (Finds srv p ok (slotIdx.toNat, nodeIdx.toNat)) x := by
  intro k
  induction k with
  | zero =>
    intro slotIdx nodeIdx sc x hk hx
    obtain ⟨y, hset, -, -⟩ := watch_setScan srv none hx
    refine runsTo_op hset (runsTo_ret (.done fun pos hpos hslot => ?_))
    simp only [Prod.Lex.toLex_le_toLex] at hpos
    omega
  | succ k ih =>
    intro slotIdx nodeIdx sc x hk hx
    have hmax := srv.gucs.maxTrackedQueries_le
    have hi : slotIdx.toNat < srv.gucs.maxTrackedQueries := by omega
    refine RunsTo.bind ((pwhGetBackendEntry_watched hi hx).mono fun _ x hx => ?_)
    rw [act_bind]
    refine watched_mark hx fun x hx => ?_
    refine RunsTo.bind ((isNodeCounted_watched slotIdx.toNat nodeIdx hx).mono
      fun counted x hx => ?_)
    obtain ⟨hx, hseen, hmissed⟩ := hx
    cases counted with
    | true =>
      have hsum : RunsTo (watch srv p) (sumTotalQueryTime slotIdx.toNat)
          (fun _ => Watching p ok sc) x :=
        runsTo_of_all (sumTotalQueryTime_all _) (sumTotalQueryTime_noRaise _)
          (fun _ _ => watch_reads) hx
      refine RunsTo.bind (hsum.mono fun total x hx => ?_)
      refine RunsTo.bind ((pwhFillV1StatusTuple_watched _ _ total hx).mono fun row x hx => ?_)
      obtain ⟨hx, hfilled⟩ := hx
      rw [act_bind]
      refine watched_emit hx fun x hx hemitted => ?_
      obtain ⟨y, hset, hy, hshown⟩ := watch_setScan srv (some (slotIdx, nodeIdx + 1)) hx
      have hplace : y.shown = (slotIdx.toNat, nodeIdx.toNat) :=
        hshown.trans (hemitted.trans hfilled)
      refine runsTo_op hset (runsTo_ret (.row hy hplace ?_ hi ?_ ?_))
      · rw [hplace]
      · rw [hplace]
        exact hseen rfl
      · intro pos hpos hlt
        rw [hplace] at hlt
        exact absurd hpos (not_le_of_gt hlt)
    | false =>
      rw [if_neg nofun, act_bind]
      refine watched_mark hx fun x hx => ?_
      obtain ⟨y, hset, hy, -⟩ := watch_setScan srv (some (slotIdx + 1, 0)) hx
      refine runsTo_op hset ?_
      have hnext : (slotIdx + 1).toNat = slotIdx.toNat + 1 := toNat_succ (by omega)
      refine (ih (slotIdx + 1) 0 _ y (by omega) hy).mono fun r z hz => hz.skip ?_ ?_
      · rw [hnext, Prod.Lex.toLex_le_toLex]
        exact .inl (Nat.lt_succ_self _)
      · rintro ⟨i, j⟩ hpos hlt
        rw [Prod.Lex.toLex_le_toLex] at hpos
        rw [hnext, Prod.Lex.toLex_lt_toLex] at hlt
        have hslot : i = slotIdx.toNat := by
          simp at hpos hlt
          omega
        subst hslot
        refine hmissed rfl j ?_
        simpa using hpos

omit [CDouble D] in
/-- The signals of the first call leave the scan and the lock alone. -/
theorem requestBackendMetrics_watched : ∀ k i nSignaled x, Watching p ok sc x →
    p ∈ x.state.entrySearchLock.shared →
    RunsTo (watch srv p) (requestBackendMetrics k i nSignaled)
      (fun _ y => Watching p ok sc y ∧ p ∈ y.state.entrySearchLock.shared) x := by
  intro k
  induction k with
  | zero => exact fun _ _ x hx hheld => runsTo_ret ⟨hx, hheld⟩
  | succ k ih =>
    intro i nSignaled x hx hheld
    have hpoll : ∀ again y, Watching p ok sc y → p ∈ y.state.entrySearchLock.shared →
        ∃ pid z, watch srv p (.pollBackendPid i again) y = some (pid, z) ∧ Watching p ok sc z ∧
          p ∈ z.state.entrySearchLock.shared :=
      fun _ _ hy hheld =>
        ⟨_, _, rfl, hy.later (fun _ => rfl) rfl (by simp [State.modifyBackend]), hheld⟩
    rw [requestBackendMetrics, act_bind]
    obtain ⟨pid, y, hread, hy, hheld⟩ := hpoll false x hx hheld
    refine runsTo_op hread ?_
    split
    · obtain ⟨pid, z, hread, hz, hheld⟩ := hpoll true y hy hheld
      rw [act_bind]
      refine runsTo_op hread ?_
      rw [signalProcess, act_bind]
      refine runsTo_op rfl ?_
      have hsent := hz.later (y := { z with state := { z.state with entries := z.tables 0 },
                                            tables := fun n => z.tables (n + 1) })
        (fun _ => rfl) rfl rfl
      split
      · exact ih _ _ _ hsent hheld
      · exact ih _ _ _ hsent hheld
    · exact ih _ _ _ hy hheld

/-- The place from which a call goes on. -/
def scanPlace : Option (UInt32 × UInt32) → Nat × Nat
  | none => (0, 0)
  | some (slotIdx, nodeIdx) => (slotIdx.toNat, nodeIdx.toNat)

/-- **One call** goes forward from its place. -/
theorem v1StatusF_finds (hx : Watching p ok sc x)
    (hplace : (scanPlace sc).1 ≤ srv.gucs.maxTrackedQueries) :
    RunsTo (watch srv p) (v1StatusF srv) (Finds srv p ok (scanPlace sc)) x := by
  obtain ⟨y, hget, hy⟩ : ∃ y, watch srv p .getScan x = some (sc, y) ∧ Watching p ok sc y := by
    obtain rfl := hx.scan
    exact ⟨_, rfl, hx.later (fun _ => rfl) rfl rfl⟩
  rw [v1StatusF, act_bind]
  refine runsTo_op hget ?_
  cases sc with
  | none =>
    refine RunsTo.bind (RunsTo.mono (Q := fun _ z => Watching p ok (some (0, 0)) z) ?_ fun _ z hz =>
      v1StatusLoop_finds _ 0 0 _ z (Nat.zero_add _) hz)
    obtain ⟨z, hacquire, hz, hheld⟩ := watch_lwLockAcquire srv hy
    rw [v1StatusFirstCall, pwhLwlockAcquire_bind, act_bind]
    refine runsTo_op hacquire ?_
    refine RunsTo.bind ((requestBackendMetrics_watched _ _ _ z hz hheld).mono fun _ x hx => ?_)
    obtain ⟨u, hrelease, hu⟩ := watch_lwLockRelease srv hx.1 hx.2
    rw [pwhLwlockRelease_bind, act_bind]
    refine runsTo_op hrelease ?_
    obtain ⟨v, hset, hv, -⟩ := watch_setScan srv (some (0, 0)) hu
    exact runsTo_op hset (runsTo_ret hv)
  | some sc =>
    obtain ⟨slotIdx, nodeIdx⟩ := sc
    exact v1StatusLoop_finds _ slotIdx nodeIdx _ y (Nat.add_sub_cancel' hplace) hy

end Call

/-! ## 3. The whole scan

A call goes on behind the row of the call before it, so the places only grow, and `nodesFrom` bounds
how many rows are still to come. -/

section Scan

variable [CDouble D] {srv : Server D} {p : Pid}
  {ok : (Nat → PwhSharedMemoryBackendEntry D) → Prop}

/-- How many nodes there can be from a place on. -/
def nodesFrom (srv : Server D) (start : Nat × Nat) : Nat :=
  (srv.gucs.maxTrackedQueries - start.1) * srv.gucs.maxNodesPerQuery - start.2

omit [CDouble D] in
theorem nodesFrom_next {start : Nat × Nat} {i j : Nat}
    (hle : toLex start ≤ toLex (i, j)) (hi : i < srv.gucs.maxTrackedQueries)
    (hstart : start.2 ≤ srv.gucs.maxNodesPerQuery) (hj : j < srv.gucs.maxNodesPerQuery) :
    nodesFrom srv (i, j + 1) < nodesFrom srv start := by
  simp only [Prod.Lex.toLex_le_toLex] at hle
  obtain ⟨k, hk⟩ := Nat.exists_eq_add_of_lt hi
  unfold nodesFrom
  have hleft : srv.gucs.maxTrackedQueries - i = k + 1 := by omega
  rw [hleft, Nat.succ_mul]
  rcases hle with hlt | ⟨heq, hle⟩
  · have hmore : k + 2 ≤ srv.gucs.maxTrackedQueries - start.1 := by omega
    have hmul := Nat.mul_le_mul_right srv.gucs.maxNodesPerQuery hmore
    rw [Nat.add_mul] at hmul
    omega
  · rw [heq, hleft, Nat.succ_mul]
    omega

/-- What the calls of a scan return from a place on. -/
structure ScansFrom (srv : Server D) (ok : (Nat → PwhSharedMemoryBackendEntry D) → Prop)
    (start : Nat × Nat) (l : List (Nat × Nat)) : Prop where
  length : l.length ≤ nodesFrom srv start
  sorted : l.Pairwise fun a b => toLex a < toLex b
  seen : ∀ pos ∈ l, toLex start ≤ toLex pos ∧ pos.1 < srv.gucs.maxTrackedQueries ∧ Seen ok pos
  missed : ∀ pos, toLex start ≤ toLex pos → pos.1 < srv.gucs.maxTrackedQueries → pos ∉ l →
    Missed ok pos

/-- The calls from one place on, by induction on how many are allowed. -/
theorem scanPositions_from
    (hcount : ∀ entries, ok entries → ∀ i < srv.gucs.maxTrackedQueries,
      (entries i).countOfMetrics.toNat ≤ srv.gucs.maxNodesPerQuery) :
    ∀ calls x sc, Watching p ok sc x → (scanPlace sc).1 ≤ srv.gucs.maxTrackedQueries →
      (scanPlace sc).2 ≤ srv.gucs.maxNodesPerQuery → nodesFrom srv (scanPlace sc) < calls →
      ∃ l, scanPositions srv p calls x = some l ∧ ScansFrom srv ok (scanPlace sc) l := by
  intro calls
  induction calls with
  | zero => exact fun _ _ _ _ _ h => absurd h (Nat.not_lt_zero _)
  | succ calls ih =>
    intro x sc hx hslot hnode hcalls
    obtain ⟨r, y, hrun, hfinds⟩ : RunsTo (watch srv p) (v1StatusF srv)
      (Finds srv p ok (scanPlace sc)) x := v1StatusF_finds hx hslot
    rw [scanPositions, hrun]
    cases hfinds with
    | done hmissed =>
      exact ⟨[], rfl, Nat.zero_le _, .nil, nofun, fun pos hle hlt _ => hmissed pos hle hlt⟩
    | @row row slotIdx nodeIdx _ hy hshown hle hlt hseen hmissed =>
      rw [hshown] at hle hseen hmissed
      obtain ⟨entries, hok, hcounted⟩ := hseen.2
      have hj : nodeIdx.toNat < srv.gucs.maxNodesPerQuery :=
        Nat.lt_of_lt_of_le hcounted (hcount entries hok _ hlt)
      have hmax := srv.gucs.maxNodesPerQuery_le
      have hnext : scanPlace (some (slotIdx, nodeIdx + 1)) =
          (slotIdx.toNat, nodeIdx.toNat + 1) := by
        rw [scanPlace, toNat_succ (by omega)]
      have hfewer := nodesFrom_next hle hlt hnode hj
      rw [← hnext] at hfewer
      obtain ⟨l, hl, hscans⟩ := ih y _ hy (by rw [hnext]; exact Nat.le_of_lt hlt)
        (by rw [hnext]; exact hj) (by omega)
      refine ⟨(slotIdx.toNat, nodeIdx.toNat) :: l, by simp only [hl, hshown, Option.map_some], ?_⟩
      have hbefore : ∀ pos, toLex (scanPlace (some (slotIdx, nodeIdx + 1))) ≤ toLex pos ↔
          toLex (slotIdx.toNat, nodeIdx.toNat) < toLex pos := by
        intro pos
        rw [hnext, Prod.Lex.toLex_le_toLex, Prod.Lex.toLex_lt_toLex]
        rfl
      refine ⟨?_, ?_, ?_, ?_⟩
      · have := hscans.length
        rw [List.length_cons]
        omega
      · exact List.pairwise_cons.mpr ⟨fun pos hpos => (hbefore pos).mp (hscans.seen pos hpos).1,
          hscans.sorted⟩
      · intro pos hpos
        rcases List.mem_cons.mp hpos with rfl | hpos
        · exact ⟨hle, hlt, hseen⟩
        · obtain ⟨hge, hrest⟩ := hscans.seen pos hpos
          exact ⟨hle.trans (le_of_lt ((hbefore pos).mp hge)), hrest⟩
      · intro pos hge hslot' hno
        rw [List.mem_cons, not_or] at hno
        rcases lt_trichotomy (toLex pos) (toLex (slotIdx.toNat, nodeIdx.toNat)) with h | h | h
        · exact hmissed pos hge h
        · exact absurd (toLex.injective h) hno.1
        · exact hscans.missed pos ((hbefore pos).mpr h) hslot' hno.2

omit [CDouble D] in
theorem mem_positions_iff_active {entries : Nat → PwhSharedMemoryBackendEntry D} {pos : Nat × Nat} :
    pos ∈ positions srv entries ↔ pos.1 < srv.gucs.maxTrackedQueries ∧
      (entries pos.1).isActive = true ∧ pos.2 < (entries pos.1).countOfMetrics.toNat := by
  obtain ⟨i, j⟩ := pos
  simp [positions, activeSlots, activeFrom, and_assoc]

omit [CDouble D] in
/-- On a fixed table they come in the order of slots and nodes. -/
theorem positions_sorted (srv : Server D) (entries : Nat → PwhSharedMemoryBackendEntry D) :
    (positions srv entries).Pairwise fun a b => toLex a < toLex b := by
  rw [positions, List.pairwise_flatMap]
  refine ⟨fun i _ => ?_, ?_⟩
  · refine List.pairwise_map.mpr (List.pairwise_lt_range.imp fun h => ?_)
    exact Prod.Lex.toLex_lt_toLex.mpr (.inr ⟨rfl, h⟩)
  · refine ((List.pairwise_lt_range').imp ?_).filter _
    rintro i i' hlt a ha b hb
    obtain ⟨j, -, rfl⟩ := List.mem_map.mp ha
    obtain ⟨j', -, rfl⟩ := List.mem_map.mp hb
    exact Prod.Lex.toLex_lt_toLex.mpr (.inl hlt)

omit [CDouble D] in
theorem start_le (pos : Nat × Nat) : toLex ((0 : Nat), (0 : Nat)) ≤ toLex pos := by
  rw [Prod.Lex.toLex_le_toLex]
  rcases Nat.eq_zero_or_pos pos.1 with heq | hpos
  · exact .inr ⟨heq.symm, Nat.zero_le _⟩
  · exact .inl hpos

omit [CDouble D] in
/-- On one table a scan goes through its counted nodes. -/
theorem ScansFrom.eq_positions {entries : Nat → PwhSharedMemoryBackendEntry D}
    {l : List (Nat × Nat)} (h : ScansFrom srv (· = entries) (0, 0) l) :
    l = positions srv entries := by
  have hmem : ∀ pos, pos ∈ l ↔ pos ∈ positions srv entries := by
    intro pos
    rw [mem_positions_iff_active]
    constructor
    · intro hpos
      obtain ⟨-, hslot, ⟨_, rfl, hactive⟩, _, rfl, hcounted⟩ := h.seen pos hpos
      exact ⟨hslot, hactive, hcounted⟩
    · rintro ⟨hslot, hcounted⟩
      by_contra hno
      obtain ⟨_, rfl, hnot⟩ := h.missed pos (start_le pos) hslot hno
      exact hnot hcounted
  have hnodup : ∀ {l : List (Nat × Nat)}, (l.Pairwise fun a b => toLex a < toLex b) → l.Nodup :=
    fun hl => hl.imp fun hlt => ne_of_apply_ne toLex hlt.ne
  have hperm : l.Perm (positions srv entries) :=
    (List.perm_ext_iff_of_nodup (hnodup h.sorted) (hnodup (positions_sorted srv entries))).mpr hmem
  exact hperm.eq_of_pairwise (fun a b _ _ hab hba => absurd hba (not_lt_of_gt hab)) h.sorted
    (positions_sorted srv entries)

/-- **A scan neither repeats nor skips**, whatever tables its operations meet: it comes to its end
after at most as many rows as the table has nodes, their places increase, and a node that all tables
count is among them.  On one table they are exactly the counted nodes of the active slots. -/
theorem scan_neither_repeats_nor_skips {x : ScanWatch D} (hfirst : (x.state.backends p).scan = none)
    (hlock : x.state.entrySearchLock.exclusive = none)
    (hcount : ∀ n, ∀ i < srv.gucs.maxTrackedQueries,
      (x.tables n i).countOfMetrics.toNat ≤ srv.gucs.maxNodesPerQuery) :
    ∃ l, scanPositions srv p (srv.gucs.maxTrackedQueries * srv.gucs.maxNodesPerQuery + 1) x =
        some l ∧
      (l.Pairwise fun a b => toLex a < toLex b) ∧
      l.length ≤ srv.gucs.maxTrackedQueries * srv.gucs.maxNodesPerQuery ∧
      (∀ pos, (∀ n, pos ∈ positions srv (x.tables n)) → pos ∈ l) ∧
      ∀ entries, (∀ n, x.tables n = entries) → l = positions srv entries := by
  have hscan : ∀ ok : (Nat → PwhSharedMemoryBackendEntry D) → Prop, (∀ n, ok (x.tables n)) →
      (∀ entries, ok entries → ∃ n, x.tables n = entries) →
      ∃ l, scanPositions srv p (srv.gucs.maxTrackedQueries * srv.gucs.maxNodesPerQuery + 1) x =
        some l ∧ ScansFrom srv ok (0, 0) l := by
    intro ok hok hmet
    refine scanPositions_from ?_ _ x none ⟨hok, hlock, hfirst⟩ (Nat.zero_le _) (Nat.zero_le _)
      (Nat.lt_succ_self _)
    intro entries hentries i hi
    obtain ⟨n, rfl⟩ := hmet entries hentries
    exact hcount n i hi
  obtain ⟨l, hl, h⟩ := hscan (fun entries => ∃ n, x.tables n = entries) (fun n => ⟨n, rfl⟩)
    fun _ h => h
  refine ⟨l, hl, h.sorted, h.length, fun pos hall => ?_, fun entries hfixed => ?_⟩
  · by_contra hno
    have hslot := (mem_positions_iff_active.mp (hall 0)).1
    obtain ⟨_, ⟨n, rfl⟩, hnot⟩ := h.missed pos (start_le pos) hslot hno
    exact hnot (mem_positions_iff_active.mp (hall n)).2
  obtain ⟨l', hl', h'⟩ := hscan (· = entries) hfixed fun _ h => ⟨0, by rw [h, hfixed 0]⟩
  cases hl.symm.trans hl'
  exact h'.eq_positions

end Scan

/-- Slot 0 has two counted nodes when the scan comes to it, and is released after the first row. -/
def releasedMeanwhile : ScanWatch ℚ where
  state := State.init
  tables n i :=
    if i = 0 ∧ n < 30 then { PwhSharedMemoryBackendEntry.zero with
      backendPid := 7, countOfMetrics := 2 }
    else .zero
  shown := (0, 0)

/-- Its scan returns the first node only. -/
theorem releasedMeanwhile_scan :
    scanPositions smallServer 9 33 releasedMeanwhile = some [(0, 0)] ∧
      [((0 : Nat), (0 : Nat))].Pairwise fun a b => toLex a < toLex b := by
  have hcount : ∀ n, ∀ i < smallServer.gucs.maxTrackedQueries,
      (releasedMeanwhile.tables n i).countOfMetrics.toNat ≤ smallServer.gucs.maxNodesPerQuery := by
    intro n i _
    simp only [releasedMeanwhile]
    split <;> decide
  have hscan : scanPositions smallServer 9 33 releasedMeanwhile = some [(0, 0)] := by decide +kernel
  obtain ⟨l, hl, hsorted, -⟩ := @scan_neither_repeats_nor_skips ℚ _ smallServer 9
    releasedMeanwhile rfl rfl hcount
  cases hl.symm.trans hscan
  exact ⟨hscan, hsorted⟩

end WhatIsHappening
