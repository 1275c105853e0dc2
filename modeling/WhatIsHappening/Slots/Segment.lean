/-
# The segment through every run

`Slots.Apart` lays the table out in memory and follows one operation.  Here memory is followed from
the startup hook on, through all runs of all processes (`memorySystem`): it has what the table has,
whatever a process reads of the table is what stands at the address, and no access leaves the slots
(`segment_holds_the_table`).

That a record that is read and the end of a text are inside their regions rests on the
representation invariant; all other accesses are bounded by the programs themselves.
-/
import WhatIsHappening.Slots.InTable

namespace WhatIsHappening

open CLib CLib.Memory Interleaving Prog

variable {D : Type}

/-! ## 1. The startup hook -/

namespace SlotSegment

variable (seg : SlotSegment)

/-- The loop of `pwh_shared_memory_startup_hook`: `k` entries from `i` on are left. -/
def clearEntries : (k i : Nat) → Memory → Memory
  | 0, _, m => m
  | k + 1, i, m =>
    let be := seg.pwhGetBackendEntryUnsafe i
    let m := m.store be (List.replicate seg.stride 0)
    clearEntries k (i + 1) (m.store (be + EntryField.backendPid.place.1) (List.replicate 4 0))

/-- What `pwh_shared_memory_startup_hook` does to the segment it got, which it found or which is
new; `lock` is what `LWLockInitialize` stores. -/
def startupHook (wasFound : Bool) (lock : List UInt8) (m : Memory) : Memory :=
  if wasFound then m else (seg.clearEntries seg.maxTrackedQueries 0 m).store seg.shmem lock

variable {seg} {m : Memory} {x : Nat}

/-- The pid is a part of its slot: what is in the slot is cleared, what is not stays. -/
theorem clearEntry_of_mem {i : Nat} (hx : x ∈ seg.slot i) :
    (m.store (seg.pwhGetBackendEntryUnsafe i) (List.replicate seg.stride 0)).store
      (seg.pwhGetBackendEntryUnsafe i + EntryField.backendPid.place.1) (List.replicate 4 0) x =
        0 := by
  by_cases hpid : x ∈ (Place.entry i .backendPid).bytes seg
  · exact store_zeros hpid
  · exact (store_zeros_of_notMem hpid).trans (store_zeros hx)

theorem clearEntry_of_notMem {i : Nat} (hx : x ∉ seg.slot i) :
    (m.store (seg.pwhGetBackendEntryUnsafe i) (List.replicate seg.stride 0)).store
      (seg.pwhGetBackendEntryUnsafe i + EntryField.backendPid.place.1) (List.replicate 4 0) x =
        m x := by
  have hin : (Place.entry i .backendPid).Within seg.toSlotSettings := trivial
  have hpid : x ∉ (Place.entry i .backendPid).bytes seg := fun h =>
    hx (Place.bytes_subset_slot hin h)
  exact (store_zeros_of_notMem hpid).trans (store_zeros_of_notMem hx)

/-- What is in none of the entries that are left stays. -/
theorem clearEntries_of_notMem :
    ∀ (k i : Nat) (m : Memory), (∀ j, i ≤ j → j < i + k → x ∉ seg.slot j) →
      seg.clearEntries k i m x = m x
  | 0, _, _, _ => rfl
  | k + 1, i, m, hx => by
    have hrest := clearEntries_of_notMem k (i + 1)
      ((m.store (seg.pwhGetBackendEntryUnsafe i) (List.replicate seg.stride 0)).store
        (seg.pwhGetBackendEntryUnsafe i + EntryField.backendPid.place.1) (List.replicate 4 0))
      fun j hj hlt => hx j (by omega) (by omega)
    exact hrest.trans (clearEntry_of_notMem (hx i (Nat.le_refl i) (by omega)))

/-- What is zero stays zero, since nothing else is stored. -/
theorem clearEntries_zero :
    ∀ (k i : Nat) (m : Memory), m x = 0 → seg.clearEntries k i m x = 0
  | 0, _, _, hx => hx
  | k + 1, i, m, hx => by
    refine clearEntries_zero k (i + 1) _ ?_
    by_cases hmem : x ∈ seg.slot i
    · exact clearEntry_of_mem hmem
    · exact (clearEntry_of_notMem hmem).trans hx

/-- Every entry that is left is cleared. -/
theorem clearEntries_of_mem {j : Nat} (hx : x ∈ seg.slot j) :
    ∀ (k i : Nat) (m : Memory), i ≤ j → j < i + k → seg.clearEntries k i m x = 0
  | 0, _, _, hij, hj => absurd hj (by omega)
  | k + 1, i, m, hij, hj => by
    by_cases hi : i = j
    · subst hi
      exact clearEntries_zero k (i + 1) _ (clearEntry_of_mem hx)
    · exact clearEntries_of_mem hx k (i + 1) _ (by omega) (by omega)

end SlotSegment

/-- Cleared memory is zero as a `double` and as a tag. -/
structure Abi.Cleared [CDouble D] (abi : Abi D) : Prop where
  double : abi.double (CDouble.ofNat 0) = List.replicate 8 0
  nodeTag : abi.nodeTag (.other 0) = 0

section Startup

variable {seg : SlotSegment} {abi : Abi D} {lock : List UInt8} {m : Memory}

theorem leBytes_zero (size : Nat) : leBytes size 0 = List.replicate size 0 := by
  induction size with
  | zero => rfl
  | succ size ih => rw [leBytes, Nat.zero_div, ih]; rfl

/-- The first table is zero everywhere. -/
theorem bytesAt_init [CDouble D] (hz : abi.Cleared) (pl : Place) :
    (State.init : State D).bytesAt abi pl = List.replicate pl.size 0 := by
  cases pl with
  | entry i f => cases f <;> exact leBytes_zero _
  | text i k => rfl
  | node i k f =>
    cases f
    case tag =>
      have htag : (abi.nodeTag (.other 0)).toNat = 0 := by rw [hz.nodeTag]; rfl
      exact (congrArg (leBytes 4) htag).trans (leBytes_zero 4)
    case tuplesReturned => exact hz.double
    case loopsExecuted => exact hz.double
    case startupTimeUs => exact hz.double
    case totalTimeUs => exact hz.double
    case rowsFilteredByJoins => exact hz.double
    case rowsFilteredByExpressions => exact hz.double
    all_goals exact leBytes_zero _

/-- **After the startup hook the segment is the first table**, whatever it held before. -/
theorem startupHook_represents [CDouble D] (hz : abi.Cleared) (hlock : lock.length = 16) :
    Represents seg abi (seg.startupHook false lock m) (State.init : State D) := by
  intro pl hpl
  rw [bytesAt_init hz]
  refine load_eq_zeros fun x hx => ?_
  have hslot : x ∈ seg.slot pl.slot := Place.bytes_subset_slot hpl.2 hx
  have hout : x ∉ range seg.shmem lock.length := by
    rw [hlock]
    exact Set.disjoint_left.mp (SlotSegment.slot_disjoint_lockHeader hpl.1) hslot
  refine (store_of_notMem hout).trans ?_
  refine SlotSegment.clearEntries_of_mem hslot _ 0 m (Nat.zero_le _) ?_
  rw [Nat.zero_add]
  exact hpl.1

/-- ...with the lock in its header, and nothing else touched. -/
theorem startupHook_header (hlock : lock.length = 16) :
    (seg.startupHook false lock m).load seg.shmem 16 = lock := by
  rw [← hlock]
  exact load_store_self

theorem startupHook_outside (hlock : lock.length = 16) {x : Nat} (hx : x ∉ seg.bytes) :
    seg.startupHook false lock m x = m x := by
  have hout : x ∉ range seg.shmem lock.length := by
    refine fun h => hx (range_subset le_rfl ?_ h)
    have := seg.size_value.1
    omega
  refine (store_of_notMem hout).trans (SlotSegment.clearEntries_of_notMem _ 0 m fun j _ hj => ?_)
  rw [Nat.zero_add] at hj
  exact fun h => hx (SlotSegment.slot_subset_bytes hj h)

end Startup

/-! ## 2. What is read -/

/-- What an operation reads as one value. -/
def Op.source : Op D → Option Place
  | .readBackendPid i | .pollBackendPid i _ => some (.entry i .backendPid)
  | .readCountOfMetrics i => some (.entry i .countOfMetrics)
  | .readQueryId i => some (.entry i .queryId)
  | .readNode i k f => some (.node i k f)
  | _ => none

/-- The bytes of the value it is answered. -/
def Op.answerBytes (abi : Abi D) : (o : Op D) → Res o → List UInt8
  | .readBackendPid _, p | .pollBackendPid _ _, p => leBytes 4 p.val
  | .readCountOfMetrics _, n => leBytes 4 n.toNat
  | .readQueryId _, id => leBytes 8 id.toNat
  | .readNode _ _ f, v => f.bytes abi v
  | _, _ => []

section Reads

variable {srv : Server D} {p : Pid} {o : Op D} {e : Env D} {s t : State D} {r : Res o}
  {abi : Abi D} {seg : SlotSegment} {m : Memory}

/-- It is answered what the table has there. -/
theorem answerBytes_eq (h : exec srv p o e s = some (r, t)) {pl : Place}
    (hpl : o.source = some pl) : o.answerBytes abi r = s.bytesAt abi pl := by
  cases o <;> cases hpl <;> cases h <;> rfl

/-- It reads the slot that it accesses. -/
theorem source_slot {pl : Place} (hpl : o.source = some pl) : o.slotIdx = some pl.slot := by
  cases o <;> cases hpl <;> rfl

theorem place_slot {pl : Place} (hpl : o.place = some pl) : o.slotIdx = some pl.slot := by
  cases o <;> cases hpl <;> rfl

/-- The text of a slot, as memory has it. -/
theorem load_text {i : Nat} (hm : Represents seg abi m s) (hi : i < seg.maxTrackedQueries) :
    m.load (SlotSegment.pwhGetBackendEntryQueryText (seg.pwhGetBackendEntryUnsafe i))
      seg.maxQueryTextLen = (List.range seg.maxQueryTextLen).map (s.entries i).queryText := by
  refine List.map_congr_left fun k hk => ?_
  have hbyte := hm (.text i k) ⟨hi, List.mem_range.mp hk⟩
  exact List.cons.inj hbyte |>.1

/-- Its NUL is in its region, so a reader of the string stays there. -/
theorem text_hasString {i : Nat} (hm : Represents seg abi m s) (hi : i < seg.maxTrackedQueries)
    (hnul : ∃ k < seg.maxQueryTextLen, (s.entries i).queryText k = 0) :
    ((s.entries i).text seg.maxQueryTextLen).length < seg.maxQueryTextLen ∧
      m.HasString (SlotSegment.pwhGetBackendEntryQueryText (seg.pwhGetBackendEntryUnsafe i))
        ((s.entries i).text seg.maxQueryTextLen) := by
  have hload := load_text hm hi
  have hbytes : ∃ k < seg.maxQueryTextLen,
      m (SlotSegment.pwhGetBackendEntryQueryText (seg.pwhGetBackendEntryUnsafe i) + k) = 0 := by
    obtain ⟨k, hk, hz⟩ := hnul
    exact ⟨k, hk, (List.cons.inj (hm (.text i k) ⟨hi, hk⟩)).1.trans hz⟩
  have hstring := hasString_of_nul hbytes
  rw [hload] at hstring
  exact hstring

end Reads

/-! ## 3. Every run -/

/-- All processes, and the segment that their stores go to. -/
def memorySystem [CDouble D] (srv : Server D) (seg : SlotSegment) (abi : Abi D) :
    System Pid (Call D) Empty (Env D) (State D × Memory) (Res (D := D)) :=
  (clusterSystem srv).tracing fun _ o m => o.storeInto seg abi m

/-- Every process idle, over a segment. -/
def memoryInit [CDouble D] (m : Memory) : Config Pid (State D × Memory) (Res (D := D)) :=
  ⟨(.init, m), fun _ => .ret ()⟩

/-- What any run over a segment that holds `m` at first may reach. -/
def ReachesOver [CDouble D] (srv : Server D) (seg : SlotSegment) (abi : Abi D) (m : Memory)
    (c : Config Pid (State D × Memory) (Res (D := D))) : Prop :=
  (memorySystem srv seg abi).Reach (fun d e => anyRun (System.untraced d) e) (memoryInit m) c

/-- The segment has the table; what a process reads of the table it would read there, inside the
region that the value is of; what it stores stays in its slot, and no store to the table has
reached the lock or changed anything else that was in memory at the start. -/
structure HoldsTable (srv : Server D) (seg : SlotSegment) (abi : Abi D) (lock : List UInt8)
    (m : Memory) (c : Config Pid (State D × Memory) (Res (D := D))) : Prop where
  represents : Represents seg abi c.shared.2 c.shared.1
  reads : ∀ p o k e r t, c.thread p = .op o k → exec srv p o e c.shared.1 = some (r, t) →
    ∀ pl, o.source = some pl → pl.InTable seg.toSlotSettings ∧
      c.shared.2.load (pl.address seg) pl.size = o.answerBytes abi r
  texts : ∀ p i k e text t, c.thread p = .op (.readQueryText i) k →
    exec srv p (.readQueryText i) e c.shared.1 = some (text, t) →
    i < seg.maxTrackedQueries ∧ text.length < seg.maxQueryTextLen ∧ c.shared.2.HasString
      (SlotSegment.pwhGetBackendEntryQueryText (seg.pwhGetBackendEntryUnsafe i)) text
  writes : ∀ p o k, c.thread p = .op o k → ∀ pl, o.place = some pl →
    pl.InTable seg.toSlotSettings ∧ pl.bytes seg ⊆ pl.part seg ∩ seg.slot pl.slot
  header : c.shared.2.load seg.shmem pwhSharedMemoryHeader.size = lock
  outside : ∀ x ∉ seg.bytes, c.shared.2 x = m x

section Runs

variable [CDouble D] {srv : Server D} {shmem : Nat} {abi : Abi D} {m₀ : Memory}
  {c : Config Pid (State D × Memory) (Res (D := D))}

/-- Every operation that is left to do goes to the table. -/
theorem reach_inTable (h : ReachesOver srv (srv.gucs.segment shmem) abi m₀ c) (p : Pid) :
    (c.thread p).All fun o => o.SlotBelow srv.gucs.maxTrackedQueries ∧
      o.WritesWithin srv.gucs.slotSettings := by
  have hidle : ∀ q, ((memoryInit m₀ : Config Pid (State D × Memory) (Res (D := D))).thread q).All
      fun o : Op D => o.SlotBelow srv.gucs.maxTrackedQueries ∧
        o.WritesWithin srv.gucs.slotSettings := fun _ => trivial
  refine System.Reach.all hidle ?_ ?_ h p
  · intro q cl s prog hent
    obtain ⟨-, hprog⟩ := Option.ite_none_right_eq_some.mp hent
    cases hprog
    exact cl.program_slotBelow.and cl.program_writesWithin
  · intro q s prog hint
    obtain ⟨-, hprog⟩ := Option.ite_none_right_eq_some.mp hint
    cases hprog
    exact deliverSigusr2_slotBelow.and deliverSigusr2_writesWithin

theorem reach_place_inTable (h : ReachesOver srv (srv.gucs.segment shmem) abi m₀ c) {p : Pid}
    {o : Op D} {k : Res o → PgProg D Unit} (hp : c.thread p = .op o k) {pl : Place}
    (hpl : o.place = some pl) :
    pl.InTable (srv.gucs.segment shmem).toSlotSettings := by
  have hall := reach_inTable h p
  rw [hp] at hall
  exact ⟨hall.1.1 _ (place_slot hpl), hall.1.2 pl hpl⟩

/-- One event keeps memory and table together, and changes memory in the slots only. -/
theorem memory_step {c' : Config Pid (State D × Memory) (Res (D := D))}
    {e : Event Pid (Call D) Empty (Env D)}
    (h : ReachesOver srv (srv.gucs.segment shmem) abi m₀ c)
    (hm : Represents (srv.gucs.segment shmem) abi c.shared.2 c.shared.1)
    (hs : (memorySystem srv (srv.gucs.segment shmem) abi).step c e = some c') :
    Represents (srv.gucs.segment shmem) abi c'.shared.2 c'.shared.1 ∧
      ∀ x, (∀ i < srv.gucs.maxTrackedQueries, x ∉ (srv.gucs.segment shmem).slot i) →
        c'.shared.2 x = c.shared.2 x := by
  cases e with
  | run p e =>
    simp only [System.step] at hs
    split at hs
    · rename_i o k hp
      obtain ⟨⟨r, st⟩, hx, rfl⟩ := Option.map_eq_some_iff.mp hs
      obtain ⟨⟨r', t⟩, hexec, hrt⟩ := Option.map_eq_some_iff.mp hx
      cases hrt
      refine ⟨exec_represents hm hexec fun pl hpl => reach_place_inTable h hp hpl, ?_⟩
      intro x hx
      refine Op.storeInto_of_notMem fun hwritten => ?_
      cases hpl : o.place with
      | none =>
        rw [Op.written, hpl] at hwritten
        exact hwritten
      | some pl =>
        rw [Op.written, hpl] at hwritten
        have hin := reach_place_inTable h hp hpl
        exact hx pl.slot hin.1 (Place.bytes_subset_slot hin.2 hwritten)
    · cases hs
  | call p cl =>
    simp only [System.step] at hs
    split at hs
    · cases hs
    · obtain ⟨prog, -, rfl⟩ := Option.map_eq_some_iff.mp hs
      exact ⟨hm, fun _ _ => rfl⟩
  | interrupt p =>
    obtain ⟨prog, -, rfl⟩ := Option.map_eq_some_iff.mp hs
    exact ⟨hm, fun _ _ => rfl⟩
  | external x => exact x.elim

theorem memory_reach (hm : Represents (srv.gucs.segment shmem) abi m₀ (State.init : State D))
    (h : ReachesOver srv (srv.gucs.segment shmem) abi m₀ c) :
    Represents (srv.gucs.segment shmem) abi c.shared.2 c.shared.1 ∧
      ∀ x, (∀ i < srv.gucs.maxTrackedQueries, x ∉ (srv.gucs.segment shmem).slot i) →
        c.shared.2 x = m₀ x := by
  induction h with
  | start => exact ⟨hm, fun _ _ => rfl⟩
  | step hr _ hs ih =>
    obtain ⟨hm', hout⟩ := memory_step hr ih.1 hs
    exact ⟨hm', fun x hx => (hout x hx).trans (ih.2 x hx)⟩

/-- **The segment holds the table in every run of all processes**, from the startup hook on, and
whatever was in it before: the table of the model is no more than a reading of these bytes. -/
theorem segment_holds_the_table (srv : Server D) (shmem : Nat) {abi : Abi D} (hz : abi.Cleared)
    {lock : List UInt8} (hlock : lock.length = 16) (m : Memory)
    {c : Config Pid (State D × Memory) (Res (D := D))}
    (h : ReachesOver srv (srv.gucs.segment shmem) abi
      ((srv.gucs.segment shmem).startupHook false lock m) c) :
    HoldsTable srv (srv.gucs.segment shmem) abi lock m c := by
  obtain ⟨hm, hout⟩ := memory_reach (startupHook_represents hz hlock) h
  have hcluster : (clusterSystem srv).Reach anyRun clusterInit (System.untraced c) :=
    System.Reach.untraced h
  have hall := representation_holds hcluster
  constructor
  case represents => exact hm
  case header =>
    refine Eq.trans (load_congr fun x hx => hout x fun i hi => ?_) (startupHook_header hlock)
    exact Set.disjoint_right.mp (SlotSegment.slot_disjoint_lockHeader hi) hx
  case outside =>
    intro x hx
    have hslots : ∀ i < srv.gucs.maxTrackedQueries, x ∉ (srv.gucs.segment shmem).slot i :=
      fun i hi hmem => hx (SlotSegment.slot_subset_bytes hi hmem)
    exact (hout x hslots).trans (startupHook_outside hlock hx)
  case writes =>
    intro p o k hp pl hpl
    have hin := reach_place_inTable h hp hpl
    exact ⟨hin, Set.subset_inter (Place.bytes_subset_part hin.2) (Place.bytes_subset_slot hin.2)⟩
  case reads =>
    intro p o k e r t hp hexec pl hpl
    have hbelow := reach_inTable h p
    rw [hp] at hbelow
    have hin : pl.InTable (srv.gucs.segment shmem).toSlotSettings := by
      refine ⟨hbelow.1.1 _ (source_slot hpl), ?_⟩
      cases o <;> cases hpl
      case readNode i j f =>
        exact ((System.Sound.guar_of_holds (representation_sound srv) hall hp
          (e := e) trivial hexec).2.1.reads i j f rfl).1
      all_goals trivial
    exact ⟨hin, (hm pl hin).trans (answerBytes_eq hexec hpl).symm⟩
  case texts =>
    intro p i k e text t hp hexec
    have hbelow := reach_inTable h p
    rw [hp] at hbelow
    have hi := hbelow.1.1 i rfl
    cases hexec
    have hnul := (hall.1 i).text
    exact ⟨hi, text_hasString hm hi ⟨_, Nat.sub_lt srv.gucs.maxQueryTextLen_pos Nat.one_pos, hnul⟩⟩

end Runs

theorem binary64Abi_cleared : binary64Abi.Cleared := ⟨by decide +kernel, rfl⟩

set_option maxRecDepth 10000 in
/-- A process that has started a limit over a scan, over a segment that was full of sevens: its pid
is in the first entry, and the second record has the tag of the scan. -/
theorem segment_holds_the_first_query : ∃ c : Config Pid (State ℚ × Memory) (Res (D := ℚ)),
    HoldsTable limitServer (limitServer.gucs.segment 4096) binary64Abi (List.replicate 16 1)
        (fun _ => 7) c ∧
      c.shared.2.load 4112 4 = [1, 0, 0, 0] ∧
      c.shared.2.load ((Place.node 0 1 .tag).address (limitServer.gucs.segment 4096)) 4 =
        [8, 0, 0, 0] := by
  have hrun : ∃ c, (clusterSystem limitServer).Reach anyRun clusterInit c ∧
      decide (c.shared.pid 0 = 1 ∧ ((c.shared.entries 0).metrics 1).tag = .seqScan) = true :=
    System.exists_reach (clusterSystem limitServer) (fun _ _ => true) (fun _ _ _ => trivial)
      clusterInit (startQuery 1 10 ++ runs 1 17) _ (by decide +kernel)
  obtain ⟨c, hc, hshown⟩ := hrun
  obtain ⟨d, hd, rfl⟩ : ∃ d, ReachesOver limitServer (limitServer.gucs.segment 4096) binary64Abi
      ((limitServer.gucs.segment 4096).startupHook false (List.replicate 16 1) fun _ => 7) d ∧
      System.untraced d = c := System.Reach.tracing _ hc
  have hlock : (List.replicate 16 (1 : UInt8)).length = 16 := rfl
  have hholds :=
    segment_holds_the_table limitServer 4096 binary64Abi_cleared hlock (fun _ => 7) hd
  have hval : (d.shared.1.entries 0).backendPid = 1 ∧
      ((d.shared.1.entries 0).metrics 1).tag = .seqScan := of_decide_eq_true hshown
  refine ⟨d, hholds, ?pid, ?tag⟩
  case pid =>
    refine (hholds.represents (.entry 0 .backendPid) ⟨by decide, trivial⟩).trans ?_
    simp only [State.bytesAt, hval.1]
    decide
  case tag =>
    have hrecord : 1 < limitServer.gucs.maxNodesPerQuery := by decide
    refine (hholds.represents (.node 0 1 .tag) ⟨by decide, hrecord⟩).trans ?_
    simp only [State.bytesAt, PwhNodeMetrics.get, hval.2]
    decide

end WhatIsHappening
