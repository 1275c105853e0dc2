/-
# What is written through a slot

The table of the faithful model has slots as records and so cannot show that two of them overlap.
Here it is laid out in memory, byte by byte: `Op.storeInto` is the store of an operation, and
`exec_represents` says that memory follows the table.  Slots are apart because every store goes to
a place (`Place`), and every place of a slot is in its stride (`slots_do_not_overlap`).
-/
import WhatIsHappening.Slots.Layout
import WhatIsHappening.Slots.Representation

namespace WhatIsHappening

open CLib CLib.Memory Interleaving Prog

/-! ## 1. Regions and places -/

namespace SlotSegment

variable (seg : SlotSegment)

/-- The bytes of the segment. -/
def bytes : Set Nat := range seg.shmem seg.size

/-- The bytes of the header, which the lock is in. -/
def lockHeader : Set Nat := range seg.shmem pwhSharedMemoryHeader.size

/-- The bytes of slot `i`, and of its parts: the entry, the text and the node array. -/
def slot (i : Nat) : Set Nat := range (seg.pwhGetBackendEntryUnsafe i) seg.stride

def entryOf (i : Nat) : Set Nat :=
  range (seg.pwhGetBackendEntryUnsafe i) pwhSharedMemoryBackendEntry.size

def textOf (i : Nat) : Set Nat :=
  range (pwhGetBackendEntryQueryText (seg.pwhGetBackendEntryUnsafe i)) seg.maxQueryTextLen

def nodesOf (i : Nat) : Set Nat :=
  range (seg.nodeAddress i 0) (seg.maxNodesPerQuery * pwhNodeMetrics.size)

variable {seg} {i j : Nat}

theorem entryOf_subset : seg.entryOf i ⊆ seg.slot i := by
  refine range_subset le_rfl ?_
  rw [stride_value, sizeof_entry]
  omega

theorem textOf_subset : seg.textOf i ⊆ seg.slot i := by
  unfold textOf pwhGetBackendEntryQueryText
  refine range_subset (Nat.le_add_right _ _) ?_
  rw [stride_value, sizeof_entry]
  omega

theorem nodesOf_subset : seg.nodesOf i ⊆ seg.slot i := by
  unfold nodesOf nodeAddress pwhGetBackendEntryMetrics
  refine range_subset (by omega) ?_
  rw [stride_value, sizeof_entry, sizeof_node]
  omega

theorem entryOf_disjoint_textOf : Disjoint (seg.entryOf i) (seg.textOf i) :=
  range_disjoint (.inl le_rfl)

theorem entryOf_disjoint_nodesOf : Disjoint (seg.entryOf i) (seg.nodesOf i) := by
  refine range_disjoint (.inl ?_)
  unfold nodeAddress pwhGetBackendEntryMetrics
  omega

theorem textOf_disjoint_nodesOf : Disjoint (seg.textOf i) (seg.nodesOf i) := by
  refine range_disjoint (.inl ?_)
  unfold nodeAddress pwhGetBackendEntryMetrics pwhGetBackendEntryQueryText
  omega

/-- A slot ends where the segment does or before. -/
theorem slot_end_le (hi : i < seg.maxTrackedQueries) :
    i * seg.stride + seg.stride ≤ seg.maxTrackedQueries * seg.stride := by
  rw [← Nat.succ_mul]
  exact Nat.mul_le_mul_right _ hi

theorem slot_subset_bytes (hi : i < seg.maxTrackedQueries) : seg.slot i ⊆ seg.bytes := by
  unfold slot bytes
  rw [entryAddress_eq hi]
  refine range_subset (by omega) ?_
  have hend := slot_end_le hi
  have hsize := seg.size_value.1
  omega

theorem slot_disjoint_lockHeader (hi : i < seg.maxTrackedQueries) :
    Disjoint (seg.slot i) seg.lockHeader := by
  unfold slot lockHeader
  rw [entryAddress_eq hi]
  refine range_disjoint (.inr ?_)
  show seg.shmem + 16 ≤ _
  omega

/-- Slots are a stride apart. -/
theorem slot_disjoint_slot (hi : i < seg.maxTrackedQueries) (hj : j < seg.maxTrackedQueries)
    (hij : i ≠ j) : Disjoint (seg.slot i) (seg.slot j) := by
  have hapart : ∀ a b, a < b → a * seg.stride + seg.stride ≤ b * seg.stride := by
    intro a b hab
    rw [← Nat.succ_mul]
    exact Nat.mul_le_mul_right _ hab
  unfold slot
  rw [entryAddress_eq hi, entryAddress_eq hj]
  refine range_disjoint ?_
  rcases Nat.lt_or_gt_of_ne hij with h | h
  · have := hapart i j h
    omega
  · have := hapart j i h
    omega

end SlotSegment

/-- What a store goes to: a member of an entry, a byte of a text, or a member of a node record. -/
inductive Place where
  | entry (i : Nat) (f : EntryField)
  | text (i k : Nat)
  | node (i k : Nat) (f : NodeField)
  deriving DecidableEq, Repr

namespace Place

/-- Its slot. -/
def slot : Place → Nat
  | .entry i _ | .text i _ | .node i _ _ => i

/-- The number of its bytes. -/
def size : Place → Nat
  | .entry _ f => f.place.2.size
  | .text _ _ => 1
  | .node _ _ f => f.place.2.size

/-- Where it begins. -/
def address (seg : SlotSegment) : Place → Nat
  | .entry i f => seg.pwhGetBackendEntryUnsafe i + f.place.1
  | .text i k =>
    SlotSegment.pwhGetBackendEntryQueryText (seg.pwhGetBackendEntryUnsafe i) + k
  | .node i k f => seg.nodeAddress i k + f.place.1

/-- It is not past the end of the text or of the node array. -/
def Within (g : SlotSettings) : Place → Prop
  | .entry _ _ => True
  | .text _ k => k < g.maxQueryTextLen
  | .node _ k _ => k < g.maxNodesPerQuery

/-- ...and its slot is one of the table. -/
def InTable (g : SlotSettings) (pl : Place) : Prop := pl.slot < g.maxTrackedQueries ∧ pl.Within g

/-- Its bytes. -/
def bytes (seg : SlotSegment) (pl : Place) : Set Nat := range (pl.address seg) pl.size

/-- The part of the slot that it belongs to. -/
def part (seg : SlotSegment) : Place → Set Nat
  | .entry i _ => seg.entryOf i
  | .text i _ => seg.textOf i
  | .node i _ _ => seg.nodesOf i

variable {seg : SlotSegment} {pl pl' : Place}

theorem bytes_subset_part (h : pl.Within seg.toSlotSettings) : pl.bytes seg ⊆ pl.part seg := by
  cases pl with
  | entry i f =>
    have hf := f.place_le
    exact range_subset (Nat.le_add_right _ _) (by rw [sizeof_entry, address, size]; omega)
  | text i k =>
    have hk : k < seg.maxQueryTextLen := h
    exact range_subset (Nat.le_add_right _ _) (by rw [address, size]; omega)
  | node i k f =>
    have hk : k < seg.maxNodesPerQuery := h
    have hf := f.place_le
    refine range_subset ?_ ?_
    · simp only [address, SlotSegment.nodeAddress]
      omega
    · simp only [address, size, SlotSegment.nodeAddress, sizeof_node]
      omega

theorem part_subset_slot (pl : Place) : pl.part seg ⊆ seg.slot pl.slot := by
  cases pl with
  | entry i f => exact SlotSegment.entryOf_subset
  | text i k => exact SlotSegment.textOf_subset
  | node i k f => exact SlotSegment.nodesOf_subset

theorem bytes_subset_slot (h : pl.Within seg.toSlotSettings) : pl.bytes seg ⊆ seg.slot pl.slot :=
  (bytes_subset_part h).trans pl.part_subset_slot

/-- Different places share no byte. -/
theorem bytes_disjoint (h : pl.InTable seg.toSlotSettings) (h' : pl'.InTable seg.toSlotSettings)
    (hne : pl ≠ pl') : Disjoint (pl.bytes seg) (pl'.bytes seg) := by
  by_cases hslot : pl.slot = pl'.slot
  · cases pl <;> cases pl' <;> simp only [slot] at hslot <;> subst hslot
    case entry.entry i f f' =>
      have hf : f ≠ f' := fun heq => hne (congrArg _ heq)
      refine range_disjoint ?_
      have := EntryField.apart hf
      simp only [address, size]
      omega
    case text.text i k k' =>
      have hk : k ≠ k' := fun heq => hne (congrArg _ heq)
      refine range_disjoint ?_
      simp only [address, size]
      omega
    case node.node i k f k' f' =>
      refine range_disjoint ?_
      simp only [address, size, SlotSegment.nodeAddress, sizeof_node]
      by_cases hk : k = k'
      · subst hk
        have hf : f ≠ f' := fun heq => hne (congrArg _ heq)
        have := NodeField.apart hf
        omega
      · have hf := f.place_le
        have hf' := f'.place_le
        omega
    all_goals
      refine Disjoint.mono (bytes_subset_part h.2) (bytes_subset_part h'.2) ?_
    case entry.text => exact SlotSegment.entryOf_disjoint_textOf
    case entry.node => exact SlotSegment.entryOf_disjoint_nodesOf
    case text.entry => exact SlotSegment.entryOf_disjoint_textOf.symm
    case text.node => exact SlotSegment.textOf_disjoint_nodesOf
    case node.entry => exact SlotSegment.entryOf_disjoint_nodesOf.symm
    case node.text => exact SlotSegment.textOf_disjoint_nodesOf.symm
  · exact Disjoint.mono (bytes_subset_slot h.2) (bytes_subset_slot h'.2)
      (SlotSegment.slot_disjoint_slot h.1 h'.1 hslot)

end Place

/-! ## 2. Stores -/

/-- How the platform stores a `double` and numbers the node tags. -/
structure Abi (D : Type) where
  double : D → List UInt8
  nodeTag : NodeTag → UInt32
  length_double : ∀ x, (double x).length = 8

variable {D : Type}

/-- The bytes of a value of a node record's member. -/
def NodeField.bytes (abi : Abi D) : (f : NodeField) → f.ty D → List UInt8
  | .tag, v => leBytes 4 (abi.nodeTag v).toNat
  | .nodeId, v | .parentNodeId, v => leBytes 4 v.toNat
  | .tuplesReturned, v | .loopsExecuted, v | .startupTimeUs, v | .totalTimeUs, v => abi.double v
  | .rowsFilteredByJoins, v | .rowsFilteredByExpressions, v => abi.double v
  | .cacheHits, v | .cacheMisses, v | .localCacheHits, v | .localCacheMisses, v =>
    leBytes 8 v.toNat
  | .spillFileReads, v | .spillFileWrites, v | .magic, v => leBytes 8 v.toNat

theorem NodeField.length_bytes (abi : Abi D) (f : NodeField) (v : f.ty D) :
    (f.bytes abi v).length = f.place.2.size := by
  cases f
  case tuplesReturned => exact abi.length_double v
  case loopsExecuted => exact abi.length_double v
  case startupTimeUs => exact abi.length_double v
  case totalTimeUs => exact abi.length_double v
  case rowsFilteredByJoins => exact abi.length_double v
  case rowsFilteredByExpressions => exact abi.length_double v
  all_goals exact length_leBytes _ _

namespace Op

/-- What an operation writes. -/
def place : Op D → Option Place
  | .writeBackendPid i _ => some (.entry i .backendPid)
  | .incPollGeneration i => some (.entry i .pollGeneration)
  | .writeCountOfMetrics i _ => some (.entry i .countOfMetrics)
  | .writeQueryStartTime i _ => some (.entry i .queryStartTime)
  | .writeQueryId i _ => some (.entry i .queryId)
  | .writeQueryTextByte i k _ => some (.text i k)
  | .writeNode i k f _ => some (.node i k f)
  | _ => none

/-- The bytes it writes there in place of `old`. -/
def bytes (abi : Abi D) (old : List UInt8) : Op D → List UInt8
  | .writeBackendPid _ p => leBytes 4 p.val
  | .incPollGeneration _ => leBytes 4 (leValue old + 1)
  | .writeCountOfMetrics _ n => leBytes 4 n.toNat
  | .writeQueryStartTime _ t => leBytes 8 t.toUInt64.toNat
  | .writeQueryId _ id => leBytes 8 id.toNat
  | .writeQueryTextByte _ _ b => [b]
  | .writeNode _ _ f v => f.bytes abi v
  | _ => []

/-- Its effect on memory. -/
def storeInto (seg : SlotSegment) (abi : Abi D) (o : Op D) (m : Memory) : Memory :=
  match o.place with
  | none => m
  | some pl => m.store (pl.address seg) (o.bytes abi (m.load (pl.address seg) pl.size))

/-- The addresses it writes. -/
def written (seg : SlotSegment) (o : Op D) : Set Nat :=
  match o.place with
  | none => ∅
  | some pl => pl.bytes seg

variable {o : Op D} {abi : Abi D} {seg : SlotSegment} {m : Memory} {pl : Place}

theorem length_bytes (h : o.place = some pl) (old : List UInt8) :
    (o.bytes abi old).length = pl.size := by
  cases o <;> cases h
  case writeNode i k f v => exact f.length_bytes abi v
  case writeQueryTextByte => rfl
  all_goals exact length_leBytes _ _

theorem storeInto_of_none (h : o.place = none) : o.storeInto seg abi m = m := by
  rw [storeInto, h]

theorem storeInto_of_some (h : o.place = some pl) : o.storeInto seg abi m =
    m.store (pl.address seg) (o.bytes abi (m.load (pl.address seg) pl.size)) := by
  rw [storeInto, h]

/-- Nothing else changes. -/
theorem storeInto_of_notMem {x : Nat} (h : x ∉ o.written seg) : o.storeInto seg abi m x = m x := by
  cases hpl : o.place with
  | none => rw [storeInto_of_none hpl]
  | some pl =>
    rw [storeInto_of_some hpl]
    refine store_of_notMem ?_
    rw [length_bytes hpl]
    rwa [written, hpl] at h

end Op

/-! ## 3. Memory and the table -/

/-- What the table has at a place. -/
def State.bytesAt (abi : Abi D) (s : State D) : Place → List UInt8
  | .entry i .backendPid => leBytes 4 (s.entries i).backendPid.val
  | .entry i .queryId => leBytes 8 (s.entries i).queryId.toNat
  | .entry i .pollGeneration => leBytes 4 (s.entries i).pollGeneration.toNat
  | .entry i .queryStartTime => leBytes 8 (s.entries i).queryStartTime.toUInt64.toNat
  | .entry i .countOfMetrics => leBytes 4 (s.entries i).countOfMetrics.toNat
  | .text i k => [(s.entries i).queryText k]
  | .node i k f => f.bytes abi (((s.entries i).metrics k).get f)

/-- Memory has what the table has, at every place of the segment. -/
def Represents (seg : SlotSegment) (abi : Abi D) (m : Memory) (s : State D) : Prop :=
  ∀ pl : Place, pl.InTable seg.toSlotSettings →
    m.load (pl.address seg) pl.size = s.bytesAt abi pl

section Representation

variable {srv : Server D} {p : Pid} {o : Op D} {e : Env D} {s t : State D} {r : Res o}
  {abi : Abi D} {seg : SlotSegment} {m : Memory} {pl : Place}

/-- The place that an operation writes. -/
theorem bytesAt_exec_self (h : exec srv p o e s = some (r, t)) (hpl : o.place = some pl) :
    t.bytesAt abi pl = o.bytes abi (s.bytesAt abi pl) := by
  cases o <;> cases hpl <;> cases h
  case incPollGeneration i =>
    have hlt : (s.entries i).pollGeneration.toNat < 256 ^ 4 := (s.entries i).pollGeneration.toNat_lt
    have hsum : ((s.entries i).pollGeneration + 1).toNat =
        ((s.entries i).pollGeneration.toNat + 1) % 256 ^ 4 := UInt32.toNat_add _ _
    simp only [State.bytesAt, Op.bytes, State.entries_modifyEntry_self, hsum]
    rw [leValue_leBytes hlt, leBytes_mod]
  case writeNode i k f v => simp [State.bytesAt, Op.bytes]
  all_goals simp [State.bytesAt, Op.bytes]

/-- An operation that writes no place leaves the table alone. -/
theorem entries_exec_of_none (h : exec srv p o e s = some (r, t)) (hpl : o.place = none) :
    t.entries = s.entries := by
  cases o
  case mark m => cases m <;> cases h <;> rfl
  case lwLockAcquire m =>
    obtain ⟨l, -, hl⟩ := Option.map_eq_some_iff.mp h
    cases hl
    rfl
  case lwLockRelease =>
    simp only [exec] at h
    split at h <;> cases h <;> rfl
  case readInstrument ps => cases h; cases e.instrument <;> rfl
  case raisesHere => cases h; cases e.raises <;> rfl
  all_goals first | (cases h; rfl) | cases hpl

/-- What is at a place depends on its slot only. -/
theorem bytesAt_congr (h : t.entries pl.slot = s.entries pl.slot) :
    t.bytesAt abi pl = s.bytesAt abi pl := by
  cases pl with
  | entry i f => cases f <;> simp only [State.bytesAt, show t.entries i = s.entries i from h]
  | text i k => simp only [State.bytesAt, show t.entries i = s.entries i from h]
  | node i k f => simp only [State.bytesAt, show t.entries i = s.entries i from h]

/-- A change of the entry `i` that keeps what is at a place of it. -/
theorem bytesAt_modifyEntry {i : Nat}
    {f : PwhSharedMemoryBackendEntry D → PwhSharedMemoryBackendEntry D}
    (h : pl.slot = i → (s.modifyEntry i f).bytesAt abi pl = s.bytesAt abi pl) :
    (s.modifyEntry i f).bytesAt abi pl = s.bytesAt abi pl := by
  by_cases hi : pl.slot = i
  · exact h hi
  · exact bytesAt_congr (State.entries_modifyEntry_of_ne s f hi)

/-- A change of one member of the entry `i` shows at the place of that member only. -/
theorem bytesAt_modifyEntry_member {i : Nat} {g : EntryField}
    {f : PwhSharedMemoryBackendEntry D → PwhSharedMemoryBackendEntry D}
    (hothers : ∀ f' ≠ g,
      (s.modifyEntry i f).bytesAt abi (.entry i f') = s.bytesAt abi (.entry i f'))
    (htext : ∀ be, (f be).queryText = be.queryText) (hmetrics : ∀ be, (f be).metrics = be.metrics)
    (hne : pl ≠ .entry i g) : (s.modifyEntry i f).bytesAt abi pl = s.bytesAt abi pl := by
  refine bytesAt_modifyEntry fun hi => ?_
  cases pl with
  | entry j f' =>
    obtain rfl : j = i := hi
    exact hothers f' fun hf => hne (congrArg _ hf)
  | text j k =>
    obtain rfl : j = i := hi
    simp [State.bytesAt, htext]
  | node j k f' =>
    obtain rfl : j = i := hi
    simp [State.bytesAt, hmetrics]

/-- Every other place. -/
theorem bytesAt_exec_of_ne (h : exec srv p o e s = some (r, t)) (hpl : o.place ≠ some pl) :
    t.bytesAt abi pl = s.bytesAt abi pl := by
  cases o
  case writeQueryTextByte i k b =>
    cases h
    refine bytesAt_modifyEntry fun hi => ?_
    cases pl with
    | entry j f => cases f <;> cases hi <;> simp [State.bytesAt, Place.slot]
    | text j k' =>
      cases hi
      have hk : k' ≠ k := fun hk => hpl (by rw [hk]; rfl)
      simp [State.bytesAt, Place.slot, hk]
    | node j k' f => cases hi; simp [State.bytesAt, Place.slot]
  case writeNode i k f v =>
    cases h
    refine bytesAt_modifyEntry fun hi => ?_
    cases pl with
    | entry j g => cases g <;> cases hi <;> simp [State.bytesAt, Place.slot]
    | text j k' => cases hi; simp [State.bytesAt, Place.slot]
    | node j k' g =>
      cases hi
      by_cases hk : k' = k
      · subst hk
        have hg : g ≠ f := fun hg => hpl (by rw [hg]; rfl)
        simp [State.bytesAt, Place.slot, PwhNodeMetrics.get_set_of_ne _ _ hg]
      · simp [State.bytesAt, Place.slot, hk]
  case writeBackendPid i v =>
    -- the process that gives a slot up changes as well
    have hentries :
        t.entries = (s.modifyEntry i fun be => { be with backendPid := v }).entries := by
      cases h
      rfl
    rw [bytesAt_congr (congrFun hentries _)]
    refine bytesAt_modifyEntry_member (fun g hg => ?_) (fun _ => rfl) (fun _ => rfl)
      fun hg => hpl (congrArg some hg.symm)
    cases g <;> first | exact absurd rfl hg | simp [State.bytesAt]
  -- another member of an entry, or nothing
  all_goals first
    | exact bytesAt_congr (congrFun (entries_exec_of_none h rfl) _)
    | (cases h
       refine bytesAt_modifyEntry_member (fun g hg => ?_) (fun _ => rfl) (fun _ => rfl)
         fun hg => hpl (congrArg some hg.symm)
       cases g <;> first | exact absurd rfl hg | simp [State.bytesAt])

/-- **Memory follows the table.** -/
theorem exec_represents (hm : Represents seg abi m s) (h : exec srv p o e s = some (r, t))
    (hin : ∀ pl, o.place = some pl → pl.InTable seg.toSlotSettings) :
    Represents seg abi (o.storeInto seg abi m) t := by
  intro pl hpl
  cases ho : o.place with
  | none =>
    have hne : o.place ≠ some pl := by simp [ho]
    rw [Op.storeInto_of_none ho, bytesAt_exec_of_ne h hne]
    exact hm pl hpl
  | some pl' =>
    rw [Op.storeInto_of_some ho, hm pl' (hin pl' ho)]
    by_cases hsame : pl' = pl
    · subst hsame
      rw [bytesAt_exec_self h ho, ← Op.length_bytes ho (s.bytesAt abi pl')]
      exact load_store_self
    · have hne : o.place ≠ some pl := by simpa [ho] using hsame
      have happart := Place.bytes_disjoint (hin pl' ho) hpl hsame
      rw [bytesAt_exec_of_ne h hne, ← hm pl hpl]
      refine load_store_of_disjoint ?_
      rw [Op.length_bytes ho]
      exact happart

/-- The stores of some operations, one after the other. -/
def storeAll (seg : SlotSegment) (abi : Abi D) (ops : List (Op D)) (m : Memory) : Memory :=
  ops.foldl (fun m o => o.storeInto seg abi m) m

end Representation

/-! ## 4. The actions -/

/-- What the extension does through a slot. -/
inductive SlotAction (D : Type) where
  | claim (p : Pid)
  | release
  | countOfMetrics (n : UInt32)
  | queryStartTime (t : Int64)
  | queryId (id : UInt64)
  | queryText (text : Option CString)
  | remember (planstate : Option PlanStatePtr)
  | collect (planstate : Option PlanStatePtr)

/-- No operation writes anything but slot `i`, nor past the end of its text or its node array. -/
def Op.WritesSlot (g : SlotSettings) (i : Nat) (o : Op D) : Prop :=
  ∀ pl, o.place = some pl → pl.slot = i ∧ pl.Within g

section Actions

variable [CDouble D] {srv : Server D} {g : SlotSettings} {i : Nat}

/-- ...under any settings: the text copy is bounded by the length of the text, the walks by the
length of the node array. -/
def SlotAction.program (srv : Server D) (g : SlotSettings) (i : Nat) :
    SlotAction D → PgProg D Unit
  | .claim p => act (.writeBackendPid i p)
  | .release => pwhReleaseBackendEntryUnlocked i
  | .countOfMetrics n => act (.writeCountOfMetrics i n)
  | .queryStartTime t => act (.writeQueryStartTime i t)
  | .queryId id => act (.writeQueryId i id)
  | .queryText (some text) => writeQueryText i (snprintfWrites g.maxQueryTextLen text)
  | .queryText none => act (.writeQueryTextByte i 0 0)
  | .remember ps => do
    let _ ← pwhRememberPlanstateTreeAsMetricStructure srv ps i g.maxNodesPerQuery
    return ()
  | .collect ps => pwhCollectPlanstateMetrics srv ps i g.maxNodesPerQuery

omit [CDouble D] in
theorem writesSlot_of_none {o : Op D} (h : o.place = none) : o.WritesSlot g i := by
  intro pl hpl
  rw [h] at hpl
  cases hpl

omit [CDouble D] in
theorem writesSlot_of_some {o : Op D} {pl : Place} (h : o.place = some pl) (hi : pl.slot = i)
    (hin : pl.Within g) : o.WritesSlot g i := by
  intro pl' hpl
  obtain rfl : pl = pl' := Option.some.inj (h.symm.trans hpl)
  exact ⟨hi, hin⟩

omit [CDouble D] in
/-- The operations of a walk that keeps to the node array. -/
theorem writesSlot_of_walk {o : Op D} (ho : o.OfWalk i)
    (hbelow : ∀ i' k f v, o = .writeNode i' k f v → k < g.maxNodesPerQuery) :
    o.WritesSlot g i := by
  cases o
  case writeNode i' k f v =>
    obtain rfl : i' = i := ho
    exact writesSlot_of_some rfl rfl (hbelow _ _ _ _ rfl)
  all_goals first | exact writesSlot_of_none rfl | exact ho.elim

theorem remember_writesSlot (ps : Option PlanStatePtr) :
    (pwhRememberPlanstateTreeAsMetricStructure srv ps i g.maxNodesPerQuery).All
      (Op.WritesSlot g i) :=
  pwhRememberPlanstateTreeAsMetricStructure_all_of (fun _ => writesSlot_of_walk) ps

theorem collect_writesSlot (ps : Option PlanStatePtr) :
    (pwhCollectPlanstateMetrics srv ps i g.maxNodesPerQuery).All (Op.WritesSlot g i) :=
  pwhCollectPlanstateMetrics_all_of (fun _ => writesSlot_of_walk) ps

/-- An action writes its own slot only. -/
theorem SlotAction.program_all (srv : Server D) (a : SlotAction D) :
    (a.program srv g i).All (Op.WritesSlot g i) := by
  cases a with
  | claim p => exact act_all (writesSlot_of_some rfl rfl trivial) fun _ => trivial
  | release =>
    exact act_all (writesSlot_of_some rfl rfl trivial) fun _ =>
      act_all (writesSlot_of_some rfl rfl trivial) fun _ => trivial
  | countOfMetrics n => exact act_all (writesSlot_of_some rfl rfl trivial) fun _ => trivial
  | queryStartTime t => exact act_all (writesSlot_of_some rfl rfl trivial) fun _ => trivial
  | queryId id => exact act_all (writesSlot_of_some rfl rfl trivial) fun _ => trivial
  | queryText text =>
    cases text with
    | none => exact act_all (writesSlot_of_some rfl rfl g.maxQueryTextLen_pos) fun _ => trivial
    | some text =>
      exact writeQueryText_all _ fun w hw =>
        writesSlot_of_some rfl rfl (snprintfWrites_good g.maxQueryTextLen_pos text w hw).1
  | remember ps => exact (remember_writesSlot ps).bind fun _ => trivial
  | collect ps => exact collect_writesSlot ps

/-- Recording a query writes the slot of its entry only, under the settings of the server. -/
theorem trackQuery_writesSlot {p : Pid} (be : Nat) (q : QueryDescPtr) :
    (trackQuery srv p be q).All (Op.WritesSlot srv.gucs.slotSettings be) := by
  unfold trackQuery
  refine act_all (writesSlot_of_none rfl) fun _ =>
    Prog.All.bind (remember_writesSlot (g := srv.gucs.slotSettings) _) fun numNodes => ?_
  refine act_all (writesSlot_of_some rfl rfl trivial) fun _ =>
    act_all (writesSlot_of_none rfl) fun now =>
    act_all (writesSlot_of_some rfl rfl trivial) fun _ => Prog.All.bind ?_ fun queryId =>
    act_all (writesSlot_of_some rfl rfl trivial) fun _ => Prog.All.bind ?_ fun _ =>
    act_all (writesSlot_of_none rfl) fun _ => trivial
  · unfold getQueryId
    split
    · exact act_all (writesSlot_of_none rfl) fun _ => trivial
    · trivial
  · unfold copyQueryText
    split
    · exact SlotAction.program_all srv (.queryText (some _))
    · exact SlotAction.program_all srv (.queryText none)

end Actions

/-! ## 5. The result -/

section Apart

variable {seg : SlotSegment} {abi : Abi D} {o : Op D} {ops : List (Op D)} {i j x : Nat}

/-- A store through slot `i` goes to a part of that slot. -/
theorem written_subset_slot (h : o.WritesSlot seg.toSlotSettings i) :
    o.written seg ⊆ seg.slot i := by
  cases hpl : o.place with
  | none =>
    rw [Op.written, hpl]
    exact Set.empty_subset _
  | some pl =>
    obtain ⟨rfl, hin⟩ := h pl hpl
    rw [Op.written, hpl]
    exact Place.bytes_subset_slot hin

/-- What no operation writes stays as it is. -/
theorem storeAll_of_notMem (h : ∀ o ∈ ops, x ∉ o.written seg) (m : Memory) :
    storeAll seg abi ops m x = m x := by
  induction ops generalizing m with
  | nil => rfl
  | cons o ops ih =>
    have hrest := ih (fun o ho => h o (List.mem_cons_of_mem _ ho)) (o.storeInto seg abi m)
    exact hrest.trans (Op.storeInto_of_notMem (h o List.mem_cons_self))

/-- What is written through slot `i` is in its stride and in the segment, the text and the node
array of the slot are disjoint, and slot `j` and the header are left as they are. -/
structure ApartFrom (seg : SlotSegment) (abi : Abi D) (i j : Nat) (ops : List (Op D)) : Prop where
  inSlot : ∀ o ∈ ops, o.written seg ⊆ seg.slot i ∩ seg.bytes
  parts : Disjoint (seg.textOf i) (seg.nodesOf i)
  inPart : ∀ o ∈ ops, ∀ pl, o.place = some pl → pl.bytes seg ⊆ pl.part seg
  oneStore : ∀ o ∈ ops, ∀ m, ∀ x ∈ seg.slot j ∪ seg.lockHeader, o.storeInto seg abi m x = m x
  allStores : ∀ m, ∀ x ∈ seg.slot j ∪ seg.lockHeader, storeAll seg abi ops m x = m x

theorem apartFrom_of_writesSlot (hi : i < seg.maxTrackedQueries) (hj : j < seg.maxTrackedQueries)
    (hij : i ≠ j) (h : ∀ o ∈ ops, o.WritesSlot seg.toSlotSettings i) :
    ApartFrom seg abi i j ops := by
  have hout : ∀ o ∈ ops, ∀ x ∈ seg.slot j ∪ seg.lockHeader, x ∉ o.written seg := by
    intro o ho x hx hwritten
    have hslot := written_subset_slot (h o ho) hwritten
    rcases hx with hx | hx
    · exact Set.disjoint_left.mp (SlotSegment.slot_disjoint_slot hi hj hij) hslot hx
    · exact Set.disjoint_left.mp (SlotSegment.slot_disjoint_lockHeader hi) hslot hx
  constructor
  case inSlot =>
    intro o ho x hx
    have hslot := written_subset_slot (h o ho) hx
    exact ⟨hslot, SlotSegment.slot_subset_bytes hi hslot⟩
  case parts => exact SlotSegment.textOf_disjoint_nodesOf
  case inPart => exact fun o ho pl hpl => Place.bytes_subset_part (h o ho pl hpl).2
  case oneStore => exact fun o ho m x hx => Op.storeInto_of_notMem (hout o ho x hx)
  case allStores => exact fun m x hx => storeAll_of_notMem (fun o ho => hout o ho x hx) m

end Apart

/-- **Slots do not overlap**, whatever the settings: the operations of an action through slot `i`,
as far as it gets and whatever it reads, stay in slot `i`. -/
theorem slots_do_not_overlap [CDouble D] (srv : Server D) (seg : SlotSegment) (abi : Abi D)
    {i j : Nat} (hi : i < seg.maxTrackedQueries) (hj : j < seg.maxTrackedQueries) (hij : i ≠ j)
    (a : SlotAction D) {ops : List (Op D)}
    (hops : (a.program srv seg.toSlotSettings i).Performs ops) : ApartFrom seg abi i j ops :=
  apartFrom_of_writesSlot hi hj hij ((a.program_all srv).performs hops)

/-- A number that is not negative as the bits of a `binary64`; digits that do not fit are cut
off. -/
def binary64 (x : ℚ) : Nat :=
  let scaled := x.num.toNat * 2 ^ 1100 / x.den
  if scaled = 0 then 0
  else (scaled.log2 - 78) * 2 ^ 52 + scaled * 2 ^ 52 / 2 ^ scaled.log2

/-- An ABI with `binary64` numbers, whose node tags are numbered as they are declared. -/
def binary64Abi : Abi ℚ where
  double x := leBytes 8 (binary64 x)
  nodeTag
    | .other n => UInt32.ofNat (64 * n)
    | tag => UInt32.ofNat (tag.ctorIdx + 1)
  length_double _ := length_leBytes _ _

example : binary64 1 = 0x3FF0000000000000 ∧ binary64 (3 / 2) = 0x3FF8000000000000 := by
  decide +kernel

/-- A limit over a scan. -/
def limitServer : Server ℚ :=
  { smallServer with
    planState := fun ps =>
      if ps = 10 then { plan := some .limit, lefttree := some 11 }
      else { plan := some .seqScan } }

/-- The plan, the id and the text of a query, its NUL included, written through the second slot. -/
theorem limitPlan_apart :
    ApartFrom (Gucs.segment {} 4096) binary64Abi 1 0
      ([.stackFramesLeft, .mark (.rememberNode 1 0 10)] ++
        (topologyFields 0 (-1) .limit).map (fun w => .writeNode 1 0 w.1 w.2) ++
        [.mark (.rememberNode 1 1 11)] ++
        (topologyFields 1 0 .seqScan).map fun w => .writeNode 1 1 w.1 w.2) ∧
    ApartFrom (Gucs.segment {} 4096) binary64Abi 1 0 [.writeQueryId 1 10] ∧
    ApartFrom (Gucs.segment {} 4096) binary64Abi 1 0
      [.writeQueryTextByte 1 0 97, .writeQueryTextByte 1 1 98, .writeQueryTextByte 1 2 0] := by
  refine ⟨?plan, ?id, ?text⟩
  case plan =>
    refine slots_do_not_overlap limitServer (Gucs.segment {} 4096) binary64Abi (by decide)
      (by decide) (by decide) (.remember (some 10)) ⟨rfl, 5, ?_⟩
    repeat refine ⟨rfl, (), ?_⟩
    exact trivial
  case id =>
    exact slots_do_not_overlap limitServer (Gucs.segment {} 4096) binary64Abi (by decide)
      (by decide) (by decide) (.queryId 10) ⟨rfl, (), trivial⟩
  case text =>
    exact slots_do_not_overlap limitServer (Gucs.segment {} 4096) binary64Abi (by decide)
      (by decide) (by decide) (.queryText (some ⟨[97, 98], by decide⟩))
      ⟨rfl, (), rfl, (), rfl, (), trivial⟩

end WhatIsHappening
