/-
# Where the slots are

`shared_memory.c` lays the slots out by hand: a slot is its entry structure, the text region and the
node array, one behind the other and nothing rounded.  So every address behind the first text region
is aligned only where the length of that region is a multiple of 8 (`slots_aligned_iff`).
-/
import WhatIsHappening.Entry
import WhatIsHappening.Lib.Memory
import WhatIsHappening.Startup

namespace WhatIsHappening

open CLib CLib.Memory

/-! ## 1. The structures -/

/-- The C types of the members. -/
def cInt32 : CType := ⟨4, 4⟩

/-- `u64`, `double`, `TimestampTz` and pointers. -/
def cInt64 : CType := ⟨8, 8⟩

/-- `PwhSharedMemoryHeader`, of the size that a static assertion gives it. -/
def pwhSharedMemoryHeader : CType := ⟨16, 8⟩

/-- The members of `PwhSharedMemoryBackendEntry`. -/
inductive EntryField where
  | backendPid | queryId | pollGeneration | queryStartTime | countOfMetrics
  deriving DecidableEq, Repr

/-- Their types, in order. -/
def entryMembers : List CType := [cInt32, cInt64, cInt32, cInt64, cInt32]

/-- `PwhSharedMemoryBackendEntry`. -/
def pwhSharedMemoryBackendEntry : CType := structType entryMembers

/-- `PwhNodeMetrics.execution` and `PwhNodeMetrics.buffer_usage`: six `double`s and six `u64`s. -/
def sixMembers : List CType := List.replicate 6 cInt64

/-- The members of `PwhNodeMetrics`. -/
def nodeMembers : List CType :=
  [cInt32, cInt32, cInt32, structType sixMembers, structType sixMembers, cInt64]

/-- `PwhNodeMetrics`. -/
def pwhNodeMetrics : CType := structType nodeMembers

/-- Where a member of an entry begins, and its type. -/
def EntryField.place : EntryField → Nat × CType
  | .backendPid => member entryMembers 0
  | .queryId => member entryMembers 1
  | .pollGeneration => member entryMembers 2
  | .queryStartTime => member entryMembers 3
  | .countOfMetrics => member entryMembers 4

/-- A member of the `k`-th member of a node record, which is a structure itself. -/
def innerMember (k j : Nat) : Nat × CType :=
  ((member nodeMembers k).1 + (member sixMembers j).1, (member sixMembers j).2)

/-- Where a member of a node record begins, and its type. -/
def NodeField.place : NodeField → Nat × CType
  | .tag => member nodeMembers 0
  | .nodeId => member nodeMembers 1
  | .parentNodeId => member nodeMembers 2
  | .tuplesReturned => innerMember 3 0
  | .loopsExecuted => innerMember 3 1
  | .startupTimeUs => innerMember 3 2
  | .totalTimeUs => innerMember 3 3
  | .rowsFilteredByJoins => innerMember 3 4
  | .rowsFilteredByExpressions => innerMember 3 5
  | .cacheHits => innerMember 4 0
  | .cacheMisses => innerMember 4 1
  | .localCacheHits => innerMember 4 2
  | .localCacheMisses => innerMember 4 3
  | .spillFileReads => innerMember 4 4
  | .spillFileWrites => innerMember 4 5
  | .magic => member nodeMembers 5

theorem sizeof_entry : pwhSharedMemoryBackendEntry.size = 40 := by decide

theorem sizeof_node : pwhNodeMetrics.size = 120 := by decide

theorem EntryField.place_le (f : EntryField) : f.place.1 + f.place.2.size ≤ 40 := by
  cases f <;> decide

theorem NodeField.place_le (f : NodeField) : f.place.1 + f.place.2.size ≤ 120 := by
  cases f <;> decide

/-- Different members do not overlap. -/
theorem EntryField.apart {f g : EntryField} (h : f ≠ g) :
    f.place.1 + f.place.2.size ≤ g.place.1 ∨ g.place.1 + g.place.2.size ≤ f.place.1 := by
  cases f <;> cases g <;> first | exact absurd rfl h | decide

theorem NodeField.apart {f g : NodeField} (h : f ≠ g) :
    f.place.1 + f.place.2.size ≤ g.place.1 ∨ g.place.1 + g.place.2.size ≤ f.place.1 := by
  cases f <;> cases g <;> first | exact absurd rfl h | decide

/-! ## 2. Sizes -/

/-- The settings a layout depends on. -/
structure SlotSettings where
  maxTrackedQueries : Nat
  maxNodesPerQuery : Nat
  maxQueryTextLen : Nat
  maxTrackedQueries_pos : 0 < maxTrackedQueries := by decide
  maxNodesPerQuery_pos : 0 < maxNodesPerQuery := by decide
  maxQueryTextLen_pos : 0 < maxQueryTextLen := by decide

namespace SlotSettings

/-- `calc_backend_entry_stride` for any settings. -/
def calcBackendEntryStride (g : SlotSettings) : Option Nat := do
  let size ← addSize pwhSharedMemoryBackendEntry.size g.maxQueryTextLen
  addSize size (← mulSize g.maxNodesPerQuery pwhNodeMetrics.size)

/-- `calc_shared_memory_size`. -/
def calcSharedMemorySize (g : SlotSettings) : Option Nat := do
  let size ← addSize 0 pwhSharedMemoryHeader.size
  addSize size (← mulSize g.maxTrackedQueries (← g.calcBackendEntryStride))

end SlotSettings

/-- The segment as `pwh_shared_memory_startup_hook` sets it up: `PWH_SHMEM`, `PWH_SHMEM_SIZE` and
`PWH_BACKEND_ENTRY_STRIDE`. -/
structure SlotSegment extends SlotSettings where
  shmem : Nat
  stride : Nat
  size : Nat
  stride_eq : toSlotSettings.calcBackendEntryStride = some stride
  size_eq : toSlotSettings.calcSharedMemorySize = some size

namespace SlotSegment

variable (seg : SlotSegment)

/-- `PWH_GET_BACKEND_ENTRY_UNSAFE`; the product is one of `Size`s. -/
def pwhGetBackendEntryUnsafe (idx : Nat) : Nat :=
  seg.shmem + pwhSharedMemoryHeader.size + idx * seg.stride % (SIZE_MAX + 1)

/-- `pwh_get_backend_entry_query_text`. -/
def pwhGetBackendEntryQueryText (entry : Nat) : Nat := entry + pwhSharedMemoryBackendEntry.size

/-- `pwh_get_backend_entry_metrics`. -/
def pwhGetBackendEntryMetrics (entry : Nat) : Nat :=
  entry + pwhSharedMemoryBackendEntry.size + seg.maxQueryTextLen

/-- `&metrics[k]` of a slot. -/
def nodeAddress (idx k : Nat) : Nat :=
  seg.pwhGetBackendEntryMetrics (seg.pwhGetBackendEntryUnsafe idx) + k * pwhNodeMetrics.size

end SlotSegment

theorem addSize_eq_some {s₁ s₂ s : Nat} (h : addSize s₁ s₂ = some s) :
    s = s₁ + s₂ ∧ s ≤ SIZE_MAX := by
  unfold addSize at h
  split at h
  · cases h
    exact ⟨rfl, by assumption⟩
  · cases h

theorem mulSize_eq_some {s₁ s₂ s : Nat} (h : mulSize s₁ s₂ = some s) : s = s₁ * s₂ := by
  unfold mulSize at h
  split at h
  · cases h
    rfl
  · cases h

namespace SlotSegment

variable {seg : SlotSegment}

theorem stride_value :
    seg.stride = 40 + seg.maxQueryTextLen + seg.maxNodesPerQuery * 120 := by
  have h := seg.stride_eq
  obtain ⟨size, hsize, h⟩ := Option.bind_eq_some_iff.mp h
  obtain ⟨nodes, hnodes, h⟩ := Option.bind_eq_some_iff.mp h
  rw [(addSize_eq_some h).1, (addSize_eq_some hsize).1, mulSize_eq_some hnodes, sizeof_entry,
    sizeof_node]

theorem size_value : seg.size = 16 + seg.maxTrackedQueries * seg.stride ∧
    seg.size ≤ SIZE_MAX := by
  have h := seg.size_eq
  obtain ⟨stride, hstride, h⟩ := Option.bind_eq_some_iff.mp h
  obtain ⟨slots, hslots, h⟩ := Option.bind_eq_some_iff.mp h
  have hstride : seg.stride = stride := Option.some.inj (seg.stride_eq.symm.trans hstride)
  obtain ⟨hsize, hlt⟩ := addSize_eq_some h
  refine ⟨?_, hlt⟩
  rw [hsize, mulSize_eq_some hslots, hstride]
  rfl

/-- The product does not overflow for a slot of the table. -/
theorem entryAddress_eq {i : Nat} (hi : i < seg.maxTrackedQueries) :
    seg.pwhGetBackendEntryUnsafe i = seg.shmem + 16 + i * seg.stride := by
  obtain ⟨hsize, hlt⟩ := seg.size_value
  have hle : i * seg.stride ≤ seg.maxTrackedQueries * seg.stride :=
    Nat.mul_le_mul_right _ (Nat.le_of_lt hi)
  rw [pwhGetBackendEntryUnsafe, Nat.mod_eq_of_lt (by omega)]
  rfl

theorem nodeAddress_eq {i : Nat} (hi : i < seg.maxTrackedQueries) (k : Nat) :
    seg.nodeAddress i k =
      seg.shmem + 16 + i * seg.stride + 40 + seg.maxQueryTextLen + k * 120 := by
  rw [nodeAddress, pwhGetBackendEntryMetrics, entryAddress_eq hi, sizeof_entry, sizeof_node]

end SlotSegment

/-! ## 3. Alignment -/

/-- The settings of a server. -/
def Gucs.slotSettings (g : Gucs) : SlotSettings where
  maxTrackedQueries := g.maxTrackedQueries
  maxNodesPerQuery := g.maxNodesPerQuery
  maxQueryTextLen := g.maxQueryTextLen
  maxTrackedQueries_pos := Nat.lt_of_lt_of_le (by decide) g.maxTrackedQueries_range.1
  maxNodesPerQuery_pos := Nat.lt_of_lt_of_le (by decide) g.maxNodesPerQuery_range.1
  maxQueryTextLen_pos := g.maxQueryTextLen_pos

/-- They make the sizes those of the startup hook. -/
theorem Gucs.slotSettings_stride (g : Gucs) :
    g.slotSettings.calcBackendEntryStride = calcBackendEntryStride g := by
  have hentry : pwhSharedMemoryBackendEntry.size = sizeofPwhSharedMemoryBackendEntry := by decide
  have hnode : pwhNodeMetrics.size = sizeofPwhNodeMetrics := by decide
  rw [SlotSettings.calcBackendEntryStride, hentry, hnode]
  rfl

theorem Gucs.slotSettings_size (g : Gucs) :
    g.slotSettings.calcSharedMemorySize = calcSharedMemorySize g := by
  rw [SlotSettings.calcSharedMemorySize, g.slotSettings_stride]
  rfl

/-- The segment of a server, at an address. -/
def Gucs.segment (g : Gucs) (shmem : Nat) : SlotSegment where
  toSlotSettings := g.slotSettings
  shmem := shmem
  stride := strideOf g
  size := sizeofPwhSharedMemoryHeader + g.maxTrackedQueries * strideOf g
  stride_eq := g.slotSettings_stride.trans (calcBackendEntryStride_eq g)
  size_eq := g.slotSettings_size.trans (calcSharedMemorySize_eq g)

/-- The slots of a segment are aligned: the entries and the node records at multiples of 8, and so
every member at a multiple of the alignment of its type. -/
structure NaturallyAligned (seg : SlotSegment) : Prop where
  entries : ∀ i < seg.maxTrackedQueries, 8 ∣ seg.pwhGetBackendEntryUnsafe i
  nodes : ∀ i < seg.maxTrackedQueries, ∀ k < seg.maxNodesPerQuery, 8 ∣ seg.nodeAddress i k
  entryFields : ∀ i < seg.maxTrackedQueries, ∀ f : EntryField,
    f.place.2.align ∣ seg.pwhGetBackendEntryUnsafe i + f.place.1
  nodeFields : ∀ i < seg.maxTrackedQueries, ∀ k < seg.maxNodesPerQuery, ∀ f : NodeField,
    f.place.2.align ∣ seg.nodeAddress i k + f.place.1

section Alignment

variable (seg : SlotSegment)

theorem EntryField.aligned (f : EntryField) :
    f.place.2.align ∣ 8 ∧ f.place.2.align ∣ f.place.1 := by
  cases f <;> decide

theorem NodeField.aligned (f : NodeField) : f.place.2.align ∣ 8 ∧ f.place.2.align ∣ f.place.1 := by
  cases f <;> decide

/-- With the entries and the node records their members are aligned. -/
theorem naturallyAligned_of_eights
    (hentries : ∀ i < seg.maxTrackedQueries, 8 ∣ seg.pwhGetBackendEntryUnsafe i)
    (hnodes : ∀ i < seg.maxTrackedQueries, ∀ k < seg.maxNodesPerQuery, 8 ∣ seg.nodeAddress i k) :
    NaturallyAligned seg where
  entries := hentries
  nodes := hnodes
  entryFields i hi f := Nat.dvd_add (f.aligned.1.trans (hentries i hi)) f.aligned.2
  nodeFields i hi k hk f := Nat.dvd_add (f.aligned.1.trans (hnodes i hi k hk)) f.aligned.2

/-- The first node record of the first slot shows how long the text region is. -/
theorem dvd_of_naturallyAligned (hbase : 8 ∣ seg.shmem) (h : NaturallyAligned seg) :
    8 ∣ seg.maxQueryTextLen := by
  have hfirst := h.nodes 0 seg.maxTrackedQueries_pos 0 seg.maxNodesPerQuery_pos
  rw [SlotSegment.nodeAddress_eq seg.maxTrackedQueries_pos] at hfirst
  omega

theorem naturallyAligned_of_dvd (hbase : 8 ∣ seg.shmem) (h : 8 ∣ seg.maxQueryTextLen) :
    NaturallyAligned seg := by
  have hstride : 8 ∣ seg.stride := by
    rw [SlotSegment.stride_value]
    omega
  have hentry : ∀ i, 8 ∣ i * seg.stride := fun i => hstride.mul_left i
  refine naturallyAligned_of_eights seg (fun i hi => ?_) fun i hi k _ => ?_
  · rw [SlotSegment.entryAddress_eq hi]
    have := hentry i
    omega
  · rw [SlotSegment.nodeAddress_eq hi]
    have := hentry i
    omega

end Alignment

/-- **The slots are aligned** exactly for the text lengths that are multiples of 8. -/
theorem slots_aligned_iff (g : Gucs) {shmem : Nat} (hbase : 8 ∣ shmem) :
    NaturallyAligned (g.segment shmem) ↔ 8 ∣ g.maxQueryTextLen :=
  ⟨dvd_of_naturallyAligned _ hbase,
    naturallyAligned_of_dvd (g.segment shmem) hbase⟩

/-- The default settings. -/
theorem defaults_aligned : NaturallyAligned (Gucs.segment {} 4096) :=
  (slots_aligned_iff {} (by decide)).mpr (by decide)

/-- One byte more of query text. -/
theorem oddText_not_aligned : ¬ ∀ (g : Gucs) (shmem : Nat), 8 ∣ shmem →
    NaturallyAligned (g.segment shmem) := by
  intro h
  have hodd := h { maxQueryTextLen := 1025 } 4096 (by decide)
  exact absurd (dvd_of_naturallyAligned _ (by decide) hodd) (by decide)

end WhatIsHappening
