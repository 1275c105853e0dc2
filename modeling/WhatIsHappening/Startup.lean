/-
# Reserving shared memory

When the server starts, the library asks for shared memory and allocates it later: before 15 both
happen in its `shmem_startup_hook`, from 15 on the request is made by a hook of its own, which the
server calls first.  What is asked for is the variable `PWH_SHMEM_SIZE`, what is allocated is
`calc_shared_memory_size()`.
-/
import WhatIsHappening.Common

namespace WhatIsHappening

/-! ## 1. Sizes -/

/-- The size of a C structure whose members, of the sizes `fields`, are aligned to their sizes. -/
def structSize (fields : List Nat) : Nat :=
  let align (n a : Nat) := (n + a - 1) / a * a
  align (fields.foldl (fun n a => align n a + a) 0) (fields.foldl max 1)

/-- `sizeof(PwhSharedMemoryHeader)`, which the source asserts. -/
def sizeofPwhSharedMemoryHeader : Nat := 16

/-- `sizeof(PwhSharedMemoryBackendEntry)`: the pid, the query id, the poll generation, the start
time and the count. -/
def sizeofPwhSharedMemoryBackendEntry : Nat := structSize [4, 8, 4, 8, 4]

/-- `sizeof(PwhNodeMetrics)`: the tag and two ids, six doubles, six counters and the magic. -/
def sizeofPwhNodeMetrics : Nat :=
  structSize ([4, 4, 4] ++ List.replicate 6 8 ++ List.replicate 6 8 ++ [8])

example : sizeofPwhSharedMemoryBackendEntry = 40 ∧ sizeofPwhNodeMetrics = 120 := by decide

/-- `SIZE_MAX` of a 64-bit system. -/
def SIZE_MAX : Nat := 18446744073709551615

/-- `add_size`; `none` is its error "requested shared memory size overflows size_t". -/
def addSize (s1 s2 : Nat) : Option Nat := if s1 + s2 ≤ SIZE_MAX then some (s1 + s2) else none

/-- `mul_size`. -/
def mulSize (s1 s2 : Nat) : Option Nat := if s1 * s2 ≤ SIZE_MAX then some (s1 * s2) else none

/-- `calc_backend_entry_stride`. -/
def calcBackendEntryStride (g : Gucs) : Option Nat := do
  let size ← addSize sizeofPwhSharedMemoryBackendEntry g.maxQueryTextLen
  addSize size (← mulSize g.maxNodesPerQuery sizeofPwhNodeMetrics)

/-- `calc_shared_memory_size`. -/
def calcSharedMemorySize (g : Gucs) : Option Nat := do
  let size ← addSize 0 sizeofPwhSharedMemoryHeader
  addSize size (← mulSize g.maxTrackedQueries (← calcBackendEntryStride g))

/-! ## 2. Startup -/

/-- Where the request is made: `compatibility/15-18.h` and `19.h` against the older headers. -/
inductive RequestPlace where
  | requestHook
  | startupHook
  deriving DecidableEq, Repr

/-- The calls that reserve and allocate shared memory. -/
inductive ShmemCall where
  | requestAddinShmemSpace (size : Nat)
  | shmemInitStruct (size : Nat)
  deriving DecidableEq, Repr

/-- The variables of the library in the postmaster, the calls it has made, and the state `σ` of the
server and of other libraries. -/
structure Postmaster (σ : Type) where
  pwhShmemSize : Nat
  pwhBackendEntryStride : Nat
  calls : List ShmemCall
  others : σ

/-- The hooks that were installed before; they know nothing of this library's variables. -/
structure PrevHooks (σ : Type) where
  shmemRequest : Option (σ → σ)
  shmemStartup : Option (σ → σ)

namespace Postmaster

variable {σ : Type}

/-- A postmaster that has loaded the library. -/
def init (others : σ) : Postmaster σ where
  pwhShmemSize := 0
  pwhBackendEntryStride := 0
  calls := []
  others := others

/-- `if (PREV_HOOK) PREV_HOOK();` -/
def callPrev (prev : Option (σ → σ)) (s : Postmaster σ) : Postmaster σ :=
  match prev with
  | some hook => { s with others := hook s.others }
  | none => s

/-- A call of the server. -/
def call (c : ShmemCall) (s : Postmaster σ) : Postmaster σ := { s with calls := s.calls ++ [c] }

/-- `pwh_shmem_request_hook_impl`. -/
def pwhShmemRequestHookImpl (prev : PrevHooks σ) (s : Postmaster σ) : Postmaster σ :=
  (s.callPrev prev.shmemRequest).call (.requestAddinShmemSpace s.pwhShmemSize)

/-- `PWH_SHMEM_REQUEST_IN_STARTUP_HOOK`. -/
def pwhShmemRequestInStartupHook (place : RequestPlace) (s : Postmaster σ) : Postmaster σ :=
  match place with
  | .requestHook => s
  | .startupHook => s.call (.requestAddinShmemSpace s.pwhShmemSize)

/-- `pwh_shared_memory_startup_hook`; `none` when a size overflows.  The slots it clears then are
those of `State.init`. -/
def pwhSharedMemoryStartupHook (g : Gucs) (place : RequestPlace) (prev : PrevHooks σ)
    (s : Postmaster σ) : Option (Postmaster σ) := do
  let s := (s.callPrev prev.shmemStartup).pwhShmemRequestInStartupHook place
  let s := { s with pwhShmemSize := ← calcSharedMemorySize g }
  let s := { s with pwhBackendEntryStride := ← calcBackendEntryStride g }
  return s.call (.shmemInitStruct (← calcSharedMemorySize g))

/-- The start of the server: the request hook, which `_PG_init` installs from 15 on, and then the
startup hook. -/
def startUp (g : Gucs) (place : RequestPlace) (prev : PrevHooks σ) (s : Postmaster σ) :
    Option (Postmaster σ) :=
  match place with
  | .requestHook => (s.pwhShmemRequestHookImpl prev).pwhSharedMemoryStartupHook g place prev
  | .startupHook => s.pwhSharedMemoryStartupHook g place prev

end Postmaster

/-! ## 3. Nothing is reserved -/

/-- What some calls have asked for. -/
def requestedBy (calls : List ShmemCall) : Nat :=
  (calls.map fun
    | .requestAddinShmemSpace size => size
    | .shmemInitStruct _ => 0).sum

/-- Whatever is allocated was asked for before. -/
def ReservedBeforeUse (calls : List ShmemCall) : Prop :=
  ∀ before size after, calls = before ++ .shmemInitStruct size :: after →
    size ≤ requestedBy before

theorem addSize_of_le {s1 s2 : Nat} (h : s1 + s2 ≤ SIZE_MAX) : addSize s1 s2 = some (s1 + s2) :=
  if_pos h

theorem mulSize_of_le {s1 s2 : Nat} (h : s1 * s2 ≤ SIZE_MAX) : mulSize s1 s2 = some (s1 * s2) :=
  if_pos h

/-- The bytes of one slot. -/
def strideOf (g : Gucs) : Nat :=
  sizeofPwhSharedMemoryBackendEntry + g.maxQueryTextLen +
    g.maxNodesPerQuery * sizeofPwhNodeMetrics

theorem strideOf_le (g : Gucs) : strideOf g ≤ 38952 := by
  have htext := g.maxQueryTextLen_range.2
  have hnodes := g.maxNodesPerQuery_le
  have hentry : sizeofPwhSharedMemoryBackendEntry = 40 := by decide
  have hnode : sizeofPwhNodeMetrics = 120 := by decide
  rw [strideOf, hentry, hnode]
  omega

/-- No admissible setting overflows. -/
theorem calcBackendEntryStride_eq (g : Gucs) : calcBackendEntryStride g = some (strideOf g) := by
  have hle : strideOf g ≤ SIZE_MAX := Nat.le_trans (strideOf_le g) (by decide)
  have hle' := hle
  rw [strideOf] at hle'
  rw [calcBackendEntryStride, addSize_of_le (by omega), mulSize_of_le (by omega)]
  exact addSize_of_le hle

theorem calcSharedMemorySize_eq (g : Gucs) :
    calcSharedMemorySize g =
      some (sizeofPwhSharedMemoryHeader + g.maxTrackedQueries * strideOf g) := by
  have hmul : g.maxTrackedQueries * strideOf g ≤ 256 * 38952 :=
    Nat.mul_le_mul g.maxTrackedQueries_le (strideOf_le g)
  have hmax : 16 + 256 * 38952 ≤ SIZE_MAX := by decide
  have hheader : sizeofPwhSharedMemoryHeader = 16 := rfl
  rw [calcSharedMemorySize, calcBackendEntryStride_eq, addSize_of_le (by omega)]
  simp only [Option.bind_eq_bind, Option.bind_some]
  rw [mulSize_of_le (by omega), Option.bind_some, addSize_of_le (by omega), Nat.zero_add]

namespace Postmaster

variable {σ : Type}

@[simp] theorem callPrev_pwhShmemSize (prev : Option (σ → σ)) (s : Postmaster σ) :
    (s.callPrev prev).pwhShmemSize = s.pwhShmemSize := by
  cases prev <;> rfl

@[simp] theorem callPrev_calls (prev : Option (σ → σ)) (s : Postmaster σ) :
    (s.callPrev prev).calls = s.calls := by
  cases prev <;> rfl

/-- **One start**: it asks for what `PWH_SHMEM_SIZE` was before, allocates what is needed, and
sets `PWH_SHMEM_SIZE` only then. -/
theorem startUp_calls (g : Gucs) (place : RequestPlace) (prev : PrevHooks σ) (s : Postmaster σ) :
    ∃ t, s.startUp g place prev = some t ∧
      t.calls = s.calls ++ [.requestAddinShmemSpace s.pwhShmemSize, .shmemInitStruct
        (sizeofPwhSharedMemoryHeader + g.maxTrackedQueries * strideOf g)] := by
  cases place with
  | requestHook =>
    rw [startUp, pwhSharedMemoryStartupHook, calcSharedMemorySize_eq, calcBackendEntryStride_eq]
    refine ⟨_, rfl, ?_⟩
    simp [call, pwhShmemRequestInStartupHook, pwhShmemRequestHookImpl]
  | startupHook =>
    rw [startUp, pwhSharedMemoryStartupHook, calcSharedMemorySize_eq, calcBackendEntryStride_eq]
    refine ⟨_, rfl, ?_⟩
    simp [call, pwhShmemRequestInStartupHook]

end Postmaster

/-- **Nothing is reserved before it is used**, for no setting and in no order: at the start of the
server `PWH_SHMEM_SIZE` still is zero when it is asked for. -/
theorem never_reserved_before_use {σ : Type} (g : Gucs) (place : RequestPlace)
    (prev : PrevHooks σ) (others : σ) :
    ∃ s, (Postmaster.init others).startUp g place prev = some s ∧ ¬ ReservedBeforeUse s.calls := by
  obtain ⟨s, hstart, hcalls⟩ := Postmaster.startUp_calls g place prev (Postmaster.init others)
  refine ⟨s, hstart, ?_⟩
  intro hreserved
  have hle := hreserved [.requestAddinShmemSpace 0] _ [] hcalls
  have hheader : sizeofPwhSharedMemoryHeader = 16 := rfl
  change _ ≤ 0 at hle
  omega

/-- The default settings. -/
theorem defaults_not_reserved : ¬ ∀ (g : Gucs) (place : RequestPlace) (prev : PrevHooks Unit) s,
    (Postmaster.init ()).startUp g place prev = some s → ReservedBeforeUse s.calls := by
  intro h
  obtain ⟨s, hstart, hcalls⟩ :=
    Postmaster.startUp_calls {} .requestHook ⟨none, none⟩ (Postmaster.init ())
  have hle := h _ _ _ s hstart [.requestAddinShmemSpace 0] _ [] hcalls
  exact absurd hle (by decide)

end WhatIsHappening
