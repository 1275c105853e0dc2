/-
# One process as a sequential machine

`View` is what one process knows for sure while others write their slots: its own globals, the
lock, and the header, the text and the topology of the slots that carry its pid.  The others never
change it
(`ForeignWrite.view_eq`), and each operation of the process changes it by a function of its own
(`view_exec`), so that on views the process runs as if it were alone.
-/
import WhatIsHappening.Frame.Upkeep
import WhatIsHappening.Walk

namespace WhatIsHappening

open Interleaving Prog

variable {D : Type}

/-! ## 1. Views -/

/-- The fields of a node record that say which node it is about. -/
structure NodeIdent where
  tag : NodeTag
  nodeId : UInt32
  parentNodeId : UInt32
  magic : UInt64

def PwhNodeMetrics.ident (n : PwhNodeMetrics D) : NodeIdent :=
  ⟨n.tag, n.nodeId, n.parentNodeId, n.magic⟩

/-- Write a field, if it is one of them. -/
def NodeIdent.set (D : Type) (x : NodeIdent) : (f : NodeField) → f.ty D → NodeIdent
  | .tag, v => { x with tag := v }
  | .nodeId, v => { x with nodeId := v }
  | .parentNodeId, v => { x with parentNodeId := v }
  | .magic, v => { x with magic := v }
  | _, _ => x

theorem PwhNodeMetrics.ident_set (n : PwhNodeMetrics D) (f : NodeField) (v : f.ty D) :
    (n.set f v).ident = n.ident.set D f v := by
  cases f <;> rfl

/-- A field that identifies nothing. -/
theorem NodeIdent.set_of_not_identifies (x : NodeIdent) {f : NodeField} (v : f.ty D)
    (h : f.identifies = false) : x.set D f v = x := by
  cases f <;> first | rfl | cases h

/-- What a slot says about its query. -/
structure Header where
  queryId : UInt64
  countOfMetrics : UInt32
  queryText : Nat → UInt8
  ident : Nat → NodeIdent

def PwhSharedMemoryBackendEntry.header (be : PwhSharedMemoryBackendEntry D) : Header :=
  ⟨be.queryId, be.countOfMetrics, be.queryText, fun j => (be.metrics j).ident⟩

/-- What a process knows for sure: its globals, its slots, and what it recorded. -/
structure View (D : Type) where
  isAlive : Bool
  isEnabled : Bool
  minCostToTrack : D
  current : Option QueryDescPtr
  wasInitialized : Bool
  xactCallbacks : Nat
  exitCallbacks : Nat
  started : List QueryDescPtr
  recorded : List QueryDescPtr
  isRecording : Bool
  lock : LWLock
  slot : Nat → Option Header
  tree : Nat → Option QueryDescPtr
  node : Nat → Nat → Option PlanStatePtr

def State.view (s : State D) (p : Pid) : View D where
  isAlive := (s.backends p).isAlive
  isEnabled := (s.backends p).isEnabled
  minCostToTrack := (s.backends p).minCostToTrack
  current := (s.backends p).currentQueryDesc
  wasInitialized := (s.backends p).wasBackendInitialized
  xactCallbacks := (s.backends p).xactCallbacks
  exitCallbacks := (s.backends p).exitCallbacks
  started := (s.backends p).started
  recorded := (s.backends p).recorded
  isRecording := (s.backends p).isRecording
  lock := s.entrySearchLock
  slot i := bif s.pid i == p then some (s.entries i).header else none
  tree := s.recordedTree
  node := s.recordedNode

namespace View

/-- Change slot `i`, if it is ours. -/
def modifySlot (v : View D) (i : Nat) (f : Header → Header) : View D :=
  { v with slot := Function.update v.slot i ((v.slot i).map f) }

/-- No slot is ours. -/
def NoSlot (v : View D) : Prop := ∀ i, v.slot i = none

/-- Take slot `i`, which holds `h`. -/
def claim (v : View D) (i : Nat) (h : Header) : View D :=
  { v with slot := Function.update v.slot i (some h) }

/-- Give slot `i` up. -/
def release (v : View D) (i : Nat) : View D :=
  { v with slot := Function.update v.slot i none }

/-- Slot `i` while it is being filled. -/
def fill (v : View D) (i : Nat) (h : Option Header) (tree : Option QueryDescPtr)
    (node : Nat → Option PlanStatePtr) (isRecording : Bool) : View D :=
  { v with
    isRecording := isRecording
    slot := Function.update v.slot i h
    tree := Function.update v.tree i tree
    node := Function.update v.node i node }

def withLock (v : View D) (l : LWLock) : View D := { v with lock := l }

@[simp] theorem withLock_self (v : View D) : v.withLock v.lock = v := rfl

@[simp] theorem withLock_withLock (v : View D) (l l' : LWLock) :
    (v.withLock l).withLock l' = v.withLock l' := rfl

@[simp] theorem fill_self (v : View D) (i : Nat) :
    v.fill i (v.slot i) (v.tree i) (v.node i) v.isRecording = v := by
  simp [fill]

/-- Slot `i` once it shows the query `q`, which the process has just recorded. -/
def track (v : View D) (i : Nat) (h : Header) (q : QueryDescPtr)
    (node : Nat → Option PlanStatePtr) : View D :=
  { v.fill i (some h) (some q) node false with current := some q, recorded := q :: v.recorded }

/-- The process without a slot. -/
def dropSlots (v : View D) : View D := { v with slot := fun _ => none }

/-- The process with no current query. -/
def forget (v : View D) : View D := { v with current := none, isRecording := false }

theorem dropSlots_of_noSlot {v : View D} (h : v.NoSlot) : v.dropSlots = v :=
  congrArg (fun slot => { v with slot := slot }) (funext fun i => (h i).symm)

theorem claim_eq_fill (v : View D) (i : Nat) (h : Header) :
    v.claim i h = v.fill i (some h) (v.tree i) (v.node i) v.isRecording := by
  simp [fill, claim]

/-- The effect of an operation.  `h` is what a slot held that is being claimed. -/
def after (p : Pid) (h : Header) (v : View D) : Op D → View D
  | .lwLockAcquire m => { v with lock := (v.lock.acquire m p).getD v.lock }
  | .lwLockRelease => { v with lock := (v.lock.release p).getD v.lock }
  | .lwLockReleaseAll => { v with lock := v.lock.releaseAll p }
  | .writeBackendPid i w =>
    { v with slot := Function.update v.slot i (if w = p then some ((v.slot i).getD h) else none) }
  | .writeCountOfMetrics i n => v.modifySlot i fun hd => { hd with countOfMetrics := n }
  | .writeQueryId i id => v.modifySlot i fun hd => { hd with queryId := id }
  | .writeQueryTextByte i k b =>
    v.modifySlot i fun hd => { hd with queryText := Function.update hd.queryText k b }
  | .writeNode i j f w =>
    v.modifySlot i fun hd =>
      { hd with ident := Function.update hd.ident j ((hd.ident j).set D f w) }
  | .setCurrentQueryDesc q =>
    { v with current := q, isRecording := false,
             recorded := match q with | some q => q :: v.recorded | none => v.recorded }
  | .setWasBackendInitialized b => { v with wasInitialized := b }
  | .registerXactCallback => { v with xactCallbacks := v.xactCallbacks + 1 }
  | .beforeShmemExit => { v with exitCallbacks := v.exitCallbacks + 1 }
  | .popExitCallbacks => { v with exitCallbacks := 0 }
  | .reload enabled minCost => { v with isEnabled := enabled, minCostToTrack := minCost }
  | .standardExecutorStart q => { v with started := q :: v.started }
  | .standardExecutorEnd q =>
    { v with started := v.started.erase q, recorded := v.recorded.filter (· ≠ q) }
  | .discard qs =>
    { v with started := v.started.filter (· ∉ qs), recorded := v.recorded.filter (· ∉ qs) }
  | .discardAll => { v with started := [], recorded := [] }
  | .processExit => { v with isAlive := false, lock := v.lock.releaseAll p }
  | .fork enabled minCost =>
    { v with isAlive := true, isEnabled := enabled, minCostToTrack := minCost, current := none,
             wasInitialized := false, xactCallbacks := 0, exitCallbacks := 0, started := [],
             recorded := [], isRecording := false }
  | .mark (.rememberQuery i q) =>
    { v with isRecording := true, tree := Function.update v.tree i (some q) }
  | .mark (.rememberNode i j ps) =>
    { v with node := Function.update v.node i (Function.update (v.node i) j (some ps)) }
  | _ => v

/-- What the answer of an operation says about the view. -/
def Answers (p : Pid) (v : View D) (e : Env D) : (o : Op D) → Res o → Prop
  | .lwLockAcquire m, _ => v.lock.acquire m p ≠ none
  | .lwLockRelease, r => r = (v.lock.release p).isSome
  | .readBackendPid i, r => r = p ↔ v.slot i ≠ none
  | .isEnabled, r => r = v.isEnabled
  | .minCostToTrack, r => r = v.minCostToTrack
  | .getCurrentQueryDesc, r => r = v.current
  | .getWasBackendInitialized, r => r = v.wasInitialized
  | .countXactCallbacks, r => r = v.xactCallbacks
  | .countExitCallbacks, r => r = v.exitCallbacks
  | .raisesHere, r => r = e.raises
  | .getCurrentTimestamp, r => r = e.now
  | .kill w _, r => w = p → v.isAlive = true → r = true
  | _, _ => True

end View

/-! ## 2. The process on its view -/

section Exec

variable {srv : Server D} {p : Pid} {o : Op D} {e : Env D} {s t : State D} {r : Res o}

/-- A slot is ours when it carries our pid. -/
theorem slot_eq (s : State D) (p : Pid) (i : Nat) :
    (s.view p).slot i = bif s.pid i == p then some (s.entries i).header else none := rfl

theorem slot_eq_none {i : Nat} : (s.view p).slot i = none ↔ s.pid i ≠ p := by
  rw [slot_eq]
  by_cases h : s.pid i = p
  · simp [h]
  · simp [beq_eq_false_iff_ne.mpr h, h]

theorem slot_ne_none {i : Nat} : (s.view p).slot i ≠ none ↔ s.pid i = p := by
  rw [ne_eq, slot_eq_none, not_not]

/-- An operation on the globals of the process alone. -/
theorem view_modifyBackend (s : State D) (p : Pid) (f : Backend D → Backend D) :
    (s.modifyBackend p f).view p =
      { s.view p with
        isAlive := (f (s.backends p)).isAlive
        isEnabled := (f (s.backends p)).isEnabled
        minCostToTrack := (f (s.backends p)).minCostToTrack
        current := (f (s.backends p)).currentQueryDesc
        wasInitialized := (f (s.backends p)).wasBackendInitialized
        xactCallbacks := (f (s.backends p)).xactCallbacks
        exitCallbacks := (f (s.backends p)).exitCallbacks
        started := (f (s.backends p)).started
        recorded := (f (s.backends p)).recorded
        isRecording := (f (s.backends p)).isRecording } := by
  simp only [State.view, State.backends_modifyBackend_self, State.pid_modifyBackend,
    State.entries_modifyBackend]
  rfl

/-- An operation on a slot that leaves its pid alone. -/
theorem view_modifyEntry (s : State D) (p : Pid) (i : Nat)
    (f : PwhSharedMemoryBackendEntry D → PwhSharedMemoryBackendEntry D) (g : Header → Header)
    (hpid : ∀ be, (f be).backendPid = be.backendPid) (hg : ∀ be, (f be).header = g be.header) :
    (s.modifyEntry i f).view p = (s.view p).modifySlot i g := by
  refine congrArg (fun slot => { s.view p with slot := slot }) (funext fun j => ?_)
  by_cases hj : j = i
  · subst hj
    simp only [Function.update_self, slot_eq, State.pid_modifyEntry s j j f hpid,
      State.entries_modifyEntry_self, hg]
    cases s.pid j == p <;> rfl
  · simp only [Function.update_of_ne hj, slot_eq, State.pid_modifyEntry s i j f hpid,
      State.entries_modifyEntry_of_ne s f hj]

/-- ...and says nothing about the query. -/
theorem view_modifyEntry_of_header (s : State D) (p : Pid) (i : Nat)
    (f : PwhSharedMemoryBackendEntry D → PwhSharedMemoryBackendEntry D)
    (hpid : ∀ be, (f be).backendPid = be.backendPid) (hg : ∀ be, (f be).header = be.header) :
    (s.modifyEntry i f).view p = s.view p := by
  rw [view_modifyEntry s p i f id hpid hg]
  simp [View.modifySlot]

/-- A claim or a release. -/
theorem view_writeBackendPid (s : State D) (p : Pid) (i : Nat) (w : Pid) :
    (s.modifyEntry i fun be => { be with backendPid := w }).view p =
      (s.view p).after p (s.entries i).header (.writeBackendPid i w) := by
  refine congrArg (fun slot => { s.view p with slot := slot }) (funext fun j => ?_)
  by_cases hj : j = i
  · subst hj
    simp only [Function.update_self, State.pid, State.entries_modifyEntry_self]
    by_cases hw : w = p
    · simp only [hw, beq_self_eq_true, cond_true, if_true, slot_eq]
      cases s.pid j == p <;> rfl
    · simp [hw, beq_eq_false_iff_ne.mpr hw]
  · simp only [Function.update_of_ne hj, State.pid, State.entries_modifyEntry_of_ne s _ hj]
    rfl

/-- The header of a slot that nobody claimed. -/
def Header.zero : Header := ⟨0, 0, fun _ => 0, fun _ => ⟨.other 0, 0, 0, 0⟩⟩

/-- Each operation of a process changes its view by a function of its own. -/
theorem view_exec (h : exec srv p o e s = some (r, t)) :
    ∃ hd, t.view p = (s.view p).after p hd o := by
  cases o
  case writeBackendPid i w =>
    cases h
    exact ⟨(s.entries i).header,
      (view_modifyBackend _ p _).trans (view_writeBackendPid s p i w)⟩
  all_goals refine ⟨.zero, ?_⟩
  case mark m =>
    cases m
    case rememberQuery i q =>
      cases h
      exact congrArg
        (fun v : View D => { v with tree := Function.update s.recordedTree i (some q) })
        (view_modifyBackend s p fun b => { b with lastRecorded := some q, isRecording := true })
    all_goals
      cases h
      simp only [State.record]
      first | rfl | exact view_modifyBackend s p _
  case lwLockAcquire m =>
    obtain ⟨l, hl, ht⟩ := Option.map_eq_some_iff.mp h
    cases ht
    have hl : (s.view p).lock.acquire m p = some l := hl
    simp only [View.after, hl, Option.getD_some]
    exact view_modifyBackend { s with entrySearchLock := l } p _
  case lwLockRelease =>
    simp only [exec] at h
    split at h
    · rename_i l hl
      cases h
      have hl : (s.view p).lock.release p = some l := hl
      simp only [View.after, hl, Option.getD_some]
      exact view_modifyBackend { s with entrySearchLock := l } p _
    · rename_i hl
      cases h
      have hl : (s.view p).lock.release p = none := hl
      simp only [View.after, hl, Option.getD_none]
      exact view_modifyBackend s p _
  case processExit =>
    cases h
    exact view_modifyBackend { s with entrySearchLock := s.entrySearchLock.releaseAll p } p _
  case readInstrument ps => cases h; cases e.instrument <;> rfl
  case raisesHere =>
    cases h
    cases e.raises
    · rfl
    · exact view_modifyBackend s p fun b => { b with interruptHoldoffCount := 0 }
  case writeNode i j f w =>
    cases h
    refine view_modifyEntry _ _ _ _ _ (fun _ => rfl) fun be => ?_
    refine congrArg (fun ident => { be.header with ident := ident }) (funext fun k => ?_)
    by_cases hk : k = j
    · subst hk
      simp only [PwhSharedMemoryBackendEntry.header, Function.update_self]
      exact PwhNodeMetrics.ident_set (be.metrics k) f w
    · simp [hk, PwhSharedMemoryBackendEntry.header]
  case writeQueryStartTime i n =>
    cases h
    exact view_modifyEntry_of_header s p i _ (fun _ => rfl) fun _ => rfl
  case incPollGeneration i =>
    cases h
    exact view_modifyEntry_of_header s p i _ (fun _ => rfl) fun _ => rfl
  all_goals
    cases h
    first
    | rfl
    | exact view_modifyBackend _ p _
    | exact view_modifyEntry _ _ _ _ _ (fun _ => rfl) fun _ => rfl

/-- The answers of the operations that read the view. -/
theorem answers_exec (h : exec srv p o e s = some (r, t)) : (s.view p).Answers p e o r := by
  cases o
  case lwLockAcquire m =>
    obtain ⟨l, hl, -⟩ := Option.map_eq_some_iff.mp h
    exact fun hn => by simp [show s.entrySearchLock.acquire m p = none from hn] at hl
  case lwLockRelease =>
    simp only [exec] at h
    split at h <;> rename_i hl <;> cases h <;> exact (congrArg Option.isSome hl).symm
  case readBackendPid i => cases h; exact slot_ne_none.symm
  case kill w sig =>
    cases h
    rintro rfl halive
    simpa [State.killSucceeds] using .inr halive
  case mark m => trivial
  all_goals first | trivial | (cases h; rfl)

/-- What the others do is invisible. -/
theorem ForeignWrite.view_eq {w : ForeignWrite D} (h : w.apply p s = some t) :
    t.view p = s.view p := by
  unfold ForeignWrite.apply at h
  split at h
  · rename_i hw
    cases h
    refine congrArg (fun slot => { s.view p with slot := slot }) (funext fun j => ?_)
    by_cases hj : j = w.slot
    · subst hj
      simp only [State.pid, State.entries_modifyEntry_self, beq_eq_false_iff_ne.mpr hw.2]
      exact (slot_eq_none.mpr hw.1).symm
    · simp only [State.pid, State.entries_modifyEntry_of_ne s _ hj]
  · cases h

end Exec

end WhatIsHappening
