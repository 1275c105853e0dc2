/-
# Polling shows in the numbers only

`pwh_sigusr2_handler` interrupts a backend wherever it is, in the middle of a hook as well as
between two queries.  What it writes are counters and times of node records and the poll
generation; what it reads decides nothing but which of these it writes.  So beside every run there
is one in which nobody is ever signalled, and the two differ in numbers only
(`polling_is_transparent`): the same slots, the same queries, the same tree in every slot, the same
lock, the same globals of every process, and what a reader is about to show is the same up to its
numbers.

A poll that runs out of stack would leave the interrupted code with an error, so it is assumed here
that none does (`PollsFindStack`).
-/
import WhatIsHappening.Backend.Release
import WhatIsHappening.Lib.Simulation
import Mathlib.Data.List.Forall2

namespace WhatIsHappening

open Interleaving Prog System

variable {D : Type}

/-! ## 1. What is left of a state without its numbers -/

/-- A node record without what was measured. -/
structure NodeIdentity where
  tag : NodeTag
  nodeId : UInt32
  parentNodeId : UInt32
  magic : UInt64

def PwhNodeMetrics.identity (n : PwhNodeMetrics D) : NodeIdentity :=
  ⟨n.tag, n.nodeId, n.parentNodeId, n.magic⟩

/-- A slot without what was measured, and without the count of polls. -/
structure EntryIdentity where
  backendPid : Pid
  queryId : UInt64
  queryStartTime : Int64
  countOfMetrics : UInt32
  queryText : Nat → UInt8
  nodes : Nat → NodeIdentity

def PwhSharedMemoryBackendEntry.identity (be : PwhSharedMemoryBackendEntry D) : EntryIdentity :=
  ⟨be.backendPid, be.queryId, be.queryStartTime, be.countOfMetrics, be.queryText,
    fun j => (be.metrics j).identity⟩

/-- A process without what a handler does to it. -/
def Backend.resting (b : Backend D) : Backend D :=
  { b with inSignalHandler := false, interruptHoldoffCount := 0 }

/-- Two states that differ in numbers only. -/
structure SameButNumbers (s t : State D) : Prop where
  entries : ∀ i, (s.entries i).identity = (t.entries i).identity
  lock : s.entrySearchLock = t.entrySearchLock
  backends : ∀ p, (s.backends p).resting = (t.backends p).resting
  recordedTree : s.recordedTree = t.recordedTree
  recordedNode : s.recordedNode = t.recordedNode

/-- Two rows of one node. -/
structure StatusRow.SameNode (r r' : StatusRow D) : Prop where
  backendPid : r.backendPid = r'.backendPid
  queryId : r.queryId = r'.queryId
  queryText : r.queryText = r'.queryText
  nodeId : r.nodeId = r'.nodeId
  parentNodeId : r.parentNodeId = r'.parentNodeId
  nodeTag : r.nodeTag = r'.nodeTag

/-- Two samples of one metric of one node. -/
structure NodeSample.SameNode (x y : NodeSample D) : Prop where
  type : x.type = y.type
  queryId : x.queryId = y.queryId
  nodeId : x.nodeId = y.nodeId
  parentNodeId : x.parentNodeId = y.parentNodeId
  tag : x.tag = y.tag

/-- Two readings of one slot. -/
structure EntryReading.SameQuery (r r' : EntryReading D) : Prop where
  queryId : r.queryId = r'.queryId
  backendPid : r.backendPid = r'.backendPid
  queryText : r.queryText = r'.queryText
  samples : List.Forall₂ NodeSample.SameNode r.samples r'.samples

/-- What a reader shows, up to its numbers. -/
def Emission.Alike : Emission D → Emission D → Prop
  | .row r, .row r' => r.SameNode r'
  | .entry r, .entry r' => r.SameQuery r'
  | _, _ => False

/-! ## 2. Which operations stay, and which go with the signals -/

/-- An operation whose answer is no number, and that shows none. -/
def Op.IsExact : Op D → Prop
  | .readNode _ _ f => f.identifies = true
  | .emit _ => False
  | _ => True

/-- Reads a number. -/
def Op.ReadsNumber : Op D → Prop
  | .readNode _ _ f => f.identifies = false
  | _ => False

/-- What the handler of SIGUSR2 is made of. -/
def Op.IsMeasuring : Op D → Prop
  | .readBackendPid _ | .getCurrentQueryDesc | .readNode _ _ _ | .stackFramesLeft
  | .readInstrument _ | .ereportError | .incPollGeneration _ | .setInSignalHandler _ => True
  | .writeNode _ _ f _ => f.identifies = false
  | .mark (.collectTree _ _) | .mark (.collectNode _ _ _) => True
  | _ => False

/-- Two operations that show the same, up to numbers. -/
def Op.ShowAlike : Op D → Op D → Prop
  | .emit e, .emit e' => e.Alike e'
  | _, _ => False

/-- How a run with signals and one without correspond. -/
def pollingPairs (D : Type) : Pairing (Op D) where
  same := Op.IsExact
  swap := Op.ShowAlike
  left o := o.IsMeasuring ∨ o.ReadsNumber
  right := Op.ReadsNumber

/-! ## 3. One operation

An operation that reads no number has the same answer in both states and leaves them alike; so does
one that writes a number in one of them. -/

namespace SameButNumbers

variable {s t s' t' : State D} {srv : Server D} {p : Pid} {o : Op D} {e : Env D} {r : Res o}

theorem refl (s : State D) : SameButNumbers s s :=
  ⟨fun _ => rfl, rfl, fun _ => rfl, rfl, rfl⟩

/-- The same is done to a slot. -/
theorem modifyEntry (h : SameButNumbers s t) (i : Nat)
    {f : PwhSharedMemoryBackendEntry D → PwhSharedMemoryBackendEntry D}
    (hf : ∀ be be', be.identity = be'.identity → (f be).identity = (f be').identity) :
    SameButNumbers (s.modifyEntry i f) (t.modifyEntry i f) := by
  refine ⟨fun j => ?_, h.lock, h.backends, h.recordedTree, h.recordedNode⟩
  by_cases hj : j = i
  · subst hj
    simpa [State.modifyEntry] using hf _ _ (h.entries j)
  · simpa [State.modifyEntry, hj] using h.entries j

/-- A field of a slot is written. -/
theorem writeField (h : SameButNumbers s t) (i : Nat)
    {f : PwhSharedMemoryBackendEntry D → PwhSharedMemoryBackendEntry D}
    (g : EntryIdentity → EntryIdentity) (hf : ∀ be, (f be).identity = g be.identity) :
    SameButNumbers (s.modifyEntry i f) (t.modifyEntry i f) :=
  h.modifyEntry i fun be be' hbe => by rw [hf, hbe, ← hf]

/-- Nothing that shows is done to a slot. -/
theorem modifyEntry_left (h : SameButNumbers s t) (i : Nat)
    {f : PwhSharedMemoryBackendEntry D → PwhSharedMemoryBackendEntry D}
    (hf : ∀ be, (f be).identity = be.identity) : SameButNumbers (s.modifyEntry i f) t := by
  refine ⟨fun j => ?_, h.lock, h.backends, h.recordedTree, h.recordedNode⟩
  by_cases hj : j = i
  · subst hj
    simpa [State.modifyEntry] using (hf _).trans (h.entries j)
  · simpa [State.modifyEntry, hj] using h.entries j

/-- The same is done to a process. -/
theorem modifyBackend (h : SameButNumbers s t) (p : Pid) {f : Backend D → Backend D}
    (hf : ∀ b, (f b).resting = (f b.resting).resting) :
    SameButNumbers (s.modifyBackend p f) (t.modifyBackend p f) := by
  refine ⟨h.entries, h.lock, fun q => ?_, h.recordedTree, h.recordedNode⟩
  by_cases hq : q = p
  · subst hq
    have hsame : (f (s.backends q)).resting = (f (t.backends q)).resting := by
      rw [hf, h.backends q, ← hf]
    simpa [State.modifyBackend] using hsame
  · simpa [State.modifyBackend, hq] using h.backends q

/-- Nothing that stays is done to a process. -/
theorem modifyBackend_left (h : SameButNumbers s t) (p : Pid) {f : Backend D → Backend D}
    (hf : ∀ b, (f b).resting = b.resting) : SameButNumbers (s.modifyBackend p f) t := by
  refine ⟨h.entries, h.lock, fun q => ?_, h.recordedTree, h.recordedNode⟩
  by_cases hq : q = p
  · subst hq
    simpa [State.modifyBackend] using (hf _).trans (h.backends q)
  · simpa [State.modifyBackend, hq] using h.backends q

theorem setLock (h : SameButNumbers s t) (l : LWLock) :
    SameButNumbers { s with entrySearchLock := l } { t with entrySearchLock := l } :=
  ⟨h.entries, rfl, h.backends, h.recordedTree, h.recordedNode⟩

theorem pid (h : SameButNumbers s t) (i : Nat) : s.pid i = t.pid i :=
  congrArg EntryIdentity.backendPid (h.entries i)

/-- A field of a process that no handler touches. -/
theorem field (h : SameButNumbers s t) (p : Pid) {β : Type} (f : Backend D → β)
    (hf : ∀ b, f b = f b.resting) : f (s.backends p) = f (t.backends p) := by
  rw [hf, h.backends p, ← hf]

theorem killSucceeds (h : SameButNumbers s t) (v : Pid) : s.killSucceeds v = t.killSucceeds v := by
  simp only [State.killSucceeds, h.field v Backend.isAlive fun _ => rfl]

theorem identity_set {n n' : PwhNodeMetrics D} (h : n.identity = n'.identity) (f : NodeField)
    (v : f.ty D) : (n.set f v).identity = (n'.set f v).identity := by
  obtain ⟨htag, hid, hparent, hmagic⟩ := NodeIdentity.mk.inj h
  cases f <;> simp only [PwhNodeMetrics.set, PwhNodeMetrics.identity, htag, hid, hparent, hmagic]

theorem identity_set_number (n : PwhNodeMetrics D) {f : NodeField} (hf : f.identifies = false)
    (v : f.ty D) : (n.set f v).identity = n.identity := by
  cases f <;> first | rfl | cases hf

theorem identity_get {n n' : PwhNodeMetrics D} (h : n.identity = n'.identity) {f : NodeField}
    (hf : f.identifies = true) : n.get f = n'.get f := by
  obtain ⟨htag, hid, hparent, hmagic⟩ := NodeIdentity.mk.inj h
  cases f <;> first | assumption | cases hf

theorem node (h : SameButNumbers s t) (i j : Nat) :
    ((s.entries i).metrics j).identity = ((t.entries i).metrics j).identity :=
  congrFun (congrArg EntryIdentity.nodes (h.entries i)) j

/-- A write of a node record. -/
theorem writeNode (h : SameButNumbers s t) (i j : Nat) (f : NodeField) (v : f.ty D) :
    SameButNumbers
      (s.modifyEntry i fun be =>
        { be with metrics := Function.update be.metrics j ((be.metrics j).set f v) })
      (t.modifyEntry i fun be =>
        { be with metrics := Function.update be.metrics j ((be.metrics j).set f v) }) := by
  refine h.modifyEntry i fun be be' hbe => ?_
  obtain ⟨hpid, hid, htime, hcount, htext, hnodes⟩ := EntryIdentity.mk.inj hbe
  simp only [PwhSharedMemoryBackendEntry.identity, EntryIdentity.mk.injEq]
  refine ⟨hpid, hid, htime, hcount, htext, funext fun k => ?_⟩
  by_cases hk : k = j
  · subst hk
    simpa using identity_set (congrFun hnodes k) f v
  · simpa [hk] using congrFun hnodes k

theorem writeNode_left (h : SameButNumbers s t) (i j : Nat) {f : NodeField}
    (hf : f.identifies = false) (v : f.ty D) :
    SameButNumbers
      (s.modifyEntry i fun be =>
        { be with metrics := Function.update be.metrics j ((be.metrics j).set f v) }) t := by
  refine h.modifyEntry_left i fun be => ?_
  simp only [PwhSharedMemoryBackendEntry.identity, EntryIdentity.mk.injEq, true_and]
  funext k
  by_cases hk : k = j
  · subst hk
    simpa using identity_set_number (be.metrics k) hf v
  · simp [hk]

theorem record (h : SameButNumbers s t) (p : Pid) (m : Mark) :
    SameButNumbers (s.record p m) (t.record p m) := by
  cases m <;> simp only [State.record]
  case rememberQuery i q =>
    obtain ⟨hentries, hlock, hbackends, -, hnode⟩ := h.modifyBackend p
      (f := fun b => { b with lastRecorded := some q, isRecording := true }) fun _ => rfl
    exact ⟨hentries, hlock, hbackends, by rw [h.recordedTree], hnode⟩
  case rememberNode i j ps => exact ⟨h.entries, h.lock, h.backends, h.recordedTree, by
    rw [h.recordedNode]⟩
  case entryReturned i => exact h.modifyBackend p fun _ => rfl
  case visitEntry i => exact h.modifyBackend p fun _ => rfl
  case leaveEntry => exact h.modifyBackend p fun _ => rfl
  case exitScan => exact h.modifyBackend p fun _ => rfl
  all_goals exact h

/-- An operation that always comes about, in two states. -/
theorem exec_both {f : State D → Res o} {g : State D → State D}
    (hexec : ∀ s, exec srv p o e s = some (f s, g s)) (hf : f s = f s')
    (hg : SameButNumbers (g s) (g s')) (hx : exec srv p o e s = some (r, t)) :
    ∃ t', exec srv p o e s' = some (r, t') ∧ SameButNumbers t t' := by
  rw [hexec] at hx
  cases hx
  exact ⟨g s', by rw [hexec, hf], hg⟩

/-- The answers and the effects of operations that read no number and show nothing. -/
theorem exec_exact (h : SameButNumbers s s') (ho : o.IsExact)
    (hx : exec srv p o e s = some (r, t)) :
    ∃ t', exec srv p o e s' = some (r, t') ∧ SameButNumbers t t' := by
  cases o
  case lwLockAcquire m =>
    obtain ⟨l, hl, ht⟩ := Option.map_eq_some_iff.mp hx
    cases ht
    have hl' : s'.entrySearchLock.acquire m p = some l := h.lock ▸ hl
    simp only [exec, hl', Option.map_some]
    exact ⟨_, rfl, (h.setLock l).modifyBackend p fun _ => rfl⟩
  case lwLockRelease =>
    simp only [exec, ← h.lock] at hx ⊢
    split at hx
    · cases hx
      exact ⟨_, rfl, (h.setLock _).modifyBackend p fun _ => rfl⟩
    · cases hx
      exact ⟨_, rfl, h.modifyBackend p fun _ => rfl⟩
  case lwLockReleaseAll =>
    refine exec_both (fun _ => rfl) rfl ?_ hx
    rw [h.lock]
    exact h.setLock _
  case readBackendPid i => exact exec_both (fun _ => rfl) (h.pid i) h hx
  case pollBackendPid i again =>
    refine exec_both (fun _ => rfl) (h.pid i) ?_ hx
    simp only [h.pid]
    exact h.modifyBackend p fun _ => rfl
  case writeBackendPid i v =>
    refine exec_both (fun _ => rfl) rfl ?_ hx
    exact (h.writeField i (fun x => { x with backendPid := v }) fun _ => rfl).modifyBackend p
      fun _ => rfl
  case incPollGeneration i =>
    exact exec_both (fun _ => rfl) rfl (h.writeField i (fun x => x) fun _ => rfl) hx
  case readCountOfMetrics i =>
    exact exec_both (fun _ => rfl) (congrArg EntryIdentity.countOfMetrics (h.entries i)) h hx
  case writeCountOfMetrics i n =>
    exact exec_both (fun _ => rfl) rfl
      (h.writeField i (fun x => { x with countOfMetrics := n }) fun _ => rfl) hx
  case writeQueryStartTime i time =>
    exact exec_both (fun _ => rfl) rfl
      (h.writeField i (fun x => { x with queryStartTime := time }) fun _ => rfl) hx
  case readQueryId i =>
    exact exec_both (fun _ => rfl) (congrArg EntryIdentity.queryId (h.entries i)) h hx
  case writeQueryId i id =>
    exact exec_both (fun _ => rfl) rfl
      (h.writeField i (fun x => { x with queryId := id }) fun _ => rfl) hx
  case readQueryText i =>
    have htext : (s.entries i).queryText = (s'.entries i).queryText :=
      congrArg EntryIdentity.queryText (h.entries i)
    refine exec_both (fun _ => rfl) ?_ h hx
    simp only [PwhSharedMemoryBackendEntry.text, htext]
  case writeQueryTextByte i k b =>
    exact exec_both (fun _ => rfl) rfl (h.writeField i
      (fun x => { x with queryText := Function.update x.queryText k b }) fun _ => rfl) hx
  case readNode i j f =>
    exact exec_both (fun _ => rfl) (identity_get (h.node i j) ho) h hx
  case writeNode i j f v => exact exec_both (fun _ => rfl) rfl (h.writeNode i j f v) hx
  case isEnabled => exact exec_both (fun _ => rfl) (h.field p Backend.isEnabled fun _ => rfl) h hx
  case minCostToTrack =>
    exact exec_both (fun _ => rfl) (h.field p Backend.minCostToTrack fun _ => rfl) h hx
  case getCurrentQueryDesc =>
    exact exec_both (fun _ => rfl) (h.field p Backend.currentQueryDesc fun _ => rfl) h hx
  case getWasBackendInitialized =>
    exact exec_both (fun _ => rfl) (h.field p Backend.wasBackendInitialized fun _ => rfl) h hx
  case getScan => exact exec_both (fun _ => rfl) (h.field p Backend.scan fun _ => rfl) h hx
  case countXactCallbacks =>
    exact exec_both (fun _ => rfl) (h.field p Backend.xactCallbacks fun _ => rfl) h hx
  case countExitCallbacks =>
    exact exec_both (fun _ => rfl) (h.field p Backend.exitCallbacks fun _ => rfl) h hx
  case getCurrentTimestamp => exact exec_both (fun _ => rfl) rfl h hx
  case stackFramesLeft => exact exec_both (fun _ => rfl) rfl h hx
  case kill v sig => exact exec_both (fun _ => rfl) (h.killSucceeds v) h hx
  case readInstrument ps =>
    refine exec_both (fun _ => rfl) rfl ?_ hx
    cases e.instrument
    · exact h
    · exact ⟨h.entries, h.lock, h.backends, h.recordedTree, h.recordedNode⟩
  case raisesHere =>
    refine exec_both (fun _ => rfl) rfl ?_ hx
    cases e.raises
    · exact h
    · exact h.modifyBackend p (f := fun b => { b with interruptHoldoffCount := 0 }) fun _ => rfl
  case processExit =>
    refine exec_both (fun _ => rfl) rfl ?_ hx
    rw [h.lock]
    exact (h.setLock _).modifyBackend p fun _ => rfl
  case mark m => exact exec_both (fun _ => rfl) rfl (h.record p m) hx
  case emit x => exact ho.elim
  -- the globals of the process, and what PostgreSQL keeps for it
  all_goals exact exec_both (fun _ => rfl) rfl (h.modifyBackend p fun _ => rfl) hx

/-- What only the handler does cannot be seen, but in numbers. -/
theorem exec_measuring (h : SameButNumbers s s') (ho : o.IsMeasuring)
    (hx : exec srv p o e s = some (r, t)) : SameButNumbers t s' := by
  cases o
  case incPollGeneration i =>
    cases hx
    exact h.modifyEntry_left i fun _ => rfl
  case writeNode i j f v =>
    cases hx
    exact h.writeNode_left i j ho v
  case readInstrument ps =>
    cases hx
    cases e.instrument
    · exact h
    · exact ⟨h.entries, h.lock, h.backends, h.recordedTree, h.recordedNode⟩
  case ereportError =>
    cases hx
    exact h.modifyBackend_left p fun _ => rfl
  case setInSignalHandler v =>
    cases hx
    exact h.modifyBackend_left p fun _ => rfl
  case mark m => cases m <;> first | exact ho.elim | (cases hx; exact h)
  all_goals first | exact ho.elim | (cases hx; exact h)

theorem exec_readsNumber (h : SameButNumbers s s') (ho : o.ReadsNumber)
    (hx : exec srv p o e s = some (r, t)) : SameButNumbers t s' := by
  cases o
  case readNode i j f =>
    cases hx
    exact h
  all_goals exact ho.elim

end SameButNumbers

/-! ## 4. Readers, up to numbers

The readers come to the same places in both runs: which slots and nodes they show is never decided
by a number. -/

section Readers

variable {srv : Server D} {α α' β β' : Type} {Q : β → β' → Prop}

theorem Op.IsUpkeep.isExact {o : Op D} (h : o.IsUpkeep) : o.IsExact := by
  have hkeep := h.isHousekeeping
  cases o <;> trivial

/-- What depends on no number. -/
theorem like_exact {p : PgProg D α} (h : p.All Op.IsExact) : p.Like (pollingPairs D) Eq p :=
  Like.refl_of_all h

theorem like_exact_bind {p : PgProg D α} (h : p.All Op.IsExact) {f : α → PgProg D β}
    {g : α → PgProg D β'} (hf : ∀ a, (f a).Like (pollingPairs D) Q (g a)) :
    (p >>= f).Like (pollingPairs D) Q (p >>= g) :=
  (like_exact h).bind fun a _ hab => hab ▸ hf a

theorem like_upkeep_bind {p : PgProg D α} (h : p.All Op.IsUpkeep) {f : α → PgProg D β}
    {g : α → PgProg D β'} (hf : ∀ a, (f a).Like (pollingPairs D) Q (g a)) :
    (p >>= f).Like (pollingPairs D) Q (p >>= g) :=
  like_exact_bind (h.mono fun _ ho => ho.isExact) hf

theorem like_op {o : Op D} (ho : o.IsExact) {f : Res o → PgProg D β} {g : Res o → PgProg D β'}
    (hf : ∀ r, (f r).Like (pollingPairs D) Q (g r)) :
    (act o >>= f).Like (pollingPairs D) Q (act o >>= g) :=
  .same ho hf

/-- A number is read on the one side... -/
theorem like_number_left {i j : Nat} {n : NodeField} (hn : n.identifies = false)
    {f : n.ty D → PgProg D β} {q : PgProg D β'}
    (hf : ∀ v, (f v).Like (pollingPairs D) Q q) :
    (act (.readNode i j n) >>= f).Like (pollingPairs D) Q q :=
  .left (.inr hn) hf

/-- ...or on the other. -/
theorem like_number_right {i j : Nat} {n : NodeField} (hn : n.identifies = false)
    {p : PgProg D β} {g : n.ty D → PgProg D β'}
    (hg : ∀ v, p.Like (pollingPairs D) Q (g v)) :
    p.Like (pollingPairs D) Q (act (.readNode i j n) >>= g) :=
  Like.right (o := Op.readNode i j n) hn hg

theorem like_number {i j : Nat} {n : NodeField} (hn : n.identifies = false)
    {f : n.ty D → PgProg D β} {g : n.ty D → PgProg D β'}
    (hf : ∀ v w, (f v).Like (pollingPairs D) Q (g w)) :
    (act (.readNode i j n) >>= f).Like (pollingPairs D) Q (act (.readNode i j n) >>= g) :=
  like_number_left hn fun v => like_number_right hn fun w => hf v w

theorem like_emit {e e' : Emission D} (h : e.Alike e') {f : Unit → PgProg D β}
    {g : Unit → PgProg D β'} (hf : (f ()).Like (pollingPairs D) Q (g ())) :
    (act (.emit e) >>= f).Like (pollingPairs D) Q (act (.emit e') >>= g) := by
  have hswap : (pollingPairs D).swap (Op.emit e) (Op.emit e') := h
  exact Like.swap hswap fun _ _ => hf

/-- The loop over the nodes of a slot. -/
theorem forNodes_like {A : α → α' → Prop} {be : Nat} {body : Nat → α → PgProg D α}
    {body' : Nat → α' → PgProg D α'}
    (hbody : ∀ j a a', A a a' → (body j a).Like (pollingPairs D) A (body' j a')) :
    ∀ fuel j a a', A a a' →
      (forNodes be body fuel j a).Like (pollingPairs D) A (forNodes be body' fuel j a')
  | 0, _, _, _, h => .ret h
  | fuel + 1, j, a, a', h => by
    unfold forNodes
    refine like_op (o := .readCountOfMetrics be) trivial fun count => ?_
    split
    · exact (hbody j a a' h).bind fun b b' hb => forNodes_like hbody fuel (j + 1) b b' hb
    · exact .ret h

variable [CDouble D]

theorem sumTotalQueryTime_like (be : Nat) :
    (sumTotalQueryTime be : PgProg D D).Like (pollingPairs D) (fun _ _ => True)
      (sumTotalQueryTime be) := by
  unfold sumTotalQueryTime
  refine forNodes_like (fun j total total' _ => ?_) _ _ _ _ trivial
  exact like_number (n := .totalTimeUs) rfl fun _ _ => .ret trivial

/-- The shares are numbers; whether the time is read a second time depends on one. -/
theorem nodeTimeShares_like (be j : Nat) (total total' : D) :
    (nodeTimeShares be j total).Like (pollingPairs D) (fun _ _ => True)
      (nodeTimeShares be j total') := by
  refine like_number (n := .totalTimeUs) rfl fun time time' => ?_
  dsimp only
  split
  · refine like_number_left (n := .totalTimeUs) rfl fun _ => ?_
    split
    · exact like_number_right (n := .totalTimeUs) rfl fun _ => .ret trivial
    · exact .ret trivial
  · split
    · exact like_number_right (n := .totalTimeUs) rfl fun _ => .ret trivial
    · exact .ret trivial

omit [CDouble D] in
theorem readMetricValue_like (be j : Nat) (shares shares' : D × D) (type : MetricType) :
    (readMetricValue be j shares type).Like (pollingPairs D) (fun _ _ => True)
      (readMetricValue be j shares' type) := by
  cases type
  case timeSeconds => exact .ret trivial
  case timePercent => exact .ret trivial
  all_goals exact like_number rfl fun _ _ => .ret trivial

/-- Samples of the same metrics of the same nodes. -/
def SamplesAlike (acc acc' : FormatterBuffer × List (NodeSample D)) : Prop :=
  List.Forall₂ NodeSample.SameNode acc.2 acc'.2

theorem formatterAppendMetrics_like (ver : PgVersion) (be j : Nat) (queryId : UInt64)
    (shares shares' : D × D) :
    ∀ (types : List MetricType) (acc acc' : FormatterBuffer × List (NodeSample D)),
      SamplesAlike acc acc' →
      (formatterAppendMetrics ver be j queryId shares types acc).Like (pollingPairs D) SamplesAlike
        (formatterAppendMetrics ver be j queryId shares' types acc')
  | [], _, _, h => .ret h
  | type :: types, acc, acc', h => by
    unfold formatterAppendMetrics
    refine Like.bind (Q := SamplesAlike) ?_ fun acc acc' h =>
      formatterAppendMetrics_like ver be j queryId shares shares' types acc acc' h
    refine (readMetricValue_like be j shares shares' type).bind fun value value' _ => ?_
    refine like_op (o := .readNode be j .tag) rfl fun tag => ?_
    refine like_op (o := .readNode be j .nodeId) rfl fun nodeId => ?_
    refine like_op (o := .readNode be j .parentNodeId) rfl fun parentNodeId => .ret ?_
    exact List.rel_append h (.cons ⟨rfl, rfl, rfl, rfl, rfl⟩ .nil)

theorem readEntry_like (ver : PgVersion) (be : Nat) (buf buf' : FormatterBuffer) :
    (readEntry ver be buf : PgProg D _).Like (pollingPairs D)
      (fun x x' => x.2.SameQuery x'.2) (readEntry ver be buf') := by
  unfold readEntry
  refine Like.bind (Q := fun (x x' : FormatterBuffer × EntryReading D) => x.2 = x'.2) ?_ ?_
  · refine like_op (o := .readQueryId be) trivial fun queryId => ?_
    refine like_op (o := .readBackendPid be) trivial fun pid => ?_
    exact like_op (o := .readQueryText be) trivial fun text => .ret rfl
  rintro ⟨buf, reading⟩ ⟨buf', reading'⟩ rfl
  refine like_op (o := .readQueryId be) trivial fun queryId => ?_
  refine (sumTotalQueryTime_like be).bind fun total total' _ => ?_
  refine Like.bind (Q := SamplesAlike) (forNodes_like (fun j acc acc' h => ?_) _ _ _ _ .nil)
    fun acc acc' h => .ret ⟨rfl, rfl, rfl, h⟩
  rw [pwhValidateNodeMagic_bind, pwhValidateNodeMagic_bind]
  refine like_op (o := .readNode be j .magic) rfl fun magic => ?_
  split
  · unfold formatterAppendAllNodeMetrics
    refine (nodeTimeShares_like be j total total').bind fun shares shares' _ => ?_
    exact formatterAppendMetrics_like ver be j queryId shares shares' _ acc acc' h
  · exact .ret h

theorem formatEntries_like :
    ∀ k i buf buf', (formatEntries srv k i buf).Like (pollingPairs D) (fun _ _ => True)
      (formatEntries srv k i buf')
  | 0, _, _, _ => .ret trivial
  | k + 1, i, buf, buf' => by
    unfold formatEntries
    refine like_upkeep_bind (pwhGetBackendEntry_housekeeping i) fun _ => ?_
    refine like_op (o := .mark (.visitEntry i)) trivial fun _ => ?_
    rw [pwhIsBackendEntryActive_bind, pwhIsBackendEntryActive_bind]
    refine like_op (o := .readBackendPid i) trivial fun pid => ?_
    split
    · refine Like.bind (Q := fun _ _ => True) ?_ fun buf buf' _ =>
        formatEntries_like k (i + 1) buf buf'
      rw [formatEntry_eq, formatEntry_eq]
      refine (readEntry_like srv.version i buf buf').bind fun x x' h => ?_
      have halike : (Emission.entry x.2).Alike (.entry x'.2) := h
      exact like_emit halike (.ret trivial)
    · exact like_op (o := .mark .leaveEntry) trivial fun _ =>
        formatEntries_like k (i + 1) buf buf'

/-- Two rows of one node. -/
theorem pwhFillV1StatusTuple_like (be j : Nat) (total total' : D) :
    (pwhFillV1StatusTuple be j total).Like (pollingPairs D) StatusRow.SameNode
      (pwhFillV1StatusTuple be j total') := by
  unfold pwhFillV1StatusTuple
  refine (nodeTimeShares_like be j total total').bind fun shares shares' _ => ?_
  refine like_op (o := .readBackendPid be) trivial fun pid => ?_
  refine like_op (o := .readQueryId be) trivial fun queryId => ?_
  refine like_op (o := .readQueryText be) trivial fun text => ?_
  refine like_op (o := .readNode be j .nodeId) rfl fun nodeId => ?_
  refine like_op (o := .readNode be j .parentNodeId) rfl fun parentNodeId => ?_
  refine like_op (o := .readNode be j .tag) rfl fun tag => ?_
  refine like_number (n := .startupTimeUs) rfl fun _ _ => ?_
  refine like_number (n := .totalTimeUs) rfl fun _ _ => ?_
  refine like_number (n := .loopsExecuted) rfl fun _ _ => ?_
  refine like_number (n := .tuplesReturned) rfl fun _ _ => ?_
  refine like_number (n := .cacheHits) rfl fun _ _ => ?_
  refine like_number (n := .cacheMisses) rfl fun _ _ => ?_
  refine like_number (n := .localCacheHits) rfl fun _ _ => ?_
  refine like_number (n := .localCacheMisses) rfl fun _ _ => ?_
  refine like_number (n := .spillFileReads) rfl fun _ _ => ?_
  refine like_number (n := .spillFileWrites) rfl fun _ _ => ?_
  refine like_number (n := .rowsFilteredByJoins) rfl fun _ _ => ?_
  refine like_number (n := .rowsFilteredByExpressions) rfl fun _ _ => .ret ?_
  exact ⟨rfl, rfl, rfl, rfl, rfl, rfl⟩

theorem v1StatusLoop_like :
    ∀ k (slotIdx nodeIdx : UInt32), (v1StatusLoop srv k slotIdx nodeIdx).Like (pollingPairs D)
      (fun _ _ => True) (v1StatusLoop srv k slotIdx nodeIdx)
  | 0, _, _ => like_op (o := .setScan none) trivial fun _ => .ret trivial
  | k + 1, slotIdx, nodeIdx => by
    unfold v1StatusLoop
    refine like_upkeep_bind (pwhGetBackendEntry_housekeeping _) fun _ => ?_
    refine like_op (o := .mark (.visitEntry slotIdx.toNat)) trivial fun _ => ?_
    refine like_exact_bind (p := isNodeCounted slotIdx.toNat nodeIdx) ?_ fun counted => ?_
    · unfold isNodeCounted
      rw [pwhIsBackendEntryActive_bind]
      refine act_all trivial fun pid => ?_
      split
      · exact act_all trivial fun _ => trivial
      · trivial
    · split
      · refine (sumTotalQueryTime_like slotIdx.toNat).bind fun total total' _ => ?_
        refine (pwhFillV1StatusTuple_like slotIdx.toNat nodeIdx.toNat total total').bind
          fun row row' h => ?_
        have halike : (Emission.row row).Alike (.row row') := h
        refine like_emit halike ?_
        exact like_op (o := .setScan (some (slotIdx, nodeIdx + 1))) trivial fun _ => .ret trivial
      · refine like_op (o := .mark .leaveEntry) trivial fun _ => ?_
        exact like_op (o := .setScan (some (slotIdx + 1, 0))) trivial fun _ =>
          v1StatusLoop_like k (slotIdx + 1) 0

theorem v1StatusF_like :
    (v1StatusF srv).Like (pollingPairs D) (fun _ _ => True) (v1StatusF srv) := by
  refine like_op (o := .getScan) trivial fun scan => ?_
  rcases scan with _ | ⟨slotIdx, nodeIdx⟩
  · exact like_upkeep_bind v1StatusFirstCall_all fun _ => v1StatusLoop_like _ _ _
  · exact v1StatusLoop_like _ _ _

theorem metricsHandler_like (palloced : Nat → UInt8) (req : HttpRequest) :
    (metricsHandler srv palloced req).Like (pollingPairs D) (fun _ _ => True)
      (metricsHandler srv palloced req) := by
  unfold metricsHandler
  split
  · exact .ret trivial
  refine like_op (o := .lwLockAcquire .LW_SHARED) trivial fun _ => ?_
  refine like_upkeep_bind (cleanupOrphanedSlots_all _ 0 0) fun _ => ?_
  refine like_upkeep_bind (requestBackendMetrics_all _ 0 0) fun _ => ?_
  refine Like.bind (Q := fun _ _ => True) ((formatEntries_like _ 0 _ _).bind fun _ _ _ =>
    .ret trivial) fun metrics metrics' _ => ?_
  rw [pwhLwlockRelease_bind, pwhLwlockRelease_bind]
  refine like_op (o := .lwLockRelease) trivial fun held => ?_
  split
  · exact .ret trivial
  · exact .raise

end Readers

/-! ## 5. Hooks and the handler

The hooks read no number.  The operations of the handler have no counterpart in the run without
signals. -/

section Hooks

variable {srv : Server D} {p : Pid} {P : Op D → Prop}

theorem Op.OfHook.isExact {o : Op D} (h : o.OfHook) : o.IsExact := by
  cases o
  case readNode i j f =>
    obtain rfl : f = .magic := h
    rfl
  all_goals trivial

variable [CDouble D]

/-- A collection writes nothing but numbers. -/
theorem pwhCollectPlanstateMetrics_measuring (ps : Option PlanStatePtr) (be maxNodes : Nat) :
    (pwhCollectPlanstateMetrics srv ps be maxNodes).All Op.IsMeasuring :=
  pwhCollectPlanstateMetrics_performs (fun _ => trivial) trivial trivial (fun _ => trivial)
    (fun _ _ => trivial) (fun _ => trivial)
    (fun _ instr w hw => instrumentationFields_identifies instr w hw) ps maxNodes

/-- **No call depends on numbers.** -/
theorem Call.program_like (c : Call D) :
    (c.program srv p).Like (pollingPairs D) (fun _ _ => True) (c.program srv p) := by
  have hhook : c.IsHook → (c.program srv p).Like (pollingPairs D) (fun _ _ => True)
      (c.program srv p) := fun hc =>
    (like_exact ((Call.program_ofHook hc).mono fun _ ho => ho.isExact)).mono fun _ _ _ => trivial
  cases c with
  | fetchStatus => exact v1StatusF_like.bind fun _ _ _ => .ret trivial
  | scrape req palloced => exact (metricsHandler_like palloced req).bind fun _ _ _ => .ret trivial
  | _ => exact hhook trivial

/-- The handler measures and does nothing else. -/
theorem deliverSigusr2_measuring : (deliverSigusr2 srv p).All Op.IsMeasuring := by
  refine act_all trivial fun _ => Prog.All.bind (Prog.All.catching ?_ trivial) fun _ =>
    act_all (o := .setInSignalHandler false) trivial fun _ => trivial
  unfold pwhSigusr2Handler
  refine act_all trivial fun current => ?_
  cases current with
  | none => trivial
  | some q =>
    dsimp only
    split
    · trivial
    refine (findMySlot_all (fun _ => trivial) _ _).bind fun found => ?_
    cases found with
    | none => trivial
    | some be =>
      exact (pwhCollectPlanstateMetrics_measuring _ be _).bind fun _ =>
        act_all (o := .incPollGeneration be) trivial fun _ => trivial

/-- An error that leaves the handler is the one that `check_stack_depth` raises. -/
theorem pwhSigusr2Handler_raisesAfter :
    (pwhSigusr2Handler srv p).RaisesAfter fun o _ => o = .ereportError := by
  unfold pwhSigusr2Handler
  refine act_raisesAfter fun current => ?_
  cases current with
  | none => trivial
  | some q =>
    dsimp only
    split
    · trivial
    refine (findMySlot_noRaise _ _).raisesAfter.bind fun found => ?_
    cases found with
    | none => trivial
    | some be =>
      exact (pwhCollectPlanstateMetrics_raisesAfter (fun _ => rfl) _ be _).bind fun _ =>
        act_raisesAfter fun _ => trivial

end Hooks

/-! ## 6. Every run -/

/-- No poll runs out of stack: no handler gets to the error of `check_stack_depth`, after which it
would leave the code it has interrupted.  It raises no other (`pwhSigusr2Handler_raisesAfter`). -/
def PollsFindStack (c : Config Pid (State D) (Res (D := D))) :
    Event Pid (Call D) Empty (Env D) → Prop
  | .run p _ => (c.shared.backends p).inSignalHandler = true →
      ∀ k, c.thread p ≠ .op .ereportError k
  | _ => True

section Runs

variable [CDouble D] {srv : Server D} {s s' : State D}

omit [CDouble D] in
theorem admitted_congr (h : SameButNumbers s s') (p : Pid) (cl : Call D) :
    cl.admitted s p = cl.admitted s' p := by
  have halive := h.field p Backend.isAlive fun _ => rfl
  have hstarted := h.field p Backend.started fun _ => rfl
  cases cl <;> simp only [Call.admitted, halive, hstarted]

omit [CDouble D] in
theorem exec_showAlike {p : Pid} {o o' : Op D} (h : SameButNumbers s s') (ho : o.ShowAlike o')
    {e : Env D} {r : Res o} {t : State D} (hx : exec srv p o e s = some (r, t)) :
    ∃ r' t', exec srv p o' e s' = some (r', t') ∧ SameButNumbers t t' := by
  cases o
  case emit x =>
    cases o'
    case emit y =>
      cases hx
      exact ⟨(), _, rfl, h.modifyBackend p fun _ => rfl⟩
    all_goals exact ho.elim
  all_goals exact ho.elim

/-- Beside every run there is one without signals. -/
theorem polling_simulates (srv : Server D) :
    Simulates (clusterSystem srv) (clusterSystem srv) (pollingPairs D) SameButNumbers where
  same _ _ _ _ _ _ _ ho h hx := h.exec_exact ho hx
  swap _ _ _ _ _ _ _ _ ho h hx := exec_showAlike h ho hx
  left p o e s r t s' ho h hx :=
    ho.elim (fun ho => h.exec_measuring ho hx) fun ho => h.exec_readsNumber ho hx
  right p o s s' ho h := by
    cases o
    case readNode i j f => exact ⟨{}, _, _, rfl, h⟩
    all_goals exact ho.elim
  call p cl s s' prog h hx := by
    obtain ⟨hadm, hprog⟩ := Option.ite_none_right_eq_some.mp hx
    cases hprog
    exact ⟨_, if_pos (admitted_congr h p cl ▸ hadm), cl.program_like⟩
  interrupt p s h hx := by
    obtain ⟨-, hprog⟩ := Option.ite_none_right_eq_some.mp hx
    cases hprog
    exact ⟨deliverSigusr2_measuring.mono fun _ ho => .inl ho, deliverSigusr2_noRaise⟩
  external x := x.elim

/-- **Polling shows in the numbers only.**  Wherever a run whose polls find enough stack has got to,
a run in which no process was ever signalled has got to a state that differs in numbers only; there
the same processes are between two calls, and what a reader is about to show is the same up to its
numbers. -/
theorem polling_is_transparent (srv : Server D) {c : Config Pid (State D) (Res (D := D))}
    (h : (clusterSystem srv).Reach PollsFindStack clusterInit c) (p : Pid) :
    ∃ c', (clusterSystem srv).Reach Uninterrupted clusterInit c' ∧
      SameButNumbers c.shared c'.shared ∧
      ((∀ o k, c.thread p ≠ .op o k) → ∀ o k, c'.thread p ≠ .op o k) ∧
      ∀ e k, c.thread p = .op (.emit e) k → ∃ e' k', c'.thread p = .op (.emit e') k' ∧
        e.Alike e' := by
  have h₀ : Beside (pollingPairs D) SameButNumbers (clusterInit : Config Pid (State D) _)
      clusterInit := ⟨.refl _, fun _ => .ret trivial⟩
  obtain ⟨d, hd, hbeside⟩ := h.simulated (polling_simulates srv) h₀
  obtain ⟨t, q, hreach, hsame, hnow⟩ := (polling_simulates srv).catch_up p (hbeside.thread p) d rfl
    hbeside.shared
  have hthread : Function.update d.thread p q p = q := Function.update_self ..
  refine ⟨_, hd.trans hreach, hsame, fun hidle o k hq => ?_, fun e k hp => ?_⟩
  · exact hnow.idle hidle o k (hthread.symm.trans hq)
  · rw [hp] at hnow
    simp only [hthread]
    cases hnow with
    | same ho hk => exact ho.elim
    | @swap _ o' _ l ho hk =>
      cases o'
      case emit e' => exact ⟨e', l, rfl, ho⟩
      all_goals exact ho.elim
    | left ho hk => exact ho.elim (fun h => h.elim) fun h => h.elim

end Runs

/-- What process 1 has measured of its scan so far. -/
def halfScanned : Instrumentation ℚ :=
  ⟨true, 5, 0, 0, 1, 1, 2, 0, 0, 0, ⟨7, 0, 0, 0, 0, 0⟩⟩

/-- Process 1 is polled in the middle of its query, and process 2 reads the view. -/
def polledRun : List (Event Pid (Call ℚ) Empty (Env ℚ)) :=
  startQuery 1 10 ++ [.interrupt 1] ++
    List.replicate 22 (.run 1 { instrument := some halfScanned }) ++
    [.call 2 (.fork true 0)] ++ runs 2 1 ++ [.call 2 .fetchStatus] ++ runs 2 36

/-- The test of `PollsFindStack`. -/
def pollsFindStack (c : Config Pid (State ℚ) (Res (D := ℚ))) :
    Event Pid (Call ℚ) Empty (Env ℚ) → Bool
  | .run p _ => !(c.shared.backends p).inSignalHandler ||
      match c.thread p with
      | .op .ereportError _ => false
      | _ => true
  | _ => true

theorem pollsFindStack_sound {c : Config Pid (State ℚ) (Res (D := ℚ))}
    {ev : Event Pid (Call ℚ) Empty (Env ℚ)} (h : pollsFindStack c ev = true) :
    PollsFindStack c ev := by
  cases ev with
  | run p e =>
    intro hpoll k hp
    simp [pollsFindStack, hpoll, hp] at h
  | _ => trivial

/-- Process `p` is about to show a row with this time. -/
def showsTime (p : Pid) (totalTimeUs : ℚ) (c : Config Pid (State ℚ) (Res (D := ℚ))) : Bool :=
  match c.thread p with
  | .op (.emit (.row r)) _ => r.totalTimeUs = totalTimeUs
  | _ => false

theorem thread_of_showsTime {c : Config Pid (State ℚ) (Res (D := ℚ))} {p : Pid} {time : ℚ}
    (h : showsTime p time c = true) :
    ∃ r k, c.thread p = .op (.emit (.row r)) k ∧ r.totalTimeUs = time := by
  unfold showsTime at h
  split at h
  · rename_i r k hp
    exact ⟨r, k, hp, of_decide_eq_true h⟩
  · cases h

set_option maxRecDepth 10000 in
/-- The two seconds that the poll measured are shown; without it, another time of the node. -/
theorem polledRun_shows_alike : ∃ c : Config Pid (State ℚ) (Res (D := ℚ)), ∃ r k,
    (clusterSystem smallServer).Reach PollsFindStack clusterInit c ∧
      c.thread 2 = .op (.emit (.row r)) k ∧ r.totalTimeUs = 2000000 ∧
      ∃ c', (clusterSystem smallServer).Reach Uninterrupted clusterInit c' ∧
        SameButNumbers c.shared c'.shared ∧
        ∃ e' k', c'.thread 2 = .op (.emit e') k' ∧ (Emission.row r).Alike e' := by
  have hrun : ∃ c, (clusterSystem smallServer).Reach PollsFindStack clusterInit c ∧
      showsTime 2 2000000 c = true :=
    System.exists_reach (clusterSystem smallServer) pollsFindStack
      (fun _ _ h => pollsFindStack_sound h) clusterInit polledRun _ (by decide +kernel)
  obtain ⟨c, hc, hshows⟩ := hrun
  obtain ⟨r, k, hp, htime⟩ := thread_of_showsTime hshows
  obtain ⟨c', hc', hsame, -, hemit⟩ := polling_is_transparent smallServer hc 2
  exact ⟨c, r, k, hc, hp, htime, c', hc', hsame, hemit _ k hp⟩

end WhatIsHappening
