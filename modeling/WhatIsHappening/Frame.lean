/-
# What an operation leaves alone

Every property proved later rests on the same few facts about one operation: whose globals it
changes, which slot it fills, who may change a pid or the lock.  They are proved here, once, by
cases over the operations.  Beside them stand the rules that take a program apart into its
operations, and the rule for a try block.
-/
import WhatIsHappening.Cluster

namespace WhatIsHappening

open Interleaving Prog

variable {D : Type} {srv : Server D} {p q : Pid} {o : Op D} {e : Env D} {s t : State D}
  {r : Res o}

/-- A run of a program of process `p` that nothing interrupts. -/
def alone (srv : Server D) (p : Pid) (o : Op D) (s : State D) : Option (Res o × State D) :=
  exec srv p o {} s

/-! ## 1. Slots and processes -/

namespace State

-- an update of a process is seen in no slot and not in the lock, one of a slot in no process

@[simp] theorem pid_modifyBackend (s : State D) (p : Pid) (f : Backend D → Backend D) (i : Nat) :
    (s.modifyBackend p f).pid i = s.pid i := rfl

@[simp] theorem entries_modifyBackend (s : State D) (p : Pid) (f : Backend D → Backend D) :
    (s.modifyBackend p f).entries = s.entries := rfl

@[simp] theorem lock_modifyBackend (s : State D) (p : Pid) (f : Backend D → Backend D) :
    (s.modifyBackend p f).entrySearchLock = s.entrySearchLock := rfl

@[simp] theorem backends_modifyEntry (s : State D) (i : Nat)
    (f : PwhSharedMemoryBackendEntry D → PwhSharedMemoryBackendEntry D) :
    (s.modifyEntry i f).backends = s.backends := rfl

@[simp] theorem lock_modifyEntry (s : State D) (i : Nat)
    (f : PwhSharedMemoryBackendEntry D → PwhSharedMemoryBackendEntry D) :
    (s.modifyEntry i f).entrySearchLock = s.entrySearchLock := rfl

@[simp] theorem backends_modifyBackend_self (s : State D) (p : Pid)
    (f : Backend D → Backend D) : (s.modifyBackend p f).backends p = f (s.backends p) := by
  simp [modifyBackend]

/-- An update of one process is no update of another. -/
theorem backends_modifyBackend_of_ne (s : State D) {p q : Pid} (f : Backend D → Backend D)
    (h : q ≠ p) : (s.modifyBackend p f).backends q = s.backends q := by
  simp [modifyBackend, h]

@[simp] theorem entries_modifyEntry_self (s : State D) (i : Nat)
    (f : PwhSharedMemoryBackendEntry D → PwhSharedMemoryBackendEntry D) :
    (s.modifyEntry i f).entries i = f (s.entries i) := by
  simp [modifyEntry]

/-- An update of one slot is no update of another. -/
theorem entries_modifyEntry_of_ne (s : State D) {i j : Nat}
    (f : PwhSharedMemoryBackendEntry D → PwhSharedMemoryBackendEntry D) (h : j ≠ i) :
    (s.modifyEntry i f).entries j = s.entries j := by
  simp [modifyEntry, h]

/-- An update of a slot that does not write its pid. -/
theorem pid_modifyEntry (s : State D) (i j : Nat)
    (f : PwhSharedMemoryBackendEntry D → PwhSharedMemoryBackendEntry D)
    (h : ∀ be, (f be).backendPid = be.backendPid) : (s.modifyEntry i f).pid j = s.pid j := by
  by_cases hij : j = i
  · subst hij
    simp [pid, h]
  · simp [pid, entries_modifyEntry_of_ne s f hij]

end State

/-- A process changes nobody's globals but its own. -/
theorem exec_backends_of_ne (h : exec srv p o e s = some (r, t)) (hq : q ≠ p) :
    t.backends q = s.backends q := by
  cases o
  case mark m => cases m <;> cases h <;> simp [State.record, State.modifyBackend, hq]
  case lwLockAcquire m =>
    obtain ⟨l, -, hl⟩ := Option.map_eq_some_iff.mp h
    cases hl
    exact State.backends_modifyBackend_of_ne _ _ hq
  case lwLockRelease =>
    simp only [exec] at h
    split at h <;> cases h <;> exact State.backends_modifyBackend_of_ne _ _ hq
  case readInstrument ps => cases h; cases e.instrument <;> rfl
  case raisesHere => cases h; cases e.raises <;> simp [State.modifyBackend, hq]
  all_goals cases h; first | rfl | exact State.backends_modifyBackend_of_ne _ _ hq

/-- Only a write of a pid changes one. -/
theorem exec_pid (h : exec srv p o e s = some (r, t)) (i : Nat) :
    t.pid i = s.pid i ∨ ∃ v, o = .writeBackendPid i v ∧ t.pid i = v := by
  cases o
  case writeBackendPid j v =>
    cases h
    by_cases hij : i = j
    · subst hij
      exact .inr ⟨v, rfl, by simp [State.pid]⟩
    · exact .inl (by simp [State.pid, State.entries_modifyEntry_of_ne s _ hij])
  case mark m => cases m <;> cases h <;> exact .inl rfl
  case lwLockAcquire m =>
    obtain ⟨l, -, hl⟩ := Option.map_eq_some_iff.mp h
    cases hl
    exact .inl rfl
  case lwLockRelease =>
    simp only [exec] at h
    split at h <;> cases h <;> exact .inl rfl
  case readInstrument ps => cases h; cases e.instrument <;> exact .inl rfl
  case raisesHere => cases h; cases e.raises <;> exact .inl rfl
  all_goals
    cases h
    first | exact .inl rfl | exact .inl (State.pid_modifyEntry s _ i _ fun _ => rfl)

/-- Only the lock's own operations and the end of a process change the lock. -/
theorem exec_lock (h : exec srv p o e s = some (r, t)) :
    t.entrySearchLock = s.entrySearchLock ∨ (∃ m, o = .lwLockAcquire m) ∨ o = .lwLockRelease ∨
      o = .lwLockReleaseAll ∨ o = .processExit := by
  cases o
  case lwLockAcquire m => exact .inr (.inl ⟨m, rfl⟩)
  case lwLockRelease => exact .inr (.inr (.inl rfl))
  case lwLockReleaseAll => exact .inr (.inr (.inr (.inl rfl)))
  case processExit => exact .inr (.inr (.inr (.inr rfl)))
  case mark m => cases m <;> cases h <;> exact .inl rfl
  case readInstrument ps => cases h; cases e.instrument <;> exact .inl rfl
  case raisesHere => cases h; cases e.raises <;> exact .inl rfl
  all_goals cases h; exact .inl rfl

/-- The slot whose query data an operation writes. -/
def Op.fills : Op D → Option Nat
  | .writeCountOfMetrics i _ | .writeQueryStartTime i _ | .writeQueryId i _
  | .writeQueryTextByte i _ _ | .writeNode i _ _ _ => some i
  | _ => none

/-- What an operation leaves of a slot it does not fill: everything but the pid and the poll
generation. -/
theorem exec_entry (h : exec srv p o e s = some (r, t)) {i : Nat} (hf : o.fills ≠ some i) :
    t.entries i = { s.entries i with
      backendPid := (t.entries i).backendPid, pollGeneration := (t.entries i).pollGeneration } := by
  -- whatever is done to slot `i` itself has to be of these two kinds
  have hmod : ∀ j (f : PwhSharedMemoryBackendEntry D → PwhSharedMemoryBackendEntry D),
      (j = i → f (s.entries i) = { s.entries i with
        backendPid := (f (s.entries i)).backendPid
        pollGeneration := (f (s.entries i)).pollGeneration }) →
      (s.modifyEntry j f).entries i = { s.entries i with
        backendPid := ((s.modifyEntry j f).entries i).backendPid
        pollGeneration := ((s.modifyEntry j f).entries i).pollGeneration } := by
    intro j f hji
    by_cases hj : i = j
    · subst hj
      rw [State.entries_modifyEntry_self]
      exact hji rfl
    · rw [State.entries_modifyEntry_of_ne s f hj]
  cases o
  case mark m => cases m <;> cases h <;> rfl
  case lwLockAcquire m =>
    obtain ⟨l, -, hl⟩ := Option.map_eq_some_iff.mp h
    cases hl
    rfl
  case lwLockRelease =>
    simp only [exec] at h
    split at h <;> cases h <;> rfl
  case readInstrument ps => cases h; cases e.instrument <;> rfl
  case raisesHere => cases h; cases e.raises <;> rfl
  case writeBackendPid j v =>
    cases h
    simp only [State.entries_modifyBackend]
    exact hmod j _ fun _ => rfl
  all_goals
    cases h
    first
    | rfl
    | exact hmod _ _ fun hj => absurd (congrArg some hj) hf
    | (refine hmod _ _ fun _ => ?_; rfl)

/-- The record that is written, and every other one. -/
theorem metrics_writeNode {i j : Nat} {f : NodeField} {v : f.ty D} {u : Unit}
    (h : exec srv p (.writeNode i j f v) e s = some (u, t)) (i' j' : Nat) :
    (t.entries i').metrics j' =
      if i' = i ∧ j' = j then ((s.entries i).metrics j).set f v else (s.entries i').metrics j' := by
  cases h
  by_cases hi : i' = i
  · subst hi
    by_cases hj : j' = j
    · subst hj
      simp
    · simp [hj]
  · simp [State.entries_modifyEntry_of_ne s _ hi, hi]

/-- Only a write of a field changes it. -/
theorem exec_node (h : exec srv p o e s = some (r, t)) (i j : Nat) (f : NodeField) :
    ((t.entries i).metrics j).get f = ((s.entries i).metrics j).get f ∨
      ∃ v, o = .writeNode i j f v ∧ ((t.entries i).metrics j).get f = v := by
  by_cases hn : ∃ i' j' g v, o = .writeNode i' j' g v
  · obtain ⟨i', j', g, v, rfl⟩ := hn
    rw [metrics_writeNode h]
    by_cases hij : i = i' ∧ j = j'
    · obtain ⟨rfl, rfl⟩ := hij
      rw [if_pos ⟨rfl, rfl⟩]
      by_cases hg : f = g
      · subst hg
        exact .inr ⟨v, rfl, PwhNodeMetrics.get_set_self _ f v⟩
      · exact .inl (PwhNodeMetrics.get_set_of_ne _ _ hg)
    · rw [if_neg hij]
      exact .inl rfl
  · have hm : (t.entries i).metrics = (s.entries i).metrics := by
      by_cases hf : o.fills = some i
      · cases o
        case writeNode i' j' g v => exact absurd ⟨i', j', g, v, rfl⟩ hn
        all_goals first | cases hf; cases h; simp | cases hf
      · rw [exec_entry h hf]
    rw [hm]
    exact .inl rfl

/-- What was measured stays measured. -/
theorem exec_measured (h : exec srv p o e s = some (r, t)) {x : PlanStatePtr × Instrumentation D}
    (hx : x ∈ s.measured) : x ∈ t.measured := by
  cases o
  case mark m => cases m <;> cases h <;> exact hx
  case lwLockAcquire m =>
    obtain ⟨l, -, hl⟩ := Option.map_eq_some_iff.mp h
    cases hl
    exact hx
  case lwLockRelease =>
    simp only [exec] at h
    split at h <;> cases h <;> exact hx
  case readInstrument ps =>
    cases h
    cases e.instrument
    · exact hx
    · exact List.mem_cons_of_mem _ hx
  case raisesHere => cases h; cases e.raises <;> exact hx
  all_goals cases h; exact hx

/-- Only a mark and a fork change which query a process recorded last. -/
theorem exec_lastRecorded (h : exec srv p o e s = some (r, t)) :
    (t.backends p).lastRecorded = (s.backends p).lastRecorded ∨
      (∃ i q, o = .mark (.rememberQuery i q) ∧ (t.backends p).lastRecorded = some q) ∨
      ∃ enabled minCost, o = .fork enabled minCost := by
  cases o
  case mark m =>
    cases m
    case rememberQuery i q => cases h; exact .inr (.inl ⟨i, q, rfl, by simp [State.record]⟩)
    all_goals cases h; simp [State.record]
  case lwLockAcquire m =>
    obtain ⟨l, -, hl⟩ := Option.map_eq_some_iff.mp h
    cases hl
    simp
  case lwLockRelease =>
    simp only [exec] at h
    split at h <;> cases h <;> simp
  case readInstrument ps => cases h; cases e.instrument <;> exact .inl rfl
  case raisesHere => cases h; cases e.raises <;> simp
  case fork enabled minCost => exact .inr (.inr ⟨enabled, minCost, rfl⟩)
  all_goals cases h; simp

/-- The operation writes the query data of slot `i`, or its pid. -/
def Op.FillsOrClaims (i : Nat) (o : Op D) : Prop :=
  o.fills = some i ∨ ∃ v, o = .writeBackendPid i v

/-! ## 2. Programs, one operation after the other -/

section Sequences

variable {α : Type} {P : Op D → Prop} {bad : (o : Op D) → Res o → Prop} {f : Res o → PgProg D α}

/-- What a program performs, from its first operation on. -/
theorem act_all (ho : P o) (hf : ∀ r, (f r).All P) : (act o >>= f).All P := ⟨ho, hf⟩

/-- No operation raises an error by itself... -/
theorem act_noRaise (hf : ∀ r, (f r).NoRaise) : (act o >>= f).NoRaise := hf

theorem act_raisesAfter (hf : ∀ r, (f r).RaisesAfter bad) : (act o >>= f).RaisesAfter bad :=
  fun r => .inr (hf r)

/-- ...but `ereport(ERROR)`. -/
theorem ereportError_raisesAfter (hbad : ∀ r, bad .ereportError r) :
    (ereportError : PgProg D α).RaisesAfter bad :=
  fun r => .inl ⟨rfl, hbad r⟩

/-- A release performs one operation, whether the lock was held or not. -/
theorem pwhLwlockRelease_all (h : P .lwLockRelease) : (pwhLwlockRelease : PgProg D Unit).All P :=
  ⟨h, fun held => by cases held <;> trivial⟩

end Sequences

/-! ## 3. The rule for a try block -/

section TryBlocks

variable {σ : Type} {L : Contract (Res (D := D)) σ} {m : Bool} {body handler : PgProg D Unit}
  {Q : Unit → σ → Prop} {E F : σ → Prop} {s₀ : σ}

/-- Where no error is raised, nothing happens. -/
theorem raisesHere_false {b : Bool} (h : ∃ e, exec srv p .raisesHere e s = some (b, t))
    (hb : b = false) : t = s := by
  obtain ⟨e, he⟩ := h
  cases he
  have hno : e.raises = false := hb
  simp [hno]

/-- An error may leave the body in front of every statement; `F` holds there, and the handler
starts from it. -/
theorem wp_pgTryCatch (hsem : ∀ s b t, L.sem .raisesHere s b t → b = false → t = s)
    (hF : L.Stable F) (hr : L.Silent F .raisesHere) (ha : ∀ s, L.assume .raisesHere s)
    (hb : L.wp true body Q F s₀) (hh : ∀ t, L.inv t → F t → L.wp false handler Q E t) :
    L.wp false (pgTryCatch body handler) Q E s₀ := by
  refine Contract.wp_catching ?_ nofun
  refine Contract.wp_mono (Contract.wp_faulty hF (fun t b t' hi ht hs => ?_) hb) (fun _ _ _ h => h)
    hh
  obtain ⟨hi', hg, hrel⟩ := hr t b t' hi ht (ha t) hs
  exact ⟨hi', hg, hsem t b t' hs, fun _ => hF t t' ht hrel hi'⟩

end TryBlocks

end WhatIsHappening
