/-
# A process among the others

`Backend.Runs` watches a process that runs alone.  Here it runs among all the others.  What it
knows for sure is what it knew alone (`State.own`): its part of the lock, and what it recorded
itself, which is kept as a record of the run.  Its own operations act on that as before
(`exec_own`), those of the others leave it alone (`view_of_other`), and so everything proved of a
process alone holds of it here (`process_holds`).
-/
import WhatIsHappening.Backend.Runs
import WhatIsHappening.Slots.Sound

namespace WhatIsHappening

open Interleaving Prog

variable {D : Type}

/-! ## 1. What a process knows for sure -/

/-- The queries and plan nodes a process has recorded, by slot. -/
structure History where
  tree : Nat → Option QueryDescPtr
  node : Nat → Nat → Option PlanStatePtr

/-- What an operation adds to it. -/
def History.add : Op D → History → History
  | .mark (.rememberQuery i q), g => { g with tree := Function.update g.tree i (some q) }
  | .mark (.rememberNode i j ps), g =>
    { g with node := Function.update g.node i (Function.update (g.node i) j (some ps)) }
  | _, g => g

/-- Only a mark changes which plan node a record was made for. -/
theorem History.add_node {o : Op D} {i j : Nat} (h : ∀ ps, o ≠ .mark (.rememberNode i j ps))
    (g : History) : (g.add o).node i j = g.node i j := by
  cases o
  case mark m =>
    cases m
    case rememberNode i' j' ps =>
      by_cases hi : i = i'
      · subst hi
        have hj : j ≠ j' := fun hj => h ps (hj ▸ rfl)
        simp [History.add, hj]
      · simp [History.add, hi]
    all_goals rfl
  all_goals rfl

/-- The histories of all processes. -/
def addHistory (p : Pid) (o : Op D) (g : Pid → History) : Pid → History :=
  Function.update g p ((g p).add o)

/-- A state with the histories of all processes. -/
abbrev Traced (D : Type) := State D × (Pid → History)

/-- What process `p` has of the lock. -/
def LWLock.partOf (l : LWLock) (p : Pid) : LWLock where
  exclusive := if l.exclusive = some p then some p else none
  shared := l.shared.filter (· = p)

/-- The state as far as `p` knows it for sure. -/
def State.own (s : State D) (p : Pid) (g : History) : State D :=
  { s with
    entrySearchLock := s.entrySearchLock.partOf p
    recordedTree := g.tree
    recordedNode := g.node }

/-! ## 2. The lock -/

namespace LWLock

variable {l l' : LWLock} {p q : Pid}

theorem partOf_acquire {mode : LWLockMode} (h : l.acquire mode p = some l') :
    (l.partOf p).acquire mode p = some (l'.partOf p) := by
  cases mode with
  | LW_SHARED =>
    obtain ⟨hex, h⟩ := Option.ite_none_right_eq_some.mp h
    cases h
    simp [acquire, partOf, hex]
  | LW_EXCLUSIVE =>
    obtain ⟨⟨hex, hsh⟩, h⟩ := Option.ite_none_right_eq_some.mp h
    cases h
    simp [acquire, partOf, hex, hsh]

theorem partOf_release : (l.partOf p).release p = (l.release p).map fun l => l.partOf p := by
  by_cases hex : l.exclusive = some p
  · simp [release, partOf, hex]
  · by_cases hsh : p ∈ l.shared
    · simp [release, partOf, hex, hsh, List.erase_filter]
    · simp [release, partOf, hex, hsh]

theorem partOf_releaseAll (l : LWLock) (p : Pid) :
    (l.partOf p).releaseAll p = (l.releaseAll p).partOf p := by
  by_cases hex : l.exclusive = some p <;> simp [releaseAll, partOf, hex, List.filter_filter]

/-- What `p` has of the lock does not depend on what the others do with it. -/
theorem partOf_of_lockStep (h : LockStep q l l') (hpq : p ≠ q) : l'.partOf p = l.partOf p := by
  have hex := h.exclusive p hpq
  have hsh := h.shared p hpq
  simp only [partOf, hex, List.filter_eq, hsh]

end LWLock

/-! ## 3. The operations -/

section Exec

variable {srv : Server D} {p q : Pid} {o : Op D} {e : Env D} {s t : State D} {r : Res o}

/-- A process acts on what it knows for sure as it acts on the state. -/
theorem exec_own (h : exec srv p o e s = some (r, t)) (g : History) :
    exec srv p o e (s.own p g) = some (r, t.own p (g.add o)) := by
  cases o
  case lwLockAcquire m =>
    obtain ⟨l, hl, ht⟩ := Option.map_eq_some_iff.mp h
    cases ht
    have hl : (s.own p g).entrySearchLock.acquire m p = some (l.partOf p) :=
      LWLock.partOf_acquire hl
    simp only [exec, hl]
    rfl
  case lwLockRelease =>
    have hl : (s.own p g).entrySearchLock.release p =
      (s.entrySearchLock.release p).map fun l => l.partOf p := LWLock.partOf_release
    simp only [exec] at h ⊢
    cases hr : s.entrySearchLock.release p with
    | none =>
      rw [hr] at h hl
      cases h
      simp only [hl, Option.map_none]
      rfl
    | some l =>
      rw [hr] at h hl
      cases h
      simp only [hl, Option.map_some]
      rfl
  case lwLockReleaseAll =>
    cases h
    simp only [exec, State.own, LWLock.partOf_releaseAll]
    rfl
  case processExit =>
    cases h
    simp only [exec, State.own, LWLock.partOf_releaseAll]
    rfl
  case mark m => cases m <;> cases h <;> rfl
  case readInstrument ps => cases h; cases hi : e.instrument <;> simp [exec, hi] <;> rfl
  case raisesHere => cases h; cases hr : e.raises <;> simp [exec, hr] <;> rfl
  all_goals
    cases h
    rfl

/-- The rules of a run whose claims find their slot free. -/
def freeClaims : SlotRules := ⟨true, false⟩

/-- What the others do is invisible. -/
theorem view_of_other (h : exec srv q o e s = some (r, t)) (hp : p ≠ 0) (hpq : p ≠ q)
    (hg : SlotGuar freeClaims q o s t) (g : History) :
    (t.own p g).view p = (s.own p g).view p := by
  have hb := exec_backends_of_ne h hpq
  have hl := LWLock.partOf_of_lockStep (exec_lockStep h) hpq
  have hslot : ∀ i, (t.view p).slot i = (s.view p).slot i := by
    intro i
    by_cases hf : o.FillsOrClaims i
    · have hs : s.pid i ≠ p := by
        rcases hg.mine rfl i hf with hs | ⟨-, hs⟩
        · rw [hs]
          exact Ne.symm hpq
        · rw [hs]
          exact Ne.symm hp
      have ht : t.pid i ≠ p := fun ht => hs ((hg.rely p hpq).adds hp i ht)
      rw [slot_eq_none.mpr hs, slot_eq_none.mpr ht]
    · have hpid : t.pid i = s.pid i :=
        (exec_pid h i).resolve_right fun ⟨v, hv, _⟩ => hf (.inr ⟨v, hv⟩)
      have hheader : (t.entries i).header = (s.entries i).header := by
        rw [exec_entry h fun hfill => hf (.inl hfill)]
        rfl
      rw [slot_eq, slot_eq, hpid, hheader]
  have hslots : (t.view p).slot = (s.view p).slot := funext hslot
  simp only [State.view] at hslots
  simp only [State.view, State.own, State.pid] at hslots ⊢
  rw [hb, hl, hslots]

end Exec

/-! ## 4. The rule for runs -/

section Runs

variable [CDouble D] {srv : Server D} {p : Pid}

/-- The watch for what slots show. -/
def shownWatch : Watch := { numbers := true, shown := true }

/-- All processes, with a record of what each of them has recorded. -/
def tracedCluster (srv : Server D) :
    System Pid (Call D) Empty (Env D) (Traced D) (Res (D := D)) :=
  (clusterSystem srv).tracing addHistory

/-- The next event starts no measuring of a tree but that of the current query, which has been
recorded. -/
def measuresCurrent (srv : Server D) (c : Config Pid (State D) (Res (D := D))) :
    Event Pid (Call D) Empty (Env D) → Bool
  | .call p (.executorEnd q) =>
    !(c.shared.backends p).isEnabled || (srv.queryDesc q).planstate = none ||
      (List.range srv.gucs.maxTrackedQueries).all (fun i => c.shared.pid i ≠ p) ||
      (c.shared.backends p).currentQueryDesc.any fun q' =>
        (srv.queryDesc q').planstate = (srv.queryDesc q).planstate
  | .interrupt p =>
    !(c.shared.backends p).isRecording ||
      (c.shared.backends p).currentQueryDesc.all fun q => (srv.queryDesc q).planstate = none
  | _ => true

/-- Every operation keeps what its process owes about the slots. -/
def KeepsSlots (srv : Server D) (c : Config Pid (State D) (Res (D := D))) :
    Event Pid (Call D) Empty (Env D) → Prop
  | .run p e => ∀ o k r t, c.thread p = .op o k → exec srv p o e c.shared = some (r, t) →
      SlotGuar freeClaims p o c.shared t
  | _ => True

/-- What process `p` sees of a state with a record. -/
def ownView (p : Pid) (s : Traced D) : View D := (s.1.own p (s.2 p)).view p

omit [CDouble D] in
theorem ownView_of_other {q : Pid} {o : Op D} {e : Env D} {s : Traced D} {t : State D} {r : Res o}
    (h : exec srv q o e s.1 = some (r, t)) (hp : p ≠ 0) (hpq : p ≠ q)
    (hg : SlotGuar freeClaims q o s.1 t) : ownView p (t, addHistory q o s.2) = ownView p s := by
  have := view_of_other h hp hpq hg (s.2 p)
  simpa [ownView, addHistory, hpq] using this

/-- The contract of process `p` among the others. -/
def processContract (srv : Server D) (p : Pid) :
    Contract (Res (D := D)) (Traced D) :=
  (viewContract shownWatch srv p).comap (ownView p)

omit [CDouble D] in
/-- Where its current query is measured, an idle process may make its call. -/
theorem callOk_of_measuresCurrent {c : Config Pid (State D) (Res (D := D))} {g : History}
    {cl : Call D} (hidle : ∀ i h, ((c.shared.own p g).view p).slot i = some h →
      ∃ q, g.tree i = some q ∧ ∀ q', (c.shared.backends p).currentQueryDesc = some q' → q' = q)
    (h : measuresCurrent srv c (.call p cl) = true) :
    shownWatch.callOk srv ((c.shared.own p g).view p) cl := by
  cases cl with
  | executorEnd q =>
    refine ⟨nofun, nofun, fun _ hen i hi hslot => ?_, nofun⟩
    have hen : (c.shared.backends p).isEnabled = true := hen
    have hpid : c.shared.pid i = p := slot_ne_none.mp hslot
    simp only [measuresCurrent, hen, Bool.not_true, Bool.false_or, Bool.or_eq_true,
      decide_eq_true_eq, List.all_eq_true, List.mem_range, Option.any_eq_true] at h
    rcases h with (hnone | hno) | ⟨q', hcur, hplan⟩
    · exact .inl hnone
    · exact absurd hpid (hno i hi)
    · obtain ⟨hd, hhd⟩ := Option.ne_none_iff_exists'.mp hslot
      obtain ⟨q₁, htree, hcurrent⟩ := hidle i hd hhd
      exact .inr ⟨q₁, htree, by rw [← hcurrent q' hcur, hplan]⟩
  | abort event => exact ⟨nofun, nofun, rfl⟩
  | abortSub qs => exact ⟨nofun, nofun, rfl⟩
  | fork enabled minCost => exact nofun
  | executorStart q => trivial
  | _ => rfl

theorem process_sound (hp : p ≠ 0) :
    System.SoundFor (tracedCluster srv)
      (fun c e => measuresCurrent srv (System.untraced c) e = true ∧
        KeepsSlots srv (System.untraced c) e)
      p (processContract srv p) fun s => Idle shownWatch srv p (ownView p s) where
  sem_of_ok c e o k r s' hthread _ hx := by
    obtain ⟨⟨r, t⟩, hexec, heq⟩ := Option.map_eq_some_iff.mp hx
    cases heq
    have hown := exec_own hexec (c.shared.2 p)
    obtain ⟨hd, hview⟩ := view_exec hown
    have hadm : shownWatch.admits srv e (ownView p c.shared) o :=
      Watch.admits_of_unclean rfl fun _ _ ht => nomatch ht
    refine ⟨e, hd, hadm, answers_exec hown, ?_⟩
    simpa [ownView, addHistory] using hview
  assume_of_ok _ _ _ _ _ _ := trivial
  stable s t h hr _ := by
    have hr : ownView p s = ownView p t := hr
    exact show Idle shownWatch srv p (ownView p t) from hr ▸ h
  others c j e o k r s' hj hthread hok hx hi := by
    obtain ⟨⟨r, t⟩, hexec, heq⟩ := Option.map_eq_some_iff.mp hx
    cases heq
    have hview := ownView_of_other hexec hp (Ne.symm hj) (hok.2 o k r t hthread hexec)
    refine ⟨?_, hview.symm⟩
    change shownWatch.Inv srv p (ownView p (t, addHistory j o c.shared.2))
    rw [hview]
    exact hi
  call c cl prog hi hrest hok henter := by
    have hidle : ∀ i h, (ownView p c.shared).slot i = some h → ∃ q, (c.shared.2 p).tree i = some q ∧
        ∀ q', (c.shared.1.backends p).currentQueryDesc = some q' → q' = q := by
      intro i h hslot
      obtain ⟨q, htree, -, hcur⟩ := hrest.core.shows i h hslot
      exact ⟨q, htree, hcur⟩
    have hcall := callOk_of_measuresCurrent (c := System.untraced c) (g := c.shared.2 p) hidle hok.1
    exact Contract.wp_comap (wp_call hp hrest hcall henter)
  interrupt c prog hi hok hint := by
    obtain ⟨-, hprog⟩ := Option.ite_none_right_eq_some.mp hint
    cases hprog
    have hquiet : shownWatch.interruptOk srv (ownView p c.shared) := by
      intro _ hrec q hq
      have hrec : (c.shared.1.backends p).isRecording = true := hrec
      have hq : (c.shared.1.backends p).currentQueryDesc = some q := hq
      simpa [measuresCurrent, System.untraced, hrec, hq] using hok.1
    refine Contract.wp_mono (Contract.wp_comap (wp_deliverSigusr2 hi hquiet)) ?_ fun _ _ h => h
    exact fun _ t _ ht => ht.symm
  external _ x := nomatch x

/-- **A process among the others** keeps to its watch. -/
theorem process_holds (hp : p ≠ 0)
    {c : Config Pid (Traced D) (Res (D := D))} {g : Pid → History}
    (h : (tracedCluster srv).Reach
      (fun c e => measuresCurrent srv (System.untraced c) e = true ∧
        KeepsSlots srv (System.untraced c) e) ⟨(State.init, g), fun _ => .ret ()⟩ c) :
    System.SoundFor.Holds p (processContract srv p)
      (fun s => Idle shownWatch srv p (ownView p s)) c := by
  have hno : (ownView p (State.init (D := D), g)).NoSlot :=
    fun i => slot_eq_none.mpr (Ne.symm hp)
  refine System.Reach.sound_for (process_sound hp) ?_ ?_ rfl h
  · exact ⟨fun hl => (nomatch hl), fun _ _ _ _ hq => (nomatch hq), fun _ _ _ _ _ hq => (nomatch hq)⟩
  · exact ⟨.noSlot hno rfl nofun rfl rfl List.nodup_nil, fun _ _ => hno, fun hc => nomatch hc⟩

end Runs

end WhatIsHappening
