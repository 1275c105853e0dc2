/-
# No process waits for ever

A waiting process waits for others only (`waits_for_others_only`), none of these waits itself, and
so every call can be brought to its end from every state (`every_call_can_finish`).  Both rest on
the lock discipline of the calls.  The one condition is `LookupsDoNotFail`: the catch block of
`query_start_hook` takes the lock exclusively, and would wait for itself if the search for an entry
were left by an error with the lock held.
-/
import WhatIsHappening.Slots.Discipline
import WhatIsHappening.Slots.Sound

namespace WhatIsHappening

open Interleaving Prog

variable {D : Type}

/-! ## 1. Every run -/

section Runs

variable [CDouble D] {srv : Server D} {c c' : Config Pid (State D) (Res (D := D))} {p q : Pid}

/-- No error is raised while the lock is held shared, that is, in the middle of a lookup. -/
def LookupsDoNotFail (c : Config Pid (State D) (Res (D := D))) :
    Event Pid (Call D) Empty (Env D) → Prop
  | .run p e => ∀ k, c.thread p = .op .raisesHere k → e.raises = true →
      p ∉ c.shared.entrySearchLock.shared
  | _ => True

/-- The lock discipline of process `p`, on the whole state. -/
def holdContract (p : Pid) : Contract (Res (D := D)) (State D) :=
  (lockContract D).comap fun s => s.entrySearchLock.holdOf p

/-- Process `p` does not hold the lock. -/
def HoldsNothing (p : Pid) (s : State D) : Prop := s.entrySearchLock.holdOf p = .free

omit [CDouble D] in
theorem wp_hold_of_leavesFree {prog : PgProg D Unit} (hprog : LeavesFree prog) {s : State D}
    (hs : HoldsNothing p s) :
    (holdContract p).wp false prog (fun _ => HoldsNothing p) (HoldsNothing p) s := by
  have hstart : (lockContract D).wp false prog (fun _ t => t = .free) (fun t => t = .free)
      (s.entrySearchLock.holdOf p) := by
    rw [show s.entrySearchLock.holdOf p = .free from hs]
    exact hprog
  have habs : (holdContract p).Abstracts (fun t : State D => t.entrySearchLock.holdOf p)
      (lockContract D) := ⟨fun h => h, Iff.rfl, fun h => h, fun h => h, fun _ h => h⟩
  exact Contract.wp_of_abstracts habs hstart

theorem hold_sound (p : Pid) :
    System.SoundFor (clusterSystem srv) LookupsDoNotFail p (holdContract p) (HoldsNothing p) where
  sem_of_ok c e o k r s' hthread hok hx := by
    refine ⟨?_, holdOf_exec hx⟩
    cases o
    case lwLockRelease =>
      simp only [clusterSystem, exec] at hx
      split at hx
      · rename_i l hl
        cases hx
        exact (decide_eq_true (LWLock.holdOf_release (D := D) hl).1).symm
      · rename_i hl
        cases hx
        have hfree := LWLock.holdOf_release_none hl
        exact (decide_eq_false (not_not.mpr hfree)).symm
    case raisesHere =>
      cases hx
      exact fun hr => List.count_eq_zero_of_not_mem (hok k hthread hr)
    all_goals trivial
  assume_of_ok _ _ _ _ _ _ := trivial
  stable s t h hr _ := by
    have hr : s.entrySearchLock.holdOf p = t.entrySearchLock.holdOf p := hr
    exact hr.symm.trans h
  others c j e o k r s' hj _ _ hx _ :=
    ⟨trivial, (LWLock.holdOf_of_lockStep (exec_lockStep hx) (Ne.symm hj)).symm⟩
  call c cl prog _ hrest _ henter := by
    obtain ⟨-, hprog⟩ := Option.ite_none_right_eq_some.mp henter
    cases hprog
    exact wp_hold_of_leavesFree cl.program_lock hrest
  interrupt c prog _ _ hint := by
    obtain ⟨-, hprog⟩ := Option.ite_none_right_eq_some.mp hint
    cases hprog
    exact Contract.wp_mono (Contract.wp_comap deliverSigusr2_lock) (fun _ _ _ ht => ht.symm)
      fun _ _ h => h
  external _ x := nomatch x

theorem hold_holds (h : (clusterSystem srv).Reach LookupsDoNotFail clusterInit c) (p : Pid) :
    System.SoundFor.Holds p (holdContract p) (HoldsNothing p) c :=
  have hinit : HoldsNothing p (State.init : State D) := rfl
  System.Reach.sound_for (hold_sound p) trivial hinit rfl h

/-- Between two calls a process does not hold the lock. -/
theorem free_of_idle (h : (clusterSystem srv).Reach LookupsDoNotFail clusterInit c)
    (hp : ∀ o k, c.thread p ≠ .op o k) : c.shared.entrySearchLock.holdOf p = .free :=
  System.SoundFor.rest_of_holds (hold_holds h p) hp

/-- Nobody acquires what it keeps from itself. -/
theorem admits_of_reach (h : (clusterSystem srv).Reach LookupsDoNotFail clusterInit c) {o : Op D}
    {k : Res o → PgProg D Unit} (hp : c.thread p = .op o k) :
    (c.shared.entrySearchLock.holdOf p).Admits o := by
  have hwp := (hold_holds h p).2
  rw [hp] at hwp
  have hop := (hwp c.shared rfl trivial).2 trivial
  cases o
  case lwLockAcquire m =>
    -- the discipline is that of a lock that is always granted
    have hlock : ∃ l : LWLock, l.holdOf p =
        (c.shared.entrySearchLock.holdOf p).after (.lwLockAcquire m : Op D) := by
      cases m with
      | LW_SHARED =>
        exact ⟨{ c.shared.entrySearchLock with shared := p :: c.shared.entrySearchLock.shared },
          by simp [LWLock.holdOf, LockHold.after]⟩
      | LW_EXCLUSIVE =>
        exact ⟨{ c.shared.entrySearchLock with exclusive := some p },
          by simp [LWLock.holdOf, LockHold.after]⟩
    obtain ⟨l, hl⟩ := hlock
    exact (hop () { c.shared with entrySearchLock := l } ⟨trivial, hl⟩).2.1
  all_goals trivial

/-- An exclusive holder is alone. -/
theorem exclusive_alone (h : (clusterSystem srv).Reach LookupsDoNotFail clusterInit c) :
    c.shared.entrySearchLock.exclusive ≠ none → c.shared.entrySearchLock.shared = [] := by
  induction h with
  | start => exact fun _ => rfl
  | @step c c' e _ _ hs ih =>
    cases e with
    | run p e =>
      simp only [System.step] at hs
      split at hs
      · obtain ⟨⟨r, t⟩, hx, rfl⟩ := Option.map_eq_some_iff.mp hs
        exact (exec_lockStep hx).excludes ih
      · cases hs
    | call p cl =>
      simp only [System.step] at hs
      split at hs
      · cases hs
      · obtain ⟨prog, -, rfl⟩ := Option.map_eq_some_iff.mp hs
        exact ih
    | interrupt p =>
      obtain ⟨prog, -, rfl⟩ := Option.map_eq_some_iff.mp hs
      exact ih
    | external x => exact x.elim

/-- A process that holds the lock never waits for it. -/
theorem holder_goes_on (h : (clusterSystem srv).Reach LookupsDoNotFail clusterInit c)
    (hq : c.shared.entrySearchLock.holdOf q ≠ .free) :
    ∃ o k r t, c.thread q = .op o k ∧ exec srv q o {} c.shared = some (r, t) := by
  obtain ⟨o, k, hthread⟩ : ∃ o k, c.thread q = .op o k := by
    by_contra hno
    exact hq (free_of_idle h fun o k ho => hno ⟨o, k, ho⟩)
  have hadmits := admits_of_reach h hthread
  have hgrant : ∀ m, o = .lwLockAcquire m → c.shared.entrySearchLock.acquire m q ≠ none := by
    rintro m rfl
    cases m with
    | LW_SHARED =>
      have hnone : c.shared.entrySearchLock.exclusive = none := by
        by_contra hex
        have hsh := exclusive_alone h hex
        have hfalse : (c.shared.entrySearchLock.holdOf q).exclusive = false := hadmits
        refine hq ?_
        rw [LWLock.holdOf] at hfalse ⊢
        rw [LockHold.mk.injEq]
        exact ⟨hfalse, by rw [hsh]; rfl⟩
      simp [LWLock.acquire, hnone]
    | LW_EXCLUSIVE => exact absurd hadmits hq
  obtain ⟨r, t, hx⟩ := exec_ne_none hgrant
  exact ⟨o, k, r, t, hthread, hx⟩

theorem waiter_holds_nothing (h : (clusterSystem srv).Reach LookupsDoNotFail clusterInit c)
    {o : Op D} {k : Res o → PgProg D Unit} (hp : c.thread p = .op o k)
    (hwaits : exec srv p o {} c.shared = none) : c.shared.entrySearchLock.holdOf p = .free := by
  by_contra hheld
  obtain ⟨o', k', r, t, hthread, hx⟩ := holder_goes_on h hheld
  rw [hp] at hthread
  cases hthread
  rw [hwaits] at hx
  cases hx

/-- **A process waits for others only, and none of them waits.**  So no two processes ever wait for
each other. -/
theorem waits_for_others_only (srv : Server D)
    (h : (clusterSystem srv).Reach LookupsDoNotFail clusterInit c) {p : Pid} {o : Op D}
    {k : Res o → PgProg D Unit} (hp : c.thread p = .op o k)
    (hwaits : exec srv p o {} c.shared = none) :
    ¬ c.shared.entrySearchLock.HeldBy p ∧ (∃ q, c.shared.entrySearchLock.HeldBy q) ∧
      ∀ q, c.shared.entrySearchLock.HeldBy q →
        ∃ o k r t, c.thread q = .op o k ∧ exec srv q o {} c.shared = some (r, t) := by
  refine ⟨fun hheld => ?_, ?_, fun q hq => holder_goes_on h (LWLock.heldBy_iff.mp hq)⟩
  · exact LWLock.heldBy_iff.mp hheld (waiter_holds_nothing h hp hwaits)
  · by_contra hno
    obtain ⟨r, t, hx⟩ := exec_ne_none (e := {}) fun m _ =>
      LWLock.acquire_of_free (m := m) (p := p) fun q hq => hno ⟨q, hq⟩
    rw [hwaits] at hx
    cases hx

/-- Whether process `p` cannot do its next operation. -/
def isWaiting (srv : Server D) (p : Pid) (c : Config Pid (State D) (Res (D := D))) : Bool :=
  match c.thread p with
  | .op o _ => (exec srv p o {} c.shared).isNone
  | _ => false

omit [CDouble D] in
theorem thread_of_isWaiting (h : isWaiting srv p c = true) :
    ∃ o k, c.thread p = .op o k ∧ exec srv p o {} c.shared = none := by
  unfold isWaiting at h
  split at h
  · rename_i o k hp
    exact ⟨o, k, hp, Option.isNone_iff_eq_none.mp h⟩
  · cases h

/-- The environment of a step raises no error. -/
def raisesNothing : Event Pid (Call D) Empty (Env D) → Bool
  | .run _ e => !e.raises
  | _ => true

omit [CDouble D] in
theorem lookups_of_raisesNothing (e : Event Pid (Call D) Empty (Env D))
    (h : raisesNothing e = true) : LookupsDoNotFail c e := by
  cases e with
  | run p e =>
    intro k _ hr
    simp [raisesNothing, hr] at h
  | call p cl => trivial
  | interrupt p => trivial
  | external x => trivial

/-- Process 1 ends its query while process 2 reads the view. -/
def waitingRun : List (Event Pid (Call ℚ) Empty (Env ℚ)) :=
  startQuery 1 10 ++ [.call 2 (.fork true 0)] ++ runs 2 1 ++ [.call 2 .fetchStatus] ++ runs 2 2 ++
    [.call 1 (.executorEnd 10)] ++ runs 1 13

set_option maxRecDepth 10000 in
theorem waitingRun_waits : ∃ c : Config Pid (State ℚ) (Res (D := ℚ)),
    (clusterSystem smallServer).Reach LookupsDoNotFail clusterInit c ∧
      isWaiting smallServer 1 c = true :=
  System.exists_reach (clusterSystem smallServer) (fun _ e => raisesNothing e)
    (fun _ e h => lookups_of_raisesNothing e h) clusterInit waitingRun
    (fun c => isWaiting smallServer 1 c) (by decide)

theorem waitingRun_waits_for_reader : ∃ c : Config Pid (State ℚ) (Res (D := ℚ)),
    (clusterSystem smallServer).Reach LookupsDoNotFail clusterInit c ∧
      isWaiting smallServer 1 c = true ∧ ¬ c.shared.entrySearchLock.HeldBy 1 ∧
      ∃ q, c.shared.entrySearchLock.HeldBy q := by
  obtain ⟨c, hc, hwait⟩ := waitingRun_waits
  obtain ⟨o, k, hp, hx⟩ := thread_of_isWaiting hwait
  have hwaits := waits_for_others_only smallServer hc hp hx
  exact ⟨c, hc, hwait, hwaits.1, hwaits.2.1⟩

/-- Some process goes on, and no error is raised. -/
def OnlyRuns : Config Pid (State D) (Res (D := D)) → Event Pid (Call D) Empty (Env D) → Prop :=
  fun _ e => ∃ q, e = .run q {}

omit [CDouble D] in
theorem OnlyRuns.lookups {e : Event Pid (Call D) Empty (Env D)} (h : OnlyRuns c e) :
    LookupsDoNotFail c e := by
  obtain ⟨q, rfl⟩ := h
  rintro k - ⟨⟩

/-- One operation of one process. -/
theorem reach_run (h : (clusterSystem srv).Reach LookupsDoNotFail clusterInit c) {o : Op D}
    {k : Res o → PgProg D Unit} {r : Res o} {t : State D} (hq : c.thread q = .op o k)
    (hx : exec srv q o {} c.shared = some (r, t)) :
    (clusterSystem srv).Reach LookupsDoNotFail clusterInit
        ⟨t, Function.update c.thread q (k r)⟩ ∧
      (clusterSystem srv).Reach OnlyRuns c ⟨t, Function.update c.thread q (k r)⟩ := by
  have hstep : (clusterSystem srv).step c (.run q {}) =
      some ⟨t, Function.update c.thread q (k r)⟩ := by
    simp only [System.step, hq, clusterSystem, hx]
    rfl
  have hruns : OnlyRuns c (.run q {}) := ⟨q, rfl⟩
  exact ⟨.step h hruns.lookups hstep, .step .start hruns hstep⟩

/-- A process can be brought to where it does not hold the lock, while the others stand still. -/
theorem holder_releases (h : (clusterSystem srv).Reach LookupsDoNotFail clusterInit c) (q : Pid) :
    ∃ c', (clusterSystem srv).Reach OnlyRuns c c' ∧
      ((clusterSystem srv).Reach LookupsDoNotFail clusterInit c' ∧ ∀ p, p ≠ q →
        c'.thread p = c.thread p ∧
          c'.shared.entrySearchLock.holdOf p = c.shared.entrySearchLock.holdOf p) ∧
      c'.shared.entrySearchLock.holdOf q = .free := by
  refine System.Reach.until (i := q) (fun d hd hheld => ?_) ⟨h, fun p _ => ⟨rfl, rfl⟩⟩
  obtain ⟨hd, hothers⟩ := hd
  obtain ⟨o, k, r, t, hthread, hx⟩ := holder_goes_on hd hheld
  obtain ⟨hd', hruns⟩ := reach_run hd hthread hx
  refine ⟨o, k, r, _, hthread, hruns, Function.update_self .., hd', fun p hpq => ?_⟩
  obtain ⟨hsame, hhold⟩ := hothers p hpq
  refine ⟨(Function.update_of_ne hpq ..).trans hsame, ?_⟩
  exact (LWLock.holdOf_of_lockStep (exec_lockStep hx) hpq).trans hhold

/-- All of its holders can be, one after the other. -/
theorem lock_comes_free {l : List Pid} (hp : p ∉ l) :
    ∀ {c}, (clusterSystem srv).Reach LookupsDoNotFail clusterInit c →
      (∀ q, c.shared.entrySearchLock.holdOf q ≠ .free → q ∈ l) →
      ∃ c', (clusterSystem srv).Reach OnlyRuns c c' ∧
        (clusterSystem srv).Reach LookupsDoNotFail clusterInit c' ∧
        c'.thread p = c.thread p ∧ ∀ q, c'.shared.entrySearchLock.holdOf q = .free := by
  induction l with
  | nil =>
    intro c h hholders
    exact ⟨c, .start, h, rfl, fun q => not_not.mp fun hq => nomatch hholders q hq⟩
  | cons q l ih =>
    intro c h hholders
    obtain ⟨hpq, hpl⟩ := List.ne_and_not_mem_of_not_mem_cons hp
    obtain ⟨d, hruns, ⟨hd, hothers⟩, hfree⟩ := holder_releases h q
    have hrest : ∀ q', d.shared.entrySearchLock.holdOf q' ≠ .free → q' ∈ l := by
      intro q' hq'
      have hne : q' ≠ q := fun heq => hq' (heq ▸ hfree)
      rw [(hothers q' hne).2] at hq'
      exact (List.mem_cons.mp (hholders q' hq')).resolve_left hne
    obtain ⟨c', hruns', hc', hthread, hall⟩ := ih hpl hd hrest
    exact ⟨c', hruns.trans hruns', hc', hthread.trans (hothers p hpq).1, hall⟩

/-- Whatever a process is about to do can be brought about. -/
theorem next_comes (h : (clusterSystem srv).Reach LookupsDoNotFail clusterInit c) {o : Op D}
    {k : Res o → PgProg D Unit} (hp : c.thread p = .op o k) :
    ∃ r c', (clusterSystem srv).Reach OnlyRuns c c' ∧ c'.thread p = k r ∧
      (clusterSystem srv).Reach LookupsDoNotFail clusterInit c' := by
  cases hx : exec srv p o {} c.shared with
  | some rt =>
    obtain ⟨h', hruns⟩ := reach_run h hp hx
    exact ⟨rt.1, _, hruns, Function.update_self .., h'⟩
  | none =>
    have hfree := waiter_holds_nothing h hp hx
    let others := (c.shared.entrySearchLock.exclusive.toList ++
      c.shared.entrySearchLock.shared).filter (· ≠ p)
    have hholders : ∀ q, c.shared.entrySearchLock.holdOf q ≠ .free → q ∈ others := by
      intro q hq
      have hqp : q ≠ p := fun heq => hq (heq ▸ hfree)
      rcases LWLock.heldBy_iff.mpr hq with hex | hsh
      · simp [others, hqp, hex]
      · simp [others, hqp, hsh]
    obtain ⟨d, hruns, hd, hthread, hall⟩ :=
      lock_comes_free (p := p) (l := others) (by simp [others]) h hholders
    rw [hp] at hthread
    obtain ⟨r, t, hx'⟩ := exec_ne_none (o := o) (e := {}) (s := d.shared) fun m _ =>
      LWLock.acquire_of_free (m := m) (p := p) fun q hq => LWLock.heldBy_iff.mp hq (hall q)
    obtain ⟨hd', hruns'⟩ := reach_run hd hthread hx'
    exact ⟨r, _, hruns.trans hruns', Function.update_self .., hd'⟩

/-- **Every call can be finished**, from every state and whoever is waiting for whom, by letting
processes go on; and when it is finished its process does not hold the lock. -/
theorem every_call_can_finish (srv : Server D)
    (h : (clusterSystem srv).Reach LookupsDoNotFail clusterInit c) (p : Pid) :
    ∃ c', (clusterSystem srv).Reach OnlyRuns c c' ∧ (∀ o k, c'.thread p ≠ .op o k) ∧
      ¬ c'.shared.entrySearchLock.HeldBy p := by
  have hnext : ∀ d, (clusterSystem srv).Reach LookupsDoNotFail clusterInit d →
      ¬ (∀ o k, d.thread p ≠ .op o k) →
      ∃ o k r d', d.thread p = .op o k ∧ (clusterSystem srv).Reach OnlyRuns d d' ∧
        d'.thread p = k r ∧ (clusterSystem srv).Reach LookupsDoNotFail clusterInit d' := by
    intro d hd hbusy
    obtain ⟨o, k, hthread⟩ : ∃ o k, d.thread p = .op o k := by
      by_contra hno
      exact hbusy fun o k ho => hno ⟨o, k, ho⟩
    obtain ⟨r, d', hruns, hr, hd'⟩ := next_comes hd hthread
    exact ⟨o, k, r, d', hthread, hruns, hr, hd'⟩
  obtain ⟨c', hruns, hc', hidle⟩ := System.Reach.until hnext h
  exact ⟨c', hruns, hidle, fun hheld => LWLock.heldBy_iff.mp hheld (free_of_idle hc' hidle)⟩

/-- The waiting process too. -/
theorem waitingRun_can_finish : ∃ c : Config Pid (State ℚ) (Res (D := ℚ)),
    isWaiting smallServer 1 c = true ∧ ∃ c' : Config Pid (State ℚ) (Res (D := ℚ)),
      (clusterSystem smallServer).Reach OnlyRuns c c' ∧ (∀ o k, c'.thread 1 ≠ .op o k) ∧
        ¬ c'.shared.entrySearchLock.HeldBy 1 := by
  obtain ⟨c, hc, hwait⟩ := waitingRun_waits
  exact ⟨c, hwait, every_call_can_finish smallServer hc 1⟩

end Runs

end WhatIsHappening
