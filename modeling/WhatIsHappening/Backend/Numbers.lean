/-
# Numbers land on the node they were measured on

The topology of the slot, `CURRENT_QUERY_DESC` and the query that is ended are three pointers to a
query.  A walk that measures runs on the recorded tree in every run where the first agrees with
the other two: the end hook is called for the query recorded last, and no signal is delivered
while a slot is refilled under a current query.
-/
import WhatIsHappening.Backend.Live

namespace WhatIsHappening

open Interleaving

variable {D : Type} [CDouble D]

/-- The next event starts no measuring of a tree that is not the recorded one. -/
def measuresRecorded (srv : Server D) (p : Pid) (c : Config Unit (State D) (Res (D := D))) :
    Event Unit (Call D) (ForeignWrite D) (Env D) → Bool
  | .call _ (.executorEnd q) =>
    !(c.shared.backends p).isEnabled ||
      (List.range srv.gucs.maxTrackedQueries).all fun i =>
        c.shared.pid i ≠ p || (srv.queryDesc q).planstate = none ||
          (c.shared.recordedTree i).any fun q' =>
            (srv.queryDesc q').planstate = (srv.queryDesc q).planstate
  | .interrupt _ =>
    !(c.shared.backends p).isRecording ||
      (c.shared.backends p).currentQueryDesc.all fun q => (srv.queryDesc q).planstate = none
  | _ => true

/-- The watch for measured numbers. -/
def numbersWatch : Watch := { numbers := true }

omit [CDouble D] in
theorem ok_of_measuresRecorded {srv : Server D} {p : Pid}
    {c : Config Unit (State D) (Res (D := D))}
    {e : Event Unit (Call D) (ForeignWrite D) (Env D)} (h : measuresRecorded srv p c e = true) :
    numbersWatch.ok srv p c e := by
  cases e with
  | run i e => exact fun o k _ => Watch.admits_of_unclean rfl fun _ _ ht => nomatch ht
  | external x => trivial
  | interrupt i =>
    intro _ hrec q hq
    have hrec : (c.shared.backends p).isRecording = true := hrec
    have hq : (c.shared.backends p).currentQueryDesc = some q := hq
    simpa [measuresRecorded, hrec, hq] using h
  | call i cl =>
    cases cl with
    | executorEnd q =>
      refine ⟨nofun, nofun, fun _ hen i hi hslot => ?_, nofun⟩
      have hen : (c.shared.backends p).isEnabled = true := hen
      simp only [measuresRecorded, hen, Bool.not_true, Bool.false_or, List.all_eq_true,
        List.mem_range, Bool.or_eq_true, decide_eq_true_eq, Option.any_eq_true] at h
      rcases h i hi with (hpid | hnone) | ⟨q', htree, hplan⟩
      · exact absurd (slot_ne_none.mp hslot) hpid
      · exact .inl hnone
      · exact .inr ⟨q', htree, hplan⟩
    | abort event => exact ⟨nofun, nofun, rfl⟩
    | abortSub qs => exact ⟨nofun, nofun, rfl⟩
    | fork enabled minCost => exact nofun
    | executorStart q => trivial
    | _ => rfl

/-- The tree that is about to be measured was recorded in the slot, and so was the node. -/
def MeasuresRecorded (srv : Server D) (c : Config Unit (State D) (Res (D := D))) : Prop :=
  (∀ be ps k, c.thread () = .op (.mark (.collectTree be ps)) k →
    ∃ q, c.shared.recordedTree be = some q ∧ (srv.queryDesc q).planstate = some ps) ∧
  ∀ be j ps k, c.thread () = .op (.mark (.collectNode be j ps)) k →
    c.shared.recordedNode be j = some ps

/-- **Numbers land on the node they were measured on** in a run that measures what was
recorded. -/
theorem numbers_on_their_node (srv : Server D) {p : Pid} (hp : p ≠ 0)
    {c : Config Unit (State D) (Res (D := D))}
    (h : (backendSystem srv p).Reach (fun c e => measuresRecorded srv p c e) backendInit c) :
    MeasuresRecorded srv c := by
  have hholds := own_holds hp (h.mono fun _ _ h => ok_of_measuresRecorded h)
  have hmark : ∀ mk k, c.thread () = .op (.mark mk) k →
      numbersWatch.guar srv (.mark mk) (c.shared.view p) := by
    intro mk k hthread
    refine (System.Sound.guar_of_holds (i := ()) (e := ({} : Env D)) (own_sound numbersWatch srv hp)
      hholds hthread (fun o k _ => ?_) rfl).2.1
    exact Watch.admits_of_unclean rfl fun _ _ ht => nomatch ht
  exact ⟨fun be ps k hthread => hmark _ k hthread rfl,
    fun be j ps k hthread => hmark _ k hthread rfl⟩

/-- The tree or the node that is about to be measured. -/
def nextMeasured (c : Config Unit (State D) (Res (D := D))) :
    Option (Nat × Option Nat × PlanStatePtr) :=
  match c.thread () with
  | .op (.mark (.collectTree be ps)) _ => some (be, none, ps)
  | .op (.mark (.collectNode be j ps)) _ => some (be, some j, ps)
  | _ => none

omit [CDouble D] in
theorem thread_of_nextMeasured_node {c : Config Unit (State D) (Res (D := D))} {be j : Nat}
    {ps : PlanStatePtr} (h : nextMeasured c = some (be, some j, ps)) :
    ∃ k, c.thread () = .op (.mark (.collectNode be j ps)) k := by
  unfold nextMeasured at h
  split at h
  · cases h
  · rename_i k hk
    cases h
    exact ⟨k, hk⟩
  · cases h

omit [CDouble D] in
theorem thread_of_nextMeasured_tree {c : Config Unit (State D) (Res (D := D))} {be : Nat}
    {ps : PlanStatePtr} (h : nextMeasured c = some (be, none, ps)) :
    ∃ k, c.thread () = .op (.mark (.collectTree be ps)) k := by
  unfold nextMeasured at h
  split at h
  · rename_i k hk
    cases h
    exact ⟨k, hk⟩
  · cases h
  · cases h

set_option maxRecDepth 10000 in
/-- A signal is delivered after the start of a query. -/
theorem signal_measures_recorded : ∃ c : Config Unit (State ℚ) (Res (D := ℚ)),
    (backendSystem smallServer 1).Reach (fun c e => measuresRecorded smallServer 1 c e)
      backendInit c ∧ nextMeasured c = some (0, some 0, 10) ∧
        c.shared.recordedNode 0 0 = some 10 := by
  obtain ⟨c, hc, hf⟩ := System.exists_reach (backendSystem smallServer 1)
    (measuresRecorded smallServer 1) (fun _ _ h => h) backendInit
    (ownStart 10 ++ [.interrupt ()] ++ runs () 6)
    (fun c => nextMeasured c = some (0, some 0, 10)) (by decide)
  have hnext : nextMeasured c = some (0, some 0, 10) := of_decide_eq_true hf
  obtain ⟨k, hk⟩ := thread_of_nextMeasured_node hnext
  exact ⟨c, hc, hnext, (numbers_on_their_node smallServer (by decide) hc).2 0 0 10 k hk⟩

/-- Inside the tracked query 20, the query 10 is too cheap to be tracked, and ends. -/
def cheapInside : List (Event Unit (Call ℚ) (ForeignWrite ℚ) (Env ℚ)) :=
  [.call () (.fork true 15)] ++ runs () 1 ++ [.call () (.executorStart 20)] ++ runs () 70 ++
    [.call () (.executorStart 10)] ++ runs () 3 ++ [.call () (.executorEnd 10)] ++ runs () 17

set_option maxRecDepth 10000 in
/-- The end hook of the cheap query measures its tree on the records of the other. -/
theorem cheapInside_measures_other :
    ¬ ∀ c : Config Unit (State ℚ) (Res (D := ℚ)),
      (backendSystem smallServer 1).Reach anyRun backendInit c →
        MeasuresRecorded smallServer c := by
  intro h
  obtain ⟨c, hc, hf⟩ := System.exists_reach (backendSystem smallServer 1) (fun _ _ => true)
    (fun _ _ _ => trivial) backendInit cheapInside
    (fun c => nextMeasured c = some (0, none, 10) ∧ c.shared.recordedTree 0 = some 20) (by decide)
  obtain ⟨hnext, htree⟩ := of_decide_eq_true hf
  obtain ⟨k, hk⟩ := thread_of_nextMeasured_tree hnext
  obtain ⟨q, hq, hps⟩ := (h c hc).1 0 10 k hk
  obtain rfl : 20 = q := Option.some.inj (htree.symm.trans hq)
  exact absurd hps (by decide)

end WhatIsHappening
