/-
# `CURRENT_QUERY_DESC` is live

The signal handler dereferences `CURRENT_QUERY_DESC`.  It points at an open query in every run
whose events clear it when they should: the end hook does so only while tracking is enabled, the
abort callback only at one of the two abort events, and nothing does at the abort of a
subtransaction.
-/
import WhatIsHappening.Backend.Runs

namespace WhatIsHappening

open Interleaving

variable {D : Type} [CDouble D]

/-- The next event does not close the query `CURRENT_QUERY_DESC` points at where nothing clears
the pointer. -/
def clearsCurrent (p : Pid) (c : Config Unit (State D) (Res (D := D))) :
    Event Unit (Call D) (ForeignWrite D) (Env D) → Bool
  | .call _ (.executorEnd q) =>
    (c.shared.backends p).currentQueryDesc ≠ some q || (c.shared.backends p).isEnabled
  | .call _ (.abort event) =>
    (c.shared.backends p).currentQueryDesc = none || pwhIsAbortEvent event
  | .call _ (.abortSub qs) => (c.shared.backends p).currentQueryDesc.all (· ∉ qs)
  | _ => true

/-- The watch for live pointers. -/
def liveWatch : Watch := { live := true }

omit [CDouble D] in
theorem ok_of_clearsCurrent {srv : Server D} {p : Pid} {c : Config Unit (State D) (Res (D := D))}
    {e : Event Unit (Call D) (ForeignWrite D) (Env D)} (h : clearsCurrent p c e = true) :
    liveWatch.ok srv p c e := by
  cases e with
  | run i e => exact fun o k _ => Watch.admits_of_unclean rfl fun _ _ ht => nomatch ht
  | interrupt i => exact nofun
  | external x => trivial
  | call i cl =>
    cases cl with
    | executorEnd q =>
      refine ⟨fun _ hq => ?_, nofun, nofun, nofun⟩
      have hq : (c.shared.backends p).currentQueryDesc = some q := hq
      have : (c.shared.backends p).isEnabled = true := by simpa [clearsCurrent, hq] using h
      exact this
    | abort event =>
      refine ⟨fun _ he => ?_, nofun, rfl⟩
      have : (c.shared.backends p).currentQueryDesc = none := by
        simpa [clearsCurrent, he] using h
      exact this
    | abortSub qs =>
      refine ⟨fun _ q hq => ?_, nofun, rfl⟩
      have hq : (c.shared.backends p).currentQueryDesc = some q := hq
      simpa [clearsCurrent, hq] using h
    | fork enabled minCost => exact nofun
    | executorStart q => trivial
    | _ => rfl

/-- **The signal handler never sees a dead query** in a run that clears the pointer in time. -/
theorem current_query_is_open (srv : Server D) {p : Pid} (hp : p ≠ 0)
    {c : Config Unit (State D) (Res (D := D))}
    (h : (backendSystem srv p).Reach (fun c e => clearsCurrent p c e) backendInit c) :
    ∀ q, (c.shared.backends p).currentQueryDesc = some q → q ∈ (c.shared.backends p).started :=
  (own_holds hp (h.mono fun _ _ h => ok_of_clearsCurrent h)).1.live rfl

/-- One process is forked and starts query `q`: the 70 operations of its start hook. -/
def ownStart (q : QueryDescPtr) : List (Event Unit (Call ℚ) (ForeignWrite ℚ) (Env ℚ)) :=
  [.call () (.fork true 0)] ++ runs () 1 ++ [.call () (.executorStart q)] ++ runs () 70

set_option maxRecDepth 10000 in
theorem ownStart_is_open : ∃ c : Config Unit (State ℚ) (Res (D := ℚ)),
    (backendSystem smallServer 1).Reach (fun c e => clearsCurrent 1 c e) backendInit c ∧
      (c.shared.backends 1).currentQueryDesc = some 10 ∧ 10 ∈ (c.shared.backends 1).started := by
  obtain ⟨c, hc, hcur⟩ := System.exists_reach (backendSystem smallServer 1) (clearsCurrent 1)
    (fun _ _ h => h) backendInit (ownStart 10)
    (fun c => (c.shared.backends 1).currentQueryDesc = some 10) (by decide)
  have hcur : (c.shared.backends 1).currentQueryDesc = some 10 := by simpa using hcur
  exact ⟨c, hc, hcur, current_query_is_open smallServer (by decide) hc 10 hcur⟩

set_option maxRecDepth 10000 in
/-- A query that is discarded with its subtransaction stays the current one. -/
theorem abortSub_leaves_current :
    ¬ ∀ c : Config Unit (State ℚ) (Res (D := ℚ)),
      (backendSystem smallServer 1).Reach anyRun backendInit c →
        ∀ q, (c.shared.backends 1).currentQueryDesc = some q →
          q ∈ (c.shared.backends 1).started := by
  intro h
  obtain ⟨c, hc, hf⟩ := System.exists_reach (backendSystem smallServer 1) (fun _ _ => true)
    (fun _ _ _ => trivial) backendInit
    (ownStart 10 ++ [.call () (.abortSub [10])] ++ runs () 2)
    (fun c => (c.shared.backends 1).currentQueryDesc = some 10 ∧
      10 ∉ (c.shared.backends 1).started) (by decide)
  simp only [decide_eq_true_eq] at hf
  exact hf.2 (h c hc 10 hf.1)

end WhatIsHappening
