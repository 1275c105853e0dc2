/-
# No finished query stays in the table

Between two hooks, a process whose recorded queries are all closed has no slot, in every run that
closes the last of them where its slot is released: not while tracking is disabled, not with an
abort event the callback ignores, not with a subtransaction, and not through an end hook that
fails before the release.
-/
import WhatIsHappening.Backend.Live

namespace WhatIsHappening

open Interleaving

variable {D : Type} [CDouble D]

/-- A slot carries the pid of the process. -/
def ownsSlot (srv : Server D) (p : Pid) (s : State D) : Bool :=
  (List.range srv.gucs.maxTrackedQueries).any fun i => s.pid i = p

/-- The next event does not close the last recorded query of a process where its slot is not
released. -/
def releasesLast (srv : Server D) (p : Pid) (c : Config Unit (State D) (Res (D := D))) :
    Event Unit (Call D) (ForeignWrite D) (Env D) → Bool
  | .run _ _ =>
    match c.thread () with
    | .op (.mark (.endHookFailed q)) _ =>
      !ownsSlot srv p c.shared || (c.shared.backends p).recorded.filter (· ≠ q) ≠ []
    | _ => true
  | .call _ (.executorEnd q) =>
    (c.shared.backends p).isEnabled || !ownsSlot srv p c.shared ||
      (c.shared.backends p).recorded.filter (· ≠ q) ≠ []
  | .call _ (.abort event) =>
    !ownsSlot srv p c.shared || (c.shared.backends p).isEnabled && pwhIsAbortEvent event
  | .call _ (.abortSub qs) =>
    !ownsSlot srv p c.shared || (c.shared.backends p).recorded.filter (· ∉ qs) ≠ []
  | _ => true

/-- The watch for finished queries. -/
def tidyWatch : Watch := { tidy := true }

omit [CDouble D] in
theorem ownsSlot_eq {srv : Server D} {p : Pid} {s : State D} (h : (s.view p).Owns srv) :
    ownsSlot srv p s = true := by
  obtain ⟨i, hi, hslot⟩ := h
  simpa [ownsSlot] using ⟨i, hi, slot_ne_none.mp hslot⟩

omit [CDouble D] in
theorem ok_of_releasesLast {srv : Server D} {p : Pid} {c : Config Unit (State D) (Res (D := D))}
    {e : Event Unit (Call D) (ForeignWrite D) (Env D)} (h : releasesLast srv p c e = true) :
    tidyWatch.ok srv p c e := by
  cases e with
  | run i e =>
    intro o k hthread
    refine Watch.admits_of_unclean rfl fun q ho _ howns => ?_
    subst ho
    have : (c.shared.backends p).recorded.filter (· ≠ q) ≠ [] := by
      simpa [releasesLast, hthread, ownsSlot_eq howns] using h
    exact this
  | interrupt i => exact nofun
  | external x => trivial
  | call i cl =>
    cases cl with
    | executorEnd q =>
      refine ⟨nofun, fun _ hen howns => ?_, nofun, nofun⟩
      have hen : (c.shared.backends p).isEnabled = false := hen
      have : (c.shared.backends p).recorded.filter (· ≠ q) ≠ [] := by
        simpa [releasesLast, ownsSlot_eq howns, hen] using h
      exact this
    | abort event =>
      refine ⟨nofun, fun _ howns => ?_, rfl⟩
      have : (c.shared.backends p).isEnabled = true ∧ pwhIsAbortEvent event = true := by
        simpa [releasesLast, ownsSlot_eq howns] using h
      exact this
    | abortSub qs =>
      refine ⟨nofun, fun _ howns => ?_, rfl⟩
      have : (c.shared.backends p).recorded.filter (· ∉ qs) ≠ [] := by
        simpa [releasesLast, ownsSlot_eq howns] using h
      exact this
    | fork enabled minCost => exact nofun
    | executorStart q => trivial
    | _ => rfl

/-- **No finished query stays in the table** in a run that releases the slot with the last of
them. -/
theorem finished_query_is_gone (srv : Server D) {p : Pid} (hp : p ≠ 0)
    {c : Config Unit (State D) (Res (D := D))}
    (h : (backendSystem srv p).Reach (fun c e => releasesLast srv p c e) backendInit c)
    (hidle : isIdle c) (hdone : (c.shared.backends p).recorded = []) (i : Nat) :
    c.shared.pid i ≠ p :=
  slot_eq_none.mp
    ((own_idle hp (h.mono fun _ _ h => ok_of_releasesLast h) hidle).tidy rfl hdone i)

/-- A query is started and ended. -/
def ownStartEnd (q : QueryDescPtr) : List (Event Unit (Call ℚ) (ForeignWrite ℚ) (Env ℚ)) :=
  ownStart q ++ [.call () (.executorEnd q)] ++ runs () 35

set_option maxRecDepth 20000 in
theorem ownStartEnd_is_gone : ∃ c : Config Unit (State ℚ) (Res (D := ℚ)),
    (backendSystem smallServer 1).Reach (fun c e => releasesLast smallServer 1 c e) backendInit c ∧
      (c.shared.backends 1).lastRecorded = some 10 ∧ c.shared.pid 0 ≠ 1 := by
  obtain ⟨c, hc, hf⟩ := System.exists_reach (backendSystem smallServer 1)
    (releasesLast smallServer 1) (fun _ _ h => h) backendInit (ownStartEnd 10)
    (fun c => isIdle c ∧ (c.shared.backends 1).recorded = [] ∧
      (c.shared.backends 1).lastRecorded = some 10) (by decide)
  obtain ⟨hidle, hdone, hlast⟩ := of_decide_eq_true hf
  exact ⟨c, hc, hlast, finished_query_is_gone smallServer (by decide) hc hidle hdone 0⟩

set_option maxRecDepth 10000 in
/-- The abort of a parallel worker leaves its slot in the table. -/
theorem parallelAbort_leaves_slot :
    ¬ ∀ c : Config Unit (State ℚ) (Res (D := ℚ)),
      (backendSystem smallServer 1).Reach anyRun backendInit c → isIdle c →
        (c.shared.backends 1).recorded = [] → ∀ i, c.shared.pid i ≠ 1 := by
  intro h
  obtain ⟨c, hc, hf⟩ := System.exists_reach (backendSystem smallServer 1) (fun _ _ => true)
    (fun _ _ _ => trivial) backendInit
    (ownStart 10 ++ [.call () (.abort .XACT_EVENT_PARALLEL_ABORT)] ++ runs () 3)
    (fun c => isIdle c ∧ (c.shared.backends 1).recorded = [] ∧ c.shared.pid 0 = 1) (by decide)
  obtain ⟨hidle, hdone, hpid⟩ := of_decide_eq_true hf
  exact h c hc hidle hdone 0 hpid

end WhatIsHappening
