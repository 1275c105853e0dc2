/-
# A tracked query stays visible until it ends

In well-nested runs without errors, with tracking enabled and a free slot, a process with open
tracked queries shows one of them between two hooks, as long as each query ends alone: the end
hook releases the slot of the process whichever query ends, so that a query that ends inside a
tracked one takes it out of sight.
-/
import WhatIsHappening.Backend.Live

namespace WhatIsHappening

open Interleaving

variable {D : Type} [CDouble D]

/-- The runs in question: queries start and end, well nested, with tracking enabled; no error is
raised and the table is never full. -/
def nestedRun (p : Pid) (c : Config Unit (State D) (Res (D := D))) :
    Event Unit (Call D) (ForeignWrite D) (Env D) → Bool
  | .run _ e =>
    match c.thread () with
    | .op .raisesHere _ => !e.raises
    | .op .ereportError _ => false
    | .op (.mark .entriesExhausted) _ => false
    | _ => true
  | .call _ (.fork enabled _) => enabled
  | .call _ (.executorStart _) => true
  | .call _ (.executorEnd q) => (c.shared.backends p).started.head? = some q
  | .call _ _ => false
  | _ => true

/-- The next event ends no query while another recorded one is open. -/
def endsAlone (p : Pid) (c : Config Unit (State D) (Res (D := D))) :
    Event Unit (Call D) (ForeignWrite D) (Env D) → Bool
  | .call _ (.executorEnd q) => (c.shared.backends p).recorded.filter (· ≠ q) = []
  | _ => true

/-- The watch for visible queries. -/
def cleanWatch : Watch := { clean := true }

omit [CDouble D] in
theorem ok_of_endsAlone {srv : Server D} {p : Pid} {c : Config Unit (State D) (Res (D := D))}
    {e : Event Unit (Call D) (ForeignWrite D) (Env D)} (hrun : nestedRun p c e = true)
    (h : endsAlone p c e = true) : cleanWatch.ok srv p c e := by
  cases e with
  | run i e =>
    intro o k hthread
    cases o
    case mark m =>
      cases m
      case entriesExhausted => simp [nestedRun, hthread] at hrun
      all_goals first | trivial | exact nofun
    case raisesHere =>
      have : e.raises = false := by simpa [nestedRun, hthread] using hrun
      exact fun _ => this
    case ereportError => simp [nestedRun, hthread] at hrun
    all_goals trivial
  | interrupt i => exact nofun
  | external x => trivial
  | call i cl =>
    cases cl with
    | fork enabled minCost => exact fun _ => hrun
    | executorStart q => trivial
    | executorEnd q =>
      refine ⟨nofun, nofun, nofun, fun _ => ?_⟩
      have : (c.shared.backends p).recorded.filter (· ≠ q) = [] := by simpa [endsAlone] using h
      exact this
    | _ => cases hrun

/-- Slot `i` is active for process `p` and shows the query `q`. -/
def ShowsQuery (srv : Server D) (p : Pid) (q : QueryDescPtr) (s : State D) (i : Nat) : Prop :=
  i < srv.gucs.maxTrackedQueries ∧ s.pid i = p ∧
    Shows srv p q (s.entries i).header (s.recordedNode i)

/-- **A tracked query stays visible until it ends** in a run whose queries end alone. -/
theorem tracked_query_is_visible (srv : Server D) {p : Pid} (hp : p ≠ 0)
    {c : Config Unit (State D) (Res (D := D))}
    (h : (backendSystem srv p).Reach (fun c e => nestedRun p c e && endsAlone p c e) backendInit c)
    (hidle : isIdle c) {q : QueryDescPtr} (hopen : q ∈ (c.shared.backends p).started)
    (hcost : CDouble.gt (c.shared.backends p).minCostToTrack (srv.queryDesc q).totalCost = false) :
    ∃ i, ∃ q' ∈ (c.shared.backends p).started,
      CDouble.gt (c.shared.backends p).minCostToTrack (srv.queryDesc q').totalCost = false ∧
        ShowsQuery srv p q' c.shared i := by
  have hok : (backendSystem srv p).Reach (cleanWatch.ok srv p) backendInit c :=
    h.mono fun _ _ h => ok_of_endsAlone (Bool.and_eq_true_iff.mp h).1 (Bool.and_eq_true_iff.mp h).2
  have hI := own_idle hp hok hidle
  obtain ⟨-, hrec, htracked, howns, htree⟩ := hI.clean rfl
  have hq : q ∈ (c.shared.view p).recorded := htracked q hopen hcost
  obtain ⟨i, hi⟩ := not_forall.mp (howns (List.ne_nil_of_mem hq))
  obtain ⟨q₁, hq₁, htree₁⟩ := htree i hi
  have hpid : c.shared.pid i = p := slot_ne_none.mp hi
  have hslot : (c.shared.view p).slot i = some (c.shared.entries i).header := by
    simp [slot_eq, hpid]
  obtain ⟨q₂, htree₂, hshows, -⟩ := hI.core.shows i _ hslot
  obtain rfl : q₁ = q₂ := Option.some.inj (htree₁.symm.trans htree₂)
  exact ⟨i, q₁, (hrec q₁ hq₁).1, (hrec q₁ hq₁).2, hI.core.slots.lt i hi, hpid, hshows⟩

set_option maxRecDepth 10000 in
/-- A query is open, alone. -/
theorem ownStart_is_visible : ∃ c : Config Unit (State ℚ) (Res (D := ℚ)),
    (backendSystem smallServer 1).Reach (fun c e => nestedRun 1 c e && endsAlone 1 c e)
      backendInit c ∧ (c.shared.backends 1).started = [10] ∧
        ∃ i, ∃ q' ∈ (c.shared.backends 1).started,
          CDouble.gt (c.shared.backends 1).minCostToTrack (smallServer.queryDesc q').totalCost =
            false ∧ ShowsQuery smallServer 1 q' c.shared i := by
  obtain ⟨c, hc, hf⟩ := System.exists_reach (backendSystem smallServer 1)
    (fun c e => nestedRun 1 c e && endsAlone 1 c e) (fun _ _ h => h) backendInit (ownStart 10)
    (fun c => isIdle c ∧ (c.shared.backends 1).started = [10] ∧
      (c.shared.backends 1).minCostToTrack = 0) (by decide)
  obtain ⟨hidle, hstarted, hmin⟩ := of_decide_eq_true hf
  refine ⟨c, hc, hstarted, tracked_query_is_visible smallServer (by decide) hc hidle (q := 10)
    (by rw [hstarted]; decide) ?_⟩
  rw [hmin]
  decide

/-- Inside the tracked query 10, the tracked query 20 starts and ends. -/
def trackedInside : List (Event Unit (Call ℚ) (ForeignWrite ℚ) (Env ℚ)) :=
  ownStart 10 ++ [.call () (.executorStart 20)] ++ runs () 64 ++ [.call () (.executorEnd 20)] ++
    runs () 35

set_option maxRecDepth 20000 in
/-- With the inner query the outer one goes out of sight. -/
theorem trackedInside_not_visible :
    ¬ ∀ c : Config Unit (State ℚ) (Res (D := ℚ)),
      (backendSystem smallServer 1).Reach (fun c e => nestedRun 1 c e) backendInit c → isIdle c →
        ∀ q ∈ (c.shared.backends 1).started,
          CDouble.gt (c.shared.backends 1).minCostToTrack (smallServer.queryDesc q).totalCost =
              false →
            ∃ i, ∃ q' ∈ (c.shared.backends 1).started, ShowsQuery smallServer 1 q' c.shared i := by
  intro h
  obtain ⟨c, hc, hf⟩ := System.exists_reach (backendSystem smallServer 1) (nestedRun 1)
    (fun _ _ h => h) backendInit trackedInside
    (fun c => isIdle c ∧ (c.shared.backends 1).started = [10] ∧
      (c.shared.backends 1).minCostToTrack = 0 ∧ c.shared.pid 0 ≠ 1 ∧ c.shared.pid 1 ≠ 1)
    (by decide)
  obtain ⟨hidle, hstarted, hmin, hpid, hpid'⟩ := of_decide_eq_true hf
  obtain ⟨i, q', -, hi, hslot, -⟩ :=
    h c hc hidle 10 (by rw [hstarted]; decide) (by rw [hmin]; decide)
  have hi : i < 2 := hi
  rcases (by omega : i = 0 ∨ i = 1) with rfl | rfl
  · exact hpid hslot
  · exact hpid' hslot

end WhatIsHappening
