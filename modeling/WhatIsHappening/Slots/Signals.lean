/-
# Who is signalled

A reader sends SIGUSR2 to a pid it reads twice, once to test it and once to use it.  The lock it
holds shared keeps out the exit callback, which takes the lock exclusively, but not the abort
callback, which releases its slot under the shared mode.
-/
import WhatIsHappening.Slots.Sound

namespace WhatIsHappening

open Interleaving

variable {D : Type} [CDouble D]

/-- The next event does not release a slot between the two reads of somebody's poll. -/
def PollKeepsSlot (c : Config Pid (State D) (Res (D := D))) (e : Event Pid (Call D) Empty (Env D)) :
    Prop :=
  ∀ p env i k, e = .run p env → c.thread p = .op (.writeBackendPid i 0) k →
    ∀ q, (c.shared.backends q).polling ≠ some i

omit [CDouble D] in
theorem keeps_of_pollKeepsSlot {c : Config Pid (State D) (Res (D := D))}
    {e : Event Pid (Call D) Empty (Env D)} (h : PollKeepsSlot c e) :
    SlotRules.Keeps ⟨false, true⟩ c e := by
  rintro p env o k he hp i v rfl
  refine ⟨nofun, fun _ hv => ?_⟩
  subst hv
  exact h p env i k he hp

/-- **SIGUSR2 goes only to backends prepared for it**, in every run in which no slot is released
between the two reads of a poll. -/
theorem sigusr2_only_to_prepared (srv : Server D) {c : Config Pid (State D) (Res (D := D))}
    (h : (clusterSystem srv).Reach PollKeepsSlot clusterInit c) :
    ∀ p v k, c.thread p = .op (.kill v .SIGUSR2) k →
      v ≠ 0 ∧ (c.shared.backends v).isAlive = true ∧
        (c.shared.backends v).wasSignalHandlerInstalled = true := by
  intro p v k hp
  have hall := slots_hold (h.mono fun _ _ h => keeps_of_pollKeepsSlot h)
  have hok : SlotRules.Keeps ⟨false, true⟩ c (.run p {}) := by
    rintro _ _ o k' he hp' i w rfl
    cases he
    rw [hp] at hp'
    cases hp'
  obtain ⟨hv, halive, hinst, -⟩ := (System.Sound.guar_of_holds (slots_sound ⟨false, true⟩ srv) hall
    hp hok (e := {}) rfl).2.1.kills rfl v rfl
  exact ⟨hv, halive, hinst⟩

/-- The next event releases no slot. -/
def releasesNoSlot (c : Config Pid (State D) (Res (D := D))) :
    Event Pid (Call D) Empty (Env D) → Bool
  | .run p _ =>
    match c.thread p with
    | .op (.writeBackendPid _ v) _ => v ≠ 0
    | _ => true
  | _ => true

/-- The next operation of `p` is a SIGUSR2 for `v`. -/
def isSignalling (c : Config Pid (State D) (Res (D := D))) (p v : Pid) : Bool :=
  match c.thread p with
  | .op (.kill w .SIGUSR2) _ => w = v
  | _ => false

omit [CDouble D] in
theorem thread_of_isSignalling {c : Config Pid (State D) (Res (D := D))} {p v : Pid}
    (h : isSignalling c p v = true) : ∃ k, c.thread p = .op (.kill v .SIGUSR2) k := by
  unfold isSignalling at h
  split at h
  · rename_i w k hp
    rw [decide_eq_true_eq] at h
    subst h
    exact ⟨k, hp⟩
  · cases h

/-- Process 2 reads the view while process 1 runs a query. -/
def pollRun : List (Event Pid (Call ℚ) Empty (Env ℚ)) :=
  startQuery 1 10 ++ [.call 2 (.fork true 0)] ++ runs 2 1 ++ [.call 2 .fetchStatus] ++ runs 2 4

set_option maxRecDepth 10000 in
theorem pollRun_prepared : ∃ c : Config Pid (State ℚ) (Res (D := ℚ)),
    (clusterSystem smallServer).Reach PollKeepsSlot clusterInit c ∧ isSignalling c 2 1 ∧
      (c.shared.backends 1).wasSignalHandlerInstalled = true := by
  have hcheck : ∀ (c : Config Pid (State ℚ) (Res (D := ℚ))) e, releasesNoSlot c e = true →
      PollKeepsSlot c e := by
    rintro c e h p env i k rfl hp
    simp [releasesNoSlot, hp] at h
  obtain ⟨c, hc, hsig⟩ := System.exists_reach (clusterSystem smallServer) releasesNoSlot
    hcheck clusterInit pollRun (fun c => isSignalling c 2 1) (by decide)
  obtain ⟨k, hk⟩ := thread_of_isSignalling hsig
  exact ⟨c, hc, hsig, (sigusr2_only_to_prepared smallServer hc 2 1 k hk).2.2⟩

/-- Process 1 aborts between the two reads. -/
def pollRace : List (Event Pid (Call ℚ) Empty (Env ℚ)) :=
  startQuery 1 10 ++ [.call 2 (.fork true 0)] ++ runs 2 1 ++ [.call 2 .fetchStatus] ++ runs 2 3 ++
    [.call 1 (.abort .XACT_EVENT_ABORT)] ++ runs 1 7 ++ runs 2 1

set_option maxRecDepth 10000 in
/-- The signal goes to pid 0: the whole process group of the reader. -/
theorem pollRace_signals_zero :
    ¬ ∀ c : Config Pid (State ℚ) (Res (D := ℚ)),
      (clusterSystem smallServer).Reach anyRun clusterInit c →
        ∀ p v k, c.thread p = .op (.kill v .SIGUSR2) k →
          v ≠ 0 ∧ (c.shared.backends v).isAlive = true ∧
            (c.shared.backends v).wasSignalHandlerInstalled = true := by
  intro h
  obtain ⟨c, hc, hsig⟩ := System.exists_reach (clusterSystem smallServer) (fun _ _ => true)
    (fun _ _ _ => trivial) clusterInit pollRace (fun c => isSignalling c 2 0) (by decide)
  obtain ⟨k, hk⟩ := thread_of_isSignalling hsig
  exact (h c hc 2 0 k hk).1 rfl

end WhatIsHappening
