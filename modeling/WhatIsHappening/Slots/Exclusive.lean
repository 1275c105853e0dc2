/-
# Slot ownership

A slot belongs to one process at a time in every run whose claims find their slot still free when
they write their pid.  The code does not see to that: a claim is made under the lock's shared mode,
which two processes may hold at once, and both may choose the same free slot.
-/
import WhatIsHappening.Slots.Sound

namespace WhatIsHappening

open Interleaving

variable {D : Type} [CDouble D]

/-- The next event is no claim of a slot that is taken. -/
def claimIsFree {ι Ext : Type} (c : Config ι (State D) (Res (D := D))) :
    Event ι (Call D) Ext (Env D) → Bool
  | .run p _ =>
    match c.thread p with
    | .op (.writeBackendPid i v) _ => v = 0 || c.shared.pid i = 0
    | _ => true
  | _ => true

omit [CDouble D] in
theorem keeps_of_claimIsFree {c : Config Pid (State D) (Res (D := D))}
    {e : Event Pid (Call D) Empty (Env D)} (h : claimIsFree c e = true) :
    SlotRules.Keeps ⟨true, false⟩ c e := by
  rintro p env o k rfl hp i v rfl
  refine ⟨fun _ hv => ?_, nofun⟩
  simpa [claimIsFree, hp, hv] using h

/-- **Slot ownership is exclusive** in every run whose claims are: an entry that was returned to a
process carries its pid until it releases it, no entry is held by two, and nobody fills, claims or
releases an entry another process holds. -/
theorem slot_ownership_exclusive (srv : Server D) {c : Config Pid (State D) (Res (D := D))}
    (h : (clusterSystem srv).Reach (fun c e => claimIsFree c e) clusterInit c) :
    (∀ p e, (c.shared.backends p).heldEntry = some e → c.shared.pid e = p) ∧
    (∀ p q e, (c.shared.backends p).heldEntry = some e →
      (c.shared.backends q).heldEntry = some e → p = q) ∧
    ∀ p env o k c', c.thread p = .op o k →
      claimIsFree c (.run p env : Event Pid (Call D) Empty (Env D)) →
      (clusterSystem srv).step c (.run p env) = some c' →
      ∀ i, o.FillsOrClaims i → ∀ q, q ≠ p → (c.shared.backends q).heldEntry ≠ some i := by
  have hall := slots_hold (h.mono fun _ _ h => keeps_of_claimIsFree h)
  have hheld : ∀ p e, (c.shared.backends p).heldEntry = some e → c.shared.pid e = p :=
    fun p e hp => (hall.1.held rfl p e hp).1
  refine ⟨hheld, fun p q e hp hq => (hheld p e hp).symm.trans (hheld q e hq), ?_⟩
  intro p env o k c' hp hfree hs i hi q hq
  simp only [System.step, hp] at hs
  obtain ⟨⟨r, s'⟩, hx, -⟩ := Option.map_eq_some_iff.mp hs
  exact (System.Sound.guar_of_holds (slots_sound ⟨true, false⟩ srv) hall hp
    (keeps_of_claimIsFree hfree) hx).2.1.fills rfl i hi q hq

/-- Process 1 has a query in slot 0, and process 2 fills slot 1. -/
def claimRun : List (Event Pid (Call ℚ) Empty (Env ℚ)) :=
  startQuery 1 10 ++ [.call 2 (.fork true 0)] ++ runs 2 1 ++ [.call 2 (.executorStart 20)] ++
    runs 2 33

/-- The next operation of process `p` is a store into slot `i`. -/
def isFilling (p : Pid) (i : Nat) (c : Config Pid (State ℚ) (Res (D := ℚ))) : Bool :=
  match c.thread p with
  | .op o _ => o.fills = some i && ((clusterSystem smallServer).step c (.run p {})).isSome
  | _ => false

theorem thread_of_isFilling {p : Pid} {i : Nat} {c : Config Pid (State ℚ) (Res (D := ℚ))}
    (h : isFilling p i c = true) : ∃ o k c', c.thread p = .op o k ∧ o.FillsOrClaims i ∧
      (clusterSystem smallServer).step c (.run p {}) = some c' := by
  unfold isFilling at h
  split at h
  · rename_i o k hp
    obtain ⟨hfills, hstep⟩ := Bool.and_eq_true_iff.mp h
    obtain ⟨c', hc'⟩ := Option.isSome_iff_exists.mp hstep
    exact ⟨o, k, c', hp, .inl (of_decide_eq_true hfills), hc'⟩
  · cases h

set_option maxRecDepth 10000 in
/-- Each holds its own slot, and nobody else holds the one that is filled. -/
theorem claimRun_exclusive : ∃ c : Config Pid (State ℚ) (Res (D := ℚ)),
    (clusterSystem smallServer).Reach (fun c e => claimIsFree c e) clusterInit c ∧
      (c.shared.backends 1).heldEntry = some 0 ∧ c.shared.pid 0 = 1 ∧
      (c.shared.backends 2).heldEntry = some 1 ∧ c.shared.pid 1 = 2 ∧
      (∀ q, (c.shared.backends q).heldEntry = some 0 → 1 = q) ∧
      (∃ o k, c.thread 2 = .op o k ∧ o.FillsOrClaims 1) ∧
      ∀ q, q ≠ 2 → (c.shared.backends q).heldEntry ≠ some 1 := by
  obtain ⟨c, hc, htest⟩ := System.exists_reach (clusterSystem smallServer) claimIsFree
    (fun _ _ h => h) clusterInit claimRun
    (fun c => (c.shared.backends 1).heldEntry = some 0 &&
      (c.shared.backends 2).heldEntry = some 1 && isFilling 2 1 c &&
      claimIsFree c (.run 2 {} : Event Pid (Call ℚ) Empty (Env ℚ)))
    (by decide +kernel)
  simp only [Bool.and_eq_true, decide_eq_true_eq] at htest
  obtain ⟨⟨⟨hheld₁, hheld₂⟩, hfilling⟩, hfree⟩ := htest
  obtain ⟨o, k, c', hp, hfills, hstep⟩ := thread_of_isFilling hfilling
  obtain ⟨hown, hone, hwrites⟩ := slot_ownership_exclusive smallServer hc
  exact ⟨c, hc, hheld₁, hown 1 0 hheld₁, hheld₂, hown 2 1 hheld₂, fun q hq => hone 1 q 0 hheld₁ hq,
    ⟨o, k, hp, hfills⟩, hwrites 2 {} o k c' hp hfree hstep 1 hfills⟩

/-- Two processes choose the same slot, and claim it one after the other. -/
def claimRace : List (Event Pid (Call ℚ) Empty (Env ℚ)) :=
  [.call 1 (.fork true 0)] ++ runs 1 1 ++ [.call 2 (.fork true 0)] ++ runs 2 1 ++
    [.call 1 (.executorStart 10)] ++ runs 1 12 ++ [.call 2 (.executorStart 20)] ++ runs 2 12 ++
    runs 1 8 ++ runs 2 8

set_option maxRecDepth 10000 in
/-- The lock does not keep the two apart: both hold slot 0. -/
theorem claimRace_not_exclusive :
    ¬ ∀ c : Config Pid (State ℚ) (Res (D := ℚ)),
      (clusterSystem smallServer).Reach anyRun clusterInit c →
        (∀ p e, (c.shared.backends p).heldEntry = some e → c.shared.pid e = p) ∧
        ∀ p q e, (c.shared.backends p).heldEntry = some e →
          (c.shared.backends q).heldEntry = some e → p = q := by
  intro h
  obtain ⟨c, hc, hf⟩ := System.exists_reach (clusterSystem smallServer) (fun _ _ => true)
    (fun _ _ _ => trivial) clusterInit claimRace
    (fun c => (c.shared.backends 1).heldEntry = some 0 ∧
      (c.shared.backends 2).heldEntry = some 0) (by decide +kernel)
  simp only [decide_eq_true_eq] at hf
  exact absurd ((h c hc).2 1 2 0 hf.1 hf.2) (by decide)

end WhatIsHappening
