/-
# A failure in the end hook

`query_end_hook` catches every error of its try block, and has to undo then what the block had
done.  Raising an error resets `InterruptHoldoffCount` and releases no lock; the catch block
releases `entry_search_lock` once, whether it is held or not, and never the slot.
`failed_end_leaves_something` says that no failed call is cleaned up as it should be.
-/
import WhatIsHappening.Frame.Upkeep

namespace WhatIsHappening

open Interleaving Prog

variable {D : Type} {α : Type} {srv : Server D} {p : Pid}

/-! ## 1. What raises an error -/

/-- An operation whose answer is an error. -/
def Op.RaisesError : (o : Op D) → Res o → Prop
  | .raisesHere, b => b = true
  | .lwLockRelease, held => held = false
  | .ereportError, _ => True
  | _, _ => False

/-- **Raising an error resets the hold-off count.** -/
theorem holdoff_of_raisesError {o : Op D} {e : Env D} {s t : State D} {r : Res o}
    (h : exec srv p o e s = some (r, t)) (hr : o.RaisesError r) :
    (t.backends p).interruptHoldoffCount = 0 := by
  cases o
  case raisesHere =>
    cases h
    have hr : e.raises = true := hr
    simp [hr]
  case lwLockRelease =>
    simp only [exec] at h
    split at h
    · cases h
      cases hr
    · cases h
      simp
  case ereportError =>
    cases h
    simp
  all_goals exact hr.elim

theorem pwhLwlockRelease_raisesAfter :
    (pwhLwlockRelease : PgProg D Unit).RaisesAfter Op.RaisesError := by
  intro held
  cases held with
  | true => exact .inr trivial
  | false => exact .inl ⟨rfl, rfl⟩

theorem claimFreeSlot_raisesAfter (shouldCreate : Bool) (free : Nat) :
    (claimFreeSlot p shouldCreate free : PgProg D (Option Nat)).RaisesAfter Op.RaisesError := by
  unfold claimFreeSlot
  split
  · exact act_raisesAfter fun _ => pwhLwlockRelease_raisesAfter.bind fun _ =>
      act_raisesAfter fun _ => trivial
  · refine pwhLwlockRelease_raisesAfter.bind fun _ => RaisesAfter.bind ?_ fun _ => trivial
    cases shouldCreate
    · trivial
    · exact fun _ => .inr trivial

theorem searchSlots_raisesAfter (shouldCreate : Bool) :
    ∀ k i free, (searchSlots p shouldCreate k i free : PgProg D (Option Nat)).RaisesAfter
      Op.RaisesError := by
  intro k
  induction k with
  | zero => exact fun _ free => claimFreeSlot_raisesAfter shouldCreate free
  | succ k ih =>
    intro i free
    have hread : (act (.readBackendPid i) >>= fun pid =>
        if pid = p then (pwhLwlockRelease >>= fun _ => returnEntry i)
        else searchSlots p shouldCreate k (i + 1) free : PgProg D (Option Nat)).RaisesAfter
          Op.RaisesError := by
      refine act_raisesAfter fun pid => ?_
      split
      · exact pwhLwlockRelease_raisesAfter.bind fun _ => act_raisesAfter fun _ => trivial
      · exact ih _ _
    unfold searchSlots
    split
    · refine act_raisesAfter fun pid => ?_
      split
      · exact ih _ _
      · exact hread
    · exact hread

section Try

variable [CDouble D]

theorem queryEndTry_raisesAfter (q : QueryDescPtr) :
    (queryEndTry srv p q).RaisesAfter Op.RaisesError := by
  refine RaisesAfter.bind (act_raisesAfter fun _ => searchSlots_raisesAfter false _ _ _)
    fun entry => ?_
  cases entry with
  | none => trivial
  | some be =>
    refine act_raisesAfter fun _ => ?_
    rw [pwhIsBackendEntryActive_bind]
    refine act_raisesAfter fun pid => RaisesAfter.bind ?_ fun _ =>
      pwhLwlockRelease_raisesAfter.bind fun _ => fun _ => .inr trivial
    unfold pgWhen
    split
    · exact (pwhCollectPlanstateMetrics_raisesAfter (fun _ => trivial) _ be _).bind fun _ =>
        act_raisesAfter fun _ => fun _ => .inr trivial
    · trivial

end Try

/-! ## 2. The try block enters no catch block -/

/-- Not the mark of a failed end hook. -/
def Op.MarksNoFailure : Op D → Prop
  | .mark (.endHookFailed _) => False
  | _ => True

theorem Op.IsUpkeep.marksNoFailure {o : Op D} (h : o.IsUpkeep) : o.MarksNoFailure := by
  cases o
  case mark m => cases m <;> trivial
  all_goals trivial

theorem Op.OfWalk.marksNoFailure {be : Nat} {o : Op D} (h : o.OfWalk be) : o.MarksNoFailure := by
  cases o
  case mark m => cases m <;> trivial
  all_goals trivial

theorem queryEndTry_marksNoFailure [CDouble D] (q : QueryDescPtr) :
    (queryEndTry srv p q).All Op.MarksNoFailure :=
  queryEndTry_all (fun _ h => h.marksNoFailure)
    (fun be _ => (pwhCollectPlanstateMetrics_all _ be _).mono fun _ h => h.marksNoFailure) q

/-! ## 3. What a failed call leaves -/

/-- A call of the end hook, in a backend that owns an active slot, whose try block was left by an
error, up to the call of the previous hook or to a second error. -/
structure FailedEnd [CDouble D] (srv : Server D) (p : Pid) (q : QueryDescPtr) (s : State D)
    (done : List (Op D × State D)) (rest : PgProg D Unit) (t : State D) : Prop where
  isBackend : p ≠ 0
  ownsSlot : ∃ i < srv.gucs.maxTrackedQueries, s.pid i = p
  runs : ∃ es, (queryEndHook srv p q).steps (exec srv p) es s = some (done, rest, t)
  failed : ∃ u, (.mark (.endHookFailed q), u) ∈ done
  complete : (∃ k, rest = .op (.standardExecutorEnd q) k) ∨ rest = .raise

/-- The process is on the way to the previous hook as if it had not been tracked: the lock was
released where it was held, the hold-off count is as it was and never wrapped, and the query and
its slot are gone. -/
structure LeavesNothing (p : Pid) (q : QueryDescPtr) (s : State D) (done : List (Op D × State D))
    (rest : PgProg D Unit) (t : State D) : Prop where
  goesOn : ∃ k, rest = .op (.standardExecutorEnd q) k
  unlocked : ¬ t.entrySearchLock.HeldBy p
  released : ∀ u, (.lwLockRelease, u) ∈ done →
    u.entrySearchLock.HeldBy p ∧ 0 < (u.backends p).interruptHoldoffCount
  holdoff : (t.backends p).interruptHoldoffCount = (s.backends p).interruptHoldoffCount
  current : (t.backends p).currentQueryDesc = none
  gone : ∀ i, t.pid i ≠ p
  others : ∀ i, s.pid i ≠ p → t.entries i = s.entries i

/-- No catch block was entered. -/
def NoFailure (x : State D × List (Op D × State D)) : Prop :=
  ∀ q u, (.mark (.endHookFailed q), u) ∉ x.2

/-- A catch block that was entered has released a lock that was not held, or wrapped the hold-off
count. -/
def FailsBadly (p : Pid) (x : State D × List (Op D × State D)) : Prop :=
  (∃ q u, (.mark (.endHookFailed q), u) ∈ x.2) → ∃ u, (.lwLockRelease, u) ∈ x.2 ∧
    ¬ (u.entrySearchLock.HeldBy p ∧ 0 < (u.backends p).interruptHoldoffCount)

/-- The contract of the end hook: it comes to the previous hook after a bad failure, if any. -/
abbrev endContract (srv : Server D) (p : Pid) :
    Contract (Res (D := D)) (State D × List (Op D × State D)) :=
  .recording (exec srv p) fun o x => (∃ q, o = .standardExecutorEnd q) → FailsBadly p x

theorem NoFailure.failsBadly {x : State D × List (Op D × State D)} (h : NoFailure x) :
    FailsBadly p x := by
  rintro ⟨q, u, hmem⟩
  exact absurd hmem (h q u)

theorem NoFailure.snoc {s t : State D} {l : List (Op D × State D)} (h : NoFailure (s, l)) {o : Op D}
    (ho : o.MarksNoFailure) : NoFailure (t, l ++ [(o, s)]) := by
  intro q u hmem
  rcases List.mem_append.mp hmem with hmem | hmem
  · exact h q u hmem
  · cases List.mem_singleton.mp hmem
    exact ho

section Rules

variable {s : State D} {l : List (Op D × State D)}

/-- One operation, other than the call of the previous hook. -/
theorem wp_end_op {o : Op D} {k : Res o → PgProg D α}
    {Q : α → State D × List (Op D × State D) → Prop} {E : State D × List (Op D × State D) → Prop}
    (ho : ∀ q, o ≠ .standardExecutorEnd q)
    (h : ∀ e r t, exec srv p o e s = some (r, t) →
      (endContract srv p).wp false (k r) Q E (t, l ++ [(o, s)])) :
    (endContract srv p).wp false (act o >>= k) Q E (s, l) := by
  refine Contract.seq_op nofun (fun _ ⟨q, hq⟩ => absurd hq (ho q)) ?_
  rintro - r ⟨t, l'⟩ ⟨e, he, hl⟩
  cases hl
  exact ⟨trivial, h e r t he⟩

/-- The catch block, entered with the hold-off count that the error has reset. -/
theorem wp_endCatch (q : QueryDescPtr) (hs : (s.backends p).interruptHoldoffCount = 0) :
    (endContract srv p).wp false (queryEndCatch q) (fun _ => FailsBadly p) (FailsBadly p)
      (s, l) := by
  refine wp_end_op nofun fun e _ t ht => ?_
  cases ht
  refine wp_end_op nofun fun e _ t ht => ?_
  cases ht
  refine wp_end_op nofun fun e held t ht => ?_
  have hbad : ∀ l' : List (Op D × State D), FailsBadly p (t, l' ++ [(.lwLockRelease,
      (s.record p (.endHookFailed q)).modifyBackend p fun b =>
        { b with currentQueryDesc := none, isRecording := false })]) := by
    intro l' _
    refine ⟨_, List.mem_append_right _ (List.mem_singleton.mpr rfl), fun h => ?_⟩
    have hpos := h.2
    simp [State.record, hs] at hpos
  cases held with
  | true => exact Contract.seq_ret fun _ => hbad _
  | false => exact Contract.seq_raise fun _ => hbad _

variable [CDouble D]

theorem wp_queryEndHook_failure (q : QueryDescPtr) :
    (endContract srv p).wp false (queryEndHook srv p q) (fun _ _ => True) (FailsBadly p)
      (s, []) := by
  have hstart : NoFailure (s, ([] : List (Op D × State D))) := nofun
  refine wp_end_op nofun fun _ enabled s₁ _ => ?_
  have h₁ : NoFailure (s₁, [] ++ [((.isEnabled : Op D), s)]) := hstart.snoc trivial
  refine wp_end_op nofun fun _ initialized s₂ _ => ?_
  have h₂ := h₁.snoc (t := s₂) (o := .getWasBackendInitialized) trivial
  have hend : ∀ t l, FailsBadly p (t, l) → (endContract srv p).wp false
      (act (.standardExecutorEnd q)) (fun _ _ => True) (FailsBadly p) (t, l) := by
    intro t l h
    refine Contract.seq_op nofun (fun _ _ => h) ?_
    rintro - r t' -
    exact ⟨trivial, Contract.seq_ret fun _ => trivial⟩
  refine Contract.wp_bind (Contract.wp_mono (Q := fun _ => FailsBadly p) ?_
    (fun _ x _ hx => hend x.1 x.2 hx) fun _ _ h => h)
  unfold pgWhen
  split
  swap
  · exact Contract.seq_ret fun _ => h₂.failsBadly
  refine Contract.wp_catching ?_ nofun
  have hall : ((queryEndTry srv p q).faulty (Op.raisesHere : Op D) id).All Op.MarksNoFailure :=
    Prog.All.faulty (f := Op.raisesHere) trivial (queryEndTry_marksNoFailure q)
  have hraises : ((queryEndTry srv p q).faulty (Op.raisesHere : Op D) id).RaisesAfter
      Op.RaisesError :=
    RaisesAfter.faulty (fun _ hb => hb) (queryEndTry_raisesAfter q)
  refine Contract.wp_mono (Contract.wp_raisesAfter
    (A := NoFailure) (B := fun x => (x.1.backends p).interruptHoldoffCount = 0)
    hall hraises (Contract.seq_stable _) (Contract.seq_stable _) ?_ h₂)
    (fun _ _ _ h => h.failsBadly) (fun x _ h => wp_endCatch q h.2)
  rintro o ⟨t, l⟩ r ⟨t', l'⟩ ho - ht - ⟨e, he, hl⟩
  cases hl
  exact ⟨trivial, fun _ => ht.failsBadly, ht.snoc ho, fun hbad => holdoff_of_raisesError he hbad⟩

/-- **No failed call of the end hook leaves nothing behind**: its catch block releases a lock that
is not held, which raises a second error, or wraps the hold-off count that the first one has
reset. -/
theorem failed_end_leaves_something {q : QueryDescPtr} {done : List (Op D × State D)}
    {rest : PgProg D Unit} {t : State D} (h : FailedEnd srv p q s done rest t) :
    ¬ LeavesNothing p q s done rest t := by
  intro hleaves
  obtain ⟨es, hsteps⟩ := h.runs
  obtain ⟨u, hfailed⟩ := h.failed
  obtain ⟨k, rfl⟩ := hleaves.goesOn
  have hrest := Contract.recording_steps (wp_queryEndHook_failure (s := s) q) hsteps
  have hbad : FailsBadly p (t, [] ++ done) :=
    ((hrest (t, [] ++ done) rfl trivial).2 trivial () (_, _) ⟨{}, rfl, rfl⟩).2.1 ⟨q, rfl⟩
  rw [List.nil_append] at hbad
  obtain ⟨v, hv, hnot⟩ := hbad ⟨q, u, hfailed⟩
  exact hnot (hleaves.released v hv)

end Rules

/-! ## 4. A stack that is too deep for the final walk -/

/-- The end hook of query 10 while `check_stack_depth` admits no call. -/
def deepEnd (s : State ℚ) :
    Option (List (Op ℚ × State ℚ) × PgProg ℚ Unit × State ℚ) :=
  (queryEndHook smallServer 1 10).steps (exec smallServer 1)
    (List.replicate 25 { stackFrames := 0 }) s

/-- The run has failed, and has come to the previous hook. -/
def hasFailed (x : List (Op ℚ × State ℚ) × PgProg ℚ Unit × State ℚ) : Bool :=
  (x.1.any fun y => match y.1 with | .mark (.endHookFailed q) => q = 10 | _ => false) &&
    match x.2.1 with | .op (.standardExecutorEnd q) _ => q = 10 | _ => false

theorem failedEnd_of_hasFailed {s : State ℚ}
    {x : List (Op ℚ × State ℚ) × PgProg ℚ Unit × State ℚ} (hs : s.pid 0 = 1)
    (hx : deepEnd s = some x) (h : hasFailed x = true) :
    FailedEnd smallServer 1 10 s x.1 x.2.1 x.2.2 := by
  obtain ⟨done, rest, t⟩ := x
  obtain ⟨hfailed, hrest⟩ := Bool.and_eq_true_iff.mp h
  refine ⟨by decide, ⟨0, by decide, hs⟩, ⟨_, hx⟩, ?_, .inl ?_⟩
  · obtain ⟨⟨o, u⟩, hmem, ho⟩ := List.any_eq_true.mp hfailed
    cases o with
    | mark m =>
      cases m with
      | endHookFailed q =>
        obtain rfl : q = 10 := of_decide_eq_true ho
        exact ⟨u, hmem⟩
      | _ => cases ho
    | _ => cases ho
  · cases rest with
    | op o k =>
      cases o with
      | standardExecutorEnd q =>
        obtain rfl : q = 10 := of_decide_eq_true hrest
        exact ⟨k, rfl⟩
      | _ => cases hrest
    | _ => cases hrest

set_option maxRecDepth 20000 in
/-- Process 1 tracks query 10, whose end fails. -/
theorem exists_deepEnd :
    ∃ c : Config Unit (State ℚ) (Res (D := ℚ)),
      (backendSystem smallServer 1).Reach anyRun backendInit c ∧ c.shared.pid 0 = 1 ∧
        ∃ x, deepEnd c.shared = some x ∧ hasFailed x = true ∧
          (x.2.2.backends 1).interruptHoldoffCount = 4294967295 ∧ x.2.2.pid 0 = 1 := by
  obtain ⟨c, hc, hf⟩ := System.exists_reach (backendSystem smallServer 1) (fun _ _ => true)
    (fun _ _ _ => trivial) backendInit
    ([.call () (.fork true 0)] ++ runs () 1 ++ [.call () (.executorStart 10)] ++ runs () 70)
    (fun c => c.shared.pid 0 = 1 && (deepEnd c.shared).any fun x => hasFailed x &&
      decide ((x.2.2.backends 1).interruptHoldoffCount = 4294967295 ∧ x.2.2.pid 0 = 1))
    (by decide)
  obtain ⟨hpid, hany⟩ := Bool.and_eq_true_iff.mp hf
  obtain ⟨x, hx, hcheck⟩ := (Option.any_eq_true _ _).mp hany
  obtain ⟨hfailed, hend⟩ := Bool.and_eq_true_iff.mp hcheck
  exact ⟨c, hc, of_decide_eq_true hpid, x, hx, hfailed, of_decide_eq_true hend⟩

theorem deepEnd_leaves_something :
    ∃ s done rest t, FailedEnd smallServer 1 10 s done rest t ∧
      ¬ LeavesNothing 1 10 s done rest t := by
  obtain ⟨c, -, hpid, x, hx, hfailed, -⟩ := exists_deepEnd
  have hend := failedEnd_of_hasFailed hpid hx hfailed
  exact ⟨_, _, _, _, hend, failed_end_leaves_something hend⟩

/-- The hold-off count has wrapped, and the slot is still there. -/
theorem deepEnd_wraps_holdoff :
    ¬ ∀ s done rest t, FailedEnd smallServer 1 10 s done rest t →
      LeavesNothing 1 10 s done rest t := by
  intro h
  obtain ⟨c, -, hpid, x, hx, hfailed, -, hslot⟩ := exists_deepEnd
  exact (h _ _ _ _ (failedEnd_of_hasFailed hpid hx hfailed)).gone 0 hslot

end WhatIsHappening
