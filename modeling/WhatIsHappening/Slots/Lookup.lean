/-
# The lookup of a slot, run alone

`pwh_get_or_create_my_backend_entry_impl` walks the table once, with the first free slot and the
slot of this process in one chain of tests.  `Lookup` says what it returns of a table and what it
leaves of it; `wp_pwhGetOrCreateMyBackendEntryImpl` is that it does, also where errors may be raised
at every statement.  Alone or not, no pid gets into two slots.
-/
import WhatIsHappening.Slots.Sound

namespace WhatIsHappening

open Interleaving Prog

variable {D : Type} {α : Type}

/-! ## 1. What it returns -/

/-- The lookup of process `p` returns an entry, or NULL, and leaves the table. -/
inductive Lookup (srv : Server D) (p : Pid) (shouldCreate : Bool) (s : State D) :
    Option Nat → (Nat → PwhSharedMemoryBackendEntry D) → Prop
  /-- its slot, wherever it stands -/
  | own {i : Nat} (hi : i < srv.gucs.maxTrackedQueries) (hpid : s.pid i = p) :
      Lookup srv p shouldCreate s (some i) s.entries
  /-- the lowest free slot, of which it has written the pid -/
  | claimed {i : Nat} (hcreate : shouldCreate = true)
      (hno : ∀ j < srv.gucs.maxTrackedQueries, s.pid j ≠ p)
      (hi : i < srv.gucs.maxTrackedQueries) (hpid : s.pid i = 0) (hlow : ∀ j < i, s.pid j ≠ 0) :
      Lookup srv p shouldCreate s (some i)
        (Function.update s.entries i { s.entries i with backendPid := p })
  /-- NULL -/
  | null (hno : ∀ j < srv.gucs.maxTrackedQueries, s.pid j ≠ p)
      (hfull : shouldCreate = true → ∀ j < srv.gucs.maxTrackedQueries, s.pid j ≠ 0) :
      Lookup srv p shouldCreate s none s.entries

/-- It returns NULL exactly when this process has no slot and none is free. -/
theorem Lookup.eq_none_iff {srv : Server D} {p : Pid} {s : State D} {r : Option Nat}
    {entries : Nat → PwhSharedMemoryBackendEntry D} (h : Lookup srv p true s r entries) :
    r = none ↔ (∀ j < srv.gucs.maxTrackedQueries, s.pid j ≠ p) ∧
      ∀ j < srv.gucs.maxTrackedQueries, s.pid j ≠ 0 := by
  cases h with
  | own hi hpid => exact ⟨nofun, fun h => absurd hpid (h.1 _ hi)⟩
  | claimed _ _ hi hpid _ => exact ⟨nofun, fun h => absurd hpid (h.2 _ hi)⟩
  | null hno hfull => exact ⟨fun _ => ⟨hno, hfull rfl⟩, fun _ => rfl⟩

/-! ## 2. The search -/

/-- The contract of a process that runs alone. -/
abbrev soloContract (srv : Server D) (p : Pid) : Contract (Res (D := D)) (State D) :=
  .sequential (fun o s r t => ∃ e, exec srv p o e s = some (r, t)) (fun _ => True) fun _ _ => True

section Search

variable {srv : Server D} {p : Pid} {shouldCreate : Bool} {m : Bool} {s₀ s : State D}

/-- One operation. -/
theorem wp_solo_op {o : Op D} {k : Res o → PgProg D α}
    {Q : α → State D → Prop} {E : State D → Prop} (hE : m = true → E s)
    (h : ∀ e r t, exec srv p o e s = some (r, t) → (soloContract srv p).wp m (k r) Q E t) :
    (soloContract srv p).wp m (act o >>= k) Q E s :=
  Contract.seq_op (fun hm _ => hE hm) (fun _ => trivial) fun _ r t ⟨e, he⟩ =>
    ⟨trivial, h e r t he⟩

/-- A search that has passed the slots before `i`, and the free slot it remembers. -/
structure Passed (p : Pid) (s₀ : State D) (i free : Nat) : Prop where
  notMine : ∀ j < i, s₀.pid j ≠ p
  noFree : free = NO_FREE_SLOT → ∀ j < i, s₀.pid j ≠ 0
  firstFree : free ≠ NO_FREE_SLOT → free < i ∧ s₀.pid free = 0 ∧ ∀ j < free, s₀.pid j ≠ 0

/-- Where an error may be raised, the table is as it was, or the search has done its work. -/
def Searching (srv : Server D) (p : Pid) (shouldCreate m : Bool) (s₀ t : State D) : Prop :=
  m = true ∧ (t.entries = s₀.entries ∨ ∃ r, Lookup srv p shouldCreate s₀ r t.entries)

theorem Passed.start (p : Pid) (s₀ : State D) : Passed p s₀ 0 NO_FREE_SLOT :=
  ⟨nofun, fun _ => nofun, fun h => absurd rfl h⟩

/-- It passes a slot that is not its own and leaves what it remembers as it is. -/
theorem Passed.skip {i free : Nat} (h : Passed p s₀ i free) (hp : s₀.pid i ≠ p)
    (hfree : free = NO_FREE_SLOT → s₀.pid i ≠ 0) : Passed p s₀ (i + 1) free where
  notMine j hj := by
    rcases Nat.lt_succ_iff_lt_or_eq.mp hj with hj | rfl
    · exact h.notMine j hj
    · exact hp
  noFree hno j hj := by
    rcases Nat.lt_succ_iff_lt_or_eq.mp hj with hj | rfl
    · exact h.noFree hno j hj
    · exact hfree hno
  firstFree hno := by
    obtain ⟨hlt, hrest⟩ := h.firstFree hno
    exact ⟨Nat.lt_succ_of_lt hlt, hrest⟩

/-- It passes the first free slot and remembers it. -/
theorem Passed.remember {i : Nat} (h : Passed p s₀ i NO_FREE_SLOT) (hp : p ≠ 0)
    (hfree : s₀.pid i = 0) (hi : i < NO_FREE_SLOT) : Passed p s₀ (i + 1) i where
  notMine j hj := by
    rcases Nat.lt_succ_iff_lt_or_eq.mp hj with hj | rfl
    · exact h.notMine j hj
    · rw [hfree]
      exact Ne.symm hp
  noFree hno := absurd hno (Nat.ne_of_lt hi)
  firstFree _ := ⟨Nat.lt_succ_self i, hfree, h.noFree rfl⟩

/-- The lock is released, and the entry returned. -/
theorem wp_return_solo {prog : PgProg D (Option Nat)} {r : Option Nat}
    {entries : Nat → PwhSharedMemoryBackendEntry D} (hprog : ∀ t, t.entries = entries →
      (soloContract srv p).wp m prog (fun r' x => r' = r ∧ x.entries = entries)
        (fun x => m = true ∧ x.entries = entries) t)
    (hlock : p ∈ s.entrySearchLock.shared) (hs : s.entries = entries) :
    (soloContract srv p).wp m (pwhLwlockRelease >>= fun _ => prog)
      (fun r' x => r' = r ∧ x.entries = entries) (fun x => m = true ∧ x.entries = entries) s := by
  rw [pwhLwlockRelease_bind]
  refine wp_solo_op (fun hm => ⟨hm, hs⟩) fun e held t he => ?_
  simp only [exec] at he
  split at he
  · cases he
    exact hprog _ hs
  · rename_i hno
    rw [LWLock.release, if_pos hlock] at hno
    split at hno <;> cases hno

theorem wp_returnEntry_solo {be : Nat} {entries : Nat → PwhSharedMemoryBackendEntry D} (t : State D)
    (ht : t.entries = entries) :
    (soloContract srv p).wp m (returnEntry be) (fun r' x => r' = some be ∧ x.entries = entries)
      (fun x => m = true ∧ x.entries = entries) t := by
  refine wp_solo_op (fun hm => ⟨hm, ht⟩) fun e r u he => ?_
  cases he
  exact Contract.seq_ret fun _ => ⟨rfl, ht⟩

/-- What the lookup returns, and where it may be left by an error. -/
theorem wp_lookup_of {prog : PgProg D (Option Nat)} {r : Option Nat}
    {entries : Nat → PwhSharedMemoryBackendEntry D} (hlook : Lookup srv p shouldCreate s₀ r entries)
    (h : (soloContract srv p).wp m prog (fun r' x => r' = r ∧ x.entries = entries)
      (fun x => m = true ∧ x.entries = entries) s) :
    (soloContract srv p).wp m prog (fun r x => Lookup srv p shouldCreate s₀ r x.entries)
      (Searching srv p shouldCreate m s₀) s := by
  refine Contract.wp_mono h (fun r' x _ hx => ?_) fun x _ hx => ⟨hx.1, .inr ⟨r, hx.2 ▸ hlook⟩⟩
  rw [hx.1, hx.2]
  exact hlook

/-- No own slot was passed. -/
theorem wp_claimFreeSlot_solo {free : Nat}
    (hpass : Passed p s₀ srv.gucs.maxTrackedQueries free)
    (hlock : p ∈ s.entrySearchLock.shared) (hs : s.entries = s₀.entries) :
    (soloContract srv p).wp m (claimFreeSlot p shouldCreate free)
      (fun r x => Lookup srv p shouldCreate s₀ r x.entries) (Searching srv p shouldCreate m s₀)
      s := by
  unfold claimFreeSlot
  split
  · rename_i hclaim
    obtain ⟨hcreate, hfree⟩ := hclaim
    obtain ⟨hlt, hpid, hlow⟩ := hpass.firstFree hfree
    refine wp_solo_op (fun hm => ⟨hm, .inl hs⟩) fun e r t he => ?_
    cases he
    refine wp_lookup_of (.claimed hcreate hpass.notMine hlt hpid hlow) ?_
    refine wp_return_solo wp_returnEntry_solo hlock ?_
    simp [State.modifyEntry, State.modifyBackend, hs]
  · rename_i hclaim
    have hfull : shouldCreate = true → ∀ j < srv.gucs.maxTrackedQueries, s₀.pid j ≠ 0 := by
      intro hcreate
      refine hpass.noFree ?_
      by_contra hfree
      exact hclaim ⟨hcreate, hfree⟩
    refine wp_lookup_of (.null hpass.notMine hfull) (wp_return_solo (fun t ht => ?_) hlock hs)
    unfold pgWhen
    split
    · refine wp_solo_op (fun hm => ⟨hm, ht⟩) fun e r u he => ?_
      cases he
      exact Contract.seq_ret fun _ => ⟨rfl, ht⟩
    · exact Contract.seq_ret fun _ => ⟨rfl, ht⟩

/-- **The loop** finds the slot of this process behind a free one. -/
theorem wp_searchSlots_solo (hp : p ≠ 0) :
    ∀ k i free s, i + k = srv.gucs.maxTrackedQueries → Passed p s₀ i free →
      p ∈ s.entrySearchLock.shared → s.entries = s₀.entries →
      (soloContract srv p).wp m (searchSlots p shouldCreate k i free)
        (fun r x => Lookup srv p shouldCreate s₀ r x.entries) (Searching srv p shouldCreate m s₀)
        s
  | 0, i, free, s, hik, hpass, hlock, hs => by
    obtain rfl : i = srv.gucs.maxTrackedQueries := hik
    exact wp_claimFreeSlot_solo hpass hlock hs
  | k + 1, i, free, s, hik, hpass, hlock, hs => by
    have hmax := srv.gucs.maxTrackedQueries_le
    have hpid : ∀ t : State D, t.entries = s₀.entries → t.pid i = s₀.pid i := by
      intro t ht
      rw [State.pid, ht, State.pid]
    -- the `else if` that both branches share
    have hread : (free = NO_FREE_SLOT → s₀.pid i ≠ 0) →
        (soloContract srv p).wp m (act (.readBackendPid i) >>= fun pid =>
          if pid = p then (pwhLwlockRelease >>= fun _ => returnEntry i)
          else searchSlots p shouldCreate k (i + 1) free)
          (fun r x => Lookup srv p shouldCreate s₀ r x.entries) (Searching srv p shouldCreate m s₀)
          s := by
      intro hfree
      refine wp_solo_op (fun hm => ⟨hm, .inl hs⟩) fun e r t he => ?_
      cases he
      split
      · rename_i hmine
        have hown : Lookup srv p shouldCreate s₀ (some i) s₀.entries :=
          .own (by omega) ((hpid s hs).symm.trans hmine)
        exact wp_lookup_of hown (wp_return_solo wp_returnEntry_solo hlock hs)
      · rename_i hnot
        exact wp_searchSlots_solo hp k (i + 1) free s (by omega)
          (hpass.skip (fun h => hnot ((hpid s hs).trans h)) hfree) hlock hs
    rw [searchSlots]
    split
    · rename_i hno
      subst hno
      refine wp_solo_op (fun hm => ⟨hm, .inl hs⟩) fun e r t he => ?_
      cases he
      split
      · rename_i hfree
        refine wp_searchSlots_solo hp k (i + 1) i s (by omega) ?_ hlock hs
        exact hpass.remember hp ((hpid s hs).symm.trans hfree) (by simp [NO_FREE_SLOT]; omega)
      · rename_i hfree
        exact hread fun _ h => hfree ((hpid s hs).trans h)
    · rename_i hno
      exact hread fun h => absurd h hno

/-- **The lookup**, also where errors may be raised at every statement. -/
theorem wp_pwhGetOrCreateMyBackendEntryImpl (hp : p ≠ 0) (s : State D) :
    (soloContract srv p).wp m (pwhGetOrCreateMyBackendEntryImpl srv p shouldCreate)
      (fun r x => Lookup srv p shouldCreate s r x.entries) (Searching srv p shouldCreate m s)
      s := by
  rw [pwhGetOrCreateMyBackendEntryImpl, pwhLwlockAcquire_bind]
  refine wp_solo_op (fun hm => ⟨hm, .inl rfl⟩) fun e r t he => ?_
  obtain ⟨lock, hlock, ht⟩ := Option.map_eq_some_iff.mp he
  cases ht
  obtain ⟨-, hlock⟩ := Option.ite_none_right_eq_some.mp hlock
  cases hlock
  exact wp_searchSlots_solo hp _ 0 NO_FREE_SLOT _ (Nat.zero_add _) (.start p s)
    List.mem_cons_self rfl

end Search

/-! ## 3. One slot for each process -/

/-- **The lookup is exact** where nothing interferes, and in no run a pid gets into two slots. -/
theorem lookup_exact_and_unique [CDouble D] (srv : Server D) {s : State D} {p : Pid}
    {shouldCreate : Bool} (hp : p ≠ 0) (hlock : s.entrySearchLock.exclusive = none) :
    (∃ r t, (pwhGetOrCreateMyBackendEntryImpl srv p shouldCreate).solo (alone srv p) s =
        some (r, t) ∧ Lookup srv p shouldCreate s r t.entries ∧
      (shouldCreate = true → (r = none ↔ (∀ i < srv.gucs.maxTrackedQueries, s.pid i ≠ p) ∧
        ∀ i < srv.gucs.maxTrackedQueries, s.pid i ≠ 0))) ∧
    ∀ c : Config Pid (State D) (Res (D := D)), (clusterSystem srv).Reach anyRun clusterInit c →
      ∀ i j, c.shared.pid i ≠ 0 → c.shared.pid i = c.shared.pid j → i = j := by
  constructor
  · have hacquire : s.entrySearchLock.acquire .LW_SHARED p =
        some { s.entrySearchLock with shared := p :: s.entrySearchLock.shared } := if_pos hlock
    let s' : State D := { s with entrySearchLock :=
      { s.entrySearchLock with shared := p :: s.entrySearchLock.shared } }.modifyBackend p fun b =>
        { b with interruptHoldoffCount := b.interruptHoldoffCount + 1 }
    -- once it has the lock, the search never waits
    have hwp : (soloContract srv p).wp false
        (searchSlots p shouldCreate srv.gucs.maxTrackedQueries 0 NO_FREE_SLOT)
        (fun r x => Lookup srv p shouldCreate s r x.entries) (fun _ => False) s' :=
      Contract.wp_mono (wp_searchSlots_solo hp _ 0 NO_FREE_SLOT s' (Nat.zero_add _) (.start p s)
        List.mem_cons_self rfl) (fun _ _ _ h => h) fun _ _ h => by cases h.1
    obtain ⟨r, t, hsolo, hlook⟩ := Contract.seq_solo {} hwp
      ((searchSlots_all _ _ _ _).mono fun o ho s => ho.exec_ne_none {} s)
    refine ⟨r, t, ?_, hlook, fun hcreate => ?_⟩
    · rw [pwhGetOrCreateMyBackendEntryImpl, pwhLwlockAcquire_bind, act_bind, solo, alone, exec,
        hacquire]
      exact hsolo
    · subst hcreate
      exact hlook.eq_none_iff
  · intro c hc
    have hkeeps : ∀ c e, anyRun c e → SlotRules.Keeps (D := D) ⟨false, false⟩ c e :=
      fun _ _ _ _ _ _ _ _ _ _ _ _ => ⟨by simp, by simp⟩
    exact (slots_hold (hc.mono hkeeps)).1.unique

/-- A slot of this process behind a free one. -/
def ownBehindFree : State ℚ :=
  (State.init : State ℚ).modifyEntry 1 fun be => { be with backendPid := 1 }

theorem ownBehindFree_lookup : ∃ r t,
    (pwhGetOrCreateMyBackendEntryImpl smallServer 1 true).solo (alone smallServer 1)
      ownBehindFree = some (r, t) ∧ Lookup smallServer 1 true ownBehindFree r t.entries := by
  obtain ⟨r, t, hsolo, hlook, -⟩ := (lookup_exact_and_unique smallServer (s := ownBehindFree)
    (p := 1) (by decide) rfl).1
  exact ⟨r, t, hsolo, hlook⟩

end WhatIsHappening
