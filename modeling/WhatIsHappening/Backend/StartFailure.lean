/-
# A failure in the start hook

`query_start_hook` catches every error of its try block.  Its catch block borrows the exit callback,
which searches the whole table for the pid and clears `WAS_BACKEND_INITIALIZED`; so wherever the
block was left, the slot is given back, and the end hook finds nothing to do.
-/
import WhatIsHappening.Slots.Lookup

namespace WhatIsHappening

open Interleaving Prog

variable {D : Type}

/-! ## 1. What a failed call leaves -/

/-- A call of the start hook, on a table with no pid twice, whose try block was left by an error,
and that has returned. -/
structure FailedStart [CDouble D] (srv : Server D) (p : Pid) (q : QueryDescPtr) (s : State D)
    (done : List (Op D × State D)) (t : State D) : Prop where
  isBackend : p ≠ 0
  unique : ∀ i < srv.gucs.maxTrackedQueries, ∀ j < srv.gucs.maxTrackedQueries,
    s.pid i ≠ 0 → s.pid i = s.pid j → i = j
  runs : ∃ es, (queryStartHook srv p q).steps (exec srv p) es s = some (done, .ret (), t)
  failed : ∃ u, (.mark .exitScan, u) ∈ done

/-- Nothing is tracked. -/
structure TracksNothing (srv : Server D) (p : Pid) (s t : State D) : Prop where
  gone : ∀ i < srv.gucs.maxTrackedQueries, t.pid i ≠ p
  current : (t.backends p).currentQueryDesc = none
  unlocked : ∀ v, ¬ t.entrySearchLock.HeldBy v
  others : ∀ i, s.pid i ≠ 0 → s.pid i ≠ p → t.entries i = s.entries i
  uninitialized : (t.backends p).wasBackendInitialized = false

/-- While the try block runs: the slots of the others are as they were, and at most one carries the
pid of this process. -/
structure Trying (srv : Server D) (p : Pid) (s t : State D) : Prop where
  others : ∀ i, s.pid i ≠ 0 → s.pid i ≠ p → t.entries i = s.entries i
  once : ∀ i < srv.gucs.maxTrackedQueries, ∀ j < srv.gucs.maxTrackedQueries,
    t.pid i = p → t.pid j = p → i = j

section Try

variable {srv : Server D} {p : Pid} {m : Bool} {s₀ s : State D}

/-- The slots of the others still carry their pids. -/
theorem Trying.pid_eq {i : Nat} (h : Trying srv p s₀ s) (h0 : s₀.pid i ≠ 0) (hp : s₀.pid i ≠ p) :
    s.pid i = s₀.pid i := by
  rw [State.pid, h.others i h0 hp, State.pid]

theorem Trying.of_entries {t : State D} (h : Trying srv p s₀ s) (ht : t.entries = s.entries) :
    Trying srv p s₀ t := by
  have hpid : ∀ i, t.pid i = s.pid i := fun i => by rw [State.pid, ht, State.pid]
  refine ⟨fun i h0 hp => by rw [ht, h.others i h0 hp], fun i hi j hj h' h'' => ?_⟩
  exact h.once i hi j hj (hpid i ▸ h') (hpid j ▸ h'')

/-- What the lookup leaves. -/
theorem Trying.of_lookup {shouldCreate : Bool} {r : Option Nat} {t : State D}
    (hs : Trying srv p s₀ s) (h : Lookup srv p shouldCreate s r t.entries) : Trying srv p s₀ t := by
  generalize hentries : t.entries = entries at h
  cases h with
  | own hi hpid => exact hs.of_entries hentries
  | null hno hfull => exact hs.of_entries hentries
  | @claimed k hcreate hno hk hfree hlow =>
    have hother : ∀ i ≠ k, t.entries i = s.entries i := fun i hi => by simp [hentries, hi]
    refine ⟨fun i h0 hp => ?_, fun i hi j hj hpi hpj => ?_⟩
    · have hik : i ≠ k := by
        rintro rfl
        exact h0 ((hs.pid_eq h0 hp).symm.trans hfree)
      rw [hother i hik, hs.others i h0 hp]
    · have hmine : ∀ i < srv.gucs.maxTrackedQueries, t.pid i = p → i = k := by
        intro i hi hpi
        by_contra hik
        exact hno i hi (by rw [State.pid, ← hother i hik]; exact hpi)
      rw [hmine i hi hpi, hmine j hj hpj]

/-- The entry it returns carries the pid. -/
theorem Lookup.pid_eq {shouldCreate : Bool} {be : Nat}
    {entries : Nat → PwhSharedMemoryBackendEntry D}
    (h : Lookup srv p shouldCreate s (some be) entries) : (entries be).backendPid = p := by
  cases h with
  | own hi hpid => exact hpid
  | claimed => simp

/-- Recording the query keeps to the entry. -/
theorem Trying.of_exec {be : Nat} {o : Op D} {e : Env D} {t : State D} {r : Res o}
    (hs : Trying srv p s₀ s) (hbe : s.pid be = p) (ho : o.OfTrack be)
    (h : exec srv p o e s = some (r, t)) : Trying srv p s₀ t := by
  obtain ⟨hother, hpid⟩ := exec_ofTrack ho h
  refine ⟨fun i h0 hp => ?_, fun i hi j hj hpi hpj => ?_⟩
  · have hi : i ≠ be := by
      rintro rfl
      exact hp ((hs.pid_eq h0 hp).symm.trans hbe)
    rw [hother i hi, hs.others i h0 hp]
  · rw [hpid] at hpi hpj
    exact hs.once i hi j hj hpi hpj

/-! ## 2. The try block -/

/-- Wherever the try block is left, at most the entry of this process has changed. -/
theorem wp_queryStartTry_solo [CDouble D] (hp : p ≠ 0) (q : QueryDescPtr)
    (hs : Trying srv p s₀ s) :
    (soloContract srv p).wp true (queryStartTry srv p q) (fun _ _ => True) (Trying srv p s₀) s := by
  refine Contract.wp_bind (Contract.wp_mono (wp_pwhGetOrCreateMyBackendEntryImpl hp s) ?_ ?_)
  · intro entry t _ hlook
    have ht := hs.of_lookup hlook
    cases entry with
    | none => exact Contract.seq_ret fun _ => trivial
    | some be =>
      refine Contract.wp_mono (Contract.wp_of_all (trackQuery_all be q) (Contract.seq_stable
        fun t => Trying srv p s₀ t ∧ t.pid be = p) ?_ ⟨ht, hlook.pid_eq⟩) (fun _ _ _ _ => trivial)
        fun _ _ h => h.1
      rintro o t r t' ho - ⟨ht, hbe⟩ - ⟨e, he⟩
      exact ⟨trivial, trivial, ht.of_exec hbe ho he, ((exec_ofTrack ho he).2 be).trans hbe⟩
  · rintro t - ⟨-, ht | ⟨r, ht⟩⟩
    · exact hs.of_entries ht
    · exact hs.of_lookup ht

/-- It enters no catch block. -/
theorem queryStartTry_marksNoExit [CDouble D] (q : QueryDescPtr) :
    (queryStartTry srv p q).All fun o => o ≠ .mark .exitScan := by
  refine Prog.All.bind (act_all nofun fun _ => (searchSlots_all true _ _ _).mono ?_) fun entry => ?_
  · rintro o ho rfl
    exact ho
  · cases entry with
    | none => trivial
    | some be =>
      refine (trackQuery_all be q).mono ?_
      rintro o ho rfl
      exact ho

/-! ## 3. The catch block -/

/-- The slot has been given back, under the lock. -/
structure GivenBack (srv : Server D) (p : Pid) (s₀ t : State D) : Prop where
  gone : ∀ i < srv.gucs.maxTrackedQueries, t.pid i ≠ p
  current : (t.backends p).currentQueryDesc = none
  lock : t.entrySearchLock = { exclusive := some p }
  others : ∀ i, s₀.pid i ≠ 0 → s₀.pid i ≠ p → t.entries i = s₀.entries i

/-- The search of the exit callback finds the slot, if there is one. -/
theorem wp_releaseFirst_solo (hp : p ≠ 0) :
    ∀ k i (s : State D), i + k = srv.gucs.maxTrackedQueries →
      Trying srv p s₀ s → (∀ j < i, s.pid j ≠ p) → (s.backends p).currentQueryDesc = none →
      s.entrySearchLock = { exclusive := some p } →
      (soloContract srv p).wp false (releaseFirst p k i) (fun _ => GivenBack srv p s₀)
        (fun _ => True) s
  | 0, i, s, hik, hs, hpass, hcur, hlock => by
    obtain rfl : i = srv.gucs.maxTrackedQueries := hik
    exact Contract.seq_ret fun _ => ⟨hpass, hcur, hlock, hs.others⟩
  | k + 1, i, s, hik, hs, hpass, hcur, hlock => by
    rw [releaseFirst]
    refine wp_solo_op (by simp) fun e r t he => ?_
    cases he
    split
    · rename_i hmine
      refine wp_solo_op (by simp) fun e r t he => ?_
      cases he
      refine wp_solo_op (by simp) fun e r t he => ?_
      cases he
      have hpid : ∀ j ≠ i, j < srv.gucs.maxTrackedQueries → s.pid j ≠ p := fun j hj hlt h =>
        hj (hs.once j hlt i (by omega) h hmine)
      refine Contract.seq_ret fun _ => ⟨fun j hj => ?_, ?_, hlock, fun j h0 hne => ?_⟩
      · by_cases hji : j = i
        · subst hji
          simpa [State.pid] using Ne.symm hp
        · simpa [State.pid, State.entries_modifyEntry_of_ne _ _ hji] using hpid j hji hj
      · simpa using hcur
      · have hji : j ≠ i := by
          rintro rfl
          exact hne ((hs.pid_eq h0 hne).symm.trans hmine)
        simp only [State.entries_modifyEntry_of_ne _ _ hji, State.entries_modifyBackend]
        exact hs.others j h0 hne
    · rename_i hnot
      refine wp_releaseFirst_solo hp k (i + 1) s (by omega) hs (fun j hj => ?_) hcur hlock
      rcases Nat.lt_succ_iff_lt_or_eq.mp hj with hj | rfl
      · exact hpass j hj
      · exact hnot

/-- **The catch block** leaves nothing tracked. -/
theorem wp_queryStartCatch_solo (hp : p ≠ 0) (hs : Trying srv p s₀ s) :
    (soloContract srv p).wp false (queryStartCatch srv p) (fun _ => TracksNothing srv p s₀)
      (fun _ => True) s := by
  refine wp_solo_op (by simp) fun e r t he => ?_
  cases he
  rw [backendExitCallback, pwhLwlockAcquire_bind]
  refine wp_solo_op (by simp) fun e r t he => ?_
  obtain ⟨lock, hlock, ht⟩ := Option.map_eq_some_iff.mp he
  cases ht
  obtain ⟨hfree, hlock⟩ := Option.ite_none_right_eq_some.mp hlock
  cases hlock
  have hempty : s.entrySearchLock.shared = [] := hfree.2
  refine Contract.wp_bind (Contract.wp_mono (wp_releaseFirst_solo hp _ 0 _ (Nat.zero_add _)
    (hs.of_entries rfl) (by simp) ?_ ?_) (fun _ u _ hu => ?_) fun _ _ _ => trivial)
  · simp
  · simp [hempty]
  · refine wp_solo_op (by simp) fun e r t he => ?_
    cases he
    rw [pwhLwlockRelease_bind]
    refine wp_solo_op (by simp) fun e held t he => ?_
    have hrelease : (u.record p .exitScan).entrySearchLock.release p = some {} := by
      simp [State.record, hu.lock, LWLock.release]
    simp only [exec, hrelease] at he
    cases he
    refine wp_solo_op (by simp) fun e r t he => ?_
    cases he
    refine Contract.seq_ret fun _ => ⟨hu.gone, ?_, ?_, hu.others, ?_⟩
    · simpa [State.record] using hu.current
    · rintro v (h | h) <;> simp at h
    · simp

/-! ## 4. The hooks -/

/-- The mark of the exit callback. -/
def Op.isExitScan : Op D → Bool
  | .mark .exitScan => true
  | _ => false

/-- The contract of a process that runs alone, with a note of whether its exit callback has
searched the table. -/
abbrev startContract (srv : Server D) (p : Pid) : Contract (Res (D := D)) (State D × Bool) :=
  .noting (exec srv p) (fun x scanned => scanned || x.1.isExitScan) fun _ _ => True

/-- The catch block was not entered, or has done its work. -/
def CaughtWell (srv : Server D) (p : Pid) (s₀ : State D) (x : State D × Bool) : Prop :=
  x.2 = true → TracksNothing srv p s₀ x.1

variable {α : Type} {b : Bool}

/-- The note does not matter to what a program does. -/
theorem wp_start_of_solo {g : PgProg D α} {Q : α → State D → Prop} {E : State D → Prop}
    (h : (soloContract srv p).wp m g Q E s) :
    (startContract srv p).wp m g (fun a x => Q a x.1) (fun x => E x.1) (s, b) := by
  have habs : (startContract srv p).Abstracts Prod.fst (soloContract srv p) :=
    ⟨fun h => congrArg Prod.fst h, Iff.rfl, fun h => h, fun ⟨e, he, _⟩ => ⟨e, he⟩, fun _ h => h⟩
  exact Contract.wp_of_abstracts habs h

/-- One operation. -/
theorem wp_start_op {o : Op D} {k : Res o → PgProg D α} {Q : α → State D × Bool → Prop}
    {E : State D × Bool → Prop} (ho : o.isExitScan = false)
    (h : ∀ e r t, exec srv p o e s = some (r, t) →
      (startContract srv p).wp false (k r) Q E (t, b)) :
    (startContract srv p).wp false (act o >>= k) Q E (s, b) := by
  refine Contract.seq_op nofun (fun _ => trivial) ?_
  rintro - r ⟨t, b'⟩ ⟨e, he, hb⟩
  simp only [ho, Bool.or_false] at hb
  subst hb
  exact ⟨trivial, h e r t he⟩

variable [CDouble D]

/-- The try block with its catch block. -/
theorem wp_queryStart_start (hp : p ≠ 0) (q : QueryDescPtr) (hs : Trying srv p s₀ s) :
    (startContract srv p).wp false (pgTryCatch (queryStartTry srv p q) (queryStartCatch srv p))
      (fun _ => CaughtWell srv p s₀) (fun _ => True) (s, false) := by
  have hnot : ∀ (o : Op D) (x : State D × Bool) r y, o ≠ .mark .exitScan → True → x.2 = false →
      (startContract srv p).sem o x r y → y.2 = false := by
    rintro o ⟨t, b⟩ r ⟨t', b'⟩ ho - rfl ⟨e, -, rfl⟩
    cases o
    case mark m => cases m <;> first | rfl | exact absurd rfl ho
    all_goals rfl
  have htry := Contract.wp_frame (queryStartTry_marksNoExit q)
    (Contract.seq_stable fun x => x.2 = false) hnot
    (wp_start_of_solo (b := false) (wp_queryStartTry_solo hp q hs)) rfl
  refine Contract.wp_catching (Contract.wp_mono (Contract.wp_faulty
    (E := fun x => Trying srv p s₀ x.1) (Contract.seq_stable _) ?_
    (Contract.wp_mono htry (fun _ _ _ h => h) fun _ _ h => h.1)) ?_ ?_) nofun
  · rintro ⟨t, b⟩ raised ⟨t', b'⟩ - ht ⟨e, he, hb⟩
    simp only [Op.isExitScan, Bool.or_false] at hb
    subst hb
    refine ⟨trivial, trivial, fun hr => ?_, fun _ => ht.of_entries ?_⟩
    · exact Prod.ext (raisesHere_false ⟨e, he⟩ hr) rfl
    · cases he
      cases e.raises <;> rfl
  · rintro _ x - ⟨-, hx⟩ hentered
    exact absurd hx (by simp [hentered])
  · rintro ⟨t, b⟩ - ht
    exact Contract.wp_mono (wp_start_of_solo (wp_queryStartCatch_solo hp ht))
      (fun _ x _ hx _ => hx) fun _ _ _ => trivial

theorem wp_queryStartHook_start (hp : p ≠ 0) (q : QueryDescPtr)
    (hunique : ∀ i < srv.gucs.maxTrackedQueries, ∀ j < srv.gucs.maxTrackedQueries,
      s.pid i ≠ 0 → s.pid i = s.pid j → i = j) :
    (startContract srv p).wp false (queryStartHook srv p q) (fun _ => CaughtWell srv p s)
      (fun _ => True) (s, false) := by
  have htry : ∀ t, t.entries = s.entries → (startContract srv p).wp false
      (pgTryCatch (queryStartTry srv p q) (queryStartCatch srv p)) (fun _ => CaughtWell srv p s)
      (fun _ => True) (t, false) := by
    intro t ht
    have hpid : ∀ i, t.pid i = s.pid i := fun i => by rw [State.pid, ht, State.pid]
    refine wp_queryStart_start hp q ⟨fun i _ _ => by rw [ht], fun i hi j hj hpi hpj => ?_⟩
    rw [hpid] at hpi hpj
    exact hunique i hi j hj (hpi ▸ hp) (hpi.trans hpj.symm)
  have hret : ∀ t : State D, (startContract srv p).wp false (.ret () : PgProg D Unit)
      (fun _ => CaughtWell srv p s) (fun _ => True) (t, false) :=
    fun t => Contract.seq_ret fun _ h => by cases h
  unfold queryStartHook
  refine wp_start_op rfl fun e r t₁ h₁ => ?_
  cases h₁
  refine wp_start_op rfl fun e enabled t₂ h₂ => ?_
  cases h₂
  split
  swap
  · exact hret _
  refine wp_start_op rfl fun e minCost t₃ h₃ => ?_
  cases h₃
  split
  · exact hret _
  refine wp_start_op rfl fun e initialized t₄ h₄ => ?_
  cases h₄
  unfold pgWhen
  split
  · rw [initializeStateOncePerBackend]
    refine wp_start_op rfl fun e r t₅ h₅ => ?_
    cases h₅
    refine wp_start_op rfl fun e r t₆ h₆ => ?_
    cases h₆
    refine wp_start_op rfl fun e r t₇ h₇ => ?_
    cases h₇
    refine wp_start_op rfl fun e r t₈ h₈ => ?_
    cases h₈
    exact htry _ rfl
  · exact htry _ rfl

/-- The end hook of a process that is not initialized does not touch the table. -/
theorem queryEndHook_entries (q : QueryDescPtr) {es : List (Env D)}
    {done : List (Op D × State D)} {rest : PgProg D Unit} {t : State D}
    (hs : (s.backends p).wasBackendInitialized = false)
    (h : (queryEndHook srv p q).steps (exec srv p) es s = some (done, rest, t)) :
    t.entries = s.entries := by
  let K : Contract (Res (D := D)) (State D) := .sequential (fun o s r t =>
    ∃ e, exec srv p o e s = some (r, t)) (fun t => t.entries = s.entries) fun _ _ => True
  have hwp : K.wp false (queryEndHook srv p q) (fun _ _ => True) (fun _ => True) s := by
    refine Contract.seq_op nofun (fun _ => trivial) ?_
    rintro - enabled _ ⟨e, ⟨⟩⟩
    refine ⟨rfl, Contract.seq_op nofun (fun _ => trivial) ?_⟩
    rintro - initialized _ ⟨e, ⟨⟩⟩
    refine ⟨rfl, ?_⟩
    change K.wp false (pgWhen ((s.backends p).isEnabled && (s.backends p).wasBackendInitialized)
      (pgTryCatch (queryEndTry srv p q) (queryEndCatch q)) >>= fun _ =>
        act (.standardExecutorEnd q)) _ _ s
    rw [hs, Bool.and_false]
    change K.wp false (act (.standardExecutorEnd q)) _ _ s
    refine Contract.seq_op nofun (fun _ => trivial) ?_
    rintro - r _ ⟨e, ⟨⟩⟩
    exact ⟨rfl, Contract.seq_ret fun _ => trivial⟩
  exact Contract.seq_steps (fun t => t.entries = s.entries) hwp rfl h

/-- **A failed start tracks nothing**, and the end of its query changes nothing in the table. -/
theorem failed_start_tracks_nothing {q : QueryDescPtr} {done : List (Op D × State D)} {t : State D}
    (h : FailedStart srv p q s done t) :
    TracksNothing srv p s t ∧ ∀ es done' rest u,
      (queryEndHook srv p q).steps (exec srv p) es t = some (done', rest, u) →
        u.entries = t.entries := by
  obtain ⟨es, hsteps⟩ := h.runs
  have hcaught := Contract.noting_steps (wp_queryStartHook_start h.isBackend q h.unique) hsteps
  have hscanned : ∀ (l : List (Op D × State D)) b, (∃ u, (.mark .exitScan, u) ∈ l) ∨ b = true →
      l.foldl (fun scanned x => scanned || x.1.isExitScan) b = true := by
    intro l
    induction l with
    | nil =>
      rintro b (⟨u, hu⟩ | hb)
      · cases hu
      · exact hb
    | cons x l ih =>
      rintro b (⟨u, hu⟩ | rfl)
      · refine ih _ ?_
        rcases List.mem_cons.mp hu with rfl | hu
        · exact .inr (Bool.or_true b)
        · exact .inl ⟨u, hu⟩
      · exact ih _ (.inr rfl)
  have hnothing := hcaught _ rfl trivial (hscanned done false (.inl h.failed))
  exact ⟨hnothing, fun es done' rest u hu => queryEndHook_entries q hnothing.uninitialized hu⟩

end Try

/-! ## 5. A stack that is too deep for the topology -/

/-- Process 1 alone, with tracking on. -/
def enabledBackend : State ℚ :=
  (State.init : State ℚ).modifyBackend 1 fun b => { b with isAlive := true, isEnabled := true }

/-- The start hook of query 10 while `check_stack_depth` admits no call. -/
def deepStart : Option (List (Op ℚ × State ℚ) × PgProg ℚ Unit × State ℚ) :=
  (queryStartHook smallServer 1 10).steps (exec smallServer 1)
    (List.replicate 34 { stackFrames := 0 }) enabledBackend

/-- It has returned, through its catch block. -/
def hasCaught (x : List (Op ℚ × State ℚ) × PgProg ℚ Unit × State ℚ) : Bool :=
  (x.1.any fun y => y.1.isExitScan) && match x.2.1 with | .ret _ => true | _ => false

theorem failedStart_of_hasCaught {x : List (Op ℚ × State ℚ) × PgProg ℚ Unit × State ℚ}
    (hx : deepStart = some x) (h : hasCaught x = true) :
    FailedStart smallServer 1 10 enabledBackend x.1 x.2.2 := by
  obtain ⟨done, rest, t⟩ := x
  obtain ⟨hfailed, hrest⟩ := Bool.and_eq_true_iff.mp h
  refine ⟨by decide, fun i _ j _ h0 => absurd rfl h0, ?_, ?_⟩
  · cases rest with
    | ret _ => exact ⟨_, hx⟩
    | _ => cases hrest
  · obtain ⟨⟨o, u⟩, hmem, ho⟩ := List.any_eq_true.mp hfailed
    cases o with
    | mark m =>
      cases m with
      | exitScan => exact ⟨u, hmem⟩
      | _ => cases ho
    | _ => cases ho

set_option maxRecDepth 10000 in
theorem deepStart_tracks_nothing : ∃ done t, FailedStart smallServer 1 10 enabledBackend done t ∧
    TracksNothing smallServer 1 enabledBackend t := by
  obtain ⟨x, hx, hcaught⟩ := (Option.any_eq_true hasCaught deepStart).mp (by decide)
  have hfailed := failedStart_of_hasCaught hx hcaught
  exact ⟨_, _, hfailed, (failed_start_tracks_nothing hfailed).1⟩

end WhatIsHappening
