/-
# The runs of one process

The calls that only read, the signal handler, and the rule for runs: what a watch grants at every
event of a run (`Watch.ok`) makes its properties hold in every configuration (`own_holds`).
-/
import WhatIsHappening.Backend.Calls

namespace WhatIsHappening

open Interleaving Prog

variable {D : Type} {α : Type} {W : Watch} {srv : Server D} {p : Pid} {v : View D}
  {E : View D → Prop}

/-! ## 1. The readers

They change nothing that the view of their process has, so each of them has one rule: the view stays
as it is. -/

section Readers

/-- A program of quiet operations that raises no error. -/
theorem wp_view_readOnly {prog : PgProg D α} (hall : prog.All (Op.LeavesView p))
    (hn : prog.NoRaise) :
    (viewContract W srv p).wp false prog (fun _ v' => v' = v) E v :=
  Contract.wp_noRaise hn (wp_view_quiet hall)

/-- A read of an entry. -/
theorem Op.ReadsEntry.leavesView {o : Op D} (h : o.ReadsEntry) : o.LeavesView p := by
  cases o <;> first | exact ⟨fun _ _ => rfl, fun _ _ _ => trivial⟩ | exact h.elim

/-- The shared lock is given back as it was. -/
theorem release_of_acquire_shared {l l' : LWLock} (h : l.acquire .LW_SHARED p = some l') :
    l'.release p = some l := by
  obtain ⟨exclusive, shared⟩ := l
  obtain ⟨rfl, h⟩ := Option.ite_none_right_eq_some.mp h
  cases h
  simp [LWLock.release]

/-- `pwh_get_backend_entry` takes the lock and gives it back. -/
theorem wp_getBackendEntry {i : Nat} {f : Option Nat → PgProg D α} {Q : α → View D → Prop}
    (h : ∀ be, (viewContract W srv p).wp false (f be) Q E v) :
    (viewContract W srv p).wp false (pwhGetBackendEntry srv i >>= f) Q E v := by
  refine Contract.wp_bind (Contract.wp_mono (Q := fun _ v' => v' = v) ?_
    (fun be _ _ hv => hv ▸ h be) fun _ _ h => h)
  unfold pwhGetBackendEntry
  split
  · exact Contract.seq_ret fun _ => rfl
  · refine wp_view_acquire nofun fun l hl => ?_
    refine wp_view_release (release_of_acquire_shared hl) nofun ?_
    exact Contract.seq_ret fun _ => rfl

/-- The loop over the orphaned slots releases none of a live process. -/
theorem wp_cleanupOrphanedSlots (hp : p ≠ 0) (halive : v.isAlive = true) :
    ∀ k i n, (viewContract W srv p).wp false (cleanupOrphanedSlots srv k i n)
      (fun _ v' => v' = v) E v
  | 0, _, _ => Contract.seq_ret fun _ => rfl
  | k + 1, i, n => by
    unfold cleanupOrphanedSlots
    refine wp_getBackendEntry fun _ => ?_
    rw [pwhIsBackendEntryActive_bind]
    refine wp_view_read (by simp) (fun _ => rfl) (fun _ => trivial) fun _ _ _ _ => ?_
    split
    swap
    · exact wp_cleanupOrphanedSlots hp halive k (i + 1) n
    refine wp_view_read (by simp) (fun _ => rfl) (fun _ => trivial) fun pid _ _ hpid => ?_
    have hpid : pid = p ↔ v.slot i ≠ none := hpid
    refine wp_view_read (o := .kill pid .null) (by simp) (fun _ => rfl) (fun _ => trivial)
      fun exists_ _ _ hexists => ?_
    have hexists : pid = p → v.isAlive = true → exists_ = true := hexists
    split
    · exact wp_cleanupOrphanedSlots hp halive k (i + 1) n
    · rename_i hgone
      have hnone : v.slot i = none := by
        by_contra hslot
        exact hgone (hexists (hpid.mpr hslot) halive)
      refine wp_view_read (by simp) (fun hd => ?_) (fun _ _ => .inl rfl) fun _ _ _ _ => ?_
      · simp [View.after, Ne.symm hp, ← hnone]
      refine wp_view_read (by simp) (fun _ => rfl) (fun _ => trivial) fun _ _ _ _ => ?_
      exact wp_cleanupOrphanedSlots hp halive k (i + 1) (n + 1)

/-- The poll signals others. -/
theorem wp_requestBackendMetrics : ∀ k i n,
    (viewContract W srv p).wp false (requestBackendMetrics k i n) (fun _ v' => v' = v) E v
  | 0, _, _ => Contract.seq_ret fun _ => rfl
  | k + 1, i, n => by
    unfold requestBackendMetrics
    refine wp_view_read (by simp) (fun _ => rfl) (fun _ => trivial) fun _ _ _ _ => ?_
    split
    swap
    · exact wp_requestBackendMetrics k (i + 1) n
    refine wp_view_read (by simp) (fun _ => rfl) (fun _ => trivial) fun pid _ _ _ => ?_
    refine wp_view_read (o := .kill pid .SIGUSR2) (by simp) (fun _ => rfl) (fun _ => trivial)
      fun ok _ _ _ => ?_
    split <;> exact wp_requestBackendMetrics k (i + 1) _

variable [CDouble D]

/-- The page is printed from what is read. -/
theorem wp_formatEntries : ∀ k i buf,
    (viewContract W srv p).wp false (formatEntries srv k i buf) (fun _ v' => v' = v) E v
  | 0, _, _ => Contract.seq_ret fun _ => rfl
  | k + 1, i, buf => by
    unfold formatEntries
    refine wp_getBackendEntry fun _ => ?_
    refine wp_view_read (by simp) (fun _ => rfl) (fun _ => trivial) fun _ _ _ _ => ?_
    rw [pwhIsBackendEntryActive_bind]
    refine wp_view_read (by simp) (fun _ => rfl) (fun _ => trivial) fun _ _ _ _ => ?_
    split
    · refine Contract.wp_bind (Contract.wp_mono (wp_view_readOnly
        (formatEntry_all (fun _ h => h.leavesView) (fun _ => ⟨fun _ _ => rfl, fun _ _ _ => trivial⟩)
          _ i buf) ?_) ?_ fun _ _ h => h)
      · exact formatEntry_noRaise _ i buf
      · rintro buf w - hw
        obtain rfl := hw.symm
        exact wp_formatEntries k (i + 1) buf
    · refine wp_view_read (by simp) (fun _ => rfl) (fun _ => trivial) fun _ _ _ _ => ?_
      exact wp_formatEntries k (i + 1) buf

/-- The function scan. -/
theorem wp_v1StatusLoop : ∀ k slotIdx nodeIdx,
    (viewContract W srv p).wp false (v1StatusLoop srv k slotIdx nodeIdx) (fun _ v' => v' = v) E v
  | 0, _, _ =>
    wp_view_read nofun (fun _ => rfl) (fun _ => trivial) fun _ _ _ _ =>
      Contract.seq_ret fun _ => rfl
  | k + 1, slotIdx, nodeIdx => by
    unfold v1StatusLoop
    refine wp_getBackendEntry fun _ => ?_
    refine wp_view_read nofun (fun _ => rfl) (fun _ => trivial) fun _ _ _ _ => ?_
    refine Contract.wp_bind (Contract.wp_mono (Q := fun _ v' => v' = v) ?_ ?_ fun _ _ h => h)
    · unfold isNodeCounted
      rw [pwhIsBackendEntryActive_bind]
      refine wp_view_read nofun (fun _ => rfl) (fun _ => trivial) fun _ _ _ _ => ?_
      split
      · exact wp_view_read nofun (fun _ => rfl) (fun _ => trivial) fun _ _ _ _ =>
          Contract.seq_ret fun _ => rfl
      · exact Contract.seq_ret fun _ => rfl
    rintro counted w - hw
    obtain rfl := hw.symm
    split
    · refine Contract.wp_bind (Contract.wp_mono (wp_view_readOnly
        ((sumTotalQueryTime_all _).mono fun _ h => h.leavesView) (sumTotalQueryTime_noRaise _)) ?_
        fun _ _ h => h)
      rintro total w - hw
      obtain rfl := hw.symm
      refine Contract.wp_bind (Contract.wp_mono (wp_view_readOnly
        ((pwhFillV1StatusTuple_all (P := Op.ReadsEntry) (fun _ => trivial) trivial trivial trivial
          total).mono fun _ h => h.leavesView) (pwhFillV1StatusTuple_noRaise _ _ _)) ?_
        fun _ _ h => h)
      rintro row w - hw
      obtain rfl := hw.symm
      refine wp_view_read nofun (fun _ => rfl) (fun _ => trivial) fun _ _ _ _ => ?_
      exact wp_view_read nofun (fun _ => rfl) (fun _ => trivial) fun _ _ _ _ =>
        Contract.seq_ret fun _ => rfl
    · refine wp_view_read nofun (fun _ => rfl) (fun _ => trivial) fun _ _ _ _ => ?_
      refine wp_view_read nofun (fun _ => rfl) (fun _ => trivial) fun _ _ _ _ => ?_
      exact wp_v1StatusLoop k _ 0

/-- A call of `v1_status_f` changes nothing of the process. -/
theorem wp_v1StatusF :
    (viewContract W srv p).wp false (v1StatusF srv) (fun _ v' => v' = v) E v := by
  unfold v1StatusF
  refine wp_view_read nofun (fun _ => rfl) (fun _ => trivial) fun scan _ _ _ => ?_
  rcases scan with _ | ⟨slotIdx, nodeIdx⟩
  · refine Contract.wp_bind (Contract.wp_mono (Q := fun _ v' => v' = v) ?_ ?_ fun _ _ h => h)
    · refine wp_view_acquire nofun fun l hl => ?_
      refine Contract.wp_bind (Contract.wp_mono (wp_requestBackendMetrics _ _ _) ?_ fun _ _ h => h)
      rintro _ _ - rfl
      refine wp_view_release (release_of_acquire_shared hl) nofun ?_
      exact wp_view_read nofun (fun _ => rfl) (fun _ => trivial) fun _ _ _ _ =>
        Contract.seq_ret fun _ => rfl
    · rintro _ _ - rfl
      exact wp_v1StatusLoop _ _ _
  · exact wp_v1StatusLoop _ _ _

/-- Nor does a request to the endpoint. -/
theorem wp_metricsHandler (hp : p ≠ 0) (halive : v.isAlive = true) (palloced : Nat → UInt8)
    (req : HttpRequest) :
    (viewContract W srv p).wp false (metricsHandler srv palloced req) (fun _ v' => v' = v) E v := by
  unfold metricsHandler
  split
  · exact Contract.seq_ret fun _ => rfl
  refine wp_view_acquire nofun fun l hl => ?_
  refine Contract.wp_bind (Contract.wp_mono (wp_cleanupOrphanedSlots hp
    (show (v.withLock l).isAlive = true from halive) _ _ _) ?_
    fun _ _ h => h)
  rintro _ _ - rfl
  refine Contract.wp_bind (Contract.wp_mono (wp_requestBackendMetrics _ _ _) ?_ fun _ _ h => h)
  rintro _ _ - rfl
  unfold pwhFormatOpenmetrics
  rw [Prog.bind_assoc]
  refine Contract.wp_bind (Contract.wp_mono (wp_formatEntries _ _ _) ?_ fun _ _ h => h)
  rintro _ _ - rfl
  refine wp_view_release (release_of_acquire_shared hl) nofun ?_
  exact Contract.seq_ret fun _ => rfl

end Readers

/-! ## 2. The signal handler

It interrupts a process anywhere, and finds the slot of the process in the view it is called with;
its walk is along the tree that this slot was filled with. -/

section Handler

variable [CDouble D]

/-- What a run grants when a signal is delivered. -/
def Watch.interruptOk (W : Watch) (srv : Server D) (v : View D) : Prop :=
  W.numbers = true → v.isRecording = true → ∀ q, v.current = some q →
    (srv.queryDesc q).planstate = none

omit [CDouble D] in
/-- The slot the handler finds is one of ours. -/
theorem wp_findMySlot {m : Bool} (hE : m = true → E v) : ∀ k i,
    (viewContract W srv p).wp m (findMySlot p k i)
      (fun r v' => v' = v ∧ ∀ be, r = some be → v.slot be ≠ none) E v
  | 0, _ => Contract.seq_ret fun _ => ⟨rfl, nofun⟩
  | k + 1, i => by
    unfold findMySlot
    refine wp_view_read hE (fun _ => rfl) (fun _ => trivial) fun pid _ _ hpid => ?_
    have hpid : pid = p ↔ v.slot i ≠ none := hpid
    split
    · rename_i h
      refine Contract.seq_ret fun _ => ⟨rfl, ?_⟩
      rintro be ⟨⟩
      exact hpid.mp h
    · exact wp_findMySlot hE k (i + 1)

/-- **The signal handler** changes nothing of the process, and measures the recorded tree. -/
theorem wp_pwhSigusr2Handler (hi : W.Inv srv p v) (hok : W.interruptOk srv v) :
    (viewContract W srv p).wp false (pwhSigusr2Handler srv p) (fun _ v' => v' = v)
      (fun v' => v' = v) v := by
  unfold pwhSigusr2Handler
  refine wp_view_read nofun (fun _ => rfl) (fun _ => trivial) fun current _ _ hcur => ?_
  have hcur : current = v.current := hcur
  subst hcur
  cases hq : v.current with
  | none => exact Contract.seq_ret fun _ => rfl
  | some q =>
    cases hps : (srv.queryDesc q).planstate with
    | none =>
      simp only [hps]
      exact Contract.seq_ret fun _ => rfl
    | some ps =>
      simp only [hps]
      refine Contract.wp_bind (Contract.wp_mono (wp_findMySlot nofun _ _) ?_ fun _ _ h => h)
      rintro be w - ⟨hw, hbe⟩
      obtain rfl := hw.symm
      cases be with
      | none => exact Contract.seq_ret fun _ => rfl
      | some be =>
        refine Contract.wp_bind (Contract.wp_mono (wp_collect (E := fun t => t = v) (fun _ => rfl)
          (absurd · Bool.false_ne_true) fun hn => ?_) ?_ fun _ _ h => h)
        · have hrec : v.isRecording = false := by
            by_contra hr
            exact absurd (hps.symm.trans (hok hn (eq_true_of_ne_false hr) q hq)) nofun
          obtain ⟨htree, hnode⟩ := hi.numbers hn hrec q be hq (hbe be rfl)
          exact ⟨q, htree, hps, hnode⟩
        · rintro _ _ - rfl
          exact wp_view_read nofun (fun _ => rfl) (fun _ => trivial) fun _ _ _ _ =>
            Contract.seq_ret fun _ => rfl

/-- The signal, with whatever its handler does. -/
theorem wp_deliverSigusr2 (hi : W.Inv srv p v) (hok : W.interruptOk srv v) :
    (viewContract W srv p).wp false (deliverSigusr2 srv p) (fun _ v' => v' = v)
      (fun _ => False) v := by
  refine wp_view_read nofun (fun _ => rfl) (fun _ => trivial) fun _ _ _ _ => ?_
  refine Contract.wp_bind (Contract.wp_mono (Contract.wp_catching (Q := fun _ v' => v' = v)
    (E := fun _ => False) ?_ nofun) ?_ fun _ _ h => h)
  · refine Contract.wp_mono (wp_pwhSigusr2Handler hi hok) (fun _ _ _ h => h) ?_
    rintro _ _ rfl
    exact Contract.seq_ret fun _ => rfl
  · rintro _ _ - rfl
    exact wp_view_read nofun (fun _ => rfl) (fun _ => trivial) fun _ _ _ _ =>
      Contract.seq_ret fun _ => rfl

end Handler

/-! ## 3. The rule for runs

What a run grants at every call, interrupt and step of the process, and what then holds of its view
in every configuration. -/

section Runs

variable [CDouble D]

/-- What a watch grants at each event of a run. -/
def Watch.ok (W : Watch) (srv : Server D) (p : Pid) (c : Config Unit (State D) (Res (D := D))) :
    Event Unit (Call D) (ForeignWrite D) (Env D) → Prop
  | .run _ e => ∀ o k, c.thread () = .op o k → W.admits srv e (c.shared.view p) o
  | .call _ cl => W.callOk srv (c.shared.view p) cl
  | .interrupt _ => W.interruptOk srv (c.shared.view p)
  | .external _ => True

/-- A process that is forked has no slot yet. -/
theorem wp_fork {enabled : Bool} {minCost : D} (h : Idle W srv p v) (hdead : v.isAlive = false)
    (hok : W.callOk srv v (.fork enabled minCost)) :
    (viewContract W srv p).wp false (act (.fork enabled minCost)) (fun _ => Idle W srv p) E v := by
  have hno : v.NoSlot := fun i => by
    by_contra hi
    exact absurd ((h.core.ready i hi).2.symm.trans hdead) nofun
  refine wp_view_op nofun (fun _ => trivial) fun hi _ _ hd _ _ =>
    ⟨⟨fun _ _ hq => (nomatch hq), fun _ _ _ _ hq => (nomatch hq),
      fun _ _ _ _ _ hq => (nomatch hq)⟩, Contract.seq_ret fun _ => ?_⟩
  refine ⟨.noSlot hno h.core.lock nofun rfl rfl List.nodup_nil, fun _ _ => hno, fun hc => ?_⟩
  exact ⟨fun _ => hok hc, nofun, nofun, fun hne => absurd rfl hne, fun i hi => absurd (hno i) hi⟩

/-- The settings of the process are none of the slot's concern. -/
theorem wp_reload {enabled : Bool} {minCost : D} (h : Idle W srv p v)
    (hok : W.callOk srv v (.reload enabled minCost)) :
    (viewContract W srv p).wp false (act (.reload enabled minCost)) (fun _ => Idle W srv p) E v :=
  wp_view_op nofun (fun _ => trivial) fun hi _ _ _ _ _ =>
    ⟨⟨hi.live, hi.numbers, hi.shown⟩, Contract.seq_ret fun _ =>
      ⟨⟨⟨h.core.slots.lt, h.core.slots.unique⟩, h.core.lock, h.core.ready, h.core.callbacks,
        h.core.notRecording, h.core.holds, h.core.shows, h.core.nodup⟩, h.tidy,
        fun hc => absurd (hc.symm.trans hok) nofun⟩⟩

/-- **Every call** keeps an idle process idle. -/
theorem wp_call (hp : p ≠ 0) {s : State D} {cl : Call D} {prog : PgProg D Unit}
    (h : Idle W srv p (s.view p)) (hok : W.callOk srv (s.view p) cl)
    (henter : enter srv p cl s = some prog) :
    (viewContract W srv p).wp false prog (fun _ => Idle W srv p) (Idle W srv p) (s.view p) := by
  obtain ⟨hadm, rfl⟩ : cl.admitted s p = true ∧ cl.program srv p = prog := by
    simpa [enter] using henter
  have hsame : ∀ {α : Type} {body : PgProg D α},
      (viewContract W srv p).wp false body (fun _ v' => v' = s.view p) (fun _ => False)
        (s.view p) →
      (viewContract W srv p).wp false (body >>= fun _ => .ret ()) (fun _ => Idle W srv p)
        (Idle W srv p) (s.view p) := by
    intro α body hbody
    refine Contract.wp_bind (Contract.wp_mono hbody ?_ fun _ _ => False.elim)
    rintro _ _ - rfl
    exact Contract.seq_ret fun _ => h
  cases cl with
  | fork enabled minCost =>
    have hdead : (s.backends p).isAlive = false := by simpa [Call.admitted, hp] using hadm
    exact wp_fork h hdead hok
  | reload enabled minCost => exact wp_reload h hok
  | executorStart q =>
    obtain ⟨halive, hq⟩ : (s.backends p).isAlive = true ∧ q ∉ (s.backends p).started := by
      simpa [Call.admitted] using hadm
    exact wp_queryStartHook hp h halive hq
  | executorEnd q =>
    exact wp_queryEndHook hp h (Bool.and_eq_true_iff.mp hadm).1 hok
  | abort event => exact wp_abort hp h hok
  | commit => exact wp_commit hp h
  | abortSub qs => exact wp_abortSub h hok
  | fetchStatus => exact hsame wp_v1StatusF
  | scrape req palloced => exact hsame (wp_metricsHandler hp hadm palloced req)
  | exit => exact wp_procExit hp h hok

/-- The contract of a process is sound for the runs its watch admits. -/
theorem own_sound (W : Watch) (srv : Server D) (hp : p ≠ 0) :
    System.Sound (backendSystem srv p) (W.ok srv p) (fun s => W.Inv srv p (s.view p))
      (fun _ => ownContract W srv p) (fun _ s => Idle W srv p (s.view p)) where
  sem_of_ok _ _ e o k _ _ hthread hok hx := ⟨e, hok o k hthread, hx⟩
  inv_eq _ := rfl
  stable _ s t h hr _ := by
    have hr : s.view p = t.view p := hr
    exact show Idle W srv p (t.view p) from hr ▸ h
  guar_rely i j _ _ _ _ _ hij := absurd rfl hij
  assume_of_ok _ _ _ _ _ _ _ := trivial
  call _ _ _ _ _ hidle hok henter :=
    Contract.wp_of_abstracts (own_abstracts W srv p) (wp_call hp hidle hok henter)
  interrupt c _ prog hinv hok hint := by
    have hprog : deliverSigusr2 srv p = prog := by
      have := hint
      simp only [backendSystem, takeSigusr2] at this
      exact (Option.ite_none_right_eq_some.mp this).2 |> Option.some.inj
    subst hprog
    refine Contract.wp_mono (Contract.wp_of_abstracts (own_abstracts W srv p)
      (wp_deliverSigusr2 hinv hok)) (fun _ t _ ht => ?_) fun _ _ h => h
    exact ht.symm
  external _ _ _ hinv _ hx := by
    have hv := ForeignWrite.view_eq hx
    exact ⟨hv ▸ hinv, fun _ => hv.symm⟩

/-- **What a watch gives**: in every configuration of every run it admits, the invariant holds,
and what the process has still to do is safe. -/
theorem own_holds (hp : p ≠ 0) {c : Config Unit (State D) (Res (D := D))}
    (h : (backendSystem srv p).Reach (W.ok srv p) backendInit c) :
    System.Sound.Holds (fun s => W.Inv srv p (s.view p)) (fun _ => ownContract W srv p)
      (fun _ s => Idle W srv p (s.view p)) c := by
  have hno : ((State.init : State D).view p).NoSlot := fun i => slot_eq_none.mpr (Ne.symm hp)
  refine System.Reach.sound (own_sound W srv hp) ?_ (fun _ => ?_) (fun _ => rfl) h
  · exact ⟨nofun, nofun, nofun⟩
  · refine ⟨.noSlot hno rfl nofun rfl rfl List.nodup_nil, fun _ _ => hno, fun _ => ?_⟩
    exact ⟨nofun, nofun, nofun, fun hne => absurd rfl hne, fun i hi => absurd (hno i) hi⟩

/-- No hook, callback or handler is in progress. -/
def isIdle (c : Config Unit (State D) (Res (D := D))) : Bool :=
  match c.thread () with
  | .op _ _ => false
  | _ => true

/-- What a watch gives between two calls. -/
theorem own_idle (hp : p ≠ 0) {c : Config Unit (State D) (Res (D := D))}
    (h : (backendSystem srv p).Reach (W.ok srv p) backendInit c) (hidle : isIdle c = true) :
    Idle W srv p (c.shared.view p) := by
  refine System.Sound.idle_of_holds (i := ()) (own_sound W srv hp) (own_holds hp h) ?_
  intro o k hthread
  simp [isIdle, hthread] at hidle

end Runs

end WhatIsHappening
