/-
# How a process measures and releases its slot

On its view: the instrumentation walk, which goes along the walk that recorded the tree, and the
functions that give the slot up.

Each function has one rule here, which says what it leaves of the view.  Where an error may strike
(`W.clean = false`) the rule also has what the view is then, and the rules of the try blocks join
the two.
-/
import WhatIsHappening.Backend.Fill

namespace WhatIsHappening

open Interleaving Prog

variable {D : Type} {α : Type} {W : Watch} {srv : Server D} {p : Pid} {m : Bool} {v : View D}
  {Q : α → View D → Prop} {E : View D → Prop}

/-! ## 1. The instrumentation walk

It leaves the view as it found it, since numbers are not a part of it.  What has to be shown is that
record `j` still is about the node the walk has come to: it goes through the same calls as the walk
that recorded the tree and stops no later (`OnTrack`, `Along`), whatever stack either of them
had. -/

section Collect

variable {be : Nat} (hE : W.clean = false → E v) (hm : m = true → W.clean = false)

/-- A measured field says nothing about which node a record is about. -/
theorem after_writeMeasure {j : Nat} {f : NodeField} {w : f.ty D} {hd : Header}
    (hf : f.identifies = false) : v.after p hd (.writeNode be j f w) = v := by
  simp only [View.after, View.modifySlot, NodeIdent.set_of_not_identifies _ _ hf,
    Function.update_eq_self]
  simp

include hE hm in
/-- The fields of a record are measured one by one. -/
theorem wp_writeMeasures {j : Nat} : ∀ ws : List (Sigma fun f : NodeField => f.ty D),
    (∀ w ∈ ws, w.1.identifies = false) →
      (viewContract W srv p).wp m (writeNodeFields be j ws) (fun _ v' => v' = v) E v
  | [], _ => Contract.seq_ret fun _ => rfl
  | w :: ws, h => by
    unfold writeNodeFields
    exact wp_view_read (fun h => hE (hm h)) (fun _ => after_writeMeasure (h w (by simp)))
      (fun _ => trivial) fun _ _ _ _ => wp_writeMeasures ws fun x hx => h x (by simp [hx])

variable [CDouble D]

/-- None of the measured fields says which node the record is about. -/
theorem instrumentationFields_identifies (instr : Instrumentation D) :
    ∀ w ∈ instrumentationFields instr, w.1.identifies = false := by
  intro w hw
  simp only [instrumentationFields, List.mem_cons, List.not_mem_nil, or_false] at hw
  rcases hw with rfl | rfl | rfl | rfl | rfl | rfl | rfl | rfl | rfl | rfl | rfl | rfl <;> rfl

include hE hm in
/-- The visitor stops the walk or gives its node the place `counter`, where it was recorded. -/
theorem wp_instrumentationVisitor {maxNodes counter : Nat} {ps : PlanStatePtr} {parentId : Int}
    (hnode : counter < maxNodes → W.numbers = true → v.node be counter = some ps) :
    (viewContract W srv p).wp m (instrumentationVisitor be maxNodes ps parentId counter)
      (fun r v' => v' = v ∧ (r.1 < 0 ∨ counter < maxNodes ∧ r = ((counter : Int), counter + 1)))
      E v := by
  have hE : m = true → E v := fun h => hE (hm h)
  unfold instrumentationVisitor
  split
  · exact Contract.seq_ret fun _ => ⟨rfl, .inl (by simp)⟩
  · rename_i hlt
    rw [pwhValidateNodeMagic_bind]
    refine wp_view_read hE (fun _ => rfl) (fun _ => trivial) fun magic _ _ _ => ?_
    split
    -- only a record with the magic of its place is written to
    · refine wp_view_read hE (fun _ => rfl) (fun _ => hnode (by omega)) fun _ _ _ _ => ?_
      refine wp_view_read hE (fun _ => rfl) (fun _ => trivial) fun instr _ _ _ => ?_
      have hdone : (viewContract W srv p).wp m (.ret ((counter : Int), counter + 1))
          (fun r v' => v' = v ∧
            (r.1 < 0 ∨ counter < maxNodes ∧ r = ((counter : Int), counter + 1))) E v :=
        Contract.seq_ret fun _ => ⟨rfl, .inr ⟨by omega, rfl⟩⟩
      cases instr with
      | none => exact hdone
      | some instr =>
        refine Contract.wp_bind (Contract.wp_mono (wp_writeMeasures ‹_› hm _
          (instrumentationFields_identifies instr)) ?_ fun _ _ h => h)
        rintro _ _ - rfl
        exact hdone
    · exact Contract.seq_ret fun _ => ⟨rfl, .inl (by simp)⟩

/-- The walk that recorded `all` goes through here: from `counter`, below `call`. -/
def OnTrack (W : Watch) (all : Visited) (visit : Visited → Option (Bool × Visited))
    (acc : Visited) (counter : Nat) : Prop :=
  W.numbers = true → counter = acc.length ∧
    ∃ goOn acc', visit acc = some (goOn, acc') ∧ acc' <+: all

/-- Where a walk along the recorded one stands when it goes on. -/
def Along (W : Watch) (v : View D) (visit : Visited → Option (Bool × Visited)) (acc : Visited)
    (r : Bool × Nat) (v' : View D) : Prop :=
  v' = v ∧ (r.1 = true → W.numbers = true → ∃ acc', visit acc = some (true, acc') ∧
    r.2 = acc'.length)

omit [CDouble D] in
/-- The calls below a node go along with those of the recording walk, if each of them does. -/
theorem wp_collectCalls {walk : Option PlanStatePtr → Nat → PgProg D (Bool × Nat)}
    {visit : Option PlanStatePtr → Visited → Option (Bool × Visited)} {all : Visited}
    {maxNodes : Nat} (hext : ∀ call acc r, visit call acc = some r → Extends maxNodes acc r.2)
    (hwalk : ∀ call acc counter, OnTrack W all (visit call) acc counter →
      (viewContract W srv p).wp m (walk call counter) (Along W v (visit call) acc) E v) :
    ∀ calls acc counter, OnTrack W all (visitCalls visit calls) acc counter →
      (viewContract W srv p).wp m (walkCalls walk calls counter)
        (Along W v (visitCalls visit calls) acc) E v
  | [], acc, counter, h => Contract.seq_ret fun _ => ⟨rfl, fun _ hn => ⟨acc, rfl, (h hn).1⟩⟩
  | call :: rest, acc, counter, h => by
    have hcall : OnTrack W all (visit call) acc counter := fun hn => by
      obtain ⟨hc, goOn, acc', hvisit, hpre⟩ := h hn
      refine ⟨hc, ?_⟩
      unfold visitCalls at hvisit
      split at hvisit
      · cases hvisit
      · rename_i acc₁ h₁
        exact ⟨true, acc₁, h₁, (visitCalls_extends hext _ _ _ hvisit).1.trans hpre⟩
      · rename_i acc₁ h₁
        cases hvisit
        exact ⟨false, acc', h₁, hpre⟩
    refine Contract.wp_bind (Contract.wp_mono (hwalk call acc counter hcall) ?_ fun _ _ h => h)
    rintro ⟨goOn, counter'⟩ v' - ⟨hv, halong⟩
    obtain rfl := hv.symm
    -- a walk that has stopped has nothing more to go along with
    cases goOn
    · exact Contract.seq_ret fun _ => ⟨rfl, by simp⟩
    by_cases hn : W.numbers = true
    · obtain ⟨acc₁, h₁, hc₁⟩ := halong rfl hn
      have hrest : visitCalls visit (call :: rest) acc = visitCalls visit rest acc₁ := by
        simp [visitCalls, h₁]
      have := wp_collectCalls hext hwalk rest acc₁ counter' fun hn => by
        obtain ⟨-, goOn, acc', hvisit, hpre⟩ := h hn
        exact ⟨hc₁, goOn, acc', hrest ▸ hvisit, hpre⟩
      refine Contract.wp_mono this (fun r _ _ hr => ⟨hr.1, fun h hn => ?_⟩) fun _ _ h => h
      rw [hrest]
      exact hr.2 h hn
    · refine Contract.wp_mono (wp_collectCalls hext hwalk rest acc counter'
        fun h => absurd h hn) (fun r _ _ hr => ⟨hr.1, fun _ h => absurd h hn⟩) fun _ _ h => h

include hE hm in
/-- **The instrumentation walk** goes along the walk that recorded the tree. -/
theorem wp_collectWalk {all : Visited}
    (hall : W.numbers = true → ∀ j x, all[j]? = some x → v.node be j = some x.1) :
    ∀ frames frames' ptr parentId parentId' acc counter,
      OnTrack W all (visits srv srv.gucs.maxNodesPerQuery frames' ptr parentId') acc counter →
      (viewContract W srv p).wp m
        (walkPlanstateRecursive srv (instrumentationVisitor be srv.gucs.maxNodesPerQuery) frames
          ptr parentId counter)
        (Along W v (visits srv srv.gucs.maxNodesPerQuery frames' ptr parentId') acc) E v
  | 0, _, _, _, _, _, _, _ => by
    refine wp_view_read (fun h => hE (hm h)) (fun _ => rfl) (fun _ => trivial) fun _ _ hadm _ => ?_
    exact Contract.seq_raise fun _ => hE hadm
  | frames + 1, frames', none, _, _, acc, counter, h => by
    refine Contract.seq_ret fun _ => ⟨rfl, fun _ hn => ?_⟩
    obtain ⟨hc, goOn, acc', hvisit, -⟩ := h hn
    cases frames' with
    | zero => cases hvisit
    | succ frames' => exact ⟨acc, rfl, hc⟩
  | frames + 1, frames', some ps, parentId, parentId', acc, counter, h => by
    unfold walkPlanstateRecursive
    by_cases hplan : (srv.planState ps).plan = none
    · rw [if_pos hplan]
      refine Contract.seq_ret fun _ => ⟨rfl, fun _ hn => ?_⟩
      obtain ⟨hc, goOn, acc', hvisit, -⟩ := h hn
      cases frames' with
      | zero => cases hvisit
      | succ frames' => exact ⟨acc, by simp [visits, hplan], hc⟩
    rw [if_neg hplan]
    -- the recording walk had a frame left here and went below the node too
    have hbelow : W.numbers = true → counter < srv.gucs.maxNodesPerQuery →
        visits srv srv.gucs.maxNodesPerQuery frames' (some ps) parentId' acc =
          visitCalls (fun call => visits srv srv.gucs.maxNodesPerQuery (frames' - 1) call counter)
            (childCalls (srv.planState ps)) (acc ++ [(ps, parentId')]) := fun hn hlt => by
      obtain ⟨hc, goOn, acc', hvisit, -⟩ := h hn
      cases frames' with
      | zero => cases hvisit
      | succ frames' => simp [visits, hplan, ← hc, Nat.not_le.mpr hlt]
    have hext : ∀ call acc r,
        visits srv srv.gucs.maxNodesPerQuery (frames' - 1) call counter acc = some r →
          Extends srv.gucs.maxNodesPerQuery acc r.2 := fun call acc r => visits_extends _ _ _ _ _
    have htrack : W.numbers = true → counter < srv.gucs.maxNodesPerQuery →
        counter + 1 = (acc ++ [(ps, parentId')]).length ∧ ∃ goOn acc',
          visitCalls (fun call => visits srv srv.gucs.maxNodesPerQuery (frames' - 1) call counter)
            (childCalls (srv.planState ps)) (acc ++ [(ps, parentId')]) = some (goOn, acc') ∧
          acc' <+: all := fun hn hlt => by
      obtain ⟨hc, goOn, acc', hvisit, hpre⟩ := h hn
      exact ⟨by simp [hc], goOn, acc', hbelow hn hlt ▸ hvisit, hpre⟩
    refine Contract.wp_bind (Contract.wp_mono (wp_instrumentationVisitor hE hm fun hlt hn => ?_) ?_
      fun _ _ h => h)
    · obtain ⟨hc, goOn, acc', hvisit, hpre⟩ := htrack hn hlt
      have hnode : (acc ++ [(ps, parentId')])[counter]? = some (ps, parentId') := by
        simp [(h hn).1]
      obtain ⟨rest, hrest⟩ := (visitCalls_extends hext _ _ _ hvisit).1.trans hpre
      refine hall hn counter (ps, parentId') ?_
      rw [← hrest, List.getElem?_append_left (by simp [(h hn).1]), hnode]
    · rintro r v' - ⟨hv, hr⟩
      obtain rfl := hv.symm
      -- the visitor stops the walk, or gives the node the next place
      obtain hneg | ⟨hlt, rfl⟩ := hr
      · obtain ⟨id, counter'⟩ := r
        have hneg : id < 0 := hneg
        simp only [hneg, if_true]
        exact Contract.seq_ret fun _ => ⟨rfl, by simp⟩
      · have hpos : ¬ ((counter : Int) < 0) := by omega
        simp only [hpos, if_false]
        refine Contract.wp_mono (wp_collectCalls hext (fun call acc' counter' =>
          wp_collectWalk hall frames (frames' - 1) call counter counter acc' counter')
          (childCalls (srv.planState ps)) _ (counter + 1) fun hn => htrack hn hlt) ?_
          fun _ _ h => h
        rintro r' _ - ⟨hv, hr'⟩
        refine ⟨hv, fun h hn => ?_⟩
        rw [hbelow hn hlt]
        exact hr' h hn

include hE hm in
/-- `pwh_collect_planstate_metrics` on a tree that the slot was recorded for. -/
theorem wp_collect {ps : PlanStatePtr}
    (hrec : W.numbers = true → ∃ q, v.tree be = some q ∧ (srv.queryDesc q).planstate = some ps ∧
      IsRecorded srv q (v.node be)) :
    (viewContract W srv p).wp m
      (pwhCollectPlanstateMetrics srv (some ps) be srv.gucs.maxNodesPerQuery)
      (fun _ v' => v' = v) E v := by
  have hE' : m = true → E v := fun h => hE (hm h)
  refine wp_view_read hE' (fun _ => rfl) (fun _ hn => ?_) fun _ _ _ _ => ?_
  · obtain ⟨q, htree, hps, -⟩ := hrec hn
    exact ⟨q, htree, hps⟩
  refine wp_view_read hE' (fun _ => rfl) (fun _ => trivial) fun frames _ _ _ => ?_
  have hwalk : ∃ all frames',
      (W.numbers = true → ∀ j x, all[j]? = some x → v.node be j = some x.1) ∧
      OnTrack W all (visits srv srv.gucs.maxNodesPerQuery frames' (some ps) (-1)) [] 0 := by
    by_cases hn : W.numbers = true
    · obtain ⟨q, -, hps, acc, ident, hlist, hrec⟩ := hrec hn
      simp only [ListsNodes, hps] at hlist
      obtain ⟨frames', goOn, hvisit⟩ := hlist
      exact ⟨acc, frames', fun _ j x hx => (hrec j x hx).1,
        fun _ => ⟨rfl, goOn, acc, hvisit, List.prefix_rfl⟩⟩
    · exact ⟨[], 0, fun h => absurd h hn, fun h => absurd h hn⟩
  obtain ⟨all, frames', hall, htrack⟩ := hwalk
  refine Contract.wp_bind (Contract.wp_mono (wp_collectWalk hE hm hall frames frames' (some ps)
    (-1) (-1) [] 0 htrack) ?_ fun _ _ h => h)
  rintro _ _ - ⟨rfl, -⟩
  exact Contract.seq_ret fun _ => rfl

end Collect

/-! ## 2. Releases

A process has at most one slot, so a loop that releases the first slot with its pid releases
everything it has (`dropSlots`). -/

section Release

variable {be : Nat} (hp : p ≠ 0)

/-- A process without a slot shows nothing that could be wrong. -/
theorem Watch.Inv.dropSlots (h : W.Inv srv p v) : W.Inv srv p v.dropSlots :=
  ⟨h.live, fun _ _ _ _ _ hslot => absurd rfl hslot, fun _ _ _ _ _ _ hslot => nomatch hslot⟩

/-- Nor does one without a current query. -/
theorem Watch.Inv.forget : W.Inv srv p v.forget :=
  ⟨fun _ _ hq => (nomatch hq), fun _ _ _ _ hq => (nomatch hq),
    fun _ _ _ _ _ hq => (nomatch hq)⟩

include hp in
/-- A cleared pid, where the process has no other slot. -/
theorem after_release (hother : ∀ i, i ≠ be → v.slot i = none) (hd : Header) :
    v.after p hd (.writeBackendPid be 0) = v.dropSlots := by
  refine congrArg (fun slot => { v with slot := slot }) (funext fun i => ?_)
  by_cases hi : i = be
  · subst hi
    simp [Ne.symm hp]
  · simp [hi, hother i hi]

include hp in
/-- `pwh_release_backend_entry_unlocked` on the slot of the process. -/
theorem wp_releaseEntry (hother : ∀ i, i ≠ be → v.slot i = none) (hE : m = true → E v)
    (hE' : m = true → E v.dropSlots) :
    (viewContract W srv p).wp m (pwhReleaseBackendEntryUnlocked be) (fun _ v' => v' = v.dropSlots)
      E v := by
  refine wp_view_op hE (fun _ _ => .inl rfl) fun hi _ _ hd _ _ => ?_
  rw [after_release hp hother]
  exact ⟨hi.dropSlots, wp_view_read hE' (fun _ => rfl) (fun _ => trivial) fun _ _ _ _ =>
    Contract.seq_ret fun _ => rfl⟩

include hp in
/-- From slot `i` on, if the process has none before. -/
theorem wp_releaseFirst (hS : v.Slots srv) :
    ∀ k i, i + k = srv.gucs.maxTrackedQueries → (∀ j < i, v.slot j = none) →
      (viewContract W srv p).wp false (releaseFirst p k i) (fun _ v' => v' = v.dropSlots) E v
  | 0, i, hik, hbefore => by
    have hnone : v.NoSlot := fun j => by
      by_contra hj
      exact hj (hbefore j (by have := hS.lt j hj; omega))
    exact Contract.seq_ret fun _ => (View.dropSlots_of_noSlot hnone).symm
  | k + 1, i, hik, hbefore => by
    unfold releaseFirst
    refine wp_view_read (by simp) (fun _ => rfl) (fun _ => trivial) fun pid _ _ hans => ?_
    have hans : pid = p ↔ v.slot i ≠ none := hans
    split
    -- the first slot with the pid is the only one
    · rename_i hpid
      refine wp_releaseEntry hp (fun j hj => ?_) (by simp) (by simp)
      by_contra hslot
      exact hj (hS.unique j i hslot (hans.mp hpid))
    · rename_i hpid
      refine wp_releaseFirst hS k (i + 1) (by omega) fun j hj => ?_
      rcases Nat.lt_succ_iff_lt_or_eq.mp hj with hj | rfl
      · exact hbefore j hj
      · simpa [hpid] using hans

/-- The slots do not depend on the lock. -/
theorem View.Slots.withLock (hS : v.Slots srv) (l : LWLock) : (v.withLock l).Slots srv :=
  ⟨hS.lt, hS.unique⟩

include hp in
/-- ...and so from the first slot on. -/
theorem wp_releaseAllSlots (hS : v.Slots srv) :
    (viewContract W srv p).wp false (releaseFirst p srv.gucs.maxTrackedQueries 0)
      (fun _ v' => v' = v.dropSlots) E v :=
  wp_releaseFirst hp hS _ 0 (Nat.zero_add _) fun j hj => absurd hj (by omega)

include hp in
/-- `pwh_release_my_backend_entry`. -/
theorem wp_releaseMyBackendEntry (hS : v.Slots srv) (hlock : v.lock = {}) :
    (viewContract W srv p).wp false (pwhReleaseMyBackendEntry srv p)
      (fun _ v' => v' = v.dropSlots) E v := by
  refine wp_view_acquire nofun fun l hl => ?_
  rw [acquire_shared hlock hl]
  refine Contract.wp_bind (Contract.wp_mono (wp_releaseAllSlots hp (hS.withLock _)) ?_
    fun _ _ h => h)
  rintro _ _ - rfl
  have hdone : (v.withLock (sharedBy p)).dropSlots.withLock {} = v.dropSlots := by
    rw [← hlock]
    rfl
  exact wp_view_released (sharedBy_release p) nofun fun _ => hdone

include hp in
/-- `backend_exit_callback`. -/
theorem wp_backendExitCallback (hS : v.Slots srv) :
    (viewContract W srv p).wp false (backendExitCallback srv p)
      (fun _ v' => v' = { v.dropSlots with wasInitialized := false, lock := {} }) E v := by
  refine wp_view_acquire nofun fun l hl => ?_
  obtain ⟨-, rfl⟩ := acquire_exclusive hl
  refine Contract.wp_bind (Contract.wp_mono (wp_releaseAllSlots hp (hS.withLock _)) ?_
    fun _ _ h => h)
  rintro _ _ - rfl
  refine wp_view_read nofun (fun _ => rfl) (fun _ => trivial) fun _ _ _ _ => ?_
  refine wp_view_release (exclusiveBy_release p) nofun ?_
  refine wp_view_op nofun (fun _ => trivial) fun hi _ _ hd _ _ => ?_
  exact ⟨⟨hi.live, hi.numbers, hi.shown⟩, Contract.seq_ret fun _ => rfl⟩

/-- What `query_cleanup_callback` makes of the process. -/
def View.cleanup (event : XactEvent) (v : View D) : View D :=
  if pwhIsAbortEvent event then if v.isEnabled then v.forget.dropSlots else v.forget else v

/-- A second registration of the callback changes nothing more. -/
theorem View.cleanup_cleanup (event : XactEvent) (v : View D) :
    (v.cleanup event).cleanup event = v.cleanup event := by
  unfold View.cleanup
  by_cases he : pwhIsAbortEvent event = true <;> by_cases hv : v.isEnabled = true <;>
    simp [he, hv, forget, dropSlots]

/-- What is left are slots of the process, if any. -/
theorem View.Slots.cleanup (hS : v.Slots srv) (event : XactEvent) :
    (v.cleanup event).Slots srv := by
  unfold View.cleanup
  split
  · split
    · exact ⟨fun i h => absurd rfl h, fun i j h => absurd rfl h⟩
    · exact ⟨hS.lt, hS.unique⟩
  · exact hS

/-- The callback leaves the lock free, as it found it. -/
theorem View.cleanup_lock (event : XactEvent) (v : View D) : (v.cleanup event).lock = v.lock := by
  unfold View.cleanup
  split <;> [split; skip] <;> rfl

include hp in
/-- `query_cleanup_callback` forgets the query at an abort and, while the extension is enabled,
drops the slot. -/
theorem wp_queryCleanupCallback (hS : v.Slots srv) (hlock : v.lock = {}) (event : XactEvent) :
    (viewContract W srv p).wp false (queryCleanupCallback srv p event)
      (fun _ v' => v' = v.cleanup event) E v := by
  unfold queryCleanupCallback View.cleanup
  by_cases he : pwhIsAbortEvent event = true
  · simp only [he, not_true_eq_false, if_false, if_true]
    refine wp_view_op nofun (fun _ => trivial) fun _ _ _ hd _ _ => ⟨.forget, ?_⟩
    change (viewContract W srv p).wp false (act .isEnabled >>= _) _ E v.forget
    refine wp_view_read nofun (fun _ => rfl) (fun _ => trivial) fun enabled _ _ hans => ?_
    have hans : enabled = v.isEnabled := hans
    subst hans
    split
    · exact wp_releaseMyBackendEntry hp ⟨hS.lt, hS.unique⟩ hlock
    · exact Contract.seq_ret fun _ => rfl
  · simp only [he]
    exact Contract.seq_ret fun _ => rfl

include hp in
/-- However often it is registered, it might as well have been called once. -/
theorem wp_callXactCallbacks (event : XactEvent) :
    ∀ (n : Nat) (v : View D), v.Slots srv → v.lock = {} →
      (viewContract W srv p).wp false (callXactCallbacks srv p event n)
        (fun _ v' => v' = if n = 0 then v else v.cleanup event) E v
  | 0, v, _, _ => Contract.seq_ret fun _ => rfl
  | n + 1, v, hS, hlock => by
    refine Contract.wp_bind (Contract.wp_mono (wp_queryCleanupCallback hp hS hlock event) ?_
      fun _ _ h => h)
    rintro _ _ - rfl
    refine Contract.wp_mono (wp_callXactCallbacks event n _ (hS.cleanup event)
      ((View.cleanup_lock event v).trans hlock)) ?_ fun _ _ h => h
    rintro _ _ - rfl
    simp [View.cleanup_cleanup]

end Release

/-! ## 3. The end of a query

The try block either gets through or is left by an error, before the release or behind it
(`Ending`); the catch block forgets the query and releases the lock in both cases, but not the
slot. -/

section End

variable {q : QueryDescPtr} (hm : m = true → W.clean = false) (hp : p ≠ 0) (hS : v.Slots srv)
  (hlock : v.lock = {})

/-- How the try block of the end hook is left by an error: the slot is still there, or not. -/
def View.Ending (W : Watch) (p : Pid) (v v' : View D) : Prop :=
  W.clean = false ∧ ∃ l, LockOurs p l ∧ (v' = v.withLock l ∨ v' = v.dropSlots.withLock l)

/-- Which tree the final metrics are taken from. -/
def View.Measures (W : Watch) (srv : Server D) (q : QueryDescPtr) (v : View D) : Prop :=
  W.numbers = true → ∀ i ps, v.slot i ≠ none → (srv.queryDesc q).planstate = some ps →
    ∃ q', v.tree i = some q' ∧ (srv.queryDesc q').planstate = some ps ∧
      IsRecorded srv q' (v.node i)

variable [CDouble D]

include hm hp hlock in
/-- `query_end_hook` with the slot of the process. -/
theorem wp_finishQuery {be : Nat} (hbe : v.slot be ≠ none)
    (hother : ∀ i, i ≠ be → v.slot i = none) (hq : v.Measures W srv q) :
    (viewContract W srv p).wp m (finishQuery srv be q) (fun _ v' => v' = v.dropSlots.forget)
      (v.Ending W p) v := by
  have hfree : v.withLock {} = v := by rw [← hlock, View.withLock_self]
  have hE : ∀ l, LockOurs p l → W.clean = false → v.Ending W p (v.withLock l) :=
    fun l hl hc => ⟨hc, l, hl, .inl rfl⟩
  have hE' : ∀ l, LockOurs p l → W.clean = false → v.Ending W p (v.dropSlots.withLock l) :=
    fun l hl hc => ⟨hc, l, hl, .inr rfl⟩
  have hours : LockOurs p (exclusiveBy p) := .inr (exclusiveBy_release p)
  refine wp_view_acquire (fun h => hfree ▸ hE _ (.inl rfl) (hm h)) fun l hl => ?_
  obtain ⟨-, rfl⟩ := acquire_exclusive hl
  rw [pwhIsBackendEntryActive_bind]
  refine wp_view_read (fun h => hE _ hours (hm h)) (fun _ => rfl) (fun _ => trivial)
    fun pid _ _ hans => ?_
  have hpid : pid = p := (show pid = p ↔ v.slot be ≠ none from hans).mpr hbe
  have hactive : decide (pid ≠ 0) = true := by simp [hpid, hp]
  rw [hactive]
  -- the slot is active, so the final numbers are taken and the slot is released
  have hcapture : (viewContract W srv p).wp m (captureAndRelease srv be q)
      (fun _ v' => v' = v.dropSlots.withLock (exclusiveBy p)) (v.Ending W p)
      (v.withLock (exclusiveBy p)) := by
    refine Contract.wp_bind (Contract.wp_mono (Q := fun _ v' => v' = v.withLock (exclusiveBy p))
      ?_ ?_ fun _ _ h => h)
    · cases hps : (srv.queryDesc q).planstate with
      | none => exact Contract.seq_ret fun _ => rfl
      | some ps => exact wp_collect (hE _ hours) hm fun hn => hq hn be ps hbe hps
    · rintro _ _ - rfl
      exact wp_releaseEntry hp hother (fun h => hE _ hours (hm h)) fun h => hE' _ hours (hm h)
  refine Contract.wp_bind (Contract.wp_mono hcapture ?_ fun _ _ h => h)
  rintro _ _ - rfl
  refine wp_view_release (exclusiveBy_release p) (fun h => hE' _ hours (hm h)) ?_
  have hdrop : (v.dropSlots.withLock (exclusiveBy p)).withLock {} = v.dropSlots := by
    rw [← hlock]
    rfl
  rw [hdrop]
  refine wp_view_op (fun h => ⟨hm h, {}, .inl rfl, .inr (by rw [← hlock]; rfl)⟩) (fun _ => trivial)
    fun hi _ _ hd _ _ => ?_
  exact ⟨.forget, Contract.seq_ret fun _ => rfl⟩

include hm hp hS hlock in
/-- The try block of the end hook leaves no slot and no current query. -/
theorem wp_queryEndTry (hq : v.Measures W srv q)
    (hnone : v.NoSlot → v.current = none ∧ v.isRecording = false) :
    (viewContract W srv p).wp m (queryEndTry srv p q) (fun _ v' => v' = v.dropSlots.forget)
      (v.Ending W p) v := by
  refine Contract.wp_bind (Contract.wp_mono (wp_getEntry hm hp hS nofun hlock) ?_ ?_)
  · rintro _ _ - hfound
    cases hfound with
    | @own be hbe =>
      refine wp_finishQuery hm hp hlock hbe (fun i hi => ?_) hq
      by_contra hslot
      exact hi (hS.unique i be hslot hbe)
    | none hno _ =>
      refine Contract.seq_ret fun _ => ?_
      obtain ⟨hcur, hrec⟩ := hnone hno
      rw [View.dropSlots_of_noSlot hno, View.forget, ← hcur, ← hrec]
    | claimed _ hcreate => cases hcreate
  · rintro _ - ⟨hclean, l, hl, hv | ⟨hcreate, -⟩⟩
    · exact ⟨hclean, l, hl, .inl hv⟩
    · cases hcreate

/-- What the catch block of the end hook leaves. -/
def View.EndFailed (W : Watch) (srv : Server D) (q : QueryDescPtr) (v v' : View D) : Prop :=
  W.clean = false ∧ (v' = v.dropSlots.forget ∨
    v' = v.forget ∧ (W.tidy = true → v.Owns srv → v.recorded.filter (· ≠ q) ≠ []))

omit [CDouble D] in
include hlock in
/-- The catch block, from whatever the error left. -/
theorem wp_queryEndCatch {v' : View D} (h : v.Ending W p v') :
    (viewContract W srv p).wp false (queryEndCatch q) (fun _ => v.EndFailed W srv q)
      (v.EndFailed W srv q) v' := by
  obtain ⟨hclean, l, hl, hv⟩ := h
  have hrelease : ∀ w : View D, w.lock = {} → v.EndFailed W srv q w →
      (viewContract W srv p).wp false pwhLwlockRelease (fun _ => v.EndFailed W srv q)
        (v.EndFailed W srv q) (w.withLock l) := by
    intro w hw hend
    have hfree : w.withLock {} = w := by rw [← hw, View.withLock_self]
    rcases hl with rfl | hl
    -- an error before the lock was taken: releasing it is an error again
    · refine wp_view_op nofun (fun _ => trivial) fun hi held _ hd _ hans => ?_
      have hheld : held = false := by simpa [View.Answers, LWLock.release, View.withLock] using hans
      have hafter : (w.withLock {}).after p hd .lwLockRelease = w := by
        rw [hfree]
        change w.withLock ((w.lock.release p).getD w.lock) = w
        simpa [hw, LWLock.release] using hfree
      rw [hafter, hheld]
      exact ⟨hfree ▸ hi, Contract.seq_raise fun _ => hend⟩
    · exact wp_view_released hl nofun fun _ => by rwa [View.withLock_withLock, hfree]
  have hforget : ∀ w : View D, v' = w.withLock l → w.lock = {} →
      ((W.tidy = true → w.Owns srv → w.recorded.filter (· ≠ q) ≠ []) →
        v.EndFailed W srv q w.forget) →
      (viewContract W srv p).wp false (queryEndCatch q) (fun _ => v.EndFailed W srv q)
        (v.EndFailed W srv q) v' := by
    rintro w rfl hw hend
    refine wp_view_read nofun (fun _ => rfl) (fun _ => trivial) fun _ _ hadm _ => ?_
    refine wp_view_op nofun (fun _ => trivial) fun _ _ _ hd _ _ => ⟨.forget, ?_⟩
    exact hrelease w.forget hw (hend hadm)
  rcases hv with hv | hv
  · exact hforget v hv hlock fun htidy => ⟨hclean, .inr ⟨rfl, htidy⟩⟩
  · exact hforget v.dropSlots hv hlock fun _ => ⟨hclean, .inl rfl⟩

end End

/-! ## 4. Try blocks

In a run without errors the handler is never entered; in any other one the body may be left
wherever it is. -/

section Try

variable {body handler : PgProg D Unit} {Q : Unit → View D → Prop} {F : View D → Prop}

/-- `PG_TRY` and `PG_CATCH`: the body under the rule for each kind of run, and the handler from
whatever an error leaves. -/
theorem wp_view_tryCatch
    (hbody : ∀ m, (m = true → W.clean = false) → (viewContract W srv p).wp m body Q F v)
    (hhandler : ∀ t, W.Inv srv p t → F t → (viewContract W srv p).wp false handler Q E t) :
    (viewContract W srv p).wp false (pgTryCatch body handler) Q E v := by
  refine Contract.wp_catching ?_ nofun
  refine Contract.wp_mono ?_ (fun _ _ _ h => h) hhandler
  cases hclean : W.clean
  · refine Contract.wp_faulty (Contract.seq_stable F) ?_ (hbody true fun _ => hclean)
    rintro t b _ hi ht ⟨e, hd, -, -, rfl⟩
    exact ⟨hi, trivial, fun _ => rfl, fun _ => ht⟩
  · refine Contract.wp_faulty_never ?_ (hbody false nofun)
    rintro t b _ hi ⟨e, hd, hadm, hans, rfl⟩
    have hb : b = e.raises := hans
    exact ⟨hi, trivial, rfl, hb.trans (hadm hclean)⟩

end Try

end WhatIsHappening
