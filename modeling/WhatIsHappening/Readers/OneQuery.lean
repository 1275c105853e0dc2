/-
# Readers and queries

A row of the view, or the lines of one slot in the exposition, belong to one query of the process
whose pid they carry, in every run in which a reader comes to no slot that is being filled and
nobody rewrites a slot while a reader is at it.  The code sees to neither: the pid of a slot is
written before its query, and a reader does not hold the lock against a fill.
-/
import WhatIsHappening.Readers.Visits
import WhatIsHappening.Slots.Exclusive

namespace WhatIsHappening

open Interleaving

variable {D : Type}

/-! ## 1. What the readers need of a run -/

/-- The operation rewrites what slot `i` says of its query, or starts to. -/
def Op.rewrites (i : Nat) : Op D → Bool
  | .writeBackendPid k _ | .writeCountOfMetrics k _ | .writeQueryId k _
  | .writeQueryTextByte k _ _ | .mark (.rememberQuery k _) | .mark (.rememberNode k _ _) => k == i
  | .writeNode k _ f _ => k == i && f.identifies
  | _ => false

/-- The next operation does not rewrite the slot that `r` is at. -/
def leavesVisited (r : Pid) (c : Config Pid (State D) (Res (D := D))) :
    Event Pid (Call D) Empty (Env D) → Bool
  | .run p _ =>
    match c.thread p, (c.shared.backends r).visiting with
    | .op o _, some i => !o.rewrites i
    | _, _ => true
  | _ => true

/-- `r` comes to no slot but a free one, or one whose process has a query recorded to the end. -/
def visitsSettled (r : Pid) (c : Config Pid (State D) (Res (D := D))) :
    Event Pid (Call D) Empty (Env D) → Bool
  | .run p _ =>
    match c.thread p with
    | .op (.mark (.visitEntry i)) _ => p ≠ r || c.shared.pid i = 0 ||
        (c.shared.backends (c.shared.pid i)).currentQueryDesc.isSome &&
          !(c.shared.backends (c.shared.pid i)).isRecording
    | _ => true
  | _ => true

section Step

variable {srv : Server D} {p : Pid} {o : Op D} {e : Env D} {i : Nat}

/-- What is not rewritten stays. -/
theorem header_of_not_rewrites {s t : State D} {a : Res o} (h : exec srv p o e s = some (a, t))
    (ho : o.rewrites i = false) : (t.entries i).header = (s.entries i).header := by
  by_cases hf : o.fills = some i
  · cases o
    case writeQueryStartTime k now =>
      cases hf
      cases h
      simp [PwhSharedMemoryBackendEntry.header]
    case writeNode k j f v =>
      cases hf
      have hf : f.identifies = false := by simpa [Op.rewrites] using ho
      have hident : ∀ j', ((t.entries i).metrics j').ident = ((s.entries i).metrics j').ident := by
        intro j'
        rw [metrics_writeNode h]
        split
        · rename_i hj
          rw [PwhNodeMetrics.ident_set, NodeIdent.set_of_not_identifies _ _ hf, hj.2]
        · rfl
      cases h
      simp only [PwhSharedMemoryBackendEntry.header, hident]
      simp
    all_goals first | (cases hf; simp [Op.rewrites] at ho) | cases hf
  · rw [exec_entry h hf]
    rfl

theorem pid_of_not_rewrites {s t : State D} {a : Res o} (h : exec srv p o e s = some (a, t))
    (ho : o.rewrites i = false) : t.pid i = s.pid i := by
  rcases exec_pid h i with hpid | ⟨v, rfl, -⟩
  · exact hpid
  · simp [Op.rewrites] at ho

variable [CDouble D]

/-- Every operation that does not rewrite a slot leaves a reader there undisturbed. -/
theorem keepsSlot_of_exec {s : Traced D} {t : State D} {a : Res o}
    (h : exec srv p o e s.1 = some (a, t)) (ho : o.rewrites i = false)
    (hs : SlotInv freeClaims srv s.1) (ht : SlotInv freeClaims srv t)
    (hg : SlotGuar freeClaims p o s.1 t) (hw : p ≠ 0 → shownWatch.guar srv o (ownView p s))
    (hk : p ≠ 0 → ValuesKept p s (t, addHistory p o s.2)) :
    KeepsSlot srv i s (t, addHistory p o s.2) := by
  have hpid := pid_of_not_rewrites h ho
  refine ⟨hpid.trans, fun P q hd acc hS => ?_⟩
  have hmine : s.1.pid i = P := hS.pid_eq
  have hnode : ((addHistory p o s.2) P).node i = (s.2 P).node i := by
    by_cases hP : P = p
    · subst hP
      funext j
      rw [addHistory, Function.update_self]
      refine History.add_node ?_ _
      rintro ps rfl
      simp [Op.rewrites] at ho
    · rw [addHistory, Function.update_of_ne hP]
  have hlast : (t.backends P).lastRecorded = (s.1.backends P).lastRecorded := by
    by_cases hP : P = p
    swap
    · rw [exec_backends_of_ne h hP]
    subst hP
    rcases exec_lastRecorded h with hl | ⟨k, q', rfl, -⟩ | ⟨enabled, minCost, rfl⟩
    · exact hl
    · -- the process has no other slot to record a query in
      have hk : s.1.pid k = P := slot_ne_none.mp (hw hS.pid_ne_zero rfl)
      have hik : k = i := hs.unique k i (by rw [hk]; exact hS.pid_ne_zero) (hk.trans hmine.symm)
      simp [Op.rewrites, hik] at ho
    · -- a process that has just been forked is in no slot
      have hprep := (ht.prepared i (by rw [hpid, hmine]; exact hS.pid_ne_zero)).2
      rw [hpid, hmine, standing_fork h] at hprep
      exact absurd hprep.2.1 (by simp)
  have hvalues : ∀ j f, f.identifies = false → ValueOk P s i j f →
      ValueOk P (t, addHistory p o s.2) i j f := by
    intro j f hf hv
    by_cases hP : P = p
    · subst hP
      exact hk hS.pid_ne_zero i j f hf (congrFun hnode j) hv
    · exact (valuesRely_of_other h hS.pid_ne_zero hP hg).values i j f hf
        (by rw [hS.slot]; exact Option.some_ne_none hd) hv
  refine ⟨hS.pid_ne_zero, ?_, hlast.trans hS.last, hS.queryId, hS.queryText, hS.nodes, hS.count, ?_,
    fun j hj f hf => hvalues j f hf (hS.values j hj f hf)⟩
  · have hheader := (header_of_not_rewrites h ho).trans hS.header_eq
    have hback : (t.entries i).backendPid = P := hpid.trans hmine
    simp [ownView, slot_eq, State.own, State.pid, hback, hheader]
  · rw [hnode]
    exact hS.records

/-- Between two hooks a slot is settled. -/
theorem settled_of_current {s : Traced D} (hI : ∀ p ≠ 0, shownWatch.Inv srv p (ownView p s))
    (hV : ∀ p ≠ 0, ValuesInv p s)
    (hcur : s.1.pid i = 0 ∨ (s.1.backends (s.1.pid i)).currentQueryDesc ≠ none ∧
      (s.1.backends (s.1.pid i)).isRecording = false) : Settled srv s i := by
  by_cases h0 : s.1.pid i = 0
  · exact .inl h0
  obtain ⟨hq, hrec⟩ := hcur.resolve_left h0
  obtain ⟨q, hq⟩ := Option.ne_none_iff_exists'.mp hq
  have hslot : (ownView (s.1.pid i) s).slot i = some (s.1.entries i).header := by
    simp [ownView, slot_eq, State.own, State.pid]
  obtain ⟨hid, htext, acc, hlist, hcount, hrecs⟩ := (hI _ h0).shown rfl hrec q i _ hq hslot
  refine .inr ⟨_, q, _, acc, h0, hslot, (hV _ h0).last hrec q hq, hid, htext, hlist, hcount, hrecs,
    ?_⟩
  exact (hV _ h0).values hrec (hq ▸ Option.some_ne_none q) i _ hslot

end Step

/-! ## 2. What is known of a run -/

section Runs

variable [CDouble D] {srv : Server D}
  {ok : Config Pid (State D) (Res (D := D)) → Event Pid (Call D) Empty (Env D) → Prop}

/-- What is known of every state. -/
structure RunFacts (srv : Server D) (s : Traced D) : Prop where
  slots : SlotInv freeClaims srv s.1
  watch : ∀ p ≠ 0, shownWatch.Inv srv p (ownView p s)
  values : ∀ p ≠ 0, ValuesInv p s

/-- What is known of every event. -/
def EventFacts (srv : Server D) (c : Config Pid (Traced D) (Res (D := D))) :
    Event Pid (Call D) Empty (Env D) → Prop
  | .run p e => ∀ o k r t, c.thread p = .op o k → exec srv p o e c.shared.1 = some (r, t) →
      SlotInv freeClaims srv t ∧ SlotGuar freeClaims p o c.shared.1 t ∧
        (p ≠ 0 → shownWatch.guar srv o (ownView p c.shared)) ∧
        (p ≠ 0 → ValuesKept p c.shared (t, addHistory p o c.shared.2))
  | _ => True

/-- The slots have one owner each. -/
def OwnedSlots (srv : Server D) (c : Config Pid (State D) (Res (D := D))) : Prop :=
  System.Sound.Holds (SlotInv freeClaims srv) (slotContract freeClaims srv)
    (At Standing.Idle) c

/-- What an operation does to slots that have one owner each. -/
theorem slots_of_owned {c : Config Pid (State D) (Res (D := D))} {p : Pid} {e : Env D} {o : Op D}
    {k : Res o → PgProg D Unit} {r : Res o} {t : State D} (h : OwnedSlots srv c)
    (hfree : claimIsFree c (.run p e : Event Pid (Call D) Empty (Env D)) = true)
    (hthread : c.thread p = .op o k) (hx : exec srv p o e c.shared = some (r, t)) :
    SlotInv freeClaims srv t ∧ SlotGuar freeClaims p o c.shared t := by
  obtain ⟨hinv, hguar, -⟩ := System.Sound.guar_of_holds (slots_sound freeClaims srv) h hthread
    (keeps_of_claimIsFree hfree) hx
  exact ⟨hinv, hguar⟩

/-- **Every run with exclusive claims whose processes measure their current query** can be
recorded, and all of this is known of the record. -/
theorem reach_known (hfree : ∀ c e, ok c e → claimIsFree c e = true)
    (hmeasures : ∀ c e, ok c e → measuresCurrent srv c e = true)
    {c : Config Pid (State D) (Res (D := D))} (h : (clusterSystem srv).Reach ok clusterInit c) :
    ∃ d g, System.untraced d = c ∧ (tracedCluster srv).Reach (fun d e => ok (System.untraced d) e ∧
      RunFacts srv d.shared ∧ EventFacts srv d e) ⟨(State.init, g), fun _ => .ret ()⟩ d := by
  have hslots := h.strengthen (P := OwnedSlots srv)
    fun c hc => slots_hold (hc.mono fun c e h => keeps_of_claimIsFree (hfree c e h))
  let g : Pid → History := fun _ => ⟨fun _ => none, fun _ _ => none⟩
  obtain ⟨d, hd, hdc⟩ : ∃ d, (tracedCluster srv).Reach (fun d e => ok (System.untraced d) e ∧
      OwnedSlots srv (System.untraced d) ∧ ∀ c', (clusterSystem srv).step (System.untraced d) e =
        some c' → OwnedSlots srv c') ⟨(State.init, g), fun _ => .ret ()⟩ d ∧
      System.untraced d = c := System.Reach.tracing g hslots
  refine ⟨d, g, hdc, ?_⟩
  -- a process among the others
  have hprocess : ∀ d, (tracedCluster srv).Reach (fun d e => ok (System.untraced d) e ∧
      OwnedSlots srv (System.untraced d)) ⟨(State.init, g), fun _ => .ret ()⟩ d →
      ∀ p ≠ 0, System.SoundFor.Holds p (processContract srv p)
        (fun s => Idle shownWatch srv p (ownView p s)) d := by
    intro d hd p hp
    refine process_holds hp (hd.mono fun d e h => ⟨hmeasures _ e h.1, ?_⟩)
    cases e with
    | run i e => exact fun o k r t hthread hx =>
        (slots_of_owned h.2 (hfree _ _ h.1) hthread hx).2
    | _ => trivial
  have hd₁ := (hd.mono fun d e h => ⟨h.1, h.2.1⟩).strengthen hprocess
  -- the values of its slot
  have hknown : ∀ d e, (ok (System.untraced d) e ∧ OwnedSlots srv (System.untraced d)) ∧
      (∀ p ≠ 0, System.SoundFor.Holds p (processContract srv p)
        (fun s => Idle shownWatch srv p (ownView p s)) d) → KnownStep srv d e := by
    rintro d e ⟨⟨hok, howned⟩, hproc⟩
    cases e with
    | run p e =>
      intro o k r t hthread hx
      obtain ⟨hinv, hguar⟩ := slots_of_owned howned (hfree _ _ hok) hthread hx
      refine ⟨hinv, hguar, fun hp => ?_⟩
      have hx' : (tracedCluster srv).exec p o e d.shared =
          some (r, (t, addHistory p o d.shared.2)) := by
        simp [tracedCluster, System.tracing, clusterSystem, hx]
      refine (System.SoundFor.guar_of_holds (process_sound hp) (hproc p hp) hthread
        ⟨hmeasures _ _ hok, ?_⟩ hx').2.1
      exact fun o k r t hthread hx => (slots_of_owned howned (hfree _ _ hok) hthread hx).2
    | _ => trivial
  have hvalues : ∀ d, (tracedCluster srv).Reach (fun d e =>
      (ok (System.untraced d) e ∧ OwnedSlots srv (System.untraced d)) ∧
        (∀ p ≠ 0, System.SoundFor.Holds p (processContract srv p)
          (fun s => Idle shownWatch srv p (ownView p s)) d))
      ⟨(State.init, g), fun _ => .ret ()⟩ d →
      ∀ p ≠ 0, System.SoundFor.Holds p (valuesContract srv p) (fun _ => True) d :=
    fun d hd p hp => values_hold hp (hd.mono hknown)
  have hd₂ := (hd₁.mono fun d e h => ⟨h.1, h.2.1⟩).strengthen hvalues
  refine hd₂.mono fun d e h => ⟨h.1.1.1, ⟨?_, ?_, ?_⟩, ?_⟩
  · exact h.1.1.2.1
  · exact fun p hp => (h.1.2 p hp).1
  · exact fun p hp => (h.2.1 p hp).1
  · cases e with
    | run p e =>
      intro o k r t hthread hx
      obtain ⟨hinv, hguar, hwatch⟩ := hknown d _ h.1 o k r t hthread hx
      refine ⟨hinv, hguar, hwatch, fun hp => ?_⟩
      have hx' : (tracedCluster srv).exec p o e d.shared =
          some (r, (t, addHistory p o d.shared.2)) := by
        simp [tracedCluster, System.tracing, clusterSystem, hx]
      exact (System.SoundFor.guar_of_holds (values_sound hp) (h.2.1 p hp) hthread (hknown d _ h.1)
        hx').2.1
    | _ => trivial

end Runs

/-! ## 3. What readers show -/

section Readers

variable [CDouble D] {srv : Server D} {r : Pid}

/-- An event of such a run is one the reader can live with. -/
theorem readsStep_of_known {d : Config Pid (Traced D) (Res (D := D))}
    {e : Event Pid (Call D) Empty (Env D)} (hvisits : visitsSettled r (System.untraced d) e = true)
    (hleaves : leavesVisited r (System.untraced d) e = true) (hs : RunFacts srv d.shared)
    (he : EventFacts srv d e) : ReadsStep srv r d e := by
  cases e with
  | run p e =>
    intro o k a t hthread hx
    have hthread' : (System.untraced d).thread p = .op o k := hthread
    obtain ⟨hinv, hguar, hwatch, hkept⟩ := he o k a t hthread hx
    have hkeeps : ∀ i, o.rewrites i = false →
        KeepsSlot srv i d.shared (t, addHistory p o d.shared.2) := fun i ho =>
      keepsSlot_of_exec hx ho hs.slots hinv hguar hwatch hkept
    refine ⟨fun i hi _ => hkeeps i ?_, ?_⟩
    · have hi : ((System.untraced d).shared.backends r).visiting = some i := hi
      simpa [leavesVisited, hthread', hi] using hleaves
    · rintro rfl i rfl
      -- the slot is settled when the reader comes, and coming to it changes nothing in it
      have hsettled : Settled srv d.shared i := by
        refine settled_of_current hs.watch hs.values ?_
        simp only [visitsSettled, hthread'] at hvisits
        rcases (Bool.or_eq_true _ _).mp hvisits with h | h
        · simp only [System.untraced, ne_eq, not_true_eq_false, decide_false, Bool.false_or] at h
          exact .inl (of_decide_eq_true h)
        · obtain ⟨hsome, hrec⟩ := (Bool.and_eq_true _ _).mp h
          exact .inr ⟨Option.isSome_iff_ne_none.mp hsome, by simpa [System.untraced] using hrec⟩
      exact hsettled.keep (hkeeps i rfl)
  | _ => trivial

/-- What the readers need of a run with exclusive claims: the reader comes to no slot that is
being filled, nobody rewrites a slot while it is there, and every process measures its current
query only. -/
def readerSafe (srv : Server D) (r : Pid) (c : Config Pid (State D) (Res (D := D)))
    (e : Event Pid (Call D) Empty (Env D)) : Bool :=
  visitsSettled r c e && leavesVisited r c e && measuresCurrent srv c e

/-- **Readers never mix queries** in a run that is safe for them. -/
theorem readers_show_one_query (srv : Server D) {r : Pid} {c : Config Pid (State D) (Res (D := D))}
    (h : (clusterSystem srv).Reach (fun c e => claimIsFree c e && readerSafe srv r c e) clusterInit
      c) {em : Emission D} {k : Unit → PgProg D Unit} (hnext : c.thread r = .op (.emit em) k) :
    OfOneQuery srv c.shared em := by
  have hok : ∀ c e, (claimIsFree c e && readerSafe srv r c e) = true →
      claimIsFree c e = true ∧ visitsSettled r c e = true ∧ leavesVisited r c e = true ∧
        measuresCurrent srv c e = true := by
    intro c e h
    simpa [readerSafe, and_assoc] using h
  obtain ⟨d, g, rfl, hd⟩ := reach_known (fun c e h => (hok c e h).1)
    (fun c e h => (hok c e h).2.2.2) h
  refine reads_hold (hd.mono fun d e ⟨h, hs, he⟩ => ?_) hnext
  obtain ⟨-, hvisits, hleaves, -⟩ := hok _ e h
  exact readsStep_of_known hvisits hleaves hs he

/-- The row that `r` is about to return. -/
def nextRow (r : Pid) (c : Config Pid (State D) (Res (D := D))) : Option (StatusRow D) :=
  match c.thread r with
  | .op (.emit (.row row)) _ => some row
  | _ => none

omit [CDouble D] in
theorem thread_of_nextRow {c : Config Pid (State D) (Res (D := D))} {row : StatusRow D}
    (h : nextRow r c = some row) : ∃ k, c.thread r = .op (.emit (.row row)) k := by
  unfold nextRow at h
  split at h
  · rename_i row' k hp
    cases h
    exact ⟨k, hp⟩
  · cases h

end Readers

/-- Process 2 reads the view up to its first row. -/
def readRow : List (Event Pid (Call ℚ) Empty (Env ℚ)) :=
  [.call 2 (.fork true 0)] ++ runs 2 1 ++ [.call 2 .fetchStatus] ++ runs 2 35

set_option maxRecDepth 10000 in
/-- It reads while process 1 runs a query. -/
theorem readRow_of_one_query : ∃ c : Config Pid (State ℚ) (Res (D := ℚ)),
    (clusterSystem smallServer).Reach (fun c e => claimIsFree c e && readerSafe smallServer 2 c e)
      clusterInit c ∧
    ∃ row k, c.thread 2 = .op (.emit (.row row)) k ∧
      OfOneQuery smallServer c.shared (.row row) := by
  obtain ⟨c, hc, hrow⟩ := System.exists_reach (clusterSystem smallServer)
    (fun c e => claimIsFree c e && readerSafe smallServer 2 c e) (fun _ _ h => h) clusterInit
    (startQuery 1 10 ++ readRow) (fun c => (nextRow 2 c).isSome) (by decide +kernel)
  obtain ⟨row, hrow⟩ := Option.isSome_iff_exists.mp hrow
  obtain ⟨k, hk⟩ := thread_of_nextRow hrow
  exact ⟨c, hc, row, k, hk, readers_show_one_query smallServer hc hk⟩

/-- Process 1 ends one query and starts another, and process 2 reads while the id of the second one
is not written yet. -/
def readHalfFilled : List (Event Pid (Call ℚ) Empty (Env ℚ)) :=
  startQuery 1 10 ++ [.call 1 (.executorEnd 10)] ++ runs 1 35 ++
    [.call 1 (.executorStart 20)] ++ runs 1 56 ++ readRow

/-- Query 20 is an index scan, every other a sequential scan. -/
def twoPlansServer : Server ℚ :=
  { smallServer with
    planState := fun ps => { plan := some (if ps = 20 then .indexScan else .seqScan) } }

set_option maxRecDepth 10000 in
/-- The row has the id of the first query with the node of the second. -/
theorem readHalfFilled_mixes :
    ¬ ∀ c : Config Pid (State ℚ) (Res (D := ℚ)),
      (clusterSystem twoPlansServer).Reach (fun c e => claimIsFree c e) clusterInit c →
        ∀ r em k, c.thread r = .op (.emit em) k → OfOneQuery twoPlansServer c.shared em := by
  intro h
  obtain ⟨c, hc, hf⟩ := System.exists_reach (clusterSystem twoPlansServer) claimIsFree
    (fun _ _ h => h) clusterInit readHalfFilled
    (fun c => (nextRow 2 c).any (fun row =>
        row.backendPid = 1 ∧ row.queryId = 10 ∧ row.nodeTag = .indexScan) ∧
      (c.shared.backends 1).lastRecorded = some 20) (by decide +kernel)
  obtain ⟨hrow, hlast⟩ := of_decide_eq_true hf
  obtain ⟨row, hrow, hids⟩ := (Option.any_eq_true _ _).mp hrow
  obtain ⟨hpid, hid, -⟩ := of_decide_eq_true hids
  obtain ⟨k, hk⟩ := thread_of_nextRow hrow
  obtain ⟨q, acc, x, hquery, -⟩ := h c hc 2 _ k hk
  have hq : q = 20 := Option.some.inj ((hpid ▸ hquery.recorded).symm.trans hlast)
  obtain ⟨now, hnow⟩ := hquery.queryId
  subst hq
  rw [hid] at hnow
  exact absurd hnow (by simp [queryIdAt, twoPlansServer, smallServer])

end WhatIsHappening
