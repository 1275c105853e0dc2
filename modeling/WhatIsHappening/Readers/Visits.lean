/-
# A visit of a slot

Between the read that finds a slot active and the row or the lines it is shown with, a reader holds
nobody off.  `readContract` is what a run must keep to for that to do no harm: the slot is settled
when the reader comes to it, and nobody rewrites it while the reader is there.
-/
import WhatIsHappening.Readers.Emissions
import WhatIsHappening.Slots.Representation

namespace WhatIsHappening

open Interleaving Prog

variable {D : Type} [CDouble D]

/-! ## 1. What a slot shows

`SlotShows` lists what a reader may find in a slot that a process has filled for a query: whatever
is read of it, the answer is one of that query's (`SlotShows.answers`). -/

/-- Slot `i` shows the query `q`, which process `p` recorded last: `hd` is its header and `acc`
are its nodes. -/
structure SlotShows (srv : Server D) (s : Traced D) (i : Nat) (p : Pid) (q : QueryDescPtr)
    (hd : Header) (acc : Visited) : Prop where
  pid_ne_zero : p ≠ 0
  slot : (ownView p s).slot i = some hd
  last : (s.1.backends p).lastRecorded = some q
  queryId : ∃ now, hd.queryId = queryIdAt p (srv.queryDesc q) now
  queryText : ((List.range srv.gucs.maxQueryTextLen).map hd.queryText).takeWhile (· ≠ 0) =
    shownText srv.gucs.maxQueryTextLen (srv.queryDesc q).sourceText
  nodes : ListsNodes srv q acc
  count : hd.countOfMetrics = UInt32.ofNat acc.length
  records : RecordsNodes srv acc hd.ident ((s.2 p).node i)
  values : ∀ j < hd.countOfMetrics.toNat, ∀ f, f.identifies = false → ValueOk p s i j f

omit [CDouble D] in
/-- No query has more nodes than a slot has records. -/
theorem ListsNodes.length_le {srv : Server D} {q : QueryDescPtr} {acc : Visited}
    (h : ListsNodes srv q acc) : acc.length ≤ srv.gucs.maxNodesPerQuery := by
  unfold ListsNodes at h
  split at h
  · simp [h]
  · obtain ⟨stackFrames, goOn, hvisit⟩ := h
    exact visits_length_le hvisit

namespace SlotShows

variable {srv : Server D} {s : Traced D} {i : Nat} {p : Pid} {q : QueryDescPtr} {hd : Header}
  {acc : Visited}

theorem length_eq (h : SlotShows srv s i p q hd acc) : hd.countOfMetrics.toNat = acc.length := by
  have hle := Nat.le_trans h.nodes.length_le srv.gucs.maxNodesPerQuery_le
  rw [h.count, UInt32.toNat_ofNat']
  exact Nat.mod_eq_of_lt (by omega)

theorem pid_eq (h : SlotShows srv s i p q hd acc) : s.1.pid i = p :=
  (slot_ne_none (s := s.1.own p (s.2 p))).mp (fun hno => nomatch h.slot.symm.trans hno)

theorem header_eq (h : SlotShows srv s i p q hd acc) : (s.1.entries i).header = hd := by
  have hslot : (ownView p s).slot i = some (s.1.entries i).header := by
    have hpid : (s.1.entries i).backendPid = p := h.pid_eq
    simp [ownView, slot_eq, State.own, State.pid, hpid]
  exact Option.some.inj (hslot.symm.trans h.slot)

/-- It answers a reader with what it shows. -/
theorem answers (h : SlotShows srv s i p q hd acc) {r : Pid} {o : Op D} {e : Env D} {t : State D}
    {a : Res o} (hx : exec srv r o e s.1 = some (a, t)) :
    SlotAnswers srv i p hd acc s.1.measured o a := by
  have hheader := h.header_eq
  cases o
  case readBackendPid i' =>
    cases hx
    rintro rfl
    exact h.pid_eq
  case readCountOfMetrics i' =>
    cases hx
    rintro rfl
    exact congrArg Header.countOfMetrics hheader
  case readQueryId i' =>
    cases hx
    rintro rfl
    exact congrArg Header.queryId hheader
  case readQueryText i' =>
    cases hx
    rintro rfl
    rw [← hheader]
    rfl
  case readNode i' j f =>
    cases hx
    rintro rfl x hx
    obtain ⟨hnode, hident⟩ := h.records j x hx
    have hident : ((s.1.entries i').metrics j).ident = .ofNode srv j x := by
      rw [← hident, ← hheader]
      rfl
    have hj : j < hd.countOfMetrics.toNat := by
      rw [h.length_eq]
      exact (List.getElem?_eq_some_iff.mp hx).1
    cases f
    case tag => exact congrArg NodeIdent.tag hident
    case nodeId => exact congrArg NodeIdent.nodeId hident
    case parentNodeId => exact congrArg NodeIdent.parentNodeId hident
    case magic => exact congrArg NodeIdent.magic hident
    all_goals exact h.values j hj _ rfl x.1 hnode
  all_goals trivial

theorem isQuery (h : SlotShows srv s i p q hd acc) :
    IsQuery srv s.1 p q hd.queryId
      (((List.range srv.gucs.maxQueryTextLen).map hd.queryText).takeWhile (· ≠ 0)) acc :=
  ⟨h.pid_ne_zero, h.last, h.queryId, h.queryText, h.nodes⟩

end SlotShows

/-! ## 2. The contract

That nobody rewrites the slot a reader is at is asked of the run.  The code does not see to it: the
lock is given back before the slot is shown. -/

/-- What a reader of slot `i` has found stays. -/
structure KeepsSlot (srv : Server D) (i : Nat) (s t : Traced D) : Prop where
  free : s.1.pid i = 0 → t.1.pid i = 0
  shows : ∀ p q hd acc, SlotShows srv s i p q hd acc → SlotShows srv t i p q hd acc

/-- The slot is free, or shows a query. -/
def Settled (srv : Server D) (s : Traced D) (i : Nat) : Prop :=
  s.1.pid i = 0 ∨ ∃ p q hd acc, SlotShows srv s i p q hd acc

theorem Settled.keep {srv : Server D} {s t : Traced D} {i : Nat} (h : Settled srv s i)
    (hk : KeepsSlot srv i s t) : Settled srv t i := by
  rcases h with h | ⟨p, q, hd, acc, h⟩
  · exact .inl (hk.free h)
  · exact .inr ⟨p, q, hd, acc, hk.shows p q hd acc h⟩

/-- What the others may do while `r` reads, and the signal handler of `r`. -/
structure ReadRely (srv : Server D) (r : Pid) (s t : Traced D) : Prop where
  visiting : (t.1.backends r).visiting = (s.1.backends r).visiting
  measured : ∀ x ∈ s.1.measured, x ∈ t.1.measured
  keeps : ∀ i, (s.1.backends r).visiting = some i → KeepsSlot srv i s t

/-- An operation of `r` in a run in which `r` comes to settled slots only, and no slot is rewritten
while `r` is there. -/
structure Reads (srv : Server D) (r : Pid) (o : Op D) (s : Traced D) (a : Res o)
    (t : Traced D) : Prop where
  exec : ∃ e, exec srv r o e s.1 = some (a, t.1)
  keeps : ∀ i, (s.1.backends r).visiting = some i → (t.1.backends r).visiting = some i →
    KeepsSlot srv i s t
  visits : ∀ i, o = .mark (.visitEntry i) → Settled srv t i

theorem KeepsSlot.refl (srv : Server D) (i : Nat) (s : Traced D) : KeepsSlot srv i s s :=
  ⟨id, fun _ _ _ _ h => h⟩

theorem KeepsSlot.trans {srv : Server D} {i : Nat} {s t u : Traced D} (h : KeepsSlot srv i s t)
    (h' : KeepsSlot srv i t u) : KeepsSlot srv i s u :=
  ⟨fun hs => h'.free (h.free hs), fun p q hd acc hs => h'.shows p q hd acc (h.shows p q hd acc hs)⟩

/-- The contract of the reader `r`: what it shows is of one query. -/
def readContract (srv : Server D) (r : Pid) : Contract (Res (D := D)) (Traced D) where
  sem := Reads srv r
  inv _ := True
  rely := ReadRely srv r
  assume _ _ := True
  guar o s _ _ := ∀ em, o = .emit em → OfOneQuery srv s.1 em
  rely_refl s := ⟨rfl, fun _ h => h, fun i _ => .refl srv i s⟩
  rely_trans h h' := ⟨h'.visiting.trans h.visiting, fun x hx => h'.measured x (h.measured x hx),
    fun i hi => (h.keeps i hi).trans (h'.keeps i (h.visiting.trans hi))⟩

/-! ## 3. Rules

A reader comes to a slot (`Arrived`), finds it active (`AtSlot`), and is there until it has shown
it. -/

section Rules

variable {α : Type} {srv : Server D} {r : Pid} {i : Nat} {p : Pid} {q : QueryDescPtr}
  {hd : Header} {acc : Visited} {s : Traced D} {Q : α → Traced D → Prop} {E : Traced D → Prop}

/-- The reader has come to slot `i`. -/
def Arrived (srv : Server D) (r : Pid) (i : Nat) (s : Traced D) : Prop :=
  (s.1.backends r).visiting = some i ∧ Settled srv s i

/-- The reader is at slot `i`, which shows a query. -/
def AtSlot (srv : Server D) (r : Pid) (i : Nat) (p : Pid) (q : QueryDescPtr) (hd : Header)
    (acc : Visited) (s : Traced D) : Prop :=
  (s.1.backends r).visiting = some i ∧ SlotShows srv s i p q hd acc

theorem stable_arrived : (readContract srv r).Stable (Arrived srv r i) :=
  fun _ _ h hr _ => ⟨hr.visiting.trans h.1, h.2.keep (hr.keeps i h.1)⟩

theorem stable_at : (readContract srv r).Stable (AtSlot srv r i p q hd acc) :=
  fun _ _ h hr _ => ⟨hr.visiting.trans h.1, (hr.keeps i h.1).shows p q hd acc h.2⟩

/-- A program that shows nothing. -/
theorem wp_noEmit {m : Bool} {prog : PgProg D α} (hall : prog.All fun o => ∀ em, o ≠ .emit em) :
    (readContract srv r).wp m prog (fun _ _ => True) (fun _ => True) s :=
  Contract.wp_of_all hall Contract.stable_true
    (fun _ _ _ _ ho _ _ _ _ => ⟨trivial, fun em hem => absurd hem (ho em), trivial⟩) trivial

/-- The reader comes to a slot. -/
theorem wp_visitEntry {k : Unit → PgProg D α}
    (hk : ∀ t, Arrived srv r i t → (readContract srv r).wp false (k ()) Q E t) :
    (readContract srv r).wp false (act (.mark (.visitEntry i)) >>= k) Q E s := by
  refine Contract.wp_op Contract.stable_true trivial nofun fun t _ t' _ _ _ h =>
    ⟨trivial, nofun, hk t' ⟨?_, h.visits i rfl⟩⟩
  obtain ⟨e, he⟩ := h.exec
  rw [← (Prod.mk.inj (Option.some.inj he)).2]
  simp [State.record]

omit [CDouble D] in
theorem exec_readsEntry {o : Op D} {e : Env D} {s t : State D} {a : Res o} (ho : o.ReadsEntry)
    (h : exec srv r o e s = some (a, t)) : t = s := by
  cases o <;> first | exact ho.elim | (cases h; rfl)

/-- It finds the slot free, or it shows a query. -/
theorem wp_isActive {f : Bool → PgProg D α} (hs : Arrived srv r i s)
    (hfree : ∀ t, (readContract srv r).wp false (f false) Q E t)
    (hactive : ∀ p q hd acc t, AtSlot srv r i p q hd acc t →
      (readContract srv r).wp false (f true) Q E t) :
    (readContract srv r).wp false (pwhIsBackendEntryActive i >>= f) Q E s := by
  rw [pwhIsBackendEntryActive_bind, act_bind]
  refine Contract.wp_op stable_arrived hs nofun fun t pid t' _ ht _ h => ⟨trivial, nofun, ?_⟩
  obtain ⟨e, he⟩ := h.exec
  have hsame : t'.1 = t.1 := exec_readsEntry (o := .readBackendPid i) trivial he
  have hkeep := h.keeps i ht.1 (hsame ▸ ht.1)
  have hpid : pid = t.1.pid i := (Prod.mk.inj (Option.some.inj he)).1.symm
  by_cases h0 : pid = 0
  · simp only [ne_eq, h0, not_true_eq_false, decide_false]
    exact hfree t'
  · simp only [ne_eq, h0, not_false_eq_true, decide_true]
    rcases ht.2 with hfree | ⟨p, q, hd, acc, hshows⟩
    · exact absurd (hpid.trans hfree) h0
    · exact hactive p q hd acc t' ⟨by rw [hsame]; exact ht.1, hkeep.shows p q hd acc hshows⟩

/-- What a program reads of the slot. -/
theorem wp_readsEntry {x : PgProg D α} (hall : x.All Op.ReadsEntry) (hn : x.NoRaise)
    (hs : AtSlot srv r i p q hd acc s) :
    (readContract srv r).wp false x (fun a t => AtSlot srv r i p q hd acc t ∧
      x.ReturnsBy (SlotAnswers srv i p hd acc t.1.measured) a) E s := by
  refine Contract.wp_mono (Contract.wp_returnsBy (fun t => SlotAnswers srv i p hd acc
    t.1.measured) hall hn stable_at (fun _ _ hr o a h => h.mono hr.measured o a) ?_ hs)
    (fun _ _ _ h => ⟨h.1, h.2.1⟩) fun _ _ h => h
  intro o t a t' ho _ ht _ h
  obtain ⟨e, he⟩ := h.exec
  have hsame : t'.1 = t.1 := exec_readsEntry ho he
  refine ⟨trivial, ?_, ⟨by rw [hsame]; exact ht.1,
    (h.keeps i ht.1 (hsame ▸ ht.1)).shows p q hd acc ht.2⟩, ?_, fun _ _ ha => hsame ▸ ha⟩
  · rintro em rfl
    exact ho.elim
  · rw [hsame]
    exact ht.2.answers he

/-- What was read of the slot is shown. -/
theorem wp_emit_read {β : Type} {prog : PgProg D β} {b : β} {em : Emission D}
    {k : Unit → PgProg D α} (hs : AtSlot srv r i p q hd acc s ∧
      prog.ReturnsBy (SlotAnswers srv i p hd acc s.1.measured) b)
    (hem : ∀ t : Traced D, SlotShows srv t i p q hd acc →
      prog.ReturnsBy (SlotAnswers srv i p hd acc t.1.measured) b → OfOneQuery srv t.1 em)
    (hk : ∀ t, (readContract srv r).wp false (k ()) Q E t) :
    (readContract srv r).wp false (act (.emit em) >>= k) Q E s := by
  refine Contract.wp_op (A := fun t => AtSlot srv r i p q hd acc t ∧
    prog.ReturnsBy (SlotAnswers srv i p hd acc t.1.measured) b) ?_ hs nofun
    fun t _ t' _ ht _ _ => ⟨trivial, ?_, hk t'⟩
  · intro t u ht hr hi
    exact ⟨stable_at t u ht.1 hr hi, ht.2.mono fun o a h => h.mono hr.measured o a⟩
  · rintro em' ⟨⟩
    exact hem t ht.1.2 ht.2

end Rules

/-! ## 4. The readers

Their loops go by induction on the slots that are left; each slot is passed over or shown. -/

section Readers

variable {α β : Type} {srv : Server D} {r : Pid} {i : Nat} {p : Pid} {q : QueryDescPtr}
  {hd : Header} {acc : Visited} {s : Traced D}

/-- A program that shows nothing, before another one. -/
theorem wp_noEmit_bind {x : PgProg D α} {f : α → PgProg D β}
    (hall : x.All fun o => ∀ em, o ≠ .emit em)
    (hf : ∀ a t, (readContract srv r).wp false (f a) (fun _ _ => True) (fun _ => True) t) :
    (readContract srv r).wp false (x >>= f) (fun _ _ => True) (fun _ => True) s :=
  Contract.wp_bind (Contract.wp_mono (wp_noEmit hall) (fun a t _ _ => hf a t) fun _ _ h => h)

omit [CDouble D] in
theorem Op.IsHousekeeping.ne_emit {o : Op D} (h : o.IsHousekeeping) (em : Emission D) :
    o ≠ .emit em := by
  rintro rfl
  exact h

/-- The lines of a slot. -/
theorem wp_formatEntry_shown (ver : PgVersion) (buf : FormatterBuffer)
    (hs : AtSlot srv r i p q hd acc s) :
    (readContract srv r).wp false (formatEntry ver i buf) (fun _ _ => True) (fun _ => True) s := by
  rw [formatEntry_eq]
  refine Contract.wp_bind (Contract.wp_mono (wp_readsEntry (readEntry_all ver i buf)
    (readEntry_noRaise ver i buf) hs) (fun x t _ ht => ?_) fun _ _ h => h)
  refine wp_emit_read ht (fun u hu hret => ?_) fun u => Contract.wp_ret Contract.stable_true trivial
  obtain ⟨hp, hid, htext, hsamples⟩ := readEntry_returns hu.length_eq hret
  refine ⟨q, acc, ?_, by rw [hid]; exact hsamples⟩
  rw [hp, hid, htext]
  exact hu.isQuery

/-- The lines of `k` slots from `i` on. -/
theorem wp_formatEntries_shown : ∀ k i buf (s : Traced D),
    (readContract srv r).wp false (formatEntries srv k i buf) (fun _ _ => True) (fun _ => True) s
  | 0, _, _, _ => Contract.wp_ret Contract.stable_true trivial
  | k + 1, i, buf, s => by
    unfold formatEntries
    refine wp_noEmit_bind ((pwhGetBackendEntry_housekeeping i).mono
      fun _ h => h.isHousekeeping.ne_emit) fun _ t => ?_
    refine wp_visitEntry fun t ht => wp_isActive ht (fun u => ?_) fun p q hd acc u hu => ?_
    · exact wp_noEmit_bind (x := act (.mark .leaveEntry)) ⟨by simp, fun _ => trivial⟩
        fun _ w => wp_formatEntries_shown k (i + 1) buf w
    · exact Contract.wp_bind (Contract.wp_mono (wp_formatEntry_shown _ buf hu)
        (fun buf w _ _ => wp_formatEntries_shown k (i + 1) buf w) fun _ _ h => h)

/-- The row of a node. -/
theorem wp_row_shown {j : Nat} (hj : j < hd.countOfMetrics.toNat)
    {f : StatusRow D → PgProg D α} (hs : AtSlot srv r i p q hd acc s)
    (hf : ∀ row t, (readContract srv r).wp false (f row) (fun _ _ => True) (fun _ => True) t) :
    (readContract srv r).wp false (sumTotalQueryTime i >>= fun total =>
      pwhFillV1StatusTuple i j total >>= fun row => act (.emit (.row row)) >>= fun _ => f row)
      (fun _ _ => True) (fun _ => True) s := by
  have hread : (sumTotalQueryTime i >>= fun total =>
      pwhFillV1StatusTuple (D := D) i j total).All Op.ReadsEntry :=
    (sumTotalQueryTime_all i).bind fun total =>
      pwhFillV1StatusTuple_all (fun _ => trivial) trivial trivial trivial total
  rw [← Prog.bind_assoc]
  refine Contract.wp_bind (Contract.wp_mono (wp_readsEntry hread
    ((sumTotalQueryTime_noRaise i).bind fun total => pwhFillV1StatusTuple_noRaise i j total) hs)
    (fun row t _ ht => ?_) fun _ _ h => h)
  refine wp_emit_read ht (fun u hu hret => ?_) fun u => hf row u
  obtain ⟨total, htotal, hrow⟩ := returnsBy_bind.mp hret
  obtain ⟨x, hx⟩ : ∃ x, acc[j]? = some x := ⟨_, List.getElem?_eq_getElem (hu.length_eq ▸ hj)⟩
  obtain ⟨hp, hid, htext, hnode, hmetric⟩ :=
    pwhFillV1StatusTuple_returns hx (sumTotalQueryTime_returns hu.length_eq htotal) hrow
  refine ⟨q, acc, _, ?_, hnode, hmetric⟩
  rw [hp, hid, htext]
  exact hu.isQuery

/-- One call of the view, from the place where it goes on. -/
theorem wp_v1StatusLoop_shown : ∀ k slotIdx nodeIdx (s : Traced D),
    (readContract srv r).wp false (v1StatusLoop srv k slotIdx nodeIdx) (fun _ _ => True)
      (fun _ => True) s
  | 0, _, _, _ => wp_noEmit ⟨Op.IsHousekeeping.ne_emit trivial, fun _ => trivial⟩
  | k + 1, slotIdx, nodeIdx, s => by
    have hnext : ∀ t, (readContract srv r).wp false (act (.mark .leaveEntry) >>= fun _ =>
        act (.setScan (some (slotIdx + 1, 0))) >>= fun _ => v1StatusLoop srv k (slotIdx + 1) 0)
        (fun _ _ => True) (fun _ => True) t := fun t =>
      wp_noEmit_bind (x := act (.mark .leaveEntry)) ⟨nofun, fun _ => trivial⟩ fun _ _ =>
        wp_noEmit_bind (x := act (.setScan (some (slotIdx + 1, 0))))
          ⟨Op.IsHousekeeping.ne_emit trivial, fun _ => trivial⟩ fun _ w =>
            wp_v1StatusLoop_shown k (slotIdx + 1) 0 w
    unfold v1StatusLoop
    refine wp_noEmit_bind ((pwhGetBackendEntry_housekeeping _).mono
      fun _ h => h.isHousekeeping.ne_emit) fun _ t => ?_
    refine wp_visitEntry fun t ht => ?_
    unfold isNodeCounted
    rw [Prog.bind_assoc]
    refine wp_isActive ht (fun u => hnext u) fun p q hd acc u hu => ?_
    refine Contract.wp_bind (Contract.wp_mono (wp_readsEntry
      (x := act (.readCountOfMetrics slotIdx.toNat) >>= fun count =>
        (.ret (decide (nodeIdx < count)) : PgProg D Bool)) ⟨trivial, fun _ => trivial⟩
      (fun _ => trivial) hu) (fun counted w _ hw => ?_) fun _ _ h => h)
    obtain ⟨count, hcount, rfl⟩ := hw.2
    obtain rfl := hcount rfl
    by_cases hlt : nodeIdx < hd.countOfMetrics
    · simp only [hlt, decide_true, if_true]
      exact wp_row_shown (UInt32.lt_iff_toNat_lt.mp hlt) hw.1 fun row x =>
        wp_noEmit ⟨Op.IsHousekeeping.ne_emit trivial, fun _ => trivial⟩
    · simp only [hlt, decide_false, Bool.false_eq_true, if_false]
      exact hnext w

/-! Every other call shows nothing. -/

omit [CDouble D] in
theorem Op.IsGood.ne_emit {o : Op D} (h : o.IsGood srv) (em : Emission D) : o ≠ .emit em := by
  rintro rfl
  exact h

omit [CDouble D] in
theorem Op.OfTrack.ne_emit {be : Nat} {o : Op D} (h : o.OfTrack be) (em : Emission D) :
    o ≠ .emit em := by
  rintro rfl
  exact h

/-- Nothing is shown when a query starts, whether its try block ends or raises an error. -/
theorem queryStartHook_noEmit (q : QueryDescPtr) :
    (queryStartHook srv r q).All fun o => ∀ em, o ≠ .emit em := by
  have htry : (pgTryCatch (queryStartTry srv r q) (queryStartCatch srv r)).All
      fun o => ∀ em, o ≠ .emit em := by
    refine Prog.All.catching (Prog.All.faulty nofun ?_)
      (queryStartCatch_all.mono fun _ h => h.isHousekeeping.ne_emit)
    refine ((pwhGetOrCreateMyBackendEntryImpl_all true).mono
      fun _ h => h.isHousekeeping.ne_emit).bind fun entry => ?_
    cases entry with
    | none => trivial
    | some be => exact (trackQuery_all be q).mono fun _ h => h.ne_emit
  unfold queryStartHook
  refine act_all (Op.IsHousekeeping.ne_emit trivial) fun _ => ?_
  refine act_all (Op.IsHousekeeping.ne_emit trivial) fun enabled => ?_
  cases enabled
  · trivial
  refine act_all (Op.IsHousekeeping.ne_emit trivial) fun minCost => ?_
  split
  · trivial
  refine act_all (Op.IsHousekeeping.ne_emit trivial) fun initialized => ?_
  cases initialized
  · exact (initializeStateOncePerBackend_all.mono fun _ h => h.ne_emit).bind fun _ => htry
  · exact htry

/-- **Every call** of a reader shows what is of one query. -/
theorem Call.program_shown (c : Call D) :
    (readContract srv r).wp false (c.program srv r) (fun _ _ => True) (fun _ => True) s := by
  cases c with
  | fork enabled minCost => exact wp_noEmit ⟨nofun, fun _ => trivial⟩
  | reload enabled minCost => exact wp_noEmit ⟨Op.IsHousekeeping.ne_emit trivial, fun _ => trivial⟩
  | executorStart q => exact wp_noEmit (queryStartHook_noEmit q)
  | executorEnd q => exact wp_noEmit ((queryEndHook_good q).mono fun _ h => h.ne_emit)
  | abort event =>
    exact wp_noEmit ((abortTransaction_all event).mono fun _ h => h.isHousekeeping.ne_emit)
  | commit => exact wp_noEmit (commitTransaction_all.mono fun _ h => h.isHousekeeping.ne_emit)
  | abortSub qs =>
    exact wp_noEmit ((abortSubTransaction_all qs).mono fun _ h => h.isHousekeeping.ne_emit)
  | fetchStatus =>
    refine Contract.wp_bind (Contract.wp_mono (Q := fun _ _ => True) ?_
      (fun _ _ _ _ => Contract.wp_ret Contract.stable_true trivial) fun _ _ h => h)
    unfold v1StatusF
    refine wp_noEmit_bind (x := act .getScan)
      ⟨Op.IsHousekeeping.ne_emit trivial, fun _ => trivial⟩ fun scan t => ?_
    cases scan with
    | some scan => exact wp_v1StatusLoop_shown _ _ _ t
    | none =>
      exact wp_noEmit_bind (v1StatusFirstCall_all.mono fun _ h => h.isHousekeeping.ne_emit)
        fun _ u => wp_v1StatusLoop_shown _ _ _ u
  | scrape req palloced =>
    refine Contract.wp_bind (Contract.wp_mono (Q := fun _ _ => True) ?_
      (fun _ _ _ _ => Contract.wp_ret Contract.stable_true trivial) fun _ _ h => h)
    unfold metricsHandler
    split
    · exact Contract.wp_ret Contract.stable_true trivial
    refine wp_noEmit_bind (x := act (.lwLockAcquire .LW_SHARED))
      ⟨Op.IsHousekeeping.ne_emit trivial, fun _ => trivial⟩ fun _ t => ?_
    refine wp_noEmit_bind ((cleanupOrphanedSlots_all _ _ _).mono
      fun _ h => h.isHousekeeping.ne_emit) fun _ t => ?_
    refine wp_noEmit_bind ((requestBackendMetrics_all _ _ _).mono
      fun _ h => h.isHousekeeping.ne_emit) fun _ t => ?_
    unfold pwhFormatOpenmetrics
    refine Contract.wp_bind (Contract.wp_bind (Contract.wp_mono (wp_formatEntries_shown _ _ _ t)
      (fun _ u _ _ => Contract.wp_ret_of Contract.stable_true trivial fun u _ _ => ?_)
      fun _ _ h => h))
    exact wp_noEmit ((pwhLwlockRelease_all nofun).bind fun _ => trivial)
  | exit => exact wp_noEmit (procExit_all.mono fun _ h => h.isHousekeeping.ne_emit)

/-- The signal handler does not disturb the visit it interrupts. -/
theorem wp_deliverSigusr2_read :
    (readContract srv r).wp false (deliverSigusr2 srv r) (fun _ t => ReadRely srv r s t)
      (fun _ => False) s := by
  have hgood : (pwhSigusr2Handler srv r).All (Op.IsGood srv) := pwhSigusr2Handler_good
  have hall : (deliverSigusr2 srv r).All fun o =>
      o.IsGood srv ∨ ∃ b, o = .setInSignalHandler b := by
    refine act_all (.inr ⟨true, rfl⟩) fun _ => Prog.All.bind ?_ fun _ =>
      ⟨.inr ⟨false, rfl⟩, fun _ => trivial⟩
    exact (hgood.mono fun _ h => .inl h).catching (h := .ret ()) trivial
  have hst : (readContract srv r).Stable (ReadRely srv r s) :=
    fun _ _ h hr _ => (readContract srv r).rely_trans h hr
  refine Contract.wp_noRaise deliverSigusr2_noRaise (Contract.wp_mono
    (Contract.wp_of_all hall hst ?_ ((readContract srv r).rely_refl s)) (fun _ _ _ h => h)
    fun _ _ _ => trivial)
  intro o t a t' ho _ ht _ h
  obtain ⟨e, he⟩ := h.exec
  have hvisiting : (t'.1.backends r).visiting = (t.1.backends r).visiting := by
    rcases ho with ho | ⟨b, rfl⟩
    · exact (visiting_of_isGood he ho).1
    · rw [← (Prod.mk.inj (Option.some.inj he)).2]
      simp
  refine ⟨trivial, ?_, (readContract srv r).rely_trans ht
    ⟨hvisiting, fun x hx => exec_measured he hx, fun i hi => h.keeps i hi (hvisiting.trans hi)⟩⟩
  rintro em rfl
  rcases ho with ho | ⟨b, hb⟩
  · exact ho.elim
  · cases hb

end Readers

/-! ## 5. The rule for readers -/

section Runs

variable {srv : Server D} {r : Pid}

/-- The next operation leaves the slot `r` is at as it is, and `r` comes to settled slots only. -/
def ReadsStep (srv : Server D) (r : Pid) (c : Config Pid (Traced D) (Res (D := D))) :
    Event Pid (Call D) Empty (Env D) → Prop
  | .run p e => ∀ o k a t, c.thread p = .op o k → exec srv p o e c.shared.1 = some (a, t) →
      (∀ i, (c.shared.1.backends r).visiting = some i → (t.backends r).visiting = some i →
        KeepsSlot srv i c.shared (t, addHistory p o c.shared.2)) ∧
      (p = r → ∀ i, o = .mark (.visitEntry i) → Settled srv (t, addHistory p o c.shared.2) i)
  | _ => True

/-- A run of such steps keeps to the contract of `r`, whatever the others do. -/
theorem reads_sound :
    System.SoundFor (tracedCluster srv) (ReadsStep srv r) r (readContract srv r)
      fun _ => True where
  sem_of_ok c e o k a s' hthread hok hx := by
    obtain ⟨⟨a, t⟩, hexec, heq⟩ := Option.map_eq_some_iff.mp hx
    cases heq
    obtain ⟨hkeeps, hvisits⟩ := hok o k a t hthread hexec
    exact ⟨⟨e, hexec⟩, hkeeps, hvisits rfl⟩
  assume_of_ok _ _ _ _ _ _ := trivial
  stable := Contract.stable_true
  others c j e o k a s' hj hthread hok hx _ := by
    obtain ⟨⟨a, t⟩, hexec, heq⟩ := Option.map_eq_some_iff.mp hx
    cases heq
    have hsame : t.backends r = c.shared.1.backends r := exec_backends_of_ne hexec (Ne.symm hj)
    exact ⟨trivial, by rw [hsame], fun x hx => exec_measured hexec hx, fun i hi =>
      (hok o k a t hthread hexec).1 i hi (by rw [hsame]; exact hi)⟩
  call c cl prog _ _ _ henter := by
    obtain ⟨-, hprog⟩ := Option.ite_none_right_eq_some.mp henter
    cases hprog
    exact Call.program_shown cl
  interrupt c prog _ _ hint := by
    obtain ⟨-, hprog⟩ := Option.ite_none_right_eq_some.mp hint
    cases hprog
    exact wp_deliverSigusr2_read
  external _ x := nomatch x

/-- What a reader shows is of one query. -/
theorem reads_hold {c : Config Pid (Traced D) (Res (D := D))} {g : Pid → History}
    (h : (tracedCluster srv).Reach (ReadsStep srv r) ⟨(State.init, g), fun _ => .ret ()⟩ c)
    {em : Emission D} {k : Unit → PgProg D Unit} (hnext : c.thread r = .op (.emit em) k) :
    OfOneQuery srv c.shared.1 em := by
  obtain ⟨-, hwp⟩ : System.SoundFor.Holds r (readContract srv r) (fun _ => True) c :=
    System.Reach.sound_for reads_sound trivial trivial rfl h
  rw [hnext] at hwp
  refine ((hwp _ ((readContract srv r).rely_refl _) trivial).2 trivial ()
    (c.shared.1.modifyBackend r fun b => { b with visiting := none }, c.shared.2)
    ⟨⟨{}, rfl⟩, fun i _ hi => ?_, nofun⟩).2.1 em rfl
  simp at hi

end Runs

end WhatIsHappening
