/-
# The values of a slot

What stands in the records of a slot was measured on the plan nodes they are about.  A visitor
writes what it has just read of the node that the record was made for (`Watch.numbers`), and a
record is made with zeroes in it; so each single write is right for its record, and a value that
is right stays right whoever does what (`ValuesKept`).
-/
import WhatIsHappening.Backend.Among

namespace WhatIsHappening

open Interleaving Prog

variable {D : Type} [CDouble D]

/-! ## 1. Values

Beside the table a `Traced` state has what each process recorded and what it read of the plan; the
values are judged against that. -/

/-- A value of a plan node: nothing yet, or what was read of its instrumentation. -/
def MeasuredOf (measured : List (PlanStatePtr × Instrumentation D)) (ps : PlanStatePtr)
    (f : NodeField) (v : f.ty D) : Prop :=
  v = PwhNodeMetrics.zero.get f ∨
    ∃ instr, (ps, instr) ∈ measured ∧ ⟨f, v⟩ ∈ instrumentationFields instr

/-- What was read once has been read for good. -/
theorem MeasuredOf.mono {measured measured' : List (PlanStatePtr × Instrumentation D)}
    {ps : PlanStatePtr} {f : NodeField} {v : f.ty D} (h : MeasuredOf measured ps f v)
    (hsub : ∀ x ∈ measured, x ∈ measured') : MeasuredOf measured' ps f v := by
  rcases h with hzero | ⟨instr, hmem, hv⟩
  · exact .inl hzero
  · exact .inr ⟨instr, hsub _ hmem, hv⟩

/-- The value in a record is one of the node that process `p` made the record for. -/
def ValueOk (p : Pid) (s : Traced D) (i j : Nat) (f : NodeField) : Prop :=
  ∀ ps, (s.2 p).node i j = some ps →
    MeasuredOf s.1.measured ps f (((s.1.entries i).metrics j).get f)

/-- Values that are right stay right in records that stay those of their nodes. -/
def ValuesKept (p : Pid) (s t : Traced D) : Prop :=
  ∀ i j f, f.identifies = false → (t.2 p).node i j = (s.2 p).node i j →
    ValueOk p s i j f → ValueOk p t i j f

/-- The values of the counted records are right in a slot that shows the current query. -/
structure ValuesInv (p : Pid) (s : Traced D) : Prop where
  last : (s.1.backends p).isRecording = false → ∀ q,
    (s.1.backends p).currentQueryDesc = some q → (s.1.backends p).lastRecorded = some q
  values : (s.1.backends p).isRecording = false → (s.1.backends p).currentQueryDesc ≠ none →
    ∀ i hd, (ownView p s).slot i = some hd → ∀ j < hd.countOfMetrics.toNat, ∀ f,
      f.identifies = false → ValueOk p s i j f

/-! ## 2. The contract

It stands above the one of the view: a step is assumed to be one of a run in which each slot has one
owner (`Watched`), and what is added concerns values only. -/

/-- What the others may do, and the signal handler of the process. -/
structure ValuesRely (p : Pid) (s t : Traced D) : Prop where
  view : ownView p s = ownView p t
  last : (t.1.backends p).lastRecorded = (s.1.backends p).lastRecorded
  measured : ∀ x ∈ s.1.measured, x ∈ t.1.measured
  values : ∀ i j f, f.identifies = false → (ownView p s).slot i ≠ none → ValueOk p s i j f →
    ValueOk p t i j f

/-- An operation of `p` in a run in which slots have one owner, and every process keeps to its
watch. -/
structure Watched (srv : Server D) (p : Pid) (o : Op D) (s : Traced D) (r : Res o)
    (t : Traced D) : Prop where
  exec : ∃ e, exec srv p o e s.1 = some (r, t.1)
  history : t.2 = addHistory p o s.2
  inv : SlotInv freeClaims srv t.1
  slots : SlotGuar freeClaims p o s.1 t.1
  watch : shownWatch.guar srv o (ownView p s)

theorem ValuesRely.refl (p : Pid) (s : Traced D) : ValuesRely p s s where
  view := rfl
  last := rfl
  measured _ h := h
  values _ _ _ _ _ h := h

theorem ValuesRely.trans {p : Pid} {s t u : Traced D} (h : ValuesRely p s t)
    (h' : ValuesRely p t u) : ValuesRely p s u where
  view := h.view.trans h'.view
  last := h'.last.trans h.last
  measured x hx := h'.measured x (h.measured x hx)
  values i j f hf hi hv := h'.values i j f hf (h.view ▸ hi) (h.values i j f hf hi hv)

/-- The contract of process `p`. -/
def valuesContract (srv : Server D) (p : Pid) : Contract (Res (D := D)) (Traced D) where
  sem := Watched srv p
  inv := ValuesInv p
  rely := ValuesRely p
  assume _ _ := True
  guar _ s _ t := ValuesKept p s t
  rely_refl := ValuesRely.refl p
  rely_trans := ValuesRely.trans

/-- The others keep the invariant. -/
theorem ValuesInv.of_rely {p : Pid} {s t : Traced D} (hi : ValuesInv p s) (h : ValuesRely p s t) :
    ValuesInv p t := by
  have hrec : (t.1.backends p).isRecording = (s.1.backends p).isRecording :=
    (congrArg View.isRecording h.view).symm
  have hcur : (t.1.backends p).currentQueryDesc = (s.1.backends p).currentQueryDesc :=
    (congrArg View.current h.view).symm
  refine ⟨fun hr q hq => ?_, fun hr hq i hd hslot j hj f hf => ?_⟩
  · rw [h.last]
    exact hi.last (hrec ▸ hr) q (hcur ▸ hq)
  · rw [← h.view] at hslot
    refine h.values i j f hf (hslot ▸ Option.some_ne_none hd) ?_
    exact hi.values (hrec ▸ hr) (hcur ▸ hq) i hd hslot j hj f hf

/-! ## 3. One step

Only two operations have to be looked at, the write of a value and the one that sets
`CURRENT_QUERY_DESC`; all others neither write a value nor make a slot show a query. -/

section Step

variable {srv : Server D} {p : Pid} {o : Op D} {s t : Traced D} {r : Res o}

/-- Where an operation writes a value, it is one of the node of the record. -/
def WritesMeasured (p : Pid) (s : Traced D) (o : Op D) : Prop :=
  ∀ i j f v, o = .writeNode i j f v → f.identifies = false → ∀ ps,
    (s.2 p).node i j = some ps → MeasuredOf s.1.measured ps f v

omit [CDouble D] in
/-- The view after an operation. -/
theorem Watched.view (h : Watched srv p o s r t) :
    ∃ hd, ownView p t = (ownView p s).after p hd o := by
  obtain ⟨e, he⟩ := h.exec
  obtain ⟨hd, hview⟩ := view_exec (exec_own he (s.2 p))
  refine ⟨hd, ?_⟩
  simpa [ownView, h.history, addHistory] using hview

omit [CDouble D] in
/-- Nothing that was read is forgotten. -/
theorem Watched.measured (h : Watched srv p o s r t) : ∀ x ∈ s.1.measured, x ∈ t.1.measured := by
  obtain ⟨e, he⟩ := h.exec
  exact fun x hx => exec_measured he hx

/-- One operation keeps the values that are right. -/
theorem Watched.keeps (h : Watched srv p o s r t) (hw : WritesMeasured p s o) :
    ValuesKept p s t := by
  intro i j f hf hnode hs ps hps
  obtain ⟨e, he⟩ := h.exec
  rw [hnode] at hps
  rcases exec_node he i j f with heq | ⟨v, ho, heq⟩
  · rw [heq]
    exact (hs ps hps).mono h.measured
  · rw [heq]
    exact (hw i j f v ho hf ps hps).mono h.measured

/-- An operation that the process does not see looks like one of the others. -/
theorem Watched.rely (h : Watched srv p o s r t) (hw : WritesMeasured p s o)
    (hv : ∀ v hd, View.after p hd v o = v) : ValuesRely p s t := by
  obtain ⟨hd, hview⟩ := h.view
  rw [hv] at hview
  obtain ⟨e, he⟩ := h.exec
  have hnode : (t.2 p).node = (s.2 p).node := congrArg View.node hview
  refine ⟨hview.symm, ?_, h.measured, fun i j f hf _ => h.keeps hw i j f hf (by rw [hnode])⟩
  -- a process that records a query, or starts anew, sees it
  rcases exec_lastRecorded he with hl | ⟨i, q, rfl, -⟩ | ⟨enabled, minCost, rfl⟩
  · exact hl
  · have := congrArg View.isRecording (hv { ownView p s with isRecording := false } hd)
    exact absurd this nofun
  · have := congrArg View.isAlive (hv { ownView p s with isAlive := false } hd)
    exact absurd this nofun

omit [CDouble D] in
/-- What a slot shows after a change is what it showed, or its change. -/
theorem View.slot_modifySlot {v : View D} {i k : Nat} {f : Header → Header} {h' : Header}
    (hk : (v.modifySlot i f).slot k = some h') : ∃ h, v.slot k = some h ∧ (h' = h ∨ h' = f h) := by
  by_cases hki : k = i
  · subst hki
    simp only [View.modifySlot, Function.update_self] at hk
    obtain ⟨h, hh, rfl⟩ := Option.map_eq_some_iff.mp hk
    exact ⟨h, hh, .inr rfl⟩
  · simp only [View.modifySlot, Function.update_of_ne hki] at hk
    exact ⟨h', hk, .inl rfl⟩

omit [CDouble D] in
/-- What holds of a slot that shows the current query after an operation held before it. -/
theorem View.after_settled {v v' : View D} {hd : Header} (hv : v' = v.after p hd o)
    (hg : shownWatch.guar srv o v) (hp : p ≠ 0) (hset : ∀ q, o ≠ .setCurrentQueryDesc (some q))
    (hrec : v'.isRecording = false) (hcur : v'.current ≠ none) :
    v.isRecording = false ∧ v.current = v'.current ∧ v'.node = v.node ∧
      ∀ i h', v'.slot i = some h' → ∃ h, v.slot i = some h ∧
        h'.countOfMetrics = h.countOfMetrics := by
  have hmodify : ∀ i (f : Header → Header), (∀ h, (f h).countOfMetrics = h.countOfMetrics) →
      ∀ k h', (v.modifySlot i f).slot k = some h' →
        ∃ h, v.slot k = some h ∧ h'.countOfMetrics = h.countOfMetrics := by
    intro i f hf k h' hk
    obtain ⟨h, hh, rfl | rfl⟩ := View.slot_modifySlot hk
    · exact ⟨h', hh, rfl⟩
    · exact ⟨h, hh, hf h⟩
  subst hv
  cases o
  case setCurrentQueryDesc q =>
    cases q with
    | none => exact absurd rfl hcur
    | some q => exact absurd rfl (hset q)
  case fork enabled minCost => exact absurd rfl hcur
  case mark m =>
    cases m
    case rememberQuery i q => cases hrec
    case rememberNode i j ps => exact absurd ((hg rfl).symm.trans hrec) nofun
    all_goals exact ⟨hrec, rfl, rfl, fun i h' hi => ⟨h', hi, rfl⟩⟩
  case writeCountOfMetrics i n => exact absurd ((hg rfl).symm.trans hrec) nofun
  case writeBackendPid i w =>
    rcases hg rfl with hw | hno
    · subst hw
      refine ⟨hrec, rfl, rfl, fun k h' hk => ?_⟩
      by_cases hki : k = i
      · subst hki
        simp [View.after, Ne.symm hp] at hk
      · simp only [View.after, Function.update_of_ne hki] at hk
        exact ⟨h', hk, rfl⟩
    · exact absurd hno hcur
  case writeQueryId i id => exact ⟨hrec, rfl, rfl, hmodify i _ fun _ => rfl⟩
  case writeQueryTextByte i k b => exact ⟨hrec, rfl, rfl, hmodify i _ fun _ => rfl⟩
  case writeNode i j f w => exact ⟨hrec, rfl, rfl, hmodify i _ fun _ => rfl⟩
  all_goals exact ⟨hrec, rfl, rfl, fun i h' hi => ⟨h', hi, rfl⟩⟩

/-- Every operation but the one that sets `CURRENT_QUERY_DESC` keeps the invariant. -/
theorem Watched.valuesInv (h : Watched srv p o s r t) (hp : p ≠ 0) (hi : ValuesInv p s)
    (hw : WritesMeasured p s o) (hset : ∀ q, o ≠ .setCurrentQueryDesc (some q)) :
    ValuesInv p t := by
  obtain ⟨hd, hview⟩ := h.view
  obtain ⟨e, he⟩ := h.exec
  refine ⟨fun hrec q hq => ?_, fun hrec hcur i hd' hslot j hj f hf => ?_⟩
  · have hsome : (ownView p t).current ≠ none := fun hno => nomatch hno.symm.trans hq
    obtain ⟨hrec', hcur', -⟩ := View.after_settled hview h.watch hp hset hrec hsome
    have hlast := hi.last hrec' q (hcur'.trans hq)
    rcases exec_lastRecorded he with hl | ⟨i, q', rfl, -⟩ | ⟨enabled, minCost, rfl⟩
    · rw [hl]
      exact hlast
    · cases (congrArg View.isRecording hview).symm.trans hrec
    · cases (congrArg View.current hview).symm.trans hq
  · obtain ⟨hrec', hcur', hnode, hslots⟩ := View.after_settled hview h.watch hp hset hrec hcur
    obtain ⟨hd, hs, hcount⟩ := hslots i hd' hslot
    refine h.keeps hw i j f hf ?_ (hi.values hrec' ?_ i hd hs j (hcount ▸ hj) f hf)
    · exact congrFun (congrFun hnode i) j
    · exact fun hno => hcur (hcur'.symm.trans hno)

end Step

/-! ## 4. Rules

Operations that write no value and track no query (`Op.IsTame`) are covered at once. -/

section Rules

variable {α : Type} {srv : Server D} {p : Pid} {m : Bool} {o : Op D} {f : Res o → PgProg D α}
  {Q : α → Traced D → Prop} {E A : Traced D → Prop} {s s₀ : Traced D}

/-- One operation. -/
theorem wp_values (hp : p ≠ 0) (hst : (valuesContract srv p).Stable A) (hA : A s)
    (hE : m = true → ∀ t, A t → E t) (hset : ∀ q, o ≠ .setCurrentQueryDesc (some q))
    (hw : ∀ t, A t → WritesMeasured p t o)
    (hk : ∀ t r t', A t → Watched srv p o t r t' → ValuesKept p t t' →
      (valuesContract srv p).wp m (f r) Q E t') :
    (valuesContract srv p).wp m (act o >>= f) Q E s := by
  refine Contract.wp_op hst hA (fun hm t _ h => hE hm t h) fun t r t' hi hAt _ h => ?_
  have hkept := h.keeps (hw t hAt)
  exact ⟨h.valuesInv hp hi (hw t hAt) hset, hkept, hk t r t' hAt h hkept⟩

/-- An operation that the process does not see. -/
theorem wp_values_unseen (hst : (valuesContract srv p).Stable A) (hA : A s)
    (hE : m = true → ∀ t, A t → E t) (hv : ∀ v hd, View.after p hd v o = v)
    (hw : ∀ t, A t → WritesMeasured p t o)
    (hk : ∀ t r t', A t → Watched srv p o t r t' → ValuesInv p t' → A t' →
      (valuesContract srv p).wp m (f r) Q E t') :
    (valuesContract srv p).wp m (act o >>= f) Q E s := by
  refine Contract.wp_op hst hA (fun hm t _ h => hE hm t h) fun t r t' hi hAt _ h => ?_
  have hr := h.rely (hw t hAt) hv
  have hi' := hi.of_rely hr
  exact ⟨hi', h.keeps (hw t hAt), hk t r t' hAt h hi' (hst t t' hAt hr hi')⟩

/-- An operation that writes no record. -/
theorem writesMeasured_of_not_writeNode (h : ∀ i j f v, o ≠ .writeNode i j f v)
    (t : Traced D) : WritesMeasured p t o :=
  fun i j f v ho => absurd ho (h i j f v)

/-- Nothing but what the others may do. -/
theorem stable_valuesRely (s₀ : Traced D) :
    (valuesContract srv p).Stable (ValuesRely p s₀) :=
  fun _ _ h hr _ => h.trans hr

/-- The operations with which no value is written and no query tracked. -/
def Op.IsTame (o : Op D) : Prop :=
  (∀ q, o ≠ .setCurrentQueryDesc (some q)) ∧ ∀ i j f v, o ≠ .writeNode i j f v

omit [CDouble D] in
theorem Op.IsHousekeeping.isTame {o : Op D} (h : o.IsHousekeeping) : o.IsTame := by
  refine ⟨?_, ?_⟩
  · rintro q rfl
    cases h
  · rintro i j f v rfl
    exact h

omit [CDouble D] in
theorem Op.OfReader.isTame {o : Op D} (h : o.OfReader) : o.IsTame := by
  refine ⟨?_, ?_⟩
  · rintro q rfl
    exact h
  · rintro i j f v rfl
    exact h

/-- A program of such operations. -/
theorem wp_tame (hp : p ≠ 0) {prog : PgProg D α} (hall : prog.All Op.IsTame) :
    (valuesContract srv p).wp m prog (fun _ _ => True) (fun _ => True) s := by
  refine Contract.wp_of_all hall Contract.stable_true ?_ trivial
  rintro o t r t' ⟨hset, hno⟩ hi - - h
  have hw := writesMeasured_of_not_writeNode (p := p) hno t
  exact ⟨h.valuesInv hp hi hw hset, h.keeps hw, trivial⟩

end Rules

/-! ## 5. The walk that measures

Between the read of an instrumentation and the writes that follow, the record stays that of the node
that was read: nobody else records into this slot. -/

section Measuring

variable {α : Type} {srv : Server D} {p : Pid} {m : Bool} {s s₀ : Traced D} {be : Nat}

/-- An operation in a program that does nothing but what the others may do. -/
theorem wp_values_read {o : Op D} {f : Res o → PgProg D α} {Q : α → Traced D → Prop}
    {A : Traced D → Prop} (hst : (valuesContract srv p).Stable A) (hA : A s)
    (hv : ∀ v hd, View.after p hd v o = v) (hno : ∀ i j f v, o ≠ .writeNode i j f v)
    (hk : ∀ t r t', A t → A t' → Watched srv p o t r t' →
      (valuesContract srv p).wp m (f r) Q A t') :
    (valuesContract srv p).wp m (act o >>= f) Q A s :=
  wp_values_unseen hst hA (fun _ _ h => h) hv (fun t _ => writesMeasured_of_not_writeNode hno t)
    fun t r t' hAt h _ hAt' => hk t r t' hAt hAt' h

/-- Record `j` of slot `be` is about the plan node that was just read. -/
def ReadFor (p : Pid) (s₀ : Traced D) (be j : Nat) (ps : PlanStatePtr) (instr : Instrumentation D)
    (s : Traced D) : Prop :=
  ValuesRely p s₀ s ∧ (s.2 p).node be j = some ps ∧ (ps, instr) ∈ s.1.measured

/-- The node of a record stays the one it was made for. -/
theorem stable_recordedNode (j : Nat) (ps : PlanStatePtr) :
    (valuesContract srv p).Stable fun s => (s.2 p).node be j = some ps := by
  intro s t h hr _
  have hnode : (s.2 p).node = (t.2 p).node := congrArg View.node hr.view
  rwa [← hnode]

/-- So does what was read for it. -/
theorem stable_readFor (j : Nat) (ps : PlanStatePtr) (instr : Instrumentation D) :
    (valuesContract srv p).Stable (ReadFor p s₀ be j ps instr) :=
  (stable_valuesRely s₀).and ((stable_recordedNode j ps).and fun _ _ h hr _ => hr.measured _ h)

/-- The visitor's writes, one by one. -/
theorem wp_writeMeasured {j : Nat} {ps : PlanStatePtr} {instr : Instrumentation D} :
    ∀ (ws : List (Sigma fun f : NodeField => f.ty D)) (s : Traced D),
      (∀ w ∈ ws, w.1.identifies = false ∧ w ∈ instrumentationFields instr) →
      ReadFor p s₀ be j ps instr s →
      (valuesContract srv p).wp m (writeNodeFields be j ws) (fun _ => ValuesRely p s₀)
        (ValuesRely p s₀) s
  | [], s, _, hs => Contract.wp_ret (stable_valuesRely s₀) hs.1
  | w :: ws, s, hws, hs => by
    obtain ⟨hf, hmem⟩ := hws w (by simp)
    refine wp_values_unseen (stable_readFor j ps instr) hs (fun _ _ h => h.1) ?_ ?_
      fun t _ t' _ _ _ ht' => wp_writeMeasured ws t' (fun w hw => hws w (by simp [hw])) ht'
    · intro v hd
      simp [View.after, View.modifySlot, NodeIdent.set_of_not_identifies _ _ hf]
    · rintro t ⟨-, hnode, hmeasured⟩ i' j' f v ho - ps' hps'
      cases ho
      obtain rfl : ps = ps' := Option.some.inj (hnode.symm.trans hps')
      exact .inr ⟨instr, hmeasured, hmem⟩

/-- The visitor writes what it has just read of the node of the record. -/
theorem wp_instrumentationVisitor_values {maxNodes counter : Nat} {ps : PlanStatePtr}
    {parentId : Int} (hs : ValuesRely p s₀ s) :
    (valuesContract srv p).wp m (instrumentationVisitor be maxNodes ps parentId counter)
      (fun _ => ValuesRely p s₀) (ValuesRely p s₀) s := by
  have hst : (valuesContract srv p).Stable (ValuesRely p s₀) := stable_valuesRely s₀
  unfold instrumentationVisitor
  split
  · exact Contract.wp_ret hst hs
  rw [pwhValidateNodeMagic_bind]
  refine wp_values_read hst hs (fun _ _ => rfl) (by simp) fun _ magic t _ ht _ => ?_
  split
  swap
  · exact Contract.wp_ret hst ht
  -- the watch grants that the node measured is the one the record was made for
  refine wp_values_read hst ht (fun _ _ => rfl) (by simp) fun u _ u' hu hu' h => ?_
  have hnode : (u'.2 p).node be counter = some ps := by
    have : (u.2 p).node be counter = some ps := h.watch rfl
    rw [h.history]
    simpa [addHistory, History.add] using this
  refine wp_values_unseen (o := .readInstrument ps) (hst.and (stable_recordedNode counter ps))
    ⟨hu', hnode⟩ (fun _ _ h => h.1) (fun _ _ => rfl)
    (fun _ _ _ _ _ _ ho => by simp at ho) fun w instr w' _ h _ hw' => ?_
  cases instr with
  | none => exact Contract.wp_ret hst hw'.1
  | some instr =>
    have hmeasured : (ps, instr) ∈ w'.1.measured := by
      obtain ⟨e, he⟩ := h.exec
      obtain ⟨hi, ht⟩ := Prod.mk.inj (Option.some.inj he)
      have hi : e.instrument = some instr := hi
      rw [← ht, hi]
      exact List.mem_cons_self
    exact Contract.wp_bind (Contract.wp_mono (wp_writeMeasured _ w'
      (fun x hx => ⟨instrumentationFields_identifies instr x hx, hx⟩) ⟨hw'.1, hw'.2, hmeasured⟩)
      (fun _ t _ ht => Contract.wp_ret hst ht) fun _ _ h => h)

/-- `pwh_collect_planstate_metrics` writes what it measures. -/
theorem wp_collect_values (ps : Option PlanStatePtr) (maxNodes : Nat) (hs : ValuesRely p s₀ s) :
    (valuesContract srv p).wp m (pwhCollectPlanstateMetrics srv ps be maxNodes)
      (fun _ => ValuesRely p s₀) (ValuesRely p s₀) s := by
  have hst : (valuesContract srv p).Stable (ValuesRely p s₀) := stable_valuesRely s₀
  cases ps with
  | none => exact Contract.wp_ret hst hs
  | some ps =>
    refine wp_values_read hst hs (fun _ _ => rfl) nofun fun _ _ t _ ht _ => ?_
    refine wp_values_read hst ht (fun _ _ => rfl) nofun fun _ stackFrames u _ hu _ => ?_
    refine Contract.wp_bind (Contract.wp_mono (wp_walkPlanstateRecursive
      (I := fun _ => ValuesRely p s₀) (fun _ => hst) (fun _ v hv => ?_)
      (fun _ _ _ _ hv => wp_instrumentationVisitor_values hv) stackFrames (some ps) (-1) 0 u hu)
      (fun _ _ _ hv => Contract.wp_ret hst hv) fun _ _ h => h)
    exact wp_values_read hst hv (fun _ _ => rfl) nofun fun _ _ _ _ hw _ => Contract.wp_raise hst hw

end Measuring

/-! ## 6. The fill

A new record holds zeroes, which stand for `not measured yet`; once the count is written the slot
may be shown (`Counted`). -/

section Fill

variable {srv : Server D} {p : Pid} {m : Bool} {s : Traced D} {be n : Nat} {q : QueryDescPtr}

/-- The process fills slot `be` for the query `q`; the values of the first `n` records are
right. -/
structure Filling (p : Pid) (be : Nat) (q : QueryDescPtr) (n : Nat) (s : Traced D) : Prop where
  last : (s.1.backends p).lastRecorded = some q
  recording : (ownView p s).isRecording = true
  mine : (ownView p s).slot be ≠ none
  values : ∀ j < n, ∀ f, f.identifies = false → ValueOk p s be j f

theorem stable_filling : (valuesContract srv p).Stable (Filling p be q n) := by
  intro s t h hr _
  refine ⟨hr.last.trans h.last, hr.view ▸ h.recording, hr.view ▸ h.mine, fun j hj f hf => ?_⟩
  exact hr.values be j f hf h.mine (h.values j hj f hf)

/-- The operations of a fill, after the one that starts it. -/
def Op.OfFill : Op D → Prop
  | .stackFramesLeft | .ereportError | .getCurrentTimestamp | .writeCountOfMetrics _ _
  | .writeQueryStartTime _ _ | .writeQueryId _ _ | .writeQueryTextByte _ _ _ | .writeNode _ _ _ _
  | .mark (.rememberNode _ _ _) => True
  | _ => False

/-- ...keep what is known of it. -/
theorem Filling.step {o : Op D} {r : Res o} {t : Traced D} (hs : Filling p be q n s)
    (h : Watched srv p o s r t) (hk : ValuesKept p s t) (ho : o.OfFill)
    (hnode : ∀ j < n, (t.2 p).node be j = (s.2 p).node be j) : Filling p be q n t := by
  obtain ⟨hd, hview⟩ := h.view
  obtain ⟨e, he⟩ := h.exec
  have hmodify : ∀ (v : View D) i (f : Header → Header), v.slot be ≠ none →
      (v.modifySlot i f).slot be ≠ none := by
    intro v i f hv
    by_cases hi : be = i
    · subst hi
      simpa [View.modifySlot] using hv
    · simpa [View.modifySlot, hi] using hv
  refine ⟨?_, ?_, ?_, fun j hj f hf => hk be j f hf (hnode j hj) (hs.values j hj f hf)⟩
  · rcases exec_lastRecorded he with hl | ⟨i, q, rfl, -⟩ | ⟨enabled, minCost, rfl⟩
    · rw [hl]
      exact hs.last
    · exact ho.elim
    · exact ho.elim
  · rw [hview]
    cases o
    case mark m => cases m <;> first | exact ho.elim | exact hs.recording
    all_goals first | exact ho.elim | exact hs.recording
  · rw [hview]
    cases o
    case mark m => cases m <;> first | exact ho.elim | exact hs.mine
    all_goals first | exact ho.elim | exact hs.mine | exact hmodify _ _ _ hs.mine

/-- An operation of a fill that makes no record. -/
theorem wp_filling {α : Type} (hp : p ≠ 0) {o : Op D} {f : Res o → PgProg D α}
    {Q : α → Traced D → Prop} (ho : o.OfFill) (hno : ∀ i j ps, o ≠ .mark (.rememberNode i j ps))
    (hw : ∀ t, WritesMeasured p t o) (hs : Filling p be q n s)
    (hk : ∀ t r t', Filling p be q n t → Filling p be q n t' → Watched srv p o t r t' →
      ValuesKept p t t' → (valuesContract srv p).wp m (f r) Q (fun _ => True) t') :
    (valuesContract srv p).wp m (act o >>= f) Q (fun _ => True) s := by
  refine wp_values hp stable_filling hs (fun _ _ _ => trivial) ?_ (fun t _ => hw t)
    fun t r t' ht h hkept => hk t r t' ht (ht.step h hkept ho fun j _ => ?_) h hkept
  · rintro q rfl
    exact ho
  · rw [h.history]
    simp only [addHistory, Function.update_self]
    exact History.add_node (hno be j) _

/-- The fields of record `j` that have been written. -/
def FieldsOk (p : Pid) (be j : Nat) (fs : List NodeField) (s : Traced D) : Prop :=
  ∀ f ∈ fs, f.identifies = false → ValueOk p s be j f

/-- The fields that are right stay right while the record is written. -/
theorem stable_fieldsOk (j : Nat) (fs : List NodeField) :
    (valuesContract srv p).Stable fun s => Filling p be q n s ∧ FieldsOk p be j fs s := by
  intro s t h hr hi
  exact ⟨stable_filling s t h.1 hr hi,
    fun f hf hid => hr.values be j f hid h.1.mine (h.2 f hf hid)⟩

/-- A record that is made anew holds no value yet. -/
theorem wp_writeZeroes (hp : p ≠ 0) {j : Nat} :
    ∀ (ws : List (Sigma fun f : NodeField => f.ty D)) (done : List NodeField) (s : Traced D),
      (∀ w ∈ ws, w.1.identifies = false → w.2 = PwhNodeMetrics.zero.get w.1) →
      Filling p be q n s → FieldsOk p be j done s →
      (valuesContract srv p).wp m (writeNodeFields be j ws)
        (fun _ t => Filling p be q n t ∧ FieldsOk p be j (done ++ ws.map Sigma.fst) t)
        (fun _ => True) s
  | [], done, s, _, hs, hdone =>
    Contract.wp_ret_of (stable_fieldsOk j done) ⟨hs, hdone⟩ fun _ _ h => by simpa using h
  | w :: ws, done, s, hws, hs, hdone => by
    have hzero := hws w (by simp)
    refine wp_values hp (stable_fieldsOk j done) ⟨hs, hdone⟩ (fun _ _ _ => trivial) nofun
      (fun t _ i j f v ho hf ps _ => ?_) fun t r t' ht h hkept => ?_
    · cases ho
      exact .inl (hzero hf)
    have hnode : (t'.2 p).node = (t.2 p).node := by
      rw [h.history]
      simp [addHistory, History.add]
    have hs' : Filling p be q n t' := ht.1.step h hkept trivial fun j _ => by rw [hnode]
    have hdone' : FieldsOk p be j (done ++ [w.1]) t' := by
      intro f hf hid
      rcases List.mem_append.mp hf with hf | hf
      · exact hkept be j f hid (by rw [hnode]) (ht.2 f hf hid)
      · obtain rfl := List.mem_singleton.mp hf
        obtain ⟨e, he⟩ := h.exec
        intro ps _
        rw [metrics_writeNode he, if_pos ⟨rfl, rfl⟩, PwhNodeMetrics.get_set_self]
        exact .inl (hzero hid)
    have := wp_writeZeroes hp ws (done ++ [w.1]) t' (fun x hx => hws x (by simp [hx])) hs' hdone'
    simpa [List.append_assoc] using this

/-- The values of a new record are zeroes. -/
theorem topologyFields_zero (id : Nat) (parentId : Int) (tag : NodeTag) :
    ∀ w ∈ topologyFields (D := D) id parentId tag, w.1.identifies = false →
      w.2 = PwhNodeMetrics.zero.get w.1 := by
  intro w hw
  simp only [topologyFields, List.mem_cons, List.not_mem_nil, or_false] at hw
  rcases hw with rfl | rfl | rfl | rfl | rfl | rfl | rfl | rfl | rfl | rfl | rfl | rfl | rfl |
    rfl | rfl | rfl <;> first | exact fun _ => rfl | exact fun h => by cases h

/-- The visitor makes one record more, with zeroes in it. -/
theorem wp_topologyVisitor_values (hp : p ≠ 0) {maxNodes counter : Nat} {ps : PlanStatePtr}
    {parentId : Int} (hs : Filling p be q counter s) :
    (valuesContract srv p).wp m (topologyVisitor srv be maxNodes ps parentId counter)
      (fun r => Filling p be q r.2) (fun _ => True) s := by
  unfold topologyVisitor
  split
  · exact Contract.wp_ret stable_filling hs
  refine wp_values hp stable_filling hs (fun _ _ _ => trivial) (by simp)
    (fun _ _ _ _ _ _ ho => by simp at ho) fun t _ t' ht h hkept => ?_
  have hs' : Filling p be q counter t' := by
    refine ht.step h hkept trivial fun j hj => ?_
    rw [h.history]
    simp [addHistory, History.add, Nat.ne_of_lt hj]
  refine Contract.wp_bind (Contract.wp_mono (wp_writeZeroes hp _ [] t' (topologyFields_zero _ _ _)
    hs' (fun _ h => by cases h)) (fun _ u _ hu => ?_) fun _ _ h => h)
  refine Contract.wp_ret stable_filling ⟨hu.1.last, hu.1.recording, hu.1.mine, fun j hj f hf => ?_⟩
  rcases Nat.lt_succ_iff_lt_or_eq.mp hj with hj | rfl
  · exact hu.1.values j hj f hf
  · exact hu.2 f (by simpa using mem_topologyFields (D := D) j parentId _ f) hf

/-- `pwh_remember_planstate_tree_as_metric_structure` leaves right values in as many records as it
counts. -/
theorem wp_remember_values (hp : p ≠ 0) (ps : Option PlanStatePtr) (maxNodes : Nat)
    (hs : Filling p be q 0 s) :
    (valuesContract srv p).wp m (pwhRememberPlanstateTreeAsMetricStructure srv ps be maxNodes)
      (fun n => Filling p be q n) (fun _ => True) s := by
  cases ps with
  | none => exact Contract.wp_ret stable_filling hs
  | some ps =>
    refine wp_filling hp (o := .stackFramesLeft) trivial nofun (fun _ _ _ _ _ ho => nomatch ho) hs
      fun _ stackFrames t _ ht _ _ => ?_
    refine Contract.wp_bind (Contract.wp_mono (wp_walkPlanstateRecursive
      (I := fun counter => Filling p be q counter) (fun _ => stable_filling) (fun _ u hu => ?_)
      (fun _ _ _ _ hu => wp_topologyVisitor_values hp hu) stackFrames (some ps) (-1) 0 t ht)
      (fun _ _ _ hu => Contract.wp_ret stable_filling hu) fun _ _ h => h)
    exact wp_filling hp (o := .ereportError) trivial nofun (fun _ _ _ _ _ ho => nomatch ho) hu
      fun _ _ _ _ _ _ _ => Contract.wp_raise Contract.stable_true trivial

/-- The slot counts as many records as are known to be right. -/
def Counted (p : Pid) (be n : Nat) (s : Traced D) : Prop :=
  ∀ hd, (ownView p s).slot be = some hd → hd.countOfMetrics = UInt32.ofNat n

/-- What is counted stays counted until the slot is shown. -/
theorem stable_counted :
    (valuesContract srv p).Stable fun s => Filling p be q n s ∧ Counted p be n s := by
  intro s t h hr hi
  exact ⟨stable_filling s t h.1 hr hi, fun hd hslot => h.2 hd (hr.view ▸ hslot)⟩

/-- The operations that write the header of a slot, but for its count. -/
def Op.OfHeader : Op D → Prop
  | .getCurrentTimestamp | .writeQueryStartTime _ _ | .writeQueryId _ _
  | .writeQueryTextByte _ _ _ => True
  | _ => False

/-- A program of such operations. -/
theorem wp_header {α : Type} (hp : p ≠ 0) {prog : PgProg D α} (hall : prog.All Op.OfHeader)
    (hs : Filling p be q n s ∧ Counted p be n s) :
    (valuesContract srv p).wp m prog (fun _ t => Filling p be q n t ∧ Counted p be n t)
      (fun _ => True) s := by
  refine Contract.wp_mono (Contract.wp_of_all hall stable_counted ?_ hs) (fun _ _ _ h => h)
    fun _ _ _ => trivial
  intro o t r t' ho hi ht _ h
  have hfill : o.OfFill := by cases o <;> first | exact ho | exact ho.elim
  have hno : ∀ i j f v, o ≠ .writeNode i j f v := by
    rintro i j f v rfl
    exact ho
  have hw := writesMeasured_of_not_writeNode (p := p) hno t
  have hkept := h.keeps hw
  obtain ⟨hd, hview⟩ := h.view
  refine ⟨h.valuesInv hp hi hw ?_, hkept, ht.1.step h hkept hfill fun j _ => ?_, ?_⟩
  · rintro q rfl
    exact ho
  · rw [h.history]
    simp only [addHistory, Function.update_self]
    refine History.add_node ?_ _
    rintro ps rfl
    exact ho
  · intro hd' hslot
    rw [hview] at hslot
    cases o
    case getCurrentTimestamp => exact ht.2 hd' hslot
    case writeQueryStartTime i now => exact ht.2 hd' hslot
    case writeQueryId i id =>
      obtain ⟨h, hh, rfl | rfl⟩ := View.slot_modifySlot hslot
      · exact ht.2 _ hh
      · exact ht.2 h hh
    case writeQueryTextByte i k b =>
      obtain ⟨h, hh, rfl | rfl⟩ := View.slot_modifySlot hslot
      · exact ht.2 _ hh
      · exact ht.2 h hh
    all_goals exact ho.elim

omit [CDouble D] in
theorem getQueryId_header (qd : QueryDesc D) : (getQueryId p qd).All Op.OfHeader := by
  unfold getQueryId
  split
  · exact act_all trivial fun _ => trivial
  · trivial

omit [CDouble D] in
theorem copyQueryText_header (be : Nat) (qd : QueryDesc D) :
    (copyQueryText srv be qd).All Op.OfHeader := by
  unfold copyQueryText
  split
  · exact writeQueryText_all _ fun _ _ => trivial
  · exact ⟨trivial, fun _ => trivial⟩

/-- The query that was filled in becomes the current one. -/
theorem wp_setCurrent_values (hp : p ≠ 0) (hs : Filling p be q n s ∧ Counted p be n s) :
    (valuesContract srv p).wp m (pwhSetCurrentQueryDesc (some q)) (fun _ _ => True) (fun _ => True)
      s := by
  refine Contract.wp_op stable_counted hs (fun _ _ _ _ => trivial) fun t r t' hi ht _ h => ?_
  have hkept := h.keeps (fun _ _ _ _ ho => nomatch ho)
  refine ⟨?_, hkept, Contract.wp_ret Contract.stable_true trivial⟩
  obtain ⟨hd, hview⟩ := h.view
  obtain ⟨e, he⟩ := h.exec
  refine ⟨fun _ q' hq' => ?_, fun _ _ i hd' hslot j hj f hf => ?_⟩
  · obtain rfl : q = q' :=
      Option.some.inj ((congrArg View.current hview).symm.trans hq')
    rcases exec_lastRecorded he with hl | ⟨i, q, ho, -⟩ | ⟨enabled, minCost, ho⟩
    · rw [hl]
      exact ht.1.last
    · cases ho
    · cases ho
  · have hslots : (ownView p t').slot = (ownView p t).slot := by
      rw [hview]
      rfl
    have hpid : ∀ k, (ownView p t').slot k ≠ none → t'.1.pid k = p := fun k hk => slot_ne_none.mp hk
    -- the process has no other slot
    obtain rfl : i = be := by
      have hi := hpid i (by rw [hslot]; exact Option.some_ne_none hd')
      have hbe := hpid be (by rw [hslots]; exact ht.1.mine)
      exact h.inv.unique i be (by rw [hi]; exact hp) (hi.trans hbe.symm)
    rw [hslots] at hslot
    rw [ht.2 hd' hslot] at hj
    have hn : j < n := Nat.lt_of_lt_of_le hj (Nat.mod_le _ _)
    refine hkept i j f hf ?_ (ht.1.values j hn f hf)
    rw [h.history]
    simp [addHistory, History.add]

/-- What the start hook does with its entry. -/
theorem wp_trackQuery_values (hp : p ≠ 0) (be : Nat) (q : QueryDescPtr) :
    (valuesContract srv p).wp m (trackQuery srv p be q) (fun _ _ => True) (fun _ => True) s := by
  unfold trackQuery
  refine wp_values hp Contract.stable_true trivial (fun _ _ _ => trivial) (by simp)
    (fun _ _ _ _ _ _ ho => by simp at ho) fun t _ t' _ h _ => ?_
  have hs : Filling p be q 0 t' := by
    obtain ⟨hd, hview⟩ := h.view
    obtain ⟨e, he⟩ := h.exec
    refine ⟨?_, congrArg View.isRecording hview, ?_, by simp⟩
    · rw [← (Prod.mk.inj (Option.some.inj he)).2]
      simp [State.record]
    · rw [hview]
      exact h.watch rfl
  refine Contract.wp_bind (Contract.wp_mono (wp_remember_values hp _ _ hs) ?_ fun _ _ h => h)
  intro n u _ hu
  refine wp_filling hp (o := .writeCountOfMetrics be (UInt32.ofNat n)) trivial (by simp)
    (fun _ _ _ _ _ ho => by simp at ho) hu fun _ _ w _ hw h _ => ?_
  have hcount : Counted p be n w := by
    obtain ⟨hd, hview⟩ := h.view
    intro hd' hslot
    rw [hview] at hslot
    simp only [View.after, View.modifySlot, Function.update_self] at hslot
    obtain ⟨hd₀, -, rfl⟩ := Option.map_eq_some_iff.mp hslot
    rfl
  have hheader : ∀ {α : Type} {x : PgProg D α} {f : α → PgProg D Unit} {s : Traced D},
      x.All Op.OfHeader → Filling p be q n s ∧ Counted p be n s →
      (∀ a t, Filling p be q n t ∧ Counted p be n t →
        (valuesContract srv p).wp m (f a) (fun _ _ => True) (fun _ => True) t) →
      (valuesContract srv p).wp m (x >>= f) (fun _ _ => True) (fun _ => True) s :=
    fun hall hs hf => Contract.wp_bind (Contract.wp_mono (wp_header hp hall hs)
      (fun a t _ ht => hf a t ht) fun _ _ h => h)
  refine hheader (x := act .getCurrentTimestamp) ⟨trivial, fun _ => trivial⟩ ⟨hw, hcount⟩
    fun now t ht => ?_
  refine hheader (x := act (.writeQueryStartTime be now)) ⟨trivial, fun _ => trivial⟩ ht
    fun _ t ht => ?_
  refine hheader (getQueryId_header _) ht fun queryId t ht => ?_
  refine hheader (x := act (.writeQueryId be queryId)) ⟨trivial, fun _ => trivial⟩ ht
    fun _ t ht => ?_
  refine hheader (copyQueryText_header be _) ht fun _ t ht => ?_
  exact wp_setCurrent_values hp ht

end Fill

/-! ## 7. The calls

Nothing is asked of a call in front of it or behind it: the invariant is kept by each operation. -/

section Calls

variable {α β : Type} {srv : Server D} {p : Pid} {m : Bool} {s : Traced D}

/-- A program that tracks nothing, before another one. -/
theorem wp_tame_bind (hp : p ≠ 0) {x : PgProg D α} {f : α → PgProg D β}
    (hall : x.All Op.IsTame)
    (hf : ∀ a t, (valuesContract srv p).wp m (f a) (fun _ _ => True) (fun _ => True) t) :
    (valuesContract srv p).wp m (x >>= f) (fun _ _ => True) (fun _ => True) s :=
  Contract.wp_bind (Contract.wp_mono (wp_tame hp hall) (fun a t _ _ => hf a t) fun _ _ h => h)

/-- An error changes nothing. -/
theorem silent_raisesHere : (valuesContract srv p).Silent (fun _ => True) .raisesHere := by
  intro s r t hi _ _ h
  have hw : WritesMeasured p s .raisesHere := fun _ _ _ _ ho => nomatch ho
  have hr := h.rely hw fun _ _ => rfl
  exact ⟨hi.of_rely hr, h.keeps hw, hr⟩

/-- A try block whose parts are safe. -/
theorem wp_try_values {body handler : PgProg D Unit}
    (hb : (valuesContract srv p).wp true body (fun _ _ => True) (fun _ => True) s)
    (hh : ∀ t, (valuesContract srv p).wp false handler (fun _ _ => True) (fun _ => True) t) :
    (valuesContract srv p).wp false (pgTryCatch body handler) (fun _ _ => True) (fun _ => True)
      s := by
  refine wp_pgTryCatch (fun s b t h hb => ?_) Contract.stable_true silent_raisesHere
    (fun _ => trivial) hb fun t _ _ => hh t
  obtain ⟨e, he⟩ := h.exec
  have ht : t.1 = s.1 := raisesHere_false ⟨e, he⟩ hb
  have hg : t.2 = s.2 := by
    rw [h.history]
    simp [addHistory, History.add]
  exact Prod.ext ht hg

/-- The walk that measures, in front of what follows. -/
theorem wp_collect_bind {be maxNodes : Nat} (ps : Option PlanStatePtr)
    {f : Unit → PgProg D β}
    (hf : ∀ t, (valuesContract srv p).wp m (f ()) (fun _ _ => True) (fun _ => True) t) :
    (valuesContract srv p).wp m (pwhCollectPlanstateMetrics srv ps be maxNodes >>= f)
      (fun _ _ => True) (fun _ => True) s :=
  Contract.wp_bind (Contract.wp_mono (wp_collect_values ps maxNodes (ValuesRely.refl p s))
    (fun _ t _ _ => hf t) fun _ _ _ => trivial)

/-- `query_start_hook`. -/
theorem wp_queryStartHook_values (hp : p ≠ 0) (q : QueryDescPtr) :
    (valuesContract srv p).wp false (queryStartHook srv p q) (fun _ _ => True) (fun _ => True)
      s := by
  have htry : ∀ t, (valuesContract srv p).wp false (pgTryCatch (queryStartTry srv p q)
      (queryStartCatch srv p)) (fun _ _ => True) (fun _ => True) t := by
    intro t
    refine wp_try_values ?_ fun u =>
      wp_tame hp (queryStartCatch_all.mono fun _ h => h.isHousekeeping.isTame)
    unfold queryStartTry
    refine wp_tame_bind hp ((pwhGetOrCreateMyBackendEntryImpl_all true).mono
      fun _ h => h.isHousekeeping.isTame) fun entry u => ?_
    cases entry with
    | none => exact Contract.wp_ret Contract.stable_true trivial
    | some be => exact wp_trackQuery_values hp be q
  unfold queryStartHook
  refine wp_tame_bind hp (x := act (.standardExecutorStart q)) ⟨⟨nofun, nofun⟩, fun _ => trivial⟩
    fun _ t => ?_
  refine wp_tame_bind hp (x := act .isEnabled) ⟨⟨nofun, nofun⟩, fun _ => trivial⟩
    fun enabled t => ?_
  cases enabled
  · exact Contract.wp_ret Contract.stable_true trivial
  refine wp_tame_bind hp (x := act .minCostToTrack) ⟨⟨nofun, nofun⟩, fun _ => trivial⟩
    fun minCost t => ?_
  split
  · exact Contract.wp_ret Contract.stable_true trivial
  refine wp_tame_bind hp (x := act .getWasBackendInitialized)
    ⟨⟨nofun, nofun⟩, fun _ => trivial⟩ fun initialized t => ?_
  cases initialized
  · exact wp_tame_bind hp (initializeStateOncePerBackend_all.mono fun _ h => h.isTame)
      fun _ t => htry t
  · exact htry t

/-- `query_end_hook`. -/
theorem wp_queryEndHook_values (hp : p ≠ 0) (q : QueryDescPtr) :
    (valuesContract srv p).wp false (queryEndHook srv p q) (fun _ _ => True) (fun _ => True)
      s := by
  have hrelease : (pwhLwlockRelease : PgProg D Unit).All Op.IsTame :=
    pwhLwlockRelease_all ⟨nofun, nofun⟩
  have hforget : (pwhSetCurrentQueryDesc none : PgProg D Unit).All Op.IsTame :=
    ⟨⟨nofun, nofun⟩, fun _ => trivial⟩
  have hfinish : ∀ be t, (valuesContract srv p).wp true (finishQuery srv be q) (fun _ _ => True)
      (fun _ => True) t := by
    intro be t
    refine wp_tame_bind hp (x := act (.lwLockAcquire .LW_EXCLUSIVE))
      ⟨⟨nofun, nofun⟩, fun _ => trivial⟩ fun _ t => ?_
    refine wp_tame_bind hp (x := pwhIsBackendEntryActive be) ⟨⟨nofun, nofun⟩, fun _ => trivial⟩
      fun active t => ?_
    cases active
    · exact wp_tame hp (hrelease.bind fun _ => hforget)
    refine Contract.wp_bind (Contract.wp_mono (Q := fun _ _ => True) ?_ (fun _ t _ _ => ?_)
      fun _ _ h => h)
    · exact wp_collect_bind _ fun t =>
        wp_tame hp ((pwhReleaseBackendEntryUnlocked_all be).mono fun _ h => h.isHousekeeping.isTame)
    · exact wp_tame hp (hrelease.bind fun _ => hforget)
  have htry : ∀ t, (valuesContract srv p).wp false (pgTryCatch (queryEndTry srv p q)
      (queryEndCatch q)) (fun _ _ => True) (fun _ => True) t := by
    intro t
    refine wp_try_values ?_ fun u =>
      wp_tame hp ⟨⟨nofun, nofun⟩, fun _ => hforget.bind fun _ => hrelease⟩
    unfold queryEndTry
    refine wp_tame_bind hp ((pwhGetOrCreateMyBackendEntryImpl_all false).mono
      fun _ h => h.isHousekeeping.isTame) fun entry u => ?_
    cases entry with
    | none => exact Contract.wp_ret Contract.stable_true trivial
    | some be => exact hfinish be u
  unfold queryEndHook
  refine wp_tame_bind hp (x := act .isEnabled) ⟨⟨nofun, nofun⟩, fun _ => trivial⟩
    fun enabled t => ?_
  refine wp_tame_bind hp (x := act .getWasBackendInitialized)
    ⟨⟨nofun, nofun⟩, fun _ => trivial⟩ fun initialized t => ?_
  have hend : (act (.standardExecutorEnd q) : PgProg D Unit).All Op.IsTame :=
    ⟨⟨nofun, nofun⟩, fun _ => trivial⟩
  cases hrun : enabled && initialized
  · exact wp_tame hp hend
  · exact Contract.wp_bind (Contract.wp_mono (htry t) (fun _ _ _ _ => wp_tame hp hend)
      fun _ _ h => h)

/-- The signal handler does nothing but what the others may do. -/
theorem wp_deliverSigusr2_values :
    (valuesContract srv p).wp false (deliverSigusr2 srv p) (fun _ t => ValuesRely p s t)
      (fun _ => False) s := by
  have hst : (valuesContract srv p).Stable (ValuesRely p s) := stable_valuesRely s
  have hret : ∀ {E t}, ValuesRely p s t → (valuesContract srv p).wp false
      (.ret () : PgProg D Unit) (fun _ => ValuesRely p s) E t :=
    fun ht => Contract.wp_ret (Q := fun _ => ValuesRely p s) hst ht
  have hfind : ∀ k i t, ValuesRely p s t → (valuesContract srv p).wp false (findMySlot p k i)
      (fun _ => ValuesRely p s) (ValuesRely p s) t := by
    intro k
    induction k with
    | zero => exact fun i t ht => Contract.wp_ret hst ht
    | succ k ih =>
      intro i t ht
      unfold findMySlot
      refine wp_values_read hst ht (fun _ _ => rfl) (by simp) fun _ pid u _ hu _ => ?_
      split
      · exact Contract.wp_ret hst hu
      · exact ih (i + 1) u hu
  have hhandler : ∀ t, ValuesRely p s t → (valuesContract srv p).wp false
      (pwhSigusr2Handler srv p) (fun _ => ValuesRely p s) (ValuesRely p s) t := by
    intro t ht
    unfold pwhSigusr2Handler
    refine wp_values_read hst ht (fun _ _ => rfl) (by simp) fun _ current u _ hu _ => ?_
    cases current with
    | none => exact hret hu
    | some q =>
      cases hps : (srv.queryDesc q).planstate with
      | none =>
        simp only [hps]
        exact hret hu
      | some ps =>
        simp only [hps]
        refine Contract.wp_bind (Contract.wp_mono (hfind _ _ u hu) (fun be w _ hw => ?_)
          fun _ _ h => h)
        cases be with
        | none => exact hret hw
        | some be =>
          refine Contract.wp_bind (Contract.wp_mono (wp_collect_values (some ps) _ hw)
            (fun _ x _ hx => ?_) fun _ _ h => h)
          exact wp_values_read (o := .incPollGeneration be) hst hx (fun _ _ => rfl) (by simp)
            fun _ _ _ _ hy _ => hret hy
  have hset : ∀ {α : Type} {b : Bool} {f : Unit → PgProg D α} {Q : α → Traced D → Prop} {t},
      ValuesRely p s t →
      (∀ u, ValuesRely p s u → (valuesContract srv p).wp false (f ()) Q (fun _ => False) u) →
      (valuesContract srv p).wp false (act (.setInSignalHandler b) >>= f) Q (fun _ => False) t :=
    fun ht hf => wp_values_unseen hst ht (by simp) (fun _ _ => rfl)
      (fun _ _ _ _ _ _ ho => by simp at ho) fun _ _ u _ _ _ hu => hf u hu
  unfold deliverSigusr2
  refine hset (ValuesRely.refl p s) fun t ht => ?_
  refine Contract.wp_bind (Contract.wp_mono (Contract.wp_catching (Q := fun _ => ValuesRely p s)
    (E := fun _ => False) ?_ (by simp)) ?_ fun _ _ h => h)
  · exact Contract.wp_mono (hhandler t ht) (fun _ _ _ h => h) fun _ _ hu => hret hu
  · exact fun _ u _ hu => hset hu fun _ hv => hret hv

omit [CDouble D] in
/-- Readers and upkeep write no value. -/
theorem reads_tame {prog : PgProg D α} (h : prog.All fun o => o.IsUpkeep ∨ o.OfReader) :
    prog.All Op.IsTame :=
  h.mono fun _ ho => ho.elim (fun h => h.isHousekeeping.isTame) fun h => h.isTame

/-- **Every call** writes what it measures. -/
theorem Call.program_values (hp : p ≠ 0) (c : Call D) :
    (valuesContract srv p).wp false (c.program srv p) (fun _ _ => True) (fun _ => True) s := by
  cases c with
  | fork enabled minCost => exact wp_tame hp ⟨⟨nofun, nofun⟩, fun _ => trivial⟩
  | reload enabled minCost => exact wp_tame hp ⟨⟨nofun, nofun⟩, fun _ => trivial⟩
  | executorStart q => exact wp_queryStartHook_values hp q
  | executorEnd q => exact wp_queryEndHook_values hp q
  | abort event =>
    exact wp_tame hp ((abortTransaction_all event).mono fun _ h => h.isHousekeeping.isTame)
  | commit => exact wp_tame hp (commitTransaction_all.mono fun _ h => h.isHousekeeping.isTame)
  | abortSub qs =>
    exact wp_tame hp ((abortSubTransaction_all qs).mono fun _ h => h.isHousekeeping.isTame)
  | fetchStatus => exact wp_tame hp ((reads_tame v1StatusF_all).bind fun _ => trivial)
  | scrape req palloced =>
    exact wp_tame hp ((reads_tame (metricsHandler_all palloced req)).bind fun _ => trivial)
  | exit => exact wp_tame hp (procExit_all.mono fun _ h => h.isHousekeeping.isTame)

end Calls

/-! ## 8. The rule for runs

The contract holds in the traced cluster, for the process whose view it speaks of. -/

section Runs

variable {srv : Server D} {p : Pid}

/-- What is known of an operation that is about to be performed. -/
def KnownStep (srv : Server D) (c : Config Pid (Traced D) (Res (D := D))) :
    Event Pid (Call D) Empty (Env D) → Prop
  | .run p e => ∀ o k r t, c.thread p = .op o k → exec srv p o e c.shared.1 = some (r, t) →
      SlotInv freeClaims srv t ∧ SlotGuar freeClaims p o c.shared.1 t ∧
        (p ≠ 0 → shownWatch.guar srv o (ownView p c.shared))
  | _ => True

/-- What the others do leaves values alone. -/
theorem valuesRely_of_other {q : Pid} {o : Op D} {e : Env D} {s : Traced D} {t : State D}
    {r : Res o} (h : exec srv q o e s.1 = some (r, t)) (hp : p ≠ 0) (hpq : p ≠ q)
    (hg : SlotGuar freeClaims q o s.1 t) : ValuesRely p s (t, addHistory q o s.2) := by
  refine ⟨(ownView_of_other h hp hpq hg).symm, by rw [exec_backends_of_ne h hpq],
    fun x hx => exec_measured h hx, fun i j f _ hmine hs ps hps => ?_⟩
  have hpid : s.1.pid i = p := slot_ne_none.mp hmine
  have hps : (s.2 p).node i j = some ps := by simpa [addHistory, hpq] using hps
  rcases exec_node h i j f with heq | ⟨v, rfl, -⟩
  · rw [heq]
    exact (hs ps hps).mono fun x hx => exec_measured h hx
  · rcases hg.mine rfl i (.inl rfl) with hmine | ⟨ho, -⟩
    · exact absurd (hpid.symm.trans hmine) hpq
    · cases ho

theorem values_sound (hp : p ≠ 0) :
    System.SoundFor (tracedCluster srv) (KnownStep srv) p (valuesContract srv p)
      fun _ => True where
  sem_of_ok c e o k r s' hthread hok hx := by
    obtain ⟨⟨r, t⟩, hexec, heq⟩ := Option.map_eq_some_iff.mp hx
    cases heq
    obtain ⟨hi, hg, hw⟩ := hok o k r t hthread hexec
    exact ⟨⟨e, hexec⟩, rfl, hi, hg, hw hp⟩
  assume_of_ok _ _ _ _ _ _ := trivial
  stable := Contract.stable_true
  others c j e o k r s' hj hthread hok hx hi := by
    obtain ⟨⟨r, t⟩, hexec, heq⟩ := Option.map_eq_some_iff.mp hx
    cases heq
    have hr := valuesRely_of_other hexec hp (Ne.symm hj) (hok o k r t hthread hexec).2.1
    exact ⟨hi.of_rely hr, hr⟩
  call c cl prog _ _ _ henter := by
    obtain ⟨-, hprog⟩ := Option.ite_none_right_eq_some.mp henter
    cases hprog
    exact Call.program_values hp cl
  interrupt c prog _ _ hint := by
    obtain ⟨-, hprog⟩ := Option.ite_none_right_eq_some.mp hint
    cases hprog
    exact wp_deliverSigusr2_values
  external _ x := nomatch x

/-- **The values of a slot** are those of the nodes its records are about. -/
theorem values_hold (hp : p ≠ 0) {c : Config Pid (Traced D) (Res (D := D))} {g : Pid → History}
    (h : (tracedCluster srv).Reach (KnownStep srv) ⟨(State.init, g), fun _ => .ret ()⟩ c) :
    System.SoundFor.Holds p (valuesContract srv p) (fun _ => True) c := by
  refine System.Reach.sound_for (values_sound hp) ⟨fun _ q hq => ?_, fun _ hq => absurd rfl hq⟩
    trivial rfl h
  cases hq

end Runs

end WhatIsHappening
