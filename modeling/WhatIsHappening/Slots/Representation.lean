/-
# The representation of a slot

Count, node records and text are overwritten in place, by several processes at once if claims are
not exclusive.  What carries the invariant is that every single write of a field that identifies a
record, whoever makes it, writes a value that is right for that record.  A field that is right
stays right, so the records below a count, once written, stay valid whatever happens to the slot.
-/
import WhatIsHappening.Frame.Upkeep

namespace WhatIsHappening

open Interleaving Prog

variable {D : Type}

/-! ## 1. The invariant

`EntryOk` speaks of the counted records and of the end of the text.  What interference keeps is said
of every field by itself (`KeepsValid`), since a record may be half written while another process
looks at it. -/

/-- The 32-bit value of parent id `-1`. -/
def NO_PARENT : UInt32 := (Int32.ofInt (-1)).toUInt32

/-- What a field of record `j` must hold. -/
def NodeField.Valid (j : Nat) : (f : NodeField) → f.ty D → Prop
  | .nodeId, v => v.toNat = j
  | .parentNodeId, v => (j = 0 → v = NO_PARENT) ∧ (0 < j → v.toNat < j)
  | .magic, v => v = PWH_NODE_MAGIC
  | _, _ => True

/-- Record `j` says that it is record `j`. -/
def NodeValid (j : Nat) (n : PwhNodeMetrics D) : Prop := ∀ f : NodeField, f.Valid j (n.get f)

/-- The representation invariant of a slot. -/
structure EntryOk (srv : Server D) (be : PwhSharedMemoryBackendEntry D) : Prop where
  count_le : be.countOfMetrics.toNat ≤ srv.gucs.maxNodesPerQuery
  nodes : ∀ j, j < be.countOfMetrics.toNat → NodeValid j (be.metrics j)
  text : be.queryText (srv.gucs.maxQueryTextLen - 1) = 0

/-- Fields that are right stay right. -/
def KeepsValid (s t : State D) : Prop :=
  ∀ i j (f : NodeField), f.Valid j (((s.entries i).metrics j).get f) →
    f.Valid j (((t.entries i).metrics j).get f)

/-- A record that is valid stays valid. -/
theorem KeepsValid.node {s t : State D} (h : KeepsValid s t) {i j : Nat}
    (hv : NodeValid j ((s.entries i).metrics j)) : NodeValid j ((t.entries i).metrics j) :=
  fun f => h i j f (hv f)

/-! ## 2. The contract

A reader is `visiting` a slot while it shows it.  It promises to read what it shows from inside the
array, and the others promise to keep right whatever it has found to be right. -/

/-- What the others may do while `p` does nothing. -/
structure RepRely (p : Pid) (s t : State D) : Prop where
  keeps : KeepsValid s t
  visiting : (t.backends p).visiting = (s.backends p).visiting
  inSignalHandler : (t.backends p).inSignalHandler = (s.backends p).inSignalHandler

/-- What an operation of `p` promises: fields that are right stay right, and a record is read
inside the array, and while a slot is being shown only where it is valid. -/
structure RepGuar (srv : Server D) (p : Pid) (o : Op D) (s t : State D) : Prop where
  keeps : KeepsValid s t
  others : ∀ q, q ≠ p → t.backends q = s.backends q
  reads : ∀ i j f, o = .readNode i j f → j < srv.gucs.maxNodesPerQuery ∧
    ((s.backends p).visiting = some i → (s.backends p).inSignalHandler = false →
      ∀ j' ≤ j, NodeValid j' ((s.entries i).metrics j'))

/-- The contract of process `p`. -/
def repContract (srv : Server D) (p : Pid) : Contract (Res (D := D)) (State D) where
  sem o s r t := ∃ e, exec srv p o e s = some (r, t)
  inv s := ∀ i, EntryOk srv (s.entries i)
  rely := RepRely p
  assume _ _ := True
  guar o s _ t := RepGuar srv p o s t
  rely_refl _ := ⟨fun _ _ _ h => h, rfl, rfl⟩
  rely_trans h h' := ⟨fun i j f hv => h'.keeps i j f (h.keeps i j f hv),
    h'.visiting.trans h.visiting, h'.inSignalHandler.trans h.inSignalHandler⟩

variable {srv : Server D} {p : Pid} {m : Bool} {s : State D}

/-! ## 3. One step

Three kinds of write matter, those of a field of a record, of the count and of the last byte of a
text, and each has something it needs (`WritesValid`). -/

/-- What a write must satisfy to keep the invariant. -/
structure WritesValid (srv : Server D) (s : State D) (o : Op D) : Prop where
  node : ∀ i j f v, o = .writeNode i j f v → f.Valid j v
  count : ∀ i n, o = .writeCountOfMetrics i n → n.toNat ≤ srv.gucs.maxNodesPerQuery ∧
    ∀ j, j < n.toNat → NodeValid j ((s.entries i).metrics j)
  text : ∀ i k b, o = .writeQueryTextByte i k b → k = srv.gucs.maxQueryTextLen - 1 → b = 0

/-- An operation that fills no slot writes nothing that could be wrong. -/
theorem WritesValid.of_fills {o : Op D} (h : o.fills = none) : WritesValid srv s o := by
  refine ⟨?_, ?_, ?_⟩
  · rintro i j f v rfl
    cases h
  · rintro i n rfl
    cases h
  · rintro i k b rfl
    cases h

variable {o : Op D} {e : Env D} {t : State D} {r : Res o}

/-- One step keeps every field that is right. -/
theorem keepsValid_of_exec (h : exec srv p o e s = some (r, t)) (hw : WritesValid srv s o) :
    KeepsValid s t := by
  intro i j f hv
  rcases exec_node h i j f with heq | ⟨v, ho, heq⟩
  · rw [heq]
    exact hv
  · rw [heq]
    exact hw.node i j f v ho

/-- One step keeps the invariant. -/
theorem entryOk_of_exec (h : exec srv p o e s = some (r, t)) (hw : WritesValid srv s o)
    (hi : ∀ i, EntryOk srv (s.entries i)) (i : Nat) : EntryOk srv (t.entries i) := by
  have hk := keepsValid_of_exec h hw
  have hsame : (t.entries i).countOfMetrics = (s.entries i).countOfMetrics →
      (t.entries i).queryText = (s.entries i).queryText → EntryOk srv (t.entries i) := by
    intro hcount htext
    refine ⟨by rw [hcount]; exact (hi i).count_le, fun j hj => ?_,
      by rw [htext]; exact (hi i).text⟩
    rw [hcount] at hj
    exact hk.node ((hi i).nodes j hj)
  by_cases hf : o.fills = some i
  · cases o
    case writeCountOfMetrics i' n =>
      cases hf
      obtain ⟨hle, hnodes⟩ := hw.count i n rfl
      cases h
      refine ⟨by simpa using hle, fun j hj => ?_, by simpa using (hi i).text⟩
      simp only [State.entries_modifyEntry_self] at hj ⊢
      exact hnodes j hj
    case writeQueryTextByte i' k b =>
      cases hf
      have hb := hw.text i k b rfl
      cases h
      refine ⟨by simpa using (hi i).count_le, fun j hj => ?_, ?_⟩
      · simp only [State.entries_modifyEntry_self] at hj ⊢
        exact (hi i).nodes j hj
      · simp only [State.entries_modifyEntry_self]
        by_cases hk' : k = srv.gucs.maxQueryTextLen - 1
        · rw [hk', Function.update_self]
          exact hb hk'
        · rw [Function.update_of_ne (Ne.symm hk')]
          exact (hi i).text
    all_goals first | (cases hf; cases h; exact hsame (by simp) (by simp)) | cases hf
  · exact hsame (by rw [exec_entry h hf]) (by rw [exec_entry h hf])

/-! ## 4. Rules

Most programs show no slot, and their writes are right by themselves (`Op.IsGood`); one rule covers
them all. -/

section Rules

variable {α : Type} {A : State D → Prop} {Q : α → State D → Prop} {E : State D → Prop}

/-- One operation of `p`. -/
theorem wp_rep {o : Op D} {k : Res o → PgProg D α} (hst : (repContract srv p).Stable A)
    (hA : A s) (hE : m = true → ∀ t, A t → E t)
    (hw : ∀ t, (∀ i, EntryOk srv (t.entries i)) → A t → WritesValid srv t o)
    (hr : ∀ t, (∀ i, EntryOk srv (t.entries i)) → A t → ∀ i j f, o = .readNode i j f →
      j < srv.gucs.maxNodesPerQuery ∧
        ((t.backends p).visiting = some i → (t.backends p).inSignalHandler = false →
          ∀ j' ≤ j, NodeValid j' ((t.entries i).metrics j')))
    (hk : ∀ t e r t', (∀ i, EntryOk srv (t.entries i)) → A t → exec srv p o e t = some (r, t') →
      KeepsValid t t' → (repContract srv p).wp m (k r) Q E t') :
    (repContract srv p).wp m (act o >>= k) Q E s := by
  refine Contract.wp_op hst hA (fun hm t _ h => hE hm t h) ?_
  rintro t r t' hi hAt - ⟨e, he⟩
  have hkeeps := keepsValid_of_exec he (hw t hi hAt)
  exact ⟨entryOk_of_exec he (hw t hi hAt) hi,
    ⟨hkeeps, fun q hq => exec_backends_of_ne he hq, hr t hi hAt⟩, hk t e r t' hi hAt he hkeeps⟩

/-- Operations of a process that shows no slot, or is in its signal handler. -/
def Op.IsGood (srv : Server D) : Op D → Prop
  | .writeNode _ j f v => j < srv.gucs.maxNodesPerQuery ∧ f.Valid j v
  | .writeQueryTextByte _ k b => k < srv.gucs.maxQueryTextLen ∧
      (k = srv.gucs.maxQueryTextLen - 1 → b = 0)
  | .readNode _ j _ => j < srv.gucs.maxNodesPerQuery
  | .writeCountOfMetrics _ _ | .setInSignalHandler _ | .fork _ _ | .emit _ => False
  | .mark m =>
    match m with
    | .visitEntry _ | .leaveEntry => False
    | _ => True
  | _ => True

/-- Not in the middle of showing a slot. -/
def Aside (p : Pid) (s : State D) : Prop :=
  (s.backends p).visiting = none ∨ (s.backends p).inSignalHandler = true

theorem Op.IsHousekeeping.isGood {o : Op D} (h : o.IsHousekeeping) : o.IsGood srv := by
  cases o
  case mark m => cases m <;> first | exact h.elim | trivial
  all_goals first | exact h.elim | trivial

theorem Op.IsUpkeep.isGood {o : Op D} (h : o.IsUpkeep) : o.IsGood srv :=
  h.isHousekeeping.isGood

theorem Op.IsGood.writesValid {o : Op D} (h : o.IsGood srv) (s : State D) :
    WritesValid srv s o := by
  refine ⟨?_, ?_, ?_⟩
  · rintro i j f v rfl
    exact h.2
  · rintro i n rfl
    exact h.elim
  · rintro i k b rfl
    exact h.2

/-- A good operation does not change whether its process shows a slot. -/
theorem visiting_of_isGood {o : Op D} {e : Env D} {s t : State D} {r : Res o}
    (h : exec srv p o e s = some (r, t)) (ho : o.IsGood srv) :
    (t.backends p).visiting = (s.backends p).visiting ∧
      (t.backends p).inSignalHandler = (s.backends p).inSignalHandler := by
  cases o
  case mark m =>
    cases m <;> first | exact ho.elim | (cases h; simp [State.record])
  case lwLockAcquire m =>
    obtain ⟨l, -, hl⟩ := Option.map_eq_some_iff.mp h
    cases hl
    simp
  case lwLockRelease =>
    simp only [exec] at h
    split at h <;> cases h <;> simp
  case readInstrument ps => cases h; cases e.instrument <;> exact ⟨rfl, rfl⟩
  case raisesHere => cases h; cases e.raises <;> simp
  all_goals first | exact ho.elim | (cases h; first | exact ⟨rfl, rfl⟩ | simp)

/-- A good operation of a process that shows no slot keeps what is asked of it. -/
theorem silent_isGood {o : Op D} (ho : o.IsGood srv) :
    (repContract srv p).Silent (Aside p) o := by
  rintro s r t hi haside - ⟨e, he⟩
  have hw := ho.writesValid s
  have hkeeps := keepsValid_of_exec he hw
  obtain ⟨hvis, hsig⟩ := visiting_of_isGood he ho
  refine ⟨entryOk_of_exec he hw hi, ⟨hkeeps, fun q hq => exec_backends_of_ne he hq, ?_⟩,
    ⟨hkeeps, hvis, hsig⟩⟩
  rintro i j f rfl
  refine ⟨ho, fun hv hs => ?_⟩
  rcases haside with h | h
  · rw [h] at hv
    cases hv
  · rw [h] at hs
    cases hs

/-- What holds of a process between two calls. -/
def NotVisiting (p : Pid) (s : State D) : Prop := (s.backends p).visiting = none

theorem stable_notVisiting : (repContract srv p).Stable (NotVisiting p) :=
  fun _ _ h hr _ => hr.visiting.trans h

/-- A program of good operations. -/
theorem wp_isGood {prog : PgProg D α} (hall : prog.All (Op.IsGood srv)) (h : NotVisiting p s) :
    (repContract srv p).wp m prog (fun _ => NotVisiting p) (NotVisiting p) s :=
  Contract.wp_silent (hall.mono fun _ ho => (silent_isGood ho).mono fun _ => .inl)
    stable_notVisiting h

/-- What claims, releases and locks is good. -/
theorem wp_upkeep {prog : PgProg D α} (hall : prog.All Op.IsUpkeep) (h : NotVisiting p s) :
    (repContract srv p).wp m prog (fun _ => NotVisiting p) (NotVisiting p) s :=
  wp_isGood (hall.mono fun _ ho => ho.isGood) h

/-- A single good operation. -/
theorem wp_isGood_op {o : Op D} {k : Res o → PgProg D α} (ho : o.IsGood srv)
    (hst : (repContract srv p).Stable A) (hv : ∀ t, A t → NotVisiting p t) (hA : A s)
    (hE : m = true → ∀ t, A t → E t) (hk : ∀ r t, A t → (repContract srv p).wp m (k r) Q E t) :
    (repContract srv p).wp m (act o >>= k) Q E s :=
  Contract.wp_silent_op ((silent_isGood ho).mono fun t ht => .inl (hv t ht)) hst hA
    (fun hm t _ ht => hE hm t ht) fun r t _ ht => hk r t ht

end Rules

/-! ## 5. Recording a tree

The walk makes records valid one after the other, from the first on.  While record `n` is being
written, the records below it are known to be valid (`Known`), and so are the fields of it that have
been written already (`FieldsKnown`). -/

/-- The first `n` records of slot `be` are valid. -/
def Known (srv : Server D) (be n : Nat) (s : State D) : Prop :=
  n ≤ srv.gucs.maxNodesPerQuery ∧ ∀ j, j < n → NodeValid j ((s.entries be).metrics j)

theorem stable_known (be n : Nat) : (repContract srv p).Stable (Known srv be n) :=
  fun _ _ h hr _ => ⟨h.1, fun j hj => hr.keeps.node (h.2 j hj)⟩

theorem Known.of_keeps {be n : Nat} {s t : State D} (h : Known srv be n s) (hk : KeepsValid s t) :
    Known srv be n t :=
  ⟨h.1, fun j hj => hk.node (h.2 j hj)⟩

/-- Fields of record `j` of slot `be` that are known to be right. -/
def FieldsKnown (be j : Nat) (fs : List NodeField) (s : State D) : Prop :=
  ∀ f ∈ fs, f.Valid j (((s.entries be).metrics j).get f)

/-- What a writer of records knows. -/
def Recording (srv : Server D) (p : Pid) (be n : Nat) (s : State D) : Prop :=
  NotVisiting p s ∧ Known srv be n s

theorem stable_recording (be n : Nat) : (repContract srv p).Stable (Recording srv p be n) :=
  stable_notVisiting.and (stable_known be n)

/-- Writing fields with the values they must have makes them right, one by one. -/
theorem writeNodeFields_wp {be j n : Nat} (hj : j < srv.gucs.maxNodesPerQuery) :
    ∀ (ws : List (Sigma fun f : NodeField => f.ty D)) (done : List NodeField) (s : State D),
      (∀ w ∈ ws, w.1.Valid j w.2) → Recording srv p be n s → FieldsKnown be j done s →
      (repContract srv p).wp m (writeNodeFields be j ws)
        (fun _ t => Recording srv p be n t ∧ FieldsKnown be j (done ++ ws.map Sigma.fst) t)
        (NotVisiting p) s
  | [], done, s, _, hs, hdone => by
    have hst : (repContract srv p).Stable (FieldsKnown be j done) :=
      fun _ _ h hr _ f hf => hr.keeps be j f (h f hf)
    exact Contract.wp_ret_of ((stable_recording be n).and hst) ⟨hs, hdone⟩
      fun t _ h => by simpa using h
  | w :: ws, done, s, hws, hs, hdone => by
    have hst : (repContract srv p).Stable (FieldsKnown be j done) :=
      fun _ _ h hr _ f hf => hr.keeps be j f (h f hf)
    have hgood : (Op.writeNode be j w.1 w.2 : Op D).IsGood srv := ⟨hj, hws w (by simp)⟩
    refine wp_rep ((stable_recording be n).and hst) ⟨hs, hdone⟩ (fun _ _ h => h.1.1)
      (fun t _ _ => hgood.writesValid t) (fun _ _ _ _ _ _ h => by cases h) ?_
    intro t e r t' hi ht he hk
    have hdone' : FieldsKnown be j (done ++ [w.1]) t' := by
      intro f hf
      rcases List.mem_append.mp hf with hf | hf
      · exact hk be j f (ht.2 f hf)
      · rw [List.mem_singleton.mp hf, metrics_writeNode he]
        simpa using hws w (by simp)
    have hrec : Recording srv p be n t' :=
      ⟨(visiting_of_isGood he hgood).1.trans ht.1.1, ht.1.2.of_keeps hk⟩
    have := writeNodeFields_wp hj ws (done ++ [w.1]) t' (fun v hv => hws v (by simp [hv])) hrec
      hdone'
    simpa [List.append_assoc] using this

/-- The id of a node's parent, when `counter` is the node's own. -/
def ParentOk (parentId : Int) (counter : Nat) : Prop :=
  (counter = 0 ∧ parentId = -1) ∨ (0 ≤ parentId ∧ parentId < counter)

/-- A parent id that is right for a record, as the record holds it. -/
theorem valid_parentNodeId {parentId : Int} {id : Nat} (hid : id < 256)
    (h : ParentOk parentId id) :
    NodeField.Valid (D := D) id .parentNodeId (Int32.ofInt parentId).toUInt32 := by
  rcases h with ⟨rfl, rfl⟩ | ⟨h0, hlt⟩
  · exact ⟨fun _ => rfl, fun h => absurd h (Nat.lt_irrefl 0)⟩
  · obtain ⟨n, rfl⟩ := Int.eq_ofNat_of_zero_le h0
    refine ⟨fun h => by omega, fun _ => ?_⟩
    rw [Int32.ofInt_eq_ofNat, Int32.toUInt32_ofNat', UInt32.toNat_ofNat_of_lt' (by
      show n < 4294967296
      omega)]
    exact Int.ofNat_lt.mp hlt

section Walks

variable [CDouble D]

/-- Every value `topology_visitor` writes is right for its record. -/
theorem topologyFields_valid {id : Nat} {parentId : Int} {tag : NodeTag} (hid : id < 256)
    (hparent : ParentOk parentId id) :
    ∀ w ∈ (topologyFields id parentId tag : List (Sigma fun f : NodeField => f.ty D)),
      w.1.Valid id w.2 := by
  intro w hw
  simp only [topologyFields, List.mem_cons, List.not_mem_nil, or_false] at hw
  rcases hw with rfl | rfl | rfl | rfl | rfl | rfl | rfl | rfl | rfl | rfl | rfl | rfl | rfl | rfl |
    rfl | rfl
  case inl => exact UInt32.toNat_ofNat_of_lt' (Nat.lt_trans hid (by decide))
  case inr.inl => exact valid_parentNodeId hid hparent
  all_goals trivial

/-- The visitor makes one record more valid, or stops the walk. -/
theorem topologyVisitor_wp {be counter : Nat} {ps : PlanStatePtr} {parentId : Int}
    (hparent : ParentOk parentId counter) (hs : Recording srv p be counter s) :
    (repContract srv p).wp m (topologyVisitor srv be srv.gucs.maxNodesPerQuery ps parentId counter)
      (fun r t => Recording srv p be r.2 t ∧ counter ≤ r.2 ∧
        (0 ≤ r.1 → r.1 = counter ∧ r.2 = counter + 1)) (NotVisiting p) s := by
  unfold topologyVisitor
  split
  · exact Contract.wp_ret_of (stable_recording be counter) hs
      fun t _ h => ⟨h, Nat.le_refl _, fun h0 => absurd h0 (by simp)⟩
  rename_i hlt
  have hlt : counter < srv.gucs.maxNodesPerQuery := by omega
  have h256 := srv.gucs.maxNodesPerQuery_le
  refine wp_isGood_op (o := .mark (.rememberNode be counter ps)) trivial
    (stable_recording be counter) (fun _ h => h.1) hs (fun _ _ h => h.1) fun _ t ht => ?_
  refine Contract.wp_bind (Contract.wp_mono (writeNodeFields_wp hlt _ [] t
    (topologyFields_valid (by omega) hparent) ht nofun) (fun _ u _ hu => ?_) fun _ _ h => h)
  refine Contract.wp_ret_of (A := fun t => NotVisiting p t ∧ Known srv be (counter + 1) t)
    (stable_recording be (counter + 1)) ⟨hu.1.1, hlt, fun j hj => ?_⟩
    fun v _ hv => ⟨hv, Nat.le_succ _, fun _ => ⟨rfl, rfl⟩⟩
  rcases Nat.lt_succ_iff_lt_or_eq.mp hj with hj | rfl
  · exact hu.1.2.2 j hj
  · exact fun f => hu.2 f (by simpa using mem_topologyFields (D := D) j parentId _ f)

/-- A walk makes records valid from the one it starts at, without a gap. -/
theorem walkTopology_wp {be : Nat} :
    ∀ stackFrames ptr parentId counter (s : State D), ParentOk parentId counter →
      Recording srv p be counter s →
      (repContract srv p).wp m (walkPlanstateRecursive srv
        (topologyVisitor srv be srv.gucs.maxNodesPerQuery) stackFrames ptr parentId counter)
        (fun r t => Recording srv p be r.2 t ∧ counter ≤ r.2) (NotVisiting p) s
  | 0, _, _, _, s, _, hs =>
    Contract.wp_silent_op ((silent_isGood (o := .ereportError) trivial).mono fun _ h => .inl h)
      stable_notVisiting hs.1 (fun _ _ _ h => h)
      fun _ _ _ ht => Contract.wp_raise stable_notVisiting ht
  | _ + 1, none, _, counter, s, _, hs => by
    exact Contract.wp_ret_of (stable_recording be counter) hs fun _ _ h => ⟨h, Nat.le_refl _⟩
  | stackFrames + 1, some ps, parentId, counter, s, hparent, hs => by
    unfold walkPlanstateRecursive
    split
    · exact Contract.wp_ret_of (stable_recording be counter) hs fun _ _ h => ⟨h, Nat.le_refl _⟩
    refine Contract.wp_bind (Contract.wp_mono (topologyVisitor_wp hparent hs)
      (fun r t _ ht => ?_) fun _ _ h => h)
    obtain ⟨currentId, counter'⟩ := r
    obtain ⟨hrec, hle, hid⟩ := ht
    by_cases hneg : currentId < 0
    · simp only [hneg, if_true]
      exact Contract.wp_ret_of (stable_recording be counter') hrec fun _ _ h => ⟨h, hle⟩
    simp only [hneg, if_false]
    obtain ⟨rfl, rfl⟩ := hid (by omega)
    -- the calls below this node all have it as their parent
    have hcalls : ∀ calls (c : Nat) (s : State D), counter < c → Recording srv p be c s →
        (repContract srv p).wp m (walkCalls (fun call => walkPlanstateRecursive srv
          (topologyVisitor srv be srv.gucs.maxNodesPerQuery) stackFrames call (counter : Int))
          calls c) (fun r t => Recording srv p be r.2 t ∧ counter ≤ r.2) (NotVisiting p) s := by
      intro calls
      induction calls with
      | nil =>
        intro c s hc hs
        exact Contract.wp_ret_of (stable_recording be c) hs fun _ _ h => ⟨h, Nat.le_of_lt hc⟩
      | cons call rest ih =>
        intro c s hc hs
        refine Contract.wp_bind (Contract.wp_mono (walkTopology_wp stackFrames call counter c s
          (.inr ⟨by omega, by omega⟩) hs) (fun r t _ ht => ?_) fun _ _ h => h)
        obtain ⟨goOn, c'⟩ := r
        cases goOn
        · exact Contract.wp_ret_of (stable_recording be c') ht.1
            fun _ _ h => ⟨h, Nat.le_trans (Nat.le_of_lt hc) ht.2⟩
        · exact ih c' t (Nat.lt_of_lt_of_le hc ht.2) ht.1
    exact hcalls _ _ t (Nat.lt_succ_self _) hrec

/-- The whole walk: the records below the returned count are valid. -/
theorem pwhRememberPlanstateTreeAsMetricStructure_wp {be : Nat} (ps : Option PlanStatePtr)
    (hs : NotVisiting p s) :
    (repContract srv p).wp m (pwhRememberPlanstateTreeAsMetricStructure srv ps be
      srv.gucs.maxNodesPerQuery) (fun n => Recording srv p be n) (NotVisiting p) s := by
  have h0 : ∀ t : State D, NotVisiting p t → Recording srv p be 0 t :=
    fun t ht => ⟨ht, Nat.zero_le _, nofun⟩
  cases ps with
  | none => exact Contract.wp_ret_of stable_notVisiting hs fun t _ ht => h0 t ht
  | some ps =>
    refine wp_isGood_op (o := .stackFramesLeft) trivial stable_notVisiting (fun _ h => h) hs
      (fun _ _ h => h) fun stackFrames t ht => ?_
    refine Contract.wp_bind (Contract.wp_mono (walkTopology_wp stackFrames (some ps) (-1) 0 t
      (.inl ⟨rfl, rfl⟩) (h0 t ht)) (fun r u _ hu => ?_) fun _ _ h => h)
    exact Contract.wp_ret_of (stable_recording be r.2) hu.1 fun _ _ h => h

/-- Measured values go into fields that identify nothing. -/
theorem pwhCollectPlanstateMetrics_good (ps : Option PlanStatePtr) (be : Nat) :
    (pwhCollectPlanstateMetrics srv ps be srv.gucs.maxNodesPerQuery).All (Op.IsGood srv) := by
  cases ps with
  | none => trivial
  | some ps =>
    unfold pwhCollectPlanstateMetrics
    refine act_all trivial fun _ => act_all trivial fun stackFrames => ?_
    refine (walkPlanstateRecursive_all trivial (fun ps parentId counter => ?_) _ _ _ _).bind
      fun _ => trivial
    unfold instrumentationVisitor
    split
    · trivial
    rename_i hlt
    have hlt : counter < srv.gucs.maxNodesPerQuery := by omega
    rw [pwhValidateNodeMagic_bind]
    refine act_all hlt fun magic => ?_
    split
    · refine act_all trivial fun _ => act_all trivial fun instr => ?_
      cases instr with
      | none => trivial
      | some instr =>
        refine (writeNodeFields_all _ fun w hw => ⟨hlt, ?_⟩).bind fun _ => trivial
        simp only [instrumentationFields, List.mem_cons, List.not_mem_nil, or_false] at hw
        rcases hw with rfl | rfl | rfl | rfl | rfl | rfl | rfl | rfl | rfl | rfl | rfl | rfl <;>
          trivial
    · trivial

end Walks

/-! ## 6. The hooks

The count is written behind the walk, so what it covers is valid; the text is closed by the NUL that
`snprintf` puts behind it, at its last byte at the latest. -/

/-- `snprintf` writes inside the region, and nothing but a NUL into its last byte. -/
theorem snprintfWrites_good {n : Nat} (hn : 0 < n) (text : CString) :
    ∀ w ∈ snprintfWrites n text, w.1 < n ∧ (w.1 = n - 1 → w.2 = 0) := by
  intro w hw
  have hlen : (text.bytes.take (n - 1)).length ≤ n - 1 := List.length_take_le _ _
  simp only [snprintfWrites, List.mem_append, List.mem_map, List.mem_singleton] at hw
  rcases hw with ⟨bk, hbk, rfl⟩ | rfl
  · have hk := (List.mem_zipIdx hbk).2.1
    simp only [Nat.zero_add] at hk
    exact ⟨by dsimp only; omega, fun h => by dsimp only at h; omega⟩
  · exact ⟨by dsimp only; omega, fun _ => rfl⟩

/-- The text is written inside its region. -/
theorem copyQueryText_good (be : Nat) (qd : QueryDesc D) :
    (copyQueryText srv be qd).All (Op.IsGood srv) := by
  have hn := srv.gucs.maxQueryTextLen_pos
  unfold copyQueryText
  split
  · exact writeQueryText_all _ fun w hw => snprintfWrites_good hn _ w hw
  · exact ⟨⟨hn, fun _ => rfl⟩, fun _ => trivial⟩

theorem getQueryId_good (qd : QueryDesc D) : (getQueryId p qd).All (Op.IsGood srv) := by
  unfold getQueryId
  split
  · exact act_all trivial fun _ => trivial
  · trivial

section Hooks

variable [CDouble D]

/-- The count is written when the records below it are valid. -/
theorem trackQuery_wp (be : Nat) (q : QueryDescPtr) (hs : NotVisiting p s) :
    (repContract srv p).wp m (trackQuery srv p be q) (fun _ => NotVisiting p) (NotVisiting p)
      s := by
  unfold trackQuery
  refine wp_isGood_op (o := .mark (.rememberQuery be q)) trivial stable_notVisiting
    (fun _ h => h) hs (fun _ _ h => h) fun _ t ht => ?_
  refine Contract.wp_bind (Contract.wp_mono (pwhRememberPlanstateTreeAsMetricStructure_wp _ ht)
    (fun n u _ hu => ?_) fun _ _ h => h)
  refine wp_rep (stable_recording be n) hu (fun _ _ h => h.1) (fun v _ hv => ⟨nofun, ?_, nofun⟩)
    (fun _ _ _ _ _ _ h => by cases h) fun v e r v' _ hv he _ => ?_
  · intro i n' h
    cases h
    have hle := Nat.le_trans hv.2.1 srv.gucs.maxNodesPerQuery_le
    have hn : (UInt32.ofNat n).toNat = n :=
      UInt32.toNat_ofNat_of_lt' (Nat.lt_of_le_of_lt hle (by decide))
    rw [hn]
    exact hv.2
  · have hv' : NotVisiting p v' := by
      cases he
      exact hv.1
    refine wp_isGood (act_all trivial fun now => act_all trivial fun _ =>
      (getQueryId_good _).bind fun queryId => act_all trivial fun _ =>
        (copyQueryText_good be _).bind fun _ => ⟨trivial, fun _ => trivial⟩) hv'

/-- `query_start_hook`. -/
theorem queryStartHook_visiting (q : QueryDescPtr) (hs : NotVisiting p s) :
    (repContract srv p).wp false (queryStartHook srv p q) (fun _ => NotVisiting p)
      (NotVisiting p) s := by
  have hgood : ∀ {α : Type} {o : Op D} {k : Res o → PgProg D α} {t : State D}
      {Q : α → State D → Prop}, o.IsGood srv → NotVisiting p t →
      (∀ r u, NotVisiting p u → (repContract srv p).wp false (k r) Q (NotVisiting p) u) →
      (repContract srv p).wp false (act o >>= k) Q (NotVisiting p) t := fun ho ht hk =>
    wp_isGood_op ho stable_notVisiting (fun _ h => h) ht nofun hk
  have htry : ∀ t, NotVisiting p t → (repContract srv p).wp false
      (pgTryCatch (queryStartTry srv p q) (queryStartCatch srv p)) (fun _ => NotVisiting p)
      (NotVisiting p) t := by
    intro t ht
    refine wp_pgTryCatch (fun _ _ _ h => raisesHere_false h) stable_notVisiting
      ((silent_isGood (o := .raisesHere) trivial).mono fun _ h => .inl h) (fun _ => trivial) ?_
      fun u _ hu => wp_upkeep queryStartCatch_all hu
    refine Contract.wp_bind (Contract.wp_mono
      (wp_upkeep (pwhGetOrCreateMyBackendEntryImpl_all true) ht) (fun entry u _ hu => ?_)
      fun _ _ h => h)
    cases entry with
    | none => exact Contract.wp_ret stable_notVisiting hu
    | some be => exact trackQuery_wp be q hu
  unfold queryStartHook
  refine hgood trivial hs fun _ t ht => hgood trivial ht fun enabled t ht => ?_
  cases enabled
  · exact Contract.wp_ret stable_notVisiting ht
  refine hgood trivial ht fun minCost t ht => ?_
  split
  · exact Contract.wp_ret stable_notVisiting ht
  refine hgood trivial ht fun initialized t ht => ?_
  refine Contract.wp_bind (Contract.wp_mono (wp_isGood ?_ ht) (fun _ u _ hu => htry u hu)
    fun _ _ h => h)
  cases initialized
  · exact initializeStateOncePerBackend_all.mono fun _ ho => ho.isGood
  · trivial

theorem queryEndHook_good (q : QueryDescPtr) :
    (queryEndHook srv p q).All (Op.IsGood srv) := by
  unfold queryEndHook
  refine act_all trivial fun enabled => act_all trivial fun initialized =>
    Prog.All.bind ?_ fun _ => ⟨trivial, fun _ => trivial⟩
  unfold pgWhen
  split
  · have htry : (queryEndTry srv p q).All (Op.IsGood srv) :=
      queryEndTry_all (fun _ h => h.isGood) (fun be _ => pwhCollectPlanstateMetrics_good _ be) q
    have hcatch : (queryEndCatch q : PgProg D Unit).All (Op.IsGood srv) :=
      act_all trivial fun _ => act_all trivial fun _ => pwhLwlockRelease_all trivial
    exact Prog.All.catching (Prog.All.faulty (f := Op.raisesHere) (by trivial) htry) hcatch
  · trivial

end Hooks

/-! ## 7. Readers

A reader reads the count and then the records below it.  That they are valid is known from the
moment the count was read, and interference keeps it so. -/

section Readers

variable {α : Type} {Q : α → State D → Prop} {E : State D → Prop}

/-- What is read to show record `j` of slot `be`. -/
def Op.Shows (be j : Nat) : Op D → Prop
  | .readNode i j' _ => i = be ∧ j' = j
  | .readBackendPid i | .readQueryId i | .readQueryText i => i = be
  | _ => False

theorem Known.le {be n k : Nat} {s : State D} (h : Known srv be n s) (hk : k ≤ n) :
    Known srv be k s :=
  ⟨Nat.le_trans hk h.1, fun j hj => h.2 j (Nat.lt_of_lt_of_le hj hk)⟩

/-- A program that only reads a record known to be valid. -/
theorem wp_shows {be j n : Nat} {prog : PgProg D α} (hall : prog.All (Op.Shows be j))
    (hn : prog.NoRaise) (hj : j < n) (hs : Known srv be n s) :
    (repContract srv p).wp false prog (fun _ => Known srv be n) E s := by
  refine Contract.wp_noRaise hn
    (Contract.wp_silent (hall.mono fun o ho => ?_) (stable_known be n) hs)
  rintro s r t hi hk - ⟨e, he⟩
  have hts : t = s := by
    cases o <;> first | exact ho.elim | (cases he; rfl)
  subst hts
  refine ⟨hi, ⟨fun _ _ _ h => h, fun _ _ => rfl, ?_⟩, fun _ _ _ h => h, rfl, rfl⟩
  rintro i j' f rfl
  obtain ⟨rfl, rfl⟩ := ho
  exact ⟨Nat.lt_of_lt_of_le hj hk.1, fun _ _ j' hj' => hk.2 j' (Nat.lt_of_le_of_lt hj' hj)⟩

/-- An operation that reads no record and fills no slot. -/
theorem wp_noNode {o : Op D} {k : Res o → PgProg D α} {A : State D → Prop} (hf : o.fills = none)
    (hn : ∀ i j f, o ≠ .readNode i j f) (hst : (repContract srv p).Stable A) (hA : A s)
    (hE : m = true → ∀ t, A t → E t)
    (hk : ∀ t e r t', (∀ i, EntryOk srv (t.entries i)) → A t → exec srv p o e t = some (r, t') →
      KeepsValid t t' → (repContract srv p).wp m (k r) Q E t') :
    (repContract srv p).wp m (act o >>= k) Q E s :=
  wp_rep hst hA hE (fun _ _ _ => .of_fills hf) (fun _ _ _ i j f h => absurd h (hn i j f)) hk

/-- The records below a count that is read are valid. -/
theorem known_of_count {be j : Nat} {s : State D} (hi : ∀ i, EntryOk srv (s.entries i))
    (hj : j < (s.entries be).countOfMetrics.toNat) : Known srv be (j + 1) s :=
  ⟨Nat.le_trans hj (hi be).count_le,
    fun j' hj' => (hi be).nodes j' (Nat.lt_of_lt_of_le hj' hj)⟩

/-- A loop over the counted nodes reads valid records only. -/
theorem forNodes_wp {be n : Nat} {body : Nat → α → PgProg D α}
    (hb : ∀ j acc, (body j acc).All (Op.Shows be j)) (hn : ∀ j acc, (body j acc).NoRaise) :
    ∀ fuel j acc (s : State D), Known srv be n s →
      (repContract srv p).wp false (forNodes be body fuel j acc) (fun _ => Known srv be n) E s
  | 0, _, _, _, hs => Contract.wp_ret (stable_known be n) hs
  | fuel + 1, j, acc, s, hs => by
    unfold forNodes
    refine wp_noNode rfl (by simp) (stable_known be n) hs (by simp)
      fun t e count t' hi ht he hk => ?_
    have ht' := ht.of_keeps hk
    split
    · rename_i hlt
      have hj : Known srv be (j + 1) t' := by
        cases he
        exact known_of_count hi hlt
      -- whichever of the two is more
      have hmax : Known srv be (max n (j + 1)) t' := by
        rcases Nat.le_total n (j + 1) with h | h
        · rwa [Nat.max_eq_right h]
        · rwa [Nat.max_eq_left h]
      exact Contract.wp_bind (Contract.wp_mono
        (wp_shows (hb j acc) (hn j acc) (Nat.lt_of_lt_of_le (Nat.lt_succ_self j)
          (Nat.le_max_right n (j + 1))) hmax)
        (fun acc u _ hu => forNodes_wp hb hn fuel (j + 1) acc u (hu.le (Nat.le_max_left _ _)))
        fun _ _ h => h)
    · exact Contract.wp_ret (stable_known be n) ht'

section Show

variable [CDouble D]

/-- The sum of the times reads the counted records. -/
theorem sumTotalQueryTime_wp {be n : Nat} (hs : Known srv be n s) :
    (repContract srv p).wp false (sumTotalQueryTime be) (fun _ => Known srv be n) E s := by
  unfold sumTotalQueryTime
  refine forNodes_wp (fun j total => ?_) (fun j total => ?_) _ _ _ s hs
  · exact act_all ⟨rfl, rfl⟩ fun _ => trivial
  · exact act_noRaise fun _ => trivial

/-- Showing one node: it is counted, so its magic is right. -/
theorem formatNode_all (ver : PgVersion) (be j : Nat) (queryId : UInt64) (total : D)
    (acc : FormatterBuffer × List (NodeSample D)) :
    (pwhValidateNodeMagic be j >>= fun ok => if ok = true then
      formatterAppendAllNodeMetrics ver be j queryId total acc else return acc).All
      (Op.Shows be j) := by
  rw [pwhValidateNodeMagic_bind]
  refine act_all ⟨rfl, rfl⟩ fun magic => ?_
  split
  · exact formatterAppendAllNodeMetrics_all (fun _ => ⟨rfl, rfl⟩) ver queryId total acc
  · trivial

omit [CDouble D] in
/-- Everything is known of no record. -/
theorem known_zero (be : Nat) (s : State D) : Known srv be 0 s := ⟨Nat.zero_le _, nofun⟩

omit [CDouble D] in
theorem wp_read {o : Op D} {k : Res o → PgProg D α} {be n : Nat} (hf : o.fills = none)
    (hn : ∀ i j f, o ≠ .readNode i j f) (hs : Known srv be n s)
    (hk : ∀ r t, Known srv be n t → (repContract srv p).wp false (k r) Q E t) :
    (repContract srv p).wp false (act o >>= k) Q E s :=
  wp_noNode hf hn (stable_known be n) hs nofun fun _ _ r t' _ ht _ hkeeps =>
    hk r t' (ht.of_keeps hkeeps)

omit [CDouble D] in
/-- What shows a slot ends the visit. -/
theorem wp_emit {r : Emission D} {k : Unit → PgProg D α}
    (hk : ∀ t, NotVisiting p t → (repContract srv p).wp false (k ()) Q E t) :
    (repContract srv p).wp false (act (.emit r) >>= k) Q E s := by
  refine wp_noNode rfl nofun Contract.stable_true trivial nofun fun t e u t' _ _ he _ => ?_
  cases he
  exact hk _ (by simp [NotVisiting])

omit [CDouble D] in
theorem wp_leaveEntry {k : Unit → PgProg D α}
    (hk : ∀ t, NotVisiting p t → (repContract srv p).wp false (k ()) Q E t) :
    (repContract srv p).wp false (act (.mark .leaveEntry) >>= k) Q E s := by
  refine wp_noNode rfl nofun Contract.stable_true trivial nofun fun t e u t' _ _ he _ => ?_
  cases he
  exact hk _ (by simp [NotVisiting, State.record])

/-- One entry of the endpoint's page. -/
theorem formatEntry_wp (ver : PgVersion) (be : Nat) (buf : FormatterBuffer) :
    (repContract srv p).wp false (formatEntry ver be buf) (fun _ => NotVisiting p) E s := by
  unfold formatEntry
  refine Contract.wp_bind (wp_read rfl nofun (known_zero be s) fun _ t ht =>
    wp_read rfl nofun ht fun _ t ht => wp_read rfl nofun ht fun _ t ht =>
      Contract.wp_ret_of (stable_known be 0) ht fun t _ ht => ?_)
  refine wp_read rfl nofun ht fun queryId t ht => Contract.wp_bind (Contract.wp_mono
    (sumTotalQueryTime_wp ht) (fun total t _ ht => ?_) fun _ _ h => h)
  refine Contract.wp_bind (Contract.wp_mono
    (forNodes_wp (fun j acc => formatNode_all ver be j queryId total acc)
      (fun j acc => formatNode_noRaise ver be j queryId total acc) _ _ _ t ht)
    (fun acc t _ ht => ?_) fun _ _ h => h)
  exact wp_emit fun t ht => Contract.wp_ret stable_notVisiting ht

/-- The entries, one after the other. -/
theorem formatEntries_wp :
    ∀ k i buf (s : State D), NotVisiting p s →
      (repContract srv p).wp false (formatEntries srv k i buf) (fun _ => NotVisiting p)
        (NotVisiting p) s
  | 0, _, _, _, hs => Contract.wp_ret stable_notVisiting hs
  | k + 1, i, buf, s, hs => by
    unfold formatEntries
    refine Contract.wp_bind (Contract.wp_mono
      (wp_upkeep (pwhGetBackendEntry_housekeeping i) hs) (fun _ t _ _ => ?_) fun _ _ h => h)
    refine wp_read rfl (by simp) (known_zero i t) fun _ t ht => ?_
    rw [pwhIsBackendEntryActive_bind]
    refine wp_read rfl (by simp) ht fun pid t ht => ?_
    split
    · exact Contract.wp_bind (Contract.wp_mono (formatEntry_wp _ i buf)
        (fun buf t _ ht => formatEntries_wp k (i + 1) buf t ht) fun _ _ h => h)
    · exact wp_leaveEntry fun t ht => formatEntries_wp k (i + 1) buf t ht

theorem metricsHandler_visiting (palloced : Nat → UInt8) (req : HttpRequest)
    (hs : NotVisiting p s) :
    (repContract srv p).wp false (metricsHandler srv palloced req) (fun _ => NotVisiting p)
      (NotVisiting p) s := by
  unfold metricsHandler
  split
  · exact Contract.wp_ret stable_notVisiting hs
  refine wp_isGood_op trivial stable_notVisiting (fun _ h => h) hs nofun fun _ t ht => ?_
  refine Contract.wp_bind (Contract.wp_mono (wp_upkeep (cleanupOrphanedSlots_all _ _ _) ht)
    (fun _ t _ ht => ?_) fun _ _ h => h)
  refine Contract.wp_bind (Contract.wp_mono (wp_upkeep (requestBackendMetrics_all _ _ _) ht)
    (fun _ t _ ht => ?_) fun _ _ h => h)
  refine Contract.wp_bind (Contract.wp_bind (Contract.wp_mono (formatEntries_wp _ _ _ t ht)
    (fun _ t _ ht => Contract.wp_ret_of stable_notVisiting ht fun t _ ht => ?_) fun _ _ h => h))
  exact wp_upkeep ((pwhLwlockRelease_all trivial).bind fun _ => trivial) ht

/-- The function scan, up to the row it returns. -/
theorem v1StatusLoop_wp :
    ∀ k slotIdx nodeIdx (s : State D), NotVisiting p s →
      (repContract srv p).wp false (v1StatusLoop srv k slotIdx nodeIdx) (fun _ => NotVisiting p)
        (NotVisiting p) s
  | 0, _, _, _, hs => wp_isGood (act_all trivial fun _ => trivial) hs
  | k + 1, slotIdx, nodeIdx, s, hs => by
    unfold v1StatusLoop
    refine Contract.wp_bind (Contract.wp_mono
      (wp_upkeep (pwhGetBackendEntry_housekeeping _) hs) (fun _ t _ _ => ?_) fun _ _ h => h)
    refine wp_read rfl (by simp) (known_zero slotIdx.toNat t) fun _ t ht => ?_
    have hnext : ∀ t, (repContract srv p).wp false (act (.mark .leaveEntry) >>= fun _ =>
        act (.setScan (some (slotIdx + 1, 0))) >>= fun _ => v1StatusLoop srv k (slotIdx + 1) 0)
        (fun _ => NotVisiting p) (NotVisiting p) t := fun t =>
      wp_leaveEntry fun t ht => wp_isGood_op trivial stable_notVisiting (fun _ h => h) ht (by simp)
        fun _ t ht => v1StatusLoop_wp k (slotIdx + 1) 0 t ht
    refine Contract.wp_bind ?_
    unfold isNodeCounted
    rw [pwhIsBackendEntryActive_bind]
    refine wp_read rfl (by simp) ht fun pid t ht => ?_
    split
    · refine wp_noNode rfl (by simp) (stable_known _ 0) ht (by simp)
        fun t e count t' hi ht he hk => ?_
      refine Contract.wp_ret_of (A := fun u => nodeIdx < count →
        Known srv slotIdx.toNat (nodeIdx.toNat + 1) u) ?_ ?_ fun u _ hu => ?_
      · exact fun u v h hr hi hlt => stable_known _ _ u v (h hlt) hr hi
      · intro hlt
        cases he
        exact known_of_count hi hlt
      by_cases hlt : nodeIdx < count
      · simp only [hlt, decide_true, if_true]
        refine Contract.wp_bind (Contract.wp_mono (sumTotalQueryTime_wp (hu hlt))
          (fun total v _ hv => ?_) fun _ _ h => h)
        refine Contract.wp_bind (Contract.wp_mono (wp_shows
          (pwhFillV1StatusTuple_all (P := Op.Shows slotIdx.toNat nodeIdx.toNat)
            (fun _ => ⟨rfl, rfl⟩) rfl rfl rfl total)
          (pwhFillV1StatusTuple_noRaise _ _ total) (Nat.lt_succ_self _) hv)
          (fun row w _ _ => ?_) fun _ _ h => h)
        exact wp_emit fun w hw => wp_isGood_op trivial stable_notVisiting (fun _ h => h) hw
          (by simp) fun _ w hw => Contract.wp_ret stable_notVisiting hw
      · simp only [hlt, decide_false, Bool.false_eq_true, if_false]
        exact hnext u
    · refine Contract.wp_ret_of (stable_known _ 0) ht fun u _ _ => ?_
      exact hnext u

theorem v1StatusF_visiting (hs : NotVisiting p s) :
    (repContract srv p).wp false (v1StatusF srv) (fun _ => NotVisiting p) (NotVisiting p) s := by
  unfold v1StatusF
  refine wp_isGood_op trivial stable_notVisiting (fun _ h => h) hs nofun fun scan t ht => ?_
  cases scan with
  | some at_ => exact v1StatusLoop_wp _ _ _ t ht
  | none =>
    refine Contract.wp_bind (Contract.wp_mono (wp_isGood (act_all trivial fun _ =>
      ((requestBackendMetrics_all _ _ _).mono fun _ h => h.isGood).bind fun _ =>
        (pwhLwlockRelease_all trivial).bind fun _ => ⟨trivial, fun _ => trivial⟩) ht)
      (fun _ u _ hu => v1StatusLoop_wp _ _ _ u hu) fun _ _ h => h)

end Show

end Readers

/-! ## 8. The signal handler

It may come while its process shows a slot, and writes to the slot it finds; for the visit this is
no more than interference. -/

/-- `t` looks to `p`, which is in its handler, like what interference may leave of `s`. -/
def Handling (p : Pid) (s t : State D) : Prop :=
  KeepsValid s t ∧ (t.backends p).visiting = (s.backends p).visiting ∧
    (t.backends p).inSignalHandler = true

theorem stable_handling (s : State D) : (repContract srv p).Stable (Handling p s) :=
  fun _ _ h hr _ => ⟨fun i j f hv => hr.keeps i j f (h.1 i j f hv), hr.visiting.trans h.2.1,
    hr.inSignalHandler.trans h.2.2⟩

theorem pwhSigusr2Handler_good [CDouble D] : (pwhSigusr2Handler srv p).All (Op.IsGood srv) := by
  unfold pwhSigusr2Handler
  refine act_all trivial fun current => ?_
  cases current with
  | none => trivial
  | some q =>
    dsimp only
    split
    · trivial
    refine (findMySlot_all (fun _ => trivial) _ _).bind fun found => ?_
    cases found with
    | none => trivial
    | some be =>
      exact (pwhCollectPlanstateMetrics_good _ be).bind fun _ => ⟨trivial, fun _ => trivial⟩

theorem deliverSigusr2_visiting [CDouble D] (hs : (s.backends p).inSignalHandler = false) :
    (repContract srv p).wp false (deliverSigusr2 srv p) (fun _ => RepRely p s) (fun _ => False)
      s := by
  have hlast : ∀ t, Handling p s t → (repContract srv p).wp false
      (act (.setInSignalHandler false)) (fun _ => RepRely p s) (fun _ => False) t := by
    intro t ht
    refine wp_noNode (k := fun _ => .ret ()) rfl nofun (stable_handling s) ht nofun
      fun u e r u' _ hu he _ => ?_
    cases he
    refine Contract.wp_ret (fun v w h hr _ => (repContract srv p).rely_trans h hr) ⟨hu.1, ?_, ?_⟩
    · simpa using hu.2.1
    · simpa using hs.symm
  unfold deliverSigusr2
  refine wp_noNode rfl nofun (A := RepRely p s)
    (fun v w h hr _ => (repContract srv p).rely_trans h hr)
    ((repContract srv p).rely_refl s) nofun fun t e r t' _ ht he _ => ?_
  have ht' : Handling p s t' := by
    cases he
    exact ⟨ht.keeps, by simpa using ht.visiting, by simp⟩
  have hgood : (pwhSigusr2Handler srv p).All (Op.IsGood srv) := pwhSigusr2Handler_good
  have hsilent := Contract.wp_silent (m := false)
    (hgood.mono fun _ ho => (silent_isGood ho).mono fun t (h : Handling p s t) => .inr h.2.2)
    (stable_handling s) ht'
  refine Contract.wp_bind (Contract.wp_catching (Contract.wp_mono hsilent
    (fun _ u _ hu => hlast u hu) fun u _ hu => ?_) nofun)
  exact Contract.wp_ret_of (stable_handling s) hu fun v _ hv => hlast v hv

/-! ## 9. Every run

The programs put together, and what the invariant says of the entry a reader is shown. -/

section Runs

variable [CDouble D]

theorem Call.program_visiting (c : Call D) (hs : NotVisiting p s) :
    (repContract srv p).wp false (c.program srv p) (fun _ => NotVisiting p) (NotVisiting p) s := by
  cases c with
  | fork enabled minCost =>
    refine wp_noNode (k := fun _ => .ret ()) rfl nofun stable_notVisiting hs nofun
      fun t e r t' _ _ he _ => Contract.wp_ret stable_notVisiting ?_
    cases he
    simp [NotVisiting]
  | reload enabled minCost => exact wp_isGood ⟨trivial, fun _ => trivial⟩ hs
  | executorStart q => exact queryStartHook_visiting q hs
  | executorEnd q => exact wp_isGood (queryEndHook_good q) hs
  | abort event => exact wp_upkeep (abortTransaction_all event) hs
  | commit => exact wp_upkeep commitTransaction_all hs
  | abortSub qs => exact wp_upkeep (abortSubTransaction_all qs) hs
  | fetchStatus =>
    exact Contract.wp_bind (Contract.wp_mono (v1StatusF_visiting hs)
      (fun _ _ _ h => Contract.wp_ret stable_notVisiting h) fun _ _ h => h)
  | scrape req palloced =>
    exact Contract.wp_bind (Contract.wp_mono (metricsHandler_visiting palloced req hs)
      (fun _ _ _ h => Contract.wp_ret stable_notVisiting h) fun _ _ h => h)
  | exit => exact wp_upkeep procExit_all hs

theorem representation_sound (srv : Server D) :
    System.Sound (clusterSystem srv) anyRun (fun s => ∀ i, EntryOk srv (s.entries i))
      (repContract srv) NotVisiting where
  sem_of_ok _ _ e _ _ _ _ _ _ h := ⟨e, h⟩
  inv_eq _ := rfl
  stable _ := stable_notVisiting
  guar_rely p q o s r t h hpq := ⟨h.keeps, by rw [h.others q (Ne.symm hpq)],
    by rw [h.others q (Ne.symm hpq)]⟩
  assume_of_ok _ _ _ _ _ _ _ := trivial
  call c p cl prog _ hidle _ hent := by
    obtain ⟨-, hprog⟩ := Option.ite_none_right_eq_some.mp hent
    cases hprog
    exact cl.program_visiting hidle
  interrupt c p h _ _ hint := by
    obtain ⟨hadm, hprog⟩ := Option.ite_none_right_eq_some.mp hint
    cases hprog
    exact deliverSigusr2_visiting (by simpa using (Bool.and_eq_true_iff.mp hadm).2)
  external _ x := nomatch x

/-- A cleared entry has no record and an empty text. -/
theorem entryOk_zero (srv : Server D) : EntryOk srv (.zero : PwhSharedMemoryBackendEntry D) :=
  ⟨Nat.zero_le _, nofun, rfl⟩

/-- Nobody reads the new table. -/
theorem notVisiting_init (p : Pid) : NotVisiting p (State.init : State D) := rfl

/-- What is known of every configuration of every run. -/
theorem representation_holds {c : Config Pid (State D) (Res (D := D))}
    (h : (clusterSystem srv).Reach anyRun clusterInit c) :
    System.Sound.Holds (fun s => ∀ i, EntryOk srv (s.entries i)) (repContract srv) NotVisiting c :=
  System.Reach.sound (representation_sound srv) (fun _ => entryOk_zero srv) notVisiting_init
    (fun _ => rfl) h

/-- **The slot representation invariant**, between any two operations of any run; what a reader of
a slot reads while it shows it; and that `pwh_validate_node_magic` accepts it. -/
theorem slot_representation (srv : Server D) {c : Config Pid (State D) (Res (D := D))}
    (h : (clusterSystem srv).Reach anyRun clusterInit c) :
    (∀ i, (c.shared.entries i).countOfMetrics.toNat ≤ srv.gucs.maxNodesPerQuery ∧
      (∀ j, j < (c.shared.entries i).countOfMetrics.toNat →
        ((c.shared.entries i).metrics j).magic = PWH_NODE_MAGIC ∧
        ((c.shared.entries i).metrics j).nodeId.toNat = j ∧
        (j = 0 → ((c.shared.entries i).metrics j).parentNodeId = NO_PARENT) ∧
        (0 < j → ((c.shared.entries i).metrics j).parentNodeId.toNat < j)) ∧
      ∃ k, k < srv.gucs.maxQueryTextLen ∧ (c.shared.entries i).queryText k = 0) ∧
    ∀ p i j f k, c.thread p = .op (.readNode i j f) k → j < srv.gucs.maxNodesPerQuery ∧
      ((c.shared.backends p).visiting = some i → (c.shared.backends p).inSignalHandler = false →
        ∀ j' ≤ j, ((c.shared.entries i).metrics j').magic = PWH_NODE_MAGIC ∧
          ((c.shared.entries i).metrics j').nodeId.toNat = j' ∧
          (j' = 0 → ((c.shared.entries i).metrics j').parentNodeId = NO_PARENT) ∧
          (0 < j' → ((c.shared.entries i).metrics j').parentNodeId.toNat < j')) := by
  have hall := representation_holds h
  have hfields : ∀ {j : Nat} {n : PwhNodeMetrics D}, NodeValid j n → n.magic = PWH_NODE_MAGIC ∧
      n.nodeId.toNat = j ∧ (j = 0 → n.parentNodeId = NO_PARENT) ∧
      (0 < j → n.parentNodeId.toNat < j) := fun hv =>
    ⟨hv .magic, hv .nodeId, (hv .parentNodeId).1, (hv .parentNodeId).2⟩
  refine ⟨fun i => ⟨(hall.1 i).count_le, fun j hj => hfields ((hall.1 i).nodes j hj),
    _, Nat.sub_lt srv.gucs.maxQueryTextLen_pos Nat.one_pos, (hall.1 i).text⟩, ?_⟩
  intro p i j f k hp
  obtain ⟨hlt, hvalid⟩ := (System.Sound.guar_of_holds (representation_sound srv) hall hp
    (e := {}) trivial rfl).2.1.reads i j f rfl
  exact ⟨hlt, fun hv hs j' hj' => hfields (hvalid hv hs j' hj')⟩

end Runs

set_option maxRecDepth 10000 in
theorem slot_representation_startQuery : ∃ c : Config Pid (State ℚ) (Res (D := ℚ)),
    (clusterSystem smallServer).Reach anyRun clusterInit c ∧
      (c.shared.entries 0).countOfMetrics.toNat = 1 ∧
      ((c.shared.entries 0).metrics 0).magic = PWH_NODE_MAGIC := by
  obtain ⟨c, hc, hcount⟩ := System.exists_reach (clusterSystem smallServer) (fun _ _ => true)
    (fun _ _ _ => trivial) clusterInit (startQuery 1 10)
    (fun c => (c.shared.entries 0).countOfMetrics.toNat = 1) (by decide)
  have hcount : (c.shared.entries 0).countOfMetrics.toNat = 1 := by simpa using hcount
  exact ⟨c, hc, hcount,
    (((slot_representation smallServer hc).1 0).2.1 0 (by rw [hcount]; exact Nat.one_pos)).1⟩

end WhatIsHappening
