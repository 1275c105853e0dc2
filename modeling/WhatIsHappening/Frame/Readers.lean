/-
# What the readers perform

The view and the endpoint read the slots under the lock and show what they have read.  Neither
writes to a slot, and the reading of one slot raises no error; the loop over its nodes makes as many
rounds as it is told nodes, each time it asks.
-/
import WhatIsHappening.Frame

namespace WhatIsHappening

open Interleaving Prog

variable {D : Type} {srv : Server D} {p : Pid} {o : Op D} {e : Env D} {s t : State D}
  {r : Res o}

/-! ## 1. What is performed -/

/-- The operations with which a slot is shown. -/
def Op.OfReader : Op D → Prop
  | .lwLockAcquire _ | .lwLockRelease | .readBackendPid _ | .readCountOfMetrics _ | .readQueryId _
  | .readQueryText _ | .readNode _ _ _ | .setScan _ | .emit _ => True
  | .mark (.visitEntry _) | .mark .leaveEntry => True
  | _ => False

/-- The operations with which the entry of a slot is read. -/
def Op.ReadsEntry : Op D → Prop
  | .readBackendPid _ | .readCountOfMetrics _ | .readQueryId _ | .readQueryText _
  | .readNode _ _ _ => True
  | _ => False

/-- What is read is a part of what is shown. -/
theorem Op.ReadsEntry.ofReader {o : Op D} (h : o.ReadsEntry) : o.OfReader := by
  cases o <;> trivial

section Readers

/-- The next slot; behind the last one the lock is given back. -/
theorem pwhGetBackendEntry_all (index : Nat) :
    (pwhGetBackendEntry srv index).All Op.OfReader := by
  unfold pwhGetBackendEntry
  split
  · trivial
  · exact act_all trivial fun _ => (pwhLwlockRelease_all trivial).bind fun _ => trivial

/-- A loop over the nodes asks for their number before every round. -/
theorem forNodes_all {α : Type} {P : Op D → Prop} {be : Nat} {body : Nat → α → PgProg D α}
    (hc : P (.readCountOfMetrics be)) (hb : ∀ j acc, (body j acc).All P) :
    ∀ fuel j acc, (forNodes be body fuel j acc).All P
  | 0, _, _ => trivial
  | fuel + 1, j, acc => by
    unfold forNodes
    refine act_all hc fun count => ?_
    split
    · exact (hb j acc).bind fun acc => forNodes_all hc hb fuel (j + 1) acc
    · trivial

variable [CDouble D]

theorem sumTotalQueryTime_all (be : Nat) :
    (sumTotalQueryTime be : PgProg D D).All Op.ReadsEntry := by
  unfold sumTotalQueryTime
  refine forNodes_all trivial (fun j total => ?_) _ _ _
  exact act_all trivial fun _ => trivial

/-- The time of a node is read a second time where it is not 0. -/
theorem nodeTimeShares_all {P : Op D → Prop} {be j : Nat} (h : ∀ f, P (.readNode be j f))
    (total : D) : (nodeTimeShares be j total).All P := by
  unfold nodeTimeShares
  refine act_all (h _) fun time => ?_
  split
  · exact act_all (h _) fun _ => trivial
  · trivial

/-- Of a node its record is read, whatever metrics are printed. -/
theorem formatterAppendMetrics_all {P : Op D → Prop} {be j : Nat}
    (h : ∀ f, P (.readNode be j f)) (ver : PgVersion) (queryId : UInt64) (shares : D × D) :
    ∀ types acc, (formatterAppendMetrics ver be j queryId shares types acc).All P
  | [], _ => trivial
  | type :: types, acc => by
    unfold formatterAppendMetrics
    refine Prog.All.bind ?_ fun acc => formatterAppendMetrics_all h ver queryId shares types acc
    refine Prog.All.bind ?_ fun value => ?_
    · cases type <;> first | trivial | exact act_all (h _) fun _ => trivial
    · exact act_all (h _) fun _ => act_all (h _) fun _ => act_all (h _) fun _ => trivial

theorem formatterAppendAllNodeMetrics_all {P : Op D → Prop} {be j : Nat}
    (h : ∀ f, P (.readNode be j f)) (ver : PgVersion) (queryId : UInt64) (total : D)
    (acc : FormatterBuffer × List (NodeSample D)) :
    (formatterAppendAllNodeMetrics ver be j queryId total acc).All P :=
  (nodeTimeShares_all h total).bind fun shares =>
    formatterAppendMetrics_all h ver queryId shares _ _

omit [CDouble D] in
theorem formatterAppendQueryInfo_all (be : Nat) (buf : FormatterBuffer) :
    (formatterAppendQueryInfo be buf : PgProg D _).All Op.ReadsEntry :=
  act_all trivial fun _ => act_all trivial fun _ => act_all trivial fun _ => trivial

/-- What `formatEntry` reads and prints, before it shows it. -/
def readEntry (ver : PgVersion) (be : Nat) (buf : FormatterBuffer) :
    PgProg D (FormatterBuffer × EntryReading D) := do
  let (buf, reading) ← formatterAppendQueryInfo be buf
  let queryId ← act (.readQueryId be)
  let totalQueryTime ← sumTotalQueryTime be
  let (buf, samples) ← forNodes be (fun j acc => do
    if ← pwhValidateNodeMagic be j then
      formatterAppendAllNodeMetrics ver be j queryId totalQueryTime acc
    else return acc) U32_RANGE 0 (buf, [])
  return (buf, { reading with samples := samples })

/-- The entry is read first, and then shown as one. -/
theorem formatEntry_eq (ver : PgVersion) (be : Nat) (buf : FormatterBuffer) :
    (formatEntry ver be buf : PgProg D FormatterBuffer) =
      readEntry ver be buf >>= fun x => act (.emit (.entry x.2)) >>= fun _ => .ret x.1 := by
  unfold formatEntry readEntry
  simp only [Prog.bind_assoc]
  rfl

theorem readEntry_all (ver : PgVersion) (be : Nat) (buf : FormatterBuffer) :
    (readEntry ver be buf : PgProg D _).All Op.ReadsEntry := by
  unfold readEntry
  refine (formatterAppendQueryInfo_all be buf).bind fun (buf, reading) => ?_
  refine act_all trivial fun queryId => (sumTotalQueryTime_all be).bind fun total => ?_
  refine Prog.All.bind (forNodes_all trivial (fun j acc => ?_) _ _ _) fun _ => trivial
  rw [pwhValidateNodeMagic_bind]
  refine act_all trivial fun magic => ?_
  split
  · exact formatterAppendAllNodeMetrics_all (fun _ => trivial) ver queryId total _
  · trivial

/-- So an entry is read and shown in one emission. -/
theorem formatEntry_all {P : Op D → Prop} (hreads : ∀ o, o.ReadsEntry → P o)
    (hemit : ∀ r, P (.emit r)) (ver : PgVersion) (be : Nat) (buf : FormatterBuffer) :
    (formatEntry ver be buf : PgProg D FormatterBuffer).All P := by
  rw [formatEntry_eq]
  exact ((readEntry_all ver be buf).mono hreads).bind fun _ => act_all (hemit _) fun _ => trivial

/-- The endpoint goes over all slots... -/
theorem formatEntries_all :
    ∀ k i buf, (formatEntries srv k i buf).All Op.OfReader
  | 0, _, _ => trivial
  | k + 1, i, buf => by
    unfold formatEntries
    refine (pwhGetBackendEntry_all i).bind fun _ => act_all trivial fun _ => ?_
    rw [pwhIsBackendEntryActive_bind]
    refine act_all trivial fun pid => ?_
    split
    · exact (formatEntry_all (fun _ h => h.ofReader) (fun _ => trivial) _ i buf).bind fun buf =>
        formatEntries_all k (i + 1) buf
    · exact act_all trivial fun _ => formatEntries_all k (i + 1) buf

theorem pwhFillV1StatusTuple_all {P : Op D → Prop} {be j : Nat} (h : ∀ f, P (.readNode be j f))
    (hpid : P (.readBackendPid be)) (hid : P (.readQueryId be)) (htext : P (.readQueryText be))
    (total : D) : (pwhFillV1StatusTuple be j total).All P := by
  unfold pwhFillV1StatusTuple
  refine (nodeTimeShares_all h total).bind fun shares => act_all hpid fun _ => act_all hid fun _ =>
    act_all htext fun _ => ?_
  repeat refine act_all (h _) fun _ => ?_
  trivial

/-- ...and the view goes on until it has a row. -/
theorem v1StatusLoop_all :
    ∀ k slotIdx nodeIdx, (v1StatusLoop srv k slotIdx nodeIdx).All Op.OfReader
  | 0, _, _ => act_all trivial fun _ => trivial
  | k + 1, slotIdx, nodeIdx => by
    unfold v1StatusLoop
    refine (pwhGetBackendEntry_all _).bind fun _ => act_all trivial fun _ => ?_
    refine Prog.All.bind (p := isNodeCounted slotIdx.toNat nodeIdx) ?_ fun counted => ?_
    · unfold isNodeCounted
      rw [pwhIsBackendEntryActive_bind]
      refine act_all trivial fun pid => ?_
      split
      · exact act_all trivial fun _ => trivial
      · trivial
    · split
      · exact ((sumTotalQueryTime_all _).mono fun _ h => h.ofReader).bind fun total =>
          (pwhFillV1StatusTuple_all (fun _ => trivial) trivial trivial trivial
            total).bind fun row => act_all trivial fun _ => act_all trivial fun _ => trivial
      · exact act_all trivial fun _ => act_all trivial fun _ =>
          v1StatusLoop_all k (slotIdx + 1) 0

end Readers

/-! ## 2. Errors, and the rounds of the loop -/

section NoRaise

variable {α : Type}

/-- The loop raises an error where a round does. -/
theorem forNodes_noRaise {be : Nat} {body : Nat → α → PgProg D α}
    (hb : ∀ j acc, (body j acc).NoRaise) : ∀ fuel j acc, (forNodes be body fuel j acc).NoRaise
  | 0, _, _ => trivial
  | fuel + 1, j, acc => by
    unfold forNodes
    refine act_noRaise fun count => ?_
    split
    · exact (hb j acc).bind fun acc => forNodes_noRaise hb fuel (j + 1) acc
    · trivial

/-- An invariant of a loop over the nodes, where no count that is answered is more than `N`: the
loop ends with its fuel, or where a count says so. -/
theorem forNodes_turns {be N : Nat} {ans : (o : Op D) → Res o → Prop} {I : Nat → α → Prop}
    {body : Nat → α → PgProg D α}
    (hcount : ∀ n : UInt32, ans (.readCountOfMetrics be) n → n.toNat ≤ N)
    (hbody : ∀ j a b, j < N → I j a → (body j a).ReturnsBy ans b → I (j + 1) b) :
    ∀ fuel j a b, j ≤ N → I j a → (forNodes be body fuel j a).ReturnsBy ans b →
      ∃ n ≤ N, I n b ∧
        (n = j + fuel ∨ ∃ count : UInt32, ans (.readCountOfMetrics be) count ∧ count.toNat ≤ n)
  | 0, j, a, _, hj, ha, h => ⟨j, hj, (show a = _ from h) ▸ ha, .inl rfl⟩
  | fuel + 1, j, a, b, hj, ha, h => by
    rw [forNodes, act_bind] at h
    obtain ⟨count, hans, h⟩ := h
    by_cases hlt : j < count.toNat
    · simp only [hlt, if_true] at h
      obtain ⟨a', ha', h⟩ := Prog.returnsBy_bind.mp h
      have hjN : j < N := Nat.lt_of_lt_of_le hlt (hcount count hans)
      obtain ⟨n, hn, hI, hend⟩ := forNodes_turns hcount hbody fuel (j + 1) a' b hjN
        (hbody j a a' hjN ha ha') h
      refine ⟨n, hn, hI, hend.imp_left fun hfuel => ?_⟩
      omega
    · simp only [hlt, if_false] at h
      obtain rfl : a = b := h
      exact ⟨j, hj, ha, .inr ⟨count, hans, Nat.le_of_not_lt hlt⟩⟩

variable [CDouble D]

theorem sumTotalQueryTime_noRaise (be : Nat) : (sumTotalQueryTime be : PgProg D D).NoRaise := by
  unfold sumTotalQueryTime
  refine forNodes_noRaise (fun j total => ?_) _ _ _
  exact act_noRaise fun _ => trivial

theorem nodeTimeShares_noRaise (be j : Nat) (total : D) : (nodeTimeShares be j total).NoRaise := by
  unfold nodeTimeShares
  refine act_noRaise fun time => ?_
  split
  · exact act_noRaise fun _ => trivial
  · trivial

theorem formatterAppendMetrics_noRaise (ver : PgVersion) (be j : Nat) (queryId : UInt64)
    (shares : D × D) :
    ∀ types acc, (formatterAppendMetrics ver be j queryId shares types acc).NoRaise
  | [], _ => trivial
  | type :: types, acc => by
    unfold formatterAppendMetrics
    refine Prog.NoRaise.bind ?_ fun acc =>
      formatterAppendMetrics_noRaise ver be j queryId shares types acc
    refine Prog.NoRaise.bind ?_ fun value => ?_
    · cases type <;> first | trivial | exact act_noRaise fun _ => trivial
    · exact act_noRaise fun _ => act_noRaise fun _ => act_noRaise fun _ => trivial

theorem formatNode_noRaise (ver : PgVersion) (be j : Nat) (queryId : UInt64) (total : D)
    (acc : FormatterBuffer × List (NodeSample D)) :
    (pwhValidateNodeMagic be j >>= fun ok => if ok = true then
      formatterAppendAllNodeMetrics ver be j queryId total acc else return acc).NoRaise := by
  rw [pwhValidateNodeMagic_bind]
  refine act_noRaise fun magic => ?_
  split
  · exact (nodeTimeShares_noRaise be j total).bind fun shares =>
      formatterAppendMetrics_noRaise ver be j queryId shares _ _
  · trivial

/-- **Reading a slot raises no error.** -/
theorem readEntry_noRaise (ver : PgVersion) (be : Nat) (buf : FormatterBuffer) :
    (readEntry ver be buf : PgProg D _).NoRaise := by
  unfold readEntry formatterAppendQueryInfo
  refine Prog.NoRaise.bind (fun _ _ _ => trivial) fun (buf, reading) => ?_
  refine act_noRaise fun queryId => (sumTotalQueryTime_noRaise be).bind fun total => ?_
  exact Prog.NoRaise.bind (forNodes_noRaise (fun j acc => formatNode_noRaise ver be j queryId total
    acc) _ _ _) fun _ => trivial

theorem formatEntry_noRaise (ver : PgVersion) (be : Nat) (buf : FormatterBuffer) :
    (formatEntry ver be buf : PgProg D FormatterBuffer).NoRaise := by
  rw [formatEntry_eq]
  exact (readEntry_noRaise ver be buf).bind fun _ => act_noRaise fun _ => trivial

theorem pwhFillV1StatusTuple_noRaise (be j : Nat) (total : D) :
    (pwhFillV1StatusTuple be j total).NoRaise := by
  unfold pwhFillV1StatusTuple
  refine (nodeTimeShares_noRaise be j total).bind fun shares => ?_
  repeat refine act_noRaise fun _ => ?_
  trivial

end NoRaise

end WhatIsHappening
