/-
# What one process is watched for

`Watch` selects which of five properties a run is watched for; each brings what it needs of the
run (`Watch.admits`) and what must hold in between (`Watch.Inv`, `Watch.guar`).  `viewContract` is
the contract of the process on its view, where it runs alone, and `ownContract` the one on the
whole state; `own_abstracts` connects the two.
-/
import WhatIsHappening.Backend.View

namespace WhatIsHappening

open Interleaving Prog

variable {D : Type}

/-! ## 1. What a slot shows of a query -/

/-- The plan nodes a query's slot lists, each with the id of its parent.  The place in the list is
the id. -/
def ListsNodes (srv : Server D) (q : QueryDescPtr) (acc : Visited) : Prop :=
  match (srv.queryDesc q).planstate with
  | none => acc = []
  | some ps => ∃ stackFrames goOn,
      visits srv srv.gucs.maxNodesPerQuery stackFrames (some ps) (-1) [] = some (goOn, acc)

/-- The record of node number `j`. -/
def NodeIdent.ofNode (srv : Server D) (j : Nat) (x : PlanStatePtr × Int) : NodeIdent where
  tag := planTag srv x.1
  nodeId := UInt32.ofNat j
  parentNodeId := (Int32.ofInt x.2).toUInt32
  magic := PWH_NODE_MAGIC

/-- The records are those of the nodes `acc`, and were made for them. -/
def RecordsNodes (srv : Server D) (acc : Visited) (ident : Nat → NodeIdent)
    (node : Nat → Option PlanStatePtr) : Prop :=
  ∀ j x, acc[j]? = some x → node j = some x.1 ∧ ident j = .ofNode srv j x

/-- The nodes a slot was last recorded for are those of the query `q`. -/
def IsRecorded (srv : Server D) (q : QueryDescPtr) (node : Nat → Option PlanStatePtr) : Prop :=
  ∃ acc ident, ListsNodes srv q acc ∧ RecordsNodes srv acc ident node

/-- The query id that is recorded for a query at some time. -/
def queryIdAt (p : Pid) (qd : QueryDesc D) (now : Int64) : UInt64 :=
  if qd.queryId = 0 then pwhComputeQueryId p qd now else qd.queryId

/-- As much of a query text as a slot of `n` bytes holds. -/
def shownText (n : Nat) : Option CString → List UInt8
  | some text => text.bytes.take (n - 1)
  | none => []

/-- A slot shows the query `q` of process `p`. -/
structure Shows (srv : Server D) (p : Pid) (q : QueryDescPtr) (h : Header)
    (node : Nat → Option PlanStatePtr) : Prop where
  queryId : ∃ now, h.queryId = queryIdAt p (srv.queryDesc q) now
  queryText : ((List.range srv.gucs.maxQueryTextLen).map h.queryText).takeWhile (· ≠ 0) =
    shownText srv.gucs.maxQueryTextLen (srv.queryDesc q).sourceText
  nodes : ∃ acc, ListsNodes srv q acc ∧ h.countOfMetrics = UInt32.ofNat acc.length ∧
    RecordsNodes srv acc h.ident node

theorem Shows.isRecorded {srv : Server D} {p : Pid} {q : QueryDescPtr} {h : Header}
    {node : Nat → Option PlanStatePtr} (hs : Shows srv p q h node) : IsRecorded srv q node := by
  obtain ⟨acc, hlist, -, hrec⟩ := hs.nodes
  exact ⟨acc, h.ident, hlist, hrec⟩

/-! ## 2. Watches -/

/-- A process has a slot. -/
def View.Owns (srv : Server D) (v : View D) : Prop :=
  ∃ i < srv.gucs.maxTrackedQueries, v.slot i ≠ none

/-- What is watched: that `CURRENT_QUERY_DESC` is live, that numbers land on their node, that no
finished query stays, that runs without errors show a tracked query, and that a slot shows the
current query. -/
structure Watch where
  live : Bool := false
  numbers : Bool := false
  tidy : Bool := false
  clean : Bool := false
  shown : Bool := false

namespace Watch

/-- What holds at every point of every run. -/
structure Inv (W : Watch) (srv : Server D) (p : Pid) (v : View D) : Prop where
  live : W.live = true → ∀ q, v.current = some q → q ∈ v.started
  numbers : W.numbers = true → v.isRecording = false → ∀ q i, v.current = some q →
    v.slot i ≠ none → v.tree i = some q ∧ IsRecorded srv q (v.node i)
  shown : W.shown = true → v.isRecording = false → ∀ q i h, v.current = some q →
    v.slot i = some h → Shows srv p q h (v.node i)

/-- What holds when an operation is performed. -/
def guar (W : Watch) (srv : Server D) : Op D → View D → Prop
  | .mark (.collectTree i ps), v => W.numbers = true →
      ∃ q, v.tree i = some q ∧ (srv.queryDesc q).planstate = some ps
  | .mark (.collectNode i j ps), v => W.numbers = true → v.node i j = some ps
  | .mark (.rememberQuery i _), v => W.shown = true → v.slot i ≠ none
  | .mark (.rememberNode _ _ _), v => W.shown = true → v.isRecording = true
  | .writeCountOfMetrics _ _, v => W.shown = true → v.isRecording = true
  | .writeBackendPid _ w, v => W.shown = true → w = 0 ∨ v.current = none
  | _, _ => True

/-- What a run grants at an operation. -/
def admits (W : Watch) (srv : Server D) (e : Env D) (v : View D) : Op D → Prop
  | .raisesHere => W.clean = true → e.raises = false
  | .ereportError => W.clean = false
  | .mark .entriesExhausted => W.clean = false
  | .mark (.endHookFailed q) => W.tidy = true → v.Owns srv → v.recorded.filter (· ≠ q) ≠ []
  | _ => True

/-- In a run that is not watched for errors, only a failure of the end hook is of interest. -/
theorem admits_of_unclean {W : Watch} {srv : Server D} {e : Env D} {v : View D} {o : Op D}
    (hclean : W.clean = false)
    (h : ∀ q, o = .mark (.endHookFailed q) → W.tidy = true → v.Owns srv →
      v.recorded.filter (· ≠ q) ≠ []) : W.admits srv e v o := by
  cases o
  case mark m =>
    cases m
    case endHookFailed q => exact h q rfl
    case entriesExhausted => exact hclean
    all_goals trivial
  case raisesHere => exact fun hc => absurd (hc.symm.trans hclean) nofun
  case ereportError => exact hclean
  all_goals trivial

end Watch

/-! ## 3. The contracts -/

/-- The process on its view. -/
def viewContract (W : Watch) (srv : Server D) (p : Pid) : Contract (Res (D := D)) (View D) :=
  .sequential
    (fun o v r v' => ∃ e h, W.admits srv e v o ∧ v.Answers p e o r ∧ v' = v.after p h o)
    (W.Inv srv p) (W.guar srv)

/-- The process on the whole state. -/
def ownContract (W : Watch) (srv : Server D) (p : Pid) : Contract (Res (D := D)) (State D) where
  sem o s r t := ∃ e, W.admits srv e (s.view p) o ∧ exec srv p o e s = some (r, t)
  inv s := W.Inv srv p (s.view p)
  rely s t := s.view p = t.view p
  assume _ _ := True
  guar o s _ _ := W.guar srv o (s.view p)
  rely_refl _ := rfl
  rely_trans := Eq.trans

/-- **The view is an abstraction**: what is proved of a process on its view holds of it on the
whole state, whatever the others write. -/
theorem own_abstracts (W : Watch) (srv : Server D) (p : Pid) :
    (ownContract W srv p).Abstracts (fun s => s.view p) (viewContract W srv p) where
  rely h := h
  inv := Iff.rfl
  assume h := h
  sem := by
    rintro o s r t ⟨e, hadm, hx⟩
    obtain ⟨hd, hview⟩ := view_exec hx
    exact ⟨e, hd, hadm, answers_exec hx, hview⟩
  guar _ h := h

section Rules

variable {α : Type} {W : Watch} {srv : Server D} {p : Pid} {m : Bool} {v : View D} {o : Op D}
  {f : Res o → PgProg D α} {Q : α → View D → Prop} {E : View D → Prop}

/-- One operation. -/
theorem wp_view_op (hE : m = true → E v) (hg : W.Inv srv p v → W.guar srv o v)
    (h : W.Inv srv p v → ∀ r e hd, W.admits srv e v o → v.Answers p e o r →
      W.Inv srv p (v.after p hd o) ∧ (viewContract W srv p).wp m (f r) Q E (v.after p hd o)) :
    (viewContract W srv p).wp m (act o >>= f) Q E v := by
  refine Contract.seq_op (fun hm _ => hE hm) hg fun hi r t ⟨e, hd, hadm, hans, ht⟩ => ?_
  subst ht
  exact h hi r e hd hadm hans

/-- An operation that does not change the view. -/
theorem wp_view_read (hE : m = true → E v) (hv : ∀ hd, v.after p hd o = v)
    (hg : W.Inv srv p v → W.guar srv o v)
    (h : ∀ r e, W.admits srv e v o → v.Answers p e o r →
      (viewContract W srv p).wp m (f r) Q E v) :
    (viewContract W srv p).wp m (act o >>= f) Q E v := by
  refine wp_view_op hE hg fun hi r e hd hadm hans => ?_
  rw [hv hd]
  exact ⟨hi, h r e hadm hans⟩

/-- The operations that change no view, whatever is watched. -/
def Op.LeavesView (p : Pid) (o : Op D) : Prop :=
  (∀ v hd, View.after p hd v o = v) ∧ ∀ (W : Watch) srv v, W.guar srv o v

/-- A program of quiet operations. -/
theorem wp_view_quiet {prog : PgProg D α} (hall : prog.All (Op.LeavesView p)) :
    (viewContract W srv p).wp m prog (fun _ t => t = v) (fun t => t = v) v := by
  refine Contract.wp_of_all hall (Contract.seq_stable _) ?_ rfl
  rintro o t r t' ⟨hq, hg⟩ hi rfl - ⟨e, hd, -, -, rfl⟩
  rw [hq t hd]
  exact ⟨hi, hg W srv t, rfl⟩

end Rules

end WhatIsHappening
