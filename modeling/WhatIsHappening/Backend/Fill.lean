/-
# How a process fills its slot

On its view, where the process runs alone: the search for its entry, the topology walk, the query
text, and the try block of the start hook.  In a run that is watched for errors, none is raised;
in every other, one may be raised anywhere, and `Filling` is what it leaves.
-/
import WhatIsHappening.Backend.Contract

namespace WhatIsHappening

open Interleaving Prog

variable {D : Type} {α : Type} {W : Watch} {srv : Server D} {p : Pid} {m : Bool} {v : View D}
  {Q : α → View D → Prop} {E : View D → Prop}

/-! ## 1. The lock

What others do with the lock is not seen in the view: it has only our own part of it, which is
nothing, once shared, or exclusive. -/

/-- The lock as `LW_SHARED` leaves it. -/
def sharedBy (p : Pid) : LWLock := { shared := [p] }

/-- The lock as `LW_EXCLUSIVE` leaves it. -/
def exclusiveBy (p : Pid) : LWLock := { exclusive := some p }

/-- The lock is no part of what is watched. -/
theorem Watch.Inv.withLock (h : W.Inv srv p v) (l : LWLock) : W.Inv srv p (v.withLock l) :=
  ⟨h.live, h.numbers, h.shown⟩

/-- Taking the lock, for whatever it admits. -/
theorem wp_view_acquire {mode : LWLockMode} {f : Unit → PgProg D α} (hE : m = true → E v)
    (h : ∀ l, v.lock.acquire mode p = some l →
      (viewContract W srv p).wp m (f ()) Q E (v.withLock l)) :
    (viewContract W srv p).wp m (pwhLwlockAcquire mode >>= f) Q E v := by
  refine wp_view_op hE (fun _ => trivial) fun hi r e hd _ hans => ?_
  obtain ⟨l, hl⟩ := Option.ne_none_iff_exists'.mp hans
  have hv : v.after p hd (.lwLockAcquire mode) = v.withLock l := by
    simp only [View.after, hl, Option.getD_some]
    rfl
  rw [hv]
  exact ⟨hi.withLock l, h l hl⟩

/-- Giving it up, where it is held. -/
theorem wp_view_release {l : LWLock} {f : Unit → PgProg D α} (hl : v.lock.release p = some l)
    (hE : m = true → E v) (h : (viewContract W srv p).wp m (f ()) Q E (v.withLock l)) :
    (viewContract W srv p).wp m (pwhLwlockRelease >>= f) Q E v := by
  rw [pwhLwlockRelease_bind]
  refine wp_view_op hE (fun _ => trivial) fun hi r e hd _ hans => ?_
  have hv : v.after p hd .lwLockRelease = v.withLock l := by
    simp only [View.after, hl, Option.getD_some]
    rfl
  have hr : r = true := by simpa [View.Answers, hl] using hans
  rw [hv, hr]
  exact ⟨hi.withLock l, h⟩

/-- ...at the end of a program. -/
theorem wp_view_released {l : LWLock} {Q : Unit → View D → Prop}
    (hl : v.lock.release p = some l) (hE : m = true → E v)
    (hQ : W.Inv srv p (v.withLock l) → Q () (v.withLock l)) :
    (viewContract W srv p).wp m pwhLwlockRelease Q E v := by
  have htail : (pwhLwlockRelease : PgProg D Unit) = pwhLwlockRelease >>= .ret := by
    rw [pwhLwlockRelease_bind]
    rfl
  rw [htail]
  exact wp_view_release hl hE (Contract.seq_ret hQ)

/-- A free lock that is taken shared is held once. -/
theorem acquire_shared {l l' : LWLock} (hl : l = {}) (h : l.acquire .LW_SHARED p = some l') :
    l' = sharedBy p := by
  subst hl
  simpa [LWLock.acquire, sharedBy, eq_comm] using h

/-- The lock is taken exclusively only when it is free. -/
theorem acquire_exclusive {l l' : LWLock} (h : l.acquire .LW_EXCLUSIVE p = some l') :
    l = {} ∧ l' = exclusiveBy p := by
  obtain ⟨exclusive, shared⟩ := l
  simp only [LWLock.acquire, Option.ite_none_right_eq_some] at h
  obtain ⟨⟨rfl, rfl⟩, h⟩ := h
  exact ⟨rfl, by cases h; rfl⟩

/-- What was taken shared is given up, -/
@[simp] theorem sharedBy_release (p : Pid) : (sharedBy p).release p = some {} := by
  simp [sharedBy, LWLock.release]

/-- ...and so is what was taken exclusively. -/
@[simp] theorem exclusiveBy_release (p : Pid) : (exclusiveBy p).release p = some {} := by
  simp [exclusiveBy, LWLock.release]

/-! ## 2. The search for the entry

The view knows which slots are ours.  The search comes to the first of them if there is one, and
else it claims a slot or returns none; which it is depends on the other processes. -/

/-- The slots of a process are in the table, and there is at most one. -/
structure View.Slots (srv : Server D) (v : View D) : Prop where
  lt : ∀ i, v.slot i ≠ none → i < srv.gucs.maxTrackedQueries
  unique : ∀ i j, v.slot i ≠ none → v.slot j ≠ none → i = j

/-- The lock is free, or this process is its only holder. -/
def LockOurs (p : Pid) (l : LWLock) : Prop := l = {} ∨ l.release p = some {}

/-- What the search may have done when it is left by an error. -/
def View.Searching (W : Watch) (srv : Server D) (p : Pid) (create : Bool) (v v' : View D) :
    Prop :=
  W.clean = false ∧ ∃ l, LockOurs p l ∧ (v' = v.withLock l ∨ create = true ∧ v.NoSlot ∧
    ∃ be h, be < srv.gucs.maxTrackedQueries ∧ v' = (v.claim be h).withLock l)

/-- What it has done when it returns: found the slot of the process, found none and taken none,
or taken a free one. -/
inductive View.Found (W : Watch) (srv : Server D) (create : Bool) (v : View D) :
    Option Nat → View D → Prop where
  | own {be : Nat} (h : v.slot be ≠ none) : Found W srv create v (some be) v
  | none (h : v.NoSlot) (hclean : W.clean = true → create = false) : Found W srv create v none v
  | claimed {be : Nat} {hd : Header} (h : v.NoSlot) (hcreate : create = true)
      (hlt : be < srv.gucs.maxTrackedQueries) : Found W srv create v (some be) (v.claim be hd)

/-- A slot that is claimed shows no query yet. -/
theorem Watch.Inv.claim (h : W.Inv srv p v) (hcur : v.current = none) (i : Nat) (hd : Header) :
    W.Inv srv p (v.claim i hd) where
  live := h.live
  numbers _ _ _ _ hq := absurd (hcur.symm.trans hq) nofun
  shown _ _ _ _ _ hq := absurd (hcur.symm.trans hq) nofun

section Search

variable {create : Bool} (hm : m = true → W.clean = false)

/-- The entry is handed on. -/
theorem wp_returnEntry {Q : Option Nat → View D → Prop} {be : Nat} (hE : m = true → E v)
    (hQ : W.Inv srv p v → Q (some be) v) :
    (viewContract W srv p).wp m (returnEntry be) Q E v :=
  wp_view_read hE (fun _ => rfl) (fun _ => trivial) fun _ _ _ _ => Contract.seq_ret hQ

include hm

/-- The end of the search, when no slot of ours was found. -/
theorem wp_claimFreeSlot (hnone : v.NoSlot) (hcur : create = true → v.current = none)
    (hlock : v.lock = {}) {free : Nat}
    (hfree : free = NO_FREE_SLOT ∨ free < srv.gucs.maxTrackedQueries) :
    (viewContract W srv p).wp m (claimFreeSlot p create free) (v.Found W srv create)
      (v.Searching W srv p create) (v.withLock (sharedBy p)) := by
  have hv : v.withLock {} = v := by rw [← hlock, View.withLock_self]
  have hE : m = true → v.Searching W srv p create (v.withLock (sharedBy p)) :=
    fun h => ⟨hm h, _, .inr (sharedBy_release p), .inl rfl⟩
  unfold claimFreeSlot
  split
  · rename_i h
    have hlt : free < srv.gucs.maxTrackedQueries := hfree.resolve_left h.2
    have hE' : ∀ l hd, LockOurs p l → m = true →
        v.Searching W srv p create ((v.claim free hd).withLock l) :=
      fun l hd hl h' => ⟨hm h', l, hl, .inr ⟨h.1, hnone, free, hd, hlt, rfl⟩⟩
    refine wp_view_op hE (fun _ _ => .inr (hcur h.1)) fun hi r e hd _ _ => ?_
    have hafter : (v.withLock (sharedBy p)).after p hd (.writeBackendPid free p) =
        (v.claim free hd).withLock (sharedBy p) := by
      simp [View.after, View.claim, View.withLock, hnone free]
    rw [hafter]
    refine ⟨((hi.withLock v.lock).claim (hcur h.1) free hd).withLock _, ?_⟩
    refine wp_view_release (sharedBy_release p) (hE' _ _ (.inr (sharedBy_release p))) ?_
    refine wp_returnEntry (hE' _ _ (.inl rfl)) fun _ => ?_
    have hcl : (v.claim free hd).withLock {} = v.claim free hd := by rw [← hlock]; rfl
    rw [View.withLock_withLock, hcl]
    exact .claimed hnone h.1 hlt
  · refine wp_view_release (sharedBy_release p) hE ?_
    rw [View.withLock_withLock, hv]
    have hEv : m = true → v.Searching W srv p create v :=
      fun h => ⟨hm h, {}, .inl rfl, .inl hv.symm⟩
    cases create
    · exact Contract.seq_ret fun _ => .none hnone fun _ => rfl
    · refine wp_view_read hEv (fun _ => rfl) (fun _ => trivial) fun _ _ hadm _ =>
        Contract.seq_ret fun _ => .none hnone fun hc => ?_
      exact absurd hc (by simpa [Watch.admits] using hadm)

/-- From slot `i` on, when there is none before. -/
theorem wp_searchSlots (hp : p ≠ 0) (hS : v.Slots srv)
    (hcur : create = true → v.NoSlot → v.current = none) (hlock : v.lock = {}) :
    ∀ k i free, i + k = srv.gucs.maxTrackedQueries → (∀ j < i, v.slot j = none) →
      (free = NO_FREE_SLOT ∨ free < srv.gucs.maxTrackedQueries) →
      (viewContract W srv p).wp m (searchSlots p create k i free) (v.Found W srv create)
        (v.Searching W srv p create) (v.withLock (sharedBy p))
  | 0, i, free, hik, hbefore, hfree => by
    have hnone : v.NoSlot := fun j => by
      by_contra hj
      exact hj (hbefore j (by have := hS.lt j hj; omega))
    exact wp_claimFreeSlot hm hnone (fun hc => hcur hc hnone) hlock hfree
  | k + 1, i, free, hik, hbefore, hfree => by
    have hv : v.withLock {} = v := by rw [← hlock, View.withLock_self]
    have hE : ∀ l, LockOurs p l → m = true → v.Searching W srv p create (v.withLock l) :=
      fun l hl h => ⟨hm h, l, hl, .inl rfl⟩
    have hshared := hE (sharedBy p) (.inr (sharedBy_release p))
    have hnext : ∀ free', v.slot i = none →
        (free' = NO_FREE_SLOT ∨ free' < srv.gucs.maxTrackedQueries) →
        (viewContract W srv p).wp m (searchSlots p create k (i + 1) free') (v.Found W srv create)
          (v.Searching W srv p create) (v.withLock (sharedBy p)) := fun free' hi hfree' =>
      wp_searchSlots hp hS hcur hlock k (i + 1) free' (by omega)
        (fun j hj => by
          rcases Nat.lt_succ_iff_lt_or_eq.mp hj with hj | rfl
          · exact hbefore j hj
          · exact hi) hfree'
    have hread : (viewContract W srv p).wp m (act (.readBackendPid i) >>= fun pid =>
        if pid = p then (pwhLwlockRelease >>= fun _ => returnEntry i)
        else searchSlots p create k (i + 1) free) (v.Found W srv create)
        (v.Searching W srv p create) (v.withLock (sharedBy p)) := by
      refine wp_view_read hshared (fun _ => rfl) (fun _ => trivial) fun pid e _ hans => ?_
      have hans : pid = p ↔ v.slot i ≠ none := hans
      by_cases hpid : pid = p
      · rw [if_pos hpid]
        refine wp_view_release (sharedBy_release p) hshared ?_
        refine wp_returnEntry (hE {} (.inl rfl)) fun _ => ?_
        rw [View.withLock_withLock, hv]
        exact .own (hans.mp hpid)
      · rw [if_neg hpid]
        exact hnext free (by simpa [hpid] using hans) hfree
    unfold searchSlots
    split
    · refine wp_view_read hshared (fun _ => rfl) (fun _ => trivial)
        fun pid e _ hans => ?_
      have hans : pid = p ↔ v.slot i ≠ none := hans
      by_cases hpid : pid = 0
      · rw [if_pos hpid]
        refine hnext i ?_ (.inr (by omega))
        by_contra hslot
        exact hp ((hans.mpr hslot).symm.trans hpid)
      · rw [if_neg hpid]
        exact hread
    · exact hread

/-- **The search** finds the slot of the process if it has one, and takes a free one if it may. -/
theorem wp_getEntry (hp : p ≠ 0) (hS : v.Slots srv)
    (hcur : create = true → v.NoSlot → v.current = none) (hlock : v.lock = {}) :
    (viewContract W srv p).wp m (pwhGetOrCreateMyBackendEntryImpl srv p create)
      (v.Found W srv create) (v.Searching W srv p create) v := by
  refine wp_view_acquire (fun h => ⟨hm h, v.lock, .inl hlock, .inl rfl⟩) fun l hl => ?_
  rw [acquire_shared hlock hl]
  exact wp_searchSlots hm hp hS hcur hlock _ 0 _ (Nat.zero_add _) (fun j hj => absurd hj (by omega))
    (.inl rfl)

end Search

/-! ## 3. The topology walk

Record by record the walk writes what `visits` lists, the same list the claims about the tree speak
of; the view keeps the records as they are at every moment, since a reader may look at any. -/

/-- Slot `be` is being filled, or about to be. -/
def View.Filling (W : Watch) (p : Pid) (be : Nat) (v v' : View D) : Prop :=
  W.clean = false ∧ ∃ h tree node b l, LockOurs p l ∧ v' = (v.fill be h tree node b).withLock l

section Fill

variable {be : Nat} {h : Header} {tree : Option QueryDescPtr} {node : Nat → Option PlanStatePtr}
  {b : Bool} (hm : m = true → W.clean = false) (hlock : v.lock = {})

include hm hlock in
/-- A slot that is being filled may be left as it is by an error. -/
theorem filling_fill {h : Option Header} (h' : m = true) :
    v.Filling W p be (v.fill be h tree node b) :=
  ⟨hm h', h, tree, node, b, v.lock, .inl hlock, rfl⟩

/-- While it is recorded nothing is asked of what the slot shows. -/
theorem Watch.Inv.fill {h h' : Option Header} {tree' : Option QueryDescPtr}
    {node' : Nat → Option PlanStatePtr} (hi : W.Inv srv p (v.fill be h tree node b)) :
    W.Inv srv p (v.fill be h' tree' node' true) where
  live := hi.live
  numbers _ hrec := nomatch hrec
  shown _ hrec := nomatch hrec

/-- The mark in front of the walk. -/
theorem after_rememberQuery {h : Option Header} {hd : Header} {q : QueryDescPtr} :
    (v.fill be h tree node b).after p hd (.mark (.rememberQuery be q)) =
      v.fill be h (some q) node true := by
  simp [View.after, View.fill]

/-- The mark in front of a record. -/
theorem after_rememberNode {h : Option Header} {hd : Header} {j : Nat} {ps : PlanStatePtr} :
    (v.fill be h tree node b).after p hd (.mark (.rememberNode be j ps)) =
      v.fill be h tree (Function.update node j (some ps)) b := by
  simp [View.after, View.fill]

/-- A write into the slot. -/
theorem modifySlot_fill (f : Header → Header) :
    (v.fill be (some h) tree node b).modifySlot be f = v.fill be (some (f h)) tree node b := by
  simp [View.modifySlot, View.fill]

/-- A write into the slot that is being filled. -/
theorem wp_fill_write {o : Op D} {g : Res o → PgProg D α} (f : Header → Header)
    (ho : ∀ v hd, View.after p hd v o = v.modifySlot be f)
    (hg : W.guar srv o (v.fill be (some h) tree node true))
    (hE : m = true → E (v.fill be (some h) tree node true))
    (hk : ∀ r, (viewContract W srv p).wp m (g r) Q E (v.fill be (some (f h)) tree node true)) :
    (viewContract W srv p).wp m (act o >>= g) Q E (v.fill be (some h) tree node true) := by
  refine wp_view_op hE (fun _ => hg) fun hi r e hd _ _ => ?_
  rw [ho, modifySlot_fill]
  exact ⟨hi.fill, hk r⟩

/-- What writing fields one by one makes of an identity. -/
def NodeIdent.setAll (D : Type) (x : NodeIdent) (ws : List (Sigma fun f : NodeField => f.ty D)) :
    NodeIdent := ws.foldl (fun x w => x.set D w.1 w.2) x

include hm hlock in
/-- The fields of a record are written one by one. -/
theorem wp_writeNodeFields {j : Nat} :
    ∀ (ws : List (Sigma fun f : NodeField => f.ty D)) (h : Header),
      (viewContract W srv p).wp m (writeNodeFields be j ws)
        (fun _ v' => v' = v.fill be (some { h with
          ident := Function.update h.ident j ((h.ident j).setAll D ws) }) tree node true)
        (v.Filling W p be) (v.fill be (some h) tree node true)
  | [], h => Contract.seq_ret fun _ => by simp [NodeIdent.setAll]
  | w :: ws, h => by
    unfold writeNodeFields
    refine wp_fill_write _ (fun _ _ => rfl) trivial (filling_fill hm hlock)
      fun _ => ?_
    refine Contract.wp_mono (wp_writeNodeFields ws _) ?_ fun _ _ h => h
    rintro _ _ - rfl
    simp [NodeIdent.setAll]

/-- One node more, in the next record. -/
theorem RecordsNodes.concat {acc : Visited} {ident : Nat → NodeIdent}
    (hrec : RecordsNodes srv acc ident node) (x : PlanStatePtr × Int) :
    RecordsNodes srv (acc ++ [x]) (Function.update ident acc.length (.ofNode srv acc.length x))
      (Function.update node acc.length (some x.1)) := by
  intro j y hj
  rcases Nat.lt_trichotomy j acc.length with hlt | rfl | hgt
  · rw [List.getElem?_append_left hlt] at hj
    simpa [Function.update_of_ne hlt.ne] using hrec j y hj
  · have hxy : x = y := by simpa using hj
    simp [hxy]
  · rw [List.getElem?_eq_none (by simp; omega)] at hj
    cases hj

variable [CDouble D]

include hm hlock in
/-- The visitor below its limit. -/
theorem wp_topologyVisitor {acc : Visited} {ps : PlanStatePtr} {parentId : Int}
    (hlt : acc.length < srv.gucs.maxNodesPerQuery) (hrec : RecordsNodes srv acc h.ident node) :
    (viewContract W srv p).wp m
      (topologyVisitor srv be srv.gucs.maxNodesPerQuery ps parentId acc.length)
      (fun r v' => r = ((acc.length : Int), acc.length + 1) ∧ ∃ h' node',
        RecordsNodes srv (acc ++ [(ps, parentId)]) h'.ident node' ∧
          v' = v.fill be (some h') tree node' true)
      (v.Filling W p be) (v.fill be (some h) tree node true) := by
  unfold topologyVisitor
  rw [if_neg (by omega)]
  refine wp_view_op (filling_fill hm hlock) (fun _ _ => rfl) fun hi _ e hd _ _ => ?_
  rw [after_rememberNode]
  refine ⟨hi.fill, Contract.wp_bind (Contract.wp_mono (wp_writeNodeFields hm hlock _ _) ?_
    fun _ _ h => h)⟩
  rintro _ _ - rfl
  exact Contract.seq_ret fun _ => ⟨rfl, _, _, hrec.concat (ps, parentId), rfl⟩

/-- What a call of the walk leaves: the nodes that `visited` says. -/
def Walked (srv : Server D) (be : Nat) (tree : Option QueryDescPtr) (v : View D)
    (visited : Option (Bool × Visited)) (r : Bool × Nat) (v' : View D) : Prop :=
  ∃ acc h node, visited = some (r.1, acc) ∧ r.2 = acc.length ∧
    RecordsNodes srv acc h.ident node ∧ v' = v.fill be (some h) tree node true

omit [CDouble D] in
/-- The calls below a node record what `visitCalls` lists, if each of them does. -/
theorem wp_topologyCalls {walk : Option PlanStatePtr → Nat → PgProg D (Bool × Nat)}
    {visit : Option PlanStatePtr → Visited → Option (Bool × Visited)}
    (hwalk : ∀ call acc h node, RecordsNodes srv acc h.ident node →
      (viewContract W srv p).wp m (walk call acc.length) (Walked srv be tree v (visit call acc))
        (v.Filling W p be) (v.fill be (some h) tree node true)) :
    ∀ calls acc h node, RecordsNodes srv acc h.ident node →
      (viewContract W srv p).wp m (walkCalls walk calls acc.length)
        (Walked srv be tree v (visitCalls visit calls acc))
        (v.Filling W p be) (v.fill be (some h) tree node true)
  | [], acc, h, node, hrec => Contract.seq_ret fun _ => ⟨acc, h, node, rfl, rfl, hrec, rfl⟩
  | call :: rest, acc, h, node, hrec => by
    refine Contract.wp_bind (Contract.wp_mono (hwalk call acc h node hrec) ?_ fun _ _ h => h)
    rintro ⟨goOn, counter⟩ _ - ⟨acc', h', node', hvisit, rfl, hrec', rfl⟩
    cases goOn
    · exact Contract.seq_ret fun _ =>
        ⟨acc', h', node', by simp [visitCalls, hvisit], rfl, hrec', rfl⟩
    · simp only [visitCalls, hvisit]
      exact wp_topologyCalls hwalk rest acc' h' node' hrec'

include hm hlock in
/-- **The topology walk** records the nodes that `visits` lists. -/
theorem wp_topologyWalk :
    ∀ frames ptr parentId acc h node, RecordsNodes srv acc h.ident node →
      (viewContract W srv p).wp m
        (walkPlanstateRecursive srv (topologyVisitor srv be srv.gucs.maxNodesPerQuery) frames ptr
          parentId acc.length)
        (Walked srv be tree v (visits srv srv.gucs.maxNodesPerQuery frames ptr parentId acc))
        (v.Filling W p be) (v.fill be (some h) tree node true)
  | 0, _, _, _, _, _, _ =>
    wp_view_read (filling_fill hm hlock) (fun _ => rfl) (fun _ => trivial) fun _ _ hadm _ =>
      Contract.seq_raise fun _ => ⟨hadm, _, _, _, _, _, .inl hlock, rfl⟩
  | frames + 1, none, _, acc, h, node, hrec =>
    Contract.seq_ret fun _ => ⟨acc, h, node, rfl, rfl, hrec, rfl⟩
  | frames + 1, some ps, parentId, acc, h, node, hrec => by
    unfold walkPlanstateRecursive visits
    split
    · exact Contract.seq_ret fun _ => ⟨acc, h, node, rfl, rfl, hrec, rfl⟩
    by_cases hfull : srv.gucs.maxNodesPerQuery ≤ acc.length
    · rw [if_pos hfull]
      unfold topologyVisitor
      rw [if_pos hfull]
      exact Contract.seq_ret fun _ => ⟨acc, h, node, rfl, rfl, hrec, rfl⟩
    · rw [if_neg hfull]
      refine Contract.wp_bind (Contract.wp_mono
        (wp_topologyVisitor hm hlock (by omega) hrec) ?_ fun _ _ h => h)
      rintro _ _ - ⟨rfl, h', node', hrec', rfl⟩
      have hpos : ¬ ((acc.length : Int) < 0) := by omega
      have hcalls : (viewContract W srv p).wp m
          (walkCalls _ (childCalls (srv.planState ps)) (acc ++ [(ps, parentId)]).length)
          (Walked srv be tree v (visitCalls _ _ (acc ++ [(ps, parentId)]))) (v.Filling W p be)
          (v.fill be (some h') tree node' true) :=
        wp_topologyCalls (fun call acc' h node hrec =>
          wp_topologyWalk frames call acc.length acc' h node hrec) _ _ h' node' hrec'
      simpa [hpos] using hcalls

include hm hlock in
/-- `pwh_remember_planstate_tree_as_metric_structure` records the nodes of the query. -/
theorem wp_remember (q : QueryDescPtr) (h : Header) (node : Nat → Option PlanStatePtr) :
    (viewContract W srv p).wp m
      (pwhRememberPlanstateTreeAsMetricStructure srv (srv.queryDesc q).planstate be
        srv.gucs.maxNodesPerQuery)
      (fun n v' => ∃ acc h' node', ListsNodes srv q acc ∧ n = acc.length ∧
        RecordsNodes srv acc h'.ident node' ∧ v' = v.fill be (some h') tree node' true)
      (v.Filling W p be) (v.fill be (some h) tree node true) := by
  cases hps : (srv.queryDesc q).planstate with
  | none =>
    exact Contract.seq_ret fun _ => ⟨[], h, node, by simp [ListsNodes, hps], rfl, nofun, rfl⟩
  | some ps =>
    refine wp_view_read (filling_fill hm hlock) (fun _ => rfl) (fun _ => trivial)
      fun frames _ _ _ => ?_
    refine Contract.wp_bind (Contract.wp_mono (wp_topologyWalk hm hlock frames (some ps) (-1) []
      h node nofun) ?_ fun _ _ h => h)
    rintro ⟨goOn, counter⟩ _ - ⟨acc, h', node', hvisit, rfl, hrec, rfl⟩
    refine Contract.seq_ret fun _ => ⟨acc, h', node', ?_, rfl, hrec, rfl⟩
    simp only [ListsNodes, hps]
    exact ⟨frames, goOn, hvisit⟩

end Fill

/-! ## 4. The query text

The bytes that `snprintf` stores, one after the other; what stands behind them stays. -/

/-- Bytes written one by one. -/
def putBytes (t : Nat → UInt8) (ws : List (Nat × UInt8)) : Nat → UInt8 :=
  ws.foldl (fun t w => Function.update t w.1 w.2) t

/-- Bytes that are stored from place `k` on are read at their places. -/
theorem putBytes_zipIdx (bytes : List UInt8) :
    ∀ (k : Nat) (t : Nat → UInt8) (j : Nat),
      putBytes t ((bytes.zipIdx k).map fun bk => (bk.2, bk.1)) j =
        if k ≤ j ∧ j - k < bytes.length then bytes.getD (j - k) 0 else t j := by
  induction bytes with
  | nil => intro k t j; simp [putBytes]
  | cons b bytes ih =>
    intro k t j
    have := ih (k + 1) (Function.update t k b) j
    simp only [putBytes, List.zipIdx_cons, List.map_cons, List.foldl_cons] at this ⊢
    rw [this]
    rcases Nat.lt_trichotomy j k with hlt | rfl | hgt
    · rw [if_neg (by omega), if_neg (by omega), Function.update_of_ne (by omega)]
    · rw [if_neg (by omega), if_pos ⟨le_rfl, by simp⟩]
      simp
    · have hj : j - k = (j - (k + 1)) + 1 := by omega
      rw [Function.update_of_ne (by omega)]
      by_cases hlen : j - (k + 1) < bytes.length
      · rw [if_pos ⟨by omega, hlen⟩, if_pos ⟨by omega, by simp; omega⟩]
        simp [hj]
      · rw [if_neg (by omega), if_neg (by simp; omega)]

/-- What `snprintf` leaves of a text, read as a C string. -/
theorem text_snprintf {n : Nat} (hn : 0 < n) (text : CString) (t : Nat → UInt8) :
    ((List.range n).map (putBytes t (snprintfWrites n text))).takeWhile (· ≠ 0) =
      text.bytes.take (n - 1) := by
  have hlen : (text.bytes.take (n - 1)).length < n := by
    rw [List.length_take]
    omega
  have hmem : ∀ b ∈ text.bytes.take (n - 1), b ≠ 0 := fun b hb h0 =>
    text.nul_free (h0 ▸ List.mem_of_mem_take hb)
  generalize hshown : text.bytes.take (n - 1) = shown at hlen hmem ⊢
  have hput : putBytes t (snprintfWrites n text) =
      Function.update (putBytes t ((shown.zipIdx).map fun bk => (bk.2, bk.1))) shown.length 0 := by
    simp [snprintfWrites, hshown, putBytes]
  obtain ⟨k, rfl⟩ : ∃ k, n = shown.length + (k + 1) := ⟨n - shown.length - 1, by omega⟩
  have hfirst : (List.range shown.length).map (putBytes t (snprintfWrites (shown.length + (k + 1))
      text)) = shown := by
    refine List.ext_getElem (by simp) fun j hj _ => ?_
    have hj : j < shown.length := by simpa using hj
    simp only [List.getElem_map, List.getElem_range, hput, Function.update_of_ne hj.ne]
    simp [putBytes_zipIdx, hj]
  rw [List.range_add, List.map_append, hfirst, List.range_succ_eq_map]
  rw [List.takeWhile_append_of_pos (by simpa using hmem)]
  simp [hput]

section Text

variable {be : Nat} {h : Header} {tree : Option QueryDescPtr} {node : Nat → Option PlanStatePtr}
  (hm : m = true → W.clean = false) (hlock : v.lock = {})

include hm hlock

/-- The text is stored byte by byte. -/
theorem wp_writeQueryText :
    ∀ (ws : List (Nat × UInt8)) (h : Header),
      (viewContract W srv p).wp m (writeQueryText be ws)
        (fun _ v' => v' = v.fill be (some { h with queryText := putBytes h.queryText ws })
          tree node true)
        (v.Filling W p be) (v.fill be (some h) tree node true)
  | [], h => Contract.seq_ret fun _ => rfl
  | w :: ws, h => by
    unfold writeQueryText
    refine wp_fill_write _ (fun _ _ => rfl) trivial (filling_fill hm hlock)
      fun _ => ?_
    exact wp_writeQueryText ws { h with queryText := Function.update h.queryText w.1 w.2 }

/-- The text of a query is copied as far as it fits. -/
theorem wp_copyQueryText (qd : QueryDesc D) (h : Header) :
    (viewContract W srv p).wp m (copyQueryText srv be qd)
      (fun _ v' => ∃ text,
        ((List.range srv.gucs.maxQueryTextLen).map text).takeWhile (· ≠ 0) =
          shownText srv.gucs.maxQueryTextLen qd.sourceText ∧
        v' = v.fill be (some { h with queryText := text }) tree node true)
      (v.Filling W p be) (v.fill be (some h) tree node true) := by
  have hpos := srv.gucs.maxQueryTextLen_pos
  unfold copyQueryText
  cases qd.sourceText with
  | some text =>
    refine Contract.wp_mono (wp_writeQueryText hm hlock _ h) ?_ fun _ _ h => h
    rintro _ _ - rfl
    exact ⟨_, text_snprintf hpos text _, rfl⟩
  | none =>
    refine wp_fill_write _ (fun _ _ => rfl) trivial (filling_fill hm hlock)
      fun _ => Contract.seq_ret fun _ => ⟨_, ?_, rfl⟩
    obtain ⟨k, hk⟩ : ∃ k, srv.gucs.maxQueryTextLen = k + 1 := ⟨_, (Nat.succ_pred hpos.ne').symm⟩
    simp [hk, List.range_succ_eq_map, shownText]

end Text

/-! ## 5. The fill

From the claimed entry to the slot that shows the query: the walk, the count, the start time, the
id and the text, and last of all `CURRENT_QUERY_DESC`. -/

section Track

variable {be : Nat} {q : QueryDescPtr} (hm : m = true → W.clean = false) (hlock : v.lock = {})

/-- A slot whose record is complete may be shown. -/
theorem Watch.Inv.track {h : Option Header} {tree : Option QueryDescPtr}
    {node : Nat → Option PlanStatePtr} {b : Bool} {h' : Header}
    {node' : Nat → Option PlanStatePtr} (hi : W.Inv srv p (v.fill be h tree node b))
    (hlive : W.live = true → q ∈ v.started) (hother : ∀ i, i ≠ be → v.slot i = none)
    (hnode : Shows srv p q h' node') :
    W.Inv srv p (v.track be h' q node') where
  live hw q' hq' := by
    cases hq'
    exact hlive hw
  numbers hw _ q' i hq' hslot := by
    cases hq'
    by_cases hib : i = be
    · subst hib
      simpa [View.track, View.fill] using hnode.isRecorded
    · exact absurd (hother i hib) (by simpa [View.track, View.fill, hib] using hslot)
  shown hw _ q' i hd hq' hslot := by
    cases hq'
    by_cases hib : i = be
    · subst hib
      obtain rfl : h' = hd := by simpa [View.track, View.fill] using hslot
      simpa [View.track, View.fill] using hnode
    · simp [View.track, View.fill, hib, hother i hib] at hslot

variable [CDouble D]

include hm hlock

omit [CDouble D] in
/-- The id is the planner's or a hash of the text and the time. -/
theorem wp_getQueryId {tree : Option QueryDescPtr} {node : Nat → Option PlanStatePtr}
    (qd : QueryDesc D) (h : Header) :
    (viewContract W srv p).wp m (getQueryId p qd)
      (fun id v' => (∃ now, id = queryIdAt p qd now) ∧ v' = v.fill be (some h) tree node true)
      (v.Filling W p be) (v.fill be (some h) tree node true) := by
  unfold getQueryId
  split
  · rename_i hid
    refine wp_view_read (filling_fill hm hlock) (fun _ => rfl) (fun _ => trivial)
      fun now _ _ _ => Contract.seq_ret fun _ => ⟨⟨now, ?_⟩, rfl⟩
    simp [queryIdAt, hid]
  · rename_i hid
    exact Contract.seq_ret fun _ => ⟨⟨0, by simp [queryIdAt, hid]⟩, rfl⟩

/-- **The fill**: the slot shows the query once `CURRENT_QUERY_DESC` is set. -/
theorem wp_trackQuery {h : Header} {tree : Option QueryDescPtr}
    {node : Nat → Option PlanStatePtr} {b : Bool} (hlive : W.live = true → q ∈ v.started)
    (hother : ∀ i, i ≠ be → v.slot i = none) :
    (viewContract W srv p).wp m (trackQuery srv p be q)
      (fun _ v' => ∃ h' node', Shows srv p q h' node' ∧ v' = v.track be h' q node')
      (v.Filling W p be) (v.fill be (some h) tree node b) := by
  unfold trackQuery
  refine wp_view_op (filling_fill hm hlock) (fun _ _ => by simp [View.fill])
    fun hi _ _ hd _ _ => ?_
  rw [after_rememberQuery]
  refine ⟨hi.fill, Contract.wp_bind (Contract.wp_mono (wp_remember hm hlock q h node) ?_
    fun _ _ h => h)⟩
  rintro _ _ - ⟨acc, h₁, node', hlist, rfl, hrec, rfl⟩
  refine wp_fill_write _ (fun _ _ => rfl) (fun _ => rfl) (filling_fill hm hlock) fun _ => ?_
  refine wp_view_read (filling_fill hm hlock) (fun _ => rfl) (fun _ => trivial)
    fun _ _ _ _ => ?_
  refine wp_view_read (filling_fill hm hlock) (fun _ => rfl) (fun _ => trivial)
    fun _ _ _ _ => ?_
  refine Contract.wp_bind (Contract.wp_mono (wp_getQueryId hm hlock _ _) ?_ fun _ _ h => h)
  rintro id _ - ⟨hid, rfl⟩
  refine wp_fill_write _ (fun _ _ => rfl) trivial (filling_fill hm hlock) fun _ => ?_
  refine Contract.wp_bind (Contract.wp_mono (wp_copyQueryText hm hlock _ _) ?_ fun _ _ h => h)
  rintro _ _ - ⟨text, htext, rfl⟩
  have hshows : Shows srv p q ⟨id, UInt32.ofNat acc.length, text, h₁.ident⟩ node' :=
    ⟨hid, htext, acc, hlist, rfl, hrec⟩
  refine wp_view_op (filling_fill hm hlock) (fun _ => trivial) fun hi _ _ hd _ _ => ?_
  exact ⟨hi.track hlive hother hshows, Contract.seq_ret fun _ => ⟨_, node', hshows, rfl⟩⟩

end Track

section Start

variable {q : QueryDescPtr} (hm : m = true → W.clean = false) (hlock : v.lock = {})

/-- The only slot the process has or takes is `be`. -/
def View.OnlySlot (srv : Server D) (v : View D) (be : Nat) : Prop :=
  be < srv.gucs.maxTrackedQueries ∧ ∀ i, i ≠ be → v.slot i = none

/-- How the try block of the start hook returns: the table is full, or the query is shown. -/
def View.Tried (W : Watch) (srv : Server D) (p : Pid) (q : QueryDescPtr) (v v' : View D) : Prop :=
  (v.NoSlot ∧ W.clean = false ∧ v' = v) ∨
    ∃ be h node, v.OnlySlot srv be ∧ Shows srv p q h node ∧ v' = v.track be h q node

/-- How it is left by an error. -/
def View.Failed (W : Watch) (srv : Server D) (p : Pid) (v v' : View D) : Prop :=
  ∃ be, v.OnlySlot srv be ∧ v.Filling W p be v'

/-- An interrupted search has at most begun to fill a slot. -/
theorem View.Searching.failed {v' : View D} (h : v.Searching W srv p true v') (hS : v.Slots srv) :
    v.Failed W srv p v' := by
  obtain ⟨hclean, l, hl, rfl | ⟨-, hnone, be, hd, hlt, rfl⟩⟩ := h
  · have hself : ∀ be, v.Filling W p be (v.withLock l) := fun be =>
      ⟨hclean, v.slot be, v.tree be, v.node be, v.isRecording, l, hl, by rw [View.fill_self]⟩
    by_cases hown : ∃ be, v.slot be ≠ none
    · obtain ⟨be, hbe⟩ := hown
      refine ⟨be, ⟨hS.lt be hbe, fun i hi => ?_⟩, hself be⟩
      by_contra hslot
      exact hi (hS.unique i be hslot hbe)
    · push Not at hown
      have := srv.gucs.maxTrackedQueries_range
      exact ⟨0, ⟨by omega, fun i _ => hown i⟩, hself 0⟩
  · refine ⟨be, ⟨hlt, fun i _ => hnone i⟩, hclean, some hd, v.tree be, v.node be, v.isRecording, l,
      hl, ?_⟩
    rw [View.claim_eq_fill]

variable [CDouble D]

include hm hlock

/-- The try block of the start hook fills the slot of the process, or finds the table full. -/
theorem wp_queryStartTry (hp : p ≠ 0) (hS : v.Slots srv)
    (hcur : v.NoSlot → v.current = none) (hlive : W.live = true → q ∈ v.started) :
    (viewContract W srv p).wp m (queryStartTry srv p q) (fun _ => v.Tried W srv p q)
      (v.Failed W srv p) v := by
  have hfill : ∀ be h tree node b, v.OnlySlot srv be →
      (viewContract W srv p).wp m (trackQuery srv p be q) (fun _ => v.Tried W srv p q)
        (v.Failed W srv p) (v.fill be (some h) tree node b) :=
    fun be h tree node b honly => Contract.wp_mono (wp_trackQuery hm hlock hlive honly.2)
      (fun _ _ _ ⟨h, node, hshows, hv⟩ => .inr ⟨be, h, node, honly, hshows, hv⟩)
      fun _ _ h => ⟨be, honly, h⟩
  refine Contract.wp_bind (Contract.wp_mono (wp_getEntry hm hp hS (fun _ => hcur) hlock) ?_
    fun _ _ h => h.failed hS)
  rintro _ _ - hfound
  cases hfound with
  | @own be hbe =>
    obtain ⟨h, hslot⟩ := Option.ne_none_iff_exists'.mp hbe
    have hother : ∀ i, i ≠ be → v.slot i = none := fun i hi => by
      by_contra hne
      exact hi (hS.unique i be hne hbe)
    have := hfill be h (v.tree be) (v.node be) v.isRecording ⟨hS.lt be hbe, hother⟩
    rwa [← hslot, View.fill_self] at this
  | none hnone hclean => exact Contract.seq_ret fun _ => .inl ⟨hnone, by simpa using hclean, rfl⟩
  | @claimed be hd hnone _ hlt =>
    rw [View.claim_eq_fill]
    exact hfill be hd _ _ _ ⟨hlt, fun i _ => hnone i⟩

end Start

end WhatIsHappening
