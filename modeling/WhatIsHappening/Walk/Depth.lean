/-
# How deep the walk of a poll goes

A signal arrives at any depth of the stack, so a walk that went well at the start of a query may
run out of stack when the query is polled.  `nestedCalls` lists the calls of a whole walk with the
depth of each, `callsMade` those of them that a visitor which refuses a node lets happen.  The
handler of SIGUSR2 comes back exactly when the stack admits all of these
(`handler_returns_iff`); nothing in it takes the error of `check_stack_depth`.
-/
import WhatIsHappening.Frame.Upkeep
import WhatIsHappening.Walk.Measures

namespace WhatIsHappening

open Interleaving Prog

variable {D : Type}

/-! ## 1. The calls of a walk -/

/-- The calls of the walk from a pointer, in order, when no visitor stops it: how deep each is
nested, and whether it visits a node. -/
def nestedCalls (srv : Server D) :
    (height depth : Nat) → Option PlanStatePtr → List (Nat × Bool)
  | 0, _, _ => []
  | _ + 1, depth, none => [(depth, false)]
  | height + 1, depth, some ps =>
    if (srv.planState ps).plan = none then [(depth, false)]
    else (depth, true) ::
      (childCalls (srv.planState ps)).flatMap (nestedCalls srv height (depth + 1))

/-- The depths of the calls that are made when the visitor refuses the node after the first
`limit`. -/
def callsMade : (limit : Nat) → List (Nat × Bool) → List Nat
  | _, [] => []
  | limit, (depth, false) :: rest => depth :: callsMade limit rest
  | 0, (depth, true) :: _ => [depth]
  | limit + 1, (depth, true) :: rest => depth :: callsMade limit rest

/-- How many calls visit a node. -/
def nodeCalls (calls : List (Nat × Bool)) : Nat := calls.countP (·.2)

@[simp] theorem nodeCalls_append (calls rest : List (Nat × Bool)) :
    nodeCalls (calls ++ rest) = nodeCalls calls + nodeCalls rest := List.countP_append

@[simp] theorem nodeCalls_skip (depth : Nat) (rest : List (Nat × Bool)) :
    nodeCalls ((depth, false) :: rest) = nodeCalls rest := by
  simp [nodeCalls]

@[simp] theorem nodeCalls_visit (depth : Nat) (rest : List (Nat × Bool)) :
    nodeCalls ((depth, true) :: rest) = nodeCalls rest + 1 := by
  simp [nodeCalls]

/-- When the first calls stay within the limit, the others are made as far as it still goes. -/
theorem callsMade_append_of_le {limit : Nat} {calls rest : List (Nat × Bool)}
    (h : nodeCalls calls ≤ limit) :
    callsMade limit (calls ++ rest) =
      callsMade limit calls ++ callsMade (limit - nodeCalls calls) rest := by
  induction calls generalizing limit with
  | nil => rfl
  | cons call calls ih =>
    obtain ⟨depth, _ | _⟩ := call
    · rw [nodeCalls_skip] at h
      simp [callsMade, ih h]
    · rw [nodeCalls_visit] at h
      obtain ⟨limit, rfl⟩ := Nat.exists_eq_add_of_lt h
      simp [callsMade, ih (Nat.le_add_right _ limit)]

/-- When the first calls go beyond it, no other is made. -/
theorem callsMade_append_of_lt {limit : Nat} {calls rest : List (Nat × Bool)}
    (h : limit < nodeCalls calls) : callsMade limit (calls ++ rest) = callsMade limit calls := by
  induction calls generalizing limit with
  | nil => exact absurd h (Nat.not_lt_zero limit)
  | cons call calls ih =>
    obtain ⟨depth, _ | _⟩ := call
    · rw [nodeCalls_skip] at h
      simp [callsMade, ih h]
    · rw [nodeCalls_visit] at h
      cases limit with
      | zero => rfl
      | succ limit => simp [callsMade, ih (Nat.lt_of_succ_lt_succ h)]

/-! ## 2. A walk with a limit -/

/-- The visitor gives the first `limit` nodes their ids and refuses the next, and keeps `I`. -/
structure VisitsUpTo (L : Contract (Res (D := D)) (State D)) (I : State D → Prop) (limit : Nat)
    (visitFn : PwhNodeVisitorFn D) : Prop where
  below : ∀ ps parent counter E s, counter < limit → I s →
    L.wp false (visitFn ps parent counter)
      (fun r t => r = ((counter : Int), counter + 1) ∧ I t) E s
  refuses : ∀ ps parent E s, I s →
    L.wp false (visitFn ps parent limit) (fun r t => r.1 < 0 ∧ I t) E s

/-- How a walk ends that has `limit` nodes left and makes these calls on a stack of `n`. -/
structure WalkedTo (n limit counter : Nat) (calls : List (Nat × Bool)) (r : Bool × Nat) :
    Prop where
  fits : ∀ depth ∈ callsMade limit calls, depth ≤ n
  goesOn : nodeCalls calls ≤ limit → r = (true, counter + nodeCalls calls)
  ends : limit < nodeCalls calls → r.1 = false

/-- An error stops it where a call is nested deeper than that. -/
def Overflows (n limit : Nat) (calls : List (Nat × Bool)) : Prop :=
  ∃ depth ∈ callsMade limit calls, n < depth

section Walk

variable {srv : Server D} {p : Pid} {stackFrames limit n : Nat}
  {instr : PlanStatePtr → Option (Instrumentation D)} {guar : Op D → State D → Prop}
  {I : State D → Prop} {visitFn : PwhNodeVisitorFn D}

theorem wp_depthCalls {walk : Option PlanStatePtr → Nat → PgProg D (Bool × Nat)}
    {nested : Option PlanStatePtr → List (Nat × Bool)} {calls : List (Option PlanStatePtr)}
    (hwalk : ∀ call ∈ calls, ∀ counter s, counter ≤ limit → I s →
      (walkContract srv p stackFrames instr guar).wp false (walk call counter)
        (fun r t => WalkedTo n (limit - counter) counter (nested call) r ∧ I t)
        (fun _ => Overflows n (limit - counter) (nested call)) s) :
    ∀ counter s, counter ≤ limit → I s →
      (walkContract srv p stackFrames instr guar).wp false (walkCalls walk calls counter)
        (fun r t => WalkedTo n (limit - counter) counter (calls.flatMap nested) r ∧ I t)
        (fun _ => Overflows n (limit - counter) (calls.flatMap nested)) s := by
  induction calls with
  | nil =>
    intro counter s _ hs
    exact Contract.seq_ret fun _ =>
      ⟨⟨nofun, fun _ => rfl, fun h => absurd h (Nat.not_lt_zero _)⟩, hs⟩
  | cons call rest ih =>
    intro counter s hle hs
    have hrest := ih fun call hmem => hwalk call (List.mem_cons_of_mem _ hmem)
    rw [List.flatMap_cons]
    refine Contract.wp_bind (Contract.wp_mono (hwalk call List.mem_cons_self counter s hle hs)
      ?_ ?_)
    · rintro r t - ⟨hr, ht⟩
      rcases Nat.lt_or_ge (limit - counter) (nodeCalls (nested call)) with hlt | hge
      · -- the walk below this call met the node that is refused
        obtain ⟨goOn, counter'⟩ := r
        have hstop : goOn = false := hr.ends hlt
        subst hstop
        refine Contract.seq_ret fun _ => ⟨⟨?_, fun h => ?_, fun _ => rfl⟩, ht⟩
        · rw [callsMade_append_of_lt hlt]
          exact hr.fits
        · rw [nodeCalls_append] at h
          omega
      · obtain rfl := hr.goesOn hge
        have hleft : limit - (counter + nodeCalls (nested call)) =
            limit - counter - nodeCalls (nested call) := by omega
        refine Contract.wp_mono (hrest _ t (by omega) ht) ?_ ?_
        · rintro r' u - ⟨hr', hu⟩
          rw [hleft] at hr'
          refine ⟨⟨?_, fun h => ?_, fun h => ?_⟩, hu⟩
          · rw [callsMade_append_of_le hge]
            intro depth hdepth
            rcases List.mem_append.mp hdepth with hfirst | hnext
            · exact hr.fits depth hfirst
            · exact hr'.fits depth hnext
          · rw [nodeCalls_append] at h ⊢
            rw [hr'.goesOn (by omega), Nat.add_assoc]
          · rw [nodeCalls_append] at h
            exact hr'.ends (by omega)
        · rintro _ - ⟨depth, hmade, hdeep⟩
          rw [hleft] at hmade
          refine ⟨depth, ?_, hdeep⟩
          rw [callsMade_append_of_le hge]
          exact List.mem_append_right _ hmade
    · rintro _ - ⟨depth, hmade, hdeep⟩
      refine ⟨depth, ?_, hdeep⟩
      rcases Nat.lt_or_ge (limit - counter) (nodeCalls (nested call)) with hlt | hge
      · rwa [callsMade_append_of_lt hlt]
      · rw [callsMade_append_of_le hge]
        exact List.mem_append_left _ hmade

/-- **A walk makes the calls that its visitor lets happen**, and an error stops it exactly at the
first that is nested deeper than the stack admits. -/
theorem wp_depthWalk (hv : VisitsUpTo (walkContract srv p stackFrames instr guar) I limit visitFn)
    (hg : ∀ s, guar .ereportError s) :
    ∀ height frames depth ptr parent counter s, frames + depth = n + 1 → HeightLe srv height ptr →
      counter ≤ limit → I s →
      (walkContract srv p stackFrames instr guar).wp false
        (walkPlanstateRecursive srv visitFn frames ptr parent counter)
        (fun r t => WalkedTo n (limit - counter) counter (nestedCalls srv height depth ptr) r ∧ I t)
        (fun _ => Overflows n (limit - counter) (nestedCalls srv height depth ptr)) s := by
  intro height
  induction height with
  | zero => exact fun _ _ _ _ _ _ _ h => h.elim
  | succ height ih =>
    intro frames depth ptr parent counter s hframes hheight hle hs
    cases frames with
    | zero =>
      -- the first thing a call does is to check the stack
      refine Contract.seq_op nofun (fun _ => hg _) fun _ _ _ _ => ⟨trivial, ?_⟩
      refine Contract.seq_raise fun _ => ⟨depth, ?_, by omega⟩
      cases ptr with
      | none => simp [nestedCalls, callsMade]
      | some ps =>
        rw [nestedCalls]
        split
        · simp [callsMade]
        · cases limit - counter <;> simp [callsMade]
    | succ frames =>
    cases ptr with
    | none => exact Contract.seq_ret fun _ => ⟨⟨by simp [nestedCalls, callsMade]; omega,
        fun _ => rfl, fun h => absurd h (Nat.not_lt_zero _)⟩, hs⟩
    | some ps =>
    rw [walkPlanstateRecursive, nestedCalls]
    split
    · exact Contract.seq_ret fun _ => ⟨⟨by simp [callsMade]; omega, fun _ => rfl,
        fun h => absurd h (Nat.not_lt_zero _)⟩, hs⟩
    rename_i hplan
    rcases Nat.lt_or_ge counter limit with hlt | hge
    · refine Contract.wp_bind (Contract.wp_mono (hv.below ps parent counter _ s hlt hs) ?_
        fun _ _ h => h)
      rintro _ t - ⟨rfl, ht⟩
      have hpos : ¬ ((counter : Int) < 0) := by omega
      have hleft : limit - counter = (limit - (counter + 1)) + 1 := by omega
      change (walkContract srv p stackFrames instr guar).wp false
        (if (counter : Int) < 0 then _ else _) _ _ _
      rw [if_neg hpos, hleft]
      have hcalls : ∀ call ∈ childCalls (srv.planState ps), ∀ counter' s', counter' ≤ limit →
          I s' → (walkContract srv p stackFrames instr guar).wp false
            (walkPlanstateRecursive srv visitFn frames call counter counter')
            (fun r t => WalkedTo n (limit - counter') counter'
              (nestedCalls srv height (depth + 1) call) r ∧ I t)
            (fun _ => Overflows n (limit - counter') (nestedCalls srv height (depth + 1) call))
            s' := by
        intro call hmem counter' s' hle' hs'
        exact ih frames (depth + 1) call counter counter' s' (by omega) (hheight hplan call hmem)
          hle' hs'
      refine Contract.wp_mono (wp_depthCalls hcalls (counter + 1) t hlt ht) ?_ ?_
      · rintro r u - ⟨hr, hu⟩
        refine ⟨⟨?_, fun h => ?_, fun h => ?_⟩, hu⟩
        · intro d hd
          rw [callsMade] at hd
          rcases List.mem_cons.mp hd with rfl | hd
          · omega
          · exact hr.fits d hd
        · rw [nodeCalls_visit] at h ⊢
          rw [hr.goesOn (Nat.le_of_succ_le_succ h), Nat.add_right_comm, Nat.add_assoc]
        · rw [nodeCalls_visit] at h
          exact hr.ends (Nat.lt_of_succ_lt_succ h)
      · rintro _ - ⟨d, hmade, hdeep⟩
        refine ⟨d, ?_, hdeep⟩
        rw [callsMade]
        exact List.mem_cons_of_mem _ hmade
    · obtain rfl : counter = limit := Nat.le_antisymm hle hge
      refine Contract.wp_bind (Contract.wp_mono (hv.refuses ps parent _ s hs) ?_ fun _ _ h => h)
      rintro ⟨id, counter'⟩ t - ⟨hneg, ht⟩
      change (walkContract srv p stackFrames instr guar).wp false
        (if id < 0 then _ else _) _ _ _
      rw [if_pos hneg, Nat.sub_self]
      refine Contract.seq_ret fun _ => ⟨⟨by simp [callsMade]; omega, fun h => ?_, fun _ => rfl⟩, ht⟩
      rw [nodeCalls_visit] at h
      omega

end Walk

/-! ## 3. The walk of a poll -/

section Poll

variable [CDouble D] {srv : Server D} {p : Pid} {n be maxNodes : Nat}
  {instr : PlanStatePtr → Option (Instrumentation D)} {s₀ s : State D}

/-- How many records at the beginning of a slot have the magic; the walk gets no further. -/
def validRecords (metrics : Nat → PwhNodeMetrics D) (maxNodes : Nat) : Nat :=
  (List.range maxNodes).findIdx fun j => (metrics j).magic ≠ PWH_NODE_MAGIC

omit [CDouble D] in
theorem validRecords_le (metrics : Nat → PwhNodeMetrics D) (maxNodes : Nat) :
    validRecords metrics maxNodes ≤ maxNodes := by
  have h : validRecords metrics maxNodes ≤ (List.range maxNodes).length := List.findIdx_le_length
  rwa [List.length_range] at h

omit [CDouble D] in
/-- Those records have it... -/
theorem magic_of_lt_validRecords {metrics : Nat → PwhNodeMetrics D} {j : Nat}
    (hj : j < validRecords metrics maxNodes) : (metrics j).magic = PWH_NODE_MAGIC := by
  have h := List.not_of_lt_findIdx hj
  simpa using h

omit [CDouble D] in
/-- ...and the next, when there is one, does not. -/
theorem magic_validRecords {metrics : Nat → PwhNodeMetrics D}
    (hlt : validRecords metrics maxNodes < maxNodes) :
    (metrics (validRecords metrics maxNodes)).magic ≠ PWH_NODE_MAGIC := by
  unfold validRecords at hlt ⊢
  have h := List.findIdx_getElem (w := hlt.trans_eq List.length_range.symm)
  rw [List.getElem_range] at h
  exact of_decide_eq_true h

/-- A walk writes no magic. -/
def SameMagics (be : Nat) (s₀ s : State D) : Prop :=
  ∀ j, ((s.entries be).metrics j).magic = ((s₀.entries be).metrics j).magic

omit [CDouble D] in
theorem SameMagics.congr {t : State D} (h : SameMagics be s₀ s) (ht : t.entries = s.entries) :
    SameMagics be s₀ t := fun j => by rw [ht, h j]

theorem SameMagics.measure (h : SameMagics be s₀ s) (id : Nat) (i : Option (Instrumentation D)) :
    SameMagics be s₀ (s.setRecord be id (((s.entries be).metrics id).measure i)) := by
  intro j
  by_cases hj : j = id
  · subst hj
    rw [← h j]
    simp only [State.setRecord, State.modifyEntry, Function.update_self]
    exact measure_get (f := .magic) _ i rfl
  · rw [← h j]
    simp [State.setRecord, State.modifyEntry, Function.update_of_ne hj]

/-- The instrumentation visitor gives ids as long as the records have the magic. -/
theorem instrumentationVisitor_visitsUpTo :
    VisitsUpTo (walkContract srv p n instr fun _ _ => True) (SameMagics be s₀)
      (validRecords (s₀.entries be).metrics maxNodes) (instrumentationVisitor be maxNodes) where
  below := by
    intro ps parent counter E s hlt hs
    have hmax : ¬ maxNodes ≤ counter :=
      Nat.not_le.mpr (Nat.lt_of_lt_of_le hlt (validRecords_le _ _))
    have hmagic : ((s.entries be).metrics counter).magic = PWH_NODE_MAGIC := by
      rw [hs counter, magic_of_lt_validRecords hlt]
    rw [instrumentationVisitor, if_neg hmax, pwhValidateNodeMagic_bind]
    refine wp_walk_op rfl trivial ?_
    change (walkContract srv p n instr fun _ _ => True).wp false
      (if decide (((s.entries be).metrics counter).magic = PWH_NODE_MAGIC) then _ else _) _ _ _
    rw [if_pos (decide_eq_true hmagic)]
    refine wp_walk_op rfl trivial ?_
    obtain ⟨t, hread, ht⟩ := walkAlone_readInstrument srv p n instr s ps
    refine wp_walk_op hread trivial ?_
    have hst : SameMagics be s₀ t := hs.congr ht
    cases hinstr : instr ps with
    | none => exact Contract.seq_ret fun _ => ⟨rfl, hst⟩
    | some i =>
      refine Contract.wp_bind (Contract.wp_mono (wp_writeRecord (fun _ _ _ => trivial)
        (instrumentationFields i) _) ?_ fun _ _ h => h)
      rintro _ _ - rfl
      refine Contract.seq_ret fun _ => ⟨rfl, ?_⟩
      rw [setAll_instrumentationFields]
      exact hst.measure counter (some i)
  refuses := by
    intro ps parent E s hs
    rcases Nat.lt_or_ge (validRecords (s₀.entries be).metrics maxNodes) maxNodes with hlt | hge
    · have hmagic := magic_validRecords hlt
      rw [← hs] at hmagic
      rw [instrumentationVisitor, if_neg (Nat.not_le.mpr hlt), pwhValidateNodeMagic_bind]
      refine wp_walk_op rfl trivial ?_
      change (walkContract srv p n instr fun _ _ => True).wp false
        (if decide (((s.entries be).metrics _).magic = PWH_NODE_MAGIC) then _ else _) _ _ _
      rw [if_neg (by rw [decide_eq_false hmagic]; simp)]
      exact Contract.seq_ret fun _ => ⟨by simp, hs⟩
    · rw [instrumentationVisitor, if_pos hge]
      exact Contract.seq_ret fun _ => ⟨by simp, hs⟩

end Poll

/-! ## 4. The handler -/

section Handler

variable {srv : Server D} {p : Pid} {n height : Nat}
  {instr : PlanStatePtr → Option (Instrumentation D)} {guar : Op D → State D → Prop} {s : State D}

/-- The slot the handler takes for its own. -/
structure FirstSlot (srv : Server D) (s : State D) (p : Pid) (be : Nat) : Prop where
  inTable : be < srv.gucs.maxTrackedQueries
  mine : s.pid be = p
  first : ∀ j < be, s.pid j ≠ p

theorem FirstSlot.unique {be be' : Nat} (h : FirstSlot srv s p be) (h' : FirstSlot srv s p be') :
    be = be' := by
  rcases Nat.lt_trichotomy be be' with hlt | heq | hgt
  · exact absurd h.mine (h'.first be hlt)
  · exact heq
  · exact absurd h'.mine (h.first be' hgt)

/-- The search of the handler. -/
theorem wp_firstSlot (hg : ∀ i s, guar (.readBackendPid i) s) {E : State D → Prop} :
    ∀ k i, i + k = srv.gucs.maxTrackedQueries → (∀ j < i, s.pid j ≠ p) →
      (walkContract srv p n instr guar).wp false (findMySlot p k i)
        (fun r t => t = s ∧ ∀ be, r = some be ↔ FirstSlot srv s p be) E s := by
  intro k
  induction k with
  | zero =>
    intro i hi hno
    refine Contract.seq_ret fun _ => ⟨rfl, fun be => ⟨nofun, fun h => ?_⟩⟩
    exact absurd h.mine (hno be (by have := h.inTable; omega))
  | succ k ih =>
    intro i hi hno
    refine wp_walk_op rfl (hg i s) ?_
    change (walkContract srv p n instr guar).wp false
      (if s.pid i = p then _ else _) _ _ _
    split
    · rename_i hmine
      have hfirst : FirstSlot srv s p i := ⟨by omega, hmine, hno⟩
      refine Contract.seq_ret fun _ => ⟨rfl, fun be => ⟨?_, fun h => ?_⟩⟩
      · rintro ⟨⟩
        exact hfirst
      · rw [h.unique hfirst]
    · rename_i hother
      refine ih (i + 1) (by omega) fun j hj => ?_
      rcases Nat.lt_succ_iff_lt_or_eq.mp hj with hj | rfl
      · exact hno j hj
      · exact hother

variable [CDouble D]

/-- The calls of the walk that a poll makes of slot `be`. -/
def pollCalls (srv : Server D) (height : Nat) (s : State D) (be : Nat) (ps : PlanStatePtr) :
    List Nat :=
  callsMade (validRecords (s.entries be).metrics srv.gucs.maxNodesPerQuery)
    (nestedCalls srv height 1 (some ps))

/-- The stack admits every call of the walk that a poll of process `p` makes. -/
def StackSuffices (srv : Server D) (height n : Nat) (s : State D) (p : Pid) : Prop :=
  ∀ q ps be, (s.backends p).currentQueryDesc = some q → (srv.queryDesc q).planstate = some ps →
    FirstSlot srv s p be → ∀ depth ∈ pollCalls srv height s be ps, depth ≤ n

/-- The walk of a poll of slot `be` comes back where the stack admits its calls. -/
theorem wp_collectDepth {be : Nat} {ps : PlanStatePtr} (hheight : HeightLe srv height (some ps)) :
    (walkContract srv p n instr fun _ _ => True).wp false
      (pwhCollectPlanstateMetrics srv (some ps) be srv.gucs.maxNodesPerQuery)
      (fun _ _ => ∀ depth ∈ pollCalls srv height s be ps, depth ≤ n)
      (fun _ => ¬ ∀ depth ∈ pollCalls srv height s be ps, depth ≤ n) s := by
  refine wp_walk_op rfl trivial ?_
  refine wp_walk_op rfl trivial ?_
  refine Contract.wp_bind (Contract.wp_mono (wp_depthWalk instrumentationVisitor_visitsUpTo
    (fun _ => trivial) height n 1 (some ps) (-1) 0 s rfl hheight (Nat.zero_le _) fun _ => rfl)
    ?_ ?_)
  · rintro r t - ⟨hr, -⟩
    exact Contract.seq_ret fun _ => hr.fits
  · rintro _ - ⟨depth, hmade, hdeep⟩ hall
    exact absurd (hall depth hmade) (Nat.not_le.mpr hdeep)

/-- The handler, alone, comes back where the stack suffices, and raises where it does not. -/
theorem wp_pollHandler (hheight : ∀ q ps, (s.backends p).currentQueryDesc = some q →
      (srv.queryDesc q).planstate = some ps → HeightLe srv height (some ps)) :
    (walkContract srv p n instr fun _ _ => True).wp false (pwhSigusr2Handler srv p)
      (fun _ _ => StackSuffices srv height n s p) (fun _ => ¬ StackSuffices srv height n s p)
      s := by
  refine wp_walk_op rfl trivial ?_
  split
  · rename_i hnone
    refine Contract.seq_ret fun _ q _ _ hq => ?_
    rw [hnone] at hq
    cases hq
  rename_i q hq
  split
  · rename_i hnone
    refine Contract.seq_ret fun _ q' _ _ hq' hps => ?_
    cases hq.symm.trans hq'
    rw [hnone] at hps
    cases hps
  rename_i ps hps
  refine Contract.wp_bind (Contract.wp_mono
    (wp_firstSlot (fun _ _ => trivial) srv.gucs.maxTrackedQueries 0 (Nat.zero_add _) nofun) ?_
    fun _ _ h => h)
  rintro r t - ⟨ht, hslot⟩
  rw [ht]
  cases r with
  | none =>
    refine Contract.seq_ret fun _ _ _ be _ _ hbe => ?_
    cases (hslot be).mpr hbe
  | some be =>
    have hmine : FirstSlot srv s p be := (hslot be).mp rfl
    have hiff : StackSuffices srv height n s p ↔
        ∀ depth ∈ pollCalls srv height s be ps, depth ≤ n := by
      refine ⟨fun h => h q ps be hq hps hmine, fun h q' ps' be' hq' hps' hmine' => ?_⟩
      cases hq.symm.trans hq'
      cases hps.symm.trans hps'
      cases hmine.unique hmine'
      exact h
    rw [hiff]
    refine Contract.wp_bind (Contract.wp_mono (wp_collectDepth (hheight q ps hq hps)) ?_
      fun _ _ h => h)
    exact fun _ t _ hfits => wp_walk_op rfl trivial (Contract.seq_ret fun _ => hfits)

/-- None of its operations has to wait. -/
theorem pwhSigusr2Handler_ne_none :
    (pwhSigusr2Handler srv p).All fun o => ∀ s, walkAlone srv p n instr o s ≠ none := by
  unfold pwhSigusr2Handler
  refine act_all nofun fun current => ?_
  cases current with
  | none => trivial
  | some q =>
    dsimp only
    split
    · trivial
    refine (findMySlot_all (fun _ => nofun) _ _).bind fun found => ?_
    cases found with
    | none => trivial
    | some be =>
      refine ((pwhCollectPlanstateMetrics_all _ be _).mono
        fun o h s => walkAlone_ne_none h s).bind fun _ => ?_
      exact act_all nofun fun _ => trivial

/-- **A poll comes back to the interrupted code** exactly when the stack that is left admits every
call of the walk it makes. -/
theorem handler_returns_iff (hheight : ∀ q ps, (s.backends p).currentQueryDesc = some q →
      (srv.queryDesc q).planstate = some ps → HeightLe srv height (some ps)) :
    (∃ t, (pwhSigusr2Handler srv p).outcome (walkAlone srv p n instr) s = some (some (), t)) ↔
      StackSuffices srv height n s p := by
  obtain ⟨hret, hraise, -⟩ := Contract.seq_outcome (wp_pollHandler hheight)
  refine ⟨fun ⟨t, ht⟩ => hret () t ht, fun hfits => ?_⟩
  have hall : (pwhSigusr2Handler srv p).All fun o => ∀ s, walkAlone srv p n instr o s ≠ none :=
    pwhSigusr2Handler_ne_none
  obtain ⟨⟨r, t⟩, houtcome⟩ := Option.ne_none_iff_exists'.mp (outcome_ne_none hall s)
  cases r with
  | none => exact absurd hfits (hraise t houtcome)
  | some u => exact ⟨t, houtcome⟩

end Handler

/-- Backend 1 tracks query 0 in slot 0; nothing is recorded yet. -/
def trackedState : State ℚ :=
  ((State.init : State ℚ).modifyEntry 0 fun be => { be with backendPid := 1 }).modifyBackend 1
    fun b => { b with currentQueryDesc := some 0 }

/-- A nested loop over two scans is recorded with two calls of stack left, and polled with one. -/
theorem nestLoop_poll_raises :
    ∃ s t, (pwhRememberPlanstateTreeAsMetricStructure (planServer .v14_ nestLoopPlan) (some 0) 0
        128).outcome (walkAlone (planServer .v14_ nestLoopPlan) 1 2 fun _ => none) trackedState =
        some (some 3, s) ∧
      (pwhSigusr2Handler (planServer .v14_ nestLoopPlan) 1).outcome
        (walkAlone (planServer .v14_ nestLoopPlan) 1 1 fun _ => none) s = some (none, t) :=
  ⟨_, _, rfl, rfl⟩

/-- With two left it comes back. -/
theorem nestLoop_poll_returns :
    ∃ s t, (pwhRememberPlanstateTreeAsMetricStructure (planServer .v14_ nestLoopPlan) (some 0) 0
        128).outcome (walkAlone (planServer .v14_ nestLoopPlan) 1 2 fun _ => none) trackedState =
        some (some 3, s) ∧
      (pwhSigusr2Handler (planServer .v14_ nestLoopPlan) 1).outcome
        (walkAlone (planServer .v14_ nestLoopPlan) 1 2 fun _ => none) s = some (some (), t) := by
  obtain ⟨s, hrem, hcurrent, hpid, hcalls⟩ : ∃ s, (pwhRememberPlanstateTreeAsMetricStructure
      (planServer .v14_ nestLoopPlan) (some 0) 0 128).outcome
        (walkAlone (planServer .v14_ nestLoopPlan) 1 2 fun _ => none) trackedState =
        some (some 3, s) ∧ (s.backends 1).currentQueryDesc = some 0 ∧ s.pid 0 = 1 ∧
      pollCalls (planServer .v14_ nestLoopPlan) 2 s 0 0 = [1, 2, 2] := ⟨_, rfl, rfl, rfl, rfl⟩
  have hmine : FirstSlot (planServer .v14_ nestLoopPlan) s 1 0 := ⟨by decide, hpid, nofun⟩
  have hheight : ∀ q ps, (s.backends 1).currentQueryDesc = some q →
      ((planServer .v14_ nestLoopPlan).queryDesc q).planstate = some ps →
      HeightLe (planServer .v14_ nestLoopPlan) 2 (some ps) := by
    rintro q ps hq ⟨⟩
    cases hcurrent.symm.trans hq
    decide
  have hfits : StackSuffices (planServer .v14_ nestLoopPlan) 2 2 s 1 := by
    intro q ps be hq hps hbe
    cases hcurrent.symm.trans hq
    cases hps
    cases hmine.unique hbe
    rw [hcalls]
    decide
  obtain ⟨t, ht⟩ := (handler_returns_iff hheight).mpr hfits
  exact ⟨s, t, hrem, ht⟩

end WhatIsHappening
