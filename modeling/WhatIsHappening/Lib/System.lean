/-
# Interleaved runs of many programs

A `System` has threads, each running one program at a time, over one shared state.  An event is
the next operation of one thread, a call made by an idle thread, an interrupt (its program runs in
front of whatever the thread was doing), or something the outside does to the state.

`Reach` collects the configurations of all runs whose events meet a condition, and
`Reach.sound` is the rule that turns one weakest precondition for each program into a fact about
every configuration of every such run.
-/
import WhatIsHappening.Lib.Contract

namespace Interleaving

/-- Threads `ι` making calls `Call`, over a state `σ` that the outside changes by `Ext`. -/
structure System (ι Call Ext Env σ : Type) {Op : Type} (Res : Op → Type) where
  /-- The effect of one operation of a thread; `none` while the operation cannot be performed. -/
  exec : ι → (o : Op) → Env → σ → Option (Res o × σ)
  /-- The program of a call, `none` when the thread may not make it. -/
  enter : ι → Call → σ → Option (Prog Res Unit)
  /-- The program of an interrupt, `none` when the thread cannot be interrupted. -/
  interrupt : ι → σ → Option (Prog Res Unit)
  /-- What the outside does. -/
  external : Ext → σ → Option σ

/-- One step of a run. -/
inductive Event (ι Call Ext Env : Type) where
  | run (i : ι) (e : Env)
  | call (i : ι) (c : Call)
  | interrupt (i : ι)
  | external (x : Ext)

/-- The shared state, and what each thread has still to do. -/
structure Config (ι σ : Type) {Op : Type} (Res : Op → Type) where
  shared : σ
  thread : ι → Prog Res Unit

namespace System

variable {ι Call Ext Env σ Op : Type} {Res : Op → Type} [DecidableEq ι]
variable (S : System ι Call Ext Env σ Res)

/-- The configuration after one event, `none` when the event cannot happen. -/
def step (c : Config ι σ Res) : Event ι Call Ext Env → Option (Config ι σ Res)
  | .run i e =>
    match c.thread i with
    | .op o k => (S.exec i o e c.shared).map fun rs =>
        ⟨rs.2, Function.update c.thread i (k rs.1)⟩
    | _ => none
  | .call i cl =>
    match c.thread i with
    | .op _ _ => none
    | _ => (S.enter i cl c.shared).map fun p => ⟨c.shared, Function.update c.thread i p⟩
  | .interrupt i => (S.interrupt i c.shared).map fun h =>
      ⟨c.shared, Function.update c.thread i (h >>= fun _ => c.thread i)⟩
  | .external x => (S.external x c.shared).map fun s => ⟨s, c.thread⟩

/-- The configuration after a list of events, each of which must meet `check`. -/
def runWhile (check : Config ι σ Res → Event ι Call Ext Env → Bool) (c : Config ι σ Res) :
    List (Event ι Call Ext Env) → Option (Config ι σ Res)
  | [] => some c
  | e :: es => if check c e then (S.step c e).bind fun c' => runWhile check c' es else none

/-- The configurations of the runs from `c₀` all of whose events meet `ok`. -/
inductive Reach (ok : Config ι σ Res → Event ι Call Ext Env → Prop) (c₀ : Config ι σ Res) :
    Config ι σ Res → Prop
  | start : Reach ok c₀ c₀
  | step {c c' : Config ι σ Res} {e : Event ι Call Ext Env} :
      Reach ok c₀ c → ok c e → S.step c e = some c' → Reach ok c₀ c'

variable {S}

theorem Reach.mono {ok ok' : Config ι σ Res → Event ι Call Ext Env → Prop} {c₀ c : Config ι σ Res}
    (h : ∀ c e, ok c e → ok' c e) (hr : S.Reach ok c₀ c) : S.Reach ok' c₀ c := by
  induction hr with
  | start => exact .start
  | step _ hok hs ih => exact .step ih (h _ _ hok) hs

/-- A list of events that can be executed is a run. -/
theorem reach_of_runWhile {ok : Config ι σ Res → Event ι Call Ext Env → Prop}
    {check : Config ι σ Res → Event ι Call Ext Env → Bool} (hok : ∀ c e, check c e = true → ok c e)
    {c₀ c c' : Config ι σ Res} (hr : S.Reach ok c₀ c) {es : List (Event ι Call Ext Env)}
    (h : S.runWhile check c es = some c') : S.Reach ok c₀ c' := by
  induction es generalizing c with
  | nil =>
    cases h
    exact hr
  | cons e es ih =>
    obtain ⟨hcheck, h⟩ := Option.ite_none_right_eq_some.mp h
    obtain ⟨c₁, hc₁, hc'⟩ := Option.bind_eq_some_iff.mp h
    exact ih (.step hr (hok _ _ hcheck) hc₁) hc'

/-- A run whose last configuration passes a test. -/
theorem exists_reach (S : System ι Call Ext Env σ Res)
    {ok : Config ι σ Res → Event ι Call Ext Env → Prop}
    (check : Config ι σ Res → Event ι Call Ext Env → Bool) (hok : ∀ c e, check c e = true → ok c e)
    (c₀ : Config ι σ Res) (es : List (Event ι Call Ext Env)) (f : Config ι σ Res → Bool)
    (h : (S.runWhile check c₀ es).any f = true) : ∃ c, S.Reach ok c₀ c ∧ f c = true := by
  obtain ⟨c, hc, hf⟩ := (Option.any_eq_true _ _).mp h
  exact ⟨c, reach_of_runWhile hok .start hc, hf⟩

/-! ## The rule for runs -/

/-- One contract for each thread, and what has to be shown of each kind of event. -/
structure Sound (S : System ι Call Ext Env σ Res)
    (ok : Config ι σ Res → Event ι Call Ext Env → Prop) (inv : σ → Prop)
    (L : ι → Contract Res σ) (idle : ι → σ → Prop) : Prop where
  sem_of_ok : ∀ c i e o k r s', c.thread i = .op o k → ok c (.run i e) →
    S.exec i o e c.shared = some (r, s') → (L i).sem o c.shared r s'
  inv_eq : ∀ i, (L i).inv = inv
  stable : ∀ i, (L i).Stable (idle i)
  guar_rely : ∀ i j o s r s', (L i).guar o s r s' → i ≠ j → (L j).rely s s'
  assume_of_ok : ∀ c i e o k, c.thread i = .op o k → ok c (.run i e) → (L i).assume o c.shared
  call : ∀ c i cl p, inv c.shared → idle i c.shared → ok c (.call i cl) →
    S.enter i cl c.shared = some p →
    (L i).wp false p (fun _ => idle i) (idle i) c.shared
  interrupt : ∀ c i h, inv c.shared → ok c (.interrupt i) →
    S.interrupt i c.shared = some h →
    (L i).wp false h (fun _ t => (L i).rely c.shared t) (fun _ => False) c.shared
  external : ∀ c x s', inv c.shared → ok c (.external x) → S.external x c.shared = some s' →
    inv s' ∧ ∀ i, (L i).rely c.shared s'

/-- What a sound family of contracts knows of every configuration: the invariant, and that what
each thread has still to do is safe. -/
def Sound.Holds (inv : σ → Prop) (L : ι → Contract Res σ) (idle : ι → σ → Prop)
    (c : Config ι σ Res) : Prop :=
  inv c.shared ∧ ∀ i, (L i).wp false (c.thread i) (fun _ => idle i) (idle i) c.shared

variable {ok : Config ι σ Res → Event ι Call Ext Env → Prop} {inv : σ → Prop}
  {L : ι → Contract Res σ} {idle : ι → σ → Prop}

omit [DecidableEq ι] in
/-- An idle thread satisfies its idle condition, whichever way its last program ended. -/
theorem Sound.idle_of_holds (hS : Sound S ok inv L idle) {c : Config ι σ Res} {i : ι}
    (h : Sound.Holds inv L idle c) (hi : ∀ o k, c.thread i ≠ .op o k) : idle i c.shared := by
  have hinv : (L i).inv c.shared := by rw [hS.inv_eq]; exact h.1
  have hw := h.2 i
  match hp : c.thread i with
  | .ret a => rw [hp] at hw; exact hw _ ((L i).rely_refl _) hinv
  | .raise => rw [hp] at hw; exact hw _ ((L i).rely_refl _) hinv
  | .op o k => exact absurd hp (hi o k)

omit [DecidableEq ι] in
/-- What the next operation of a thread promises. -/
theorem Sound.guar_of_holds (hS : Sound S ok inv L idle) {c : Config ι σ Res} {i : ι} {e : Env}
    {o : Op} {k : Res o → Prog Res Unit} {r : Res o} {s' : σ}
    (h : Sound.Holds inv L idle c) (hp : c.thread i = .op o k) (hok : ok c (.run i e))
    (hx : S.exec i o e c.shared = some (r, s')) :
    inv s' ∧ (L i).guar o c.shared r s' ∧
      (L i).wp false (k r) (fun _ => idle i) (idle i) s' := by
  have hw := h.2 i
  rw [hp] at hw
  have hinv : (L i).inv c.shared := by rw [hS.inv_eq]; exact h.1
  have := (hw _ ((L i).rely_refl _) hinv).2 (hS.assume_of_ok c i e o k hp hok) r s'
    (hS.sem_of_ok c i e o k r s' hp hok hx)
  rwa [hS.inv_eq] at this

/-- One event keeps what is known. -/
theorem Sound.holds_step (hS : Sound S ok inv L idle) {c c' : Config ι σ Res}
    {e : Event ι Call Ext Env} (h : Sound.Holds inv L idle c) (hok : ok c e)
    (hs : S.step c e = some c') : Sound.Holds inv L idle c' := by
  cases e with
  | run i e =>
    simp only [step] at hs
    split at hs
    · rename_i o k hp
      obtain ⟨⟨r, s'⟩, hx, rfl⟩ := Option.map_eq_some_iff.mp hs
      obtain ⟨hi', hg, hk⟩ := hS.guar_of_holds h hp hok hx
      refine ⟨hi', fun j => ?_⟩
      by_cases hij : j = i
      · subst hij
        simpa using hk
      · simp only [Function.update_of_ne hij]
        exact Contract.wp_rely (h.2 j) (hS.guar_rely i j _ _ _ _ hg (Ne.symm hij))
    · cases hs
  | call i cl =>
    simp only [step] at hs
    split at hs
    · cases hs
    · rename_i hp
      obtain ⟨p, hx, rfl⟩ := Option.map_eq_some_iff.mp hs
      refine ⟨h.1, fun j => ?_⟩
      by_cases hij : j = i
      · subst hij
        simpa using hS.call c j cl p h.1 (hS.idle_of_holds h hp) hok hx
      · simpa only [Function.update_of_ne hij] using h.2 j
  | interrupt i =>
    obtain ⟨p, hx, rfl⟩ := Option.map_eq_some_iff.mp hs
    refine ⟨h.1, fun j => ?_⟩
    by_cases hij : j = i
    · subst hij
      simpa using Contract.wp_interrupt (h.2 j) (hS.interrupt c j p h.1 hok hx) rfl
    · simpa only [Function.update_of_ne hij] using h.2 j
  | external x =>
    obtain ⟨s', hx, rfl⟩ := Option.map_eq_some_iff.mp hs
    obtain ⟨hi', hr⟩ := hS.external c x s' h.1 hok hx
    exact ⟨hi', fun j => Contract.wp_rely (h.2 j) (hr j)⟩

/-- **The rule for runs.**  What holds at the start, with every thread idle, holds in every
configuration of every run whose events meet the condition. -/
theorem Reach.sound (hS : Sound S ok inv L idle) {c₀ c : Config ι σ Res}
    (hinv : inv c₀.shared) (hidle : ∀ i, idle i c₀.shared) (hret : ∀ i, c₀.thread i = .ret ())
    (h : S.Reach ok c₀ c) : Sound.Holds inv L idle c := by
  induction h with
  | start =>
    refine ⟨hinv, fun i => ?_⟩
    rw [hret i]
    exact Contract.wp_ret (hS.stable i) (hidle i)
  | step _ hok hs ih => exact hS.holds_step ih hok hs

theorem Reach.trans {c₀ c c' : Config ι σ Res} (h : S.Reach ok c₀ c) (h' : S.Reach ok c c') :
    S.Reach ok c₀ c' := by
  induction h' with
  | start => exact h
  | step _ hok hs ih => exact .step ih hok hs

/-- A program is a finite tree.  So a thread whose next operation can be brought about, wherever it
is, comes to its end or to where this is no longer asked. -/
theorem Reach.until {i : ι} {I Stop : Config ι σ Res → Prop}
    (hnext : ∀ c, I c → ¬ Stop c → ∃ o k r c', c.thread i = .op o k ∧ S.Reach ok c c' ∧
      c'.thread i = k r ∧ I c') {c : Config ι σ Res} (hc : I c) :
    ∃ c', S.Reach ok c c' ∧ I c' ∧ Stop c' := by
  have hall : ∀ (p : Prog Res Unit) (c : Config ι σ Res), c.thread i = p → I c →
      ∃ c', S.Reach ok c c' ∧ I c' ∧ Stop c' := by
    intro p
    induction p with
    | ret a =>
      intro c hp hc
      by_cases hstop : Stop c
      · exact ⟨c, .start, hc, hstop⟩
      · obtain ⟨o, k, r, c', ho, -⟩ := hnext c hc hstop
        rw [hp] at ho
        cases ho
    | raise =>
      intro c hp hc
      by_cases hstop : Stop c
      · exact ⟨c, .start, hc, hstop⟩
      · obtain ⟨o, k, r, c', ho, -⟩ := hnext c hc hstop
        rw [hp] at ho
        cases ho
    | op o k ih =>
      intro c hp hc
      by_cases hstop : Stop c
      · exact ⟨c, .start, hc, hstop⟩
      · obtain ⟨o', k', r, c', ho, hreach, hr, hc'⟩ := hnext c hc hstop
        rw [hp] at ho
        cases ho
        obtain ⟨c'', hreach', hc'', hstop'⟩ := ih r c' hr hc'
        exact ⟨c'', hreach.trans hreach', hc'', hstop'⟩
  exact hall _ c rfl hc

/-- What every operation of every program satisfies is satisfied by all that is left to do. -/
theorem Reach.all {P : ι → Op → Prop} {c₀ c : Config ι σ Res} (h₀ : ∀ i, (c₀.thread i).All (P i))
    (hcall : ∀ i cl s p, S.enter i cl s = some p → p.All (P i))
    (hint : ∀ i s p, S.interrupt i s = some p → p.All (P i)) (h : S.Reach ok c₀ c) (i : ι) :
    (c.thread i).All (P i) := by
  induction h generalizing i with
  | start => exact h₀ i
  | @step c c' e _ _ hs ih =>
    cases e with
    | run j e =>
      simp only [System.step] at hs
      split at hs
      · rename_i o k hp
        obtain ⟨⟨r, s'⟩, -, rfl⟩ := Option.map_eq_some_iff.mp hs
        by_cases hij : i = j
        · subst hij
          have hi := ih i
          rw [hp] at hi
          simpa using hi.2 r
        · simpa only [Function.update_of_ne hij] using ih i
      · cases hs
    | call j cl =>
      simp only [System.step] at hs
      split at hs
      · cases hs
      · obtain ⟨p, hx, rfl⟩ := Option.map_eq_some_iff.mp hs
        by_cases hij : i = j
        · subst hij
          simpa using hcall i cl _ p hx
        · simpa only [Function.update_of_ne hij] using ih i
    | interrupt j =>
      obtain ⟨p, hx, rfl⟩ := Option.map_eq_some_iff.mp hs
      by_cases hij : i = j
      · subst hij
        simpa using (hint i _ p hx).bind fun _ => ih i
      · simpa only [Function.update_of_ne hij] using ih i
    | external x =>
      obtain ⟨s', -, rfl⟩ := Option.map_eq_some_iff.mp hs
      exact ih i

/-! ## One thread among others -/

/-- What has to be shown where only the programs of thread `i` are looked into. -/
structure SoundFor (S : System ι Call Ext Env σ Res)
    (ok : Config ι σ Res → Event ι Call Ext Env → Prop) (i : ι) (K : Contract Res σ)
    (rest : σ → Prop) : Prop where
  sem_of_ok : ∀ c e o k r s', c.thread i = .op o k → ok c (.run i e) →
    S.exec i o e c.shared = some (r, s') → K.sem o c.shared r s'
  assume_of_ok : ∀ c e o k, c.thread i = .op o k → ok c (.run i e) → K.assume o c.shared
  stable : K.Stable rest
  others : ∀ c j e o k r s', j ≠ i → c.thread j = .op o k → ok c (.run j e) →
    S.exec j o e c.shared = some (r, s') → K.inv c.shared → K.inv s' ∧ K.rely c.shared s'
  call : ∀ c cl p, K.inv c.shared → rest c.shared → ok c (.call i cl) →
    S.enter i cl c.shared = some p → K.wp false p (fun _ => rest) rest c.shared
  interrupt : ∀ c h, K.inv c.shared → ok c (.interrupt i) → S.interrupt i c.shared = some h →
    K.wp false h (fun _ t => K.rely c.shared t) (fun _ => False) c.shared
  external : ∀ c x s', K.inv c.shared → ok c (.external x) → S.external x c.shared = some s' →
    K.inv s' ∧ K.rely c.shared s'

/-- What is then known of every configuration. -/
def SoundFor.Holds (i : ι) (K : Contract Res σ) (rest : σ → Prop) (c : Config ι σ Res) : Prop :=
  K.inv c.shared ∧ K.wp false (c.thread i) (fun _ => rest) rest c.shared

section SoundFor

variable {i : ι} {K : Contract Res σ} {rest : σ → Prop}

omit [DecidableEq ι] in
/-- A thread with nothing to do is at rest, whichever way its last program ended. -/
theorem SoundFor.rest_of_holds {c : Config ι σ Res} (h : SoundFor.Holds i K rest c)
    (hi : ∀ o k, c.thread i ≠ .op o k) : rest c.shared := by
  have hw := h.2
  match hp : c.thread i with
  | .ret a => rw [hp] at hw; exact hw _ (K.rely_refl _) h.1
  | .raise => rw [hp] at hw; exact hw _ (K.rely_refl _) h.1
  | .op o k => exact absurd hp (hi o k)

omit [DecidableEq ι] in
/-- What the next operation of the thread promises. -/
theorem SoundFor.guar_of_holds (hS : SoundFor S ok i K rest) {c : Config ι σ Res} {e : Env}
    {o : Op} {k : Res o → Prog Res Unit} {r : Res o} {s' : σ}
    (h : SoundFor.Holds i K rest c) (hp : c.thread i = .op o k) (hok : ok c (.run i e))
    (hx : S.exec i o e c.shared = some (r, s')) :
    K.inv s' ∧ K.guar o c.shared r s' ∧ K.wp false (k r) (fun _ => rest) rest s' := by
  have hw := h.2
  rw [hp] at hw
  exact (hw _ (K.rely_refl _) h.1).2 (hS.assume_of_ok c e o k hp hok) r s'
    (hS.sem_of_ok c e o k r s' hp hok hx)

/-- One event keeps what is known. -/
theorem SoundFor.holds_step (hS : SoundFor S ok i K rest) {c c' : Config ι σ Res}
    {e : Event ι Call Ext Env} (h : SoundFor.Holds i K rest c) (hok : ok c e)
    (hs : S.step c e = some c') : SoundFor.Holds i K rest c' := by
  cases e with
  | run j e =>
    simp only [step] at hs
    split at hs
    · rename_i o k hp
      obtain ⟨⟨r, s'⟩, hx, rfl⟩ := Option.map_eq_some_iff.mp hs
      by_cases hj : j = i
      · subst hj
        obtain ⟨hi', -, hk⟩ := hS.guar_of_holds h hp hok hx
        exact ⟨hi', by simpa using hk⟩
      · obtain ⟨hi', hr⟩ := hS.others c j e o k r s' hj hp hok hx h.1
        refine ⟨hi', ?_⟩
        simp only [Function.update_of_ne (Ne.symm hj)]
        exact Contract.wp_rely h.2 hr
    · cases hs
  | call j cl =>
    simp only [step] at hs
    split at hs
    · cases hs
    · rename_i hp
      obtain ⟨p, hx, rfl⟩ := Option.map_eq_some_iff.mp hs
      by_cases hj : j = i
      · subst hj
        exact ⟨h.1, by simpa using hS.call c cl p h.1 (SoundFor.rest_of_holds h hp) hok hx⟩
      · exact ⟨h.1, by simpa only [Function.update_of_ne (Ne.symm hj)] using h.2⟩
  | interrupt j =>
    obtain ⟨p, hx, rfl⟩ := Option.map_eq_some_iff.mp hs
    by_cases hj : j = i
    · subst hj
      refine ⟨h.1, ?_⟩
      simpa using Contract.wp_interrupt h.2 (hS.interrupt c p h.1 hok hx) rfl
    · exact ⟨h.1, by simpa only [Function.update_of_ne (Ne.symm hj)] using h.2⟩
  | external x =>
    obtain ⟨s', hx, rfl⟩ := Option.map_eq_some_iff.mp hs
    obtain ⟨hi', hr⟩ := hS.external c x s' h.1 hok hx
    exact ⟨hi', Contract.wp_rely h.2 hr⟩

/-- **The rule for one thread.** -/
theorem Reach.sound_for (hS : SoundFor S ok i K rest) {c₀ c : Config ι σ Res}
    (hinv : K.inv c₀.shared) (hrest : rest c₀.shared) (hret : c₀.thread i = .ret ())
    (h : S.Reach ok c₀ c) : SoundFor.Holds i K rest c := by
  induction h with
  | start =>
    refine ⟨hinv, ?_⟩
    rw [hret]
    exact Contract.wp_ret hS.stable hrest
  | step _ hok hs ih => exact hS.holds_step ih hok hs

end SoundFor

/-- What is known of every configuration of a run may be asked of its events. -/
theorem Reach.strengthen {c₀ c : Config ι σ Res} {P : Config ι σ Res → Prop}
    (hP : ∀ c, S.Reach ok c₀ c → P c) (h : S.Reach ok c₀ c) :
    S.Reach (fun c e => ok c e ∧ P c ∧ ∀ c', S.step c e = some c' → P c') c₀ c := by
  induction h with
  | start => exact .start
  | step hr hok hs ih =>
    refine .step ih ⟨hok, hP _ hr, fun c' hs' => hP _ (.step hr hok hs')⟩ hs

/-! ## Records of a run -/

section Tracing

variable {γ : Type}

/-- The system with a record of what its threads do, which no program reads. -/
def tracing (S : System ι Call Ext Env σ Res) (add : ι → Op → γ → γ) :
    System ι Call Ext Env (σ × γ) Res where
  exec i o e s := (S.exec i o e s.1).map fun rs => (rs.1, (rs.2, add i o s.2))
  enter i cl s := S.enter i cl s.1
  interrupt i s := S.interrupt i s.1
  external x s := (S.external x s.1).map fun t => (t, s.2)

/-- The configuration without the record. -/
def untraced (c : Config ι (σ × γ) Res) : Config ι σ Res := ⟨c.shared.1, c.thread⟩

variable {add : ι → Op → γ → γ}

/-- Every step can be recorded. -/
theorem step_tracing {c : Config ι (σ × γ) Res} {c' : Config ι σ Res} {e : Event ι Call Ext Env}
    (h : S.step (untraced c) e = some c') :
    ∃ d, (S.tracing add).step c e = some d ∧ untraced d = c' := by
  obtain ⟨⟨s, g⟩, thread⟩ := c
  cases e with
  | run i e =>
    simp only [step, untraced] at h ⊢
    split at h
    · rename_i o k hp
      obtain ⟨rs, hx, rfl⟩ := Option.map_eq_some_iff.mp h
      refine ⟨⟨(rs.2, add i o g), Function.update thread i (k rs.1)⟩, ?_, rfl⟩
      simp [tracing, hx]
    · cases h
  | call i cl =>
    simp only [step, untraced] at h ⊢
    split at h
    · cases h
    · obtain ⟨p, hx, rfl⟩ := Option.map_eq_some_iff.mp h
      refine ⟨⟨(s, g), Function.update thread i p⟩, ?_, rfl⟩
      simp [tracing, hx]
  | interrupt i =>
    obtain ⟨p, hx, rfl⟩ := Option.map_eq_some_iff.mp h
    have hx : S.interrupt i s = some p := hx
    refine ⟨⟨(s, g), Function.update thread i (p >>= fun _ => thread i)⟩, ?_, rfl⟩
    simp [step, tracing, hx]
  | external x =>
    obtain ⟨t, hx, rfl⟩ := Option.map_eq_some_iff.mp h
    have hx : S.external x s = some t := hx
    refine ⟨⟨(t, g), thread⟩, ?_, rfl⟩
    simp [step, tracing, hx]

/-- Every run can be recorded. -/
theorem Reach.tracing {c₀ c : Config ι σ Res} (g₀ : γ) (h : S.Reach ok c₀ c) :
    ∃ d, (S.tracing add).Reach (fun d e => ok (untraced d) e) ⟨(c₀.shared, g₀), c₀.thread⟩ d ∧
      untraced d = c := by
  induction h with
  | start => exact ⟨_, .start, rfl⟩
  | step _ hok hs ih =>
    obtain ⟨d, hd, rfl⟩ := ih
    obtain ⟨d', hs', rfl⟩ := step_tracing hs
    exact ⟨d', .step hd hok hs', rfl⟩

/-- A recorded step is a step. -/
theorem step_untraced {d d' : Config ι (σ × γ) Res} {e : Event ι Call Ext Env}
    (h : (S.tracing add).step d e = some d') : S.step (untraced d) e = some (untraced d') := by
  obtain ⟨⟨s, g⟩, thread⟩ := d
  cases e with
  | run i e =>
    simp only [step, untraced] at h ⊢
    split at h
    · rename_i o k hp
      obtain ⟨rs, hx, rfl⟩ := Option.map_eq_some_iff.mp h
      obtain ⟨rs', hx', rfl⟩ := Option.map_eq_some_iff.mp hx
      simp [hx']
    · cases h
  | call i cl =>
    simp only [step, untraced] at h ⊢
    split at h
    · cases h
    · obtain ⟨p, hx, rfl⟩ := Option.map_eq_some_iff.mp h
      have hx : S.enter i cl s = some p := hx
      simp [hx]
  | interrupt i =>
    obtain ⟨p, hx, rfl⟩ := Option.map_eq_some_iff.mp h
    have hx : S.interrupt i s = some p := hx
    simp [step, untraced, hx]
  | external x =>
    obtain ⟨t, hx, rfl⟩ := Option.map_eq_some_iff.mp h
    obtain ⟨t', hx', rfl⟩ := Option.map_eq_some_iff.mp hx
    have hx' : S.external x s = some t' := hx'
    simp [step, untraced, hx']

/-- A recorded run is a run. -/
theorem Reach.untraced {d₀ d : Config ι (σ × γ) Res}
    (h : (S.tracing add).Reach (fun d e => ok (untraced d) e) d₀ d) :
    S.Reach ok (System.untraced d₀) (System.untraced d) := by
  induction h with
  | start => exact .start
  | step _ hok hs ih => exact .step ih hok (step_untraced hs)

end Tracing

end System

end Interleaving
