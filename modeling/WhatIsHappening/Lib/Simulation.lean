/-
# Runs that look alike

Two programs are alike when they perform the same operations up to a `Pairing`: some operations only
one of them performs, and some may stand for others.  A system simulates another when related
states stay related under paired operations.  Then every run of the one has a run of the other
beside it, in related states and with programs that are alike, and the other needs none of the
interrupts (`Reach.simulated`).
-/
import WhatIsHappening.Lib.System

namespace Interleaving

/-- How the operations of two programs correspond. -/
structure Pairing (Op : Type) where
  /-- Both perform it, and it answers the same. -/
  same : Op → Prop
  /-- One performs this and the other that, whatever they answer. -/
  swap : Op → Op → Prop
  /-- Only the first performs it. -/
  left : Op → Prop
  /-- Only the second performs it. -/
  right : Op → Prop

namespace Prog

variable {Op : Type} {Res : Op → Type} {α α' β β' : Type} {K : Pairing Op}

/-- Two programs are alike, and what they return is related by `Q`. -/
inductive Like (K : Pairing Op) (Q : α → β → Prop) : Prog Res α → Prog Res β → Prop
  | ret {a : α} {b : β} : Q a b → Like K Q (.ret a) (.ret b)
  | raise : Like K Q .raise .raise
  | same {o : Op} {k : Res o → Prog Res α} {l : Res o → Prog Res β} :
    K.same o → (∀ r, Like K Q (k r) (l r)) → Like K Q (.op o k) (.op o l)
  | swap {o o' : Op} {k : Res o → Prog Res α} {l : Res o' → Prog Res β} :
    K.swap o o' → (∀ r r', Like K Q (k r) (l r')) → Like K Q (.op o k) (.op o' l)
  | left {o : Op} {k : Res o → Prog Res α} {q : Prog Res β} :
    K.left o → (∀ r, Like K Q (k r) q) → Like K Q (.op o k) q
  | right {o : Op} {p : Prog Res α} {l : Res o → Prog Res β} :
    K.right o → (∀ r, Like K Q p (l r)) → Like K Q p (.op o l)

variable {Q : α → β → Prop} {p : Prog Res α} {q : Prog Res β}

theorem Like.mono {Q' : α → β → Prop} (hQ : ∀ a b, Q a b → Q' a b) (h : p.Like K Q q) :
    p.Like K Q' q := by
  induction h with
  | ret h => exact .ret (hQ _ _ h)
  | raise => exact .raise
  | same ho _ ih => exact .same ho ih
  | swap ho _ ih => exact .swap ho ih
  | left ho _ ih => exact .left ho ih
  | right ho _ ih => exact .right ho ih

theorem Like.bind {Q' : α' → β' → Prop} {f : α → Prog Res α'} {g : β → Prog Res β'}
    (h : p.Like K Q q) (hf : ∀ a b, Q a b → (f a).Like K Q' (g b)) :
    (p >>= f).Like K Q' (q >>= g) := by
  induction h with
  | ret h => exact hf _ _ h
  | raise => exact .raise
  | same ho _ ih => exact .same ho ih
  | swap ho _ ih => exact .swap ho ih
  | left ho _ ih => exact .left ho ih
  | right ho _ ih => exact .right ho ih

/-- A program is like itself. -/
theorem Like.refl_of_all {p : Prog Res α} (hp : p.All K.same) : p.Like K Eq p := by
  induction p with
  | ret a => exact .ret rfl
  | raise => exact .raise
  | op o k ih => exact .same hp.1 fun r => ih r (hp.2 r)

/-- What is performed on one side only may come in front. -/
theorem Like.left_bind {h : Prog Res α'} {f : α' → Prog Res α} (hall : h.All K.left)
    (hn : h.NoRaise) (hf : ∀ a, (f a).Like K Q q) : (h >>= f).Like K Q q := by
  induction h with
  | ret a => exact hf a
  | raise => exact hn.elim
  | op o k ih => exact .left hall.1 fun r => ih r (hall.2 r) (hn r)

/-- Two programs that are alike, where the second has nothing left to do by itself. -/
inductive LikeNow (K : Pairing Op) (Q : α → β → Prop) : Prog Res α → Prog Res β → Prop
  | ret {a : α} {b : β} : Q a b → LikeNow K Q (.ret a) (.ret b)
  | raise : LikeNow K Q .raise .raise
  | same {o : Op} {k : Res o → Prog Res α} {l : Res o → Prog Res β} :
    K.same o → (∀ r, Like K Q (k r) (l r)) → LikeNow K Q (.op o k) (.op o l)
  | swap {o o' : Op} {k : Res o → Prog Res α} {l : Res o' → Prog Res β} :
    K.swap o o' → (∀ r r', Like K Q (k r) (l r')) → LikeNow K Q (.op o k) (.op o' l)
  | left {o : Op} {k : Res o → Prog Res α} {q : Prog Res β} :
    K.left o → (∀ r, Like K Q (k r) q) → LikeNow K Q (.op o k) q

/-- Where the first has nothing left to do, neither has the second. -/
theorem LikeNow.idle (h : p.LikeNow K Q q) (hp : ∀ o k, p ≠ .op o k) : ∀ o l, q ≠ .op o l := by
  rintro o l rfl
  cases h with
  | same ho hk => exact hp _ _ rfl
  | swap ho hk => exact hp _ _ rfl
  | left ho hk => exact hp _ _ rfl

end Prog

namespace System

variable {ι Call Ext Env σ σ' Op : Type} {Res : Op → Type} [DecidableEq ι]

/-- Nobody is interrupted. -/
def Uninterrupted : Config ι σ Res → Event ι Call Ext Env → Prop := fun _ e => ∀ i, e ≠ .interrupt i

/-- What has to be shown of each kind of event.  An interrupt of the first system has no
counterpart: what its program does is done on one side only. -/
structure Simulates (S : System ι Call Ext Env σ Res) (S' : System ι Call Ext Env σ' Res)
    (K : Pairing Op) (R : σ → σ' → Prop) : Prop where
  same : ∀ i o e s r t s', K.same o → R s s' → S.exec i o e s = some (r, t) →
    ∃ t', S'.exec i o e s' = some (r, t') ∧ R t t'
  swap : ∀ i o o' e s r t s', K.swap o o' → R s s' → S.exec i o e s = some (r, t) →
    ∃ r' t', S'.exec i o' e s' = some (r', t') ∧ R t t'
  left : ∀ i o e s r t s', K.left o → R s s' → S.exec i o e s = some (r, t) → R t s'
  right : ∀ i o s s', K.right o → R s s' → ∃ e r t', S'.exec i o e s' = some (r, t') ∧ R s t'
  call : ∀ i cl s s' p, R s s' → S.enter i cl s = some p →
    ∃ p', S'.enter i cl s' = some p' ∧ p.Like K (fun _ _ => True) p'
  interrupt : ∀ i s h, S.interrupt i s = some h → h.All K.left ∧ h.NoRaise
  external : ∀ x s t s', R s s' → S.external x s = some t →
    ∃ t', S'.external x s' = some t' ∧ R t t'

variable {S : System ι Call Ext Env σ Res} {S' : System ι Call Ext Env σ' Res} {K : Pairing Op}
  {R : σ → σ' → Prop} {ok : Config ι σ Res → Event ι Call Ext Env → Prop}

/-- Two configurations of runs side by side. -/
structure Beside (K : Pairing Op) (R : σ → σ' → Prop) (c : Config ι σ Res) (c' : Config ι σ' Res) :
    Prop where
  shared : R c.shared c'.shared
  thread : ∀ i, (c.thread i).Like K (fun _ _ => True) (c'.thread i)

/-- One operation of an uninterrupted run. -/
theorem reach_exec {c : Config ι σ Res} {i : ι} {o : Op} {k : Res o → Prog Res Unit} {e : Env}
    {r : Res o} {t : σ} (hp : c.thread i = .op o k) (hx : S.exec i o e c.shared = some (r, t)) :
    S.Reach Uninterrupted c ⟨t, Function.update c.thread i (k r)⟩ := by
  have hstep : S.step c (.run i e) = some ⟨t, Function.update c.thread i (k r)⟩ := by
    simp only [System.step, hp, hx]
    rfl
  refine .step .start (fun j hj => ?_) hstep
  cases hj

theorem Beside.update {c : Config ι σ Res} {c' : Config ι σ' Res} {t : σ} {t' : σ'} {i : ι}
    {p q : Prog Res Unit} (h : Beside K R c c') (hR : R t t')
    (hp : p.Like K (fun _ _ => True) q) :
    Beside K R ⟨t, Function.update c.thread i p⟩ ⟨t', Function.update c'.thread i q⟩ := by
  refine ⟨hR, fun j => ?_⟩
  by_cases hj : j = i
  · subst hj
    simpa using hp
  · simpa only [Function.update_of_ne hj] using h.thread j

/-- The second system does what thread `i` has to do by itself. -/
theorem Simulates.catch_up (hS : Simulates S S' K R) {s : σ} (i : ι) {p q : Prog Res Unit}
    (hlike : p.Like K (fun _ _ => True) q) :
    ∀ c' : Config ι σ' Res, c'.thread i = q → R s c'.shared →
      ∃ t' q', S'.Reach Uninterrupted c' ⟨t', Function.update c'.thread i q'⟩ ∧ R s t' ∧
        p.LikeNow K (fun _ _ => True) q' := by
  have hstay : ∀ (p q : Prog Res Unit), p.LikeNow K (fun _ _ => True) q →
      ∀ c' : Config ι σ' Res, c'.thread i = q → R s c'.shared →
      ∃ t' q', S'.Reach Uninterrupted c' ⟨t', Function.update c'.thread i q'⟩ ∧ R s t' ∧
        p.LikeNow K (fun _ _ => True) q' := by
    rintro p q hnow c' rfl hR
    refine ⟨c'.shared, c'.thread i, ?_, hR, hnow⟩
    rw [Function.update_eq_self]
    exact .start
  induction hlike with
  | ret h => exact hstay _ _ (.ret h)
  | raise => exact hstay _ _ (.raise)
  | same ho hk => exact hstay _ _ (.same ho hk)
  | swap ho hk => exact hstay _ _ (.swap ho hk)
  | left ho hk => exact hstay _ _ (.left ho hk)
  | @right o p l ho hk ih =>
    intro c' hq hR
    obtain ⟨e, r, t', hx, hR'⟩ := hS.right i o s c'.shared ho hR
    obtain ⟨t'', q', hreach, hR'', hnow⟩ :=
      ih r ⟨t', Function.update c'.thread i (l r)⟩ (Function.update_self ..) hR'
    rw [Function.update_idem] at hreach
    exact ⟨t'', q', (reach_exec hq hx).trans hreach, hR'', hnow⟩

/-- One operation of the first system. -/
theorem Simulates.run (hS : Simulates S S' K R) {c : Config ι σ Res} {c' : Config ι σ' Res}
    {i : ι} {o : Op} {k : Res o → Prog Res Unit} {e : Env} {r : Res o} {t : σ}
    (h : Beside K R c c') (hp : c.thread i = .op o k)
    (hx : S.exec i o e c.shared = some (r, t)) :
    ∃ d', S'.Reach Uninterrupted c' d' ∧
      Beside K R ⟨t, Function.update c.thread i (k r)⟩ d' := by
  have hlike := h.thread i
  rw [hp] at hlike
  obtain ⟨t', q', hreach, hR, hnow⟩ := hS.catch_up i hlike c' rfl h.shared
  have hq : (⟨t', Function.update c'.thread i q'⟩ : Config ι σ' Res).thread i = q' :=
    Function.update_self ..
  cases hnow with
  | same ho hk =>
    obtain ⟨u', hx', hR'⟩ := hS.same i o e c.shared r t t' ho hR hx
    have hrun := reach_exec hq hx'
    rw [Function.update_idem] at hrun
    exact ⟨_, hreach.trans hrun, h.update hR' (hk r)⟩
  | swap ho hk =>
    obtain ⟨r', u', hx', hR'⟩ := hS.swap i o _ e c.shared r t t' ho hR hx
    have hrun := reach_exec hq hx'
    rw [Function.update_idem] at hrun
    exact ⟨_, hreach.trans hrun, h.update hR' (hk r r')⟩
  | left ho hk => exact ⟨_, hreach, h.update (hS.left i o e c.shared r t t' ho hR hx) (hk r)⟩

/-- One event of the first system. -/
theorem Simulates.step (hS : Simulates S S' K R) {c d : Config ι σ Res} {c' : Config ι σ' Res}
    {e : Event ι Call Ext Env} (h : Beside K R c c') (hs : S.step c e = some d) :
    ∃ d', S'.Reach Uninterrupted c' d' ∧ Beside K R d d' := by
  cases e with
  | run i e =>
    simp only [System.step] at hs
    split at hs
    · rename_i o k hp
      obtain ⟨⟨r, t⟩, hx, rfl⟩ := Option.map_eq_some_iff.mp hs
      exact hS.run h hp hx
    · cases hs
  | call i cl =>
    simp only [System.step] at hs
    split at hs
    · cases hs
    · rename_i hp
      obtain ⟨p, hx, rfl⟩ := Option.map_eq_some_iff.mp hs
      obtain ⟨t', q', hreach, hR, hnow⟩ := hS.catch_up i (h.thread i) c' rfl h.shared
      obtain ⟨p', hx', hlike⟩ := hS.call i cl c.shared t' p hR hx
      have hidle := hnow.idle hp
      have hstep : S'.step ⟨t', Function.update c'.thread i q'⟩ (.call i cl) =
          some ⟨t', Function.update c'.thread i p'⟩ := by
        simp only [System.step, Function.update_self]
        rw [hx', Option.map_some, Function.update_idem]
      refine ⟨_, hreach.trans (.step .start (fun j hj => ?_) hstep), h.update hR hlike⟩
      cases hj
  | interrupt i =>
    obtain ⟨p, hx, rfl⟩ := Option.map_eq_some_iff.mp hs
    obtain ⟨hall, hn⟩ := hS.interrupt i c.shared p hx
    refine ⟨c', .start, h.shared, fun j => ?_⟩
    by_cases hj : j = i
    · subst hj
      simpa using Prog.Like.left_bind hall hn fun _ => h.thread j
    · simpa only [Function.update_of_ne hj] using h.thread j
  | external x =>
    obtain ⟨t, hx, rfl⟩ := Option.map_eq_some_iff.mp hs
    obtain ⟨t', hx', hR⟩ := hS.external x c.shared t c'.shared h.shared hx
    have hstep : S'.step c' (.external x) = some ⟨t', c'.thread⟩ := by
      rw [System.step, hx']
      rfl
    refine ⟨_, .step .start (fun j hj => ?_) hstep, hR, h.thread⟩
    cases hj

/-- **Every run has an uninterrupted run beside it.** -/
theorem Reach.simulated (hS : Simulates S S' K R) {c₀ c : Config ι σ Res} {c₀' : Config ι σ' Res}
    (h₀ : Beside K R c₀ c₀') (h : S.Reach ok c₀ c) :
    ∃ c', S'.Reach Uninterrupted c₀' c' ∧ Beside K R c c' := by
  induction h with
  | start => exact ⟨c₀', .start, h₀⟩
  | step _ _ hs ih =>
    obtain ⟨c', hreach, hc'⟩ := ih
    obtain ⟨d', hreach', hd'⟩ := hS.step hc' hs
    exact ⟨d', hreach.trans hreach', hd'⟩

end System

end Interleaving
