/-
# A server that listens

The account of descriptors and blocks that holds while the exporter is in its accept loop, and how
a connection keeps it: what proper use of both is (`Op.Proper`), what is owed at certain operations
(`Op.Owes`), and the contract of the main program, which the handler of SIGTERM may cut off between
any two operations.
-/
import WhatIsHappening.HttpServer.Exporter

namespace WhatIsHappening.Exporter

open Interleaving Prog

variable {s t : State} {α : Type}

/-! ## 1. Proper use -/

/-- What the operation names is there: the descriptor is open, the block is allocated. -/
def Op.Proper (s : State) : Op → Prop
  | .memcpy a | .free a => a ∈ s.addresses
  | .initServer server impl _ => (server, .server) ∈ s.heap ∧ (impl, .impl) ∈ s.heap
  | .getImpl server => (server, .server) ∈ s.heap
  | .getPort impl | .getListenFd impl | .setListenFd impl _ | .getIsRunning impl
  | .setIsRunning impl _ | .getHandlerFn impl | .setHandlerFn impl => (impl, .impl) ∈ s.heap
  | .setsockopt fd | .bind fd _ | .listen fd _ | .accept fd | .recv fd _ | .send fd _
  | .shutdown fd | .close fd => fd ∈ s.openFds
  | _ => True

namespace State

/-- The blocks that are not the body of a response. -/
def blocks (s : State) : List (Nat × Block) := s.heap.filter (·.2 ≠ .body)

/-- How many bodies are allocated. -/
def bodies (s : State) : Nat := s.heap.countP (·.2 = .body)

/-- Between two connections: the listening descriptor is the only one, the two structures of the
server are all that is allocated, and a body for each request answered so far. -/
def IsWaiting (s : State) (fd : Int32) : Prop :=
  s.openFds = [fd] ∧ (∃ server impl, s.blocks = [(impl, .impl), (server, .server)]) ∧
    s.bodies = s.requests

/-- The server that a SIGTERM would stop is there, and so is the descriptor it listens on. -/
def IsIntact (s : State) : Prop :=
  ∀ server, s.httpServerInstance = some server →
    (server, .server) ∈ s.heap ∧ (s.implPtr, .impl) ∈ s.heap ∧
      (s.impl.listenFd < 0 ∨ s.impl.listenFd ∈ s.openFds)

end State

/-- What more is owed: at `accept` no connection is left over, and a process that calls
`proc_exit` outside the handler of SIGTERM has closed and freed everything. -/
def Op.Owes (s : State) : Op → Prop
  | .accept fd => s.IsWaiting fd
  | .procExit _ => s.inSigterm = false → s.openFds = [] ∧ s.heap = []
  | _ => True

/-- `malloc` finds memory for the parts of a request, which `parse_request` does not check. -/
def Env.Suffices (e : Env) : Op → Prop
  | .malloc .method | .malloc .path | .malloc .version => e.address ≠ 0
  | _ => True

/-! ## 2. The contract -/

/-- Once the accept loop runs, SIGTERM finds the server intact. -/
def Inv (s : State) : Prop := s.impl.isRunning = true → s.IsIntact

/-- Nothing interferes but the handler of SIGTERM, which does not return. -/
def contract : Contract Res State where
  sem o s r t := ∃ e : Env, e.Suffices o ∧ exec o e s = some (r, t)
  inv := Inv
  rely s t := t = s ∨ t.exitCode.isSome = true
  assume _ _ := True
  guar o s _ _ := o.Proper s ∧ o.Owes s
  rely_refl _ := .inl rfl
  rely_trans h h' := by
    rcases h' with rfl | h'
    · exact h
    · exact .inr h'

/-- Holds when the process has ended, too. -/
def Ended (Q : α → State → Prop) (a : α) (s : State) : Prop := s.exitCode.isSome = true ∨ Q a s

theorem stable_ended (Q : α → State → Prop) (a : α) : contract.Stable (Ended Q a) := by
  rintro s t h (rfl | ht) -
  · exact h
  · exact .inl ht

theorem exec_eq_some {o : Op} {e : Env} {r : Res o} (h : exec o e s = some (r, t)) :
    s.exitCode.isSome = false ∧ effect o e s = some (r, t) := by
  obtain ⟨hend, h⟩ := Option.ite_none_left_eq_some.mp h
  exact ⟨by simpa using hend, h⟩

theorem ended_of_rely (h : s.exitCode.isSome = true) (ht : contract.rely s t) :
    t.exitCode.isSome = true := by
  rcases ht with rfl | ht
  · exact h
  · exact ht

/-- Whatever is left to do when the process has ended is not done. -/
theorem wp_op_ended {o : Op} {k : Res o → ExProg α} {Q : α → State → Prop} {E : State → Prop}
    (h : s.exitCode.isSome = true) : contract.wp false (.op o k) Q E s := by
  refine fun t ht _ => ⟨nofun, fun _ r u hsem => ?_⟩
  obtain ⟨e, -, he⟩ := hsem
  exact absurd (ended_of_rely h ht) (by simp [(exec_eq_some he).1])

theorem wp_ended {prog : ExProg α} {Q : α → State → Prop} {E : State → Prop}
    (hE : ∀ t : State, t.exitCode.isSome = true → E t) (h : s.exitCode.isSome = true) :
    contract.wp false prog (Ended Q) E s := by
  cases prog with
  | ret a => exact fun t ht _ => .inl (ended_of_rely h ht)
  | raise => exact fun t ht _ => hE t (ended_of_rely h ht)
  | op o k => exact wp_op_ended h

/-- ...and otherwise what one part leaves is what the next starts from. -/
theorem wp_then {β : Type} {prog : ExProg α} {f : α → ExProg β} {A : α → State → Prop}
    {Q : β → State → Prop} {E : State → Prop}
    (hE : ∀ t : State, t.exitCode.isSome = true → E t)
    (h : contract.wp false prog (Ended A) E s)
    (hf : ∀ a t, Inv t → A a t → contract.wp false (f a) (Ended Q) E t) :
    contract.wp false (prog >>= f) (Ended Q) E s := by
  refine Contract.wp_bind (Contract.wp_mono h (fun a t hi ht => ?_) fun _ _ h => h)
  rcases ht with hend | hA
  · exact wp_ended hE hend
  · exact hf a t hi hA

theorem wp_return {Q : α → State → Prop} {E : State → Prop} {a : α} (h : Q a s) :
    contract.wp false (.ret a) (Ended Q) E s :=
  Contract.wp_ret (stable_ended Q a) (.inr h)

/-- The rule for an operation: it is proper, and the rest is fine after whatever it answers. -/
theorem wp_act {o : Op} {k : Res o → ExProg α} {Q : α → State → Prop} {E : State → Prop}
    (hp : o.Proper s) (ho : o.Owes s)
    (hk : ∀ e r t, e.Suffices o → effect o e s = some (r, t) →
      Inv t ∧ contract.wp false (k r) (Ended Q) E t) :
    contract.wp false (act o >>= k) (Ended Q) E s := by
  rintro t (rfl | ht) -
  · refine ⟨nofun, fun _ r u ⟨e, hs, he⟩ => ?_⟩
    obtain ⟨hi, hwp⟩ := hk e r u hs (exec_eq_some he).2
    exact ⟨hi, ⟨hp, ho⟩, hwp⟩
  · refine ⟨nofun, fun _ r u ⟨e, hs, he⟩ => ?_⟩
    exact absurd ht (by simp [(exec_eq_some he).1])

/-- An operation that changes nothing. -/
theorem Inv.wp_look {o : Op} {k : Res o → ExProg α} {Q : α → State → Prop} {E : State → Prop}
    (h : Inv s) (hp : o.Proper s) (ho : o.Owes s)
    (hsame : ∀ e r t, effect o e s = some (r, t) → t = s)
    (hk : ∀ e r, effect o e s = some (r, s) → contract.wp false (k r) (Ended Q) E s) :
    contract.wp false (act o >>= k) (Ended Q) E s := by
  refine wp_act hp ho fun e r t _ he => ?_
  obtain rfl := hsame e r t he
  exact ⟨h, hk e r he⟩

/-! ## 3. Blocks -/

namespace State

theorem allocate_cases {a : Nat} {b : Block} (h : s.allocate a b = some t) :
    a = 0 ∧ t = s ∨ a ≠ 0 ∧ a ∉ s.addresses ∧ t = { s with heap := (a, b) :: s.heap } := by
  unfold allocate at h
  split at h
  · rename_i ha
    exact .inl ⟨ha, (Option.some.inj h).symm⟩
  · rename_i ha
    obtain ⟨hnot, h⟩ := Option.ite_none_left_eq_some.mp h
    exact .inr ⟨ha, hnot, (Option.some.inj h).symm⟩

theorem openFd_cases {fd : Int32} (h : s.openFd fd = some t) :
    fd < 0 ∧ t = s ∨ ¬ fd < 0 ∧ fd ∉ s.openFds ∧ t = { s with openFds := fd :: s.openFds } := by
  unfold openFd at h
  split at h
  · rename_i hfd
    exact .inl ⟨hfd, (Option.some.inj h).symm⟩
  · rename_i hfd
    obtain ⟨hnot, h⟩ := Option.ite_none_left_eq_some.mp h
    exact .inr ⟨hfd, hnot, (Option.some.inj h).symm⟩

theorem mem_of_mem_blocks {x : Nat × Block} (h : x ∈ s.blocks) : x ∈ s.heap :=
  (List.mem_filter.mp h).1

end State

/-- Of blocks with different addresses, one is taken out. -/
theorem filter_ne_address {a : Nat} {b : Block} {l m : List (Nat × Block)}
    (h : ((l ++ (a, b) :: m).map Prod.fst).Nodup) :
    (l ++ (a, b) :: m).filter (·.1 ≠ a) = l ++ m := by
  have hother : ∀ {n : List (Nat × Block)}, a ∉ n.map Prod.fst → n.filter (·.1 ≠ a) = n := by
    intro n hn
    refine List.filter_eq_self.mpr fun x hx => decide_eq_true fun heq => hn ?_
    exact heq ▸ List.mem_map_of_mem hx
  rw [List.map_append, List.map_cons, List.nodup_middle, List.nodup_cons, List.mem_append,
    not_or] at h
  rw [List.filter_append, List.filter_cons_of_neg (by simp), hother h.1.1, hother h.1.2]

/-! ## 4. A server that listens -/

/-- The server of this process, with `own` allocated besides and these descriptors open. -/
structure Serving (server impl : Nat) (own : List (Nat × Block)) (fds : List Int32) (s : State) :
    Prop where
  unblocked : s.signalsUnblocked = true
  instance_eq : s.httpServerInstance = some server
  implPtr : s.implPtr = impl
  isRunning : s.impl.isRunning = true
  listenFd : ¬ s.impl.listenFd < 0
  openFds : s.openFds = fds ++ [s.impl.listenFd]
  fds_nodup : s.openFds.Nodup
  blocks : s.blocks = own ++ [(impl, .impl), (server, .server)]
  bodies : s.bodies = s.requests
  nodup : s.addresses.Nodup

namespace Serving

variable {server impl : Nat} {own : List (Nat × Block)} {fds : List Int32}

theorem mem_heap (h : Serving server impl own fds s) {x : Nat × Block}
    (hx : x ∈ own ++ [(impl, .impl), (server, .server)]) : x ∈ s.heap :=
  State.mem_of_mem_blocks (h.blocks ▸ hx)

theorem impl_mem (h : Serving server impl own fds s) : (impl, .impl) ∈ s.heap :=
  h.mem_heap (by simp)

theorem listenFd_mem (h : Serving server impl own fds s) : s.impl.listenFd ∈ s.openFds := by
  rw [h.openFds]
  simp

theorem inv (h : Serving server impl own fds s) : Inv s := by
  intro _ a ha
  obtain rfl : server = a := Option.some.inj (h.instance_eq.symm.trans ha)
  exact ⟨h.mem_heap (by simp), h.implPtr ▸ h.impl_mem, .inr h.listenFd_mem⟩

/-- A part of the request is allocated. -/
theorem allocate (h : Serving server impl own fds s) {a : Nat} {b : Block} (hb : b ≠ .body)
    (ha : a ∉ s.addresses) :
    Serving server impl ((a, b) :: own) fds { s with heap := (a, b) :: s.heap } where
  unblocked := h.unblocked
  instance_eq := h.instance_eq
  implPtr := h.implPtr
  isRunning := h.isRunning
  listenFd := h.listenFd
  openFds := h.openFds
  fds_nodup := h.fds_nodup
  blocks := by simp [State.blocks, hb, ← h.blocks]
  bodies := by simpa [State.bodies, hb] using h.bodies
  nodup := List.nodup_cons.mpr ⟨ha, h.nodup⟩

/-- The body of a response is allocated. -/
theorem allocateBody (h : Serving server impl own fds s) {a : Nat} (ha : a ∉ s.addresses) :
    Serving server impl own fds
      { s with heap := (a, .body) :: s.heap, requests := s.requests + 1 } where
  unblocked := h.unblocked
  instance_eq := h.instance_eq
  implPtr := h.implPtr
  isRunning := h.isRunning
  listenFd := h.listenFd
  openFds := h.openFds
  fds_nodup := h.fds_nodup
  blocks := by simpa [State.blocks] using h.blocks
  bodies := by simpa [State.bodies] using h.bodies
  nodup := List.nodup_cons.mpr ⟨ha, h.nodup⟩

/-- A part of the request is freed. -/
theorem free {a : Nat} {b : Block} {l m : List (Nat × Block)} (hb : b ≠ .body)
    (h : Serving server impl (l ++ (a, b) :: m) fds s) :
    Serving server impl (l ++ m) fds { s with heap := s.heap.filter (·.1 ≠ a) } where
  unblocked := h.unblocked
  instance_eq := h.instance_eq
  implPtr := h.implPtr
  isRunning := h.isRunning
  listenFd := h.listenFd
  openFds := h.openFds
  fds_nodup := h.fds_nodup
  blocks := by
    have hnodup : (s.blocks.map Prod.fst).Nodup :=
      h.nodup.sublist ((List.filter_sublist).map Prod.fst)
    rw [h.blocks, List.append_assoc, List.cons_append] at hnodup
    have hcomm : State.blocks { s with heap := s.heap.filter (·.1 ≠ a) } =
        s.blocks.filter (·.1 ≠ a) := by
      simp only [State.blocks, List.filter_filter, Bool.and_comm]
    rw [hcomm, h.blocks, List.append_assoc, List.cons_append, filter_ne_address hnodup,
      List.append_assoc]
  bodies := by
    rw [← h.bodies]
    have hmem : (a, b) ∈ s.heap := h.mem_heap (by simp)
    have hsame : ∀ x ∈ s.heap, x.2 = .body → x.1 ≠ a := by
      rintro ⟨a', b'⟩ hx hbody rfl
      have := List.inj_on_of_nodup_map h.nodup hx hmem rfl
      exact hb ((Prod.ext_iff.mp this).2.symm.trans hbody)
    simp only [State.bodies, List.countP_filter]
    refine List.countP_congr fun x hx => ?_
    simp only [Bool.and_eq_true, decide_eq_true_eq]
    exact ⟨fun hx' => hx'.1, fun hbody => ⟨hbody, hsame x hx hbody⟩⟩
  nodup := h.nodup.sublist ((List.filter_sublist).map Prod.fst)

/-- A connection is accepted. -/
theorem connect (h : Serving server impl own fds s) {fd : Int32} (hfd : fd ∉ s.openFds) :
    Serving server impl own (fd :: fds) { s with openFds := fd :: s.openFds } where
  unblocked := h.unblocked
  instance_eq := h.instance_eq
  implPtr := h.implPtr
  isRunning := h.isRunning
  listenFd := h.listenFd
  openFds := by simp [← h.openFds]
  fds_nodup := List.nodup_cons.mpr ⟨hfd, h.fds_nodup⟩
  blocks := h.blocks
  bodies := h.bodies
  nodup := h.nodup

/-- The connection is closed. -/
theorem disconnect {fd : Int32} (h : Serving server impl own [fd] s) :
    Serving server impl own [] { s with openFds := s.openFds.filter (· ≠ fd) } where
  unblocked := h.unblocked
  instance_eq := h.instance_eq
  implPtr := h.implPtr
  isRunning := h.isRunning
  listenFd := h.listenFd
  openFds := by
    have hnodup := h.fds_nodup
    rw [h.openFds] at hnodup ⊢
    have hne : s.impl.listenFd ≠ fd := fun heq => by simp [heq] at hnodup
    simp [hne]
  fds_nodup := h.fds_nodup.sublist List.filter_sublist
  blocks := h.blocks
  bodies := h.bodies
  nodup := h.nodup

/-- Where no connection is left over. -/
theorem isWaiting (h : Serving server impl [] [] s) : s.IsWaiting s.impl.listenFd :=
  ⟨h.openFds, ⟨server, impl, h.blocks⟩, h.bodies⟩

/-! ## 5. A connection -/

variable {Q : α → State → Prop} {E : State → Prop}

theorem wp_copyPart (h : Serving server impl own fds s) {b : Block} (hb : b = .method ∨ b = .path ∨
    b = .version) {k : Nat → ExProg α}
    (hk : ∀ a t, Serving server impl ((a, b) :: own) fds t →
      contract.wp false (k a) (Ended Q) E t) :
    contract.wp false (copyPart b >>= k) (Ended Q) E s := by
  have hbody : b ≠ .body := by rcases hb with rfl | rfl | rfl <;> decide
  refine wp_act (o := .malloc b) trivial trivial fun e a t hsuff he => ?_
  obtain ⟨u, hu, heq⟩ := Option.map_eq_some_iff.mp he
  cases heq
  have hne : e.address ≠ 0 := by rcases hb with rfl | rfl | rfl <;> exact hsuff
  obtain ⟨h0, -⟩ | ⟨-, hnew, rfl⟩ := State.allocate_cases hu
  · exact absurd h0 hne
  have ht := h.allocate hbody hnew
  refine ⟨ht.inv, wp_act (o := .memcpy e.address) ?_ trivial fun _ _ _ _ he => ?_⟩
  · exact List.mem_map_of_mem (List.mem_cons_self)
  · cases he
    exact ⟨ht.inv, hk _ _ ht⟩

theorem wp_free {a : Nat} {b : Block} {l m : List (Nat × Block)} (hb : b ≠ .body)
    (h : Serving server impl (l ++ (a, b) :: m) fds s) {k : Unit → ExProg α}
    (hk : ∀ t, Serving server impl (l ++ m) fds t → contract.wp false (k ()) (Ended Q) E t) :
    contract.wp false (act (.free a) >>= k) (Ended Q) E s := by
  have hmem : (a, b) ∈ s.heap := h.mem_heap (by simp)
  refine wp_act (List.mem_map_of_mem hmem) trivial fun _ _ _ _ he => ?_
  cases he
  exact ⟨(h.free hb).inv, hk _ (h.free hb)⟩

theorem wp_close {fd : Int32} (h : Serving server impl own [fd] s) :
    contract.wp false (act (.close fd)) (Ended fun _ => Serving server impl own []) E s := by
  refine wp_act (k := .ret) (by simp [Op.Proper, h.openFds]) trivial fun _ _ _ _ he => ?_
  cases he
  exact ⟨h.disconnect.inv, wp_return h.disconnect⟩

/-- However the request is answered, one body more is allocated. -/
theorem wp_callHandler (h : Serving server impl own fds s) (req : HttpRequest)
    (hE : ∀ t : State, t.exitCode.isSome = true → E t) {k : HttpResponse → ExProg α}
    (hk : ∀ resp t, Serving server impl own fds t → contract.wp false (k resp) (Ended Q) E t) :
    contract.wp false (callHandler impl req >>= k) (Ended Q) E s := by
  have hcopy : ∀ resp t, Serving server impl own fds t → contract.wp false
      (act .pstrdup >>= fun _ => k resp) (Ended Q) E t := by
    intro resp t ht
    refine wp_act trivial trivial fun e r u _ he => ?_
    simp only [effect] at he
    split at he
    · cases he
      exact ⟨ht.inv, wp_ended hE rfl⟩
    · rename_i hne
      obtain ⟨v, hv, heq⟩ := Option.map_eq_some_iff.mp he
      cases heq
      obtain ⟨h0, -⟩ | ⟨-, hnew, rfl⟩ := State.allocate_cases hv
      · exact absurd h0 hne
      · exact ⟨(ht.allocateBody hnew).inv, hk resp _ (ht.allocateBody hnew)⟩
  refine h.inv.wp_look (o := .getHandlerFn impl) h.impl_mem trivial (fun _ _ _ he => ?_)
    fun _ hasHandler _ => ?_
  · cases he
    rfl
  cases hasHandler with
  | false => exact hcopy _ s h
  | true =>
    refine wp_act (o := .handlerFn req) trivial trivial fun e resp t _ he => ?_
    cases he
    cases hraise : e.raises with
    | false => simpa [hraise] using ⟨h.inv, hcopy e.response s h⟩
    | true =>
      simp only [if_true]
      exact ⟨h.inv, wp_ended hE rfl⟩

/-- **A connection leaves nothing but the body of its response.** -/
theorem handleConnection_wp {fd : Int32} (h : Serving server impl [] [fd] s)
    (hE : ∀ t : State, t.exitCode.isSome = true → E t) :
    contract.wp false (handleConnection impl fd)
      (Ended fun _ => Serving server impl [] []) E s := by
  unfold handleConnection
  refine h.inv.wp_look (o := .recv fd _) (by simp [Op.Proper, h.openFds]) trivial
    (fun _ _ _ he => ?_) fun _ received _ => ?_
  · cases he
    rfl
  split
  · exact h.wp_close
  split
  · exact h.wp_close
  rename_i req _
  refine h.wp_copyPart (.inl rfl) fun method t h => ?_
  refine h.wp_copyPart (.inr (.inl rfl)) fun path t h => ?_
  refine h.wp_copyPart (.inr (.inr rfl)) fun version t h => ?_
  refine h.wp_callHandler _ hE fun resp t h => ?_
  refine h.inv.wp_look (o := .stackMemory) trivial trivial (fun _ _ _ he => ?_) fun _ memory _ => ?_
  · cases he
    rfl
  refine h.inv.wp_look (o := .send _ _) (by simp [Op.Proper, h.openFds]) trivial
    (fun _ _ _ he => ?_) fun _ _ _ => ?_
  · cases he
    rfl
  refine wp_free (l := [(version, .version), (path, .path)]) (m := []) (b := .method) (by decide) h
    fun t h => ?_
  refine wp_free (l := [(version, .version)]) (m := []) (b := .path) (by decide) h fun t h => ?_
  refine wp_free (l := []) (m := []) (b := .version) (by decide) h fun t h => ?_
  exact h.wp_close

/-- Every round of the accept loop starts as the one before, and the loop is never left: only the
handler of SIGTERM would make it end, and ends the process. -/
theorem acceptLoop_wp (hE : ∀ t : State, t.exitCode.isSome = true → E t) :
    ∀ n (s : State), Serving server impl [] [] s → contract.wp false (acceptLoop impl n)
      (Ended fun left t => left = false ∧ Serving server impl [] [] t) E s
  | 0, _, h => wp_return ⟨rfl, h⟩
  | n + 1, s, h => by
    unfold acceptLoop
    have hrunning : ∀ {k : Bool → ExProg Bool} {Q : Bool → State → Prop},
        contract.wp false (k true) (Ended Q) E s →
        contract.wp false (act (.getIsRunning impl) >>= k) (Ended Q) E s := by
      intro k Q hk
      refine h.inv.wp_look (o := .getIsRunning impl) h.impl_mem trivial (fun _ _ _ he => ?_)
        fun _ _ he => ?_
      · cases he
        rfl
      · obtain rfl : s.impl.isRunning = _ := (Prod.ext_iff.mp (Option.some.inj he)).1
        rwa [h.isRunning]
    refine hrunning ?_
    rw [if_pos rfl]
    refine h.inv.wp_look (o := .getListenFd impl) h.impl_mem trivial (fun _ _ _ he => ?_)
      fun _ listenFd he => ?_
    · cases he
      rfl
    obtain rfl : s.impl.listenFd = _ := (Prod.ext_iff.mp (Option.some.inj he)).1
    refine wp_act h.listenFd_mem h.isWaiting fun e clientFd t _ he => ?_
    obtain ⟨u, hu, heq⟩ := Option.map_eq_some_iff.mp he
    cases heq
    obtain ⟨hneg, rfl⟩ | ⟨hpos, hnew, rfl⟩ := State.openFd_cases hu
    · refine ⟨h.inv, ?_⟩
      rw [if_pos hneg]
      refine hrunning ?_
      rw [if_pos rfl]
      exact acceptLoop_wp hE n _ h
    · have ht := h.connect hnew
      refine ⟨ht.inv, ?_⟩
      rw [if_neg hpos]
      exact wp_then hE (ht.handleConnection_wp hE) fun _ t _ h => acceptLoop_wp hE n t h

end Serving

end WhatIsHappening.Exporter
