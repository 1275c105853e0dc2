/-
# What the exporter does with its descriptors and its memory

The process runs for as long as the cluster does, so what a connection leaves open or allocated
adds up.  Every descriptor is closed once and every part of a request freed once, whenever SIGTERM
comes and whatever the system answers; but each answered request leaves the body of its response
behind, which the other backend frees and this one does not.
-/
import WhatIsHappening.HttpServer.Serving

namespace WhatIsHappening.Exporter

open Interleaving Prog

variable {s t : State} {α : Type}

/-! ## 1. Before and after the loop -/

/-- The process has nothing of its own, and does not serve. -/
structure HasNothing (s : State) : Prop where
  unblocked : s.signalsUnblocked = true
  isRunning : s.impl.isRunning = false
  openFds : s.openFds = []
  heap : s.heap = []

theorem HasNothing.inv (h : HasNothing s) : Inv s := fun hrun => by simp [h.isRunning] at hrun

/-- A process that has nothing ends. -/
theorem wp_procExit {Q : Unit → State → Prop} {E : State → Prop} {code : Nat} (h : HasNothing s) :
    contract.wp false (act (.procExit code)) (Ended Q) E s := by
  refine wp_act (k := .ret) trivial (fun _ => ⟨h.openFds, h.heap⟩) fun _ _ _ _ he => ?_
  cases he
  exact ⟨fun hrun => by simp [h.isRunning] at hrun, Contract.wp_ret (stable_ended Q ()) (.inl rfl)⟩

/-- The server is set up, and listens to nobody yet or no more. -/
structure Created (server impl : Nat) (fds : List Int32) (s : State) : Prop where
  unblocked : s.signalsUnblocked = true
  instance_eq : s.httpServerInstance = some server
  implPtr : s.implPtr = impl
  isRunning : s.impl.isRunning = false
  openFds : s.openFds = fds
  heap : s.heap = [(impl, .impl), (server, .server)]
  ne : server ≠ impl
  requests : s.requests = 0

namespace Created

variable {server impl : Nat} {fds : List Int32} {Q : α → State → Prop} {E : State → Prop}

theorem inv (h : Created server impl fds s) : Inv s := fun hrun => by simp [h.isRunning] at hrun

theorem server_mem (h : Created server impl fds s) : (server, .server) ∈ s.heap := by simp [h.heap]

theorem impl_mem (h : Created server impl fds s) : (impl, .impl) ∈ s.heap := by simp [h.heap]

theorem wp_getListenFd (h : Created server impl fds s) {k : Int32 → ExProg α}
    (hk : contract.wp false (k s.impl.listenFd) (Ended Q) E s) :
    contract.wp false (act (.getListenFd impl) >>= k) (Ended Q) E s := by
  refine h.inv.wp_look (o := .getListenFd impl) h.impl_mem trivial (fun _ _ _ he => ?_)
    fun _ _ he => ?_
  · cases he
    rfl
  · cases he
    exact hk

theorem wp_getImpl (h : Created server impl fds s) {k : Nat → ExProg α}
    (hk : contract.wp false (k impl) (Ended Q) E s) :
    contract.wp false (act (.getImpl server) >>= k) (Ended Q) E s := by
  refine h.inv.wp_look (o := .getImpl server) h.server_mem trivial (fun _ _ _ he => ?_)
    fun _ _ he => ?_
  · cases he
    rfl
  · cases he
    rwa [h.implPtr]

theorem wp_setListenFd (h : Created server impl fds s) {fd : Int32} {k : Unit → ExProg α}
    (hk : ∀ t, Created server impl fds t → t.impl.listenFd = fd →
      contract.wp false (k ()) (Ended Q) E t) :
    contract.wp false (act (.setListenFd impl fd) >>= k) (Ended Q) E s := by
  refine wp_act h.impl_mem trivial fun _ _ _ _ he => ?_
  cases he
  have hset : Created server impl fds { s with impl := { s.impl with listenFd := fd } } :=
    { unblocked := h.unblocked, instance_eq := h.instance_eq, implPtr := h.implPtr
      isRunning := h.isRunning, openFds := h.openFds, heap := h.heap, ne := h.ne
      requests := h.requests }
  exact ⟨hset.inv, hk _ hset rfl⟩

theorem wp_close (h : Created server impl [s.impl.listenFd] s) {k : Unit → ExProg α}
    (hk : ∀ t, Created server impl [] t → contract.wp false (k ()) (Ended Q) E t) :
    contract.wp false (act (.close s.impl.listenFd) >>= k) (Ended Q) E s := by
  refine wp_act (by simp [Op.Proper, h.openFds]) trivial fun _ _ _ _ he => ?_
  cases he
  have hclosed : Created server impl []
      { s with openFds := s.openFds.filter (· ≠ s.impl.listenFd) } :=
    { unblocked := h.unblocked, instance_eq := h.instance_eq, implPtr := h.implPtr
      isRunning := h.isRunning, openFds := by simp [h.openFds], heap := h.heap, ne := h.ne
      requests := h.requests }
  exact ⟨hclosed.inv, hk _ hclosed⟩

/-- The way out of `dumb_run` closes the descriptor. -/
theorem giveUpListening_wp (h : Created server impl [s.impl.listenFd] s) :
    contract.wp false (giveUpListening impl)
      (Ended fun r t => r = some (-1) ∧ Created server impl [] t ∧ t.impl.listenFd < 0) E s := by
  unfold giveUpListening
  refine h.wp_getListenFd (h.wp_close fun t ht => ht.wp_setListenFd fun u hu hfd => ?_)
  refine wp_return ⟨rfl, hu, ?_⟩
  rw [hfd]
  decide

/-- The loop is entered with everything in place. -/
theorem serving (h : Created server impl [s.impl.listenFd] s) (hfd : ¬ s.impl.listenFd < 0) :
    Serving server impl [] [] { s with impl := { s.impl with isRunning := true } } where
  unblocked := h.unblocked
  instance_eq := h.instance_eq
  implPtr := h.implPtr
  isRunning := rfl
  listenFd := hfd
  openFds := h.openFds
  fds_nodup := by simp [h.openFds]
  blocks := by simp [State.blocks, h.heap]
  bodies := by simp [State.bodies, h.heap, h.requests]
  nodup := by simp [State.addresses, h.heap, h.ne.symm]

theorem dumbSetHandler_wp (h : Created server impl [] s) :
    contract.wp false (dumbSetHandler server) (Ended fun _ => Created server impl []) E s := by
  unfold dumbSetHandler
  refine h.wp_getImpl (wp_act (k := .ret) h.impl_mem trivial fun _ _ _ _ he => ?_)
  cases he
  have hset : Created server impl [] { s with hasHandler := true } :=
    { unblocked := h.unblocked, instance_eq := h.instance_eq, implPtr := h.implPtr
      isRunning := h.isRunning, openFds := h.openFds, heap := h.heap, ne := h.ne
      requests := h.requests }
  exact ⟨hset.inv, wp_return hset⟩

/-- `dumb_run` returns only when it could not listen. -/
theorem dumbRun_wp (h : Created server impl [] s) (n : Nat)
    (hE : ∀ t : State, t.exitCode.isSome = true → E t) :
    contract.wp false (dumbRun server n)
      (Ended fun r t => r = none ∧ Serving server impl [] [] t ∨
        r = some (-1) ∧ Created server impl [] t ∧ t.impl.listenFd < 0) E s := by
  unfold dumbRun
  refine h.wp_getImpl ?_
  refine wp_act (o := .socket) trivial trivial fun e fd t _ he => ?_
  obtain ⟨u, hu, heq⟩ := Option.map_eq_some_iff.mp he
  cases heq
  obtain ⟨hneg, rfl⟩ | ⟨hpos, -, rfl⟩ := State.openFd_cases hu
  · refine ⟨h.inv, h.wp_setListenFd fun t ht hfd => ht.wp_getListenFd ?_⟩
    rw [hfd, if_pos hneg]
    exact wp_return (.inr ⟨rfl, ht, hfd ▸ hneg⟩)
  have hopen : Created server impl [e.fd] { s with openFds := e.fd :: s.openFds } :=
    { unblocked := h.unblocked, instance_eq := h.instance_eq, implPtr := h.implPtr
      isRunning := h.isRunning, openFds := by simp [h.openFds], heap := h.heap, ne := h.ne
      requests := h.requests }
  refine ⟨hopen.inv, hopen.wp_setListenFd fun t ht hfd => ht.wp_getListenFd ?_⟩
  rw [hfd, if_neg hpos]
  have hmem : e.fd ∈ t.openFds := by simp [ht.openFds]
  have hgive : contract.wp false (giveUpListening impl)
      (Ended fun r t => r = none ∧ Serving server impl [] [] t ∨
        r = some (-1) ∧ Created server impl [] t ∧ t.impl.listenFd < 0) E t :=
    Contract.wp_mono (giveUpListening_wp (hfd.symm ▸ ht)) (fun _ _ _ h => h.imp_right .inr)
      fun _ _ h => h
  refine ht.inv.wp_look (o := .setsockopt e.fd) hmem trivial (fun _ _ _ he => ?_) fun _ _ _ => ?_
  · cases he
    rfl
  refine ht.inv.wp_look (o := .getPort impl) ht.impl_mem trivial (fun _ _ _ he => ?_)
    fun _ port _ => ?_
  · cases he
    rfl
  refine ht.inv.wp_look (o := .bind e.fd _) hmem trivial (fun _ _ _ he => ?_) fun _ bound _ => ?_
  · cases he
    rfl
  split
  · exact hgive
  refine ht.inv.wp_look (o := .listen e.fd 5) hmem trivial (fun _ _ _ he => ?_)
    fun _ listening _ => ?_
  · cases he
    rfl
  split
  · exact hgive
  refine wp_act ht.impl_mem trivial fun _ _ _ _ he => ?_
  cases he
  unfold serve
  have hserving := serving (hfd.symm ▸ ht) (hfd.symm ▸ hpos)
  refine ⟨hserving.inv, wp_then hE (hserving.acceptLoop_wp hE n _) fun left u _ hu => ?_⟩
  rw [hu.1]
  exact wp_return (.inl ⟨rfl, hu.2⟩)

/-- A server that does not listen is destroyed without a trace. -/
theorem dumbDestroy_wp (h : Created server impl [] s) (hfd : s.impl.listenFd < 0) :
    contract.wp false (dumbDestroy server) (Ended fun _ => HasNothing) E s := by
  unfold dumbDestroy
  refine h.wp_getImpl (h.wp_getListenFd ?_)
  rw [if_neg (Int32.not_le.mpr hfd)]
  refine wp_act (o := .free impl) (List.mem_map_of_mem h.impl_mem) trivial fun _ _ _ _ he => ?_
  cases he
  refine ⟨fun hrun => by simp [h.isRunning] at hrun, ?_⟩
  refine wp_act (k := .ret) (o := .free server) ?_ trivial fun _ _ _ _ he => ?_
  · simp [Op.Proper, State.addresses, h.heap, h.ne]
  · cases he
    refine ⟨fun hrun => by simp [h.isRunning] at hrun, wp_return ?_⟩
    exact ⟨h.unblocked, h.isRunning, h.openFds, by simp [h.heap, h.ne]⟩

end Created

/-! ## 2. The main function -/

/-- `dumb_create` makes both structures or none. -/
theorem dumbCreate_wp (listenAddr : List UInt8) {E : State → Prop} :
    contract.wp false (dumbCreate listenAddr)
      (Ended fun r t => (r = none → HasNothing t) ∧ ∀ server, r = some server → ∃ impl,
        Created server impl [] { t with httpServerInstance := some server }) E
      { signalsUnblocked := true } := by
  unfold dumbCreate
  refine wp_act (o := .malloc .server) trivial trivial fun e server t _ he => ?_
  obtain ⟨u, hu, heq⟩ := Option.map_eq_some_iff.mp he
  cases heq
  obtain ⟨h0, rfl⟩ | ⟨hne, -, rfl⟩ := State.allocate_cases hu
  · refine ⟨nofun, ?_⟩
    rw [if_pos h0]
    exact wp_return ⟨fun _ => ⟨rfl, rfl, rfl, rfl⟩, nofun⟩
  refine ⟨nofun, ?_⟩
  rw [if_neg hne]
  refine wp_act (o := .malloc .impl) trivial trivial fun e' impl t _ he => ?_
  obtain ⟨u, hu, heq⟩ := Option.map_eq_some_iff.mp he
  cases heq
  obtain ⟨h0, rfl⟩ | ⟨hne', hnew, rfl⟩ := State.allocate_cases hu
  · refine ⟨nofun, ?_⟩
    rw [if_pos h0]
    refine wp_act (o := .free e.address) (List.mem_map_of_mem List.mem_cons_self) trivial
      fun _ _ _ _ he => ?_
    cases he
    exact ⟨nofun, wp_return ⟨fun _ => ⟨rfl, rfl, rfl, by simp⟩, nofun⟩⟩
  refine ⟨nofun, ?_⟩
  rw [if_neg hne']
  refine wp_act (o := .initServer e.address e'.address _) ⟨by simp, by simp⟩ trivial
    fun _ _ _ _ he => ?_
  cases he
  refine ⟨nofun, wp_return ⟨nofun, fun server hserver => ⟨e'.address, ?_⟩⟩⟩
  obtain rfl := Option.some.inj hserver
  have hfresh : e'.address ≠ e.address := by simpa [State.addresses] using hnew
  exact ⟨rfl, rfl, rfl, rfl, rfl, rfl, hfresh.symm, rfl⟩

theorem pwhBgworkerMain_wp (metricsListenAddress : List UInt8) (n : Nat) {E : State → Prop}
    (hE : ∀ t : State, t.exitCode.isSome = true → E t) :
    contract.wp false (pwhBgworkerMain metricsListenAddress n)
      (Ended fun _ t => t.signalsUnblocked = true) E {} := by
  unfold pwhBgworkerMain
  refine wp_act trivial trivial fun _ _ _ _ he => ?_
  cases he
  refine ⟨nofun, wp_then hE (dumbCreate_wp _) fun created t _ ht => ?_⟩
  refine wp_act trivial trivial fun _ _ _ _ he => ?_
  cases he
  cases created with
  | none =>
    have hnone : HasNothing { t with httpServerInstance := none } :=
      ⟨(ht.1 rfl).unblocked, (ht.1 rfl).isRunning, (ht.1 rfl).openFds, (ht.1 rfl).heap⟩
    exact ⟨hnone.inv, wp_procExit hnone⟩
  | some server =>
    obtain ⟨impl, hcreated⟩ := ht.2 server rfl
    refine ⟨hcreated.inv, wp_then hE hcreated.dumbSetHandler_wp fun _ u _ hu => ?_⟩
    refine wp_then hE (hu.dumbRun_wp n hE) fun result v _ hv => ?_
    rcases hv with ⟨rfl, hserving⟩ | ⟨rfl, hcreated, hfd⟩
    · exact wp_return hserving.unblocked
    · exact wp_then hE (hcreated.dumbDestroy_wp hfd) fun _ _ _ hempty => wp_procExit hempty

/-! ## 3. SIGTERM -/

/-- What is left of a process that stops: it ends. -/
theorem wp_exitInSigterm (hs : s.inSigterm = true) (hi : Inv s) :
    contract.wp false (act (.procExit 0)) (Ended fun _ _ => False) (fun _ => False) s := by
  refine wp_act (k := .ret) trivial (fun hnot => by simp [hs] at hnot) fun _ _ _ _ he => ?_
  cases he
  exact ⟨hi, Contract.wp_ret (stable_ended _ ()) (.inl rfl)⟩

/-- `dumb_stop` uses the descriptor and the two structures while they are there. -/
theorem dumbStop_wp {server : Nat} (hs : s.inSigterm = true)
    (hserver : (server, .server) ∈ s.heap) (himpl : (s.implPtr, .impl) ∈ s.heap)
    (hfd : s.impl.listenFd < 0 ∨ s.impl.listenFd ∈ s.openFds) (hi : Inv s) :
    contract.wp false (dumbStop server) (Ended fun _ t => t.inSigterm = true ∧ Inv t)
      (fun _ => False) s := by
  unfold dumbStop
  have hstopped : ∀ {t : State}, t.impl.isRunning = false → Inv t := fun h hrun => by
    simp [h] at hrun
  refine wp_act (o := .getImpl server) hserver trivial fun _ _ _ _ he => ?_
  cases he
  refine ⟨hi, wp_act (o := .setIsRunning s.implPtr false) himpl trivial fun _ _ _ _ he => ?_⟩
  cases he
  refine ⟨hstopped rfl, wp_act (o := .getListenFd s.implPtr) himpl trivial fun _ _ _ _ he => ?_⟩
  cases he
  refine ⟨hstopped rfl, ?_⟩
  by_cases hpos : 0 ≤ s.impl.listenFd
  · have hopen : s.impl.listenFd ∈ s.openFds := hfd.resolve_left (Int32.not_lt.mpr hpos)
    rw [if_pos hpos]
    refine wp_act (o := .getListenFd s.implPtr) himpl trivial fun _ _ _ _ he => ?_
    cases he
    refine ⟨hstopped rfl, wp_act (o := .shutdown s.impl.listenFd) hopen trivial
      fun _ _ _ _ he => ?_⟩
    cases he
    refine ⟨hstopped rfl, wp_act (o := .getListenFd s.implPtr) himpl trivial fun _ _ _ _ he => ?_⟩
    cases he
    refine ⟨hstopped rfl, wp_act (o := .close s.impl.listenFd) hopen trivial fun _ _ _ _ he => ?_⟩
    cases he
    refine ⟨hstopped rfl, wp_act (k := .ret) (o := .setListenFd s.implPtr (-1)) himpl trivial
      fun _ _ _ _ he => ?_⟩
    cases he
    exact ⟨hstopped rfl, wp_return ⟨hs, hstopped rfl⟩⟩
  · rw [if_neg hpos]
    exact wp_return ⟨hs, hstopped rfl⟩

/-- The handler stops an intact server and ends the process. -/
theorem handleSigterm_wp (h : s.IsIntact) :
    contract.wp false handleSigterm (Ended fun _ _ => False) (fun _ => False) s := by
  unfold handleSigterm
  refine wp_act trivial trivial fun _ _ t _ he => ?_
  have ht : t.inSigterm = true ∧ t.IsIntact := by
    cases he
    exact ⟨rfl, h⟩
  refine ⟨fun _ => ht.2, wp_act (o := .getHttpServerInstance) trivial trivial fun _ r u _ he => ?_⟩
  obtain ⟨hr, rfl⟩ : t.httpServerInstance = r ∧ t = u := by simpa [effect] using he
  refine ⟨fun _ => ht.2, ?_⟩
  cases r with
  | none => exact wp_exitInSigterm ht.1 fun _ => ht.2
  | some server =>
    obtain ⟨hserver, himpl, hfd⟩ := ht.2 server hr
    refine Contract.wp_bind (Contract.wp_mono
      (dumbStop_wp ht.1 hserver himpl hfd fun _ => ht.2) (fun _ v _ hv => ?_) fun _ _ h => h)
    rcases hv with hend | ⟨hs, hi⟩
    · exact wp_op_ended hend
    · exact wp_exitInSigterm hs hi

/-! ## 4. Every run -/

/-- The next event: `malloc` finds memory for the parts of a request, and a SIGTERM comes while the
server it would stop is intact. -/
def Undisturbed (c : Config Unit State Res) : Event Unit Nat Empty Env → Prop
  | .run _ e => ∀ o k, c.thread () = .op o k → e.Suffices o
  | .interrupt _ => c.shared.IsIntact
  | _ => True

/-- Between two calls the process has not started, or it has unblocked its signals, or ended. -/
def Idle (s : State) : Prop :=
  s.exitCode.isSome = true ∨ s.signalsUnblocked = true ∨ s = {}

theorem stable_idle : contract.Stable Idle := by
  rintro s t h (rfl | ht) -
  · exact h
  · exact .inl ht

theorem exporter_sound (metricsListenAddress : List UInt8) :
    System.Sound (exporterSystem metricsListenAddress) Undisturbed Inv (fun _ => contract)
      (fun _ => Idle) where
  sem_of_ok _ _ e o k _ _ hp hok h := ⟨e, hok o k hp, h⟩
  inv_eq _ := rfl
  stable _ := stable_idle
  guar_rely _ _ _ _ _ _ _ hne := absurd rfl hne
  assume_of_ok _ _ _ _ _ _ _ := trivial
  call c _ n prog hi hidle _ hent := by
    obtain ⟨hnot, hprog⟩ := Option.ite_none_left_eq_some.mp hent
    cases hprog
    rcases hidle with hend | hstarted | hfresh
    · exact Contract.wp_mono (wp_ended (Q := fun _ _ => False) (E := Idle) (fun _ => .inl) hend)
        (fun _ _ _ h => .inl (h.resolve_right id)) fun _ _ h => h
    · exact absurd hstarted hnot
    · rw [hfresh]
      exact Contract.wp_mono (pwhBgworkerMain_wp metricsListenAddress n (E := Idle) fun _ => .inl)
        (fun _ _ _ h => h.imp_right .inl) fun _ _ h => h
  interrupt c _ prog _ hok hint := by
    obtain ⟨-, hprog⟩ := Option.ite_none_right_eq_some.mp hint
    cases hprog
    exact Contract.wp_mono (handleSigterm_wp hok) (fun _ _ _ h => .inr (h.resolve_right id))
      fun _ _ h => h
  external _ x := nomatch x

/-- Until it has ended, the process can go on. -/
theorem exists_exec (o : Op) (h : s.exitCode = none) :
    ∃ e r t, Env.Suffices e o ∧ exec o e s = some (r, t) := by
  obtain ⟨a, ha⟩ := Infinite.exists_notMem_finset (insert 0 s.addresses.toFinset)
  obtain ⟨hne, hnew⟩ : a ≠ 0 ∧ a ∉ s.addresses := by simpa using ha
  have hallocate : ∀ b, s.allocate a b = some { s with heap := (a, b) :: s.heap } := fun b => by
    simp [State.allocate, hne, hnew]
  refine ⟨{ address := a }, ?_⟩
  simp only [exec, h, Option.isSome_none, Bool.false_eq_true, if_false]
  cases o with
  | malloc b =>
    refine ⟨_, _, ?_, congrArg (Option.map _) (hallocate b)⟩
    cases b <;> first | exact hne | trivial
  | pstrdup =>
    exact ⟨_, _, trivial, (if_neg hne).trans (congrArg (Option.map _) (hallocate .body))⟩
  | _ => exact ⟨_, _, trivial, rfl⟩

/-- **The exporter keeps account of its descriptors and its memory**, in every run with SIGTERM at
any point, in which `malloc` finds memory for the parts of a request and SIGTERM finds the server it
would stop: it uses, closes and frees nothing but what it has; when it waits for a connection it has
the one descriptor, the server, and the body of each response it has given; it ends by itself only
with everything closed and freed; and from the start of the accept loop on the server that SIGTERM
stops is there. -/
theorem exporter_keeps_account (metricsListenAddress : List UInt8) {c : Config Unit State Res}
    (h : (exporterSystem metricsListenAddress).Reach Undisturbed exporterInit c) :
    (c.shared.impl.isRunning = true → c.shared.IsIntact) ∧
    ∀ o k, c.thread () = .op o k → c.shared.exitCode = none →
      o.Proper c.shared ∧ o.Owes c.shared := by
  have hinv : Inv exporterInit.shared := fun hrunning => by cases hrunning
  have hidle : Idle exporterInit.shared := .inr (.inr rfl)
  have hall := System.Reach.sound (exporter_sound metricsListenAddress) hinv (fun _ => hidle)
    (fun _ => rfl) h
  refine ⟨hall.1, fun o k hp hend => ?_⟩
  obtain ⟨e, r, s', hsuff, hx⟩ := exists_exec o hend
  have hok : Undisturbed c (.run () e) := by
    intro o' k' hp'
    rw [hp] at hp'
    cases hp'
    exact hsuff
  exact (System.Sound.guar_of_holds (exporter_sound metricsListenAddress) hall hp hok hx).2.1

/-- One request is answered; the system gives out new addresses and descriptors as it goes. -/
def answeringRun : List (Event Unit Nat Empty Env) :=
  .call () 2 :: (List.range 37).map fun i => .run ()
    { address := i + 1, fd := Int32.ofNat i, received := str "GET /metrics HTTP/1.1\r\n\r\n",
      response := pwhHttpResponseSetText 200 (str "# EOF\n") }

/-- The process is about to wait for a connection, after `n` answers. -/
def isAccepting (fd : Int32) (n : Nat) (c : Config Unit State Res) : Bool :=
  match c.thread () with
  | .op (.accept fd') _ => fd' = fd && c.shared.requests = n && c.shared.exitCode.isNone
  | _ => false

theorem thread_of_isAccepting {c : Config Unit State Res} {fd : Int32} {n : Nat}
    (h : isAccepting fd n c = true) :
    (∃ k, c.thread () = .op (.accept fd) k) ∧ c.shared.requests = n ∧
      c.shared.exitCode = none := by
  unfold isAccepting at h
  split at h
  · rename_i fd' k hp
    simp only [Bool.and_eq_true, decide_eq_true_eq, Option.isNone_iff_eq_none] at h
    obtain ⟨⟨rfl, hn⟩, hend⟩ := h
    exact ⟨⟨k, hp⟩, hn, hend⟩
  · cases h

/-- An event that finds memory, and is no SIGTERM. -/
def findsMemory : Event Unit Nat Empty Env → Bool
  | .run _ e => e.address ≠ 0
  | .call _ _ => true
  | _ => false

set_option maxRecDepth 10000 in
/-- After the answer the body of the response is still allocated. -/
theorem answeringRun_leaves_body : ∃ c : Config Unit State Res,
    (exporterSystem (str "127.0.0.1:9187")).Reach Undisturbed exporterInit c ∧
      c.shared.IsWaiting 8 ∧ c.shared.bodies = 1 := by
  have hcheck : ∀ (c : Config Unit State Res) e, findsMemory e = true → Undisturbed c e := by
    intro c e h
    cases e with
    | run i env =>
      have hne : env.address ≠ 0 := of_decide_eq_true h
      intro o k _
      unfold Env.Suffices
      split <;> first | exact hne | trivial
    | call i n => trivial
    | interrupt i => cases h
    | external x => trivial
  have hrun : ∃ c, (exporterSystem (str "127.0.0.1:9187")).Reach Undisturbed exporterInit c ∧
      isAccepting 8 1 c = true :=
    System.exists_reach (exporterSystem (str "127.0.0.1:9187")) (fun _ e => findsMemory e) hcheck
      exporterInit answeringRun _ (by decide +kernel)
  obtain ⟨c, hc, haccepting⟩ := hrun
  obtain ⟨⟨k, hk⟩, hn, hend⟩ := thread_of_isAccepting haccepting
  have howes := ((exporter_keeps_account _ hc).2 _ k hk hend).2
  exact ⟨c, hc, howes, howes.2.2.trans hn⟩

end WhatIsHappening.Exporter
