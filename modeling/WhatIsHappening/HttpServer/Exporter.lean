/-
# The exporter process

`pwh_bgworker_main` with the dumb backend behind it: what the process does with its descriptors,
its memory and the fields of the server, one operation for each statement that touches them, and
the handler of SIGTERM, which may run between any two.
-/
import WhatIsHappening.HttpServer.Dumb
import WhatIsHappening.Lib.System

namespace WhatIsHappening.Exporter

open Interleaving Prog CLib

/-! ## 1. The process -/

/-- What a block of memory is allocated for. -/
inductive Block where
  | server
  | impl
  | method
  | path
  | version
  | body
  deriving DecidableEq, Repr

/-- The process: its open descriptors, its allocated blocks (latest first), `HTTP_SERVER_INSTANCE`,
and the fields of the two structures behind it.  `requests` counts the answers of the handler. -/
structure State where
  openFds : List Int32 := []
  heap : List (Nat × Block) := []
  httpServerInstance : Option Nat := none
  implPtr : Nat := 0
  impl : DumbHttpServer := ⟨0, -1, false⟩
  hasHandler : Bool := false
  signalsUnblocked : Bool := false
  inSigterm : Bool := false
  exitCode : Option Nat := none
  requests : Nat := 0

inductive Op where
  /- memory; `malloc` answers 0 for `NULL` -/
  | malloc (b : Block)
  | pstrdup
  | memcpy (a : Nat)
  | free (a : Nat)
  /- `HttpServer` and `DumbHttpServer` -/
  | initServer (server impl : Nat) (fields : DumbHttpServer)
  | getImpl (server : Nat)
  | getPort (impl : Nat)
  | getListenFd (impl : Nat)
  | setListenFd (impl : Nat) (fd : Int32)
  | getIsRunning (impl : Nat)
  | setIsRunning (impl : Nat) (b : Bool)
  | getHandlerFn (impl : Nat)
  | setHandlerFn (impl : Nat)
  | getHttpServerInstance
  | setHttpServerInstance (server : Option Nat)
  /- the system's calls -/
  | socket
  | setsockopt (fd : Int32)
  | bind (fd : Int32) (addr : SockaddrIn)
  | listen (fd backlog : Int32)
  | accept (fd : Int32)
  | recv (fd : Int32) (n : Nat)
  | send (fd : Int32) (bytes : List UInt8)
  | shutdown (fd : Int32)
  | close (fd : Int32)
  /- the handler, and what `response_buffer` is laid over -/
  | handlerFn (req : HttpRequest)
  | stackMemory
  /- the process itself -/
  | unblockSignals
  | enterSigterm
  | procExit (code : Nat)

@[reducible] def Res : Op → Type
  | .malloc _ | .getImpl _ => Nat
  | .getPort _ | .getListenFd _ | .socket | .bind _ _ | .listen _ _ | .accept _ => Int32
  | .getIsRunning _ | .getHandlerFn _ => Bool
  | .getHttpServerInstance => Option Nat
  | .recv _ _ => List UInt8
  | .handlerFn _ => HttpResponse
  | .stackMemory => Nat → UInt8
  | _ => Unit

/-- What the outside decides at an operation: the address of a new block, the number of a new
descriptor, the result of another call, the bytes received, and what the handler answers, unless
it raises an error. -/
structure Env where
  address : Nat := 0
  fd : Int32 := -1
  result : Int32 := 0
  received : List UInt8 := []
  response : HttpResponse := ⟨0, "", []⟩
  memory : Nat → UInt8 := fun _ => 0
  raises : Bool := false

namespace State

/-- The addresses that are allocated. -/
def addresses (s : State) : List Nat := s.heap.map Prod.fst

/-- A new block, whose address is not in use; nothing happens at `NULL`. -/
def allocate (s : State) (a : Nat) (b : Block) : Option State :=
  if a = 0 then some s
  else if a ∈ s.addresses then none
  else some { s with heap := (a, b) :: s.heap }

/-- A new descriptor, whose number is not in use; nothing happens at an error. -/
def openFd (s : State) (fd : Int32) : Option State :=
  if fd < 0 then some s
  else if fd ∈ s.openFds then none
  else some { s with openFds := fd :: s.openFds }

end State

/-- The effect of an operation; `none` when the outside cannot have answered so. -/
def effect (o : Op) (e : Env) (s : State) : Option (Res o × State) :=
  match o with
  | .malloc b => (s.allocate e.address b).map (e.address, ·)
  -- an ERROR has nobody to catch it in this process, and ends it
  | .pstrdup =>
    if e.address = 0 then some ((), { s with exitCode := some 1 })
    else (s.allocate e.address .body).map fun t => ((), { t with requests := t.requests + 1 })
  | .memcpy _ => some ((), s)
  | .free a => some ((), { s with heap := s.heap.filter (·.1 ≠ a) })
  | .initServer _ impl fields => some ((), { s with implPtr := impl, impl := fields })
  | .getImpl _ => some (s.implPtr, s)
  | .getPort _ => some (s.impl.port, s)
  | .getListenFd _ => some (s.impl.listenFd, s)
  | .setListenFd _ fd => some ((), { s with impl := { s.impl with listenFd := fd } })
  | .getIsRunning _ => some (s.impl.isRunning, s)
  | .setIsRunning _ b => some ((), { s with impl := { s.impl with isRunning := b } })
  | .getHandlerFn _ => some (s.hasHandler, s)
  | .setHandlerFn _ => some ((), { s with hasHandler := true })
  | .getHttpServerInstance => some (s.httpServerInstance, s)
  | .setHttpServerInstance server => some ((), { s with httpServerInstance := server })
  | .socket => (s.openFd e.fd).map (e.fd, ·)
  | .setsockopt _ => some ((), s)
  | .bind _ _ => some (e.result, s)
  | .listen _ _ => some (e.result, s)
  | .accept _ => (s.openFd e.fd).map (e.fd, ·)
  | .recv _ n => some (e.received.take n, s)
  | .send _ _ => some ((), s)
  | .shutdown _ => some ((), s)
  | .close fd => some ((), { s with openFds := s.openFds.filter (· ≠ fd) })
  | .handlerFn _ => some (e.response, if e.raises then { s with exitCode := some 1 } else s)
  | .stackMemory => some (e.memory, s)
  | .unblockSignals => some ((), { s with signalsUnblocked := true })
  | .enterSigterm => some ((), { s with inSigterm := true })
  | .procExit code => some ((), { s with exitCode := some code })

/-- After the process has ended nothing is performed. -/
def exec (o : Op) (e : Env) (s : State) : Option (Res o × State) :=
  if s.exitCode.isSome then none else effect o e s

abbrev ExProg (α : Type) := Prog Res α

/-- One operation. -/
def act (o : Op) : ExProg (Res o) := .op o .ret

/-! ## 2. `dumb.c` -/

/-- The port `dumb_create` reads off the address. -/
def dumbPort (listenAddr : List UInt8) : Int32 :=
  match strrchr listenAddr 58 with
  | some colon => atoi (listenAddr.drop (colon + 1))
  | none => 9187

/-- With memory for both structures the other model of `dumb_create` takes the same port. -/
theorem dumbCreate_eq (listenAddr : List UInt8) :
    dumbCreate true true listenAddr = some ⟨dumbPort listenAddr, -1, false⟩ := rfl

/-- `dumb_create`. -/
def dumbCreate (listenAddr : List UInt8) : ExProg (Option Nat) := do
  let server ← act (.malloc .server)
  if server = 0 then return none
  else
    let impl ← act (.malloc .impl)
    if impl = 0 then
      act (.free server)
      return none
    else
      act (.initServer server impl ⟨dumbPort listenAddr, -1, false⟩)
      return some server

/-- `dumb_destroy`. -/
def dumbDestroy (server : Nat) : ExProg Unit := do
  let impl ← act (.getImpl server)
  let fd ← act (.getListenFd impl)
  if 0 ≤ fd then
    let fd ← act (.getListenFd impl)
    act (.close fd)
  act (.free impl)
  act (.free server)

/-- `dumb_set_handler`. -/
def dumbSetHandler (server : Nat) : ExProg Unit := do
  let impl ← act (.getImpl server)
  act (.setHandlerFn impl)

/-- One part of the request line, copied out of the buffer. -/
def copyPart (b : Block) : ExProg Nat := do
  let a ← act (.malloc b)
  act (.memcpy a)
  return a

/-- The call of the handler; both ways to answer end in `pwh_http_response_set_text`, which copies
the body. -/
def callHandler (impl : Nat) (req : HttpRequest) : ExProg HttpResponse := do
  let resp ← if ← act (.getHandlerFn impl) then act (.handlerFn req)
    else pure (pwhHttpResponseSetText 404 (str "Not Found"))
  act .pstrdup
  return resp

/-- `handle_connection`. -/
def handleConnection (impl : Nat) (clientFd : Int32) : ExProg Unit := do
  let received ← act (.recv clientFd (DUMB_HTTP_BUFFER_SIZE - 1))
  if received = [] then act (.close clientFd)
  else match parseRequest (received.takeWhile (· ≠ 0)) with
  | none => act (.close clientFd)
  | some req => do
    let method ← copyPart .method
    let path ← copyPart .path
    let version ← copyPart .version
    let resp ← callHandler impl req.toHttpRequest
    let memory ← act .stackMemory
    act (.send clientFd (sentBytes memory (responseText resp)))
    -- `free_request`: headers and body were left `NULL`; the response's body is nobody's to free
    act (.free method)
    act (.free path)
    act (.free version)
    act (.close clientFd)

/-- The accept loop, for `n` rounds: whether it was left. -/
def acceptLoop (impl : Nat) : Nat → ExProg Bool
  | 0 => return false
  | n + 1 => do
    if ← act (.getIsRunning impl) then
      let listenFd ← act (.getListenFd impl)
      let clientFd ← act (.accept listenFd)
      if clientFd < 0 then
        if ← act (.getIsRunning impl) then acceptLoop impl n
        else return true
      else
        handleConnection impl clientFd
        acceptLoop impl n
    else return true

/-- The way out of `dumb_run` when it cannot listen. -/
def giveUpListening (impl : Nat) : ExProg (Option Int32) := do
  let fd ← act (.getListenFd impl)
  act (.close fd)
  act (.setListenFd impl (-1))
  return some (-1)

/-- The accept loop of `dumb_run` and what comes behind it, for at most `n` rounds: `none` when the
loop is not left in them. -/
def serve (impl n : Nat) : ExProg (Option Int32) := do
  if ← acceptLoop impl n then
    let fd ← act (.getListenFd impl)
    act (.close fd)
    act (.setIsRunning impl false)
    act (.setListenFd impl (-1))
    return some 0
  else return none

/-- `dumb_run`, with at most `n` rounds of its loop: `none` when it is still in the loop then. -/
def dumbRun (server n : Nat) : ExProg (Option Int32) := do
  let impl ← act (.getImpl server)
  let fd ← act .socket
  act (.setListenFd impl fd)
  let fd ← act (.getListenFd impl)
  if fd < 0 then return some (-1)
  else
    act (.setsockopt fd)
    let port ← act (.getPort impl)
    let bound ← act (.bind fd ⟨INADDR_ANY, port.toUInt32.toUInt16⟩)
    if bound < 0 then giveUpListening impl
    else
      let listening ← act (.listen fd 5)
      if listening < 0 then giveUpListening impl
      else
        act (.setIsRunning impl true)
        serve impl n

/-- `dumb_stop`. -/
def dumbStop (server : Nat) : ExProg Unit := do
  let impl ← act (.getImpl server)
  act (.setIsRunning impl false)
  let fd ← act (.getListenFd impl)
  if 0 ≤ fd then
    let fd ← act (.getListenFd impl)
    act (.shutdown fd)
    let fd ← act (.getListenFd impl)
    act (.close fd)
    act (.setListenFd impl (-1))

/-! ## 3. The two models of listening

`dumbRunListen` has the calls of `dumb_run` as a list, `dumbRun` makes them one by one.  They are
the same function: with the same answers they make the same calls and leave the same server. -/

/-- The system call an operation is, among those `dumbRunListen` lists. -/
def Op.socketCall : Op → Option SocketCall
  | .socket => some .socket
  | .setsockopt fd => some (.setsockopt fd)
  | .bind fd addr => some (.bind fd addr)
  | .listen fd backlog => some (.listen fd backlog)
  | .close fd => some (.close fd)
  | _ => none

/-- Answered by `es`, `p` makes these system calls, leaves these fields, and then has `q` to do. -/
def Makes {α : Type} (p : ExProg α) (es : List Env) (s : State) (calls : List SocketCall)
    (fields : DumbHttpServer) (q : ExProg α) : Prop :=
  ∃ ops t, p.steps exec es s = some (ops, q, t) ∧
    ops.filterMap (fun x => x.1.socketCall) = calls ∧ t.impl = fields

theorem makes_nil {α : Type} {p : ExProg α} {s : State} : Makes p [] s [] s.impl p :=
  ⟨[], s, by cases p <;> rfl, rfl, rfl⟩

theorem makes_act {α : Type} {o : Op} {e : Env} {es : List Env} {s t : State} {x : Res o}
    {k : Res o → ExProg α} {calls : List SocketCall} {fields : DumbHttpServer} {q : ExProg α}
    (hrun : s.exitCode = none) (ho : effect o e s = some (x, t))
    (hk : Makes (k x) es t calls fields q) :
    Makes (act o >>= k) (e :: es) s (o.socketCall.toList ++ calls) fields q := by
  obtain ⟨ops, u, hsteps, hcalls, hfields⟩ := hk
  have hexec : exec o e s = some (x, t) := by simpa [exec, hrun] using ho
  refine ⟨(o, s) :: ops, u, ?_, ?_, hfields⟩
  · change (exec o e s).bind _ = _
    rw [hexec, Option.bind_some]
    exact congrArg (Option.map _) hsteps
  · cases hcall : o.socketCall <;> simp [hcall, hcalls]

theorem giveUpListening_makes {impl : Nat} {s : State} (hrun : s.exitCode = none) :
    Makes (giveUpListening impl) [{}, {}, {}] s [.close s.impl.listenFd]
      { s.impl with listenFd := -1 } (return some (-1)) :=
  makes_act hrun rfl (makes_act hrun rfl (makes_act hrun rfl makes_nil))

/-- What the outside answers to the operations of `dumb_run` before its loop. -/
def listenAnswers (r : SocketResults) : List Env :=
  [{}, { fd := r.socketFd }, {}, {}, {}, {}, { result := r.bindResult },
    { result := r.listenResult }, {}, {}, {}]

/-- Before its loop `dumb_run` makes the calls of `dumbRunListen`, leaves the same fields, and
comes to the loop in the same cases. -/
theorem dumbRun_listens (n : Nat) (r : SocketResults) {s : State} (hrun : s.exitCode = none)
    (hnew : r.socketFd ∉ s.openFds) :
    ∃ k, Makes (dumbRun s.implPtr n) ((listenAnswers r).take k) s (dumbRunListen r s.impl).1
      (dumbRunListen r s.impl).2.1
      (if (dumbRunListen r s.impl).2.2 then serve s.implPtr n else return some (-1)) := by
  by_cases hfd : r.socketFd < 0
  · have hsocket : effect .socket { fd := r.socketFd } s = some (r.socketFd, s) := by
      simp [effect, State.openFd, hfd]
    have hmakes : Makes (dumbRun s.implPtr n) ((listenAnswers r).take 4) s [.socket]
        { s.impl with listenFd := r.socketFd } (return some (-1)) := by
      refine makes_act hrun rfl (makes_act hrun hsocket (makes_act hrun rfl
        (makes_act hrun rfl ?_)))
      rw [if_pos hfd]
      exact makes_nil
    exact ⟨4, by simpa [dumbRunListen, hfd] using hmakes⟩
  have hsocket : effect .socket { fd := r.socketFd } s =
      some (r.socketFd, { s with openFds := r.socketFd :: s.openFds }) := by
    simp [effect, State.openFd, hfd, hnew]
  let addr : SockaddrIn := ⟨INADDR_ANY, s.impl.port.toUInt32.toUInt16⟩
  by_cases hbind : r.bindResult < 0
  · have hmakes : Makes (dumbRun s.implPtr n) ((listenAnswers r).take 10) s
        [.socket, .setsockopt r.socketFd, .bind r.socketFd addr, .close r.socketFd]
        { s.impl with listenFd := -1 } (return some (-1)) := by
      refine makes_act hrun rfl (makes_act hrun hsocket (makes_act hrun rfl
        (makes_act hrun rfl ?_)))
      rw [if_neg hfd]
      refine makes_act hrun rfl (makes_act hrun rfl (makes_act hrun rfl ?_))
      rw [if_pos hbind]
      exact giveUpListening_makes hrun
    exact ⟨10, by simpa [dumbRunListen, hfd, hbind] using hmakes⟩
  by_cases hlisten : r.listenResult < 0
  · have hmakes : Makes (dumbRun s.implPtr n) ((listenAnswers r).take 11) s
        [.socket, .setsockopt r.socketFd, .bind r.socketFd addr, .listen r.socketFd 5,
          .close r.socketFd]
        { s.impl with listenFd := -1 } (return some (-1)) := by
      refine makes_act hrun rfl (makes_act hrun hsocket (makes_act hrun rfl
        (makes_act hrun rfl ?_)))
      rw [if_neg hfd]
      refine makes_act hrun rfl (makes_act hrun rfl (makes_act hrun rfl ?_))
      rw [if_neg hbind]
      refine makes_act hrun rfl ?_
      rw [if_pos hlisten]
      exact giveUpListening_makes hrun
    exact ⟨11, by simpa [dumbRunListen, hfd, hbind, hlisten] using hmakes⟩
  · have hmakes : Makes (dumbRun s.implPtr n) ((listenAnswers r).take 9) s
        [.socket, .setsockopt r.socketFd, .bind r.socketFd addr, .listen r.socketFd 5]
        { s.impl with listenFd := r.socketFd, isRunning := true } (serve s.implPtr n) := by
      refine makes_act hrun rfl (makes_act hrun hsocket (makes_act hrun rfl
        (makes_act hrun rfl ?_)))
      rw [if_neg hfd]
      refine makes_act hrun rfl (makes_act hrun rfl (makes_act hrun rfl ?_))
      rw [if_neg hbind]
      refine makes_act hrun rfl ?_
      rw [if_neg hlisten]
      exact makes_act hrun rfl makes_nil
    exact ⟨9, by simpa [dumbRunListen, hfd, hbind, hlisten] using hmakes⟩

/-! ## 4. `bg_worker.c` -/

/-- `pwh_bgworker_main`, with at most `n` rounds of the accept loop. -/
def pwhBgworkerMain (metricsListenAddress : List UInt8) (n : Nat) : ExProg Unit := do
  act .unblockSignals
  let listenAddr :=
    if metricsListenAddress = [] then str "127.0.0.1:9187" else metricsListenAddress
  let created ← dumbCreate listenAddr
  act (.setHttpServerInstance created)
  match created with
  -- `ereport(FATAL)`
  | none => act (.procExit 1)
  | some server => do
    dumbSetHandler server
    match ← dumbRun server n with
    | none => return ()
    | some _ => do
      dumbDestroy server
      act (.procExit 0)

/-- `handle_sigterm`. -/
def handleSigterm : ExProg Unit := do
  act .enterSigterm
  match ← act .getHttpServerInstance with
  | some server => dumbStop server
  | none => pure ()
  act (.procExit 0)

/-- The process runs its main function once, and takes SIGTERM from then on, unless it is in the
handler already. -/
def exporterSystem (metricsListenAddress : List UInt8) : System Unit Nat Empty Env State Res where
  exec _ o e s := exec o e s
  enter _ n s := if s.signalsUnblocked then none else some (pwhBgworkerMain metricsListenAddress n)
  interrupt _ s := if s.signalsUnblocked && !s.inSigterm then some handleSigterm else none
  external x := nomatch x

def exporterInit : Config Unit State Res := ⟨{}, fun _ => .ret ()⟩

end WhatIsHappening.Exporter
