/-
# `http_server_backend/dumb.c`

The backend that needs no library: one socket, one request at a time, one `recv` a request.
-/
import WhatIsHappening.BgWorker
import WhatIsHappening.Lib.CString

namespace WhatIsHappening

open Interleaving Prog CLib

/-- `DUMB_HTTP_BUFFER_SIZE`. -/
def DUMB_HTTP_BUFFER_SIZE : Nat := 8192

/-! ## 1. Listening -/

/-- `DumbHttpServer`, without its handler. -/
structure DumbHttpServer where
  port : Int32
  listenFd : Int32
  isRunning : Bool
  deriving DecidableEq, Repr

/-- `dumb_create`; `mallocServer` and `mallocImpl` say whether `malloc` finds memory. -/
def dumbCreate (mallocServer mallocImpl : Bool) (listenAddr : List UInt8) :
    Option DumbHttpServer :=
  if !mallocServer then none
  else if !mallocImpl then none
  else
    let port := match strrchr listenAddr 58 with
      | some colon => atoi (listenAddr.drop (colon + 1))
      | none => 9187
    some { port, listenFd := -1, isRunning := false }

/-- `INADDR_ANY`. -/
def INADDR_ANY : UInt32 := 0

/-- `struct sockaddr_in`, its fields in host order. -/
structure SockaddrIn where
  sinAddr : UInt32
  sinPort : UInt16
  deriving DecidableEq, Repr

/-- The system calls of `dumb_run` before its accept loop. -/
inductive SocketCall where
  | socket
  | setsockopt (fd : Int32)
  | bind (fd : Int32) (addr : SockaddrIn)
  | listen (fd backlog : Int32)
  | close (fd : Int32)
  deriving DecidableEq, Repr

/-- What the system answers to them. -/
structure SocketResults where
  socketFd : Int32
  bindResult : Int32
  listenResult : Int32

/-- `dumb_run` up to its accept loop: the calls it makes, the server they leave, and whether it
comes to the loop. -/
def dumbRunListen (r : SocketResults) (impl : DumbHttpServer) :
    List SocketCall × DumbHttpServer × Bool :=
  let fd := r.socketFd
  let addr : SockaddrIn := ⟨INADDR_ANY, impl.port.toUInt32.toUInt16⟩
  let opened := [.socket, .setsockopt fd, .bind fd addr]
  if fd < 0 then ([.socket], { impl with listenFd := fd }, false)
  else if r.bindResult < 0 then (opened ++ [.close fd], { impl with listenFd := -1 }, false)
  else if r.listenResult < 0 then
    (opened ++ [.listen fd 5, .close fd], { impl with listenFd := -1 }, false)
  else (opened ++ [.listen fd 5], { impl with listenFd := fd, isRunning := true }, true)

/-! ## 2. Requests -/

/-- The request `parse_request` fills in; it has no headers and no body. -/
structure RequestLine extends HttpRequest where
  version : List UInt8

/-- `parse_request`; `none` where it returns false. -/
def parseRequest (buffer : List UInt8) : Option RequestLine := do
  let lineEnd ← (strstr buffer (str "\r\n")).or (strstr buffer (str "\n"))
  let space1 ← memchr buffer 32 lineEnd
  let afterMethod := buffer.drop (space1 + 1)
  let pathLen ← memchr afterMethod 32 (lineEnd - (space1 + 1))
  let space2 := space1 + 1 + pathLen
  return { method := buffer.take space1
           path := afterMethod.take pathLen
           version := (buffer.drop (space2 + 1)).take (lineEnd - space2 - 1) }

/-- The text `handle_connection` prints into `response_buffer`; the `u32` status code is printed
with `%d`. -/
def responseText (resp : HttpResponse) : List UInt8 :=
  str "HTTP/1.1 " ++ decimalInt (UInt32.ofNat resp.statusCode).toInt32.toInt ++ str " " ++
    str resp.statusText ++ str "\r\n" ++
    str "Content-Type: text/plain; version=0.0.4\r\n" ++
    str "Content-Length: " ++ decimal resp.body.length ++ str "\r\n" ++
    str "Connection: close\r\n" ++ str "\r\n" ++ resp.body

/-- A request handler. -/
abbrev HttpRequestHandlerFn (D : Type) := HttpRequest → PgProg D HttpResponse

/-- The call of `handler_fn` that both backends make. -/
def callHandler {D : Type} (handlerFn : Option (HttpRequestHandlerFn D)) (req : HttpRequest) :
    PgProg D HttpResponse :=
  match handlerFn with
  | some handler => handler req
  | none => return pwhHttpResponseSetText 404 (str "Not Found")

/-- What `send` is given of a response: the bytes from `response_buffer` on, as many as the text
has.  A text that does not fit is cut off, and what lies behind the buffer goes out with it. -/
def sentBytes (memory : Nat → UInt8) (text : List UInt8) : List UInt8 :=
  (List.range text.length).map (FormatterBuffer.vsnprintf memory 0 DUMB_HTTP_BUFFER_SIZE text)

/-- `handle_connection`, for the bytes its `recv` gets and the memory from `response_buffer` on:
the response and the bytes passed to `send`, or `none` where the connection is closed without
them. -/
def handleConnection {D : Type} (handlerFn : Option (HttpRequestHandlerFn D))
    (memory : Nat → UInt8) (received : List UInt8) :
    PgProg D (Option (HttpResponse × List UInt8)) :=
  -- `buffer` is a C string: what comes behind a NUL is not seen
  if received = [] then return none
  else match parseRequest (received.takeWhile (· ≠ 0)) with
    | none => return none
    | some req => do
      let resp ← callHandler handlerFn req.toHttpRequest
      return some (resp, sentBytes memory (responseText resp))

end WhatIsHappening
