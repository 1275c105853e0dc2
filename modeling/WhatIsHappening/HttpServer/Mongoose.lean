/-
# `http_server_backend/mongoose.c`

The backend on the vendored library, which parses the requests and writes the replies.
-/
import WhatIsHappening.HttpServer.Dumb

namespace WhatIsHappening

open Interleaving Prog CLib

/-- `MongooseHttpServer`, as far as `mongoose_create` fills it in. -/
structure MongooseHttpServer where
  listenAddress : List UInt8
  isRunning : Bool
  deriving DecidableEq, Repr

/-- `mongoose_create`; `mallocServer` and `mallocImpl` say whether `malloc` finds memory. -/
def mongooseCreate (mallocServer mallocImpl : Bool) (listenAddr : List UInt8) :
    Option MongooseHttpServer :=
  if !mallocServer then none
  else if !mallocImpl then none
  else
    let listenAddress :=
      if (str "http://").isPrefixOf listenAddr then snprintf 128 listenAddr
      else snprintf 128 (str "http://" ++ listenAddr)
    some { listenAddress, isRunning := false }

/-- `struct mg_http_message`, as far as the event handler reads it. -/
structure MgHttpMessage where
  method : List UInt8
  uri : List UInt8
  deriving DecidableEq, Repr

/-- The arguments of `mg_http_reply`. -/
structure MgHttpReply where
  code : Nat
  headers : List UInt8
  body : List UInt8

/-- `mongoose_event_handler` at `MG_EV_HTTP_MSG`.  `"%.*s"` stops at a NUL; the handler never sets
headers. -/
def mongooseEventHandler {D : Type} (handlerFn : Option (HttpRequestHandlerFn D))
    (hm : MgHttpMessage) : PgProg D MgHttpReply := do
  let req : HttpRequest :=
    { method := snprintf 16 (hm.method.takeWhile (· ≠ 0))
      path := snprintf 256 (hm.uri.takeWhile (· ≠ 0)) }
  let resp ← callHandler handlerFn req
  return { code := resp.statusCode, headers := str "Content-Type: text/plain\r\n",
           body := resp.body }

end WhatIsHappening
