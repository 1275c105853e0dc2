/-
# `bg_worker.c`: the metrics endpoint's handler
-/
import WhatIsHappening.Metrics

namespace WhatIsHappening

open Interleaving Prog

variable {D : Type} [CDouble D]

/-- `HttpRequest`, as far as the handler reads it. -/
structure HttpRequest where
  method : List UInt8
  path : List UInt8

/-- `HttpResponse`. -/
structure HttpResponse where
  statusCode : Nat
  statusText : String
  body : List UInt8

/-- `pwh_http_response_set_text` (`http_server.c`). -/
def pwhHttpResponseSetText (statusCode : Nat) (body : List UInt8) : HttpResponse where
  statusCode := statusCode
  statusText :=
    match statusCode with
    | 200 => "OK"
    | 404 => "Not Found"
    | 500 => "Internal Server Error"
    | _ => "Unknown"
  body := body

/-- `metrics_handler`.  `palloc` never returns `NULL`, so neither does
`pwh_format_openmetrics`. -/
def metricsHandler (srv : Server D) (palloced : Nat → UInt8) (req : HttpRequest) :
    PgProg D HttpResponse :=
  if req.method ≠ str "GET" ∨ req.path ≠ str "/metrics" then
    return pwhHttpResponseSetText 404 (str "Not Found")
  else do
    pwhLwlockAcquire .LW_SHARED
    let _ ← pwhCleanupOrphanedSlots srv
    let _ ← pwhRequestBackendMetricsUnlocked srv
    let metrics ← pwhFormatOpenmetrics srv palloced
    pwhLwlockRelease
    return pwhHttpResponseSetText 200 metrics

end WhatIsHappening
