/-
# The HTTP part of `vendor/mongoose.c`

What the event handler of `http_server_backend/mongoose.c` is called for, and what becomes of its
reply.  A pointer into the bytes received is the list of the bytes from there to `end`; a `mg_str`
is the list of its bytes.  Where the source reads a byte without having compared its pointer with
`end`, the functions here answer `none` if there is no such byte.
-/
import WhatIsHappening.HttpServer.Mongoose
import WhatIsHappening.Startup

namespace WhatIsHappening

open CLib

/-! ## 1. Bytes -/

/-- The difference of two `size_t`. -/
def sizeSub (a b : Nat) : Nat := if b ≤ a then a - b else 2 ^ 64 - (b - a)

/-- `MG_MAX_HTTP_HEADERS`. -/
def MG_MAX_HTTP_HEADERS : Nat := 30

/-- `isok`. -/
def isok (c : UInt8) : Bool := c = 10 || c = 13 || c = 9 || 32 ≤ c

/-- Is it a valid utf-8 continuation byte: `vcb`. -/
def vcb (c : UInt8) : Bool := c &&& 0xc0 = 0x80

/-- `clen`, of at least one byte. -/
def clen : List UInt8 → Nat
  | [] => 0
  | c :: u =>
    let vcbs (n : Nat) : Bool := n ≤ u.length && (u.take n).all vcb
    if 32 < c && c ≤ 126 then 1
    else if c &&& 0xe0 = 0xc0 && vcbs 1 then 2
    else if c &&& 0xf0 = 0xe0 && vcbs 2 then 3
    else if c &&& 0xf8 = 0xf0 && vcbs 3 then 4
    else 0

/-- The length `len` gets in `while (s < end && !stop && (n = clen(s, end)) > 0) s += n, len += n`,
in `k` rounds at most. -/
def clenLoop (stop : UInt8 → Bool) : (k : Nat) → List UInt8 → Nat
  | 0, _ => 0
  | k + 1, s =>
    match s with
    | [] => 0
    | c :: _ =>
      if stop c then 0
      else if clen s = 0 then 0
      else clen s + clenLoop stop k (s.drop (clen s))

/-- Lower case, of ASCII letters. -/
def mgTolc (c : UInt8) : UInt8 := if 65 ≤ c && c ≤ 90 then c + 32 else c

/-- Whether `mg_ncasecmp` is 0; it stops at a NUL and at the first difference. -/
def mgNcasecmp : List UInt8 → List UInt8 → (len : Nat) → Option Bool
  | _, _, 0 => some true
  | c :: s1, d :: s2, len + 1 =>
    if mgTolc c ≠ mgTolc d then some false
    else if c = 0 then some true
    else mgNcasecmp s1 s2 len
  | _, _, _ => none

/-- Whether `mg_strcasecmp` is 0. -/
def mgStrcasecmp (str1 str2 : List UInt8) : Bool := str1.map mgTolc = str2.map mgTolc

/-- The loop of `mg_to_size_t` over the digits: the number, whether there were any, and what comes
behind; `none` for an overflow. -/
def toSizeDigits : List UInt8 → (result ndigits : Nat) → Option (Nat × Nat × List UInt8)
  | [], result, ndigits => some (result, ndigits, [])
  | c :: s, result, ndigits =>
    if 48 ≤ c && c ≤ 57 then
      let digit := c.toNat - 48
      if result > SIZE_MAX / 10 then none
      else if result * 10 > SIZE_MAX - digit then none
      else toSizeDigits s (result * 10 + digit) (ndigits + 1)
    else some (result, ndigits, c :: s)

/-- A blank: a space or a tab. -/
def isBlank (c : UInt8) : Bool := c = 32 || c = 9

/-- `mg_to_size_t`; `none` where it returns false. -/
def mgToSizeT (str : List UInt8) : Option Nat := do
  let str := str.dropWhile isBlank
  if str.head? = some 45 then none
  else
    let (result, ndigits, rest) ← toSizeDigits str 0 0
    if ndigits = 0 then none
    else if rest.dropWhile isBlank ≠ [] then none
    else some result

/-! ## 2. The head of a message -/

/-- Does the head end with byte `i`? -/
def endsHead (buf : List UInt8) (i : Nat) : Bool :=
  (0 < i && buf[i]? = some 10 && buf[i - 1]? = some 10) ||
    (3 < i && buf[i]? = some 10 && buf[i - 1]? = some 13 && buf[i - 2]? = some 10)

/-- The loop of `mg_http_get_request_len`: `k` bytes from `i` on are left. -/
def requestLenLoop (buf : List UInt8) : (k i : Nat) → Int
  | 0, _ => 0
  | k + 1, i =>
    if !buf[i]?.any isok then -1
    else if endsHead buf i then i + 1
    else requestLenLoop buf k (i + 1)

/-- `mg_http_get_request_len`. -/
def mgHttpGetRequestLen (buf : List UInt8) : Int := requestLenLoop buf buf.length 0

/-- `skiptorn`: the bytes before the line end, and what comes behind it; `some none` for `NULL`. -/
def skiptorn (s : List UInt8) : Option (Option (List UInt8 × List UInt8)) :=
  let v := s.takeWhile fun c => c ≠ 10 && c ≠ 13
  match s.dropWhile fun c => c ≠ 10 && c ≠ 13 with
  | [] => some none
  | c :: s =>
    if c = 13 then
      match s with
      | [] => none
      | d :: s => if d ≠ 10 then some none else some (some (v, s))
    else some (some (v, s))

/-- `struct mg_http_header`. -/
structure MgHttpHeader where
  name : List UInt8
  value : List UInt8
  deriving DecidableEq, Repr

/-- Without the blanks at the end. -/
def trimEnd (v : List UInt8) : List UInt8 := (v.reverse.dropWhile isBlank).reverse

/-- `s[0] == '\n' || (s[0] == '\r' && s[1] == '\n')`. -/
def atBlankLine : List UInt8 → Option Bool
  | [] => none
  | c :: s => if c = 10 then some true else if c = 13 then s.head?.map (· = 10) else some false

/-- `mg_http_parse_headers`, for `max` headers more: the headers, or `some none` where it returns
false. -/
def mgHttpParseHeaders : (max : Nat) → List UInt8 → Option (Option (List MgHttpHeader))
  | 0, _ => some (some [])
  | max + 1, s =>
    if s = [] then some none
    else do
      if ← atBlankLine s then return some []
      else
        let len := clenLoop (· = 58) s.length s
        match s.drop len with
        | [] => return none
        | c :: rest =>
          if len = 0 then return none
          else if clen (c :: rest) = 0 then return none
          else if c ≠ 58 then return none
          else
            match ← skiptorn (rest.dropWhile isBlank) with
            | none => return none
            | some (v, rest) =>
              let headers ← mgHttpParseHeaders max rest
              return headers.map (⟨s.take len, trimEnd v⟩ :: ·)

/-- `struct mg_http_message`. -/
structure MgHttpRequest extends MgHttpMessage where
  query : List UInt8
  proto : List UInt8
  headers : List MgHttpHeader
  isResponse : Bool
  headLen : Nat
  bodyLen : Nat
  messageLen : Nat
  deriving DecidableEq, Repr

/-- `mg_http_get_header`. -/
def mgHttpGetHeader (headers : List MgHttpHeader) (name : List UInt8) : Option (List UInt8) :=
  (headers.find? fun h => h.name.length = name.length && mgStrcasecmp h.name name).map (·.value)

/-- What `mg_http_parse` returns: a negative number, 0, or the length of the head. -/
inductive MgParsed where
  | error
  | incomplete
  | message (hm : MgHttpRequest)
  deriving DecidableEq, Repr

/-- `hm->proto` is `HTTP/d.d`. -/
def isHttpVersion (proto : List UInt8) : Option Bool := do
  if proto.length = 8 then
    if ← mgNcasecmp proto (str "HTTP/") 5 then
      let digit (i : Nat) : Bool := (proto[i]?).any fun c => 48 ≤ c && c ≤ 57
      return digit 5 && proto[6]? = some 46 && digit 7
    else return false
  else return false

/-- `is_response` in `mg_http_parse`. -/
def isResponseMethod (method : List UInt8) : Option Bool :=
  if method.length > 5 then mgNcasecmp method (str "HTTP/") 5 else some false

/-- `hm->body.len` and `hm->message.len` behind a head of `reqLen` bytes; `none` for an error. -/
def messageLengths (headers : List MgHttpHeader) (uri : List UInt8) (isResponse : Bool)
    (reqLen : Nat) : Option (Nat × Nat) :=
  let isEmptyBody := !isResponse || mgStrcasecmp uri (str "204")
  match mgHttpGetHeader headers (str "Content-Length") with
  | none => if isEmptyBody then some (0, reqLen) else some (SIZE_MAX, SIZE_MAX)
  | some cl => do
    let bodyLen ← mgToSizeT cl
    -- an announced length of `SIZE_MAX` looks like none
    if bodyLen = SIZE_MAX && isEmptyBody then return (0, reqLen)
    else
      let messageLen := (reqLen + bodyLen) % 2 ^ 64
      if messageLen < reqLen then none else return (bodyLen, messageLen)

/-- `mg_http_parse` on a head of `head.length` bytes. -/
def mgHttpParseHead (head : List UInt8) : Option MgParsed := do
  let method := head.take (clenLoop (fun _ => false) head.length head)
  let s := (head.drop method.length).dropWhile (· = 32)
  let uri := s.take (clenLoop (fun _ => false) s.length s)
  let s := (s.drop uri.length).dropWhile (· = 32)
  let isResponse ← isResponseMethod method
  match ← skiptorn s with
  -- the source says `return false`, which is the 0 of an incomplete request
  | none => return .incomplete
  | some (proto, s) =>
    let isVersion ← isHttpVersion proto
    if !isResponse && proto ≠ [] && !isVersion then return .error
    else
      let query := (uri.dropWhile (· ≠ 63)).drop 1
      let uri := uri.takeWhile (· ≠ 63)
      if method = [] || uri = [] then return .error
      else match ← mgHttpParseHeaders MG_MAX_HTTP_HEADERS s with
      | none => return .error
      | some headers =>
        match messageLengths headers uri isResponse head.length with
        | none => return .error
        | some (bodyLen, messageLen) =>
          return .message { method, uri, query, proto, headers, isResponse, bodyLen, messageLen,
                            headLen := head.length }

/-- `mg_http_parse`. -/
def mgHttpParse (s : List UInt8) : Option MgParsed :=
  let reqLen := mgHttpGetRequestLen s
  if reqLen < 0 then some .error
  else if reqLen = 0 then some .incomplete
  else mgHttpParseHead (s.take reqLen.toNat)

/-! ## 3. Chunks -/

/-- `is_hex_digit`. -/
def isHexDigit (c : UInt8) : Bool :=
  (48 ≤ c && c ≤ 57) || (97 ≤ c && c ≤ 102) || (65 ≤ c && c ≤ 70)

/-- The value of a hexadecimal digit in `mg_str_to_num`. -/
def hexDigit (c : UInt8) : Nat :=
  if c ≤ 57 then c.toNat - 48 else if c ≤ 70 then c.toNat - 55 else c.toNat - 87

/-- What `skip_chunk` returns: 0, a negative number, or the length of a chunk with its prefix, and
the prefix and the data it finds. -/
inductive SkipChunk where
  | wait
  | invalid
  | chunk (length pl dl : Nat)
  deriving DecidableEq, Repr

/-- `skip_chunk` on `buf.length` bytes.  `buf[i + 1]` is read when `len` is `i + 1`. -/
def skipChunk (buf : List UInt8) : Option SkipChunk :=
  let len := buf.length
  let i := (buf.takeWhile isHexDigit).length
  if len < 3 then some .wait
  else if i = 0 then some .invalid
  else if 8 < i then some .invalid
  else if len < i + 1 then some .invalid
  else if buf[i]? ≠ some 13 then some .invalid
  else do
    if (← buf[i + 1]?) ≠ 10 then return .invalid
    else
      -- of eight digits at most there is no overflow, but the `int` may be negative
      let n := (buf.take i).foldl (fun n c => n * 16 + hexDigit c) 0
      if 2 ^ 31 ≤ n then return .invalid
      else if len < i + n + 4 then return .wait
      else if buf[i + n + 2]? ≠ some 13 || buf[i + n + 3]? ≠ some 10 then return .invalid
      else return .chunk (i + 2 + n + 2) (i + 2) n

/-- What the two passes over the chunks come to. -/
inductive Dechunked where
  | wait
  | invalid
  | done (consumed : Nat) (body : List UInt8)
  deriving DecidableEq, Repr

/-- Both passes over the chunks from `s + o` on, in `k` rounds at most: the second one moves the
data of a chunk to a place in front of it, which neither pass reads again. -/
def dechunk (s : List UInt8) : (k o : Nat) → (body : List UInt8) → Option Dechunked
  | 0, _, _ => some .wait
  | k + 1, o, body => do
    match ← skipChunk (s.drop o) with
    | .wait => return .wait
    | .invalid => return .invalid
    | .chunk length pl dl =>
      let body := body ++ (s.drop (o + pl)).take dl
      if dl = 0 then return .done (o + length) body
      else dechunk s k (o + length) body

/-! ## 4. A connection -/

/-- A message as the event handler gets it: with the bytes `hm->body` points to. -/
structure MgMessage extends MgHttpRequest where
  body : List UInt8
  deriving DecidableEq, Repr

/-- What `http_cb` does for a message: it replies 411 by itself, or calls the event handler. -/
inductive MgCall where
  | lengthRequired
  | message (hm : MgMessage)
  deriving DecidableEq, Repr

/-- `struct mg_connection` of an accepted connection, as far as `http_cb` uses it.  `is_resp` is
not in it: the event handler replies before it returns, and `mg_http_reply` resets it. -/
structure MgConnection where
  recv : List UInt8 := []
  isDraining : Bool := false
  isClosing : Bool := false
  calls : List MgCall := []
  deriving DecidableEq, Repr

/-- `mg_iobuf_del(&c->recv, 0, ofs)`. -/
def MgConnection.del (c : MgConnection) (ofs : Nat) : MgConnection :=
  { c with recv := c.recv.drop ofs }

/-- `mg_http_status`: `atoi` reads on from the uri in the buffer, up to a byte that is no part of
the number. -/
def mgHttpStatus (buf : List UInt8) (hm : MgHttpRequest) : Option Int :=
  let s := (buf.drop hm.method.length).dropWhile (· = 32)
  let (blanks, sign, digits) := numberParts s
  if (blanks ++ sign ++ digits).length < s.length then some (atoi s).toInt else none

/-- `require_content_len`, for a message without `Transfer-Encoding` and `Content-length`. -/
def requireContentLen (buf : List UInt8) (hm : MgHttpRequest) (isResponse isEntity : Bool) :
    Option Bool :=
  if !isResponse && isEntity then some (hm.bodyLen ≠ 0)
  else if isResponse then do
    let status ← mgHttpStatus buf hm
    return 200 ≤ status && status ≠ 204 && status ≠ 304
  else some false

/-- A `POST` or a `PUT`. -/
def isEntityMethod (method : List UInt8) : Bool :=
  mgStrcasecmp method (str "POST") || mgStrcasecmp method (str "PUT")

/-- `Connection: close`. -/
def asksToClose (hm : MgHttpRequest) : Bool :=
  (mgHttpGetHeader hm.headers (str "Connection")).any (mgStrcasecmp · (str "close"))

/-- The check of `http_cb` for a length, where there is no `Transfer-Encoding`: the connection and
the offset it leaves.  A `POST` or `PUT` without a length is passed over here, and once more
below. -/
def checkContentLength (c : MgConnection) (hm : MgHttpRequest) (ofs : Nat) :
    Option (MgConnection × Nat) :=
  if (mgHttpGetHeader hm.headers (str "Content-length")).isSome then some (c, ofs)
  else do
    let isResponse ← mgNcasecmp (c.recv.drop ofs) (str "HTTP/") 5
    let isEntity := isEntityMethod hm.method
    let c := if ← requireContentLen (c.recv.drop ofs) hm isResponse isEntity then
      { c with calls := c.calls ++ [.lengthRequired] } else c
    return (c, if !isResponse && isEntity then ofs + hm.headLen else ofs)

/-- How a round of the loop of `http_cb` ends: the loop is left, or goes on from an offset. -/
inductive HttpCbRound where
  | leave (c : MgConnection)
  | next (c : MgConnection) (ofs : Nat)
  deriving DecidableEq, Repr

/-- The event handler is called for a message; it replies before it returns. -/
def MgConnection.deliver (c : MgConnection) (hm : MgMessage) (ofs : Nat) : HttpCbRound :=
  let c := { c with calls := c.calls ++ [.message hm] }
  if asksToClose hm.toMgHttpRequest then .leave ({ c with isDraining := true }.del ofs)
  else .next c ofs

/-- The rest of a round for a message in chunks. -/
def chunkedMessage (c : MgConnection) (hm : MgHttpRequest) (ofs : Nat) : Option HttpCbRound := do
  let buf := c.recv.drop ofs
  match ← dechunk (buf.drop hm.headLen) buf.length 0 [] with
  | .wait => return .leave (c.del ofs)
  | .invalid => return .leave ({ c with isClosing := true }.del ofs)
  | .done o body =>
    let hm := { hm with bodyLen := body.length, messageLen := hm.headLen + body.length }
    return c.deliver ⟨hm, body⟩ (ofs + (hm.headLen + o))

/-- The rest of a round for any other message. -/
def plainMessage (c : MgConnection) (hm : MgHttpRequest) (ofs : Nat) : Option HttpCbRound := do
  let body := ((c.recv.drop ofs).drop hm.headLen).take hm.bodyLen
  let (c, ofs) ← checkContentLength c hm ofs
  -- `ofs` may already have got past the end
  if sizeSub c.recv.length (ofs + hm.headLen) < hm.bodyLen then return .leave (c.del ofs)
  else return c.deliver ⟨hm, body⟩ (ofs + (hm.headLen + hm.bodyLen))

/-- A round of the loop of `http_cb`, from offset `ofs` on. -/
def httpCbRound (isClose : Bool) (c : MgConnection) (ofs : Nat) : Option HttpCbRound := do
  match ← mgHttpParse (c.recv.drop ofs) with
  | .error => return .leave { c with isDraining := true, recv := [] }
  | .incomplete => return .leave (c.del ofs)
  | .message hm =>
    -- at `MG_EV_CLOSE` what has come is the message
    let len := c.recv.length - ofs
    let hm := if isClose then { hm with messageLen := len, bodyLen := len - hm.headLen } else hm
    match mgHttpGetHeader hm.headers (str "Transfer-Encoding") with
    | some te =>
      if mgStrcasecmp te (str "chunked") then chunkedMessage c hm ofs
      else return .leave { c with isClosing := true }
    | none => plainMessage c hm ofs

/-- The loop of `http_cb` from offset `ofs` on, in `k` rounds at most. -/
def httpCbLoop (isClose : Bool) : (k : Nat) → (c : MgConnection) → (ofs : Nat) →
    Option MgConnection
  | 0, c, ofs => some (c.del ofs)
  | k + 1, c, ofs =>
    if c.recv.length ≤ ofs then some (c.del ofs)
    else do
      match ← httpCbRound isClose c ofs with
      | .leave c => return c
      | .next c ofs => httpCbLoop isClose k c ofs

/-- `http_cb` at `MG_EV_READ`, when these bytes have come, or at `MG_EV_CLOSE`. -/
def httpCb (isClose : Bool) (c : MgConnection) (bytes : List UInt8) : Option MgConnection :=
  let c := { c with recv := c.recv ++ bytes }
  httpCbLoop isClose c.recv.length c 0

/-- `MG_MAX_RECV_SIZE`. -/
def MG_MAX_RECV_SIZE : Nat := 3 * 1024 * 1024

/-- `read_conn`, when `recv_raw` gets these bytes; `ioalloc` reports an error when too many were
left over. -/
def readConn (c : MgConnection) (bytes : List UInt8) : Option MgConnection :=
  if MG_MAX_RECV_SIZE ≤ c.recv.length then some { c with isClosing := true }
  else httpCb false c bytes

/-! ## 5. Replies -/

/-- `mg_http_status_code_str`. -/
def mgHttpStatusCodeStr : Nat → String
  | 100 => "Continue"
  | 101 => "Switching Protocols"
  | 102 => "Processing"
  | 200 => "OK"
  | 201 => "Created"
  | 202 => "Accepted"
  | 203 => "Non-authoritative Information"
  | 204 => "No Content"
  | 205 => "Reset Content"
  | 206 => "Partial Content"
  | 207 => "Multi-Status"
  | 208 => "Already Reported"
  | 226 => "IM Used"
  | 300 => "Multiple Choices"
  | 301 => "Moved Permanently"
  | 302 => "Found"
  | 303 => "See Other"
  | 304 => "Not Modified"
  | 305 => "Use Proxy"
  | 307 => "Temporary Redirect"
  | 308 => "Permanent Redirect"
  | 400 => "Bad Request"
  | 401 => "Unauthorized"
  | 402 => "Payment Required"
  | 403 => "Forbidden"
  | 404 => "Not Found"
  | 405 => "Method Not Allowed"
  | 406 => "Not Acceptable"
  | 407 => "Proxy Authentication Required"
  | 408 => "Request Timeout"
  | 409 => "Conflict"
  | 410 => "Gone"
  | 411 => "Length Required"
  | 412 => "Precondition Failed"
  | 413 => "Payload Too Large"
  | 414 => "Request-URI Too Long"
  | 415 => "Unsupported Media Type"
  | 416 => "Requested Range Not Satisfiable"
  | 417 => "Expectation Failed"
  | 418 => "I'm a teapot"
  | 421 => "Misdirected Request"
  | 422 => "Unprocessable Entity"
  | 423 => "Locked"
  | 424 => "Failed Dependency"
  | 426 => "Upgrade Required"
  | 428 => "Precondition Required"
  | 429 => "Too Many Requests"
  | 431 => "Request Header Fields Too Large"
  | 444 => "Connection Closed Without Response"
  | 451 => "Unavailable For Legal Reasons"
  | 499 => "Client Closed Request"
  | 500 => "Internal Server Error"
  | 501 => "Not Implemented"
  | 502 => "Bad Gateway"
  | 503 => "Service Unavailable"
  | 504 => "Gateway Timeout"
  | 505 => "HTTP Version Not Supported"
  | 506 => "Variant Also Negotiates"
  | 507 => "Insufficient Storage"
  | 508 => "Loop Detected"
  | 510 => "Not Extended"
  | 511 => "Network Authentication Required"
  | 599 => "Network Connect Timeout Error"
  | _ => ""

/-- Bytes are stored over others. -/
def overwrite (buf : List UInt8) (at_ : Nat) (bytes : List UInt8) : List UInt8 :=
  buf.take at_ ++ bytes ++ buf.drop (at_ + bytes.length)

/-- `mg_http_reply` with the format `"%s"`, on the bytes to send: the body's length is printed over
blanks that were left for it. -/
def mgHttpReply (send : List UInt8) (r : MgHttpReply) : List UInt8 :=
  let send := send ++ (str "HTTP/1.1 " ++ decimal r.code ++ str " " ++
    str (mgHttpStatusCodeStr r.code) ++ str "\r\n" ++ r.headers ++
    str "Content-Length:            \r\n\r\n")
  let len := send.length
  let send := send ++ r.body
  if 16 < send.length then
    -- `mg_snprintf(.., 11, "%-10lu", ..)`, with its NUL
    let digits := decimal (send.length - len)
    let printed := digits ++ List.replicate (10 - digits.length) 32
    let send := overwrite send (len - 15) (snprintf 11 printed ++ [0])
    overwrite send (len - 15 + printed.length) [32]
  else send

/-- The bytes to send, and those that were sent. -/
structure MgSending where
  send : List UInt8 := []
  sent : List UInt8 := []
  deriving DecidableEq, Repr

/-- What becomes of the bytes to send: a reply is added to them, or `write_conn` sends some. -/
inductive MgSendStep where
  | reply (r : MgHttpReply)
  | write (n : Nat)

/-- `mg_http_reply`, or `write_conn` when `mg_io_send` takes `n` bytes. -/
def MgSending.step (s : MgSending) : MgSendStep → MgSending
  | .reply r => { s with send := mgHttpReply s.send r }
  | .write n => { send := s.send.drop n, sent := s.sent ++ s.send.take n }

end WhatIsHappening
