/-
# The response of the dumb backend

`handle_connection` prints its response into a buffer of 8192 bytes with `snprintf` and passes the
length that `snprintf` returns to `send`.  That is the length of the whole text, also where only the
first 8191 bytes of it were stored.  `response_framed_iff` says which responses are sent as they
are announced.
-/
import WhatIsHappening.Exposition.Buffer
import WhatIsHappening.HttpServer.Dumb

namespace WhatIsHappening

open Interleaving Prog CLib FormatterBuffer

/-! ## 1. Messages -/

/-- The status line and the header lines of a response. -/
def messageHead (resp : HttpResponse) : List (List UInt8) :=
  [str "HTTP/1.1 " ++ decimal resp.statusCode ++ str " " ++ str resp.statusText,
    str "Content-Type: text/plain; version=0.0.4",
    str "Content-Length: " ++ decimal resp.body.length,
    str "Connection: close"]

/-- The response on the wire. -/
def responseMessage (resp : HttpResponse) : List UInt8 :=
  (messageHead resp).flatMap (· ++ str "\r\n") ++ str "\r\n" ++ resp.body

/-- The body a client finds in what it receives, behind the first blank line. -/
def receivedBody (sent : List UInt8) : Option (List UInt8) :=
  (strstr sent (str "\r\n\r\n")).map fun i => sent.drop (i + 4)

/-- The length a client is told. -/
def announcedLength (sent : List UInt8) : Option Nat :=
  (strstr sent (str "\r\nContent-Length: ")).map fun i =>
    digitsValue ((sent.drop (i + 18)).takeWhile isDigit)

/-- The bytes `sent` are a response of the dumb backend as it should be: the status line, the header
lines and the whole body; as many bytes behind the blank line as `Content-Length` says; and none
that `snprintf` did not write. -/
structure Framed (resp : HttpResponse) (sent : List UInt8) : Prop where
  whole : sent = responseMessage resp
  announced : ∃ body, receivedBody sent = some body ∧ announcedLength sent = some body.length
  written : sent.length ≤ (snprintf DUMB_HTTP_BUFFER_SIZE (responseText resp)).length + 1

/-! ## 2. What a client reads -/

section Client

variable {resp : HttpResponse}

/-- Between two header lines there is no blank line. -/
theorem strstr_blankLine_skip {l rest : List UInt8} {x : UInt8} (hl : 13 ∉ l) (hx : x ≠ 13) :
    strstr (l ++ 13 :: 10 :: x :: rest) (str "\r\n\r\n") =
      (strstr (x :: rest) (str "\r\n\r\n")).map (· + (l.length + 2)) := by
  have hreturn : ¬ [13, 10, 13, 10] <+: 13 :: 10 :: x :: rest := by simp [Ne.symm hx]
  have hfeed : ¬ [13, 10, 13, 10] <+: 10 :: x :: rest := by simp
  rw [show str "\r\n\r\n" = 13 :: [10, 13, 10] from by decide, strstr_skip hl, strstr,
    if_neg hreturn, strstr, if_neg hfeed, Option.map_map, Option.map_map]
  congr 1
  funext i
  simp
  omega

/-- Header lines end at the blank line. -/
theorem strstr_blankLine (body : List UInt8) : ∀ {lines : List (List UInt8)}, lines ≠ [] →
    (∀ l ∈ lines, l ≠ [] ∧ 13 ∉ l) →
    (strstr (lines.flatMap (· ++ str "\r\n") ++ (str "\r\n" ++ body)) (str "\r\n\r\n")).map
        (· + 4) = some (lines.flatMap (· ++ str "\r\n") ++ str "\r\n").length
  | [l], _, hlines => by
    have htext : [l].flatMap (· ++ str "\r\n") ++ (str "\r\n" ++ body) =
        l ++ (str "\r\n\r\n" ++ body) := by simp [str]
    rw [htext, show str "\r\n\r\n" = 13 :: [10, 13, 10] from by decide,
      strstr_append (hlines l List.mem_cons_self).2]
    simp [str]
  | l :: l' :: lines, _, hlines => by
    have ih := strstr_blankLine body (List.cons_ne_nil l' lines) fun x hx =>
      hlines x (List.mem_cons_of_mem l hx)
    obtain ⟨x, rest, hx, hrest⟩ : ∃ x rest, x ≠ 13 ∧
        (l' :: lines).flatMap (· ++ str "\r\n") ++ (str "\r\n" ++ body) = x :: rest := by
      obtain ⟨hne, hreturn⟩ := hlines l' (by simp)
      obtain ⟨x, l', rfl⟩ := List.exists_cons_of_ne_nil hne
      refine ⟨x, _, fun h => hreturn (by simp [h]), rfl⟩
    have htext : (l :: l' :: lines).flatMap (· ++ str "\r\n") ++ (str "\r\n" ++ body) =
        l ++ 13 :: 10 :: x :: rest := by
      rw [← hrest, List.flatMap_cons]
      simp [str]
    have hlength : ((l :: l' :: lines).flatMap (· ++ str "\r\n") ++ str "\r\n").length =
        ((l' :: lines).flatMap (· ++ str "\r\n") ++ str "\r\n").length + (l.length + 2) := by
      rw [List.flatMap_cons]
      simp [str]
      omega
    rw [htext, strstr_blankLine_skip (hlines l List.mem_cons_self).2 hx, ← hrest, hlength,
      Option.map_map]
    rw [Option.map_eq_some_iff] at ih ⊢
    obtain ⟨i, hi, heq⟩ := ih
    exact ⟨i, hi, by simp only [Function.comp_apply]; omega⟩

theorem isDigit_decimal (n : Nat) : ∀ b ∈ decimal n, isDigit b = true := by
  have hall : ∀ d < 10, isDigit (digitByte d) = true := by decide
  intro b hb
  unfold decimal at hb
  split at hb
  · rw [List.mem_singleton.mp hb]
    rfl
  · simp only [List.map_reverse, List.mem_reverse, List.mem_map] at hb
    obtain ⟨d, hd, rfl⟩ := hb
    exact hall d (Nat.digits_lt_base (by decide) hd)

theorem digitsValue_decimal (n : Nat) : digitsValue (decimal n) = n := by
  rw [digitsValue_eq, ofDigits_decimal]

theorem statusText_plain (code : Nat) (body : List UInt8) :
    ∀ b ∈ str (pwhHttpResponseSetText code body).statusText, b ≠ 0 ∧ b ≠ 13 := by
  unfold pwhHttpResponseSetText
  dsimp only
  split <;> decide +kernel

/-- Header lines are not empty, and have neither NULs nor carriage returns. -/
theorem messageHead_plain (code : Nat) (body : List UInt8) :
    ∀ l ∈ messageHead (pwhHttpResponseSetText code body), l ≠ [] ∧ ∀ b ∈ l, b ≠ 0 ∧ b ≠ 13 := by
  have hdecimal : ∀ n, ∀ b ∈ decimal n, b ≠ 0 ∧ b ≠ 13 := by
    intro n b hb
    have hdigit := isDigit_decimal n b hb
    constructor <;> rintro rfl <;> exact absurd hdigit (by decide)
  have hlit : ∀ s ∈ ["HTTP/1.1 ", " ", "Content-Type: text/plain; version=0.0.4",
      "Content-Length: ", "Connection: close"], ∀ b ∈ str s, b ≠ 0 ∧ b ≠ 13 := by decide +kernel
  intro l hl
  simp only [messageHead, List.mem_cons, List.not_mem_nil, or_false] at hl
  rcases hl with rfl | rfl | rfl | rfl
  · refine ⟨by simp [str], fun b hb => ?_⟩
    simp only [List.mem_append] at hb
    rcases hb with ((hb | hb) | hb) | hb
    · exact hlit _ (by simp) b hb
    · exact hdecimal _ b hb
    · exact hlit _ (by simp) b hb
    · exact statusText_plain code body b hb
  · exact ⟨by decide, hlit _ (by simp)⟩
  · refine ⟨by simp [str], fun b hb => ?_⟩
    rcases List.mem_append.mp hb with hb | hb
    · exact hlit _ (by simp) b hb
    · exact hdecimal _ b hb
  · exact ⟨by decide, hlit _ (by simp)⟩

/-- A client finds the body of a whole message. -/
theorem receivedBody_message (code : Nat) (body : List UInt8) :
    receivedBody (responseMessage (pwhHttpResponseSetText code body)) = some body := by
  have hlines : ∀ l ∈ messageHead (pwhHttpResponseSetText code body), l ≠ [] ∧ 13 ∉ l := by
    intro l hl
    obtain ⟨hne, hplain⟩ := messageHead_plain code body l hl
    exact ⟨hne, fun h => (hplain 13 h).2 rfl⟩
  have hblank := strstr_blankLine body (by simp [messageHead]) hlines
  rw [← List.append_assoc, Option.map_eq_some_iff] at hblank
  obtain ⟨i, hi, hlength⟩ := hblank
  change strstr (responseMessage (pwhHttpResponseSetText code body)) _ = some i at hi
  rw [receivedBody, hi, Option.map_some, hlength, responseMessage]
  exact congrArg some List.drop_left

/-- A client reads the length of the body from a whole message. -/
theorem announcedLength_message (code : Nat) (body : List UInt8) :
    announcedLength (responseMessage (pwhHttpResponseSetText code body)) = some body.length := by
  obtain ⟨line, rest, hline, hmessage⟩ : ∃ line rest, 13 ∉ line ∧
      responseMessage (pwhHttpResponseSetText code body) =
        line ++ 13 :: (str "\nContent-Type: text/plain; version=0.0.4" ++
          (str "\r\nContent-Length: " ++ (decimal body.length ++ 13 :: rest))) := by
    refine ⟨_, str "\nConnection: close\r\n\r\n" ++ body, fun h =>
      ((messageHead_plain code body _ List.mem_cons_self).2 13 h).2 rfl, ?_⟩
    simp [responseMessage, messageHead, str, pwhHttpResponseSetText]
  have hother : ¬ 13 :: str "\nContent-Length: " <+:
      13 :: (str "\nContent-Type: text/plain; version=0.0.4" ++
        (13 :: str "\nContent-Length: " ++ (decimal body.length ++ 13 :: rest))) := by
    rintro ⟨tail, htail⟩
    simp [str] at htail
  have hfound : strstr (responseMessage (pwhHttpResponseSetText code body))
      (str "\r\nContent-Length: ") = some (line.length + 41) := by
    rw [hmessage, show str "\r\nContent-Length: " = 13 :: str "\nContent-Length: " from by decide,
      strstr_skip hline, strstr, if_neg hother, strstr_append (by decide), Option.map_some,
      Option.map_some]
    congr 1
    rw [Nat.add_comm]
    rfl
  have hdrop : (responseMessage (pwhHttpResponseSetText code body)).drop (line.length + 41 + 18) =
      decimal body.length ++ 13 :: rest := by
    have happend : responseMessage (pwhHttpResponseSetText code body) =
        (line ++ 13 :: str "\nContent-Type: text/plain; version=0.0.4" ++
          str "\r\nContent-Length: ") ++ (decimal body.length ++ 13 :: rest) := by
      rw [hmessage]
      simp only [List.append_assoc, List.cons_append]
    rw [happend]
    refine List.drop_left' ?_
    simp [str]
  rw [announcedLength, hfound, Option.map_some, hdrop,
    List.takeWhile_append_of_pos (isDigit_decimal _), List.takeWhile_cons_of_neg (by decide),
    List.append_nil, digitsValue_decimal]

end Client

/-! ## 3. What is sent -/

section Sent

variable {D : Type} {handlerFn : Option (HttpRequestHandlerFn D)} {memory : Nat → UInt8}
  {received : List UInt8} {resp : HttpResponse} {sent : List UInt8}

theorem handleConnection_sends
    (h : (handleConnection handlerFn memory received).Returns (some (resp, sent))) :
    sent = sentBytes memory (responseText resp) := by
  unfold handleConnection at h
  split at h
  · cases h
  · split at h
    · cases h
    · obtain ⟨resp', -, hsent⟩ := returns_bind.mp h
      cases hsent
      rfl

theorem handleConnection_returns {req : RequestLine} (hreceived : received ≠ [])
    (hreq : parseRequest (received.takeWhile (· ≠ 0)) = some req)
    (hresp : (callHandler handlerFn req.toHttpRequest).Returns resp) :
    (handleConnection handlerFn memory received).Returns
      (some (resp, sentBytes memory (responseText resp))) := by
  rw [handleConnection, if_neg hreceived, hreq]
  exact returns_bind.mpr ⟨resp, hresp, rfl⟩

/-- A text that fits is sent as it is. -/
theorem sentBytes_fits {text : List UInt8} (h : text.length < DUMB_HTTP_BUFFER_SIZE) :
    sentBytes memory text = text := by
  refine List.ext_getElem (by simp [sentBytes]) fun k hk hk' => ?_
  have hstored : vsnprintf memory 0 DUMB_HTTP_BUFFER_SIZE text (0 + k) = text.getD k 0 :=
    vsnprintf_fits h hk'
  rw [Nat.zero_add] at hstored
  simp only [sentBytes, List.getElem_map, List.getElem_range, hstored]
  exact List.getD_eq_getElem text 0 hk'

/-- Of a text that does not fit, the NUL that `snprintf` wrote is sent. -/
theorem nul_mem_sentBytes {text : List UInt8} (h : DUMB_HTTP_BUFFER_SIZE ≤ text.length) :
    0 ∈ sentBytes memory text := by
  have hlength : (text.take (DUMB_HTTP_BUFFER_SIZE - 1)).length = DUMB_HTTP_BUFFER_SIZE - 1 := by
    rw [List.length_take]
    omega
  refine List.mem_map.mpr ⟨DUMB_HTTP_BUFFER_SIZE - 1, List.mem_range.mpr ?_, ?_⟩
  · rw [DUMB_HTTP_BUFFER_SIZE] at *
    omega
  · simp only [vsnprintf, hlength]
    simp [DUMB_HTTP_BUFFER_SIZE]

end Sent

/-! ## 4. When it is framed -/

/-- The length of the status line and the headers, with the blank line. -/
def headLength (resp : HttpResponse) : Nat :=
  92 + (decimal resp.statusCode).length + (str resp.statusText).length +
    (decimal resp.body.length).length

theorem length_responseMessage (resp : HttpResponse) :
    (responseMessage resp).length = headLength resp + resp.body.length := by
  simp [responseMessage, messageHead, headLength, str]
  omega

theorem responseMessage_nul {code : Nat} {body : List UInt8} (hbody : 0 ∉ body) :
    0 ∉ responseMessage (pwhHttpResponseSetText code body) := by
  intro h
  simp only [responseMessage, List.mem_append, List.mem_flatMap] at h
  rcases h with (⟨l, hl, h | h⟩ | h) | h
  · exact ((messageHead_plain code body l hl).2 0 h).1 rfl
  · exact absurd h (by decide)
  · exact absurd h (by decide)
  · exact hbody h

/-- A status code from 2^31 on is printed with a minus sign. -/
theorem responseText_eq_iff {status : UInt32} {body : List UInt8} :
    responseText (pwhHttpResponseSetText status.toNat body) =
      responseMessage (pwhHttpResponseSetText status.toNat body) ↔ status.toNat < 2 ^ 31 := by
  obtain ⟨rest, htext, hmessage⟩ : ∃ rest,
      responseText (pwhHttpResponseSetText status.toNat body) =
        str "HTTP/1.1 " ++ (decimalInt status.toInt32.toInt ++ rest) ∧
      responseMessage (pwhHttpResponseSetText status.toNat body) =
        str "HTTP/1.1 " ++ (decimal status.toNat ++ rest) := by
    refine ⟨str " " ++ (str (pwhHttpResponseSetText status.toNat body).statusText ++
      str "\r\nContent-Type: text/plain; version=0.0.4\r\nContent-Length: " ++
      (decimal body.length ++ (str "\r\nConnection: close\r\n\r\n" ++ body))), ?_, ?_⟩
    · simp [responseText, str, pwhHttpResponseSetText]
    · simp [responseMessage, messageHead, str, pwhHttpResponseSetText]
  rw [htext, hmessage, List.append_cancel_left_eq, List.append_cancel_right_eq,
    decimalInt_toInt32_iff]

theorem framed_iff {status : UInt32} {body : List UInt8} (hbody : 0 ∉ body)
    (memory : Nat → UInt8) :
    Framed (pwhHttpResponseSetText status.toNat body)
        (sentBytes memory (responseText (pwhHttpResponseSetText status.toNat body))) ↔
      status.toNat < 2 ^ 31 ∧ headLength (pwhHttpResponseSetText status.toNat body) + body.length <
        DUMB_HTTP_BUFFER_SIZE := by
  have hlength := length_responseMessage (pwhHttpResponseSetText status.toNat body)
  constructor
  · intro h
    have hfits : (responseText (pwhHttpResponseSetText status.toNat body)).length <
        DUMB_HTTP_BUFFER_SIZE := by
      by_contra hlong
      refine responseMessage_nul hbody (h.whole ▸ nul_mem_sentBytes (Nat.not_lt.mp hlong))
    have htext := h.whole
    rw [sentBytes_fits hfits] at htext
    rw [htext, hlength] at hfits
    exact ⟨responseText_eq_iff.mp htext, hfits⟩
  · rintro ⟨hstatus, hfits⟩
    have htext : responseText (pwhHttpResponseSetText status.toNat body) = _ :=
      responseText_eq_iff.mpr hstatus
    have hsent : sentBytes memory (responseText (pwhHttpResponseSetText status.toNat body)) =
        responseMessage (pwhHttpResponseSetText status.toNat body) := by
      rw [htext]
      exact sentBytes_fits (by rw [hlength]; exact hfits)
    rw [hsent]
    refine ⟨rfl, ⟨body, receivedBody_message _ _, announcedLength_message _ _⟩, ?_⟩
    rw [htext, snprintf_eq_self (by rw [hlength]; exact hfits)]
    exact Nat.le_succ _

section Response

variable {D : Type} {handlerFn : Option (HttpRequestHandlerFn D)} {memory : Nat → UInt8}
  {received : List UInt8}

/-- **A response is framed** exactly when its status code is printed as it is and its text is
shorter than the buffer. -/
theorem response_framed_iff {status : UInt32} {body sent : List UInt8} (hbody : 0 ∉ body)
    (h : (handleConnection handlerFn memory received).Returns
      (some (pwhHttpResponseSetText status.toNat body, sent))) :
    Framed (pwhHttpResponseSetText status.toNat body) sent ↔
      status.toNat < 2 ^ 31 ∧ headLength (pwhHttpResponseSetText status.toNat body) + body.length <
        DUMB_HTTP_BUFFER_SIZE := by
  rw [handleConnection_sends h]
  exact framed_iff hbody memory

end Response

/-! ## 5. Short and long bodies -/

/-- A page of metrics fits up to 8090 bytes. -/
theorem okResponse_fits_iff (body : List UInt8) :
    headLength (pwhHttpResponseSetText 200 body) + body.length < DUMB_HTTP_BUFFER_SIZE ↔
      body.length ≤ 8090 := by
  have hhead : headLength (pwhHttpResponseSetText 200 body) =
      97 + (decimal body.length).length := by
    have hcode : (decimal 200).length = 3 := by decide +kernel
    have htext : (str "OK").length = 2 := by decide +kernel
    simp only [headLength, pwhHttpResponseSetText, hcode, htext]
  have hfour : (decimal body.length).length ≤ 4 ↔ body.length < 10 ^ 4 :=
    length_decimal_le_iff (by decide)
  have hthree : (decimal body.length).length ≤ 3 ↔ body.length < 10 ^ 3 :=
    length_decimal_le_iff (by decide)
  rw [hhead, DUMB_HTTP_BUFFER_SIZE]
  omega

/-- The answer to a request without a handler. -/
theorem notFound_framed : ∃ sent, (handleConnection (none : Option (HttpRequestHandlerFn ℚ))
    (fun _ => 0) (str "GET / HTTP/1.1\r\n\r\n")).Returns
      (some (pwhHttpResponseSetText 404 (str "Not Found"), sent)) ∧
    Framed (pwhHttpResponseSetText 404 (str "Not Found")) sent := by
  have hreturns : (handleConnection (none : Option (HttpRequestHandlerFn ℚ)) (fun _ => 0)
      (str "GET / HTTP/1.1\r\n\r\n")).Returns (some (pwhHttpResponseSetText (404 : UInt32).toNat
        (str "Not Found"), sentBytes (fun _ => 0) _)) :=
    handleConnection_returns (by decide) rfl rfl
  exact ⟨_, hreturns, (response_framed_iff (by decide) hreturns).mpr (by decide +kernel)⟩

/-- A body of 8091 bytes is one too many. -/
theorem longBody_not_framed : ¬ ∀ (handlerFn : Option (HttpRequestHandlerFn ℚ))
    (memory : Nat → UInt8) (received : List UInt8) (status : UInt32) (body sent : List UInt8),
    0 ∉ body → (handleConnection handlerFn memory received).Returns
      (some (pwhHttpResponseSetText status.toNat body, sent)) →
    Framed (pwhHttpResponseSetText status.toNat body) sent := by
  intro h
  obtain ⟨body, hlength, hbody⟩ : ∃ body : List UInt8, body.length = 8091 ∧ 0 ∉ body :=
    ⟨List.replicate 8091 120, List.length_replicate, fun hmem =>
      absurd (List.eq_of_mem_replicate hmem) (by decide)⟩
  have hreturns : ∀ resp : HttpResponse, (handleConnection
      (some fun _ => .ret resp : Option (HttpRequestHandlerFn ℚ)) (fun _ => 0)
      (str "GET /metrics HTTP/1.1\r\n\r\n")).Returns
        (some (resp, sentBytes (fun _ => 0) (responseText resp))) :=
    fun resp => handleConnection_returns (by decide) rfl rfl
  have hfits := ((framed_iff hbody _).mp (h _ _ _ 200 body _ hbody (hreturns _))).2
  have hshort := (okResponse_fits_iff body).mp hfits
  omega

end WhatIsHappening
