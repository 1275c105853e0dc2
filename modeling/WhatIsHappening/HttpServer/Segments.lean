/-
# Requests in several segments

`handle_connection` calls `recv` once and parses what that one call gets.  A client's bytes come in
the segments the network makes of them, and a `recv` gets no more than has come.  So the response
depends on where the first segment ends: `same_response_iff` says that it is the one to the whole
request exactly when the first segment holds the whole request line and its line end.
-/
import WhatIsHappening.HttpServer.RequestLine
import WhatIsHappening.HttpServer.Routing

namespace WhatIsHappening

open Interleaving Prog CLib

variable {D : Type}

/-! ## 1. What a client sends -/

namespace WellFormedRequest

variable (m : WellFormedRequest)

/-- The request line without its line end. -/
def line : List UInt8 := m.method ++ 32 :: (m.target ++ 32 :: m.version)

/-- The request on the wire, with a body. -/
def message (body : List UInt8) : List UInt8 := m.bytes ++ body

theorem message_eq (body : List UInt8) :
    m.message body = m.line ++ 13 :: 10 :: (m.rest ++ body) := by
  simp [message, bytes, line, str]

theorem line_plain : ∀ b ∈ m.line, b ≠ 0 ∧ b ≠ 10 := by
  intro b hb
  simp only [line, List.mem_append, List.mem_cons] at hb
  rcases hb with hb | rfl | hb | rfl | hb
  · exact ⟨(ne_of_visible (method_visible b hb)).1, (ne_of_visible (method_visible b hb)).2.1⟩
  · decide
  · exact ⟨(ne_of_visible (m.target_visible b hb)).1, (ne_of_visible (m.target_visible b hb)).2.1⟩
  · decide
  · exact ⟨(ne_of_visible (version_visible b hb)).1, (ne_of_visible (version_visible b hb)).2.1⟩

theorem line_noFeed : 10 ∉ m.line := fun h => (m.line_plain 10 h).2 rfl

end WellFormedRequest

/-- `recv` of at most `n` bytes from a socket to which these segments come: the bytes it gets, and
the segments that stay. -/
def recv (n : Nat) : List (List UInt8) → List UInt8 × List (List UInt8)
  | [] => ([], [])
  | segment :: segments =>
    if segment.length ≤ n then (segment, segments)
    else (segment.take n, segment.drop n :: segments)

/-- `handle_connection` for a client whose bytes come in these segments. -/
def handleSegments (handlerFn : Option (HttpRequestHandlerFn D)) (memory : Nat → UInt8)
    (segments : List (List UInt8)) : PgProg D (Option (HttpResponse × List UInt8)) :=
  handleConnection handlerFn memory (recv (DUMB_HTTP_BUFFER_SIZE - 1) segments).1

/-- Two programs end alike wherever they run: with the same answer, in the same state. -/
def EndAlike {α : Type} (p q : PgProg D α) : Prop :=
  ∀ (σ : Type) (run : (o : Op D) → σ → Option (Res o × σ)) (s : σ),
    p.outcome run s = q.outcome run s

/-! ## 2. What is parsed of a segment -/

/-- Without a line feed there is no line. -/
theorem parseRequest_noFeed {buffer : List UInt8} (h : 10 ∉ buffer) :
    parseRequest buffer = none := by
  have hfeed : ∀ i, ¬ (str "\n") <+: buffer.drop i := by
    rintro i ⟨tail, htail⟩
    refine h (List.mem_of_mem_drop (i := i) ?_)
    rw [← htail]
    exact List.mem_append_left _ (by decide)
  have hreturn : ∀ i, ¬ (str "\r\n") <+: buffer.drop i := by
    rintro i ⟨tail, htail⟩
    refine h (List.mem_of_mem_drop (i := i) ?_)
    rw [← htail]
    exact List.mem_append_left _ (by decide)
  have hnone : ∀ sub : List UInt8, (∀ i, ¬ sub <+: buffer.drop i) → strstr buffer sub = none := by
    intro sub hsub
    cases hfound : strstr buffer sub with
    | none => rfl
    | some i => exact absurd (strstr_eq_some_iff.mp hfound).2.1 (hsub i)
  rw [parseRequest, hnone _ hreturn, hnone _ hfeed]
  rfl

/-- A line that ends in `\r\n` is all that is parsed, whatever comes behind it. -/
theorem parseRequest_line {line : List UInt8} (h : 10 ∉ line) (rest : List UInt8) :
    parseRequest (line ++ 13 :: 10 :: rest) = splitLine line := by
  have hnone : NoReturnFeed line := fun j _ hfeed => h (List.mem_of_getElem? hfeed)
  rw [parseRequest_eq (lineEnd_eq hnone), List.take_left]

section Segment

variable {handlerFn : Option (HttpRequestHandlerFn D)} {memory : Nat → UInt8}
  {m : WellFormedRequest}

/-- Whatever comes behind the request line, the connection is handled alike. -/
theorem handleConnection_line (rest rest' : List UInt8) :
    handleConnection handlerFn memory (m.line ++ 13 :: 10 :: rest) =
      handleConnection handlerFn memory (m.line ++ 13 :: 10 :: rest') := by
  have hshown : ∀ tail : List UInt8, (m.line ++ 13 :: 10 :: tail).takeWhile (· ≠ 0) =
      m.line ++ 13 :: 10 :: tail.takeWhile (· ≠ 0) := by
    intro tail
    have hline : ∀ b ∈ m.line, decide (b ≠ 0) = true := fun b hb =>
      decide_eq_true (m.line_plain b hb).1
    rw [List.takeWhile_append_of_pos hline, List.takeWhile_cons_of_pos rfl,
      List.takeWhile_cons_of_pos rfl]
  have hsome : ∀ tail : List UInt8, m.line ++ 13 :: 10 :: tail ≠ [] := by simp
  rw [handleConnection, handleConnection, if_neg (hsome rest), if_neg (hsome rest'), hshown,
    hshown, parseRequest_line m.line_noFeed, parseRequest_line m.line_noFeed]

/-- A segment without a line feed closes the connection. -/
theorem handleConnection_noFeed {received : List UInt8} (h : 10 ∉ received) :
    handleConnection handlerFn memory received = .ret none := by
  have hshown : 10 ∉ received.takeWhile (· ≠ 0) := fun hmem =>
    h ((List.takeWhile_prefix _).mem hmem)
  rw [handleConnection, parseRequest_noFeed hshown]
  split <;> rfl

variable (handlerFn memory m) in
/-- To a whole request line a response is sent, if the handler makes one. -/
theorem handleConnection_answers (rest : List UInt8) :
    ∃ (req : HttpRequest) (send : HttpResponse → HttpResponse × List UInt8),
      handleConnection handlerFn memory (m.line ++ 13 :: 10 :: rest) =
        callHandler handlerFn req >>= fun resp => .ret (some (send resp)) := by
  have hspaces : 2 ≤ m.line.count 32 := by
    simp only [WellFormedRequest.line, List.count_append, List.count_cons_self]
    omega
  obtain ⟨req, hreq⟩ := Option.isSome_iff_exists.mp ((splitLine_parses m.line).1.mpr hspaces)
  have hempty : handleConnection handlerFn memory (m.line ++ 13 :: 10 :: rest) =
      handleConnection handlerFn memory (m.line ++ 13 :: 10 :: []) := handleConnection_line _ _
  have hshown : (m.line ++ [13, 10]).takeWhile (· ≠ 0) = m.line ++ 13 :: 10 :: [] := by
    rw [List.takeWhile_eq_self_iff]
    intro b hb
    rcases List.mem_append.mp hb with hb | hb
    · exact decide_eq_true (m.line_plain b hb).1
    · have hend : ∀ b ∈ [(13 : UInt8), 10], decide (b ≠ 0) = true := by simp
      exact hend b hb
  rw [hempty, handleConnection, if_neg (by simp), hshown, parseRequest_line m.line_noFeed, hreq]
  exact ⟨req.toHttpRequest, _, rfl⟩

end Segment

/-- A program that ends with a value of `some` never ends like one that gives `none`. -/
theorem not_endAlike_none {α β : Type} (p : PgProg D α) (f : α → β) :
    ¬ EndAlike (.ret none) (p >>= fun a => .ret (some (f a))) := by
  intro h
  have hne : ∀ q : PgProg D α, (q >>= fun a => (.ret (some (f a)) : PgProg D (Option β))).outcome
      (fun _ (_ : Unit) => none) () ≠ some (some none, ()) := by
    intro q
    cases q with
    | ret a => simp [outcome]
    | raise => simp [outcome]
    | op o k => simp [outcome]
  exact hne p (h Unit (fun _ _ => none) ()).symm

/-! ## 3. The first segment decides -/

section Response

variable {handlerFn : Option (HttpRequestHandlerFn D)} {memory : Nat → UInt8}
  {m : WellFormedRequest} {body : List UInt8} {segments : List (List UInt8)}

/-- `handle_connection` looks at the first segment only. -/
theorem handleSegments_first (hlength : (m.message body).length < DUMB_HTTP_BUFFER_SIZE)
    (hsplit : segments.flatten = m.message body) :
    handleSegments handlerFn memory segments =
      handleConnection handlerFn memory (segments.headD []) := by
  cases segments with
  | nil => rfl
  | cons segment segments =>
    have hle : segment.length ≤ (m.message body).length := by
      rw [← hsplit, List.flatten_cons, List.length_append]
      exact Nat.le_add_right _ _
    rw [handleSegments, recv, if_pos (by omega)]
    rfl

theorem handleSegments_whole (hlength : (m.message body).length < DUMB_HTTP_BUFFER_SIZE) :
    handleSegments handlerFn memory [m.message body] =
      handleConnection handlerFn memory (m.line ++ 13 :: 10 :: (m.rest ++ body)) := by
  rw [handleSegments_first hlength List.flatten_singleton, ← m.message_eq]
  rfl

/-- A part of a request that ends before the line end has no line feed. -/
theorem noFeed_of_short {first tail : List UInt8} (h : first ++ tail = m.message body)
    (hshort : ¬ m.line ++ str "\r\n" <+: first) : 10 ∉ first := by
  have hmessage : m.line ++ str "\r\n" <+: m.message body :=
    ⟨m.rest ++ body, by simp [m.message_eq, str]⟩
  have hfirst : first <+: m.line ++ str "\r\n" := by
    rcases List.prefix_or_prefix_of_prefix ⟨tail, h⟩ hmessage with hle | hge
    · exact hle
    · exact absurd hge hshort
  have hcut : first <+: m.line ++ [13] := by
    refine List.prefix_of_prefix_length_le hfirst ⟨[10], by simp [str]⟩ ?_
    have hne : first.length ≠ (m.line ++ str "\r\n").length := fun heq =>
      hshort (hfirst.eq_of_length heq ▸ List.prefix_rfl)
    have hle := hfirst.length_le
    simp [str] at hne hle ⊢
    omega
  intro hmem
  rcases List.mem_append.mp (hcut.subset hmem) with hline | hreturn
  · exact m.line_noFeed hline
  · exact absurd hreturn (by decide)

/-- When the line is cut, nothing is sent. -/
theorem not_endAlike_of_short (hlength : (m.message body).length < DUMB_HTTP_BUFFER_SIZE)
    (hsplit : segments.flatten = m.message body)
    (hshort : ¬ m.line ++ str "\r\n" <+: segments.headD []) :
    ¬ EndAlike (handleSegments handlerFn memory segments)
      (handleSegments handlerFn memory [m.message body]) := by
  obtain ⟨tail, htail⟩ : ∃ tail, segments.headD [] ++ tail = m.message body := by
    cases segments with
    | nil => exact ⟨_, rfl⟩
    | cons segment segments => exact ⟨segments.flatten, hsplit⟩
  obtain ⟨req, send, hwhole⟩ := handleConnection_answers handlerFn memory m (m.rest ++ body)
  rw [handleSegments_first hlength hsplit, handleSegments_whole hlength, hwhole,
    handleConnection_noFeed (noFeed_of_short htail hshort)]
  exact not_endAlike_none _ _

/-- **The response is the one to the whole request** exactly when the first segment holds the
request line and its line end. -/
theorem same_response_iff (hlength : (m.message body).length < DUMB_HTTP_BUFFER_SIZE)
    (hsplit : segments.flatten = m.message body) :
    EndAlike (handleSegments handlerFn memory segments)
        (handleSegments handlerFn memory [m.message body]) ↔
      m.line ++ str "\r\n" <+: segments.headD [] := by
  constructor
  · intro halike
    by_contra hshort
    exact not_endAlike_of_short hlength hsplit hshort halike
  · rintro ⟨rest, hrest⟩ σ run s
    have hfirst : segments.headD [] = m.line ++ 13 :: 10 :: rest := by
      rw [← hrest]
      simp [str]
    rw [handleSegments_first hlength hsplit, handleSegments_whole hlength, hfirst,
      handleConnection_line rest (m.rest ++ body)]

end Response

/-! ## 4. A request in two segments -/

/-- The headers come later. -/
theorem lateHeaders_same_response : EndAlike
    (handleSegments (none : Option (HttpRequestHandlerFn ℚ)) (fun _ => 0)
      [str "GET /metrics HTTP/1.1\r\n", str "Host: localhost\r\n\r\n"])
    (handleSegments none (fun _ => 0) [scrapeRequest.message []]) :=
  (same_response_iff (by decide +kernel) (by decide +kernel)).mpr (by decide +kernel)

/-- The target comes in two parts, and the connection is closed. -/
theorem splitTarget_no_response : ¬ ∀ (m : WellFormedRequest) (body : List UInt8)
    (segments : List (List UInt8)) (handlerFn : Option (HttpRequestHandlerFn ℚ))
    (memory : Nat → UInt8), (m.message body).length < DUMB_HTTP_BUFFER_SIZE →
    (∀ segment ∈ segments, segment ≠ []) → segments.flatten = m.message body →
    EndAlike (handleSegments handlerFn memory segments)
      (handleSegments handlerFn memory [m.message body]) := by
  intro h
  have halike := h scrapeRequest []
    [str "GET /met", str "rics HTTP/1.1\r\nHost: localhost\r\n\r\n"] none (fun _ => 0)
    (by decide +kernel) (by decide +kernel) (by decide +kernel)
  exact not_endAlike_of_short (by decide +kernel) (by decide +kernel) (by decide +kernel) halike

end WhatIsHappening
