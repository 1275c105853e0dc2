/-
# Requests and replies on one connection

The bytes a client sends come in pieces of any sizes, and the bytes sent back leave in others, in
between.  `requests_are_answered` says that the client reads one reply for each of its requests, in
the order of the requests, and each reply as the event handler gave it for that request.
-/
import WhatIsHappening.HttpServer.MgReplies

namespace WhatIsHappening

open CLib Framing

/-! ## 1. The connection -/

/-- What `mg_mgr_poll` finds to do on a connection. -/
inductive MgEvent where
  | read (bytes : List UInt8)
  | write (n : Nat)

/-- A connection, and what is sent over it. -/
structure MgConversation where
  conn : MgConnection := {}
  sending : MgSending := {}

/-- The reply to call `k`: the library's own, or what the event handler answers. -/
def replyTo (answer : Nat → MgHttpMessage → ServerReply) : MgCall × Nat → MgHttpReply
  | (.lengthRequired, _) => { code := 411, headers := [], body := [] }
  | (.message hm, k) => (answer k hm.toMgHttpMessage).reply

/-- An event: `read_conn`, with a reply to every new call, or `write_conn`. -/
def MgConversation.step (answer : Nat → MgHttpMessage → ServerReply) (s : MgConversation) :
    MgEvent → Option MgConversation
  | .read bytes => do
    let conn ← readConn s.conn bytes
    let calls := conn.calls.zipIdx.drop s.conn.calls.length
    return { conn, sending := (calls.map (.reply ∘ replyTo answer)).foldl MgSending.step s.sending }
  | .write n => some { s with sending := s.sending.step (.write n) }

/-- The bytes that come in some events. -/
def arrivals (events : List MgEvent) : List (List UInt8) :=
  events.filterMap fun
    | .read bytes => some bytes
    | .write _ => none

/-- The answers to some requests, the first of which is request `k`. -/
def answers (answer : Nat → MgHttpMessage → ServerReply) (requests : List ClientRequest)
    (k : Nat) : List ServerReply :=
  (requests.zipIdx k).map fun rk => answer rk.2 rk.1.request.mgHttpMessage

/-! ## 2. Runs -/

variable (answer : Nat → MgHttpMessage → ServerReply)

theorem answers_append (requests new : List ClientRequest) :
    answers answer (requests ++ new) 0 =
      answers answer requests 0 ++ answers answer new requests.length := by
  simp [answers, List.zipIdx_append]

/-- The new calls are answered as the new requests. -/
theorem repliesOf_new (requests new : List ClientRequest) :
    repliesOf (((((requests ++ new).map fun r => MgCall.message r.message).zipIdx.drop
      (requests.map fun r => MgCall.message r.message).length).map
        (MgSendStep.reply ∘ replyTo answer))) =
      (answers answer new requests.length).map ServerReply.reply := by
  have hnew : ((requests ++ new).map fun r => MgCall.message r.message).zipIdx.drop
      (requests.map fun r => MgCall.message r.message).length =
      (new.map fun r => MgCall.message r.message).zipIdx requests.length := by
    rw [List.map_append, List.zipIdx_append, List.drop_left' (by simp)]
    simp
  rw [hnew, repliesOf, List.filterMap_map, List.zipIdx_map, List.filterMap_map, answers,
    List.map_map]
  exact congrFun List.filterMap_eq_map _

/-- Where a run stands when some requests and a part of one have come. -/
structure Answered (requests : List ClientRequest) (part : List UInt8) (s : MgConversation) :
    Prop where
  conn : s.conn = { recv := part, calls := requests.map fun r => .message r.message }
  stream : s.sending.sent ++ s.sending.send =
    (answers answer requests 0).flatMap ServerReply.bytes

/-- Bytes that go out leave the stream as it is. -/
theorem Answered.write {requests : List ClientRequest} {part : List UInt8} {s : MgConversation}
    (h : Answered answer requests part s) (n : Nat) :
    Answered answer requests part { s with sending := s.sending.step (.write n) } where
  conn := h.conn
  stream := by
    rw [← h.stream]
    simp [MgSending.step]

/-- With what has come in some more bytes, the requests that are complete now are answered. -/
theorem Answered.read {requests new : List ClientRequest} {part part' x : List UInt8}
    {s : MgConversation} (h : Answered answer requests part s)
    (hread : readConn s.conn x =
      some { recv := part', calls := (requests ++ new).map fun r => .message r.message }) :
    ∃ s', s.step answer (.read x) = some s' ∧ Answered answer (requests ++ new) part' s' := by
  have hcalls : s.conn.calls = requests.map fun r => .message r.message := by rw [h.conn]
  refine ⟨_, by rw [MgConversation.step, hread, Option.bind_eq_bind, Option.bind_some]; rfl, rfl,
    ?_⟩
  dsimp only
  rw [hcalls, sent_append_send _ _ s.sending (repliesOf_new answer requests new), h.stream,
    answers_append, List.flatMap_append]

/-- **Step by step.** -/
theorem run_answered (events : List MgEvent) (requests : List ClientRequest) (part : List UInt8)
    (hpart : IsPartial ClientRequest.bytes part)
    (h : (arrivals events).flatten = requests.flatMap ClientRequest.bytes ++ part) :
    ∃ s, events.foldlM (MgConversation.step answer) {} = some s ∧
      Answered answer requests part s := by
  induction events using List.reverseRecOn generalizing requests part with
  | nil =>
    obtain ⟨hrequests, rfl⟩ := List.append_eq_nil_iff.mp h.symm
    obtain rfl : requests = [] := by
      cases requests with
      | nil => rfl
      | cons r requests =>
        rw [List.flatMap_cons, List.append_eq_nil_iff] at hrequests
        exact absurd hrequests.1 r.bytes_ne
    exact ⟨{}, rfl, rfl, rfl⟩
  | append_singleton events event ih =>
    cases event with
    | write n =>
      have hsame : arrivals (events ++ [.write n]) = arrivals events := by simp [arrivals]
      obtain ⟨s, hs, hanswered⟩ := ih requests part hpart (hsame ▸ h)
      refine ⟨_, ?_, hanswered.write answer n⟩
      rw [List.foldlM_append, hs]
      rfl
    | read x =>
      have hmore : arrivals (events ++ [.read x]) = arrivals events ++ [x] := by simp [arrivals]
      rw [hmore] at h
      -- what had come before is some of the requests, and a part of one
      have hbefore : (arrivals events).flatten <+:
          requests.flatMap ClientRequest.bytes ++ part := by
        rw [← h, List.flatten_append]
        exact List.prefix_append _ _
      obtain ⟨requests', part', ⟨new, rfl⟩, hcut, hpart'⟩ := hpart.exists_cut requests _ hbefore
      obtain ⟨s, hs, hanswered⟩ := ih requests' part' hpart' hcut
      have hprev := (foldlM_readConn_requests _ _ _ hpart' hcut).trans
        (foldlM_httpCb_requests hpart' hcut)
      have hrun := (foldlM_readConn_requests _ _ _ hpart h).trans (foldlM_httpCb_requests hpart h)
      rw [List.foldlM_append, hprev] at hrun
      have hread : readConn s.conn x =
          some { recv := part, calls := (requests' ++ new).map fun r => .message r.message } := by
        rw [hanswered.conn]
        simpa using hrun
      obtain ⟨s', hs', hanswered'⟩ := hanswered.read answer hread
      refine ⟨s', ?_, hanswered'⟩
      rw [List.foldlM_append, hs]
      simpa using hs'

/-! ## 3. What the client reads -/

/-- **Every request gets its reply.**  Whenever some requests of a client and a part of the next
one have come, in whatever pieces, and whatever was sent in between, the client reads, in whatever
pieces that comes, the answers to the first of its requests, in the order of the requests, and the
answers to all of them when all was sent and has come. -/
theorem requests_are_answered (events : List MgEvent) (requests : List ClientRequest)
    (part : List UInt8) (hpart : IsPartial ClientRequest.bytes part)
    (h : (arrivals events).flatten = requests.flatMap ClientRequest.bytes ++ part) :
    ∃ s, events.foldlM (MgConversation.step answer) {} = some s ∧
      ∀ pieces : List (List UInt8), pieces.flatten <+: s.sending.sent →
        ∃ read, read <+: answers answer requests 0 ∧
          (pieces.foldl mgReceiver.feed {}).messages.map readReply =
            read.map (fun r => ((r.code : Int), r.body)) ∧
          (s.sending.send = [] → pieces.flatten = s.sending.sent →
            read = answers answer requests 0) := by
  obtain ⟨s, hs, hanswered⟩ := run_answered answer events requests part hpart h
  refine ⟨s, hs, fun pieces hcome => ?_⟩
  obtain ⟨read, hprefix, hread, hall⟩ := read_of_prefix hanswered.stream pieces
    (hcome.trans (List.prefix_append _ _))
  refine ⟨read, hprefix, hread, fun hsend hwhole => hall ?_⟩
  rw [hwhole, hsend, List.append_nil]

/-- Nothing is found, and then there is nothing. -/
def firstNotFound (k : Nat) (_ : MgHttpMessage) : ServerReply :=
  if k = 0 then notFoundReply else okReply

/-- A request and the beginning of another, the end of that, and writes in between. -/
def twoRequests : List MgEvent :=
  [.read (postClient.bytes ++ scrapeClient.bytes.take 20), .write 30,
    .read (scrapeClient.bytes.drop 20), .write 1000]

/-- Both are answered. -/
theorem twoRequests_answered : ∃ s,
    twoRequests.foldlM (MgConversation.step firstNotFound) {} = some s ∧
      ([s.sending.sent].foldl mgReceiver.feed {}).messages.map readReply =
        [(404, str "Not Found"), (200, [])] := by
  obtain ⟨s, hs, hread⟩ := requests_are_answered firstNotFound twoRequests
    [postClient, scrapeClient] [] ⟨scrapeClient, List.nil_prefix, by decide +kernel⟩
    (by decide +kernel)
  have hsend : (twoRequests.foldlM (MgConversation.step firstNotFound) {}).map
      (·.sending.send) = some [] := by decide +kernel
  rw [hs, Option.map_some, Option.some.injEq] at hsend
  obtain ⟨read, -, hmap, hall⟩ := hread [s.sending.sent] (by simp)
  refine ⟨s, hs, ?_⟩
  rw [hmap, hall hsend (by simp)]
  rfl

end WhatIsHappening
