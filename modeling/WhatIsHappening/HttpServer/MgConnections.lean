/-
# Requests on a connection of the vendored library

`http_cb` is called whenever bytes have come, and looks at all that were left over before.  What it
finds at their front does not change with what comes behind, so the messages do not depend on the
pieces the network makes of a stream: `messages_in_any_pieces`.  Requests that a client sends one
behind the other are all handed over, once and in their order: `requests_handed_over`.
-/
import WhatIsHappening.HttpServer.MgParse
import WhatIsHappening.Lib.Framing

namespace WhatIsHappening

open CLib Framing

/-! ## 1. What is found does not change

The end of the head is the first place that looks like one, and the head is parsed by itself, so
bytes that come later cannot change what was found. -/

theorem endsHead_append {b x : List UInt8} {i : Nat} (h : i < b.length) :
    endsHead (b ++ x) i = endsHead b i := by
  have hread : ∀ j ≤ i, (b ++ x)[j]? = b[j]? := fun j hj =>
    List.getElem?_append_left (by omega)
  simp only [endsHead, hread i (Nat.le_refl i), hread (i - 1) (by omega), hread (i - 2) (by omega)]

/-- The end of the head stays where it was found. -/
theorem requestLenLoop_append (b x : List UInt8) :
    ∀ k i l, i + k = b.length → k ≤ l → requestLenLoop b k i ≠ 0 →
      requestLenLoop (b ++ x) l i = requestLenLoop b k i
  | 0, _, _, _, _, h => absurd rfl h
  | k + 1, i, 0, _, hl, _ => absurd hl (by omega)
  | k + 1, i, l + 1, hk, hl, h => by
    have hlt : i < b.length := by omega
    have hread : (b ++ x)[i]? = b[i]? := List.getElem?_append_left hlt
    rw [requestLenLoop] at h ⊢
    rw [requestLenLoop, hread, endsHead_append hlt]
    split
    · rfl
    rename_i hok
    rw [if_neg hok] at h
    split
    · rfl
    rename_i hends
    rw [if_neg hends] at h
    exact requestLenLoop_append b x k (i + 1) l (by omega) (by omega) h

theorem mgHttpGetRequestLen_append {b : List UInt8} (x : List UInt8)
    (h : mgHttpGetRequestLen b ≠ 0) : mgHttpGetRequestLen (b ++ x) = mgHttpGetRequestLen b :=
  requestLenLoop_append b x b.length 0 _ (by omega) (by simp) h

/-- What the parser has found stays. -/
theorem mgHttpParse_stable {b : List UInt8} (x : List UInt8)
    (h : mgHttpParse b ≠ some .incomplete) : mgHttpParse (b ++ x) = mgHttpParse b := by
  have hlen : mgHttpGetRequestLen b ≠ 0 := by
    intro hzero
    exact h (by simp [mgHttpParse, hzero])
  rw [mgHttpParse, mgHttpParse, mgHttpGetRequestLen_append x hlen]
  split
  · rfl
  rename_i hneg
  rw [List.take_append_of_le_length]
  exact (head_endsInFeed (by omega)).1

/-! ## 2. The receiver -/

/-- A message behind which the connection goes on, and which is passed over once: its body has a
length, and no chunks. -/
def isRegular (b : List UInt8) (hm : MgHttpRequest) : Bool :=
  (mgHttpGetHeader hm.headers (str "Transfer-Encoding")).isNone && !asksToClose hm &&
    ((mgHttpGetHeader hm.headers (str "Content-length")).isSome ||
      (mgNcasecmp b (str "HTTP/") 5 = some false && !isEntityMethod hm.method))

/-- A message with its body, which lies behind its head. -/
def messageAt (b : List UInt8) (hm : MgHttpRequest) : MgMessage :=
  ⟨hm, (b.drop hm.headLen).take hm.bodyLen⟩

/-- What `http_cb` finds at the front of the bytes received, up to the first message that is not
regular. -/
def mgFront (b : List UInt8) : Front MgMessage Unit :=
  match mgHttpParse b with
  | some .incomplete => .wait
  | some (.message hm) =>
    if !isRegular b hm then .stop ()
    else if b.length < hm.headLen + hm.bodyLen then .wait
    else .message (messageAt b hm) (hm.headLen + hm.bodyLen)
  | _ => .stop ()

/-- The comparison with `HTTP/` has an answer where there is a message. -/
theorem mgNcasecmp_of_message {b : List UInt8} {hm : MgHttpRequest}
    (h : mgHttpParse b = some (.message hm)) : ∃ r, mgNcasecmp b (str "HTTP/") 5 = some r := by
  obtain ⟨r, hr, hhead⟩ := mgHttpParse_reads b
  rw [hr, Option.some.injEq] at h
  exact mgNcasecmp_reads_feed b (str "HTTP/") 5 (List.mem_of_mem_take (hhead hm h).2.1) (by decide)
    (by decide)

theorem isRegular_append {b : List UInt8} {hm : MgHttpRequest} (x : List UInt8)
    (h : mgHttpParse b = some (.message hm)) : isRegular (b ++ x) hm = isRegular b hm := by
  obtain ⟨r, hr⟩ := mgNcasecmp_of_message h
  rw [isRegular, isRegular, hr, mgNcasecmp_append b (str "HTTP/") x 5 r hr]

/-- A message has a head, and that has come. -/
theorem headLen_pos {b : List UInt8} {hm : MgHttpRequest}
    (h : mgHttpParse b = some (.message hm)) : 0 < hm.headLen ∧ hm.headLen ≤ b.length := by
  obtain ⟨r, hr, hhead⟩ := mgHttpParse_reads b
  rw [hr, Option.some.injEq] at h
  obtain ⟨hle, hfeed, -⟩ := hhead hm h
  refine ⟨Nat.pos_of_ne_zero fun hzero => ?_, hle⟩
  simp [hzero] at hfeed

/-- What is found at the front, spelt out. -/
theorem mgFront_eq_message {b : List UInt8} {hm : MgMessage} {n : Nat} :
    mgFront b = .message hm n ↔ mgHttpParse b = some (.message hm.toMgHttpRequest) ∧
      isRegular b hm.toMgHttpRequest = true ∧ hm.body = (b.drop hm.headLen).take hm.bodyLen ∧
        n = hm.headLen + hm.bodyLen ∧ n ≤ b.length := by
  obtain ⟨hm, body⟩ := hm
  unfold mgFront
  cases hparse : mgHttpParse b with
  | none => simp
  | some r =>
    cases r with
    | error => simp
    | incomplete => simp
    | message hm' =>
      dsimp only
      cases hregular : isRegular b hm' with
      | false =>
        simp only [Bool.not_false, if_true, Option.some.injEq, MgParsed.message.injEq]
        constructor
        · rintro ⟨⟩
        · rintro ⟨rfl, h, -⟩
          rw [hregular] at h
          cases h
      | true =>
        simp only [Bool.not_true, Bool.false_eq_true, if_false, Option.some.injEq,
          MgParsed.message.injEq]
        split
        · constructor
          · rintro ⟨⟩
          · rintro ⟨rfl, -, -, rfl, h⟩
            omega
        · simp only [Front.message.injEq, messageAt, MgMessage.mk.injEq]
          constructor
          · rintro ⟨⟨rfl, rfl⟩, rfl⟩
            exact ⟨rfl, hregular, rfl, rfl, by omega⟩
          · rintro ⟨rfl, -, rfl, rfl, -⟩
            exact ⟨⟨rfl, rfl⟩, rfl⟩

theorem mgFront_eq_stop {b : List UInt8} {e : Unit} :
    mgFront b = .stop e ↔ mgHttpParse b = some .error ∨
      ∃ hm, mgHttpParse b = some (.message hm) ∧ isRegular b hm = false := by
  obtain ⟨r, hr, -⟩ := mgHttpParse_reads b
  rw [mgFront, hr]
  cases r with
  | error => simp
  | incomplete => simp
  | message hm =>
    cases hregular : isRegular b hm with
    | false => simp [hregular]
    | true =>
      simp only [hregular, Bool.not_true, Bool.false_eq_true, if_false]
      split <;> simp [hregular]

/-- The library as a receiver of messages. -/
def mgReceiver : Receiver UInt8 MgMessage Unit where
  front := mgFront
  front_nil := rfl
  stop_append {b} _ x h := by
    rw [mgFront_eq_stop] at h ⊢
    rcases h with h | ⟨hm, h, hregular⟩
    · exact .inl ((mgHttpParse_stable x (by simp [h])).trans h)
    · exact .inr ⟨hm, (mgHttpParse_stable x (by simp [h])).trans h,
        (isRegular_append x h).trans hregular⟩
  message_append {b hm n} x h := by
    obtain ⟨hparse, hregular, hbody, hn, hle⟩ := mgFront_eq_message.mp h
    have hsame : ((b ++ x).drop hm.headLen).take hm.bodyLen =
        (b.drop hm.headLen).take hm.bodyLen := by
      rw [List.drop_append_of_le_length (by omega),
        List.take_append_of_le_length (by rw [List.length_drop]; omega)]
    refine mgFront_eq_message.mpr ⟨(mgHttpParse_stable x (by simp [hparse])).trans hparse,
      (isRegular_append x hparse).trans hregular, hbody.trans hsame.symm, hn, ?_⟩
    rw [List.length_append]
    omega
  length_pos h := by
    obtain ⟨hparse, -, -, hn, -⟩ := mgFront_eq_message.mp h
    have hpos := (headLen_pos hparse).1
    omega
  length_le h := (mgFront_eq_message.mp h).2.2.2.2

theorem mgReceiver_front : mgReceiver.front = mgFront := rfl

/-! ## 3. A round of the loop

On a regular message a round does what the receiver does: it waits for the body, or hands the
message over and goes on behind it. -/

theorem transferEncoding_of_isRegular {b : List UInt8} {hm : MgHttpRequest}
    (h : isRegular b hm = true) :
    mgHttpGetHeader hm.headers (str "Transfer-Encoding") = none ∧ asksToClose hm = false := by
  simp only [isRegular, Bool.and_eq_true, Option.isNone_iff_eq_none, Bool.not_eq_true'] at h
  exact h.1

/-- A regular message is passed over once, and brings no reply of the library's own. -/
theorem checkContentLength_of_isRegular {c : MgConnection} {hm : MgHttpRequest} {ofs : Nat}
    (h : isRegular (c.recv.drop ofs) hm = true) : checkContentLength c hm ofs = some (c, ofs) := by
  simp only [isRegular, Bool.and_eq_true, Bool.or_eq_true, Bool.not_eq_true',
    decide_eq_true_eq] at h
  unfold checkContentLength
  rcases h.2 with hlength | ⟨hresponse, hentity⟩
  · rw [if_pos hlength]
  · split
    · rfl
    · simp [hresponse, hentity, requireContentLen]

/-- What is left behind the offset is compared with the whole of the message. -/
theorem plainMessage_of_isRegular {c : MgConnection} {hm : MgHttpRequest} {ofs : Nat}
    (hparse : mgHttpParse (c.recv.drop ofs) = some (.message hm))
    (h : isRegular (c.recv.drop ofs) hm = true) :
    plainMessage c hm ofs = some (if (c.recv.drop ofs).length < hm.headLen + hm.bodyLen
      then .leave (c.del ofs)
      else .next { c with calls := c.calls ++ [.message (messageAt (c.recv.drop ofs) hm)] }
        (ofs + (hm.headLen + hm.bodyLen))) := by
  obtain ⟨hpos, hle⟩ := headLen_pos hparse
  rw [List.length_drop] at hle ⊢
  have hsub : sizeSub c.recv.length (ofs + hm.headLen) = c.recv.length - (ofs + hm.headLen) :=
    if_pos (by omega)
  have hmore : sizeSub c.recv.length (ofs + hm.headLen) < hm.bodyLen ↔
      c.recv.length - ofs < hm.headLen + hm.bodyLen := by
    rw [hsub]
    omega
  simp only [plainMessage, checkContentLength_of_isRegular h, Option.bind_eq_bind,
    Option.bind_some, hmore, MgConnection.deliver, (transferEncoding_of_isRegular h).2,
    Bool.false_eq_true, if_false]
  split <;> rfl

theorem httpCbRound_of_message {c : MgConnection} {hm : MgMessage} {ofs n : Nat}
    (h : mgFront (c.recv.drop ofs) = .message hm n) :
    httpCbRound false c ofs =
      some (.next { c with calls := c.calls ++ [.message hm] } (ofs + n)) := by
  obtain ⟨hparse, hregular, hbody, rfl, hle⟩ := mgFront_eq_message.mp h
  rw [httpCbRound, hparse]
  simp only [Option.bind_eq_bind, Option.bind_some, Bool.false_eq_true, if_false,
    (transferEncoding_of_isRegular hregular).1]
  rw [plainMessage_of_isRegular hparse hregular, if_neg (by omega), messageAt, ← hbody]

/-- Where the receiver waits, what lies before the offset is dropped. -/
theorem httpCbRound_of_wait {c : MgConnection} {ofs : Nat} (h : mgFront (c.recv.drop ofs) = .wait) :
    httpCbRound false c ofs = some (.leave (c.del ofs)) := by
  obtain ⟨r, hr, -⟩ := mgHttpParse_reads (c.recv.drop ofs)
  rw [mgFront, hr] at h
  rw [httpCbRound, hr]
  cases r with
  | error => cases h
  | incomplete => rfl
  | message hm =>
    simp only [Option.bind_eq_bind, Option.bind_some, Bool.false_eq_true, if_false]
    dsimp only at h
    split at h
    · cases h
    rename_i hregular
    simp only [Bool.not_eq_true, Bool.not_eq_false'] at hregular
    split at h
    · rename_i hmore
      rw [(transferEncoding_of_isRegular hregular).1]
      dsimp only
      rw [plainMessage_of_isRegular hr hregular, if_pos hmore]
    · cases h

/-! ## 4. The loop -/

/-- **The loop takes the messages the receiver takes.** -/
theorem httpCbLoop_take :
    ∀ (k : Nat) (c : MgConnection) (ofs : Nat) (ms : List MgMessage),
      c.calls = ms.map MgCall.message →
      (mgReceiver.take k ms (c.recv.drop ofs)).stopped = none →
      httpCbLoop false k c ofs = some
        { c with recv := (mgReceiver.take k ms (c.recv.drop ofs)).rest
                 calls := (mgReceiver.take k ms (c.recv.drop ofs)).messages.map .message }
  | 0, c, ofs, ms, hcalls, _ => by
    rw [httpCbLoop, Receiver.take, ← hcalls]
    rfl
  | k + 1, c, ofs, ms, hcalls, hgoes => by
    rw [httpCbLoop]
    split
    · rename_i hend
      rw [List.drop_eq_nil_of_le hend, Receiver.take_nil, ← hcalls, MgConnection.del,
        List.drop_eq_nil_of_le hend]
    cases hfront : mgFront (c.recv.drop ofs) with
    | wait =>
      rw [Receiver.take_wait hfront, httpCbRound_of_wait hfront, ← hcalls]
      rfl
    | stop e =>
      rw [Receiver.take_stop hfront] at hgoes
      cases hgoes
    | message hm n =>
      rw [Receiver.take_message hfront, List.drop_drop] at hgoes ⊢
      rw [httpCbRound_of_message hfront]
      exact httpCbLoop_take k _ (ofs + n) (ms ++ [hm]) (by simp [hcalls]) hgoes

/-! ## 5. What comes behind -/

/-- The connection behind a round. -/
def HttpCbRound.connection : HttpCbRound → MgConnection
  | .leave c => c
  | .next c _ => c

theorem MgConnection.deliver_calls (c : MgConnection) (hm : MgMessage) (ofs : Nat) :
    c.calls <+: (c.deliver hm ofs).connection.calls := by
  unfold MgConnection.deliver
  dsimp only
  split <;> exact ⟨_, rfl⟩

theorem checkContentLength_calls {c : MgConnection} {hm : MgHttpRequest} {ofs : Nat}
    {x : MgConnection × Nat} (h : checkContentLength c hm ofs = some x) :
    c.calls <+: x.1.calls := by
  unfold checkContentLength at h
  split at h
  · cases h
    exact List.prefix_refl _
  · obtain ⟨b, -, h⟩ := Option.bind_eq_some_iff.mp h
    obtain ⟨isRequired, -, h⟩ := Option.bind_eq_some_iff.mp h
    cases h
    dsimp only
    split
    · exact ⟨_, rfl⟩
    · exact List.prefix_refl _

theorem plainMessage_calls {c : MgConnection} {hm : MgHttpRequest} {ofs : Nat} {r : HttpCbRound}
    (h : plainMessage c hm ofs = some r) : c.calls <+: r.connection.calls := by
  obtain ⟨⟨d, ofs'⟩, hcheck, h⟩ := Option.bind_eq_some_iff.mp h
  refine (checkContentLength_calls hcheck).trans ?_
  dsimp only at h
  split at h
  · cases h
    exact List.prefix_refl _
  · cases h
    exact MgConnection.deliver_calls d _ _

theorem chunkedMessage_calls {c : MgConnection} {hm : MgHttpRequest} {ofs : Nat}
    {r : HttpCbRound} (h : chunkedMessage c hm ofs = some r) : c.calls <+: r.connection.calls := by
  obtain ⟨d, -, h⟩ := Option.bind_eq_some_iff.mp h
  cases d with
  | wait =>
    cases h
    exact List.prefix_refl _
  | invalid =>
    cases h
    exact List.prefix_refl _
  | done o body =>
    cases h
    exact MgConnection.deliver_calls c _ _

theorem httpCbRound_calls {isClose : Bool} {c : MgConnection} {ofs : Nat} {r : HttpCbRound}
    (h : httpCbRound isClose c ofs = some r) : c.calls <+: r.connection.calls := by
  obtain ⟨m, -, h⟩ := Option.bind_eq_some_iff.mp h
  cases m with
  | error =>
    cases h
    exact List.prefix_refl _
  | incomplete =>
    cases h
    exact List.prefix_refl _
  | message hm =>
    dsimp only at h
    split at h
    · split at h
      · exact chunkedMessage_calls h
      · cases h
        exact List.prefix_refl _
    · exact plainMessage_calls h

/-- Calls are added behind those there are. -/
theorem httpCbLoop_calls {isClose : Bool} :
    ∀ (k : Nat) (c c' : MgConnection) (ofs : Nat), httpCbLoop isClose k c ofs = some c' →
      c.calls <+: c'.calls
  | 0, c, c', ofs, h => by
    rw [httpCbLoop] at h
    cases h
    exact List.prefix_refl _
  | k + 1, c, c', ofs, h => by
    rw [httpCbLoop] at h
    split at h
    · cases h
      exact List.prefix_refl _
    · obtain ⟨r, hr, h⟩ := Option.bind_eq_some_iff.mp h
      have hround := httpCbRound_calls hr
      cases r with
      | leave d =>
        cases h
        exact hround
      | next d ofs' => exact hround.trans (httpCbLoop_calls k d c' ofs' h)

/-- The messages the receiver takes come first. -/
theorem httpCbLoop_messages_first :
    ∀ (k : Nat) (c c' : MgConnection) (ofs : Nat) (ms : List MgMessage),
      c.calls = ms.map MgCall.message → httpCbLoop false k c ofs = some c' →
      (mgReceiver.take k ms (c.recv.drop ofs)).messages.map MgCall.message <+: c'.calls
  | 0, c, c', ofs, ms, hcalls, h => by
    exact hcalls ▸ httpCbLoop_calls 0 c c' ofs h
  | k + 1, c, c', ofs, ms, hcalls, h => by
    cases hfront : mgReceiver.front (c.recv.drop ofs) with
    | wait =>
      rw [Receiver.take_wait hfront]
      exact hcalls ▸ httpCbLoop_calls (k + 1) c c' ofs h
    | stop e =>
      rw [Receiver.take_stop hfront]
      exact hcalls ▸ httpCbLoop_calls (k + 1) c c' ofs h
    | message hm n =>
      rw [Receiver.take_message hfront, List.drop_drop]
      rw [httpCbLoop] at h
      have hlt : ¬ c.recv.length ≤ ofs := by
        intro hend
        rw [List.drop_eq_nil_of_le hend, mgReceiver.front_nil] at hfront
        cases hfront
      rw [if_neg hlt, httpCbRound_of_message hfront] at h
      exact httpCbLoop_messages_first k { c with calls := c.calls ++ [.message hm] } c' (ofs + n)
        (ms ++ [hm]) (by simp [hcalls]) h

/-! ## 6. A stream in pieces

By induction on the pieces the connection agrees with a receiver that had the whole stream at once:
it keeps what the receiver has left over, until the receiver stops. -/

/-- What `http_cb` leaves of a connection, given where the receiver stands. -/
def Agrees (r : Received UInt8 MgMessage Unit) (c : MgConnection) : Prop :=
  r.messages.map MgCall.message <+: c.calls ∧
    (r.stopped = none → c = { recv := r.rest, calls := r.messages.map MgCall.message })

/-- More bytes. -/
theorem httpCb_agrees {r : Received UInt8 MgMessage Unit} {c c' : MgConnection}
    {x : List UInt8} (h : Agrees r c) (hcb : httpCb false c x = some c') :
    Agrees (mgReceiver.feed r x) c' := by
  obtain ⟨ms, rest, stopped⟩ := r
  cases stopped with
  | some e =>
    have hcalls : c.calls <+: c'.calls :=
      httpCbLoop_calls (c.recv ++ x).length { c with recv := c.recv ++ x } c' 0 hcb
    exact ⟨h.1.trans hcalls, by simp [Receiver.feed]⟩
  | none =>
    obtain rfl := h.2 rfl
    refine ⟨httpCbLoop_messages_first _ _ c' 0 ms rfl hcb, fun hgoes => ?_⟩
    have htake := httpCbLoop_take (rest ++ x).length
      { recv := rest ++ x, calls := ms.map .message } 0 ms rfl hgoes
    exact Option.some.inj (hcb.symm.trans htake)

/-- While the receiver goes on, `http_cb` has an answer. -/
theorem httpCb_goes {r : Received UInt8 MgMessage Unit} {c : MgConnection} {x : List UInt8}
    (h : Agrees r c) (hgoes : (mgReceiver.feed r x).stopped = none) :
    ∃ c', httpCb false c x = some c' := by
  obtain ⟨ms, rest, stopped⟩ := r
  cases stopped with
  | some e => cases hgoes
  | none =>
    obtain rfl := h.2 rfl
    exact ⟨_, httpCbLoop_take (rest ++ x).length
      { recv := rest ++ x, calls := ms.map .message } 0 ms rfl hgoes⟩

theorem foldlM_concat (pieces : List (List UInt8)) (x : List UInt8) :
    (pieces ++ [x]).foldlM (httpCb false) {} =
      (pieces.foldlM (httpCb false) {}).bind (httpCb false · x) := by
  rw [List.foldlM_append]
  cases pieces.foldlM (httpCb false) ({} : MgConnection) with
  | none => rfl
  | some c => simp

/-- Over the pieces of a stream. -/
theorem pieces_agree (pieces : List (List UInt8)) :
    (∀ c, pieces.foldlM (httpCb false) {} = some c →
      Agrees (mgReceiver.feed {} pieces.flatten) c) ∧
      ((mgReceiver.feed {} pieces.flatten).stopped = none →
        ∃ c, pieces.foldlM (httpCb false) {} = some c) := by
  induction pieces using List.reverseRecOn with
  | nil =>
    refine ⟨fun c hc => ?_, fun _ => ⟨_, rfl⟩⟩
    cases hc
    exact ⟨List.nil_prefix, fun _ => rfl⟩
  | append_singleton pieces x ih =>
    have hfeed : mgReceiver.feed {} (pieces ++ [x]).flatten =
        mgReceiver.feed (mgReceiver.feed {} pieces.flatten) x := by
      rw [Receiver.feed_append, List.flatten_append, List.flatten_singleton]
    rw [hfeed, foldlM_concat]
    constructor
    · intro c' hc'
      obtain ⟨c, hc, hcb⟩ := Option.bind_eq_some_iff.mp hc'
      exact httpCb_agrees (ih.1 c hc) hcb
    · intro hgoes
      obtain ⟨c, hc⟩ := ih.2 (Receiver.goes_of_feed hgoes)
      rw [hc]
      exact httpCb_goes (ih.1 c hc) hgoes

/-- **The messages do not depend on the pieces.**  In whatever pieces a stream comes, the messages
up to the first one that is not regular are handed over first, in the order of the stream; where
there is none such, nothing else is, and the same bytes are left over. -/
theorem messages_in_any_pieces (pieces : List (List UInt8)) :
    (∀ c, pieces.foldlM (httpCb false) {} = some c →
      (mgReceiver.feed {} pieces.flatten).messages.map MgCall.message <+: c.calls) ∧
      ((mgReceiver.feed {} pieces.flatten).stopped = none →
        pieces.foldlM (httpCb false) {} = some
          { recv := (mgReceiver.feed {} pieces.flatten).rest
            calls := (mgReceiver.feed {} pieces.flatten).messages.map MgCall.message }) := by
  refine ⟨fun c hc => ((pieces_agree pieces).1 c hc).1, fun hgoes => ?_⟩
  obtain ⟨c, hc⟩ := (pieces_agree pieces).2 hgoes
  rw [hc, ((pieces_agree pieces).1 c hc).2 hgoes]

/-- Two messages, the second of which is cut within a header line. -/
def cutMessages : List (List UInt8) :=
  [str "GET /a HTTP/1.1\r\n\r\nPOST /b HTTP/1.1\r\nContent-Le", str "ngth: 2\r\n\r\nhi"]

/-- Both are handed over, and nothing is left. -/
theorem cutMessages_in_pieces :
    (cutMessages.foldlM (httpCb false) {} = some
      { recv := (mgReceiver.feed {} cutMessages.flatten).rest
        calls := (mgReceiver.feed {} cutMessages.flatten).messages.map MgCall.message }) ∧
      (mgReceiver.feed {} cutMessages.flatten).messages.map (·.body) = [[], str "hi"] ∧
        (mgReceiver.feed {} cutMessages.flatten).rest = [] := by
  have hgoes : (mgReceiver.feed {} cutMessages.flatten).stopped = none := by decide +kernel
  exact ⟨(messages_in_any_pieces cutMessages).2 hgoes, by decide +kernel, by decide +kernel⟩

/-! ## 7. Requests of a client

A client's request is a regular message, and what the parser makes of it is what was sent. -/

/-- Names are compared without their case. -/
theorem mgHttpGetHeader_cons (h : MgHttpHeader) (headers : List MgHttpHeader) (name : List UInt8) :
    mgHttpGetHeader (h :: headers) name =
      if mgStrcasecmp h.name name then some h.value else mgHttpGetHeader headers name := by
  have hlen : mgStrcasecmp h.name name = true → h.name.length = name.length := fun hsame => by
    simpa using congrArg List.length (of_decide_eq_true hsame)
  cases hsame : mgStrcasecmp h.name name with
  | false => simp [mgHttpGetHeader, hsame]
  | true => simp [mgHttpGetHeader, hsame, hlen hsame]

theorem mgHttpGetHeader_congr {a b : List UInt8} (h : a.map mgTolc = b.map mgTolc)
    (headers : List MgHttpHeader) : mgHttpGetHeader headers a = mgHttpGetHeader headers b := by
  have hlen : a.length = b.length := by simpa using congrArg List.length h
  simp only [mgHttpGetHeader, mgStrcasecmp, h, hlen]

namespace ClientRequest

variable (r : ClientRequest)

/-- Either the length is announced, or there is no body, and no request that should have one. -/
theorem length_known :
    (mgHttpGetHeader r.message.headers (str "Content-length")).isSome = true ∨
      mgNcasecmp r.bytes (str "HTTP/") 5 = some false ∧
        isEntityMethod r.message.method = false := by
  rw [mgHttpGetHeader_congr (b := str "Content-Length") (by decide)]
  rcases r.announced with h | ⟨-, -, hentity⟩
  · exact .inl (by rw [message, h]; rfl)
  · have hparse := r.mgHttpParse_request []
    rw [List.append_nil] at hparse
    obtain ⟨b, hb⟩ := mgNcasecmp_of_message hparse
    have hsplit : r.bytes = r.request.method ++ 32 :: (r.request.target ++ 32 ::
        (r.request.version ++ (str "\r\n" ++ r.request.rest)) ++ r.body) := by
      simp [bytes, WellFormedRequest.message, WellFormedRequest.bytes]
    have hmethod := hsplit ▸ hb
    exact .inr ⟨by rw [hb, mgNcasecmp_method r.request.method_token hmethod fun _ => ⟨_, rfl⟩],
      hentity⟩

theorem isRegular_message : isRegular r.bytes r.message.toMgHttpRequest = true := by
  have hclose : asksToClose r.message.toMgHttpRequest = false := by
    rw [asksToClose, Option.any_eq_false]
    exact r.kept
  have hplain : mgHttpGetHeader r.message.headers (str "Transfer-Encoding") = none := r.plain
  rw [isRegular, hclose, hplain]
  rcases r.length_known with h | ⟨hresponse, hentity⟩
  · simp [h]
  · simp [hresponse, hentity]

/-- A request is what is found at its front. -/
theorem mgFront_bytes : mgFront r.bytes = .message r.message r.bytes.length := by
  have hparse := r.mgHttpParse_request []
  rw [List.append_nil] at hparse
  have hbody : r.bytes.drop r.message.headLen = r.body := by
    rw [bytes, WellFormedRequest.message]
    exact List.drop_left
  refine mgFront_eq_message.mpr ⟨hparse, r.isRegular_message, ?_, ?_, Nat.le_refl _⟩
  · rw [hbody]
    exact List.take_length.symm
  · rw [bytes, WellFormedRequest.message, List.length_append]
    rfl

end ClientRequest

/-- The parser gives the requests back. -/
theorem foldlM_httpCb_requests {pieces : List (List UInt8)} {requests : List ClientRequest}
    {part : List UInt8} (hpart : IsPartial ClientRequest.bytes part)
    (h : pieces.flatten = requests.flatMap ClientRequest.bytes ++ part) :
    pieces.foldlM (httpCb false) {} =
      some { recv := part, calls := requests.map fun r => .message r.message } := by
  have hfeed : mgReceiver.feed {} pieces.flatten =
      ⟨requests.map ClientRequest.message, part, none⟩ := by
    rw [h]
    exact feed_frames ClientRequest.mgFront_bytes hpart requests
  obtain ⟨c, hc⟩ := (pieces_agree pieces).2 (by rw [hfeed])
  rw [hc, ((pieces_agree pieces).1 c hc).2 (by rw [hfeed]), hfeed, List.map_map]
  rfl

/-- No read finds too many bytes left over. -/
theorem foldlM_readConn_requests (pieces : List (List UInt8)) (requests : List ClientRequest)
    (part : List UInt8) (hpart : IsPartial ClientRequest.bytes part)
    (h : pieces.flatten = requests.flatMap ClientRequest.bytes ++ part) :
    pieces.foldlM readConn {} = pieces.foldlM (httpCb false) {} := by
  induction pieces using List.reverseRecOn generalizing requests part with
  | nil => rfl
  | append_singleton pieces x ih =>
    rw [List.flatten_append, List.flatten_singleton] at h
    obtain ⟨requests', part', -, hcut, hpart'⟩ :=
      hpart.exists_cut requests pieces.flatten (h ▸ List.prefix_append _ _)
    have hread := ih requests' part' hpart' hcut
    have hrun := foldlM_httpCb_requests hpart' hcut
    obtain ⟨r, -, hlt⟩ := hpart'
    have hsize : part'.length < MG_MAX_RECV_SIZE := Nat.lt_of_lt_of_le hlt r.size
    rw [List.foldlM_append, List.foldlM_append, hread, hrun]
    simp only [List.foldlM_cons, List.foldlM_nil, readConn, Option.bind_eq_bind, Option.bind_some]
    rw [if_neg (Nat.not_le_of_lt hsize)]

/-- **Every request is handed over as soon as it has come, once, and in its order**, in whatever
pieces the requests come; what has come of the next one is kept. -/
theorem requests_handed_over (pieces : List (List UInt8)) (requests : List ClientRequest)
    (part : List UInt8) (hpart : IsPartial ClientRequest.bytes part)
    (h : pieces.flatten = requests.flatMap ClientRequest.bytes ++ part) :
    pieces.foldlM readConn {} =
      some { recv := part, calls := requests.map fun r => .message r.message } := by
  rw [foldlM_readConn_requests pieces requests part hpart h]
  exact foldlM_httpCb_requests hpart h

/-- `GET /metrics`, as a scraper sends it. -/
def scrapeClient : ClientRequest where
  request := scrapeRequest
  fields := [{ name := str "Host", value := str "localhost" }]
  headers_eq := by decide +kernel
  plain := by decide +kernel
  kept := by decide +kernel
  announced := .inr (by decide +kernel)
  size := by decide +kernel

/-- A request with a body. -/
def postClient : ClientRequest where
  request :=
    { method := str "POST", target := str "/metrics?a=b"
      major := scrapeRequest.major, minor := scrapeRequest.minor
      headers := [str "content-length: 2 "] }
  fields := [{ name := str "content-length", value := str "2", after := [32]
               after_blank := isBlank_of_space }]
  body := str "GE"
  headers_eq := by decide +kernel
  path_ne := by decide +kernel
  plain := by decide +kernel
  kept := by decide +kernel
  announced := .inl (by decide +kernel)
  size := by decide +kernel

/-- Two requests in one piece, and the beginning of a third. -/
theorem scrapeClient_handed_over :
    [postClient.bytes ++ scrapeClient.bytes ++ str "GET /m"].foldlM readConn {} =
      some { recv := str "GET /m", calls := [.message postClient.message,
                                             .message scrapeClient.message] } := by
  refine requests_handed_over _ [postClient, scrapeClient] (str "GET /m")
    ⟨scrapeClient, ?_, ?_⟩ ?_
  · decide +kernel
  · decide +kernel
  · simp

end WhatIsHappening
