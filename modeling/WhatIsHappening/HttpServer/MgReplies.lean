/-
# Replies of the vendored library

`mg_http_reply` does not know how long a body is before it has printed it.  It leaves blanks behind
`Content-Length:`, prints the body behind the head, and then the length over the blanks, in a buffer
that may hold replies which have not been sent.  `replies_read_back` says that a client reads the
replies back, each whole and in their order.
-/
import WhatIsHappening.HttpServer.MgConnections

namespace WhatIsHappening

open CLib Framing

/-! ## 1. The length is printed into the head -/

theorem overwrite_append {a b c : List UInt8} {bytes : List UInt8} (h : bytes.length = b.length) :
    overwrite (a ++ (b ++ c)) a.length bytes = a ++ (bytes ++ c) := by
  rw [overwrite, List.take_left, h, ← List.length_append, ← List.append_assoc a b c,
    List.drop_left, List.append_assoc]

/-- The head in front of the place for the length. -/
def replyStart (r : MgHttpReply) : List UInt8 :=
  str "HTTP/1.1 " ++ decimal r.code ++ str " " ++ str (mgHttpStatusCodeStr r.code) ++ str "\r\n" ++
    r.headers ++ str "Content-Length: "

/-- A number printed with `"%-10lu"`. -/
def paddedLength (n : Nat) : List UInt8 :=
  decimal n ++ List.replicate (10 - (decimal n).length) 32

/-- A reply on the wire. -/
def replyBytes (r : MgHttpReply) : List UInt8 :=
  replyStart r ++ paddedLength r.body.length ++ [32] ++ str "\r\n\r\n" ++ r.body

theorem length_paddedLength {n : Nat} (h : n < 10 ^ 10) : (paddedLength n).length = 10 := by
  have hlen := length_decimal (k := 10) (by decide) h
  rw [paddedLength, List.length_append, List.length_replicate]
  omega

/-- Ten digits and blanks, and a NUL that becomes a blank again. -/
theorem overwrite_blanks (a c : List UInt8) {printed : List UInt8} (h : printed.length = 10) :
    overwrite (overwrite (a ++ (List.replicate 11 32 ++ c)) a.length (printed ++ [0]))
      (a.length + 10) [32] = a ++ (printed ++ 32 :: c) := by
  have hfirst : overwrite (a ++ (List.replicate 11 32 ++ c)) a.length (printed ++ [0]) =
      (a ++ printed) ++ ([0] ++ c) := by
    rw [overwrite_append (by simp [h])]
    simp
  have hlen : a.length + 10 = (a ++ printed).length := by rw [List.length_append, h]
  have hone : ([32] : List UInt8).length = [(0 : UInt8)].length := rfl
  rw [hfirst, hlen, overwrite_append hone, List.append_assoc]
  rfl

/-- **A reply is added to what is left to send**, where ten digits are enough for its length. -/
theorem mgHttpReply_eq (send : List UInt8) {r : MgHttpReply} (h : r.body.length < 10 ^ 10) :
    mgHttpReply send r = send ++ replyBytes r := by
  have hblanks : str "Content-Length:            \r\n\r\n" =
      str "Content-Length: " ++ (List.replicate 11 32 ++ str "\r\n\r\n") := by decide +kernel
  have hhead : send ++ (str "HTTP/1.1 " ++ decimal r.code ++ str " " ++
      str (mgHttpStatusCodeStr r.code) ++ str "\r\n" ++ r.headers ++
      str "Content-Length:            \r\n\r\n") =
      (send ++ replyStart r) ++ (List.replicate 11 32 ++ str "\r\n\r\n") := by
    rw [hblanks, replyStart]
    simp only [List.append_assoc]
  have hplace : ((send ++ replyStart r) ++ (List.replicate 11 32 ++ str "\r\n\r\n")).length - 15 =
      (send ++ replyStart r).length := by
    rw [List.length_append]
    simp [str]
  have hpadded := length_paddedLength h
  have hsnprintf : snprintf 11 (paddedLength r.body.length) = paddedLength r.body.length :=
    snprintf_eq_self (by omega)
  have hbody : ∀ l : List UInt8, (l ++ r.body).length = l.length + r.body.length := fun _ =>
    List.length_append
  rw [mgHttpReply, hhead]
  simp only [hbody, Nat.add_sub_cancel_left, hplace]
  have hlong : 16 < ((send ++ replyStart r) ++ (List.replicate 11 32 ++
      str "\r\n\r\n")).length + r.body.length := by
    simp [replyStart, str]
    omega
  rw [← paddedLength, hsnprintf, hpadded, if_pos hlong, List.append_assoc (send ++ replyStart r),
    List.append_assoc (List.replicate 11 32), overwrite_blanks _ _ hpadded, replyBytes]
  simp only [List.append_assoc, List.cons_append, List.nil_append]

/-! ## 2. A reply is a message -/

/-- What the event handler replies with. -/
structure ServerReply where
  code : Nat
  body : List UInt8
  code_lt : code < 2 ^ 31 := by decide
  body_lt : body.length < 10 ^ 10 := by decide

/-- What the line of a reply needs of the text behind its code: it is short and has no blank in
front. -/
def isStatusText (s : List UInt8) : Bool :=
  s.length ≤ 40 && s.all isTextByte && s.head? != some 32

theorem isStatusText_statusText (code : Nat) :
    isStatusText (str (mgHttpStatusCodeStr code)) = true := by
  unfold mgHttpStatusCodeStr
  split <;> decide +kernel

theorem statusText_text (code : Nat) :
    (∀ b ∈ str (mgHttpStatusCodeStr code), isTextByte b = true) ∧
      ∀ b ∈ (str (mgHttpStatusCodeStr code)).head?, b ≠ 32 := by
  have htext := isStatusText_statusText code
  simp only [isStatusText, Bool.and_eq_true, bne_iff_ne] at htext
  refine ⟨List.all_eq_true.mp htext.1.2, ?_⟩
  rintro b hb rfl
  exact htext.2 hb

theorem length_statusText (code : Nat) : (str (mgHttpStatusCodeStr code)).length ≤ 40 := by
  have htext := isStatusText_statusText code
  simp only [isStatusText, Bool.and_eq_true, decide_eq_true_eq] at htext
  exact htext.1.1

theorem visible_of_digit {b : UInt8} (h : isDigit b = true) :
    isTargetByte b = true ∧ isBlank b = false ∧ b ≠ 63 := by
  have hblank : b ≠ 32 ∧ b ≠ 9 ∧ b ≠ 63 := by
    refine ⟨?_, ?_, ?_⟩ <;> rintro rfl <;> exact absurd h (by decide)
  simp only [isDigit, Bool.and_eq_true, decide_eq_true_eq] at h
  have hlow : 33 ≤ b := UInt8.le_trans (by decide) h.1
  have hhigh : b ≤ 126 := UInt8.le_trans h.2 (by decide)
  simp [isTargetByte, isBlank, hlow, hhigh, hblank]

/-- An empty reply. -/
def okReply : ServerReply where
  code := 200
  body := []

namespace ServerReply

/-- `Content-Type: text/plain`. -/
def typeLine : HeaderLine where
  name := str "Content-Type"
  value := str "text/plain"

variable (r : ServerReply)

/-- The arguments of `mg_http_reply`. -/
def reply : MgHttpReply where
  code := r.code
  headers := str "Content-Type: text/plain\r\n"
  body := r.body

/-- The reply on the wire. -/
def bytes : List UInt8 := replyBytes r.reply

/-- The line with the length of the body. -/
def lengthLine : HeaderLine where
  name := str "Content-Length"
  value := decimal r.body.length
  after := List.replicate (10 - (decimal r.body.length).length) 32 ++ [32]
  after_blank b hb := by
    rw [← List.replicate_succ'] at hb
    rw [List.eq_of_mem_replicate hb]
    rfl
  value_text b hb := isText_of_visible (visible_of_digit (isDigit_decimal _ b hb)).1
  value_head b hb := (visible_of_digit (isDigit_decimal _ b (List.mem_of_head? hb))).2.1
  value_last b hb := (visible_of_digit (isDigit_decimal _ b (List.mem_of_getLast? hb))).2.1

/-- The head of the reply. -/
def head : List UInt8 := headBytes (str "HTTP/1.1") (decimal r.code)
  (str (mgHttpStatusCodeStr r.code)) [typeLine, r.lengthLine]

theorem bytes_eq : r.bytes = r.head ++ r.body := by
  simp [bytes, replyBytes, replyStart, paddedLength, head, headBytes, HeaderLine.bytes, typeLine,
    lengthLine, reply, str]

/-- What a client's parser makes of it. -/
def message : MgMessage where
  method := str "HTTP/1.1"
  uri := decimal r.code
  query := []
  proto := str (mgHttpStatusCodeStr r.code)
  headers := [typeLine.header, r.lengthLine.header]
  isResponse := true
  headLen := r.head.length
  bodyLen := r.body.length
  messageLen := r.head.length + r.body.length
  body := r.body

theorem head_short : r.head.length ≤ 200 := by
  have hcode : (decimal r.code).length ≤ 10 :=
    length_decimal (by decide) (Nat.lt_trans r.code_lt (by decide))
  have hstatus := length_statusText r.code
  have hpadded := length_paddedLength r.body_lt
  rw [paddedLength, List.length_append, List.length_replicate] at hpadded
  simp [head, headBytes, HeaderLine.bytes, typeLine, lengthLine, str] at hcode hstatus hpadded ⊢
  omega

theorem code_plain : ∀ b ∈ decimal r.code, decide (b ≠ 63) = true := fun b hb => by
  simp [(visible_of_digit (isDigit_decimal _ b hb)).2.2]

theorem firstLine :
    FirstLine (str "HTTP/1.1") (decimal r.code) (str (mgHttpStatusCodeStr r.code)) where
  method_ne := by decide
  method_visible := by decide +kernel
  target_visible b hb := (visible_of_digit (isDigit_decimal _ b hb)).1
  path_ne := by
    rw [List.takeWhile_eq_self_iff.mpr r.code_plain]
    exact decimal_ne_nil r.code
  proto_text := (statusText_text r.code).1
  proto_head := (statusText_text r.code).2

/-- Of the headers that are looked for there is the length. -/
theorem headers_found :
    mgHttpGetHeader r.message.headers (str "Content-Length") = some (decimal r.body.length) ∧
      mgHttpGetHeader r.message.headers (str "Transfer-Encoding") = none ∧
        mgHttpGetHeader r.message.headers (str "Connection") = none := by
  have hnames : r.message.headers =
      [⟨str "Content-Type", str "text/plain"⟩, ⟨str "Content-Length", decimal r.body.length⟩] := rfl
  rw [hnames]
  simp only [mgHttpGetHeader_cons]
  refine ⟨?_, ?_, ?_⟩
  · rw [if_neg (by decide), if_pos (by decide)]
  · rw [if_neg (by decide), if_neg (by decide)]
    rfl
  · rw [if_neg (by decide), if_neg (by decide)]
    rfl

theorem mgHttpParse_bytes :
    mgHttpParse r.bytes = some (.message r.message.toMgHttpRequest) := by
  obtain ⟨isVersion, hversion⟩ := isHttpVersion_reads (str (mgHttpStatusCodeStr r.code))
  have hshort := r.head_short
  have hbody := r.body_lt
  have hfields : [typeLine, r.lengthLine].length ≤ MG_MAX_HTTP_HEADERS := by
    rw [MG_MAX_HTTP_HEADERS]
    simp
  have hlengths : messageLengths ([typeLine, r.lengthLine].map HeaderLine.header)
      ((decimal r.code).takeWhile (· ≠ 63)) true r.head.length =
        some (r.body.length, r.head.length + r.body.length) :=
    messageLengths_announced r.headers_found.1 (by simp [head, headBytes]) (by omega)
  have hparse := mgHttpParse_message r.firstLine (by decide +kernel) hversion rfl hfields
    hlengths r.body
  rw [List.takeWhile_eq_self_iff.mpr r.code_plain,
    List.dropWhile_eq_nil_iff.mpr r.code_plain] at hparse
  rw [bytes_eq]
  exact hparse

theorem mgFront_bytes : mgFront r.bytes = .message r.message r.bytes.length := by
  obtain ⟨hlength, hencoding, hconnection⟩ := r.headers_found
  have hlength' : mgHttpGetHeader r.message.headers (str "Content-length") =
      some (decimal r.body.length) := by
    rw [mgHttpGetHeader_congr (b := str "Content-Length") (by decide), hlength]
  have hbody : r.bytes.drop r.message.headLen = r.body := by
    rw [bytes_eq]
    exact List.drop_left
  refine mgFront_eq_message.mpr ⟨r.mgHttpParse_bytes, ?_, ?_, ?_, Nat.le_refl _⟩
  · simp [isRegular, asksToClose, hencoding, hconnection, hlength']
  · rw [hbody]
    exact List.take_length.symm
  · rw [bytes_eq, List.length_append]
    rfl

end ServerReply

/-! ## 3. The bytes that are sent -/

/-- The replies among the steps. -/
def repliesOf (steps : List MgSendStep) : List MgHttpReply :=
  steps.filterMap fun
    | .reply r => some r
    | .write _ => none

/-- Whenever it is sent, a reply is whole behind the ones before it. -/
theorem sent_append_send (steps : List MgSendStep) (replies : List ServerReply) (s : MgSending)
    (h : repliesOf steps = replies.map ServerReply.reply) :
    (steps.foldl MgSending.step s).sent ++ (steps.foldl MgSending.step s).send =
      s.sent ++ s.send ++ replies.flatMap ServerReply.bytes := by
  induction steps generalizing replies s with
  | nil =>
    obtain rfl := List.map_eq_nil_iff.mp h.symm
    simp
  | cons step steps ih =>
    cases step with
    | write n =>
      rw [List.foldl_cons, ih replies _ h]
      simp [MgSending.step]
    | reply r =>
      cases replies with
      | nil => cases h
      | cons reply replies =>
        obtain ⟨rfl, hrest⟩ := List.cons.inj h
        rw [List.foldl_cons, ih replies _ hrest, MgSending.step, mgHttpReply_eq _ reply.body_lt]
        simp [ServerReply.bytes]

/-! ## 4. What a client reads -/

/-- The status and the body of a reply, as the parser gives them to a client. -/
def readReply (m : MgMessage) : Int × List UInt8 := ((atoi m.uri).toInt, m.body)

theorem atoi_decimal {n : Nat} (h : n < 2 ^ 31) : (atoi (decimal n)).toInt = n := by
  obtain ⟨d, ds, hds⟩ := List.exists_cons_of_ne_nil (decimal_ne_nil n)
  have hd : isDigit d = true := isDigit_decimal n d (by simp [hds])
  have hplain : isSpace d = false ∧ d ≠ 43 ∧ d ≠ 45 := by
    have hne : d ≠ 32 ∧ d ≠ 43 ∧ d ≠ 45 := by
      refine ⟨?_, ?_, ?_⟩ <;> rintro rfl <;> exact absurd hd (by decide)
    have hhigh : ¬ d ≤ 13 := by
      intro hle
      simp only [isDigit, Bool.and_eq_true, decide_eq_true_eq] at hd
      exact absurd (UInt8.le_trans hd.1 hle) (by decide)
    simp [isSpace, hne, hhigh]
  have hsign : signOf (decimal n) = [] := by
    rw [hds]
    unfold signOf
    split
    · rename_i heq
      exact absurd (List.cons.inj heq).1 hplain.2.1
    · rename_i heq
      exact absurd (List.cons.inj heq).1 hplain.2.2
    · rfl
  have hparts : numberParts (decimal n) = ([], [], decimal n) := by
    have hdrop : (decimal n).dropWhile isSpace = decimal n := by simp [hds, hplain.1]
    have htake : (decimal n).takeWhile isSpace = [] := by simp [hds, hplain.1]
    have hdigits : (decimal n).takeWhile isDigit = decimal n :=
      List.takeWhile_eq_self_iff.mpr (isDigit_decimal n)
    simp [numberParts, hdrop, htake, hsign, hdigits]
  have hclamp : clampLong n = n := by
    rw [clampLong]
    omega
  have hvalue : strtol (decimal n) = ((n : Int), (decimal n).length) := by
    simp [strtol, hparts, decimal_ne_nil n, digitsValue_decimal, hclamp]
  rw [atoi, hvalue]
  exact Int32.toInt_ofInt_of_le (by omega) (by omega)

theorem ServerReply.readReply_message (r : ServerReply) :
    readReply r.message = ((r.code : Int), r.body) := by
  have hcode : (atoi r.message.uri).toInt = r.code := atoi_decimal r.code_lt
  rw [readReply, hcode]
  rfl

/-- A client that has got a part of a stream of replies has read the first of them. -/
theorem read_of_prefix {replies : List ServerReply} {stream : List UInt8}
    (hstream : stream = replies.flatMap ServerReply.bytes) (pieces : List (List UInt8))
    (hcome : pieces.flatten <+: stream) :
    ∃ read, read <+: replies ∧
      (pieces.foldl mgReceiver.feed {}).messages.map readReply =
        read.map (fun r => ((r.code : Int), r.body)) ∧
      (pieces.flatten = stream → read = replies) := by
  have hframe : ∀ r : ServerReply, mgReceiver.front r.bytes =
      .message r.message r.bytes.length := by
    intro r
    rw [mgReceiver_front]
    exact r.mgFront_bytes
  have hnil : IsPartial ServerReply.bytes [] := by
    refine ⟨okReply, List.nil_prefix, ?_⟩
    simp [ServerReply.bytes_eq, ServerReply.head, headBytes]
  have hread : ∀ rs : List ServerReply, (rs.map ServerReply.message).map readReply =
      rs.map fun r => ((r.code : Int), r.body) := by
    intro rs
    rw [List.map_map]
    exact List.map_congr_left fun r _ => r.readReply_message
  rw [← List.append_nil (replies.flatMap _)] at hstream
  rw [Receiver.feed_flatten]
  by_cases hall : pieces.flatten = stream
  · refine ⟨replies, List.prefix_refl _, ?_, fun _ => rfl⟩
    rw [hall, hstream, feed_frames hframe hnil, hread]
  · obtain ⟨read, part, hprefix, hcut, hpart⟩ :=
      hnil.exists_cut replies pieces.flatten (hstream ▸ hcome)
    refine ⟨read, hprefix, ?_, fun hcomplete => absurd hcomplete hall⟩
    rw [hcut, feed_frames hframe hpart, hread]

/-- **A client reads the replies back**: whatever was sent at what times, and in whatever pieces it
comes, what is read are the first of the replies, whole and in their order, and all of them when
all was sent and has come. -/
theorem replies_read_back (steps : List MgSendStep) (replies : List ServerReply)
    (h : repliesOf steps = replies.map ServerReply.reply) (pieces : List (List UInt8))
    (hsent : pieces.flatten <+: (steps.foldl MgSending.step {}).sent) :
    ∃ read, read <+: replies ∧
      (pieces.foldl mgReceiver.feed {}).messages.map readReply =
        read.map (fun r => ((r.code : Int), r.body)) ∧
      ((steps.foldl MgSending.step {}).send = [] →
        pieces.flatten = (steps.foldl MgSending.step {}).sent → read = replies) := by
  have hstream : (steps.foldl MgSending.step {}).sent ++ (steps.foldl MgSending.step {}).send =
      replies.flatMap ServerReply.bytes := sent_append_send steps replies {} h
  obtain ⟨read, hprefix, hread, hall⟩ := read_of_prefix hstream pieces
    (hsent.trans (List.prefix_append _ _))
  refine ⟨read, hprefix, hread, fun hsend hcome => hall ?_⟩
  rw [hcome, hsend, List.append_nil]

/-- `Not Found`. -/
def notFoundReply : ServerReply where
  code := 404
  body := str "Not Found"
  body_lt := by decide +kernel

/-- Two replies, the second of which is printed when a part of the first one was sent. -/
def mixedSteps : List MgSendStep :=
  [.reply notFoundReply.reply, .write 50, .reply okReply.reply, .write 1000]

/-- They are read back as they were sent. -/
theorem mixedSteps_read_back :
    ([(mixedSteps.foldl MgSending.step {}).sent].foldl mgReceiver.feed {}).messages.map
      readReply = [(404, str "Not Found"), (200, [])] := by
  obtain ⟨read, -, hread, hall⟩ := replies_read_back mixedSteps [notFoundReply, okReply] rfl
    [(mixedSteps.foldl MgSending.step {}).sent] (by simp)
  have hsend : (mixedSteps.foldl MgSending.step {}).send = [] := by decide +kernel
  rw [hread, hall hsend (by simp)]
  rfl

end WhatIsHappening
