/-
# Bodies in chunks

`http_cb` goes through the chunks of a body each time bytes have come, and waits until the last one
is there.  `chunks_arrive` says what becomes of a body of which only a part has come: it is waited
for, unless what has come ends within the length of a chunk, behind its second byte.
-/
import WhatIsHappening.HttpServer.MgConnections

namespace WhatIsHappening

open CLib

/-! ## 1. One chunk -/

/-- The number some hexadecimal digits stand for. -/
def hexValue (digits : List UInt8) : Nat := digits.foldl (fun n c => n * 16 + hexDigit c) 0

/-- A chunk, whose length fits into an `int`. -/
structure Chunk where
  digits : List UInt8
  data : List UInt8
  digits_ne : digits ≠ [] := by decide
  digits_le : digits.length ≤ 8 := by decide
  digits_hex : ∀ b ∈ digits, isHexDigit b = true := by decide +kernel
  size : hexValue digits = data.length := by decide +kernel
  size_lt : data.length < 2 ^ 31 := by decide +kernel

namespace Chunk

variable (c : Chunk)

/-- The chunk on the wire. -/
def bytes : List UInt8 := c.digits ++ 13 :: 10 :: (c.data ++ [13, 10])

theorem length_bytes : c.bytes.length = c.digits.length + c.data.length + 4 := by
  simp [bytes]
  omega

theorem digits_pos : 0 < c.digits.length := List.length_pos_iff.mpr c.digits_ne

theorem takeWhile_digits {t : List UInt8} (ht : ∀ b ∈ t.head?, isHexDigit b = false) :
    (c.digits ++ t).takeWhile isHexDigit = c.digits := by
  rw [List.takeWhile_append_of_pos c.digits_hex]
  cases t with
  | nil => simp
  | cons b t => simp [ht b rfl]

/-- With the length there, it depends on what comes behind it. -/
theorem skipChunk_line (rest : List UInt8) : skipChunk (c.digits ++ 13 :: 10 :: rest) = some
    (if rest.length < c.data.length + 2 then .wait
      else if rest[c.data.length]? ≠ some 13 || rest[c.data.length + 1]? ≠ some 10 then .invalid
      else .chunk c.bytes.length (c.digits.length + 2) c.data.length) := by
  have hall : (c.digits ++ 13 :: 10 :: rest).takeWhile isHexDigit = c.digits :=
    c.takeWhile_digits (by simp [isHexDigit])
  have hvalue : c.digits.foldl (fun n b => n * 16 + hexDigit b) 0 = c.data.length := c.size
  have hlen : (c.digits ++ 13 :: 10 :: rest).length = c.digits.length + (rest.length + 2) := by
    simp
  have hat (k : Nat) :
      (c.digits ++ 13 :: 10 :: rest)[c.digits.length + k]? = (13 :: 10 :: rest)[k]? := by
    rw [List.getElem?_append_right (Nat.le_add_right _ _), Nat.add_sub_cancel_left]
  have hreturn := hat 0
  have hfeed := hat 1
  have hreturn' := hat (c.data.length + 2)
  have hfeed' := hat (c.data.length + 3)
  simp only [List.getElem?_cons_zero, List.getElem?_cons_succ, Nat.add_zero, ← Nat.add_assoc]
    at hreturn hfeed hreturn' hfeed'
  have hpos := c.digits_pos
  have hle := c.digits_le
  have hsize := c.size_lt
  have hshort : c.digits.length + (rest.length + 2) < c.digits.length + c.data.length + 4 ↔
      rest.length < c.data.length + 2 := by omega
  have hbytes : c.digits.length + 2 + c.data.length + 2 = c.bytes.length := by
    rw [length_bytes]
    omega
  unfold skipChunk
  simp only [hall, hlen, List.take_left, hvalue, hreturn, hfeed, hreturn', hfeed', hshort]
  rw [if_neg (by omega), if_neg (by omega), if_neg (by omega), if_neg (by omega), if_neg (by simp)]
  simp only [Option.bind_eq_bind, Option.bind_some]
  rw [if_neg (by simp), if_neg (by omega), hbytes]
  simp only [Option.pure_def, apply_ite some]

/-- A chunk that has come is skipped. -/
theorem skipChunk_bytes (tail : List UInt8) : skipChunk (c.bytes ++ tail) =
    some (.chunk c.bytes.length (c.digits.length + 2) c.data.length) := by
  have hsplit : c.bytes ++ tail = c.digits ++ 13 :: 10 :: (c.data ++ 13 :: 10 :: tail) := by
    simp [bytes]
  rw [hsplit, skipChunk_line, if_neg (by simp), if_neg (by simp)]

/-- What `skip_chunk` makes of the first `m` bytes of a chunk. -/
def cutResult (m : Nat) : Option SkipChunk :=
  if m < 3 ∨ c.digits.length + 2 ≤ m then some .wait
  else if m = c.digits.length + 1 then none
  else some .invalid

/-- **A chunk of which only a part has come.**  It is waited for, or taken for invalid, or a byte is
read that has not come: within its length it depends on where the part ends. -/
theorem skipChunk_take {m : Nat} (hm : m < c.bytes.length) :
    skipChunk (c.bytes.take m) = c.cutResult m := by
  have hlen : (c.bytes.take m).length = m := by
    rw [List.length_take]
    omega
  by_cases hshort : m < 3
  · rw [cutResult, if_pos (.inl hshort), skipChunk]
    simp only [hlen]
    rw [if_pos hshort]
  have hpos := c.digits_pos
  have hle := c.digits_le
  by_cases hdigits : m ≤ c.digits.length
  · -- there are digits only
    have htake : c.bytes.take m = c.digits.take m := by
      rw [bytes, List.take_append_of_le_length hdigits]
    have hall : (c.digits.take m).takeWhile isHexDigit = c.digits.take m :=
      List.takeWhile_eq_self_iff.mpr fun b hb => c.digits_hex b (List.mem_of_mem_take hb)
    have hlen' : (c.digits.take m).length = m := by
      rw [List.length_take]
      omega
    rw [cutResult, if_neg (by omega), if_neg (by omega), htake, skipChunk]
    simp only [hall, hlen']
    rw [if_neg hshort, if_neg (by omega), if_neg (by omega), if_pos (by omega)]
  by_cases hreturn : m = c.digits.length + 1
  · have htake : c.bytes.take m = c.digits ++ [13] := by
      rw [bytes, hreturn, List.take_length_add_append]
      rfl
    rw [cutResult, if_neg (by omega), if_pos hreturn, htake]
    exact skipChunk_eq_none_iff.mpr ⟨c.digits, rfl, by omega, hle, c.digits_hex⟩
  -- the length has come
  obtain ⟨k, rfl⟩ : ∃ k, m = c.digits.length + (k + 2) := ⟨m - c.digits.length - 2, by omega⟩
  have htake : c.bytes.take (c.digits.length + (k + 2)) =
      c.digits ++ 13 :: 10 :: (c.data ++ [13, 10]).take k := by
    rw [bytes, List.take_length_add_append]
    rfl
  have hk : k < c.data.length + 2 := by
    rw [c.length_bytes] at hm
    omega
  rw [cutResult, if_pos (.inr (by omega)), htake, skipChunk_line, if_pos]
  rw [List.length_take]
  omega

end Chunk

/-! ## 2. The chunks of a body -/

/-- Chunks that have come are gone through. -/
theorem dechunk_chunks (t : List UInt8) (k : Nat) :
    ∀ (chunks : List Chunk) (pre body : List UInt8), (∀ c ∈ chunks, c.data ≠ []) →
      dechunk (pre ++ (chunks.flatMap Chunk.bytes ++ t)) (chunks.length + k) pre.length body =
        dechunk (pre ++ (chunks.flatMap Chunk.bytes ++ t)) k
          (pre ++ chunks.flatMap Chunk.bytes).length (body ++ chunks.flatMap Chunk.data)
  | [], pre, body, _ => by simp
  | c :: chunks, pre, body, h => by
    obtain ⟨hc, h⟩ := List.forall_mem_cons.mp h
    have hrest := dechunk_chunks t k chunks (pre ++ c.bytes) (body ++ c.data) h
    have hsplit : pre ++ ((c :: chunks).flatMap Chunk.bytes ++ t) =
        pre ++ (c.bytes ++ (chunks.flatMap Chunk.bytes ++ t)) := by simp
    have hdata : ((pre ++ (c.bytes ++ (chunks.flatMap Chunk.bytes ++ t))).drop
        (pre.length + (c.digits.length + 2))).take c.data.length = c.data := by
      rw [List.drop_length_add_append, Chunk.bytes]
      simp
    rw [hsplit, List.length_cons, Nat.succ_add_eq_add_succ, Nat.add_succ, dechunk, List.drop_left,
      c.skipChunk_bytes]
    simp only [Option.bind_eq_bind, Option.bind_some, hdata]
    rw [if_neg (by simpa using hc)]
    simp only [List.append_assoc, List.length_append, List.flatMap_cons] at hrest ⊢
    rw [hrest]

/-- Behind the chunks that have come, the first pass ends. -/
theorem dechunk_cut {chunks : List Chunk} (hchunks : ∀ x ∈ chunks, x.data ≠ []) (next : Chunk)
    {m : Nat} (hm : m < next.bytes.length) (k : Nat) :
    dechunk (chunks.flatMap Chunk.bytes ++ next.bytes.take m) (chunks.length + (k + 1)) 0 [] =
      (next.cutResult m).map fun r => if r = .wait then .wait else .invalid := by
  have hskip := next.skipChunk_take hm
  have hdechunk := dechunk_chunks (next.bytes.take m) (k + 1) chunks [] [] hchunks
  rw [List.nil_append, List.nil_append] at hdechunk
  rw [List.length_nil] at hdechunk
  rw [hdechunk, dechunk, List.drop_left, hskip, Chunk.cutResult]
  split
  · rfl
  split
  · rfl
  · rfl

/-- The last chunk, which is empty, ends it as well. -/
theorem dechunk_done {chunks : List Chunk} (hchunks : ∀ x ∈ chunks, x.data ≠ []) {last : Chunk}
    (hlast : last.data = []) (tail : List UInt8) (k : Nat) :
    dechunk (chunks.flatMap Chunk.bytes ++ (last.bytes ++ tail)) (chunks.length + (k + 1)) 0 [] =
      some (.done ((chunks.flatMap Chunk.bytes).length + last.bytes.length)
        (chunks.flatMap Chunk.data)) := by
  have hdechunk := dechunk_chunks (last.bytes ++ tail) (k + 1) chunks [] [] hchunks
  rw [List.nil_append, List.nil_append] at hdechunk
  rw [List.length_nil] at hdechunk
  rw [hdechunk, dechunk, List.drop_left, last.skipChunk_bytes, hlast]
  simp

/-- There are rounds enough for the chunks. -/
theorem length_chunks_le (chunks : List Chunk) :
    chunks.length ≤ (chunks.flatMap Chunk.bytes).length := by
  induction chunks with
  | nil => simp
  | cons c chunks ih =>
    rw [List.flatMap_cons, List.length_append, List.length_cons, c.length_bytes]
    omega

/-! ## 3. A message in chunks -/

/-- How a round ends, given what the first pass over the chunks ends with. -/
def chunksEnd (c : MgConnection) (ofs : Nat) : Option SkipChunk → Option HttpCbRound
  | none => none
  | some .wait => some (.leave (c.del ofs))
  | some _ => some (.leave ({ c with isClosing := true }.del ofs))

section Arriving

variable {c : MgConnection} {ofs : Nat} {hm : MgHttpRequest} {te : List UInt8}
  {chunks : List Chunk}

/-- **A body in chunks, at any moment of its arrival.**  When the last chunk is there, the event
handler is called for the message, whose body is the data of the chunks, and what comes behind is
left.  Before that the connection waits, unless what has come ends within the length of a chunk,
behind its second byte: then the chunk is taken for invalid and the connection closed, or, behind
the carriage return, a byte is read that has not come. -/
theorem chunks_arrive (hparse : mgHttpParse (c.recv.drop ofs) = some (.message hm))
    (hte : mgHttpGetHeader hm.headers (str "Transfer-Encoding") = some te)
    (hchunked : mgStrcasecmp te (str "chunked") = true)
    (hchunks : ∀ x ∈ chunks, x.data ≠ []) (next : Chunk) :
    (∀ m < next.bytes.length,
      (c.recv.drop ofs).drop hm.headLen = chunks.flatMap Chunk.bytes ++ next.bytes.take m →
      httpCbRound false c ofs = chunksEnd c ofs (next.cutResult m)) ∧
    (∀ tail, next.data = [] →
      (c.recv.drop ofs).drop hm.headLen = chunks.flatMap Chunk.bytes ++ (next.bytes ++ tail) →
      httpCbRound false c ofs = some (c.deliver
        { hm with bodyLen := (chunks.flatMap Chunk.data).length
                  messageLen := hm.headLen + (chunks.flatMap Chunk.data).length
                  body := chunks.flatMap Chunk.data }
        (ofs + (hm.headLen + ((chunks.flatMap Chunk.bytes).length + next.bytes.length))))) := by
  obtain ⟨hpos, hle⟩ := headLen_pos hparse
  have hround : httpCbRound false c ofs = chunkedMessage c hm ofs := by
    rw [httpCbRound, hparse]
    simp only [Option.bind_eq_bind, Option.bind_some, Bool.false_eq_true, if_false, hte, hchunked,
      if_true]
  have hfuel : ∀ t, (c.recv.drop ofs).drop hm.headLen = chunks.flatMap Chunk.bytes ++ t →
      ∃ k, (c.recv.drop ofs).length = chunks.length + (k + 1) := by
    intro t ht
    have hlen := congrArg List.length ht
    rw [List.length_drop, List.length_append] at hlen
    have hfew := length_chunks_le chunks
    exact ⟨(c.recv.drop ofs).length - chunks.length - 1, by omega⟩
  rw [hround]
  constructor
  · intro m hm' hbody
    obtain ⟨k, hk⟩ := hfuel _ hbody
    rw [chunkedMessage]
    simp only [hbody, hk]
    rw [dechunk_cut hchunks next hm', Chunk.cutResult]
    split
    · rfl
    split
    · rfl
    · rfl
  · intro tail hlast hbody
    obtain ⟨k, hk⟩ := hfuel _ hbody
    rw [chunkedMessage]
    simp only [hbody, hk]
    rw [dechunk_done hchunks hlast]
    rfl

end Arriving

/-- The head of a request whose body comes in chunks. -/
def chunkedHead : List UInt8 := str "POST /m HTTP/1.1\r\nTransfer-Encoding: chunked\r\n\r\n"

/-- What `mg_http_parse` makes of it. -/
def chunkedRequest : MgHttpRequest where
  method := str "POST"
  uri := str "/m"
  query := []
  proto := str "HTTP/1.1"
  headers := [⟨str "Transfer-Encoding", str "chunked"⟩]
  isResponse := false
  headLen := 48
  bodyLen := 0
  messageLen := 48

/-- The first chunk, and four bytes of the second. -/
def cutChunk : MgConnection where
  recv := chunkedHead ++ str "1\r\nA\r\n0010"

/-- Two chunks, the last one, and the beginning of another request. -/
def wholeChunks : MgConnection where
  recv := chunkedHead ++ str "1\r\nA\r\n02\r\nBC\r\n0\r\n\r\nGET"

/-- A chunk of 16 bytes that is cut within its length closes the connection; when all have come,
the message is handed over with `ABC` as its body. -/
theorem chunkedRequest_arrives :
    httpCbRound false cutChunk 0 = some (.leave ({ cutChunk with isClosing := true }.del 0)) ∧
      httpCbRound false wholeChunks 0 = some (wholeChunks.deliver
        { chunkedRequest with bodyLen := 3, messageLen := 51, body := str "ABC" } 67) := by
  have hte : mgHttpGetHeader chunkedRequest.headers (str "Transfer-Encoding") =
      some (str "chunked") := by decide +kernel
  constructor
  · have hparse : mgHttpParse (cutChunk.recv.drop 0) = some (.message chunkedRequest) := by
      decide +kernel
    let before : List Chunk := [{ digits := str "1", data := str "A" }]
    have hbefore : ∀ x ∈ before, x.data ≠ [] := by decide
    have harrive := chunks_arrive hparse hte (by decide +kernel) hbefore
      { digits := str "0010", data := List.replicate 16 65 }
    exact harrive.1 4 (by decide +kernel) (by decide +kernel)
  · have hparse : mgHttpParse (wholeChunks.recv.drop 0) = some (.message chunkedRequest) := by
      decide +kernel
    let before : List Chunk :=
      [{ digits := str "1", data := str "A" }, { digits := str "02", data := str "BC" }]
    have hbefore : ∀ x ∈ before, x.data ≠ [] := by decide
    have harrive := chunks_arrive hparse hte (by decide +kernel) hbefore
      { digits := str "0", data := [] }
    exact harrive.2 (str "GET") rfl (by decide +kernel)

end WhatIsHappening
