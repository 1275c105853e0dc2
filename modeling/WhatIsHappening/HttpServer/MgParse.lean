/-
# What the vendored parser makes of a well-formed message

`mg_http_parse` is given bytes from a connection: a message, what comes behind it, and nothing that
says where the one ends.  `mgHttpParse_message` says that it finds the parts that were put together,
for requests and for replies.
-/
import WhatIsHappening.HttpServer.MgReads
import WhatIsHappening.HttpServer.Segments
import WhatIsHappening.HttpServer.Framing

namespace WhatIsHappening

open CLib

/-! ## 1. Bytes of the head

The scanner goes character by character and knows UTF-8; of a well-formed head it sees visible
bytes, which are characters of one byte, and other text, which it need not tell apart. -/

/-- A byte of the text of a line. -/
def isTextByte (b : UInt8) : Bool := isok b && b ≠ 10 && b ≠ 13

/-- Visible bytes are text. -/
theorem isText_of_visible {b : UInt8} (h : isTargetByte b = true) : isTextByte b = true := by
  simp only [isTargetByte, Bool.and_eq_true, decide_eq_true_eq] at h
  have hb : 32 ≤ b := UInt8.le_trans (by decide) h.1
  have hfeed : b ≠ 10 := by rintro rfl; exact absurd hb (by decide)
  have hreturn : b ≠ 13 := by rintro rfl; exact absurd hb (by decide)
  simp [isTextByte, isok, hb, hfeed, hreturn]

/-- So are blanks. -/
theorem isText_of_blank {b : UInt8} (h : isBlank b = true) : isTextByte b = true := by
  simp only [isBlank, Bool.or_eq_true, decide_eq_true_eq] at h
  rcases h with rfl | rfl <;> decide

/-- A visible byte is a character. -/
theorem clen_visible {b : UInt8} (h : isTargetByte b = true) (s : List UInt8) :
    clen (b :: s) = 1 := by
  simp only [isTargetByte, Bool.and_eq_true, decide_eq_true_eq] at h
  have hb : 32 < b := UInt8.lt_of_lt_of_le (by decide) h.1
  simp [clen, hb, h.2]

/-- The visible bytes before something else. -/
theorem clenLoop_visible {stop : UInt8 → Bool} {t : List UInt8}
    (ht : ∀ c u, t = c :: u → stop c = true ∨ clen t = 0) :
    ∀ k (s : List UInt8), s.length ≤ k → (∀ b ∈ s, isTargetByte b = true ∧ stop b = false) →
      clenLoop stop k (s ++ t) = s.length
  | 0, s, hk, _ => by
    rw [List.length_eq_zero_iff.mp (Nat.le_zero.mp hk)]
    rfl
  | k + 1, [], _, _ => by
    cases t with
    | nil => rfl
    | cons c u =>
      rw [List.nil_append, clenLoop]
      rcases ht c u rfl with hstop | hclen
      · simp [hstop]
      · simp [hclen]
  | k + 1, b :: s, hk, hs => by
    obtain ⟨hb, hs⟩ := List.forall_mem_cons.mp hs
    rw [List.cons_append, clenLoop]
    simp only [hb.2, clen_visible hb.1, Bool.false_eq_true, if_false, List.drop_succ_cons,
      List.drop_zero, List.length_cons]
    rw [clenLoop_visible ht k s (Nat.le_of_succ_le_succ hk) hs]
    simp [Nat.add_comm]

/-! ## 2. Where the head ends

`mg_http_get_request_len` looks for an empty line at every byte.  No line of a well-formed head is
empty and none has a line end within it, so the first empty line is the one behind the head. -/

/-- What `mg_http_get_request_len` comes to when `pre` is behind it and `s` is left. -/
def requestLenFrom (pre s : List UInt8) : Int := requestLenLoop (pre ++ s) s.length pre.length

/-- One byte further. -/
theorem requestLenFrom_cons {pre s : List UInt8} {b : UInt8} (hb : isok b = true) :
    requestLenFrom pre (b :: s) = if endsHead (pre ++ b :: s) pre.length then (pre.length + 1 : Int)
      else requestLenFrom (pre ++ [b]) s := by
  have hhere : (pre ++ b :: s)[pre.length]? = some b := by simp
  rw [requestLenFrom, List.length_cons, requestLenLoop]
  simp only [hhere, Option.any_some, hb, Bool.not_true, Bool.false_eq_true, if_false]
  simp [requestLenFrom]

/-- No head ends in the text of a line, or at its carriage return. -/
theorem requestLenFrom_text :
    ∀ (l pre s : List UInt8), (∀ b ∈ l, isok b = true ∧ b ≠ 10) →
      requestLenFrom pre (l ++ s) = requestLenFrom (pre ++ l) s
  | [], pre, s, _ => by simp
  | b :: l, pre, s, h => by
    obtain ⟨hb, h⟩ := List.forall_mem_cons.mp h
    have hends : endsHead (pre ++ b :: (l ++ s)) pre.length = false := by
      simp [endsHead, hb.2]
    rw [List.cons_append, requestLenFrom_cons hb.1, hends, if_neg Bool.false_ne_true,
      requestLenFrom_text l (pre ++ [b]) s h, List.append_assoc, List.singleton_append]

/-- Text has no line end in it. -/
theorem ok_of_text {b : UInt8} (h : isTextByte b = true) : isok b = true ∧ b ≠ 10 ∧ b ≠ 13 := by
  simpa [isTextByte, and_assoc] using h

/-- At a line feed the two bytes before it matter. -/
theorem endsHead_feed (p s : List UInt8) (c d : UInt8) :
    endsHead (p ++ c :: d :: 10 :: s) (p.length + 2) =
      (d = 10 || (1 < p.length && d = 13 && c = 10)) := by
  have htwo : (p ++ c :: d :: 10 :: s)[p.length]? = some c := by simp
  have hone : (p ++ c :: d :: 10 :: s)[p.length + 1]? = some d := by simp
  have hhere : (p ++ c :: d :: 10 :: s)[p.length + 2]? = some 10 := by simp
  have hlen : (3 < p.length + 2) ↔ (1 < p.length) := by omega
  rw [endsHead, hhere, show p.length + 2 - 1 = p.length + 1 by omega, hone,
    show p.length + 2 - 2 = p.length by omega, htwo]
  simp [hlen]

/-- A line that is not empty is passed over. -/
theorem requestLenFrom_line {l : List UInt8} (hne : l ≠ []) (hl : ∀ b ∈ l, isTextByte b = true)
    (pre s : List UInt8) :
    requestLenFrom pre (l ++ 13 :: 10 :: s) = requestLenFrom (pre ++ l ++ [13, 10]) s := by
  obtain ⟨l, c, rfl⟩ : ∃ l' c, l = l' ++ [c] :=
    ⟨l.dropLast, l.getLast hne, (List.dropLast_concat_getLast hne).symm⟩
  have hc : c ≠ 10 := (ok_of_text (hl c (by simp))).2.1
  have htext : ∀ b ∈ l ++ [c, 13], isok b = true ∧ b ≠ 10 := by
    intro b hb
    simp only [List.mem_append, List.mem_cons, List.not_mem_nil, or_false] at hb
    rcases hb with hb | rfl | rfl
    · exact ⟨(ok_of_text (hl b (by simp [hb]))).1, (ok_of_text (hl b (by simp [hb]))).2.1⟩
    · exact ⟨(ok_of_text (hl b (by simp))).1, hc⟩
    · exact ⟨by decide, by decide⟩
  have hends := endsHead_feed (pre ++ l) s c 13
  have hsplit : l ++ [c] ++ 13 :: 10 :: s = l ++ [c, 13] ++ 10 :: s := by simp
  rw [hsplit, requestLenFrom_text _ pre _ htext, requestLenFrom_cons (by decide)]
  simp only [List.append_assoc, List.length_append, List.cons_append, List.nil_append] at hends ⊢
  rw [show pre.length + (l.length + [c, 13].length) = pre.length + l.length + 2 from rfl, hends]
  simp [hc]

/-- The empty line behind others ends the head. -/
theorem requestLenFrom_end {p : List UInt8} (hp : p ≠ []) (s : List UInt8) :
    requestLenFrom (p ++ [13, 10]) (13 :: 10 :: s) = (p ++ [13, 10, 13, 10]).length := by
  have htext : ∀ b ∈ [(13 : UInt8)], isok b = true ∧ b ≠ 10 := by simp [isok]
  have hends := endsHead_feed (p ++ [13]) s 10 13
  have hlen : 0 < p.length := List.length_pos_iff.mpr hp
  rw [show 13 :: 10 :: s = [13] ++ 10 :: s from rfl, requestLenFrom_text _ _ _ htext,
    requestLenFrom_cons (by decide)]
  simp only [List.append_assoc, List.cons_append, List.nil_append, List.length_append] at hends ⊢
  rw [show p.length + [13, 10, (13 : UInt8)].length = p.length + [(13 : UInt8)].length + 2 from rfl,
    hends]
  simp [hlen]
  omega

/-- The lines of the head are passed, one after the other. -/
theorem requestLenFrom_lines :
    ∀ (lines : List (List UInt8)) (p s : List UInt8), p ≠ [] →
      (∀ l ∈ lines, l ≠ [] ∧ ∀ b ∈ l, isTextByte b = true) →
      requestLenFrom (p ++ [13, 10]) (lines.flatMap (· ++ [13, 10]) ++ 13 :: 10 :: s) =
        (p ++ [13, 10] ++ lines.flatMap (· ++ [13, 10]) ++ [13, 10]).length
  | [], p, s, hp, _ => by
    rw [List.flatMap_nil, List.nil_append, requestLenFrom_end hp]
    simp
  | l :: lines, p, s, hp, h => by
    obtain ⟨⟨hne, hl⟩, h⟩ := List.forall_mem_cons.mp h
    have hrest := requestLenFrom_lines lines (p ++ [13, 10] ++ l) s (by simp [hp]) h
    have hsplit : (l :: lines).flatMap (· ++ [13, 10]) ++ 13 :: 10 :: s =
        l ++ 13 :: 10 :: (lines.flatMap (· ++ [13, 10]) ++ 13 :: 10 :: s) := by simp
    rw [hsplit, requestLenFrom_line hne hl, hrest]
    simp

/-- **The head ends behind its empty line**, whatever comes there. -/
theorem mgHttpGetRequestLen_lines {line : List UInt8} {lines : List (List UInt8)}
    (h : ∀ l ∈ line :: lines, l ≠ [] ∧ ∀ b ∈ l, isTextByte b = true) (s : List UInt8) :
    mgHttpGetRequestLen (line ++ [13, 10] ++ lines.flatMap (· ++ [13, 10]) ++ [13, 10] ++ s) =
      (line ++ [13, 10] ++ lines.flatMap (· ++ [13, 10]) ++ [13, 10]).length := by
  obtain ⟨⟨hne, hl⟩, h⟩ := List.forall_mem_cons.mp h
  have hfirst := requestLenFrom_line hne hl [] (lines.flatMap (· ++ [13, 10]) ++ 13 :: 10 :: s)
  rw [List.nil_append, requestLenFrom_lines lines line s hne h] at hfirst
  rw [← hfirst, requestLenFrom, mgHttpGetRequestLen]
  simp

/-! ## 3. Header lines

A line is a name, a colon and a value with blanks around it; the parser gives back name and value
without the blanks. -/

theorem isBlank_of_space : ∀ b ∈ [(32 : UInt8)], isBlank b = true := by simp [isBlank]

theorem isBlank_of_nil : ∀ b ∈ ([] : List UInt8), isBlank b = true := by simp

/-- A header line, with blanks around its value. -/
structure HeaderLine where
  name : List UInt8
  before : List UInt8 := [32]
  value : List UInt8
  after : List UInt8 := []
  name_ne : name ≠ [] := by decide
  name_token : ∀ b ∈ name, isTokenByte b = true := by decide +kernel
  before_blank : ∀ b ∈ before, isBlank b = true := by exact isBlank_of_space
  after_blank : ∀ b ∈ after, isBlank b = true := by exact isBlank_of_nil
  value_text : ∀ b ∈ value, isTextByte b = true := by decide +kernel
  value_head : ∀ b ∈ value.head?, isBlank b = false := by decide +kernel
  value_last : ∀ b ∈ value.getLast?, isBlank b = false := by decide +kernel

namespace HeaderLine

variable (f : HeaderLine)

/-- The line on the wire. -/
def bytes : List UInt8 := f.name ++ 58 :: (f.before ++ (f.value ++ f.after))

/-- What the parser makes of it. -/
def header : MgHttpHeader := ⟨f.name, f.value⟩

/-- A line is not empty. -/
theorem bytes_ne : f.bytes ≠ [] := by simp [bytes]

/-- It is text. -/
theorem bytes_text : ∀ b ∈ f.bytes, isTextByte b = true := by
  intro b hb
  simp only [bytes, List.mem_append, List.mem_cons] at hb
  rcases hb with hb | rfl | hb | hb | hb
  · exact isText_of_visible (WellFormedRequest.visible_of_token (f.name_token b hb))
  · decide
  · exact isText_of_blank (f.before_blank b hb)
  · exact f.value_text b hb
  · exact isText_of_blank (f.after_blank b hb)

/-- The blanks behind the value are cut off. -/
theorem trimEnd_value : trimEnd (f.value ++ f.after) = f.value := by
  have hafter : f.after.reverse.dropWhile isBlank = [] :=
    List.dropWhile_eq_nil_iff.mpr fun b hb => f.after_blank b (List.mem_reverse.mp hb)
  have hlast : f.value.reverse.dropWhile isBlank = f.value.reverse := by
    cases hrev : f.value.reverse with
    | nil => rfl
    | cons b l =>
      have hb : isBlank b = false := f.value_last b (by
        rw [← List.head?_reverse, hrev]
        rfl)
      simp [hb]
  rw [trimEnd, List.reverse_append, List.dropWhile_append, hafter]
  simp [hlast]

/-- The value that is found, between the blanks. -/
theorem value_found (s : List UInt8) :
    ∃ v, (f.before ++ (f.value ++ f.after) ++ 13 :: 10 :: s).dropWhile isBlank =
      v ++ 13 :: 10 :: s ∧ (∀ b ∈ v, isTextByte b = true) ∧ trimEnd v = f.value := by
  rw [List.append_assoc, List.dropWhile_append_of_pos f.before_blank, List.append_assoc]
  cases hvalue : f.value with
  | nil =>
    rw [List.nil_append, List.dropWhile_append_of_pos f.after_blank]
    exact ⟨[], by simp [isBlank], by simp, by simp [trimEnd]⟩
  | cons b l =>
    have hb : isBlank b = false := f.value_head b (by rw [hvalue]; rfl)
    refine ⟨f.value ++ f.after, ?_, fun b hb => ?_, hvalue ▸ f.trimEnd_value⟩
    · simp [hb, hvalue]
    · rcases List.mem_append.mp hb with hb | hb
      · exact f.value_text b hb
      · exact isText_of_blank (f.after_blank b hb)

end HeaderLine

/-- The text of a line is taken, and the line end skipped. -/
theorem skiptorn_line {v : List UInt8} (h : ∀ b ∈ v, isTextByte b = true) (s : List UInt8) :
    skiptorn (v ++ 13 :: 10 :: s) = some (some (v, s)) := by
  have hplain : ∀ b ∈ v, (decide (b ≠ 10) && decide (b ≠ 13)) = true := fun b hb => by
    simp [(ok_of_text (h b hb)).2]
  rw [skiptorn, List.takeWhile_append_of_pos hplain, List.dropWhile_append_of_pos hplain]
  simp

/-- No name has a colon in it. -/
theorem ne_colon_of_token {b : UInt8} (h : isTokenByte b = true) : b ≠ 58 := by
  rintro rfl
  exact absurd h (by decide +kernel)

/-- A header line is taken off. -/
theorem mgHttpParseHeaders_cons (max : Nat) (f : HeaderLine) (t : List UInt8) :
    mgHttpParseHeaders (max + 1) (f.bytes ++ 13 :: 10 :: t) =
      (mgHttpParseHeaders max t).map (Option.map (f.header :: ·)) := by
  have hvisible : ∀ b ∈ f.name, isTargetByte b = true := fun b hb =>
    WellFormedRequest.visible_of_token (f.name_token b hb)
  -- the line does not look like the empty one
  have hblank : atBlankLine (f.bytes ++ 13 :: 10 :: t) = some false := by
    obtain ⟨c, n, hn⟩ := List.exists_cons_of_ne_nil f.name_ne
    obtain ⟨-, hfeed, hreturn, -⟩ := WellFormedRequest.ne_of_visible (hvisible c (by simp [hn]))
    simp [HeaderLine.bytes, hn, atBlankLine, hfeed, hreturn]
  have hsplit : f.bytes ++ 13 :: 10 :: t =
      f.name ++ 58 :: (f.before ++ (f.value ++ f.after) ++ 13 :: 10 :: t) := by
    simp [HeaderLine.bytes]
  have hname : clenLoop (· = 58) (f.bytes ++ 13 :: 10 :: t).length (f.bytes ++ 13 :: 10 :: t) =
      f.name.length := by
    rw [hsplit]
    refine clenLoop_visible (fun c u hc => ?_) _ _ (by simp) fun b hb => ?_
    · cases hc
      exact .inl rfl
    · exact ⟨hvisible b hb, by simp [ne_colon_of_token (f.name_token b hb)]⟩
  obtain ⟨v, hv, htext, htrim⟩ := f.value_found t
  rw [mgHttpParseHeaders, if_neg (by simp [f.bytes_ne])]
  simp only [hblank, Option.bind_eq_bind, Option.bind_some, hname]
  rw [hsplit, List.drop_left, List.take_left]
  simp only [Bool.false_eq_true, if_false, clen_visible (show isTargetByte 58 = true by decide),
    List.length_eq_zero_iff, f.name_ne, hv, skiptorn_line htext, htrim, Option.bind_some]
  cases mgHttpParseHeaders max t with
  | none => rfl
  | some headers => rfl

/-- **The headers are those of the lines.** -/
theorem mgHttpParseHeaders_lines :
    ∀ (max : Nat) (fields : List HeaderLine) (s : List UInt8), fields.length ≤ max →
      mgHttpParseHeaders max ((fields.map HeaderLine.bytes).flatMap (· ++ [13, 10]) ++
        13 :: 10 :: s) = some (some (fields.map HeaderLine.header))
  | 0, fields, s, h => by
    rw [List.length_eq_zero_iff.mp (Nat.le_zero.mp h)]
    rfl
  | max + 1, [], s, _ => by
    rw [mgHttpParseHeaders]
    simp [atBlankLine]
  | max + 1, f :: fields, s, h => by
    have hrest := mgHttpParseHeaders_lines max fields s (Nat.le_of_succ_le_succ h)
    simp only [List.map_cons, List.flatMap_cons, List.append_assoc, List.cons_append,
      List.nil_append] at hrest ⊢
    rw [mgHttpParseHeaders_cons, hrest]
    rfl

/-! ## 4. The first line

Three parts and the blanks between them, for a request and for a reply alike (`FirstLine`). -/

/-- What the parts of a first line have to be. -/
structure FirstLine (method target proto : List UInt8) : Prop where
  method_ne : method ≠ []
  method_visible : ∀ b ∈ method, isTargetByte b = true
  target_visible : ∀ b ∈ target, isTargetByte b = true
  path_ne : target.takeWhile (· ≠ 63) ≠ []
  proto_text : ∀ b ∈ proto, isTextByte b = true
  proto_head : ∀ b ∈ proto.head?, b ≠ 32

/-- The blanks between two parts are skipped. -/
theorem dropWhile_space {s : List UInt8} (h : ∀ b ∈ s.head?, b ≠ 32) :
    (32 :: s).dropWhile (· = 32) = s := by
  cases s with
  | nil => simp
  | cons b s => simp [h b rfl]

/-- A blank ends a part. -/
theorem clen_space (t : List UInt8) : clen (32 :: t) = 0 := by
  have htwo : ¬ (32 : UInt8) &&& 0xe0 = 0xc0 := by decide
  have hthree : ¬ (32 : UInt8) &&& 0xf0 = 0xe0 := by decide
  have hfour : ¬ (32 : UInt8) &&& 0xf8 = 0xf0 := by decide
  simp [clen, htwo, hthree, hfour]

/-- The visible bytes before a space. -/
theorem clenLoop_space {s t : List UInt8} (hs : ∀ b ∈ s, isTargetByte b = true) :
    clenLoop (fun _ => false) (s ++ 32 :: t).length (s ++ 32 :: t) = s.length := by
  refine clenLoop_visible (fun c u hc => ?_) _ _ (by simp) fun b hb => ⟨hs b hb, rfl⟩
  cases hc
  exact .inr (clen_space t)

/-- **The parts of a head are found.** -/
theorem mgHttpParseHead_parts {method target proto s : List UInt8} {headers : List MgHttpHeader}
    {isResponse isVersion : Bool} {bodyLen messageLen : Nat} (h : FirstLine method target proto)
    (hresponse : isResponseMethod method = some isResponse)
    (hversion : isHttpVersion proto = some isVersion) (hkind : isResponse || isVersion)
    (hheaders : mgHttpParseHeaders MG_MAX_HTTP_HEADERS s = some (some headers))
    (hlen : messageLengths headers (target.takeWhile (· ≠ 63)) isResponse
      (method ++ 32 :: (target ++ 32 :: (proto ++ 13 :: 10 :: s))).length =
        some (bodyLen, messageLen)) :
    mgHttpParseHead (method ++ 32 :: (target ++ 32 :: (proto ++ 13 :: 10 :: s))) = some (.message
      { method, uri := target.takeWhile (· ≠ 63), query := (target.dropWhile (· ≠ 63)).drop 1
        proto, headers, isResponse, bodyLen, messageLen
        headLen := (method ++ 32 :: (target ++ 32 :: (proto ++ 13 :: 10 :: s))).length }) := by
  have hproto : (32 :: (proto ++ 13 :: 10 :: s)).dropWhile (· = 32) = proto ++ 13 :: 10 :: s := by
    refine dropWhile_space ?_
    cases proto with
    | nil => simp
    | cons c u => exact h.proto_head
  have htarget : (32 :: (target ++ 32 :: (proto ++ 13 :: 10 :: s))).dropWhile (· = 32) =
      target ++ 32 :: (proto ++ 13 :: 10 :: s) := by
    refine dropWhile_space ?_
    cases target with
    | nil => exact absurd rfl h.path_ne
    | cons c u =>
      rintro _ ⟨⟩
      exact (WellFormedRequest.ne_of_visible (h.target_visible c (by simp))).2.2.2
  unfold mgHttpParseHead
  extract_lets m s₁ uri s₂ query path
  have hm : m = method := by
    change List.take _ _ = _
    rw [clenLoop_space h.method_visible, List.take_left]
  have hs₁ : s₁ = target ++ 32 :: (proto ++ 13 :: 10 :: s) := by
    change List.dropWhile _ (List.drop m.length _) = _
    rw [hm, List.drop_left, htarget]
  have huri : uri = target := by
    change List.take _ s₁ = _
    rw [hs₁, clenLoop_space h.target_visible, List.take_left]
  have hs₂ : s₂ = proto ++ 13 :: 10 :: s := by
    change List.dropWhile _ (List.drop uri.length s₁) = _
    rw [huri, hs₁, List.drop_left, hproto]
  have hquery : query = (target.dropWhile (· ≠ 63)).drop 1 := by rw [← huri]
  have hpath : path = target.takeWhile (· ≠ 63) := by rw [← huri]
  rw [hm, hs₂, hresponse, skiptorn_line h.proto_text]
  simp only [Option.bind_eq_bind, Option.bind_some, hversion, hheaders, hquery, hpath, hlen]
  have hknown : (!isResponse && proto ≠ [] && !isVersion) = false := by
    cases isResponse <;> cases isVersion <;> simp_all
  have hparts : (method = [] || target.takeWhile (· ≠ 63) = []) = false := by
    rw [decide_eq_false h.method_ne, decide_eq_false h.path_ne]
    rfl
  rw [hknown, if_neg Bool.false_ne_true, hparts, if_neg Bool.false_ne_true]
  rfl

/-- A head: a line of three parts, header lines, and the empty line. -/
def headBytes (method target proto : List UInt8) (fields : List HeaderLine) : List UInt8 :=
  method ++ 32 :: (target ++ 32 :: proto) ++ [13, 10] ++
    (fields.map HeaderLine.bytes).flatMap (· ++ [13, 10]) ++ [13, 10]

/-- **Behind a head anything may come.** -/
theorem mgHttpParse_append {method target proto : List UInt8} (h : FirstLine method target proto)
    (fields : List HeaderLine) (tail : List UInt8) :
    mgHttpParse (headBytes method target proto fields ++ tail) =
      mgHttpParseHead (headBytes method target proto fields) := by
  have hlines : ∀ l ∈ (method ++ 32 :: (target ++ 32 :: proto)) :: fields.map HeaderLine.bytes,
      l ≠ [] ∧ ∀ b ∈ l, isTextByte b = true := by
    rw [List.forall_mem_cons]
    refine ⟨⟨by simp, fun b hb => ?_⟩, fun l hl => ?_⟩
    · simp only [List.mem_append, List.mem_cons] at hb
      rcases hb with hb | rfl | hb | rfl | hb
      · exact isText_of_visible (h.method_visible b hb)
      · decide
      · exact isText_of_visible (h.target_visible b hb)
      · decide
      · exact h.proto_text b hb
    · obtain ⟨f, -, rfl⟩ := List.mem_map.mp hl
      exact ⟨f.bytes_ne, f.bytes_text⟩
  have hlen := mgHttpGetRequestLen_lines hlines tail
  have hpos : 0 < (headBytes method target proto fields).length := by simp [headBytes]
  rw [mgHttpParse]
  change mgHttpGetRequestLen (headBytes method target proto fields ++ tail) =
    ((headBytes method target proto fields).length : Int) at hlen
  simp only [hlen]
  rw [if_neg (by omega), if_neg (by omega), Int.toNat_natCast, List.take_left]

/-- **A head is taken apart into what it was put together from.** -/
theorem mgHttpParse_message {method target proto : List UInt8} {fields : List HeaderLine}
    {isResponse isVersion : Bool} {bodyLen messageLen : Nat} (h : FirstLine method target proto)
    (hresponse : isResponseMethod method = some isResponse)
    (hversion : isHttpVersion proto = some isVersion) (hkind : isResponse || isVersion)
    (hfields : fields.length ≤ MG_MAX_HTTP_HEADERS)
    (hlen : messageLengths (fields.map HeaderLine.header) (target.takeWhile (· ≠ 63)) isResponse
      (headBytes method target proto fields).length = some (bodyLen, messageLen))
    (tail : List UInt8) :
    mgHttpParse (headBytes method target proto fields ++ tail) = some (.message
      { method, uri := target.takeWhile (· ≠ 63), query := (target.dropWhile (· ≠ 63)).drop 1
        proto, headers := fields.map HeaderLine.header, isResponse, bodyLen, messageLen
        headLen := (headBytes method target proto fields).length }) := by
  have hsplit : headBytes method target proto fields =
      method ++ 32 :: (target ++ 32 :: (proto ++ 13 :: 10 ::
        ((fields.map HeaderLine.bytes).flatMap (· ++ [13, 10]) ++ 13 :: 10 :: []))) := by
    simp [headBytes]
  rw [mgHttpParse_append h]
  rw [hsplit] at hlen ⊢
  exact mgHttpParseHead_parts h hresponse hversion hkind
    (mgHttpParseHeaders_lines _ fields [] hfields) hlen

/-! ## 5. The length of the body

The digits of `Content-Length`, read back as the number they were printed from. -/

/-- A number grows with its digits. -/
theorem le_foldl_digits (ds : List UInt8) (n : Nat) :
    n ≤ ds.foldl (fun n b => n * 10 + (b.toNat - 48)) n := by
  induction ds generalizing n with
  | nil => exact Nat.le_refl n
  | cons d ds ih => exact Nat.le_trans (by omega) (ih (n * 10 + (d.toNat - 48)))

/-- Digits are read as long as the number fits. -/
theorem toSizeDigits_digits :
    ∀ (ds : List UInt8) (n k : Nat), (∀ b ∈ ds, isDigit b = true) →
      ds.foldl (fun n b => n * 10 + (b.toNat - 48)) n ≤ SIZE_MAX →
      toSizeDigits ds n k =
        some (ds.foldl (fun n b => n * 10 + (b.toNat - 48)) n, k + ds.length, [])
  | [], n, k, _, _ => rfl
  | d :: ds, n, k, hds, hle => by
    obtain ⟨hd, hds⟩ := List.forall_mem_cons.mp hds
    rw [List.foldl_cons] at hle ⊢
    have hstep := Nat.le_trans (le_foldl_digits ds _) hle
    have hdigit : (48 ≤ d && d ≤ 57) = true := hd
    have hmul : ¬ n > SIZE_MAX / 10 := by omega
    have hadd : ¬ n * 10 > SIZE_MAX - (d.toNat - 48) := by omega
    rw [toSizeDigits, if_pos hdigit]
    dsimp only
    rw [if_neg hmul, if_neg hadd, toSizeDigits_digits ds _ (k + 1) hds hle, List.length_cons]
    simp only [Option.some.injEq, Prod.mk.injEq, and_true, true_and]
    omega

theorem decimal_ne_nil (n : Nat) : decimal n ≠ [] := by
  unfold decimal
  split
  · simp
  · rename_i hn
    simpa [Nat.digits_eq_nil_iff_eq_zero] using hn

/-- **A printed length is read back.** -/
theorem mgToSizeT_decimal {n : Nat} (h : n < 2 ^ 64) : mgToSizeT (decimal n) = some n := by
  obtain ⟨d, ds, hds⟩ := List.exists_cons_of_ne_nil (decimal_ne_nil n)
  have hd : isDigit d = true := isDigit_decimal n d (by simp [hds])
  have hblank : isBlank d = false := by
    have hne : d ≠ 32 ∧ d ≠ 9 := by constructor <;> rintro rfl <;> exact absurd hd (by decide)
    simp [isBlank, hne]
  have hminus : d ≠ 45 := by
    rintro rfl
    exact absurd hd (by decide)
  have hvalue : (decimal n).foldl (fun n b => n * 10 + (b.toNat - 48)) 0 = n :=
    digitsValue_decimal n
  have hread := toSizeDigits_digits (decimal n) 0 0 (isDigit_decimal n) (by
    rw [hvalue, SIZE_MAX]
    omega)
  rw [hvalue, Nat.zero_add] at hread
  have hdrop : (decimal n).dropWhile isBlank = decimal n := by simp [hds, hblank]
  have hhead : (decimal n).head? ≠ some 45 := by simpa [hds] using hminus
  have hlen : (decimal n).length ≠ 0 := by simp [hds]
  simp only [mgToSizeT, hdrop, hread, if_neg hhead, if_neg hlen, Option.bind_eq_bind,
    Option.bind_some]
  rfl

/-- The lengths of a message that announces how long its body is. -/
theorem messageLengths_announced {headers : List MgHttpHeader} {uri : List UInt8}
    {isResponse : Bool} {reqLen n : Nat}
    (h : mgHttpGetHeader headers (str "Content-Length") = some (decimal n)) (hreq : 0 < reqLen)
    (hlen : reqLen + n < 2 ^ 64) :
    messageLengths headers uri isResponse reqLen = some (n, reqLen + n) := by
  have hmax : n ≠ SIZE_MAX := by
    rw [SIZE_MAX]
    omega
  simp only [messageLengths, h, mgToSizeT_decimal (show n < 2 ^ 64 by omega), Option.bind_eq_bind,
    Option.bind_some, Nat.mod_eq_of_lt hlen]
  rw [if_neg (by simp [hmax]), if_neg (by omega)]
  rfl

/-- A request without a length has no body. -/
theorem messageLengths_none {headers : List MgHttpHeader} {uri : List UInt8} {reqLen : Nat}
    (h : mgHttpGetHeader headers (str "Content-Length") = none) :
    messageLengths headers uri false reqLen = some (0, reqLen) := by
  simp [messageLengths, h]

/-! ## 6. Requests

What a client sends, with all that the parser and `http_cb` ask of it, and what the event handler is
called with. -/

/-- A comparison that has ended does not depend on what comes behind. -/
theorem mgNcasecmp_append :
    ∀ (s1 s2 x : List UInt8) (n : Nat) (r : Bool), mgNcasecmp s1 s2 n = some r →
      mgNcasecmp (s1 ++ x) s2 n = some r
  | s1, s2, x, 0, r, h => by
    rw [mgNcasecmp] at h ⊢
    exact h
  | [], _, _, n + 1, _, h => by simp [mgNcasecmp] at h
  | _ :: _, [], _, n + 1, _, h => by simp [mgNcasecmp] at h
  | c :: s1, d :: s2, x, n + 1, r, h => by
    rw [mgNcasecmp] at h
    rw [List.cons_append, mgNcasecmp]
    split
    · rename_i hdiff
      rwa [if_pos hdiff] at h
    rename_i hsame
    rw [if_neg hsame] at h
    split
    · rename_i hnul
      rwa [if_pos hnul] at h
    · rename_i hnul
      rw [if_neg hnul] at h
      exact mgNcasecmp_append s1 s2 x n r h

/-- What compares equal is equal byte by byte, but for case. -/
theorem getElem_of_mgNcasecmp :
    ∀ (s1 s2 : List UInt8) (n : Nat), mgNcasecmp s1 s2 n = some true → 0 ∉ s2.map mgTolc →
      ∀ i < n, ∃ c ∈ s1[i]?, ∃ d ∈ s2[i]?, mgTolc c = mgTolc d
  | _, _, 0, _, _, i, hi => absurd hi (Nat.not_lt_zero i)
  | [], _, n + 1, h, _, _, _ => by simp [mgNcasecmp] at h
  | _ :: _, [], n + 1, h, _, _, _ => by simp [mgNcasecmp] at h
  | c :: s1, d :: s2, n + 1, h, hnul, i, hi => by
    rw [mgNcasecmp] at h
    split at h
    · cases h
    rename_i hsame
    rw [not_not] at hsame
    rw [List.map_cons, List.mem_cons, not_or] at hnul
    have hc : c ≠ 0 := by
      rintro rfl
      exact hnul.1 hsame
    rw [if_neg hc] at h
    cases i with
    | zero => exact ⟨c, rfl, d, rfl, hsame⟩
    | succ i => exact getElem_of_mgNcasecmp s1 s2 n h hnul.2 i (Nat.lt_of_succ_lt_succ hi)

/-- No method begins with `HTTP/`, whatever comes behind its bytes. -/
theorem mgNcasecmp_method {method t : List UInt8} (h : ∀ b ∈ method, isTokenByte b = true)
    {r : Bool} (hr : mgNcasecmp (method ++ t) (str "HTTP/") 5 = some r)
    (ht : method.length < 5 → ∃ u, t = 32 :: u) : r = false := by
  cases r with
  | false => rfl
  | true =>
    have hread := getElem_of_mgNcasecmp _ _ 5 hr (by decide)
    by_cases hlen : method.length < 5
    · -- a space would have to be one of these letters
      obtain ⟨u, rfl⟩ := ht hlen
      obtain ⟨c, hc, d, hd, heq⟩ := hread method.length hlen
      have hspace : c = 32 := by simpa using hc.symm
      have hall : ∀ d ∈ str "HTTP/", mgTolc 32 ≠ mgTolc d := by decide +kernel
      exact absurd (hspace ▸ heq) (hall d (List.mem_of_getElem? hd))
    · -- and so would a slash be a byte of the method
      obtain ⟨c, hc, d, hd, heq⟩ := hread 4 (by decide)
      rw [List.getElem?_append_left (by omega)] at hc
      have htoken := h c (List.mem_of_getElem? hc)
      have hslash : d = 47 := by
        have hd' : (str "HTTP/")[4]? = some d := hd
        simpa [str] using hd'.symm
      subst hslash
      have hc47 : c = 47 := by
        unfold mgTolc at heq
        split at heq
        · rename_i hupper
          have hsub : c = 47 - 32 := by rw [← show c + 32 = 47 from heq]; simp
          subst hsub
          exact absurd hupper (by decide)
        · exact heq.trans (by decide)
      rw [hc47] at htoken
      exact absurd htoken (by decide +kernel)

/-- A request of a client that keeps its connection: its header lines fit in number, its body is as
long as it announces, and it can be received.  A `POST` or a `PUT` announces a length even where it
has no body: without one `http_cb` passes over it twice, and over what comes next. -/
structure ClientRequest where
  request : WellFormedRequest
  fields : List HeaderLine
  body : List UInt8 := []
  headers_eq : request.headers = fields.map HeaderLine.bytes := by rfl
  fields_le : fields.length ≤ MG_MAX_HTTP_HEADERS := by decide
  path_ne : request.target.takeWhile (· ≠ 63) ≠ [] := by decide +kernel
  plain : mgHttpGetHeader (fields.map HeaderLine.header) (str "Transfer-Encoding") = none
  kept : ∀ v ∈ mgHttpGetHeader (fields.map HeaderLine.header) (str "Connection"),
    mgStrcasecmp v (str "close") = false
  announced : mgHttpGetHeader (fields.map HeaderLine.header) (str "Content-Length") =
      some (decimal body.length) ∨
    mgHttpGetHeader (fields.map HeaderLine.header) (str "Content-Length") = none ∧ body = [] ∧
      isEntityMethod request.method = false
  size : (request.message body).length ≤ MG_MAX_RECV_SIZE

namespace ClientRequest

variable (r : ClientRequest)

/-- The request on the wire. -/
def bytes : List UInt8 := r.request.message r.body

/-- What the event handler is called with. -/
def message : MgMessage where
  toMgHttpMessage := r.request.mgHttpMessage
  query := (r.request.target.dropWhile (· ≠ 63)).drop 1
  proto := r.request.version
  headers := r.fields.map HeaderLine.header
  isResponse := false
  headLen := r.request.bytes.length
  bodyLen := r.body.length
  messageLen := r.request.bytes.length + r.body.length
  body := r.body

theorem bytes_ne : r.bytes ≠ [] := by
  simp [bytes, WellFormedRequest.message, WellFormedRequest.bytes]

theorem request_bytes : r.request.bytes =
    headBytes r.request.method r.request.target r.request.version r.fields := by
  simp [WellFormedRequest.bytes, WellFormedRequest.rest, headBytes, r.headers_eq, str]

theorem version_eq : r.request.version =
    str "HTTP/" ++ [digitByte r.request.major, 46, digitByte r.request.minor] := by
  simp [WellFormedRequest.version, str]

theorem firstLine : FirstLine r.request.method r.request.target r.request.version where
  method_ne := r.request.method_ne
  method_visible := WellFormedRequest.method_visible
  target_visible := r.request.target_visible
  path_ne := r.path_ne
  proto_text b hb := isText_of_visible (WellFormedRequest.version_visible b hb)
  proto_head := by
    rw [version_eq]
    rintro _ ⟨⟩
    decide

theorem isHttpVersion_version : isHttpVersion r.request.version = some true := by
  have hdigit : ∀ d : Fin 10, (48 ≤ digitByte d && digitByte d ≤ 57) = true := by decide
  have hname := mgNcasecmp_append (str "HTTP/") (str "HTTP/")
    [digitByte r.request.major, 46, digitByte r.request.minor] 5 true (by decide)
  have hmajor := hdigit r.request.major
  have hminor := hdigit r.request.minor
  rw [version_eq, isHttpVersion, if_pos (by simp [str])]
  simp only [hname, Option.bind_eq_bind, Option.bind_some, if_true]
  simpa [str] using And.intro hmajor hminor

theorem isResponseMethod_method : isResponseMethod r.request.method = some false := by
  unfold isResponseMethod
  split
  · obtain ⟨b, hb⟩ := mgNcasecmp_reads r.request.method (str "HTTP/") 5 (by omega) (by decide)
    have happend : mgNcasecmp (r.request.method ++ []) (str "HTTP/") 5 = some b := by
      rwa [List.append_nil]
    rw [hb, mgNcasecmp_method r.request.method_token happend (by omega)]
  · rfl

/-- The length is that of the body that was sent. -/
theorem lengths : messageLengths (r.fields.map HeaderLine.header)
    (r.request.target.takeWhile (· ≠ 63)) false r.request.bytes.length =
      some (r.body.length, r.request.bytes.length + r.body.length) := by
  have hsize := r.size
  rw [WellFormedRequest.message, List.length_append] at hsize
  have hmax : MG_MAX_RECV_SIZE < 2 ^ 64 := by decide
  rcases r.announced with h | ⟨h, hbody, -⟩
  · refine messageLengths_announced h ?_ (by omega)
    rw [request_bytes]
    simp [headBytes]
  · rw [messageLengths_none h, hbody]
    rfl

/-- **A request is parsed into its parts**, whatever comes behind it. -/
theorem mgHttpParse_request (tail : List UInt8) :
    mgHttpParse (r.bytes ++ tail) = some (.message r.message.toMgHttpRequest) := by
  have hlengths := r.lengths
  rw [bytes, WellFormedRequest.message, List.append_assoc, message]
  rw [request_bytes] at hlengths ⊢
  exact mgHttpParse_message r.firstLine r.isResponseMethod_method r.isHttpVersion_version rfl
    r.fields_le hlengths _

end ClientRequest

end WhatIsHappening
