/-
# What the vendored parser reads

The parser follows a pointer without asking at every step how far it may go: behind a carriage
return it looks at the next byte, and it compares with names whose length the message need not
have.  It may do so because a head ends in a line feed.  The one place where it reads a byte that
has not come is `skip_chunk`, for a chunk whose length ends in a carriage return just received.
-/
import WhatIsHappening.HttpServer.MgHttp

namespace WhatIsHappening

open CLib

/-! ## 1. The end of the head

The parser is only started once `mg_http_get_request_len` has found the end of a head, and every
head ends in a line feed.  The scanning functions all stop at one, so whatever they are given of
the buffer, they need not look behind it (`EndsInFeed`). -/

/-- Ends in a line feed, if there is anything. -/
def EndsInFeed (s : List UInt8) : Prop := ∀ h : s ≠ [], s.getLast h = 10

/-- A rest ends as the whole does. -/
theorem EndsInFeed.suffix {s t : List UInt8} (h : EndsInFeed s) (ht : t <:+ s) : EndsInFeed t := by
  intro hne
  have hs : s ≠ [] := fun hnil => hne (List.eq_nil_of_suffix_nil (hnil ▸ ht))
  exact (ht.getLast hne).symm ▸ h hs

/-- ...behind any offset -/
theorem EndsInFeed.drop {s : List UInt8} (h : EndsInFeed s) (n : Nat) : EndsInFeed (s.drop n) :=
  h.suffix (List.drop_suffix n s)

/-- ...behind whatever is skipped, -/
theorem EndsInFeed.dropWhile {s : List UInt8} (h : EndsInFeed s) (p : UInt8 → Bool) :
    EndsInFeed (s.dropWhile p) := h.suffix (List.dropWhile_suffix p)

/-- ...and behind the first byte. -/
theorem EndsInFeed.tail {c : UInt8} {s : List UInt8} (h : EndsInFeed (c :: s)) : EndsInFeed s :=
  h.suffix (List.suffix_cons c s)

/-- A carriage return is not the last byte. -/
theorem EndsInFeed.ne_nil {s : List UInt8} (h : EndsInFeed (13 :: s)) : s ≠ [] := by
  rintro rfl
  exact absurd (h (by simp)) (by decide)

/-- The head's last byte is a line feed. -/
theorem feed_of_endsHead {buf : List UInt8} {i : Nat} (h : endsHead buf i = true) :
    buf[i]? = some 10 := by
  simp only [endsHead, Bool.or_eq_true, Bool.and_eq_true, decide_eq_true_eq] at h
  rcases h with ⟨⟨-, h⟩, -⟩ | ⟨⟨⟨-, h⟩, -⟩, -⟩ <;> exact h

/-- Where `mg_http_get_request_len` finds an end, there is a line feed. -/
theorem requestLenLoop_pos {buf : List UInt8} :
    ∀ k i, 0 < requestLenLoop buf k i →
      ∃ j : Nat, requestLenLoop buf k i = j + 1 ∧ buf[j]? = some 10
  | 0, i, h => absurd h (by simp [requestLenLoop])
  | k + 1, i, h => by
    rw [requestLenLoop] at h ⊢
    split at h
    · exact absurd h (by decide)
    rename_i hok
    rw [if_neg hok]
    split at h
    · rename_i hend
      rw [if_pos hend]
      exact ⟨i, rfl, feed_of_endsHead hend⟩
    · rename_i hend
      rw [if_neg hend]
      exact requestLenLoop_pos k (i + 1) h

/-- The head is a part of what was received, and ends in a line feed. -/
theorem head_endsInFeed {s : List UInt8} (h : 0 < mgHttpGetRequestLen s) :
    (mgHttpGetRequestLen s).toNat ≤ s.length ∧
      EndsInFeed (s.take (mgHttpGetRequestLen s).toNat) := by
  obtain ⟨j, hj, hfeed⟩ := requestLenLoop_pos _ _ h
  have hlen : j < s.length := (List.getElem?_eq_some_iff.mp hfeed).1
  have hnat : (mgHttpGetRequestLen s).toNat = j + 1 := by
    rw [mgHttpGetRequestLen, hj]
    omega
  rw [hnat]
  refine ⟨hlen, fun hne => ?_⟩
  rw [List.getLast_eq_getElem]
  simp only [List.length_take, List.getElem_take]
  have hmin : min (j + 1) s.length - 1 = j := by omega
  simp only [hmin]
  exact (List.getElem?_eq_some_iff.mp hfeed).2

/-! ## 2. The head

One lemma for each function of the parser: given a text that ends in a line feed, it returns, and
what it leaves ends in one too. -/

/-- `skiptorn` stops at a carriage return or a line feed. -/
theorem skiptorn_reads {s : List UInt8} (h : EndsInFeed s) :
    ∃ r, skiptorn s = some r ∧ ∀ x, r = some x → EndsInFeed x.2 := by
  unfold skiptorn
  have hrest := h.dropWhile fun c => c ≠ 10 && c ≠ 13
  split
  · exact ⟨_, rfl, nofun⟩
  rename_i c s' heq
  rw [heq] at hrest
  split
  · rename_i hc
    subst hc
    split
    · exact absurd rfl hrest.ne_nil
    · rename_i d s''
      split
      · exact ⟨_, rfl, nofun⟩
      · exact ⟨_, rfl, fun x hx => by cases hx; exact hrest.tail.tail⟩
  · exact ⟨_, rfl, fun x hx => by cases hx; exact hrest.tail⟩

/-- The test for the blank line needs a second byte only behind a carriage return, which a line
feed follows somewhere. -/
theorem atBlankLine_reads {s : List UInt8} (hne : s ≠ []) (h : EndsInFeed s) :
    ∃ b, atBlankLine s = some b := by
  obtain ⟨c, s, rfl⟩ := List.exists_cons_of_ne_nil hne
  by_cases hfeed : c = 10
  · exact ⟨true, by simp [atBlankLine, hfeed]⟩
  by_cases hreturn : c = 13
  · subst hreturn
    obtain ⟨d, s', rfl⟩ := List.exists_cons_of_ne_nil h.ne_nil
    exact ⟨d = 10, by simp [atBlankLine]⟩
  · exact ⟨false, by simp [atBlankLine, hfeed, hreturn]⟩

/-- The header lines, up to as many as there is room for. -/
theorem mgHttpParseHeaders_reads :
    ∀ max s, EndsInFeed s → ∃ r, mgHttpParseHeaders max s = some r
  | 0, _, _ => ⟨_, rfl⟩
  | max + 1, s, h => by
    unfold mgHttpParseHeaders
    split
    · exact ⟨_, rfl⟩
    rename_i hne
    obtain ⟨blank, hblank⟩ := atBlankLine_reads hne h
    simp only [hblank, Option.bind_eq_bind, Option.bind_some]
    split
    · exact ⟨_, rfl⟩
    have hdrop := h.drop (clenLoop (· = 58) s.length s)
    split
    · exact ⟨_, rfl⟩
    rename_i c rest heq
    rw [heq] at hdrop
    split
    · exact ⟨_, rfl⟩
    split
    · exact ⟨_, rfl⟩
    split
    · exact ⟨_, rfl⟩
    obtain ⟨line, hline, hrest⟩ := skiptorn_reads (hdrop.tail.dropWhile isBlank)
    simp only [hline, Option.bind_some]
    cases line with
    | none => exact ⟨_, rfl⟩
    | some x =>
      obtain ⟨headers, hheaders⟩ := mgHttpParseHeaders_reads max x.2 (hrest x rfl)
      exact ⟨_, by simp only [hheaders, Option.bind_some]; rfl⟩

/-- A comparison ends within two strings of the given length. -/
theorem mgNcasecmp_reads :
    ∀ (s1 s2 : List UInt8) n, n ≤ s1.length → n ≤ s2.length → ∃ b, mgNcasecmp s1 s2 n = some b
  | _, _, 0, _, _ => ⟨true, by rw [mgNcasecmp]⟩
  | [], _, n + 1, h, _ => absurd h (by simp)
  | _ :: _, [], n + 1, _, h => absurd h (by simp)
  | c :: s1, d :: s2, n + 1, h1, h2 => by
    rw [mgNcasecmp]
    split
    · exact ⟨_, rfl⟩
    split
    · exact ⟨_, rfl⟩
    · exact mgNcasecmp_reads s1 s2 n (Nat.le_of_succ_le_succ h1) (Nat.le_of_succ_le_succ h2)

/-- ...and before a line feed. -/
theorem mgNcasecmp_reads_feed :
    ∀ (s1 s2 : List UInt8) n, 10 ∈ s1 → 10 ∉ s2.map mgTolc → n ≤ s2.length →
      ∃ b, mgNcasecmp s1 s2 n = some b
  | _, _, 0, _, _, _ => ⟨true, by rw [mgNcasecmp]⟩
  | [], _, n + 1, h, _, _ => absurd h (by simp)
  | _ :: _, [], n + 1, _, _, h => absurd h (by simp)
  | c :: s1, d :: s2, n + 1, h1, h2, hn => by
    rw [mgNcasecmp]
    split
    · exact ⟨_, rfl⟩
    split
    · exact ⟨_, rfl⟩
    rename_i hsame _
    rw [not_not] at hsame
    rw [List.map_cons, List.mem_cons, not_or] at h2
    have hc : c ≠ 10 := by
      rintro rfl
      exact h2.1 hsame
    exact mgNcasecmp_reads_feed s1 s2 n ((List.mem_cons.mp h1).resolve_left (Ne.symm hc)) h2.2
      (Nat.le_of_succ_le_succ hn)

/-- The version is looked at only where it has eight bytes. -/
theorem isHttpVersion_reads (proto : List UInt8) : ∃ b, isHttpVersion proto = some b := by
  unfold isHttpVersion
  split
  · rename_i hlen
    obtain ⟨b, hb⟩ := mgNcasecmp_reads proto (str "HTTP/") 5 (by omega) (by decide)
    simp only [hb, Option.bind_eq_bind, Option.bind_some]
    split <;> exact ⟨_, rfl⟩
  · exact ⟨_, rfl⟩

/-- The method is looked at only where it has more than five. -/
theorem isResponseMethod_reads (method : List UInt8) :
    ∃ b, isResponseMethod method = some b := by
  unfold isResponseMethod
  split
  · exact mgNcasecmp_reads _ _ 5 (by omega) (by decide)
  · exact ⟨_, rfl⟩

/-- **A head is parsed without a look behind its end.** -/
theorem mgHttpParseHead_reads {head : List UInt8} (h : EndsInFeed head) :
    ∃ r, mgHttpParseHead head = some r ∧ ∀ hm, r = .message hm → hm.headLen = head.length := by
  unfold mgHttpParseHead
  extract_lets method s uri s'
  obtain ⟨isResponse, hresponse⟩ := isResponseMethod_reads method
  have hs' : EndsInFeed s' := (((h.drop _).dropWhile _).drop _).dropWhile _
  obtain ⟨line, hline, hrest⟩ := skiptorn_reads hs'
  simp only [hresponse, hline, Option.bind_eq_bind, Option.bind_some]
  cases line with
  | none => exact ⟨.incomplete, rfl, fun _ => by simp⟩
  | some x =>
    obtain ⟨isVersion, hversion⟩ := isHttpVersion_reads x.1
    obtain ⟨headers, hheaders⟩ := mgHttpParseHeaders_reads MG_MAX_HTTP_HEADERS x.2 (hrest x rfl)
    simp only [hversion, hheaders, Option.bind_some]
    split
    · exact ⟨.error, rfl, fun _ => by simp⟩
    split
    · exact ⟨.error, rfl, fun _ => by simp⟩
    cases headers with
    | none => exact ⟨.error, rfl, fun _ => by simp⟩
    | some headers =>
      dsimp only
      split
      · exact ⟨.error, rfl, fun _ => by simp⟩
      · refine ⟨_, rfl, fun hm hhm => ?_⟩
        cases hhm
        rfl

/-- **The parser reads the head and nothing else**, of any bytes whatever. -/
theorem mgHttpParse_reads (s : List UInt8) :
    ∃ r, mgHttpParse s = some r ∧ ∀ hm, r = .message hm →
      hm.headLen ≤ s.length ∧ 10 ∈ s.take hm.headLen ∧ EndsInFeed (s.take hm.headLen) ∧
        mgHttpParseHead (s.take hm.headLen) = some r := by
  unfold mgHttpParse
  extract_lets reqLen
  split
  · exact ⟨.error, rfl, fun _ => by simp⟩
  split
  · exact ⟨.incomplete, rfl, fun _ => by simp⟩
  have hpos : 0 < mgHttpGetRequestLen s := by
    change 0 < reqLen
    omega
  obtain ⟨hlen, hfeed⟩ := head_endsInFeed hpos
  obtain ⟨r, hr, hhead⟩ := mgHttpParseHead_reads hfeed
  refine ⟨r, hr, fun hm hhm => ?_⟩
  have heq : hm.headLen = reqLen.toNat := by
    rw [hhead hm hhm, List.length_take]
    exact Nat.min_eq_left hlen
  have hne : s.take reqLen.toNat ≠ [] := by
    rw [Ne, List.take_eq_nil_iff]
    rintro (h | rfl)
    · omega
    · exact absurd hpos (by decide)
  rw [heq]
  exact ⟨hlen, (hfeed hne) ▸ List.getLast_mem hne, hfeed, hr⟩

/-! ## 3. Chunks

The body in chunks has no such guard in front of it.  `skip_chunk` checks the length it was given
before each read but the one behind the carriage return, and this is the only read that can
fail. -/

theorem ite_eq_none {α : Type} {c : Prop} [Decidable c] {a : α} {b : Option α}
    (h : (if c then some a else b) = none) : ¬ c ∧ b = none := by
  split at h
  · cases h
  · rename_i hc
    exact ⟨hc, h⟩

/-- `skip_chunk` looks behind the bytes it was given exactly when they are the length of a chunk,
of two to eight digits, and a carriage return. -/
theorem skipChunk_eq_none_iff {buf : List UInt8} :
    skipChunk buf = none ↔ ∃ digits, buf = digits ++ [13] ∧ 2 ≤ digits.length ∧
      digits.length ≤ 8 ∧ ∀ c ∈ digits, isHexDigit c = true := by
  have hdigits : ∀ c ∈ buf.takeWhile isHexDigit, isHexDigit c = true := fun c hc =>
    List.mem_takeWhile_imp hc
  constructor
  · intro h
    unfold skipChunk at h
    extract_lets len i n at h
    -- before the read every way out has an answer
    obtain ⟨hlen, h⟩ := ite_eq_none h
    obtain ⟨hpos, h⟩ := ite_eq_none h
    obtain ⟨hmax, h⟩ := ite_eq_none h
    obtain ⟨hlong, h⟩ := ite_eq_none h
    obtain ⟨hreturn, h⟩ := ite_eq_none h
    rw [not_not] at hreturn
    have hend : buf.length = i + 1 := by
      by_contra hne
      have hlt : i + 1 < buf.length := by
        change ¬ buf.length < i + 1 at hlong
        omega
      rw [List.getElem?_eq_getElem hlt] at h
      simp only [Option.bind_eq_bind, Option.bind_some] at h
      split_ifs at h
    have hsplit := List.takeWhile_append_dropWhile (p := isHexDigit) (l := buf)
    have hlast : buf.dropWhile isHexDigit = [13] := by
      have hone : (buf.dropWhile isHexDigit).length = 1 := by
        have := congrArg List.length hsplit
        rw [List.length_append] at this
        omega
      obtain ⟨c, hc⟩ := List.length_eq_one_iff.mp hone
      rw [← hsplit, List.getElem?_append_right (Nat.le_refl _), hc] at hreturn
      simp only [Nat.sub_self, List.getElem?_cons_zero, Option.some.injEq] at hreturn
      rw [hc, hreturn]
    refine ⟨buf.takeWhile isHexDigit, by rw [← hlast, hsplit], ?_, by omega, hdigits⟩
    change ¬ buf.length < 3 at hlen
    omega
  · rintro ⟨digits, rfl, hmin, hmax, hall⟩
    have htake : (digits ++ [13]).takeWhile isHexDigit = digits := by
      rw [List.takeWhile_append_of_pos hall]
      simp [isHexDigit]
    have hnext : (digits ++ [13])[digits.length + 1]? = none := by simp
    have hreturn : (digits ++ [13])[digits.length]? = some 13 := by simp
    unfold skipChunk
    simp only [htake, hnext, hreturn, List.length_append, List.length_singleton]
    rw [if_neg (by omega), if_neg (by omega), if_neg (by omega), if_neg (by omega),
      if_neg (by simp)]
    rfl

/-- What `dechunk` misses is missed by `skip_chunk` on some rest of the buffer. -/
theorem dechunk_eq_none {s : List UInt8} :
    ∀ k o body, dechunk s k o body = none → ∃ rest, rest <:+ s ∧ skipChunk rest = none
  | 0, _, _, h => by simp [dechunk] at h
  | k + 1, o, body, h => by
    rw [dechunk] at h
    cases hskip : skipChunk (s.drop o) with
    | none => exact ⟨_, List.drop_suffix o s, hskip⟩
    | some r =>
      simp only [hskip, Option.bind_eq_bind, Option.bind_some] at h
      cases r with
      | wait => cases h
      | invalid => cases h
      | chunk length pl dl =>
        dsimp only at h
        split at h
        · cases h
        · exact dechunk_eq_none k _ _ h

/-! ## 4. The connection

Between two rounds of the loop the buffer is the same and only the offset moves; so what is missing
in a round is missing in the buffer as it was received. -/

/-- A blank is no character of a path. -/
theorem clen_of_isSpace {c : UInt8} (h : isSpace c = true) (s : List UInt8) :
    clen (c :: s) = 0 := by
  have hlow : c.toNat ≤ 32 := by
    simp only [isSpace, Bool.or_eq_true, Bool.and_eq_true, decide_eq_true_eq] at h
    rcases h with rfl | ⟨-, h⟩
    · decide
    · exact Nat.le_trans (UInt8.le_iff_toNat_le.mp h) (by decide)
  have hblank : ∀ n ≤ 32, (32 < UInt8.ofNat n) = False ∧ (UInt8.ofNat n &&& 0xe0 = 0xc0) = False ∧
      (UInt8.ofNat n &&& 0xf0 = 0xe0) = False ∧ (UInt8.ofNat n &&& 0xf8 = 0xf0) = False := by
    simp only [eq_iff_iff, iff_false]
    decide
  obtain ⟨h1, h2, h3, h4⟩ := hblank c.toNat hlow
  rw [UInt8.ofNat_toNat] at h1 h2 h3 h4
  simp [clen, h1, h2, h3, h4]

/-- A path that begins with such a byte is empty. -/
theorem clenLoop_eq_zero {stop : UInt8 → Bool} {c : UInt8} {s : List UInt8}
    (h : clen (c :: s) = 0) : ∀ k, clenLoop stop k (c :: s) = 0
  | 0 => rfl
  | k + 1 => by simp [clenLoop, h]

/-- What comes behind the method of a message is its uri, and no blank. -/
theorem mgHttpParseHead_path {head : List UInt8} {hm : MgHttpRequest}
    (h : mgHttpParseHead head = some (.message hm)) :
    ∃ c s, (head.drop hm.method.length).dropWhile (· = 32) = c :: s ∧ isSpace c = false := by
  unfold mgHttpParseHead at h
  extract_lets method s uri s' at h
  obtain ⟨isResponse, -, h⟩ := Option.bind_eq_some_iff.mp h
  obtain ⟨line, -, h⟩ := Option.bind_eq_some_iff.mp h
  cases line with
  | none => cases h
  | some x =>
    obtain ⟨isVersion, -, h⟩ := Option.bind_eq_some_iff.mp h
    split at h
    · cases h
    split at h
    · cases h
    rename_i hparts
    obtain ⟨headers, -, h⟩ := Option.bind_eq_some_iff.mp h
    cases headers with
    | none => cases h
    | some headers =>
      dsimp only at h
      split at h
      · cases h
      cases h
      simp only [Bool.or_eq_true, decide_eq_true_eq, not_or] at hparts
      have hpath : uri.takeWhile (· ≠ 63) ≠ [] := hparts.2
      change ∃ c t, s = c :: t ∧ _
      cases hs : s with
      | nil => exact absurd (by simp [uri, hs]) hpath
      | cons c t =>
        refine ⟨c, t, rfl, Bool.eq_false_iff.mpr fun hc => hpath ?_⟩
        have hnone : clenLoop (fun _ => false) s.length (c :: t) = 0 :=
          clenLoop_eq_zero (clen_of_isSpace hc t) s.length
        simp only [uri, hs] at hnone ⊢
        rw [hnone]
        rfl
/-- **The status is a number that ends before the head does.** -/
theorem mgHttpStatus_reads {buf : List UInt8} {hm : MgHttpRequest}
    (h : mgHttpParse buf = some (.message hm)) : ∃ n, mgHttpStatus buf hm = some n := by
  obtain ⟨r, hr, hhead⟩ := mgHttpParse_reads buf
  obtain rfl := Option.some.inj (hr.symm.trans h)
  obtain ⟨-, hmem, hfeed, hparse⟩ := hhead hm rfl
  obtain ⟨c, s, hs, hc⟩ := mgHttpParseHead_path hparse
  generalize hrest : buf.drop hm.headLen = rest
  have hbuf : buf = buf.take hm.headLen ++ rest := by
    rw [← hrest, List.take_append_drop]
  have hmethod : hm.method.length ≤ (buf.take hm.headLen).length := by
    by_contra hlong
    rw [List.drop_eq_nil_of_le (by omega)] at hs
    cases hs
  have hpath : (buf.drop hm.method.length).dropWhile (· = 32) = c :: (s ++ rest) := by
    rw [hbuf, List.drop_append_of_le_length hmethod, List.dropWhile_append, hs]
    rfl
  have hends : 10 ∈ s := by
    -- a number does not go on behind a line feed
    have hlast := hs ▸ (hfeed.drop hm.method.length).dropWhile (· = 32)
    refine (List.mem_cons.mp ((hlast (List.cons_ne_nil c s)) ▸ List.getLast_mem _)).resolve_left ?_
    rintro rfl
    exact absurd hc (by decide)
  have hlt := numberParts_lt (s := s ++ rest) hc (List.mem_append_left rest hends)
  rw [mgHttpStatus]
  simp only [hpath]
  exact ⟨_, if_pos hlt⟩

/-- Whether a length is required depends on the status, which can be read. -/
theorem requireContentLen_reads {buf : List UInt8} {hm : MgHttpRequest}
    (h : ∃ n, mgHttpStatus buf hm = some n) (isResponse isEntity : Bool) :
    ∃ b, requireContentLen buf hm isResponse isEntity = some b := by
  unfold requireContentLen
  split
  · exact ⟨_, rfl⟩
  split
  · obtain ⟨n, hn⟩ := h
    exact ⟨_, by rw [hn]; rfl⟩
  · exact ⟨_, rfl⟩

/-- The comparison with `HTTP/` ends before the head does, and so does the status. -/
theorem checkContentLength_reads {c : MgConnection} {hm : MgHttpRequest} {ofs : Nat}
    (h : 10 ∈ c.recv.drop ofs) (hstatus : ∃ n, mgHttpStatus (c.recv.drop ofs) hm = some n) :
    ∃ x, checkContentLength c hm ofs = some x ∧ x.1.recv = c.recv := by
  unfold checkContentLength
  split
  · exact ⟨_, rfl, rfl⟩
  · obtain ⟨b, hb⟩ := mgNcasecmp_reads_feed (c.recv.drop ofs) (str "HTTP/") 5 h (by decide)
      (by decide)
    obtain ⟨isRequired, hrequired⟩ := requireContentLen_reads hstatus b (isEntityMethod hm.method)
    simp only [hb, hrequired, Option.bind_eq_bind, Option.bind_some]
    refine ⟨_, rfl, ?_⟩
    dsimp only
    split <;> rfl

/-- The handler does not touch the receive buffer before the round is over. -/
theorem MgConnection.deliver_recv {c c' : MgConnection} {hm : MgMessage} {ofs ofs' : Nat}
    (h : c.deliver hm ofs = .next c' ofs') : c'.recv = c.recv := by
  unfold MgConnection.deliver at h
  dsimp only at h
  split at h
  · cases h
  · cases h
    rfl

/-- A message without chunks reads nothing more than its head. -/
theorem plainMessage_reads {c : MgConnection} {hm : MgHttpRequest} {ofs : Nat}
    (h : 10 ∈ c.recv.drop ofs) (hstatus : ∃ n, mgHttpStatus (c.recv.drop ofs) hm = some n) :
    ∃ r, plainMessage c hm ofs = some r ∧ ∀ c' ofs', r = .next c' ofs' → c'.recv = c.recv := by
  obtain ⟨⟨d, ofs'⟩, hd, hrecv⟩ :
      ∃ x, checkContentLength c hm ofs = some x ∧ x.1.recv = c.recv :=
    checkContentLength_reads h hstatus
  simp only [plainMessage, hd, Option.bind_eq_bind, Option.bind_some]
  generalize sizeSub d.recv.length (ofs' + hm.headLen) = len
  split
  · exact ⟨_, rfl, by simp⟩
  · exact ⟨_, rfl, fun c' ofs' hnext => (MgConnection.deliver_recv hnext).trans hrecv⟩

/-- A message in chunks is handed over, or waits, or misses a byte in `skip_chunk`. -/
theorem chunkedMessage_reads {c : MgConnection} {hm : MgHttpRequest} {ofs : Nat} :
    (∃ r, chunkedMessage c hm ofs = some r ∧ ∀ c' ofs', r = .next c' ofs' → c'.recv = c.recv) ∨
      ∃ rest, rest <:+ c.recv ∧ skipChunk rest = none := by
  simp only [chunkedMessage, Option.bind_eq_bind]
  cases hchunks : dechunk ((c.recv.drop ofs).drop hm.headLen) (c.recv.drop ofs).length 0 [] with
  | none =>
    obtain ⟨rest, hrest, hskip⟩ := dechunk_eq_none _ _ _ hchunks
    exact .inr ⟨rest, hrest.trans ((List.drop_suffix _ _).trans (List.drop_suffix _ _)), hskip⟩
  | some r =>
    simp only [Option.bind_some]
    left
    cases r with
    | wait => exact ⟨_, rfl, by simp⟩
    | invalid => exact ⟨_, rfl, by simp⟩
    | done o body => exact ⟨_, rfl, fun c' ofs' hnext => MgConnection.deliver_recv hnext⟩

/-- A round leaves the bytes received as they are, and reads a byte too many in a chunk only. -/
theorem httpCbRound_reads (isClose : Bool) (c : MgConnection) (ofs : Nat) :
    (∃ r, httpCbRound isClose c ofs = some r ∧
      ∀ c' ofs', r = .next c' ofs' → c'.recv = c.recv) ∨
      ∃ rest, rest <:+ c.recv ∧ skipChunk rest = none := by
  obtain ⟨r, hr, hhead⟩ := mgHttpParse_reads (c.recv.drop ofs)
  unfold httpCbRound
  simp only [hr, Option.bind_eq_bind, Option.bind_some]
  cases r with
  | error => exact .inl ⟨_, rfl, by simp⟩
  | incomplete => exact .inl ⟨_, rfl, by simp⟩
  | message hm =>
    have hfeed := List.mem_of_mem_take (hhead hm rfl).2.1
    have hstatus := mgHttpStatus_reads hr
    dsimp only
    split
    · split
      · exact chunkedMessage_reads
      · exact .inl ⟨_, rfl, by simp⟩
    · refine .inl (plainMessage_reads hfeed ?_)
      cases isClose <;> exact hstatus

/-- A round of many: the one that misses a byte looked at the same buffer. -/
theorem httpCbLoop_eq_none {isClose : Bool} :
    ∀ k (c : MgConnection) ofs, httpCbLoop isClose k c ofs = none →
      ∃ rest, rest <:+ c.recv ∧ skipChunk rest = none
  | 0, _, _, h => by simp [httpCbLoop] at h
  | k + 1, c, ofs, h => by
    rw [httpCbLoop] at h
    obtain ⟨-, h⟩ := ite_eq_none h
    obtain ⟨r, hr, hrecv⟩ | hover := httpCbRound_reads isClose c ofs
    · simp only [hr, Option.bind_eq_bind, Option.bind_some] at h
      cases r with
      | leave c' => cases h
      | next c' ofs' => exact hrecv c' ofs' rfl ▸ httpCbLoop_eq_none k c' ofs' h
    · exact hover

/-- **The connection reads only what has come**, whatever comes and however it comes, but for one
case: the bytes received end in the length of a chunk and a carriage return. -/
theorem reads_only_what_has_come (isClose : Bool) (c : MgConnection) (bytes : List UInt8) :
    (∃ c', httpCb isClose c bytes = some c') ∨
      ∃ before digits, c.recv ++ bytes = before ++ digits ++ [13] ∧ 2 ≤ digits.length ∧
        digits.length ≤ 8 ∧ ∀ b ∈ digits, isHexDigit b = true := by
  cases h : httpCb isClose c bytes with
  | some c' => exact .inl ⟨c', rfl⟩
  | none =>
    obtain ⟨rest, ⟨before, hbefore⟩, hskip⟩ := httpCbLoop_eq_none _ _ _ h
    obtain ⟨digits, rfl, hmin, hmax, hall⟩ := skipChunk_eq_none_iff.mp hskip
    have hrecv : before ++ (digits ++ [13]) = c.recv ++ bytes := hbefore
    exact .inr ⟨before, digits, by rw [← hrecv, List.append_assoc], hmin, hmax, hall⟩

end WhatIsHappening
