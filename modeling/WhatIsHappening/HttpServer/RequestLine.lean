/-
# The first line of a request

`parse_request` looks for a `\r\n` anywhere in the buffer before it settles for a line feed.  So a
first line that ends in a line feed alone is not where it stops as soon as a `\r\n` comes later:
`reads_first_line_iff` says that it reads the first line and nothing else exactly where that line
ends in `\r\n`.
-/
import WhatIsHappening.HttpServer.Dumb

namespace WhatIsHappening

open CLib

/-! ## 1. The request line -/

/-- The text before the first line feed. -/
def firstLine (buffer : List UInt8) : List UInt8 := buffer.takeWhile (· ≠ 10)

/-- The request line: the first line, without one carriage return at its end. -/
def requestLine (buffer : List UInt8) : List UInt8 :=
  if (firstLine buffer).getLast? = some 13 then (firstLine buffer).dropLast else firstLine buffer

/-- The parts of a request line, up to its first space, from there to the second, and the rest. -/
structure SplitsLine (line : List UInt8) (r : RequestLine) : Prop where
  method : 32 ∉ r.method
  path : 32 ∉ r.path
  whole : r.method ++ 32 :: (r.path ++ 32 :: r.version) = line

/-- The result for a request line: its parts, if it has two spaces. -/
def ParsesLine (line : List UInt8) (r : Option RequestLine) : Prop :=
  (r.isSome ↔ 2 ≤ line.count 32) ∧ ∀ x ∈ r, SplitsLine line x

/-- The parts of the buffer that `parse_request` hands to `memchr` and `memcpy`, each by where it
begins and how long it is. -/
def parseRequestRanges (buffer : List UInt8) : List (Int × Int) :=
  match (strstr buffer (str "\r\n")).or (strstr buffer (str "\n")) with
  | none => []
  | some lineEnd =>
    (0, (lineEnd : Int)) :: match memchr buffer 32 lineEnd with
      | none => []
      | some space1 =>
        (space1 + 1, lineEnd - (space1 + 1)) ::
          match memchr (buffer.drop (space1 + 1)) 32 (lineEnd - (space1 + 1)) with
          | none => []
          | some pathLen =>
            let space2 := space1 + 1 + pathLen
            [(0, (space1 : Int)), (space1 + 1, space2 - space1 - 1),
              (space2 + 1, lineEnd - space2 - 1)]

/-- `parse_request` reads the request line of the buffer and nothing else: the result is that of the
line, whatever stands behind the first line feed, and no search and no copy leaves the line. -/
structure ReadsFirstLine (buffer : List UInt8) : Prop where
  parses : ParsesLine (requestLine buffer) (parseRequest buffer)
  independent : ∀ rest, 0 ∉ rest →
    parseRequest (firstLine buffer ++ 10 :: rest) = parseRequest buffer
  inside : ∀ x ∈ parseRequestRanges buffer,
    0 ≤ x.1 ∧ 0 ≤ x.2 ∧ x.1 + x.2 ≤ (requestLine buffer).length

/-! ## 2. What is made of a line -/

/-- The parts of a line. -/
def splitLine (line : List UInt8) : Option RequestLine := do
  let space1 ← strchr line 32
  let pathLen ← strchr (line.drop (space1 + 1)) 32
  return { method := line.take space1
           path := (line.drop (space1 + 1)).take pathLen
           version := (line.drop (space1 + 1)).drop (pathLen + 1) }

theorem splitLine_parses (line : List UInt8) : ParsesLine line (splitLine line) := by
  rw [splitLine]
  cases hspace1 : strchr line 32 with
  | none =>
    have hcount : line.count 32 = 0 := List.count_eq_zero.mpr (strchr_eq_none.mp hspace1)
    exact ⟨⟨nofun, by omega⟩, nofun⟩
  | some space1 =>
    obtain ⟨hmethod, hline, -⟩ := strchr_eq_some hspace1
    have hcount : line.count 32 = (line.drop (space1 + 1)).count 32 + 1 := by
      conv_lhs => rw [hline]
      rw [List.count_append, List.count_cons_self, List.count_eq_zero.mpr hmethod, Nat.zero_add]
    show ParsesLine line (strchr (line.drop (space1 + 1)) 32 >>= _)
    cases hspace2 : strchr (line.drop (space1 + 1)) 32 with
    | none =>
      have hrest := List.count_eq_zero.mpr (strchr_eq_none.mp hspace2)
      exact ⟨⟨nofun, by omega⟩, nofun⟩
    | some pathLen =>
      obtain ⟨hpath, hrest, -⟩ := strchr_eq_some hspace2
      have hpos : 0 < (line.drop (space1 + 1)).count 32 := by
        rw [List.count_pos_iff, hrest]
        simp
      refine ⟨⟨fun _ => by omega, fun _ => rfl⟩, ?_⟩
      rintro _ ⟨⟩
      refine ⟨hmethod, hpath, ?_⟩
      dsimp only
      rw [← hrest]
      exact hline.symm

/-- `parse_request` takes apart what stands before the line end it finds. -/
theorem parseRequest_eq {buffer : List UInt8} {lineEnd : Nat}
    (h : (strstr buffer (str "\r\n")).or (strstr buffer (str "\n")) = some lineEnd) :
    parseRequest buffer = splitLine (buffer.take lineEnd) := by
  rw [parseRequest, h, splitLine]
  simp only [Option.bind_eq_bind, Option.bind_some, memchr]
  cases hspace1 : strchr (buffer.take lineEnd) 32 with
  | none => rfl
  | some space1 =>
    obtain ⟨-, -, hlt⟩ := strchr_eq_some hspace1
    rw [List.length_take] at hlt
    simp only [Option.bind_some, ← List.drop_take]
    cases hspace2 : strchr ((buffer.take lineEnd).drop (space1 + 1)) 32 with
    | none => rfl
    | some pathLen =>
      obtain ⟨-, -, hlt₂⟩ := strchr_eq_some hspace2
      rw [List.length_drop, List.length_take] at hlt₂
      have hmethod : buffer.take space1 = (buffer.take lineEnd).take space1 := by
        rw [List.take_take, Nat.min_eq_left (by omega)]
      have hpath : (buffer.drop (space1 + 1)).take pathLen =
          ((buffer.take lineEnd).drop (space1 + 1)).take pathLen := by
        rw [List.drop_take, List.take_take, Nat.min_eq_left (by omega)]
      have hversion : (buffer.drop (space1 + 1 + pathLen + 1)).take
          (lineEnd - (space1 + 1 + pathLen) - 1) =
          ((buffer.take lineEnd).drop (space1 + 1)).drop (pathLen + 1) := by
        rw [List.drop_drop, List.drop_take]
        rfl
      rw [Option.bind_some, Option.bind_some, hmethod, hpath, hversion]

/-- No search and no copy leaves what stands before the line end. -/
theorem parseRequestRanges_inside {buffer : List UInt8} {lineEnd : Nat}
    (h : (strstr buffer (str "\r\n")).or (strstr buffer (str "\n")) = some lineEnd) :
    ∀ x ∈ parseRequestRanges buffer, 0 ≤ x.1 ∧ 0 ≤ x.2 ∧ x.1 + x.2 ≤ lineEnd := by
  rw [parseRequestRanges, h]
  simp only [memchr, List.forall_mem_cons]
  refine ⟨by omega, ?_⟩
  cases hspace1 : strchr (buffer.take lineEnd) 32 with
  | none => simp
  | some space1 =>
    obtain ⟨-, -, hlt⟩ := strchr_eq_some hspace1
    rw [List.length_take] at hlt
    simp only [← List.drop_take, List.forall_mem_cons]
    refine ⟨by omega, ?_⟩
    cases hspace2 : strchr ((buffer.take lineEnd).drop (space1 + 1)) 32 with
    | none => simp
    | some pathLen =>
      obtain ⟨-, -, hlt₂⟩ := strchr_eq_some hspace2
      rw [List.length_drop, List.length_take] at hlt₂
      simp only [List.forall_mem_cons]
      refine ⟨?_, ?_, ?_, by simp⟩ <;> omega

/-! ## 3. Where the line ends -/

/-- No `\r\n` stands in the text. -/
def NoReturnFeed (text : List UInt8) : Prop :=
  ∀ j, text[j]? = some (13 : UInt8) → text[j + 1]? ≠ some (10 : UInt8)

/-- The line ends at the first `\r\n`. -/
theorem lineEnd_eq {text rest : List UInt8} (h : NoReturnFeed text) :
    (strstr (text ++ 13 :: 10 :: rest) (str "\r\n")).or
      (strstr (text ++ 13 :: 10 :: rest) (str "\n")) = some text.length := by
  have hfirst : strstr (text ++ 13 :: 10 :: rest) (str "\r\n") = some text.length := by
    refine strstr_eq_some_iff.mpr ⟨by simp, ⟨rest, by simp [str]⟩, ?_⟩
    rintro j hj ⟨tail, htail⟩
    have hat : ∀ k, (text ++ 13 :: 10 :: rest)[j + k]? = (str "\r\n" ++ tail)[k]? := by
      intro k
      rw [htail, List.getElem?_drop]
    have hreturn : text[j]? = some 13 := by
      rw [← List.getElem?_append_left hj]
      exact hat 0
    have hfeed := hat 1
    rcases Nat.lt_or_ge (j + 1) text.length with hlt | hge
    · rw [List.getElem?_append_left hlt] at hfeed
      exact h j hreturn hfeed
    · rw [List.getElem?_append_right hge, Nat.sub_eq_zero_of_le (by omega)] at hfeed
      exact absurd (Option.some.inj hfeed) (by decide)
  rw [hfirst]
  rfl

theorem firstLine_noFeed (buffer : List UInt8) : 10 ∉ firstLine buffer := by
  intro h
  simpa using List.mem_takeWhile_imp h

theorem exists_firstLine {buffer : List UInt8} (h : 10 ∈ buffer) :
    ∃ rest, firstLine buffer ++ 10 :: rest = buffer := by
  obtain ⟨i, hi⟩ := Option.ne_none_iff_exists'.mp (mt strchr_eq_none.mp (not_not_intro h))
  obtain ⟨hnot, hbuffer, -⟩ := strchr_eq_some hi
  have hfirst : firstLine buffer = buffer.take i := by
    have hne : ∀ b ∈ buffer.take i, decide (b ≠ 10) = true := by
      intro b hb
      rw [decide_eq_true_iff]
      rintro rfl
      exact hnot hb
    rw [firstLine]
    conv_lhs => rw [hbuffer]
    rw [List.takeWhile_append_of_pos hne, List.takeWhile_cons_of_neg (by decide), List.append_nil]
  exact ⟨_, by rw [hfirst, ← hbuffer]⟩

/-- A first line that does not end in a carriage return has no `\r\n`, even with blanks behind
it. -/
theorem noReturnFeed_of_bare {buffer : List UInt8} (h : (firstLine buffer).getLast? ≠ some 13) :
    NoReturnFeed (firstLine buffer ++ str "\n  ") := by
  intro j hreturn hfeed
  rcases Nat.lt_trichotomy (j + 1) (firstLine buffer).length with hlt | heq | hgt
  · rw [List.getElem?_append_left hlt] at hfeed
    exact firstLine_noFeed buffer (List.mem_of_getElem? hfeed)
  · rw [List.getElem?_append_left (by omega)] at hreturn
    refine h ?_
    rw [List.getLast?_eq_getElem?, ← heq]
    exact hreturn
  · rw [List.getElem?_append_right (by omega)] at hreturn
    exact absurd (List.mem_of_getElem? hreturn) (by decide)

/-- Behind a bare line feed, two spaces and a `\r\n` make a longer line, which is parsed. -/
theorem parseRequest_of_bare {buffer : List UInt8} (h : (firstLine buffer).getLast? ≠ some 13) :
    ∃ r, parseRequest (firstLine buffer ++ 10 :: str "  \r\n") = some r ∧
      SplitsLine (firstLine buffer ++ str "\n  ") r := by
  have hend := @lineEnd_eq _ [] (noReturnFeed_of_bare h)
  have htail : firstLine buffer ++ 10 :: str "  \r\n" =
      firstLine buffer ++ str "\n  " ++ 13 :: 10 :: [] := by
    rw [List.append_assoc]
    rfl
  have hspaces : 2 ≤ (firstLine buffer ++ str "\n  ").count 32 := by
    rw [List.count_append]
    exact Nat.le_add_left _ _
  obtain ⟨hsome, hsplits⟩ := splitLine_parses (firstLine buffer ++ str "\n  ")
  obtain ⟨r, hr⟩ := Option.isSome_iff_exists.mp (hsome.mpr hspaces)
  rw [htail, parseRequest_eq hend, List.take_left]
  exact ⟨r, hr, hsplits r hr⟩

/-- A first line that ends in a carriage return ends there for `parse_request`, whatever follows. -/
theorem lineEnd_of_return {buffer text : List UInt8} (h : firstLine buffer = text ++ [13])
    (rest : List UInt8) :
    (strstr (firstLine buffer ++ 10 :: rest) (str "\r\n")).or
      (strstr (firstLine buffer ++ 10 :: rest) (str "\n")) = some text.length := by
  rw [h, List.append_assoc]
  refine lineEnd_eq fun j _ hfeed => firstLine_noFeed buffer ?_
  rw [h]
  exact List.mem_append_left _ (List.mem_of_getElem? hfeed)

theorem parseRequest_of_return {buffer text : List UInt8} (h : firstLine buffer = text ++ [13])
    (rest : List UInt8) : parseRequest (firstLine buffer ++ 10 :: rest) = splitLine text := by
  rw [parseRequest_eq (lineEnd_of_return h rest), h, List.append_assoc, List.take_left]

/-- **It reads the first line and nothing else** exactly where that line ends in `\r\n`. -/
theorem reads_first_line_iff {buffer : List UInt8} (hline : 10 ∈ buffer) :
    ReadsFirstLine buffer ↔ (firstLine buffer).getLast? = some 13 := by
  obtain ⟨rest, hbuffer⟩ := exists_firstLine hline
  constructor
  · intro h
    by_contra hreturn
    obtain ⟨r, hlonger, hsplits⟩ := parseRequest_of_bare hreturn
    rw [h.independent (str "  \r\n") (by decide)] at hlonger
    have hshort := (h.parses.2 r hlonger).whole
    rw [requestLine, if_neg hreturn, hsplits.whole] at hshort
    exact absurd hshort (by simp [str])
  · intro hreturn
    obtain ⟨text, htext⟩ : ∃ text, firstLine buffer = text ++ [13] :=
      List.getLast?_eq_some_iff.mp hreturn
    have hrequestLine : requestLine buffer = text := by
      rw [requestLine, if_pos hreturn, htext, List.dropLast_concat]
    have hresult : parseRequest buffer = splitLine text := by
      rw [← parseRequest_of_return htext rest, hbuffer]
    constructor
    · rw [hrequestLine, hresult]
      exact splitLine_parses text
    · intro rest' _
      rw [parseRequest_of_return htext, hresult]
    · rw [hrequestLine]
      refine parseRequestRanges_inside ?_
      rw [← lineEnd_of_return htext rest, hbuffer]

/-! ## 4. Two line ends -/

/-- A request as it is sent. -/
def plainRequest : List UInt8 := str "GET /metrics HTTP/1.1\r\nHost: localhost\r\n\r\n"

theorem plainRequest_reads_first_line : ReadsFirstLine plainRequest :=
  (reads_first_line_iff (by decide)).mpr (by decide)

/-- The first line has no second space, and the second line lends it one. -/
theorem bareFeed_reads_on : ¬ ∀ buffer : List UInt8, 0 ∉ buffer → 10 ∈ buffer →
    ReadsFirstLine buffer := by
  intro h
  have hreads := h (str "GET /metrics\nHost: localhost\r\n\r\n") (by decide) (by decide)
  exact absurd hreads.parses.1 (by decide)

end WhatIsHappening
