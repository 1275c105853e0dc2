/-
# Both backends route alike, but for queries

A well-formed request reaches `metrics_handler` through either backend.  The dumb backend hands it
the whole request target, mongoose the target up to its first `?`; what either cuts off or copies
beyond that cannot be seen in the status code.  `same_statuses_iff` says for which requests the
status codes are the same.
-/
import WhatIsHappening.Cluster
import WhatIsHappening.HttpServer.Mongoose

namespace WhatIsHappening

open Interleaving Prog CLib

/-! ## 1. Well-formed requests -/

/-- The bytes of a method: visible, and no delimiter. -/
def isTokenByte (b : UInt8) : Bool := 33 ≤ b && b ≤ 126 && b ∉ str "\"(),/:;<=>?@[\\]\x7b\x7d"

/-- The bytes of a request target. -/
def isTargetByte (b : UInt8) : Bool := 33 ≤ b && b ≤ 126

/-- A well-formed request without a body. -/
structure WellFormedRequest where
  method : List UInt8
  target : List UInt8
  major : Fin 10
  minor : Fin 10
  headers : List (List UInt8)
  method_ne : method ≠ [] := by decide
  method_token : ∀ b ∈ method, isTokenByte b = true := by decide +kernel
  target_ne : target ≠ [] := by decide
  target_visible : ∀ b ∈ target, isTargetByte b = true := by decide +kernel
  headers_ne : ∀ h ∈ headers, h ≠ [] := by decide
  headers_line : ∀ h ∈ headers, ∀ b ∈ h, b ≠ 0 ∧ b ≠ 10 ∧ b ≠ 13 := by decide +kernel

namespace WellFormedRequest

/-- `HTTP/d.d`. -/
def version (m : WellFormedRequest) : List UInt8 :=
  str "HTTP/" ++ [digitByte m.major] ++ str "." ++ [digitByte m.minor]

/-- What is sent behind the request line. -/
def rest (m : WellFormedRequest) : List UInt8 :=
  m.headers.flatMap (· ++ str "\r\n") ++ str "\r\n"

/-- The request on the wire. -/
def bytes (m : WellFormedRequest) : List UInt8 :=
  m.method ++ 32 :: (m.target ++ 32 :: (m.version ++ (str "\r\n" ++ m.rest)))

/-- What the vendored parser makes of it: `uri` ends before the query. -/
def mgHttpMessage (m : WellFormedRequest) : MgHttpMessage where
  method := m.method
  uri := m.target.takeWhile (· ≠ 63)

variable {m : WellFormedRequest}

theorem visible_of_token {b : UInt8} (h : isTokenByte b = true) : isTargetByte b = true := by
  simp only [isTokenByte, Bool.and_eq_true] at h
  simpa [isTargetByte] using h.1

theorem ne_of_visible {b : UInt8} (h : isTargetByte b = true) :
    b ≠ 0 ∧ b ≠ 10 ∧ b ≠ 13 ∧ b ≠ 32 := by
  refine ⟨?_, ?_, ?_, ?_⟩ <;> rintro rfl <;> exact absurd h (by decide)

theorem digitByte_visible (d : Fin 10) : isTargetByte (digitByte d) = true := by
  revert d
  decide

theorem version_visible : ∀ b ∈ m.version, isTargetByte b = true := by
  intro b hb
  simp only [version, List.mem_append, List.mem_singleton] at hb
  rcases hb with ((hb | rfl) | hb) | rfl
  · have hall : ∀ b ∈ str "HTTP/", isTargetByte b = true := by decide +kernel
    exact hall b hb
  · exact digitByte_visible m.major
  · have hall : ∀ b ∈ str ".", isTargetByte b = true := by decide +kernel
    exact hall b hb
  · exact digitByte_visible m.minor

theorem method_visible : ∀ b ∈ m.method, isTargetByte b = true :=
  fun b hb => visible_of_token (m.method_token b hb)

/-- The request line has no carriage return. -/
theorem line_noReturn : (13 : UInt8) ∉ m.method ++ 32 :: (m.target ++ 32 :: m.version) := by
  intro h
  simp only [List.mem_append, List.mem_cons] at h
  rcases h with h | h | h | h | h
  · exact (ne_of_visible (method_visible 13 h)).2.2.1 rfl
  · cases h
  · exact (ne_of_visible (m.target_visible 13 h)).2.2.1 rfl
  · cases h
  · exact (ne_of_visible (version_visible 13 h)).2.2.1 rfl

theorem bytes_noNul : ∀ b ∈ m.bytes, b ≠ 0 := by
  intro b hb
  simp only [bytes, rest, List.mem_append, List.mem_cons, List.mem_flatMap] at hb
  have hcrlf : ∀ b ∈ str "\r\n", b ≠ 0 := by decide +kernel
  rcases hb with hb | rfl | hb | rfl | hb | hb | ⟨h, hmem, hb | hb⟩ | hb
  · exact (ne_of_visible (method_visible b hb)).1
  · decide
  · exact (ne_of_visible (m.target_visible b hb)).1
  · decide
  · exact (ne_of_visible (version_visible b hb)).1
  · exact hcrlf b hb
  · exact (m.headers_line h hmem b hb).1
  · exact hcrlf b hb
  · exact hcrlf b hb

end WellFormedRequest

/-! ## 2. What the handler is given -/

section Requests

variable {m : WellFormedRequest}

/-- `parse_request` takes the request line of a well-formed request apart. -/
theorem parseRequest_wellFormed :
    parseRequest m.bytes = some ⟨⟨m.method, m.target⟩, m.version⟩ := by
  have hmethod : (32 : UInt8) ∉ m.method := fun h =>
    (WellFormedRequest.ne_of_visible (WellFormedRequest.method_visible 32 h)).2.2.2 rfl
  have htarget : (32 : UInt8) ∉ m.target := fun h =>
    (WellFormedRequest.ne_of_visible (m.target_visible 32 h)).2.2.2 rfl
  have hbytes : m.bytes = (m.method ++ 32 :: (m.target ++ 32 :: m.version)) ++
      (str "\r\n" ++ m.rest) := by simp [WellFormedRequest.bytes]
  have hline : strstr m.bytes (str "\r\n") =
      some (m.method ++ 32 :: (m.target ++ 32 :: m.version)).length := by
    rw [hbytes]
    exact strstr_append WellFormedRequest.line_noReturn
  have hspace1 : memchr m.bytes 32 (m.method ++ 32 :: (m.target ++ 32 :: m.version)).length =
      some m.method.length := memchr_append hmethod (by simp)
  have hdrop : m.bytes.drop (m.method.length + 1) =
      m.target ++ 32 :: (m.version ++ (str "\r\n" ++ m.rest)) := by
    simp [WellFormedRequest.bytes]
  have hspace2 : memchr (m.target ++ 32 :: (m.version ++ (str "\r\n" ++ m.rest))) 32
      ((m.method ++ 32 :: (m.target ++ 32 :: m.version)).length - (m.method.length + 1)) =
      some m.target.length := memchr_append htarget (by simp; omega)
  have hdrop₂ : m.bytes.drop (m.method.length + 1 + m.target.length + 1) =
      m.version ++ (str "\r\n" ++ m.rest) := by
    rw [Nat.add_assoc (m.method.length + 1), ← List.drop_drop, hdrop]
    simp
  have hlength : (m.method ++ 32 :: (m.target ++ 32 :: m.version)).length -
      (m.method.length + 1 + m.target.length) - 1 = m.version.length := by
    simp
    omega
  have htake : m.bytes.take m.method.length = m.method := List.take_left
  simp only [parseRequest, hline, Option.some_or, Option.bind_eq_bind, Option.bind_some, hspace1,
    hdrop, hspace2, hdrop₂, hlength, htake, List.take_left]
  rfl

end Requests

/-! ## 3. What the handler answers -/

variable {D : Type} [CDouble D] (srv : Server D)

omit [CDouble D] in
theorem pwhGetBackendEntry_returns (i : Nat) : ∃ be, (pwhGetBackendEntry srv i).Returns be := by
  by_cases hi : srv.gucs.maxTrackedQueries ≤ i
  · exact ⟨none, by rw [pwhGetBackendEntry, if_pos hi]; rfl⟩
  · exact ⟨some i, by rw [pwhGetBackendEntry, if_neg hi]; exact ⟨(), true, rfl⟩⟩

omit [CDouble D] in
theorem cleanupOrphanedSlots_returns :
    ∀ k i nCleaned, ∃ n, (cleanupOrphanedSlots srv k i nCleaned).Returns n := by
  intro k
  induction k with
  | zero => exact fun _ nCleaned => ⟨nCleaned, rfl⟩
  | succ k ih =>
    intro i nCleaned
    obtain ⟨be, hbe⟩ := pwhGetBackendEntry_returns srv i
    obtain ⟨n, hn⟩ := ih (i + 1) nCleaned
    refine ⟨n, returns_bind.mpr ⟨be, hbe, ?_⟩⟩
    exact ⟨(0 : Pid), hn⟩

omit [CDouble D] in
theorem requestBackendMetrics_returns :
    ∀ k i nSignaled, ∃ n, (requestBackendMetrics k i nSignaled : PgProg D Nat).Returns n := by
  intro k
  induction k with
  | zero => exact fun _ nSignaled => ⟨nSignaled, rfl⟩
  | succ k ih =>
    intro i nSignaled
    obtain ⟨n, hn⟩ := ih (i + 1) nSignaled
    exact ⟨n, (0 : Pid), hn⟩

theorem formatEntries_returns :
    ∀ k i buf, ∃ buf', (formatEntries srv k i buf).Returns buf' := by
  intro k
  induction k with
  | zero => exact fun _ buf => ⟨buf, rfl⟩
  | succ k ih =>
    intro i buf
    obtain ⟨be, hbe⟩ := pwhGetBackendEntry_returns srv i
    obtain ⟨buf', h⟩ := ih (i + 1) buf
    refine ⟨buf', returns_bind.mpr ⟨be, hbe, ?_⟩⟩
    exact ⟨(), (0 : Pid), (), h⟩

/-- The status code of a request: only `GET` of `/metrics` is served. -/
def metricsStatus (req : HttpRequest) : Nat :=
  if req.method = str "GET" ∧ req.path = str "/metrics" then 200 else 404

/-- **The handler** always answers, with the status code of the request. -/
theorem metricsHandler_answers (palloced : Nat → UInt8) (req : HttpRequest) :
    (metricsHandler srv palloced req).ReturnsOnly fun resp =>
      resp.statusCode = metricsStatus req := by
  rw [metricsHandler]
  by_cases h : req.method ≠ str "GET" ∨ req.path ≠ str "/metrics"
  · have hstatus : metricsStatus req = 404 := if_neg (by rwa [not_and_or])
    rw [if_pos h, hstatus]
    exact returnsOnly_ret rfl
  · have hstatus : metricsStatus req = 200 := if_pos (by rwa [← not_not (a := _ ∧ _), not_and_or])
    rw [if_neg h, hstatus]
    have hacquire : (pwhLwlockAcquire .LW_SHARED : PgProg D Unit).ReturnsOnly fun _ => True :=
      ⟨⟨(), (), rfl⟩, fun _ _ => trivial⟩
    have hrelease : (pwhLwlockRelease : PgProg D Unit).ReturnsOnly fun _ => True :=
      ⟨⟨(), true, rfl⟩, fun _ _ => trivial⟩
    have hclean : (pwhCleanupOrphanedSlots srv).ReturnsOnly fun _ => True :=
      ⟨cleanupOrphanedSlots_returns srv _ _ _, fun _ _ => trivial⟩
    have hrequest : (pwhRequestBackendMetricsUnlocked srv).ReturnsOnly fun _ => True :=
      ⟨requestBackendMetrics_returns _ _ _, fun _ _ => trivial⟩
    have hformat : (formatEntries srv srv.gucs.maxTrackedQueries 0
        (formatHeader (FormatterBuffer.init palloced))).ReturnsOnly fun _ => True :=
      ⟨formatEntries_returns srv _ _ _, fun _ _ => trivial⟩
    refine hacquire.bind fun _ _ => hclean.bind fun _ _ => hrequest.bind fun _ _ => ?_
    refine (hformat.bind fun _ _ => returnsOnly_ret trivial).bind fun metrics (_ : True) => ?_
    exact hrelease.bind fun _ _ => returnsOnly_ret rfl

/-! ## 4. The status code through either backend -/

variable {srv} {m : WellFormedRequest}

/-- Through the mongoose backend, the request is answered with `code`. -/
def MongooseAnswers (srv : Server D) (palloced : Nat → UInt8) (m : WellFormedRequest)
    (code : Nat) : Prop :=
  (mongooseEventHandler (some (metricsHandler srv palloced)) m.mgHttpMessage).ReturnsOnly
    fun reply => reply.code = code

/-- Through the dumb backend, whose `recv` gets the whole of it, the request is answered with
`code`. -/
def DumbAnswers (srv : Server D) (palloced memory : Nat → UInt8) (m : WellFormedRequest)
    (code : Nat) : Prop :=
  (handleConnection (some (metricsHandler srv palloced)) memory
    (m.bytes.take (DUMB_HTTP_BUFFER_SIZE - 1))).ReturnsOnly
    fun reply => ∃ x, reply = some x ∧ x.1.statusCode = code

/-- What mongoose hands over has the same status as the target without its query. -/
theorem mongoose_answers (srv : Server D) (palloced : Nat → UInt8) (m : WellFormedRequest) :
    MongooseAnswers srv palloced m
      (metricsStatus ⟨m.method, m.target.takeWhile (· ≠ 63)⟩) := by
  have hnul : ∀ s : List UInt8, (∀ b ∈ s, isTargetByte b = true) → s.takeWhile (· ≠ 0) = s := by
    intro s hs
    refine List.takeWhile_eq_self_iff.mpr fun b hb => ?_
    simpa using (WellFormedRequest.ne_of_visible (hs b hb)).1
  have huri : ∀ b ∈ m.target.takeWhile (· ≠ 63), isTargetByte b = true := fun b hb =>
    m.target_visible b (List.takeWhile_subset _ hb)
  have hstatus : metricsStatus ⟨snprintf 16 m.method, snprintf 256 (m.target.takeWhile (· ≠ 63))⟩ =
      metricsStatus ⟨m.method, m.target.takeWhile (· ≠ 63)⟩ := by
    simp only [metricsStatus, snprintf_eq_iff (show (str "GET").length + 1 < 16 by decide),
      snprintf_eq_iff (show (str "/metrics").length + 1 < 256 by decide)]
  rw [MongooseAnswers, mongooseEventHandler, WellFormedRequest.mgHttpMessage,
    hnul _ WellFormedRequest.method_visible, hnul _ huri]
  refine (metricsHandler_answers srv palloced _).bind fun resp hresp => ?_
  exact returnsOnly_ret (hresp.trans hstatus)

theorem dumb_answers (srv : Server D) (palloced memory : Nat → UInt8)
    (hlength : m.bytes.length < DUMB_HTTP_BUFFER_SIZE) :
    DumbAnswers srv palloced memory m (metricsStatus ⟨m.method, m.target⟩) := by
  have hreceived : m.bytes.take (DUMB_HTTP_BUFFER_SIZE - 1) = m.bytes := snprintf_eq_self hlength
  have hnonempty : m.bytes ≠ [] := by simp [WellFormedRequest.bytes]
  have hnul : m.bytes.takeWhile (· ≠ 0) = m.bytes :=
    List.takeWhile_eq_self_iff.mpr fun b hb => by simpa using WellFormedRequest.bytes_noNul b hb
  rw [DumbAnswers, hreceived, handleConnection, if_neg hnonempty, hnul, parseRequest_wellFormed]
  refine (metricsHandler_answers srv palloced _).bind fun resp hresp => ?_
  exact returnsOnly_ret ⟨_, rfl, hresp⟩

/-- What stands before the first `?` of a target. -/
theorem takeWhile_eq_iff {s t : List UInt8} (ht : 63 ∉ t) :
    s.takeWhile (· ≠ 63) = t ↔ s = t ∨ t ++ [63] <+: s := by
  have hne : ∀ b ∈ t, decide (b ≠ (63 : UInt8)) = true := by
    intro b hb
    rw [decide_eq_true_iff]
    rintro rfl
    exact ht hb
  constructor
  · intro h
    have hs : t ++ s.dropWhile (· ≠ 63) = s := by
      rw [← h]
      exact List.takeWhile_append_dropWhile
    cases hrest : s.dropWhile (· ≠ 63) with
    | nil =>
      left
      rw [← hs, hrest, List.append_nil]
    | cons b rest =>
      right
      have hb : b = 63 := by
        have hhead := List.head?_dropWhile_not (fun b => decide (b ≠ (63 : UInt8))) s
        rw [hrest] at hhead
        simpa using hhead
      rw [hrest, hb] at hs
      exact ⟨rest, by rw [← hs, List.append_assoc]; rfl⟩
  · rintro (rfl | ⟨rest, rfl⟩)
    · exact List.takeWhile_eq_self_iff.mpr hne
    · rw [List.append_assoc, List.takeWhile_append_of_pos hne]
      simp

theorem MongooseAnswers.unique {palloced : Nat → UInt8} {code code' : Nat}
    (h : MongooseAnswers srv palloced m code) (h' : MongooseAnswers srv palloced m code') :
    code = code' := by
  obtain ⟨_, rfl, rfl⟩ := ReturnsOnly.exists_both h h'
  rfl

theorem DumbAnswers.unique {palloced memory : Nat → UInt8} {code code' : Nat}
    (h : DumbAnswers srv palloced memory m code) (h' : DumbAnswers srv palloced memory m code') :
    code = code' := by
  obtain ⟨_, ⟨x, rfl, rfl⟩, ⟨_, ⟨⟩, rfl⟩⟩ := ReturnsOnly.exists_both h h'
  rfl

/-- **Both backends route alike** exactly where no query is put behind `/metrics`. -/
theorem same_status_iff (srv : Server D) (palloced memory : Nat → UInt8) {m : WellFormedRequest}
    (hlength : m.bytes.length < DUMB_HTTP_BUFFER_SIZE) :
    (∃ code, MongooseAnswers srv palloced m code ∧ DumbAnswers srv palloced memory m code) ↔
      ¬ (m.method = str "GET" ∧ str "/metrics?" <+: m.target) := by
  have hmongoose := mongoose_answers srv palloced m
  have hdumb := dumb_answers srv palloced memory hlength
  have huri : m.target.takeWhile (· ≠ 63) = str "/metrics" ↔
      m.target = str "/metrics" ∨ str "/metrics?" <+: m.target := takeWhile_eq_iff (by decide)
  have hquery : str "/metrics?" <+: m.target → m.target ≠ str "/metrics" := by
    intro hprefix heq
    have := hprefix.length_le
    rw [heq] at this
    exact absurd this (by decide)
  constructor
  · rintro ⟨code, hcode, hcode'⟩ ⟨hget, htarget⟩
    have hsame := (hcode.unique hmongoose).symm.trans (hcode'.unique hdumb)
    rw [metricsStatus, if_pos ⟨hget, huri.mpr (.inr htarget)⟩, metricsStatus,
      if_neg fun h => hquery htarget h.2] at hsame
    cases hsame
  · intro hnot
    have hsame : metricsStatus ⟨m.method, m.target.takeWhile (· ≠ 63)⟩ =
        metricsStatus ⟨m.method, m.target⟩ := by
      by_cases hget : m.method = str "GET"
      · have hno : ¬ str "/metrics?" <+: m.target := fun h => hnot ⟨hget, h⟩
        simp only [metricsStatus, huri, hno, or_false]
      · simp only [metricsStatus, hget, false_and]
    exact ⟨_, hmongoose, hsame ▸ hdumb⟩

/-! ## 5. With and without a query -/

/-- `GET /metrics HTTP/1.1`. -/
def scrapeRequest : WellFormedRequest where
  method := str "GET"
  target := str "/metrics"
  major := 1
  minor := 1
  headers := [str "Host: localhost"]

/-- `GET /metrics?x HTTP/1.1`. -/
def queryRequest : WellFormedRequest where
  method := str "GET"
  target := str "/metrics?x"
  major := 1
  minor := 1
  headers := [str "Host: localhost"]

/-- A plain scrape is answered alike. -/
theorem scrapeRequest_same_status : ∃ code,
    MongooseAnswers smallServer (fun _ => 0) scrapeRequest code ∧
      DumbAnswers smallServer (fun _ => 0) (fun _ => 0) scrapeRequest code :=
  (same_status_iff smallServer (fun _ => 0) (fun _ => 0) (by decide)).mpr (by decide)

/-- With a query, mongoose has the metrics served and the dumb backend has not. -/
theorem queryRequest_status_differs : ¬ ∀ m : WellFormedRequest,
    m.bytes.length < DUMB_HTTP_BUFFER_SIZE → ∃ code,
      MongooseAnswers smallServer (fun _ => 0) m code ∧
        DumbAnswers smallServer (fun _ => 0) (fun _ => 0) m code := by
  intro h
  have hlength : queryRequest.bytes.length < DUMB_HTTP_BUFFER_SIZE := by decide
  obtain ⟨code, hmongoose, hdumb⟩ := h queryRequest hlength
  have hserved : code = 200 := hmongoose.unique (mongoose_answers _ _ _)
  have hnotFound : code = 404 := hdumb.unique (dumb_answers _ _ _ hlength)
  rw [hserved] at hnotFound
  cases hnotFound

end WhatIsHappening
