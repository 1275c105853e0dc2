/-
# The configured endpoint and the bound one

`check_listen_address` (`gucs.c`) accepts `host:port`.  mongoose is given the whole text, in a
buffer of 128 bytes; the dumb backend takes the port from it and listens on every interface.
`listens_as_configured_iff` says which accepted addresses both serve as they are written.
-/
import WhatIsHappening.HttpServer.Mongoose

namespace WhatIsHappening

open CLib

/-! ## 1. The setting -/

/-- `check_listen_address`, with the detail of its error. -/
def checkListenAddress : Option (List UInt8) → Except String Unit
  | none => .error "Listen address cannot be empty"
  | some value =>
    if value = [] then .error "Listen address cannot be empty"
    else match strchr value 58 with
      | none => .error "Listen address must be in format host:port"
      | some hostLen =>
        let (port, endptr) := strtol (value.drop (hostLen + 1))
        if hostLen = 0 then .error "Host part cannot be empty"
        else if hostLen > 255 then .error "Host part too long (max 255 characters)"
        else if endptr ≠ (value.drop (hostLen + 1)).length ∨ endptr = 0 then
          .error "Port must be a numeric value"
        else if port < 1 ∨ port > 65535 then .error "Port must be between 1 and 65535"
        else .ok ()

/-- The host of an address: what stands before the first `:`. -/
def hostOf (s : List UInt8) : List UInt8 := s.takeWhile (· ≠ 58)

/-- The port of an address. -/
def portOf (s : List UInt8) : Int := (strtol (s.drop ((hostOf s).length + 1))).1

/-- An address `check_listen_address` accepts. -/
structure Accepted (s host port : List UInt8) : Prop where
  eq : s = host ++ 58 :: port
  host_ne : host ≠ []
  host_noColon : 58 ∉ host
  host_le : host.length ≤ 255
  port_ne : port ≠ []
  port_all : (strtol port).2 = port.length
  port_pos : 1 ≤ (strtol port).1
  port_le : (strtol port).1 ≤ 65535

/-- **What is accepted** is a host and a port, with one `:` between them. -/
theorem accepted_iff {s : List UInt8} :
    checkListenAddress (some s) = .ok () ↔ ∃ host port, Accepted s host port := by
  constructor
  · intro h
    rw [checkListenAddress] at h
    split at h
    · cases h
    cases hcolon : strchr s 58 with
    | none =>
      rw [hcolon] at h
      cases h
    | some i =>
      rw [hcolon] at h
      obtain ⟨hmem, hs, hlt⟩ := strchr_eq_some hcolon
      have hlength : (s.take i).length = i := List.length_take_of_le (Nat.le_of_lt hlt)
      dsimp only at h
      split at h
      · cases h
      split at h
      · cases h
      split at h
      · cases h
      split at h
      · cases h
      rename_i hpos hle hnum hport
      rw [not_or, not_not] at hnum
      rw [not_or, Int.not_lt, Int.not_lt] at hport
      refine ⟨s.take i, s.drop (i + 1), hs, ?_, hmem, ?_, ?_, hnum.1, hport.1, hport.2⟩
      · intro hnil
        rw [hnil] at hlength
        exact hpos hlength.symm
      · omega
      · intro hnil
        rw [hnil] at hnum
        exact hnum.2 hnum.1
  · rintro ⟨host, port, h⟩
    have hcolon : strchr s 58 = some host.length := h.eq ▸ strchr_append h.host_noColon
    have hport : s.drop (host.length + 1) = port := by simp [h.eq]
    have hs : s ≠ [] := by simp [h.eq]
    have hhost : host.length ≠ 0 := fun hnil => h.host_ne (List.length_eq_zero_iff.mp hnil)
    have hle := h.host_le
    have hnum : ¬ ((strtol port).2 ≠ port.length ∨ (strtol port).2 = 0) := by
      rw [not_or, not_not, h.port_all]
      exact ⟨rfl, fun hnil => h.port_ne (List.length_eq_zero_iff.mp hnil)⟩
    have hrange : ¬ ((strtol port).1 < 1 ∨ (strtol port).1 > 65535) := by
      rw [not_or, Int.not_lt, Int.not_lt]
      exact ⟨h.port_pos, h.port_le⟩
    simp only [checkListenAddress, if_neg hs, hcolon, hport, if_neg hhost, if_neg hnum,
      if_neg hrange, if_neg (Nat.not_lt.mpr hle)]

namespace Accepted

variable {s host port : List UInt8}

theorem hostOf_eq (h : Accepted s host port) : hostOf s = host := by
  have hne : ∀ b ∈ host, decide (b ≠ (58 : UInt8)) = true := by
    intro b hb
    rw [decide_eq_true_iff]
    rintro rfl
    exact h.host_noColon hb
  rw [hostOf, h.eq, List.takeWhile_append_of_pos hne]
  simp

theorem portOf_eq (h : Accepted s host port) : portOf s = (strtol port).1 := by
  rw [portOf, h.hostOf_eq, h.eq]
  simp

/-- The port has no further `:`, so the last one is the first. -/
theorem port_noColon (h : Accepted s host port) : (58 : UInt8) ∉ port := by
  intro hmem
  have := strtol_consumed h.port_all h.port_ne 58 hmem
  exact absurd this (by decide)

theorem strrchr_eq (h : Accepted s host port) : strrchr s 58 = some host.length :=
  h.eq ▸ strrchr_append h.port_noColon

/-- No accepted address begins with `http://`: its first `:` would be followed by a `/`. -/
theorem not_http (h : Accepted s host port) : ¬ str "http://" <+: s := by
  rintro ⟨rest, hrest⟩
  have hsplit : host ++ 58 :: port = str "http" ++ 58 :: (str "//" ++ rest) := by
    rw [← h.eq, ← hrest]
    rfl
  have hlength : host.length = (str "http").length := by
    have hfirst := strchr_append (b := port) h.host_noColon
    have hhttp : strchr (str "http" ++ 58 :: (str "//" ++ rest)) 58 = some (str "http").length :=
      strchr_append (by decide)
    rw [hsplit, hhttp] at hfirst
    exact (Option.some.inj hfirst).symm
  have hport : port = str "//" ++ rest :=
    (List.cons.inj (List.append_inj_right hsplit hlength)).2
  have := strtol_consumed h.port_all h.port_ne 47 (by rw [hport]; exact List.mem_cons_self)
  exact absurd this (by decide)

end Accepted

/-! ## 2. What the backends listen on -/

/-- mongoose keeps the whole address, and the dumb backend binds its socket to the address its host
denotes and to its port. -/
def ListensAsConfigured (resolve : List UInt8 → Option UInt32) (s : List UInt8) : Prop :=
  (∀ mallocServer mallocImpl impl, mongooseCreate mallocServer mallocImpl s = some impl →
    impl.listenAddress = str "http://" ++ s) ∧
  ∀ mallocServer mallocImpl impl, dumbCreate mallocServer mallocImpl s = some impl →
    ∀ r fd addr, SocketCall.bind fd addr ∈ (dumbRunListen r impl).1 →
      resolve (hostOf s) = some addr.sinAddr ∧ (addr.sinPort.toNat : Int) = portOf s

section Backends

variable {s host port : List UInt8} (h : Accepted s host port)

include h

/-- What `mongoose_create` stores. -/
theorem mongooseCreate_listenAddress {impl : MongooseHttpServer} {mallocServer mallocImpl : Bool}
    (hcreate : mongooseCreate mallocServer mallocImpl s = some impl) :
    impl.listenAddress = snprintf 128 (str "http://" ++ s) := by
  unfold mongooseCreate at hcreate
  split at hcreate
  · cases hcreate
  split at hcreate
  · cases hcreate
  · rw [← Option.some.inj hcreate]
    exact if_neg (by rw [List.isPrefixOf_iff_prefix]; exact h.not_http)

theorem dumbCreate_port {impl : DumbHttpServer} {mallocServer mallocImpl : Bool}
    (hcreate : dumbCreate mallocServer mallocImpl s = some impl) : impl.port = atoi port := by
  unfold dumbCreate at hcreate
  split at hcreate
  · cases hcreate
  split at hcreate
  · cases hcreate
  · rw [← Option.some.inj hcreate]
    simp only [h.strrchr_eq]
    rw [h.eq]
    simp

/-- `htons(atoi(port))` is the port. -/
theorem port_toNat : ((atoi port).toUInt32.toUInt16.toNat : Int) = (strtol port).1 := by
  obtain ⟨n, hn⟩ := Int.eq_ofNat_of_zero_le (Int.le_trans Int.one_nonneg h.port_pos)
  have hlt : n < 65536 := by
    have := h.port_le
    omega
  rw [atoi, hn, Int32.ofInt_eq_ofNat, Int32.toUInt32_ofNat', UInt32.toUInt16_ofNat',
    UInt16.toNat_ofNat_of_lt' hlt]

end Backends

/-- The one address `dumb_run` binds its socket to. -/
theorem bind_mem_iff {r : SocketResults} {impl : DumbHttpServer} {fd : Int32} {addr : SockaddrIn} :
    SocketCall.bind fd addr ∈ (dumbRunListen r impl).1 ↔
      ¬ r.socketFd < 0 ∧ fd = r.socketFd ∧ addr = ⟨INADDR_ANY, impl.port.toUInt32.toUInt16⟩ := by
  unfold dumbRunListen
  by_cases hfd : r.socketFd < 0
  · simp [hfd]
  by_cases hbind : r.bindResult < 0
  · simp [hfd, hbind]
  by_cases hlisten : r.listenResult < 0
  · simp [hfd, hbind, hlisten]
  · simp [hfd, hbind, hlisten]

/-- **The configured endpoint is the bound endpoint** exactly where the address fits mongoose's
buffer and its host denotes every interface. -/
theorem listens_as_configured_iff (resolve : List UInt8 → Option UInt32) {s : List UInt8}
    (haccepted : checkListenAddress (some s) = .ok ()) :
    ListensAsConfigured resolve s ↔
      s.length ≤ 120 ∧ resolve (hostOf s) = some INADDR_ANY := by
  obtain ⟨host, port, h⟩ := accepted_iff.mp haccepted
  have hfits : snprintf 128 (str "http://" ++ s) = str "http://" ++ s ↔ s.length ≤ 120 := by
    rw [snprintf_eq_self_iff (by decide), List.length_append,
      show (str "http://").length = 7 by rfl]
    omega
  constructor
  · rintro ⟨hmongoose, hdumb⟩
    constructor
    · obtain ⟨impl, hcreate⟩ : ∃ impl, mongooseCreate true true s = some impl := ⟨_, rfl⟩
      rw [← hfits, ← mongooseCreate_listenAddress h hcreate]
      exact hmongoose true true impl hcreate
    · exact (hdumb true true _ rfl ⟨3, 0, 0⟩ 3 _ (bind_mem_iff.mpr ⟨by decide, rfl, rfl⟩)).1
  · rintro ⟨hlength, hresolve⟩
    constructor
    · intro _ _ impl hcreate
      rw [mongooseCreate_listenAddress h hcreate]
      exact hfits.mpr hlength
    · intro _ _ impl hcreate r fd addr hbind
      obtain ⟨-, -, rfl⟩ := bind_mem_iff.mp hbind
      rw [dumbCreate_port h hcreate, h.portOf_eq]
      exact ⟨hresolve, port_toNat h⟩

/-! ## 3. Two addresses -/

/-- `inet_aton` of four decimal numbers. -/
def inetAton (host : List UInt8) : Option UInt32 :=
  match host.splitOn 46 with
  | [a, b, c, d] =>
    if [a, b, c, d].all fun n => n ≠ [] && n.all isDigit && digitsValue n ≤ 255 then
      some (UInt32.ofNat (((digitsValue a * 256 + digitsValue b) * 256 + digitsValue c) * 256 +
        digitsValue d))
    else none
  | _ => none

example : inetAton (str "127.0.0.1") = some 2130706433 := by decide

/-- Every interface, on port 9187. -/
theorem everyInterface_listens_as_configured :
    checkListenAddress (some (str "0.0.0.0:9187")) = .ok () ∧
      ListensAsConfigured inetAton (str "0.0.0.0:9187") :=
  have haccepted : checkListenAddress (some (str "0.0.0.0:9187")) = .ok () := by decide
  ⟨haccepted, (listens_as_configured_iff inetAton haccepted).mpr (by decide)⟩

/-- The default address: the dumb backend does not bind its socket to 127.0.0.1. -/
theorem defaultAddress_not_as_configured :
    ¬ ∀ s, checkListenAddress (some s) = .ok () → ListensAsConfigured inetAton s := by
  intro h
  have hdefault := h (str "127.0.0.1:9187") (by decide)
  have hbound := (hdefault.2 true true _ rfl ⟨3, 0, 0⟩ 3 _ (List.mem_of_mem_tail
    (List.mem_of_mem_tail List.mem_cons_self))).1
  exact absurd hbound (by decide)

end WhatIsHappening
