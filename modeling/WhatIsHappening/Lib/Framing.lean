/-
# Messages in a stream

A receiver keeps the bytes that have come and takes messages off their front.  What it finds at the
front may be nothing yet, a message of some length, or something after which it takes no more.  When
bytes that come later never change what was found, the messages do not depend on the pieces in
which the stream comes: `feed_flatten`.
-/
import Mathlib.Data.List.Induction

namespace Framing

/-- What is found at the front of the bytes received. -/
inductive Front (μ ε : Type) where
  /-- More bytes are needed. -/
  | wait
  /-- No more messages are taken. -/
  | stop (e : ε)
  /-- A message, which takes up this many bytes. -/
  | message (m : μ) (length : Nat)

/-- A receiver whose findings are final. -/
structure Receiver (β μ ε : Type) where
  front : List β → Front μ ε
  front_nil : front [] = .wait
  stop_append : ∀ {b e} (x : List β), front b = .stop e → front (b ++ x) = .stop e
  message_append : ∀ {b m n} (x : List β), front b = .message m n → front (b ++ x) = .message m n
  length_pos : ∀ {b m n}, front b = .message m n → 0 < n
  length_le : ∀ {b m n}, front b = .message m n → n ≤ b.length

/-- Where a receiver stands: the messages taken so far, the bytes left over, and why it stopped. -/
structure Received (β μ ε : Type) where
  messages : List μ := []
  rest : List β := []
  stopped : Option ε := none

variable {β μ ε : Type} (R : Receiver β μ ε)

namespace Receiver

/-- Takes messages off the bytes, `k` at most. -/
def take : (k : Nat) → List μ → List β → Received β μ ε
  | 0, ms, b => ⟨ms, b, none⟩
  | k + 1, ms, b =>
    match R.front b with
    | .wait => ⟨ms, b, none⟩
    | .stop e => ⟨ms, b, some e⟩
    | .message m n => take k (ms ++ [m]) (b.drop n)

/-- Bytes arrive; every message takes one byte at least. -/
def feed (r : Received β μ ε) (x : List β) : Received β μ ε :=
  match r.stopped with
  | some e => ⟨r.messages, r.rest ++ x, some e⟩
  | none => R.take (r.rest ++ x).length r.messages (r.rest ++ x)

variable {R}

theorem take_wait {k : Nat} {ms : List μ} {b : List β} (h : R.front b = .wait) :
    R.take k ms b = ⟨ms, b, none⟩ := by
  cases k with
  | zero => rfl
  | succ k => rw [take, h]

theorem take_message {k n : Nat} {ms : List μ} {b : List β} {m : μ}
    (h : R.front b = .message m n) : R.take (k + 1) ms b = R.take k (ms ++ [m]) (b.drop n) := by
  rw [take, h]

theorem take_stop {k : Nat} {ms : List μ} {b : List β} {e : ε} (h : R.front b = .stop e) :
    R.take (k + 1) ms b = ⟨ms, b, some e⟩ := by
  rw [take, h]

@[simp] theorem take_nil (k : Nat) (ms : List μ) : R.take k ms [] = ⟨ms, [], none⟩ :=
  take_wait R.front_nil

/-- With more rounds than bytes nothing changes. -/
theorem take_of_le {k l : Nat} {ms : List μ} {b : List β} (hk : b.length ≤ k) (hl : b.length ≤ l) :
    R.take k ms b = R.take l ms b := by
  induction k generalizing l ms b with
  | zero =>
    rw [List.length_eq_zero_iff.mp (Nat.le_zero.mp hk), take_nil, take_nil]
  | succ k ih =>
    cases l with
    | zero => rw [List.length_eq_zero_iff.mp (Nat.le_zero.mp hl), take_nil, take_nil]
    | succ l =>
      rw [take, take]
      cases hfront : R.front b with
      | wait => rfl
      | stop e => rfl
      | message m n =>
        have hpos := R.length_pos hfront
        refine ih ?_ ?_ <;> rw [List.length_drop] <;> omega

/-- What was left over is looked at again together with what comes next. -/
theorem feed_take {k : Nat} {ms : List μ} {b : List β} (x : List β) (hk : b.length ≤ k) :
    R.feed (R.take k ms b) x = R.take (b ++ x).length ms (b ++ x) := by
  induction k generalizing ms b with
  | zero =>
    rw [List.length_eq_zero_iff.mp (Nat.le_zero.mp hk)]
    rfl
  | succ k ih =>
    cases hfront : R.front b with
    | wait =>
      rw [take_wait hfront]
      rfl
    | stop e =>
      obtain ⟨a, b, rfl⟩ : ∃ a b', b = a :: b' := List.exists_cons_of_ne_nil fun hnil => by
        rw [hnil, R.front_nil] at hfront
        cases hfront
      have hmore : R.front (a :: (b ++ x)) = .stop e := R.stop_append x hfront
      rw [take_stop hfront, List.cons_append, List.length_cons, take_stop hmore]
      rfl
    | message m n =>
      have hpos := R.length_pos hfront
      have hle := R.length_le hfront
      obtain ⟨l, hl⟩ : ∃ l, (b ++ x).length = l + 1 :=
        Nat.exists_eq_add_one_of_ne_zero (by rw [List.length_append]; omega)
      have hdrop : (b ++ x).drop n = b.drop n ++ x := List.drop_append_of_le_length hle
      rw [take_message hfront, ih (by rw [List.length_drop]; omega), hl,
        take_message (R.message_append x hfront), hdrop]
      refine take_of_le (Nat.le_refl _) ?_
      rw [List.length_append] at hl
      rw [List.length_append, List.length_drop]
      omega

theorem feed_append (r : Received β μ ε) (x y : List β) :
    R.feed (R.feed r x) y = R.feed r (x ++ y) := by
  obtain ⟨ms, rest, stopped⟩ := r
  cases stopped with
  | some e => simp [feed]
  | none => exact (feed_take y (Nat.le_refl _)).trans (by simp only [feed, List.append_assoc])

/-- What has not stopped had not stopped before. -/
theorem goes_of_feed {r : Received β μ ε} {x : List β} (h : (R.feed r x).stopped = none) :
    r.stopped = none := by
  obtain ⟨ms, rest, stopped⟩ := r
  cases stopped with
  | none => rfl
  | some e => cases h

/-- **The messages do not depend on the pieces the stream comes in.** -/
theorem feed_flatten (pieces : List (List β)) :
    pieces.foldl R.feed {} = R.feed {} pieces.flatten := by
  induction pieces using List.reverseRecOn with
  | nil => exact (take_nil (R := R) 0 []).symm
  | append_singleton pieces x ih =>
    rw [List.foldl_append, ih, List.flatten_append]
    simp [feed_append]

end Receiver

/-! ## Streams that were put together -/

section Frames

variable {R} {ι : Type} {bytes : ι → List β} {message : ι → μ}

/-- The beginning of a frame, and not the whole of it. -/
def IsPartial (bytes : ι → List β) (part : List β) : Prop :=
  ∃ i, part <+: bytes i ∧ part.length < (bytes i).length

/-- What comes before the end of a stream is some of its frames, and a part of one. -/
theorem IsPartial.exists_cut {part : List β} (hpart : IsPartial bytes part) :
    ∀ (frames : List ι) (p : List β), p <+: frames.flatMap bytes ++ part →
      ∃ (frames' : List ι) (part' : List β), frames' <+: frames ∧
        p = frames'.flatMap bytes ++ part' ∧ IsPartial bytes part'
  | [], p, hp => by
    obtain ⟨i, hi, hlt⟩ := hpart
    exact ⟨[], p, List.nil_prefix, rfl, i, hp.trans hi, Nat.lt_of_le_of_lt hp.length_le hlt⟩
  | f :: frames, p, hp => by
    rw [List.flatMap_cons, List.append_assoc] at hp
    by_cases hlt : p.length < (bytes f).length
    · refine ⟨[], p, List.nil_prefix, rfl, f, ?_, hlt⟩
      exact List.prefix_of_prefix_length_le hp (List.prefix_append _ _) (Nat.le_of_lt hlt)
    · obtain ⟨p, rfl⟩ := List.prefix_of_prefix_length_le (List.prefix_append (bytes f) _) hp
        (Nat.le_of_not_lt hlt)
      obtain ⟨frames', part', hframes', rfl, hpart'⟩ :=
        hpart.exists_cut frames p ((List.prefix_append_right_inj _).mp hp)
      refine ⟨f :: frames', part', ?_, by rw [List.flatMap_cons, List.append_assoc], hpart'⟩
      exact List.cons_prefix_cons.mpr ⟨rfl, hframes'⟩

variable (hframe : ∀ i, R.front (bytes i) = .message (message i) (bytes i).length)
include hframe

/-- A part of a frame is no message, and no reason to stop. -/
theorem IsPartial.front_eq_wait {part : List β} (h : IsPartial bytes part) :
    R.front part = .wait := by
  obtain ⟨i, ⟨x, hx⟩, hlt⟩ := h
  have hi := hframe i
  cases hfront : R.front part with
  | wait => rfl
  | stop e =>
    rw [← hx, R.stop_append x hfront] at hi
    cases hi
  | message m n =>
    have hle := R.length_le hfront
    have hmore := R.message_append x hfront
    rw [hx, hi] at hmore
    cases hmore
    omega

theorem take_frames {part : List β} (hpart : IsPartial bytes part) :
    ∀ (frames : List ι) (ms : List μ) (k : Nat), (frames.flatMap bytes ++ part).length ≤ k →
      R.take k ms (frames.flatMap bytes ++ part) = ⟨ms ++ frames.map message, part, none⟩
  | [], ms, k, _ => by
    rw [List.flatMap_nil, List.nil_append, Receiver.take_wait (hpart.front_eq_wait hframe),
      List.map_nil, List.append_nil]
  | f :: frames, ms, k, hk => by
    have hpos := R.length_pos (hframe f)
    simp only [List.flatMap_cons, List.append_assoc, List.length_append] at hk ⊢
    obtain ⟨l, rfl⟩ := Nat.exists_eq_add_one_of_ne_zero (show k ≠ 0 by omega)
    rw [Receiver.take_message (R.message_append _ (hframe f)), List.drop_left,
      take_frames hpart frames _ l (by rw [List.length_append]; omega), List.map_cons,
      List.append_assoc, List.singleton_append]

/-- **A stream of frames is taken apart into their messages**, and the part of a frame is kept. -/
theorem feed_frames {part : List β} (hpart : IsPartial bytes part) (frames : List ι) :
    R.feed {} (frames.flatMap bytes ++ part) = ⟨frames.map message, part, none⟩ :=
  take_frames hframe hpart frames [] _ (Nat.le_refl _)

end Frames

end Framing
