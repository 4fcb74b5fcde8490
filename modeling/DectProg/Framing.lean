-- Frames in a stream: a header item, two items that announce the length of the
-- payload, the payload, and a trailer computed from it. A receiver looks for
-- the first header, takes whole frames off the front, and keeps a frame that
-- has not arrived yet for the next read.
import Mathlib.Data.List.Basic

namespace framing

variable {α : Type}

/-- A frame format. A receiver that `keepsLast` puts the last item back when it finds no
header, also when there was nothing left to look at. -/
structure Format (α : Type) where
  header : α
  length : α → α → Nat
  announce : Nat → α × α
  maxLength : Nat
  trailer : List α → List α
  trailerLength : Nat
  keepsLast : Bool
  trailer_length : ∀ p, (trailer p).length = trailerLength
  length_announce : ∀ n ≤ maxLength, length (announce n).1 (announce n).2 = n

/-- What a list of received items starts with. -/
inductive Parsed (α : Type)
  /-- There is no header in it. -/
  | absent
  /-- A frame that has not arrived as a whole. -/
  | short (frame : List α)
  /-- A whole frame with a wrong trailer. -/
  | damaged (rest : List α)
  | frame (payload rest : List α)
  deriving DecidableEq

namespace Format

variable (f : Format α)

def encode (p : List α) : List α :=
  f.header :: (f.announce p.length).1 :: (f.announce p.length).2 :: (p ++ f.trailer p)

/-- The stream of several frames. -/
def stream (ps : List (List α)) : List α := ps.flatMap f.encode

theorem encode_length (p : List α) : (f.encode p).length = p.length + f.trailerLength + 3 := by
  simp [encode, f.trailer_length]

theorem encode_ne_nil (p : List α) : f.encode p ≠ [] := by simp [encode]

theorem stream_append (ps qs : List (List α)) :
    f.stream (ps ++ qs) = f.stream ps ++ f.stream qs := by
  simp [stream]

theorem stream_cons (p : List α) (ps : List (List α)) :
    f.stream (p :: ps) = f.encode p ++ f.stream ps := rfl

/-! ## Whole inputs -/

/-- What a check finds that takes the trailer from the end of its input, whatever the first item is:
the announced payload is there, and the last items are its trailer. -/
def EndsWithTrailer (c : List α) : Prop :=
  ∃ h a b s, c = h :: a :: b :: s ∧ f.length a b + f.trailerLength ≤ s.length ∧
    s.drop (s.length - f.trailerLength) = f.trailer (s.take (f.length a b))

theorem endsWithTrailer_cons {h a b : α} {s : List α} :
    f.EndsWithTrailer (h :: a :: b :: s) ↔ f.length a b + f.trailerLength ≤ s.length ∧
      s.drop (s.length - f.trailerLength) = f.trailer (s.take (f.length a b)) := by
  constructor
  · rintro ⟨h', a', b', s', hs, hfull, htrailer⟩
    cases hs
    exact ⟨hfull, htrailer⟩
  · rintro ⟨hfull, htrailer⟩
    exact ⟨h, a, b, s, rfl, hfull, htrailer⟩

theorem EndsWithTrailer.length_le {c : List α} (h : f.EndsWithTrailer c) :
    3 + f.trailerLength ≤ c.length := by
  obtain ⟨h', a, b, s, rfl, hfull, -⟩ := h
  simp only [List.length_cons]
  omega

/-- More items than were announced, and the trailer of the announced payload at their end. -/
def Padded (c : List α) : Prop :=
  ∃ a b s, c = f.header :: a :: b :: s ∧ f.length a b + f.trailerLength < s.length ∧
    s.drop (s.length - f.trailerLength) = f.trailer (s.take (f.length a b))

/-- The frame of a payload whose length it cannot announce. -/
def Oversized (c : List α) : Prop := ∃ p, f.maxLength < p.length ∧ c = f.encode p

theorem Oversized.length_lt {c : List α} (h : f.Oversized c) : f.maxLength < c.length := by
  obtain ⟨p, hp, rfl⟩ := h
  rw [f.encode_length]
  omega

theorem encode_exact {p : List α} (hp : p.length ≤ f.maxLength) :
    f.EndsWithTrailer (f.encode p) ∧ ¬ f.Padded (f.encode p) := by
  have hn := f.length_announce p.length hp
  have ht := f.trailer_length p
  have hend : (p ++ f.trailer p).length - f.trailerLength = p.length := by
    rw [List.length_append, ht, Nat.add_sub_cancel]
  constructor
  · refine ⟨_, _, _, _, rfl, Nat.le_of_eq ?_, ?_⟩
    · rw [hn, List.length_append, ht]
    · rw [hn, hend, List.drop_left, List.take_left]
  · rintro ⟨a, b, s, hs, hlong, -⟩
    obtain ⟨rfl, rfl, rfl⟩ : _ = a ∧ _ = b ∧ _ = s := by simpa [encode] using hs
    rw [hn, List.length_append, ht] at hlong
    exact Nat.lt_irrefl _ hlong

section check

variable (hannounce : ∀ a b, f.announce (f.length a b) = (a, b)) {c : List α}

include hannounce in
theorem encoded_iff : (∃ p, c = f.encode p) ↔
    c.head? = some f.header ∧ f.EndsWithTrailer c ∧ ¬ f.Padded c ∨ f.Oversized c := by
  constructor
  · rintro ⟨p, rfl⟩
    by_cases hp : p.length ≤ f.maxLength
    · exact .inl ⟨rfl, f.encode_exact hp⟩
    · exact .inr ⟨p, Nat.lt_of_not_le hp, rfl⟩
  · rintro (⟨hhead, ⟨h, a, b, s, rfl, hfull, htrailer⟩, hpadded⟩ | ⟨p, -, rfl⟩)
    · obtain rfl : h = f.header := by simpa using hhead
      have hexact : s.length = f.length a b + f.trailerLength := by
        by_contra hne
        exact hpadded ⟨a, b, s, rfl, by omega, htrailer⟩
      have hlen : (s.take (f.length a b)).length = f.length a b := by
        rw [List.length_take]
        omega
      rw [hexact, Nat.add_sub_cancel] at htrailer
      refine ⟨s.take (f.length a b), ?_⟩
      rw [encode, hlen, hannounce, ← htrailer, List.take_append_drop]
    · exact ⟨p, rfl⟩

theorem Padded.accepted (h : f.Padded c) : c.head? = some f.header ∧ f.EndsWithTrailer c := by
  obtain ⟨a, b, s, rfl, hlong, htrailer⟩ := h
  exact ⟨rfl, _, _, _, _, rfl, Nat.le_of_lt hlong, htrailer⟩

/-- What an oversized frame announces is less than it carries. -/
theorem Oversized.padded (hlength : ∀ a b, f.length a b ≤ f.maxLength) (h : f.Oversized c)
    (hends : f.EndsWithTrailer c) : f.Padded c := by
  obtain ⟨p, hp, rfl⟩ := h
  have hle := hlength (f.announce p.length).1 (f.announce p.length).2
  obtain ⟨-, htrailer⟩ := f.endsWithTrailer_cons.mp hends
  refine ⟨_, _, _, rfl, ?_, htrailer⟩
  rw [List.length_append, f.trailer_length]
  omega

include hannounce in
/-- Such a check, with a test of the header, accepts exactly the encoded frames unless its input is
padded, or encoded and oversized: there it is right if the input is both. -/
theorem check_iff (hlength : ∀ a b, f.length a b ≤ f.maxLength) :
    ((c.head? = some f.header ∧ f.EndsWithTrailer c) ↔ ∃ p, c = f.encode p) ↔
      (f.Padded c ↔ f.Oversized c) := by
  rw [f.encoded_iff hannounce]
  constructor
  · intro h
    constructor
    · intro hpadded
      rcases h.mp hpadded.accepted with ⟨-, -, hnot⟩ | hover
      · exact absurd hpadded hnot
      · exact hover
    · intro hover
      exact hover.padded f hlength (h.mpr (.inr hover)).2
  · intro h
    constructor
    · rintro ⟨hhead, hends⟩
      by_cases hpadded : f.Padded c
      · exact .inr (h.mp hpadded)
      · exact .inl ⟨hhead, hends, hpadded⟩
    · rintro (⟨hhead, hends, -⟩ | hover)
      · exact ⟨hhead, hends⟩
      · exact (h.mpr hover).accepted

end check

/-! ## Items that come in -/

variable [DecidableEq α]

/-- The items from a header on. -/
def body : List α → Parsed α
  | h :: a :: b :: s =>
    let n := f.length a b
    if s.length < n + f.trailerLength then .short (h :: a :: b :: s)
    else if (s.drop n).take f.trailerLength = f.trailer (s.take n) then
      .frame (s.take n) (s.drop (n + f.trailerLength))
    else .damaged (s.drop (n + f.trailerLength))
  | [] => .absent
  | s => .short s

/-- The first header, and what starts there. -/
def parse (c : List α) : Parsed α := f.body (c.dropWhile (· ≠ f.header))

/-- The length that the frame at the first header announces, when the whole frame is there. -/
def whole (c : List α) : Option Nat :=
  match c.dropWhile (· ≠ f.header) with
  | _ :: a :: b :: s =>
    if s.length < f.length a b + f.trailerLength then none else some (f.length a b)
  | _ => none

/-! ## The first header -/

theorem parse_junk {junk : List α} (s : List α) (h : f.header ∉ junk) :
    f.parse (junk ++ s) = f.parse s := by
  unfold parse
  rw [List.dropWhile_append_of_pos]
  intro x hx
  simp only [ne_eq, decide_not, Bool.not_eq_eq_eq_not, Bool.not_true, decide_eq_false_iff_not]
  exact fun he => h (he ▸ hx)

theorem parse_header (s : List α) : f.parse (f.header :: s) = f.body (f.header :: s) := by
  simp [parse]

theorem parse_absent {c : List α} (h : f.header ∉ c) : f.parse c = .absent := by
  have := f.parse_junk [] h
  rw [List.append_nil] at this
  rw [this]
  rfl

/-- Every list is junk alone, or junk before the first header. -/
theorem split_header (c : List α) :
    f.header ∉ c ∨ ∃ junk s, c = junk ++ f.header :: s ∧ f.header ∉ junk := by
  by_cases h : f.header ∈ c
  · obtain ⟨junk, s, hc, hj⟩ := List.eq_append_cons_of_mem h
    exact .inr ⟨junk, s, hc, hj⟩
  · exact .inl h

/-! ## What a parse says about the items -/

theorem body_short {c s : List α} (h : f.body c = .short s) : s = c := by
  match c, h with
  | [], h => cases h
  | [_], h => cases h; rfl
  | [_, _], h => cases h; rfl
  | _ :: _ :: _ :: _, h =>
    simp only [body] at h
    split at h
    · cases h; rfl
    · split at h <;> cases h

theorem body_damaged {c rest : List α} (h : f.body c = .damaged rest) :
    ∃ frame, c = frame ++ rest ∧ 3 ≤ frame.length := by
  match c, h with
  | [], h => cases h
  | [_], h => cases h
  | [_, _], h => cases h
  | h0 :: a :: b :: s, h =>
    simp only [body] at h
    split at h
    · cases h
    · split at h
      · cases h
      · cases h
        refine ⟨h0 :: a :: b :: s.take (f.length a b + f.trailerLength), ?_, by simp⟩
        simp [List.take_append_drop]

theorem body_frame {c p rest : List α} (h : f.body c = .frame p rest) :
    ∃ h0 a b, c = h0 :: a :: b :: (p ++ f.trailer p ++ rest) ∧ f.length a b = p.length := by
  match c, h with
  | [], h => cases h
  | [_], h => cases h
  | [_, _], h => cases h
  | h0 :: a :: b :: s, h =>
    simp only [body] at h
    split at h
    · cases h
    · rename_i hlen
      split at h
      · rename_i htrailer
        cases h
        refine ⟨h0, a, b, ?_, ?_⟩
        · rw [← htrailer, ← List.drop_drop, List.append_assoc, List.take_append_drop,
            List.take_append_drop]
        · rw [List.length_take]
          omega
      · cases h

theorem parse_short {c s : List α} (h : f.parse c = .short s) :
    ∃ junk s', c = junk ++ s ∧ f.header ∉ junk ∧ s = f.header :: s' := by
  rcases f.split_header c with hc | ⟨junk, s', rfl, hj⟩
  · rw [f.parse_absent hc] at h
    cases h
  · rw [f.parse_junk _ hj, f.parse_header] at h
    exact ⟨junk, s', by rw [f.body_short h], hj, f.body_short h⟩

theorem parse_damaged {c rest : List α} (h : f.parse c = .damaged rest) :
    ∃ frame, c = frame ++ rest ∧ 3 ≤ frame.length := by
  rcases f.split_header c with hc | ⟨junk, s', rfl, hj⟩
  · rw [f.parse_absent hc] at h
    cases h
  · rw [f.parse_junk _ hj, f.parse_header] at h
    obtain ⟨frame, hf, hl⟩ := f.body_damaged h
    exact ⟨junk ++ frame, by rw [hf, List.append_assoc],
      by rw [List.length_append]; omega⟩

theorem parse_frame {c p rest : List α} (h : f.parse c = .frame p rest) :
    ∃ junk a b, c = junk ++ f.header :: a :: b :: (p ++ f.trailer p ++ rest) ∧
      f.header ∉ junk ∧ f.length a b = p.length := by
  rcases f.split_header c with hc | ⟨junk, s', rfl, hj⟩
  · rw [f.parse_absent hc] at h
    cases h
  · rw [f.parse_junk _ hj, f.parse_header] at h
    obtain ⟨h0, a, b, hf, hl⟩ := f.body_frame h
    cases hf
    exact ⟨junk, a, b, rfl, hj, hl⟩

theorem parse_frame_length {c p rest : List α} (h : f.parse c = .frame p rest) :
    rest.length < c.length := by
  obtain ⟨junk, a, b, rfl, _, _⟩ := f.parse_frame h
  simp only [List.length_append, List.length_cons]
  omega

/-- The items after a frame, as a drop. -/
theorem parse_frame_drop {c p rest : List α} (h : f.parse c = .frame p rest) :
    c.drop (c.length - rest.length) = rest := by
  obtain ⟨junk, a, b, hc, _, _⟩ := f.parse_frame h
  have hc' : c = (junk ++ f.header :: a :: b :: (p ++ f.trailer p)) ++ rest := by simp [hc]
  rw [hc', List.length_append, Nat.add_sub_cancel, List.drop_left]

/-! ## Whole frames -/

theorem whole_junk {junk : List α} (s : List α) (h : f.header ∉ junk) :
    f.whole (junk ++ f.header :: s) = f.whole (f.header :: s) := by
  unfold whole
  rw [List.dropWhile_append_of_pos]
  intro x hx
  simp only [ne_eq, decide_not, Bool.not_eq_eq_eq_not, Bool.not_true, decide_eq_false_iff_not]
  exact fun he => h (he ▸ hx)

theorem whole_header {a b : α} {s : List α} (h : f.length a b + f.trailerLength ≤ s.length) :
    f.whole (f.header :: a :: b :: s) = some (f.length a b) := by
  simp only [whole, ne_eq, decide_not, decide_true, Bool.not_true, Bool.false_eq_true,
    not_false_eq_true, List.dropWhile_cons_of_neg]
  rw [if_neg (by omega)]

theorem whole_absent {c : List α} (h : f.header ∉ c) : f.whole c = none := by
  have hnil : c.dropWhile (· ≠ f.header) = [] := by
    have hne : ∀ x ∈ c, decide (x ≠ f.header) = true := by
      intro x hx
      simp only [ne_eq, decide_not, Bool.not_eq_eq_eq_not, Bool.not_true, decide_eq_false_iff_not]
      exact fun he => h (he ▸ hx)
    have hall : (c ++ []).dropWhile (· ≠ f.header) = [].dropWhile (· ≠ f.header) :=
      List.dropWhile_append_of_pos hne
    simpa using hall
  rw [whole, hnil]

/-- A frame that has not arrived as a whole announces nothing. -/
theorem whole_short {c s : List α} (h : f.parse c = .short s) : f.whole c = none := by
  unfold parse at h
  unfold whole
  generalize c.dropWhile (· ≠ f.header) = d at h
  match d, h with
  | [], h => rfl
  | [_], h => rfl
  | [_, _], h => rfl
  | _ :: a :: b :: s, h =>
    simp only [body] at h
    dsimp only
    split at h
    · rename_i hlen
      rw [if_pos hlen]
    · split at h <;> cases h

/-- Where no whole frame is announced there is no header, or the frame is not there yet. -/
theorem parse_of_whole_none {c : List α} (h : f.whole c = none) :
    f.parse c = .absent ∨ ∃ s, f.parse c = .short s := by
  unfold whole at h
  unfold parse
  generalize c.dropWhile (· ≠ f.header) = d at h
  match d, h with
  | [], _ => exact .inl rfl
  | [_], _ => exact .inr ⟨_, rfl⟩
  | [_, _], _ => exact .inr ⟨_, rfl⟩
  | h0 :: a :: b :: s, h =>
    dsimp only at h
    split at h <;> rename_i hlen
    · refine .inr ⟨h0 :: a :: b :: s, ?_⟩
      simp only [body]
      rw [if_pos hlen]
    · cases h

/-! ## Encoded frames -/

/-- A whole frame is parsed as its payload, whatever comes after it. -/
theorem parse_encode (p s : List α) (h : p.length ≤ f.maxLength) :
    f.parse (f.encode p ++ s) = .frame p s := by
  have hn := f.length_announce p.length h
  have ht := f.trailer_length p
  simp only [encode, List.cons_append, parse_header, body, hn, List.append_assoc]
  rw [if_neg (by simp only [List.length_append]; omega), List.drop_left, List.take_left, ← ht,
    List.take_left, if_pos rfl, ← List.drop_drop, List.drop_left, List.drop_left]

/-- The beginning of a frame is a frame that has not arrived as a whole. -/
theorem parse_beginning {p c d : List α} (hp : p.length ≤ f.maxLength) (h : f.encode p = c ++ d)
    (hc : c ≠ []) (hd : d ≠ []) : f.parse c = .short c := by
  have hn := f.length_announce p.length hp
  have hlen := f.encode_length p
  have hd' : 0 < d.length := List.length_pos_iff.mpr hd
  rw [h, List.length_append] at hlen
  match c, hc with
  | [x], _ =>
    cases h
    rw [f.parse_header]
    rfl
  | [x, y], _ =>
    cases h
    rw [f.parse_header]
    rfl
  | x :: y :: z :: s, _ =>
    simp only [encode, List.cons_append, List.cons.injEq] at h
    obtain ⟨rfl, rfl, rfl, h⟩ := h
    simp only [List.length_cons] at hlen
    rw [f.parse_header]
    simp only [body, hn]
    rw [if_pos (by omega)]

/-! ## Taking frames off the front -/

/-- The payloads of the whole frames at the front, and the items where they end. -/
def drain (c : List α) : List (List α) × List α :=
  match h : f.parse c with
  | .frame p rest =>
    have := f.parse_frame_length h
    let (ps, rest) := drain rest
    (p :: ps, rest)
  | _ => ([], c)
termination_by c.length

theorem drain_frame {c p rest : List α} (h : f.parse c = .frame p rest) :
    f.drain c = (p :: (f.drain rest).1, (f.drain rest).2) := by
  rw [drain]
  split
  · rename_i p' rest' h'
    rw [h] at h'
    cases h'
    rfl
  · rename_i h'
    exact absurd h (h' p rest)

theorem drain_stop {c : List α} (h : ∀ p rest, f.parse c ≠ .frame p rest) :
    f.drain c = ([], c) := by
  rw [drain]
  split
  · rename_i p rest h'
    exact absurd h' (h p rest)
  · rfl

/-- An induction that follows `drain`. -/
theorem drain_induct {P : List α → Prop}
    (hframe : ∀ c p rest, f.parse c = .frame p rest → P rest → P c)
    (hstop : ∀ c, (∀ p rest, f.parse c ≠ .frame p rest) → P c) (c : List α) : P c := by
  induction hn : c.length using Nat.strongRecOn generalizing c with
  | _ n ih =>
    by_cases h : ∃ p rest, f.parse c = .frame p rest
    · obtain ⟨p, rest, hp⟩ := h
      exact hframe c p rest hp (ih _ (hn ▸ f.parse_frame_length hp) rest rfl)
    · exact hstop c fun p rest hp => h ⟨p, rest, hp⟩

/-- `drain` leaves the end of what it is given. -/
theorem drain_suffix (c : List α) : (f.drain c).2 <:+ c := by
  induction c using f.drain_induct with
  | hframe c q s h ih =>
    rw [f.drain_frame h]
    obtain ⟨junk, a, b, rfl, _, _⟩ := f.parse_frame h
    apply ih.trans
    exact ⟨junk ++ f.header :: a :: b :: (q ++ f.trailer q), by simp⟩
  | hstop c h => simp [f.drain_stop h]

theorem drain_rest (c p s : List α) : f.parse (f.drain c).2 ≠ .frame p s := by
  induction c using f.drain_induct with
  | hframe c q rest h ih =>
    rw [f.drain_frame h]
    exact ih
  | hstop c h =>
    rw [f.drain_stop h]
    exact h p s

/-- A part of a stream of frames: the frames that are whole come off the front, and what
is left is the beginning of the next one. -/
theorem drain_stream {ps : List (List α)} (hps : ∀ p ∈ ps, p.length ≤ f.maxLength) {c d : List α}
    (h : c ++ d = f.stream ps) :
    ∃ ps1 ps2 rest, ps = ps1 ++ ps2 ∧ f.drain c = (ps1, rest) ∧ c = f.stream ps1 ++ rest ∧
      rest ++ d = f.stream ps2 ∧ (rest = [] ∨ f.parse rest = .short rest) := by
  induction ps generalizing c with
  | nil =>
    have hc : c = [] := (List.append_eq_nil_iff.mp h).1
    subst hc
    exact ⟨[], [], [], rfl, f.drain_stop (by simp [parse, body]), rfl, h, .inl rfl⟩
  | cons p ps ih =>
    have hp := hps p (by simp)
    rw [stream, List.flatMap_cons] at h
    rcases List.append_eq_append_iff.mp h with ⟨d', hd1, hd2⟩ | ⟨c', hc1, hc2⟩
    · -- The part ends inside the first frame, or where it ends.
      by_cases hd : d' = []
      · subst hd
        rw [List.append_nil] at hd1
        obtain ⟨ps1, ps2, rest, h1, h2, h3, h4, h5⟩ := ih (c := [])
          (fun q hq => hps q (by simp [hq])) hd2
        refine ⟨p :: ps1, ps2, rest, by rw [h1]; rfl, ?_, ?_, h4, h5⟩
        · have hparse := f.parse_encode p [] hp
          rw [List.append_nil] at hparse
          rw [← hd1, f.drain_frame hparse, h2]
        · rw [← hd1, stream, List.flatMap_cons, List.append_assoc]
          rw [stream] at h3
          rw [← h3, List.append_nil]
      · refine ⟨[], p :: ps, c, rfl, ?_, rfl, by rw [h, stream, List.flatMap_cons], ?_⟩
        · apply f.drain_stop
          by_cases hc : c = []
          · subst hc
            simp [parse, body]
          · rw [f.parse_beginning hp hd1 hc hd]
            simp
        · by_cases hc : c = []
          · exact .inl hc
          · exact .inr (f.parse_beginning hp hd1 hc hd)
    · subst hc1
      obtain ⟨ps1, ps2, rest, h1, h2, h3, h4, h5⟩ := ih (c := c')
        (fun q hq => hps q (by simp [hq])) hc2.symm
      refine ⟨p :: ps1, ps2, rest, by rw [h1]; rfl, ?_, ?_, h4, h5⟩
      · rw [f.drain_frame (f.parse_encode p c' hp), h2]
      · rw [stream, List.flatMap_cons, List.append_assoc]
        rw [stream] at h3
        rw [← h3]

/-- A receiver that has the whole stream takes all of its frames. -/
theorem drain_whole_stream {ps : List (List α)} (hps : ∀ p ∈ ps, p.length ≤ f.maxLength) :
    f.drain (f.stream ps) = (ps, []) := by
  induction ps with
  | nil => exact f.drain_stop (by simp [stream, parse, body])
  | cons p ps ih =>
    obtain ⟨hp, hps⟩ := List.forall_mem_cons.mp hps
    rw [stream_cons, f.drain_frame (f.parse_encode p (f.stream ps) hp), ih hps]

/-! ## Stranded frames -/

/-- A whole frame stands right behind the frame with a wrong trailer where `drain` stops. -/
def Stranded (c : List α) : Prop :=
  ∃ rest p s, f.parse (f.drain c).2 = .damaged rest ∧ f.parse rest = .frame p s

/-- A few items are no whole frame. -/
theorem parse_few {c : List α} (h : c.length ≤ 2) (p rest : List α) : f.parse c ≠ .frame p rest := by
  intro hc
  obtain ⟨junk, a, b, rfl, _, _⟩ := f.parse_frame hc
  simp only [List.length_append, List.length_cons] at h
  omega

/-! ## A receiver -/

/-- What a receiver keeps of the items `c` when no whole frame is left at the front of `rest`. -/
def keep (c rest : List α) : List α :=
  match f.parse rest with
  | .short s => s
  | .damaged s => s
  | _ => if f.keepsLast ∨ rest ≠ [] then c.getLast?.toList else []

/-- The payloads that a receiver gives out when it has the items `c`, and what it keeps. -/
def receive (c : List α) : List (List α) × List α :=
  ((f.drain c).1, f.keep c (f.drain c).2)

/-- A receiver keeps a whole frame exactly when one was stranded. -/
theorem keep_frame_iff (c : List α) :
    (∃ p s, f.parse (f.keep c (f.drain c).2) = .frame p s) ↔ f.Stranded c := by
  unfold Stranded keep
  cases hparse : f.parse (f.drain c).2 with
  | short s =>
    have hs : f.parse s = .short s := by
      obtain ⟨junk, s', hc, hj, _⟩ := f.parse_short hparse
      rw [hc, f.parse_junk s hj] at hparse
      exact hparse
    simp [hs]
  | damaged s => simp
  | absent =>
    have hfew : (if f.keepsLast = true ∨ (f.drain c).2 ≠ [] then c.getLast?.toList
        else []).length ≤ 2 := by
      split
      · cases c.getLast? <;> simp
      · simp
    simpa using fun p s => f.parse_few hfew p s
  | frame q s =>
    -- `drain` does not stop at a whole frame.
    exact absurd hparse (f.drain_rest c q s)

/-- A receiver keeps no more than it has. -/
theorem keep_length (c rest : List α) (h : rest.length ≤ c.length) (hc : c ≠ []) :
    (f.keep c rest).length ≤ c.length := by
  have hpos : 0 < c.length := List.length_pos_iff.mpr hc
  unfold keep
  split
  · rename_i s hs
    obtain ⟨junk, s', rfl, _, _⟩ := f.parse_short hs
    simp only [List.length_append] at h
    omega
  · rename_i s hs
    obtain ⟨frame, rfl, _⟩ := f.parse_damaged hs
    simp only [List.length_append] at h
    omega
  · split
    · rcases c.getLast? with _ | x
      · simp
      · exact hpos
    · simp

end Format

end framing
