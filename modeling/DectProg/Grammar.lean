-- The two packet functions take exactly the frames of their links: what stands at
-- the first header byte of the buffer decides what they return, and which bytes
-- they leave.
import DectProg.RingInvariant
import DectProg.Reachable

open tape framing dect_prog.buffer

namespace dect_prog.package

variable {f : Format UInt8} {cap : Nat}
  {get : packet_t → buffer_t → Option (Int × packet_t × buffer_t)} {b : buffer_t}
  {t : Tape UInt8}

/-! ## What is left -/

/-- A read up to a suffix leaves the suffix. -/
theorem left_suffix {b' : buffer_t} {t : Tape UInt8} {front rest : List UInt8}
    (ht : t.ahead = front ++ rest) (hsize : (t.size : Int) ≤ INT_MAX)
    (hb' : Holds b' (t.read (t.ahead.length - rest.length))) : contents b' = rest := by
  rw [hb'.contents (by rw [Tape.size_read]; exact hsize), Tape.read_ahead, ht, List.length_append,
    Nat.add_sub_cancel, List.drop_left]

theorem Gets.frame (hget : Gets f cap get) (hb : Holds b t) (ht : t.size = cap)
    (hcap : (cap : Int) ≤ INT_MAX) {q rest : List UInt8} (hparse : f.parse t.ahead = .frame q rest)
    (hq : q.length ≤ PACKET_SIZE) (p : packet_t) :
    ∃ b', get p b = some (0, p.carry q hq, b') ∧ contents b' = rest := by
  have hspec := hget p b t hb ht
  simp only [getTape, hparse, dif_pos hq] at hspec
  obtain ⟨b', hsome, hb'⟩ := hspec
  obtain ⟨junk, x, y, hahead, -, -⟩ := f.parse_frame hparse
  have hfront : t.ahead = (junk ++ f.header :: x :: y :: (q ++ f.trailer q)) ++ rest := by
    rw [hahead]
    simp
  exact ⟨b', hsome, left_suffix hfront (by omega) hb'⟩

theorem Gets.damaged (hget : Gets f cap get) (hb : Holds b t) (ht : t.size = cap)
    (hcap : (cap : Int) ≤ INT_MAX) {rest : List UInt8} (hparse : f.parse t.ahead = .damaged rest)
    (p : packet_t) : ∃ b', get p b = some (-1, p, b') ∧ contents b' = rest := by
  have hspec := hget p b t hb ht
  simp only [getTape, hparse] at hspec
  obtain ⟨b', hsome, hb'⟩ := hspec
  obtain ⟨frame, hahead, -⟩ := f.parse_damaged hparse
  exact ⟨b', hsome, left_suffix hahead (by omega) hb'⟩

theorem Gets.short (hget : Gets f cap get) (hb : Holds b t) (ht : t.size = cap)
    (hcap : (cap : Int) ≤ INT_MAX) {s : List UInt8} (hparse : f.parse t.ahead = .short s)
    (p : packet_t) : ∃ b', get p b = some (-1, p, b') ∧ contents b' = s := by
  have hspec := hget p b t hb ht
  simp only [getTape, hparse] at hspec
  obtain ⟨b', hsome, hb'⟩ := hspec
  obtain ⟨junk, s', hahead, -, -⟩ := f.parse_short hparse
  exact ⟨b', hsome, left_suffix hahead (by omega) hb'⟩

/-- Without a header the last byte is left. -/
theorem Gets.absent (hget : Gets f cap get) (hb : Holds b t) (ht : t.size = cap)
    (hcap : (cap : Int) ≤ INT_MAX) (hparse : f.parse t.ahead = .absent) {init : List UInt8}
    {x : UInt8} (hlast : t.ahead = init ++ [x]) (p : packet_t) :
    ∃ b', get p b = some (-1, p, b') ∧ contents b' = [x] := by
  have hspec := hget p b t hb ht
  have hback : f.keepsLast = true ∨ t.ahead ≠ [] := .inr (by simp [hlast])
  simp only [getTape, hparse, if_pos hback] at hspec
  obtain ⟨b', hsome, hb'⟩ := hspec
  refine ⟨b', hsome, ?_⟩
  rw [hb'.contents (by rw [Tape.size_rewind, Tape.size_read]; omega), t.rewind_read_all hlast]

/-! ## The grammar -/

/-- A frame that has arrived as a whole: a header, two bytes that announce the size, the payload,
and a trailer that may be right or wrong. -/
def Complete (f : Format UInt8) (payload trailer rest s : List UInt8) : Prop :=
  ∃ x y, s = f.header :: x :: y :: (payload ++ trailer ++ rest) ∧
    f.length x y = payload.length ∧ trailer.length = f.trailerLength

/-- The packet function takes exactly the frames of the format, at the first header byte. -/
structure Accepts (f : Format UInt8)
    (get : packet_t → buffer_t → Option (Int × packet_t × buffer_t)) (b : buffer_t) : Prop where
  frame : ∀ payload rest p, payload.length ≤ PACKET_SIZE →
    Complete f payload (f.trailer payload) rest ((contents b).dropWhile (· ≠ f.header)) →
    ∃ p' b', get p b = some (0, p', b') ∧ p'.size = payload.length ∧ p'.payload = payload ∧
      contents b' = rest
  damaged : ∀ payload trailer rest p, trailer ≠ f.trailer payload →
    Complete f payload trailer rest ((contents b).dropWhile (· ≠ f.header)) →
    ∃ b', get p b = some (-1, p, b') ∧ contents b' = rest
  incomplete : ∀ p, (contents b).dropWhile (· ≠ f.header) ≠ [] →
    (¬ ∃ payload trailer rest,
      Complete f payload trailer rest ((contents b).dropWhile (· ≠ f.header))) →
    ∃ b', get p b = some (-1, p, b') ∧ contents b' = (contents b).dropWhile (· ≠ f.header)
  absent : ∀ p, f.header ∉ contents b →
    ∃ b', get p b = some (-1, p, b') ∧ f.header ∉ contents b'

theorem body_complete {payload trailer rest s : List UInt8}
    (h : Complete f payload trailer rest s) :
    f.body s = if trailer = f.trailer payload then .frame payload rest else .damaged rest := by
  obtain ⟨x, y, rfl, hlength, htrailer⟩ := h
  have hshort : ¬ (payload ++ trailer ++ rest).length < f.length x y + f.trailerLength := by
    simp only [List.length_append]
    omega
  have hpayload : (payload ++ trailer ++ rest).take payload.length = payload := by
    rw [List.append_assoc, List.take_left]
  have hrest : (payload ++ trailer ++ rest).drop payload.length = trailer ++ rest := by
    rw [List.append_assoc, List.drop_left]
  have hend : (payload ++ trailer ++ rest).drop (payload.length + f.trailerLength) = rest := by
    rw [← htrailer, ← List.length_append, List.drop_left]
  simp only [Format.body]
  rw [if_neg hshort, hlength, hend, hpayload, hrest, ← htrailer, List.take_left]

/-- What is not a complete frame waits for more. -/
theorem body_incomplete {s : List UInt8}
    (h : ¬ ∃ payload trailer rest, Complete f payload trailer rest (f.header :: s)) :
    f.body (f.header :: s) = .short (f.header :: s) := by
  match s, h with
  | [], _ => rfl
  | [_], _ => rfl
  | x :: y :: s, h =>
    have hshort : s.length < f.length x y + f.trailerLength := by
      by_contra hlong
      refine h ⟨s.take (f.length x y), (s.drop (f.length x y)).take f.trailerLength,
        s.drop (f.length x y + f.trailerLength), x, y, ?_, ?_, ?_⟩
      · rw [← List.drop_drop, List.append_assoc, List.take_append_drop, List.take_append_drop]
      · rw [List.length_take]
        omega
      · rw [List.length_take, List.length_drop]
        omega
    simp only [Format.body]
    rw [if_pos hshort]

theorem first_header (f : Format UInt8) (c : List UInt8) :
    c.dropWhile (· ≠ f.header) = [] ∨ ∃ s, c.dropWhile (· ≠ f.header) = f.header :: s := by
  induction c with
  | nil => exact .inl rfl
  | cons x c ih =>
    by_cases hx : x = f.header
    · exact .inr ⟨c, by simp [hx]⟩
    · simpa [hx] using ih

theorem Gets.accepts (hget : Gets f cap get) (hb : Holds b t) (ht : t.size = cap)
    (hcap : (cap : Int) ≤ INT_MAX) (hne : contents b ≠ []) : Accepts f get b := by
  have hcontents : contents b = t.ahead := hb.contents (by omega)
  have hparse : f.parse t.ahead = f.body ((contents b).dropWhile (· ≠ f.header)) := by
    rw [hcontents]
    rfl
  constructor
  · intro payload rest p hlen hcomplete
    rw [body_complete hcomplete, if_pos rfl] at hparse
    obtain ⟨b', hsome, hleft⟩ := hget.frame hb ht hcap hparse hlen p
    exact ⟨_, b', hsome, carry_size .., carry_payload .., hleft⟩
  · intro payload trailer rest p hwrong hcomplete
    rw [body_complete hcomplete, if_neg hwrong] at hparse
    exact hget.damaged hb ht hcap hparse p
  · intro p hs hincomplete
    obtain ⟨s, hheader⟩ := (first_header f (contents b)).resolve_left hs
    rw [hheader] at hincomplete hparse ⊢
    rw [body_incomplete hincomplete] at hparse
    exact hget.short hb ht hcap hparse p
  · intro p hno
    obtain ⟨init, x, hlast⟩ := (List.eq_nil_or_concat' (contents b)).resolve_left hne
    rw [hlast] at hno
    obtain ⟨b', hsome, hleft⟩ := hget.absent hb ht hcap
      (f.parse_absent (by rw [← hcontents, hlast]; exact hno)) (by rw [← hcontents, hlast]) p
    refine ⟨b', hsome, ?_⟩
    rw [hleft]
    exact fun hx => hno (by rw [List.mem_append]; exact .inr hx)

end dect_prog.package

namespace dect_prog

open dect_prog.package

/-- Any ring buffer of up to 5000 bytes that holds something: both packet functions take exactly the
frames of their links off it, and leave exactly what is behind them. -/
theorem the_packet_functions_accept_exactly_the_frames (b : buffer_t) (l : Locals) (hring : Ring b)
    (hcap : b.buf_size ≤ 5000) (hne : contents b ≠ []) :
    Accepts flashloader.format (flashloader.flashpacket_get l) b ∧
    (l.start = 0 → Accepts busmail.format (busmail.busmail_get l) b) := by
  obtain ⟨t, hb, hsize, hmax⟩ := hring.holds
  have hpos : 0 < t.size := by
    rw [hb.contents hmax, ← List.length_pos_iff] at hne
    unfold Tape.size
    omega
  constructor
  · exact (flashloader.flashpacket_get.spec l t.size hpos (by omega)).accepts hb rfl hmax hne
  · intro hstart
    exact (busmail.busmail_get.spec l hstart t.size hpos (by omega)).accepts hb rfl hmax hne

/-- On each link a byte that is no header, a frame with one payload byte, and one byte more. -/
theorem the_packet_functions_accept_exactly_the_frames_for_one_byte :
    (∃ b, contents b = 9 :: flashloader.make_tx_packet [7] ++ [5] ∧
      ∀ l p, ∃ p' b', flashloader.flashpacket_get l p b = some (0, p', b') ∧ p'.payload = [7] ∧
        contents b' = [5]) ∧
    ∃ b, contents b = 9 :: busmail.make_tx_packet [7] ++ [5] ∧
      ∀ l p, l.start = 0 → ∃ p' b', busmail.busmail_get l p b = some (0, p', b') ∧
        p'.payload = [7] ∧ contents b' = [5] := by
  constructor
  · obtain ⟨b, hreach, hb⟩ := reachable_with (by decide) flashloader.flash_capacity
      (9 :: flashloader.make_tx_packet [7] ++ [5]) (by decide)
    obtain ⟨t, hholds, ht⟩ := flashloader.reachable_holds hreach
    have hmax : (t.size : Int) ≤ INT_MAX := by rw [ht]; decide
    refine ⟨b, hb, fun l p => ?_⟩
    obtain ⟨p', b', hget, -, hpayload, hleft⟩ :=
      (the_packet_functions_accept_exactly_the_frames b l (hholds.ring hmax)
        (by rw [hholds.buf_size, ht]; decide) (by rw [hb]; decide)).1.frame [7] [5] p (by decide)
        ⟨1, 0, by rw [hb]; decide, by decide, by decide⟩
    exact ⟨p', b', hget, hpayload, hleft⟩
  · obtain ⟨b, hreach, hb⟩ := reachable_with (by decide : 0 < 500) (by decide)
      (9 :: busmail.make_tx_packet [7] ++ [5]) (by decide)
    obtain ⟨t, hholds, ht⟩ := busmail.reachable_holds hreach
    have hmax : (t.size : Int) ≤ INT_MAX := by rw [ht]; decide
    refine ⟨b, hb, fun l p hstart => ?_⟩
    obtain ⟨p', b', hget, -, hpayload, hleft⟩ :=
      ((the_packet_functions_accept_exactly_the_frames b l (hholds.ring hmax)
        (by rw [hholds.buf_size, ht]; decide) (by rw [hb]; decide)).2 hstart).frame [7] [5] p
        (by decide) ⟨0, 1, by rw [hb]; decide, by decide, by decide⟩
    exact ⟨p', b', hget, hpayload, hleft⟩

end dect_prog
