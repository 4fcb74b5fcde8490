-- The two functions that look at a whole packet at once (flashloader.c, busmail.c).
-- They take the checksum from the end of what they are given, and one of them has
-- `=!` in its header test, which stores a zero in the packet.
import DectProg.Loader
import DectProg.Receive
import DectProg.BusFrames

open framing dect_prog.package dect_prog.crc

namespace dect_prog.flashloader

/-- What is returned, and the array `in` afterwards. -/
def inspect_rx (e : Event) : Option (Int × List UInt8) := do
  -- Check header
  if (← load e.input 0) ≠ UART_PACKET_HEADER then some (-1, e.input)
  -- Check size
  else if e.incount < PACKET_OVER_HEAD then some (-1, e.input)
  else
    -- Do we have a full packet?
    let data_size := ofLe16 (← load e.input 1) (← load e.input 2)
    if u32 e.incount < u32 (data_size + PACKET_OVER_HEAD) then some (-1, e.input)
    else
      -- Read packet checksum
      let crc := word (← load e.input (e.incount - 2)) (← load e.input (e.incount - 1))
      -- Calculate checksum over data portion
      let crc_calc := crc16 (← slice e.input 3 data_size)
      if crc ≠ crc_calc then some (-1, e.input) else some (0, e.input)

end dect_prog.flashloader

namespace dect_prog.busmail

/-- What is returned, and the packet afterwards. -/
def packet_inspect (p : packet_t) : Option (Int × packet_t) := do
  -- Check header: the test is the value of an assignment, `!BUSMAIL_PACKET_HEADER`
  let assigned : UInt8 := if BUSMAIL_PACKET_HEADER = 0 then 1 else 0
  let p : packet_t := ⟨p.size, p.data.set 0 assigned, by rw [List.length_set, p.data_length]⟩
  if assigned ≠ 0 then some (-1, p)
  -- Check size
  else if p.size < BUSMAIL_PACKET_OVER_HEAD then some (-1, p)
  else
    -- Do we have a full packet?
    let data_size := ofBe16 (← load p.data 1) (← load p.data 2)
    if p.size < u32 (data_size + BUSMAIL_PACKET_OVER_HEAD) then some (-1, p)
    else
      -- Read packet checksum
      let crc ← load p.data (p.size - 1)
      -- Calculate checksum over data portion
      let crc_calc := checksum (← flashloader.slice p.data 3 data_size)
      if crc ≠ crc_calc then some (-1, p) else some (0, p)

end dect_prog.busmail

namespace dect_prog.package

/-! ## What the end of an input holds -/

variable {xs : List UInt8}

theorem load_lt {i : Nat} (h : i < xs.length) : load xs i = some xs[i] := by
  unfold load
  rw [if_pos (by omega), Int.toNat_natCast, List.getElem?_eq_getElem h]

theorem last_one (xs : List UInt8) {n : Nat} (h1 : 1 ≤ n) (hn : n ≤ xs.length) :
    (xs.take n).drop (n - 1) = [xs[n - 1]] := by
  have hcount : n - (n - 1) = 1 := by omega
  rw [List.drop_take, hcount, List.drop_eq_getElem_cons (by omega), List.take_succ_cons,
    List.take_zero]

theorem last_two (xs : List UInt8) {n : Nat} (h2 : 2 ≤ n) (hn : n ≤ xs.length) :
    (xs.take n).drop (n - 2) = [xs[n - 2], xs[n - 1]] := by
  have hcount : n - (n - 2) = 2 := by omega
  have hnext : n - 2 + 1 = n - 1 := by omega
  rw [List.drop_take, hcount, List.drop_eq_getElem_cons (by omega), List.take_succ_cons, hnext,
    List.drop_eq_getElem_cons (by omega), List.take_succ_cons, List.take_zero]

theorem slice_payload {x y z : UInt8} {s : List UInt8} {n k : Nat} (hn : n ≤ k)
    (hk : k ≤ s.length) :
    flashloader.slice (x :: y :: z :: s) 3 n = some ((s.take k).take n) := by
  have hmin : min n k = n := Nat.min_eq_left hn
  unfold flashloader.slice
  rw [if_pos (by simp only [List.length_cons]; omega), List.take_take, hmin]
  rfl

end dect_prog.package

namespace dect_prog.flashloader

/-- Any two bytes are the announcement of what they announce. -/
theorem announce_length (a b : UInt8) : format.announce (format.length a b) = (a, b) := by
  have ha := a.toNat_lt
  have hb := b.toNat_lt
  simp only [format, Prod.mk.injEq, ← UInt8.toNat_inj, UInt8.toNat_ofNat']
  omega

theorem length_le (a b : UInt8) : format.length a b ≤ format.maxLength := by
  have ha := a.toNat_lt
  have hb := b.toNat_lt
  simp only [format]
  omega

/-- The first three bytes of an array that is long enough, and what the count leaves of the rest. -/
theorem input_cons {e : Event} (h : 3 ≤ e.incount) : ∃ x y z s k, e.input = x :: y :: z :: s ∧
    e.incount = (k + 3 : Nat) ∧ k ≤ s.length ∧ e.bytes = x :: y :: z :: s.take k := by
  have hle := e.incount_le
  obtain ⟨k, hk⟩ := Int.eq_ofNat_of_zero_le (a := e.incount - 3) (by omega)
  have hcount : e.incount = (k + 3 : Nat) := by omega
  match hs : e.input with
  | [] => simp [hs] at hle; omega
  | [_] => simp [hs] at hle; omega
  | [_, _] => simp [hs] at hle; omega
  | x :: y :: z :: s =>
    rw [hs, hcount] at hle
    simp only [List.length_cons] at hle
    refine ⟨x, y, z, s, k, rfl, hcount, by omega, ?_⟩
    rw [Event.bytes, hcount, hs]
    rfl

theorem inspect_rx_drops {e : Event} {x : UInt8} (hx : load e.input 0 = some x)
    (h : x ≠ UART_PACKET_HEADER ∨ e.incount < PACKET_OVER_HEAD) :
    inspect_rx e = some (-1, e.input) := by
  unfold inspect_rx
  rw [hx, Option.bind_eq_bind, Option.bind_some]
  by_cases hheader : x = UART_PACKET_HEADER
  · rw [if_neg (not_not.mpr hheader), if_pos (h.resolve_left (not_not.mpr hheader))]
  · rw [if_pos hheader]

/-- The test of the size and the checksum, behind the header. -/
theorem inspect_rx_checks {e : Event} {y z : UInt8} {s : List UInt8} {k : Nat}
    (hs : e.input = UART_PACKET_HEADER :: y :: z :: s) (hk : e.incount = (k + 3 : Nat))
    (hle : k ≤ s.length) (h2 : 2 ≤ k) (hmax : e.incount ≤ INT_MAX) :
    inspect_rx e = if format.length y z + 2 ≤ k ∧ (s.take k).drop (k - 2) =
        format.trailer ((s.take k).take (format.length y z))
      then some (0, e.input) else some (-1, e.input) := by
  have hx : load e.input 0 = some UART_PACKET_HEADER := by rw [hs]; rfl
  have hy : load e.input 1 = some y := by rw [hs]; rfl
  have hz : load e.input 2 = some z := by rw [hs]; rfl
  have hannounced : ofLe16 y z = (format.length y z : Nat) := ofLe16_nat y z
  have hu : u32 e.incount = e.incount := u32_of_range (by omega) hmax
  have hsize : u32 ((format.length y z : Nat) + 5) = (format.length y z : Nat) + 5 := by
    have hlength := length_le y z
    have hlimit : format.maxLength = 65535 := rfl
    refine u32_of_range (by omega) ?_
    unfold INT_MAX
    omega
  unfold inspect_rx PACKET_OVER_HEAD
  simp only [hx, hy, hz, Option.bind_eq_bind, Option.bind_some, ne_eq, not_true_eq_false, if_false]
  rw [if_neg (by omega), hannounced, hu, hsize]
  by_cases hfull : format.length y z + 2 ≤ k
  · obtain ⟨j, rfl⟩ : ∃ j, k = j + 2 := ⟨k - 2, by omega⟩
    have hlo : load e.input (e.incount - 2) = some s[j] := by
      have hplace : e.incount - 2 = (j + 3 : Nat) := by omega
      rw [hplace, hs, load_lt (by simp only [List.length_cons]; omega)]
      rfl
    have hhi : load e.input (e.incount - 1) = some s[j + 1] := by
      have hplace : e.incount - 1 = (j + 1 + 3 : Nat) := by omega
      rw [hplace, hs, load_lt (by simp only [List.length_cons]; omega)]
      rfl
    have hpayload := slice_payload (x := UART_PACKET_HEADER) (y := y) (z := z) (s := s)
      (n := format.length y z) (k := j + 2) (by omega) hle
    rw [← hs] at hpayload
    -- The word of the last two bytes is the CRC when they are the trailer.
    have hcrc : word s[j] s[j + 1] = crc16 ((s.take (j + 2)).take (format.length y z)) ↔
        (s.take (j + 2)).drop (j + 2 - 2) =
          format.trailer ((s.take (j + 2)).take (format.length y z)) := by
      rw [last_two s (n := j + 2) (by omega) hle, word_eq_iff]
      simp [format]
    rw [if_neg (by omega), hlo, hhi, hpayload]
    simp only [Option.bind_some, hcrc, hfull, true_and, ite_not]
  · rw [if_pos (by omega), if_neg (fun h => hfull h.1)]

/-- The header test, the size tests and the checksum, on the bytes of the event. -/
theorem inspect_rx.spec (e : Event) (h0 : 0 < e.input.length) (hmax : e.incount ≤ INT_MAX) :
    (e.bytes.head? = some format.header ∧ format.EndsWithTrailer e.bytes) ∧
        inspect_rx e = some (0, e.input) ∨
      ¬ (e.bytes.head? = some format.header ∧ format.EndsWithTrailer e.bytes) ∧
        inspect_rx e = some (-1, e.input) := by
  have htail : format.trailerLength = 2 := rfl
  by_cases hfew : e.incount < 5
  · obtain ⟨x, t, ht⟩ := List.exists_cons_of_length_pos h0
    refine .inr ⟨fun h => ?_, inspect_rx_drops (x := x) (by rw [ht]; rfl) (.inr hfew)⟩
    have hlen := h.2.length_le
    rw [Event.bytes, List.length_take, htail] at hlen
    omega
  obtain ⟨x, y, z, s, k, hs, hk, hle, hbytes⟩ := input_cons (e := e) (by omega)
  by_cases hheader : x = UART_PACKET_HEADER
  · subst hheader
    have hends := format.endsWithTrailer_cons (h := UART_PACKET_HEADER) (a := y) (b := z)
      (s := s.take k)
    rw [List.length_take, Nat.min_eq_left hle, htail] at hends
    have hhead : (UART_PACKET_HEADER :: y :: z :: s.take k).head? = some format.header := rfl
    rw [inspect_rx_checks hs hk hle (by omega) hmax, hbytes, hends, and_iff_right hhead]
    split_ifs with hgood
    · exact .inl ⟨hgood, rfl⟩
    · exact .inr ⟨hgood, rfl⟩
  · refine .inr ⟨fun h => ?_, inspect_rx_drops (x := x) (by rw [hs]; rfl) (.inl hheader)⟩
    rw [hbytes] at h
    exact hheader (Option.some.inj h.1)

/-- 0 for the encoded packets and nothing else, and the array stays as it is. -/
def RxAgrees (e : Event) : Prop :=
  ∃ ret, inspect_rx e = some (ret, e.input) ∧ (ret = 0 ↔ ∃ payload, e.bytes = make_tx_packet payload)

theorem rx_agrees_iff (e : Event) (h0 : 0 < e.input.length) (hmax : e.incount ≤ INT_MAX) :
    RxAgrees e ↔ (format.Padded e.bytes ↔ format.Oversized e.bytes) := by
  rw [← format.check_iff announce_length length_le]
  rcases inspect_rx.spec e h0 hmax with ⟨hgood, hret⟩ | ⟨hbad, hret⟩
  · constructor
    · rintro ⟨ret, h, hiff⟩
      cases hret.symm.trans h
      exact iff_of_true hgood (hiff.mp rfl)
    · intro h
      exact ⟨0, hret, iff_of_true rfl (h.mp hgood)⟩
  · constructor
    · rintro ⟨ret, h, hiff⟩
      cases hret.symm.trans h
      exact iff_of_false hbad fun hp => absurd (hiff.mpr hp) (by decide)
    · intro h
      exact ⟨-1, hret, iff_of_false (by decide) fun hp => hbad (h.mpr hp)⟩

end dect_prog.flashloader

namespace dect_prog.busmail

/-- The packet after the assignment in the header test. -/
def zeroed (p : packet_t) : packet_t :=
  ⟨p.size, p.data.set 0 0, by rw [List.length_set, p.data_length]⟩

theorem data_cons (p : packet_t) : ∃ x y z s, p.data = x :: y :: z :: s ∧ s.length = 497 := by
  have hlen := p.data_length
  match h : p.data with
  | x :: y :: z :: s => exact ⟨x, y, z, s, rfl, by simpa [h, PACKET_SIZE] using hlen⟩
  | [] | [_] | [_, _] => simp [h, PACKET_SIZE] at hlen

/-- The size tests and the checksum, on a packet that begins with a zero by then. -/
theorem packet_inspect_eq {p : packet_t} {x y z : UInt8} {s : List UInt8}
    (hs : p.data = x :: y :: z :: s) : packet_inspect p =
      if (p.size : Int) < BUSMAIL_PACKET_OVER_HEAD then some (-1, zeroed p)
      else if (p.size : Int) < u32 (ofBe16 y z + BUSMAIL_PACKET_OVER_HEAD) then some (-1, zeroed p)
      else (load (0 :: y :: z :: s) (p.size - 1)).bind fun crc =>
        (flashloader.slice (0 :: y :: z :: s) 3 (ofBe16 y z)).bind fun data =>
          if crc ≠ checksum data then some (-1, zeroed p) else some (0, zeroed p) := by
  have hset : p.data.set 0 0 = 0 :: y :: z :: s := by rw [hs]; rfl
  have hy : load (0 :: y :: z :: s) 1 = some y := rfl
  have hz : load (0 :: y :: z :: s) 2 = some z := rfl
  have hassigned : (if BUSMAIL_PACKET_HEADER = 0 then 1 else 0 : UInt8) = 0 := by decide
  simp only [packet_inspect, zeroed, hassigned, hset, hy, hz, ne_eq, not_true_eq_false, if_false,
    Option.bind_eq_bind, Option.bind_some]

theorem packet_inspect_checks {p : packet_t} {x y z : UInt8} {s : List UInt8} {k : Nat}
    (hs : p.data = x :: y :: z :: s) (hk : p.size = k + 3) (hle : k ≤ s.length) (h1 : 1 ≤ k) :
    packet_inspect p = if format.length y z + 1 ≤ k ∧ (s.take k).drop (k - 1) =
        format.trailer ((s.take k).take (format.length y z))
      then some (0, zeroed p) else some (-1, zeroed p) := by
  have hannounced : ofBe16 y z = (format.length y z : Nat) := ofBe16_nat y z
  have hsize : u32 ((format.length y z : Nat) + 4) = (format.length y z : Nat) + 4 := by
    have := y.toNat_lt
    have := z.toNat_lt
    refine u32_of_range (by omega) ?_
    unfold INT_MAX
    simp only [format]
    omega
  rw [packet_inspect_eq hs]
  unfold BUSMAIL_PACKET_OVER_HEAD
  rw [if_neg (by omega), hannounced, hsize]
  by_cases hfull : format.length y z + 1 ≤ k
  · obtain ⟨j, rfl⟩ : ∃ j, k = j + 1 := ⟨k - 1, by omega⟩
    have hlast : load (0 :: y :: z :: s) (p.size - 1) = some s[j] := by
      have hplace : (p.size : Int) - 1 = (j + 3 : Nat) := by omega
      rw [hplace, load_lt (by simp only [List.length_cons]; omega)]
      rfl
    have hslice := slice_payload (x := 0) (y := y) (z := z) (s := s) (n := format.length y z)
      (k := j + 1) (by omega) hle
    have hsum : s[j] = checksum ((s.take (j + 1)).take (format.length y z)) ↔
        (s.take (j + 1)).drop (j + 1 - 1) =
          format.trailer ((s.take (j + 1)).take (format.length y z)) := by
      rw [last_one s (n := j + 1) (by omega) hle]
      simp [format]
    rw [if_neg (by omega), hlast, hslice]
    simp only [Option.bind_some, hsum, hfull, true_and, ne_eq, ite_not]
  · rw [if_pos (by omega), if_neg (fun h => hfull h.1)]

/-- The size tests and the checksum, on the first `size` bytes. The header is not looked at. -/
theorem packet_inspect.spec (p : packet_t) (hp : p.size ≤ PACKET_SIZE) :
    format.EndsWithTrailer p.payload ∧ packet_inspect p = some (0, zeroed p) ∨
      ¬ format.EndsWithTrailer p.payload ∧ packet_inspect p = some (-1, zeroed p) := by
  have htail : format.trailerLength = 1 := rfl
  have hcells : PACKET_SIZE = 500 := rfl
  obtain ⟨x, y, z, s, hs, hlen⟩ := data_cons p
  by_cases hfew : (p.size : Int) < BUSMAIL_PACKET_OVER_HEAD
  · refine .inr ⟨fun h => ?_, by rw [packet_inspect_eq hs, if_pos hfew]⟩
    have hlen := h.length_le
    rw [packet_t.payload, List.length_take, htail] at hlen
    unfold BUSMAIL_PACKET_OVER_HEAD at hfew
    omega
  · unfold BUSMAIL_PACKET_OVER_HEAD at hfew
    obtain ⟨k, hk⟩ : ∃ k, p.size = k + 3 := ⟨p.size - 3, by omega⟩
    have hpayload : p.payload = x :: y :: z :: s.take k := by
      rw [packet_t.payload, hk, hs]
      rfl
    have hends := format.endsWithTrailer_cons (h := x) (a := y) (b := z) (s := s.take k)
    rw [List.length_take, Nat.min_eq_left (by omega), htail] at hends
    rw [packet_inspect_checks hs hk (by omega) (by omega), hpayload, hends]
    split_ifs with hgood
    · exact .inl ⟨hgood, rfl⟩
    · exact .inr ⟨hgood, rfl⟩

/-- 0 for the encoded packets and nothing else, and the array stays as it is. -/
def InspectAgrees (p : packet_t) : Prop :=
  ∃ ret, packet_inspect p = some (ret, p) ∧ (ret = 0 ↔ ∃ payload, p.payload = make_tx_packet payload)

theorem zeroed_eq_iff (p : packet_t) : zeroed p = p ↔ p.byte 0 = 0 := by
  obtain ⟨size, data, hdata⟩ := p
  match data, hdata with
  | x :: s, hdata => simp [zeroed, packet_t.byte, eq_comm]

/-- A packet that begins with zero is no encoded one. -/
theorem not_encoded {p : packet_t} (h : p.byte 0 = 0) :
    ¬ ∃ payload, p.payload = make_tx_packet payload := by
  rintro ⟨payload, hp⟩
  have hhead : p.payload.head? = some BUSMAIL_PACKET_HEADER := by
    rw [hp]
    rfl
  obtain ⟨size, data, hdata⟩ := p
  match data, hdata, size with
  | x :: s, _, 0 => cases hhead
  | x :: s, _, n + 1 =>
    have hx : x = BUSMAIL_PACKET_HEADER := Option.some.inj hhead
    have hzero : x = 0 := h
    rw [hzero] at hx
    exact absurd hx (by decide)

theorem inspect_agrees_iff (p : packet_t) (hp : p.size ≤ PACKET_SIZE) :
    InspectAgrees p ↔ p.byte 0 = 0 ∧ ¬ format.EndsWithTrailer p.payload := by
  rcases packet_inspect.spec p hp with ⟨hgood, hret⟩ | ⟨hbad, hret⟩
  · refine iff_of_false ?_ fun h => h.2 hgood
    rintro ⟨ret, h, hiff⟩
    obtain ⟨rfl, hsame⟩ : 0 = ret ∧ zeroed p = p := by
      simpa using hret.symm.trans h
    exact not_encoded ((zeroed_eq_iff p).mp hsame) (hiff.mp rfl)
  · constructor
    · rintro ⟨ret, h, -⟩
      obtain ⟨-, hsame⟩ : -1 = ret ∧ zeroed p = p := by
        simpa using hret.symm.trans h
      exact ⟨(zeroed_eq_iff p).mp hsame, hbad⟩
    · rintro ⟨hzero, -⟩
      rw [(zeroed_eq_iff p).mpr hzero] at hret
      exact ⟨-1, hret, iff_of_false (by decide) (not_encoded hzero)⟩

end dect_prog.busmail

namespace dect_prog

/-- For arrays of any length and every count in them: `inspect_rx` agrees with the encoder of its
link unless bytes follow the announced payload and the last two of them are its CRC, or the packet
carries more than its size can announce. Where both is so, it agrees again. `packet_inspect` agrees
with the encoder of its link only where it drops a packet that begins with a zero. -/
theorem the_validators_agree_with_the_encoders_iff (e : Event) (p : packet_t)
    (h0 : 0 < e.input.length) (hmax : e.incount ≤ INT_MAX) (hp : p.size ≤ PACKET_SIZE) :
    (flashloader.RxAgrees e ↔
      (flashloader.format.Padded e.bytes ↔ flashloader.format.Oversized e.bytes)) ∧
    (busmail.InspectAgrees p ↔ p.byte 0 = 0 ∧ ¬ busmail.format.EndsWithTrailer p.payload) :=
  ⟨flashloader.rx_agrees_iff e h0 hmax, busmail.inspect_agrees_iff p hp⟩

/-- A frame with one payload byte, and a packet that begins with a zero. -/
theorem the_validators_agree_with_the_encoders_iff_for_one_byte :
    flashloader.RxAgrees (eventOf (flashloader.make_tx_packet [7])) ∧
    busmail.InspectAgrees blank := by
  obtain ⟨hrx, hinspect⟩ := the_validators_agree_with_the_encoders_iff
    (eventOf (flashloader.make_tx_packet [7])) blank
    (by decide) (by decide) (by decide)
  rw [eventOf_bytes] at hrx
  refine ⟨hrx.mpr (iff_of_false ?_ ?_), hinspect.mpr ⟨by decide, ?_⟩⟩
  · exact (flashloader.format.encode_exact (p := [7]) (by decide)).2
  · intro h
    have hlen := h.length_lt
    revert hlen
    decide
  · intro h
    have hlen := h.length_le
    revert hlen
    decide

/-- An empty flash frame with one zero behind it is accepted. An empty busmail frame is accepted
and spoilt. -/
theorem the_validators_do_not_agree :
    flashloader.inspect_rx (eventOf [0x46, 0, 0, 0, 0, 0]) =
      some (0, (eventOf [0x46, 0, 0, 0, 0, 0]).input) ∧
    ¬ flashloader.RxAgrees (eventOf [0x46, 0, 0, 0, 0, 0]) ∧
    (∃ q, busmail.packet_inspect (blank.carry (busmail.make_tx_packet []) (by decide)) =
      some (0, q) ∧ q.payload = [0, 0, 0, 0]) ∧
    ¬ busmail.InspectAgrees (blank.carry (busmail.make_tx_packet []) (by decide)) := by
  have hpadded : flashloader.format.Padded [0x46, 0, 0, 0, 0, 0] :=
    ⟨0, 0, [0, 0, 0], rfl, by decide, by decide⟩
  have hbytes : (eventOf [0x46, 0, 0, 0, 0, 0]).bytes = [0x46, 0, 0, 0, 0, 0] :=
    eventOf_bytes _
  refine ⟨?_, ?_, ?_, ?_⟩
  · rcases flashloader.inspect_rx.spec (eventOf [0x46, 0, 0, 0, 0, 0]) (by decide) (by decide)
      with ⟨-, hret⟩ | ⟨hbad, -⟩
    · exact hret
    · refine absurd ⟨?_, ?_⟩ hbad <;> rw [hbytes]
      · rfl
      · exact hpadded.accepted.2
  · rw [flashloader.rx_agrees_iff _ (by decide) (by decide), hbytes]
    intro h
    have hlen := (h.mp hpadded).length_lt
    revert hlen
    decide
  · rcases busmail.packet_inspect.spec (blank.carry (busmail.make_tx_packet []) (by decide))
      (by decide) with ⟨-, hret⟩ | ⟨hbad, -⟩
    · exact ⟨_, hret, by decide⟩
    · refine absurd ?_ hbad
      rw [carry_payload]
      exact ⟨0x10, 0, 0, [0], rfl, by decide, by decide⟩
  · rw [busmail.inspect_agrees_iff _ (by decide)]
    rintro ⟨hzero, -⟩
    revert hzero
    decide

end dect_prog
