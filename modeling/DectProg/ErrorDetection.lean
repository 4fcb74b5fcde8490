-- What the CRC of the flash link finds out (Crc.c, flashloader.c). UpdateCrc
-- feeds the eight bits of a byte, the top one first, into a register of 16
-- places with the generator x^16 + x^12 + x^5 + 1.
import DectProg.BitErrors
import DectProg.Crc
import DectProg.ShiftRegister
import DectProg.Reachable

open bit_errors shift_register tape framing dect_prog.buffer dect_prog.package

namespace dect_prog.crc

/-! ## UpdateCrc as a shift register -/

/-- x^12 + x^5 + 1. -/
def generator : BitVec 16 := 0x1021#16

/-- The bits of a byte, the top one first. -/
def topFirst (x : UInt8) : List Bool := bits x.toBitVec

theorem topFirst_length (x : UInt8) : (topFirst x).length = 8 := bits_length _

/-- What `UpdateCrc` does after it added the byte. -/
def mix (crc : UInt16) : UInt16 :=
  let crc := crc ^^^ ((crc &&& 0xff).toUInt8 >>> 4).toUInt16
  let crc := crc ^^^ ((crc <<< 8) <<< 4)
  crc ^^^ (((crc &&& 0xff) <<< 4) <<< 1)

theorem UpdateCrc_eq (data : UInt8) (icrc : UInt16) :
    UpdateCrc data icrc =
      mix (((icrc >>> 8).toUInt8.toUInt16 ||| (icrc <<< 8)) ^^^ data.toUInt16) := rfl

theorem mix_byte (y : UInt8) : (mix y.toUInt16).toBitVec = feed generator 0#16 (bits y.toBitVec) := by
  revert y
  apply forall_byte
  decide +kernel

theorem and_xor (a b c : UInt16) : (a ^^^ b) &&& c = (a &&& c) ^^^ (b &&& c) := by
  apply UInt16.toBitVec_inj.mp
  ext i hi
  simp [Bool.and_xor_distrib_right]

/-- A word to which a linear part of itself is added. -/
theorem add_xor {f : UInt16 → UInt16} (hf : ∀ a b, f (a ^^^ b) = f a ^^^ f b) (a b : UInt16) :
    (a ^^^ b) ^^^ f (a ^^^ b) = (a ^^^ f a) ^^^ (b ^^^ f b) := by
  rw [hf, UInt16.xor_assoc, ← UInt16.xor_assoc b, UInt16.xor_comm b, UInt16.xor_assoc (f a),
    ← UInt16.xor_assoc a]

theorem mix_xor (a b : UInt16) : mix (a ^^^ b) = mix a ^^^ mix b := by
  have hlow := add_xor (f := fun x => ((x &&& 0xff).toUInt8 >>> 4).toUInt16) fun a b => by
    simp only [and_xor, UInt16.toUInt8_xor, UInt8.shiftRight_xor, UInt8.toUInt16_xor]
  have htop := add_xor (f := fun x => (x <<< 8) <<< 4) fun a b => by
    simp only [UInt16.shiftLeft_xor]
  have hmid := add_xor (f := fun x => ((x &&& 0xff) <<< 4) <<< 1) fun a b => by
    simp only [and_xor, UInt16.shiftLeft_xor]
  unfold mix
  dsimp only at hlow htop hmid ⊢
  rw [hlow, htop, hmid]

/-- The high byte alone stays as it is. -/
theorem mix_high (c : UInt16) : mix (c <<< 8) = c <<< 8 := by
  have hbyte : ∀ i (hi : i < 16), 8 ≤ i → (255#16)[i] = false := by decide
  have hlow : (c <<< 8) &&& 0xff = 0 := by
    apply UInt16.toBitVec_inj.mp
    ext i hi
    simpa using fun h _ => hbyte i hi h
  have hout : (c <<< 8) <<< 8 = 0 := by
    apply UInt16.toBitVec_inj.mp
    ext i hi
    simp
  unfold mix
  simp [hlow, hout]

theorem high_byte (c : UInt16) : (c >>> 8).toUInt8.toUInt16 = c >>> 8 := by
  have hc := c.toNat_lt
  have h8 : (8 : UInt16).toNat % 16 = 8 := rfl
  rw [← UInt16.toNat_inj, UInt8.toNat_toUInt16, UInt16.toNat_toUInt8, UInt16.toNat_shiftRight, h8,
    Nat.shiftRight_eq_div_pow]
  omega

/-- The two bytes of the register change places. -/
theorem swap_eq (c : UInt16) :
    (c >>> 8).toUInt8.toUInt16 ||| (c <<< 8) = (c <<< 8) ^^^ (c >>> 8).toUInt8.toUInt16 := by
  rw [high_byte]
  apply UInt16.toBitVec_inj.mp
  ext i hi
  by_cases h : i < 8
  · simp [h]
  · have hout : c.toBitVec.getLsbD (8 + i) = false := BitVec.getLsbD_of_ge _ _ (by omega)
    simp [h, hout]

theorem top_bits (c : UInt16) (i : Nat) (h : i < (bits (c >>> 8).toUInt8.toBitVec).length) :
    c.toBitVec.getMsbD i = (bits (c >>> 8).toUInt8.toBitVec)[i] := by
  rw [bits_getElem]
  rw [bits_length] at h
  have hplace : 8 + (7 - i) = 15 - i := by omega
  have h7 : 7 - i < 8 := by omega
  have h16 : i < 16 := by omega
  simp [BitVec.getMsbD, h, h7, h16, hplace]

/-- `UpdateCrc` feeds the bits of the byte into the register: the bits that are those of the high
byte push it out, and what they differ in goes through an empty register. -/
theorem UpdateCrc_feed (x : UInt8) (c : UInt16) :
    (UpdateCrc x c).toBitVec = feed generator c.toBitVec (bits x.toBitVec) := by
  generalize hhi : (c >>> 8).toUInt8 = hi
  have hsum : UpdateCrc x c = (c <<< 8) ^^^ mix (hi ^^^ x).toUInt16 := by
    rw [UpdateCrc_eq, swap_eq, hhi, UInt16.xor_assoc, ← UInt8.toUInt16_xor, mix_xor, mix_high]
  have hbits : bits x.toBitVec =
      List.zipWith xor (bits hi.toBitVec) (bits (hi ^^^ x).toBitVec) := by
    rw [← bits_xor, UInt8.toBitVec_xor, ← BitVec.xor_assoc, BitVec.xor_self, BitVec.zero_xor]
  have htop : feed generator c.toBitVec (bits hi.toBitVec) = c.toBitVec <<< 8 := by
    rw [feed_top, bits_length]
    rw [← hhi]
    exact top_bits c
  have hfeed := feed_xor generator (bits hi.toBitVec) (bits (hi ^^^ x).toBitVec) c.toBitVec 0#16
    (by simp)
  rw [BitVec.xor_zero, ← hbits, htop] at hfeed
  rw [hfeed, hsum, UInt16.toBitVec_xor, mix_byte]
  simp

theorem crc16_feed (data : List UInt8) :
    (crc16 data).toBitVec = feed generator 0#16 (message topFirst data) := by
  have hfrom : ∀ c : UInt16, (data.foldl (fun crc x => UpdateCrc x crc) c).toBitVec =
      feed generator c.toBitVec (message topFirst data) := by
    induction data with
    | nil =>
      intro c
      rfl
    | cons x data ih =>
      intro c
      rw [List.foldl_cons, ih, UpdateCrc_feed, message_cons, feed_append]
      rfl
  exact hfrom 0

/-! ## Flipped bits -/

/-- The flipped bits of a payload go into the checksum as their own remainder. -/
theorem feed_flips {a b : List UInt8} (h : a.length = b.length) :
    feed generator 0#16 (flips topFirst a b) = (crc16 a ^^^ crc16 b).toBitVec := by
  have hlen : (message topFirst a).length = (message topFirst b).length := by
    rw [message_length topFirst_length, message_length topFirst_length, h]
  have := feed_xor generator (message topFirst a) (message topFirst b) 0#16 0#16 hlen
  rw [BitVec.xor_zero] at this
  unfold flips
  rw [this, UInt16.toBitVec_xor, crc16_feed, crc16_feed]

theorem bits_word (lo hi : UInt8) :
    bits (word lo hi).toBitVec = bits hi.toBitVec ++ bits lo.toBitVec := by
  apply List.ext_getElem
  · simp
  · intro i h1 h2
    rw [bits_length] at h1
    rw [bits_getElem]
    by_cases hi8 : i < 8
    · rw [List.getElem_append_left (by simpa using hi8), bits_getElem]
      have hplace : 15 - i - 8 = 7 - i := by omega
      have hhigh : ¬ 15 - i < 8 := by omega
      have hlow : lo.toBitVec.getLsbD (15 - i) = false := BitVec.getLsbD_of_ge _ _ (by omega)
      have h15 : 15 - i < 16 := by omega
      simp [word, BitVec.getMsbD, h1, hi8, hplace, hhigh, hlow, h15]
    · rw [List.getElem_append_right (by simp; omega), bits_getElem]
      have hplace : 7 - (i - 8) = 15 - i := by omega
      have hlow : 15 - i < 8 := by omega
      have hin : i - 8 < 8 := by omega
      have h15 : 15 - i < 16 := by omega
      simp [word, BitVec.getMsbD, h1, hin, hplace, hlow, h15]

/-- The flips of the two checksum bytes, as those of the word. -/
theorem bits_word_xor (lo hi lo' hi' : UInt8) :
    bits (word lo hi ^^^ word lo' hi').toBitVec = flips topFirst [hi] [hi'] ++
      flips topFirst [lo] [lo'] := by
  rw [UInt16.toBitVec_xor, bits_xor, bits_word, bits_word, List.zipWith_append (by simp)]
  simp [flips, message, topFirst]

/-- An odd number of flipped bits, or some that lie within 16 bits of the first `n` bytes. -/
inductive Detectable (n : Nat) (e : List Bool) : Prop
  | odd (h : e.count true % 2 = 1)
  | burst (a c : Nat) (bs : List Bool)
      (h : e = List.replicate a false ++ bs ++ List.replicate c false) (hlen : bs.length ≤ 16)
      (hin : a + bs.length ≤ 8 * n) (hone : true ∈ bs)

theorem flips_word (lo hi lo' hi' : UInt8) :
    flips topFirst [lo, hi] [lo', hi'] =
      flips topFirst [lo] [lo'] ++ flips topFirst [hi] [hi'] := by
  show flips topFirst ([lo] ++ [hi]) ([lo'] ++ [hi']) = _
  exact flips_append topFirst_length [hi] [hi'] rfl

theorem parity_word (lo hi lo' hi' : UInt8) :
    parity (bits (word lo hi ^^^ word lo' hi').toBitVec) =
      parity (flips topFirst [lo, hi] [lo', hi']) := by
  rw [bits_word_xor, flips_word, parity_append, parity_append]
  exact Bool.xor_comm _ _

/-- A payload with detectable flips does not go with its checksum. -/
theorem detected {a a' : List UInt8} {lo hi lo' hi' : UInt8} (hlen : a.length = a'.length)
    (hgood : word lo hi = crc16 a)
    (h : Detectable a.length (flips topFirst (a ++ [lo, hi]) (a' ++ [lo', hi']))) :
    word lo' hi' ≠ crc16 a' := by
  intro hbad
  have hfeed := feed_flips hlen
  rw [← hgood, ← hbad] at hfeed
  rw [flips_append topFirst_length _ _ hlen] at h
  cases h with
  | odd h =>
    -- The flips of the payload and those of the checksum have the same parity.
    have hpar := parity_feed (g := generator) (by decide) (flips topFirst a a') 0#16
    rw [hfeed, parity_word, bits_zero, parity_eq (List.replicate 16 false)] at hpar
    have hall : parity (flips topFirst a a' ++ flips topFirst [lo, hi] [lo', hi']) = true := by
      rw [parity_eq, h]
      rfl
    rw [parity_append, hpar] at hall
    revert hall
    cases parity (flips topFirst a a') <;> decide
  | burst m n bs h hbs hin hone =>
    -- The flips all lie in the payload, and the checksum is the same.
    have hx : (List.replicate m false ++ bs).length ≤ (flips topFirst a a').length := by
      rw [flips_length topFirst_length hlen, List.length_append, List.length_replicate]
      exact hin
    obtain ⟨zs, hpay, hzs⟩ : ∃ zs, flips topFirst a a' = (List.replicate m false ++ bs) ++ zs ∧
        List.replicate n false = zs ++ flips topFirst [lo, hi] [lo', hi'] := by
      rcases List.append_eq_append_iff.mp h with ⟨zs, h1, h2⟩ | ⟨zs, h1, h2⟩
      · have hnil : zs = [] := by
          rw [h1, List.length_append] at hx
          exact List.eq_nil_of_length_eq_zero (by omega)
        subst hnil
        exact ⟨[], by rw [h1]; simp, by rw [h2]; rfl⟩
      · exact ⟨zs, h1, h2⟩
    have hfalse : ∀ {xs : List Bool}, (∀ x ∈ xs, x ∈ List.replicate n false) →
        xs = List.replicate xs.length false := by
      intro xs hxs
      exact List.eq_replicate_of_mem fun x hx => List.eq_of_mem_replicate (hxs x hx)
    have hcrc : word lo hi ^^^ word lo' hi' = 0 := by
      apply UInt16.toBitVec_inj.mp
      apply bits_inj
      have hmem : ∀ x ∈ bits (word lo hi ^^^ word lo' hi').toBitVec, x ∈ List.replicate n false := by
        intro x hx
        rw [hzs, flips_word]
        rw [bits_word_xor] at hx
        simp only [List.mem_append] at hx ⊢
        exact .inr hx.symm
      rw [hfalse hmem, bits_length]
      exact (bits_zero (w := 16)).symm
    have hzeros := hfalse fun x hx => by
      rw [hzs]
      exact List.mem_append_left _ hx
    rw [hcrc, hpay, hzeros] at hfeed
    exact burst_ne_zero (by decide) hbs hone m _ hfeed

end dect_prog.crc

/-! ## Corrupted frames -/

namespace dect_prog.flashloader

open dect_prog.crc

/-- A frame whose payload does not go with its checksum bytes is damaged. -/
theorem parse_corrupted {a : List UInt8} {lo hi : UInt8} (rest : List UInt8)
    (hlen : a.length ≤ format.maxLength) (hbad : word lo hi ≠ crc16 a) :
    format.parse (format.header :: (format.announce a.length).1 :: (format.announce a.length).2 ::
      (a ++ [lo, hi] ++ rest)) = .damaged rest := by
  have hn := format.length_announce a.length hlen
  have htail : format.trailerLength = 2 := rfl
  have htrailer : ¬ ([lo, hi] = format.trailer a) := by
    intro h
    apply hbad
    rw [word_eq_iff]
    simpa [format] using h
  rw [format.parse_header]
  simp only [Format.body, hn, htail, List.append_assoc]
  rw [if_neg (by simp), List.drop_left, List.take_left, if_neg]
  · rw [← List.drop_drop, List.drop_left]
    rfl
  · simpa using htrailer

/-- A corruption that leaves the header and the length as they are, and flips an odd number of bits,
or some that lie within 16 bits of the payload: `flashpacket_get` gives no packet. -/
theorem a_detectable_corruption_is_not_delivered (payload frame rest : List UInt8) (b : buffer_t)
    (l : Locals) (p : packet_t) (hlen : payload.length ≤ PACKET_SIZE)
    (hsize : frame.length = (make_tx_packet payload).length)
    (hhead : frame.take 3 = (make_tx_packet payload).take 3)
    (hflips : Detectable payload.length
      (flips topFirst ((make_tx_packet payload).drop 3) (frame.drop 3)))
    (hreach : Reachable flashpacket_get 5000 b) (hb : contents b = frame ++ rest) :
    ∃ b', flashpacket_get l p b = some (-1, p, b') := by
  have hmax : payload.length ≤ format.maxLength := Nat.le_trans hlen (by decide)
  rw [make_tx_packet_eq] at hsize hhead hflips
  rw [format.encode_length] at hsize
  have htail : format.trailerLength = 2 := rfl
  -- The frame is the three bytes, a payload of the same length and two checksum bytes.
  obtain ⟨a, lo, hi, hframe, ha⟩ : ∃ a lo hi, frame.drop 3 = a ++ [lo, hi] ∧
      a.length = payload.length := by
    have hdrop : (frame.drop 3).length = payload.length + 2 := by
      rw [List.length_drop]
      omega
    have hlast : ((frame.drop 3).drop payload.length).length = 2 := by
      rw [List.length_drop]
      omega
    obtain ⟨lo, hi, hlohi⟩ := List.length_eq_two.mp hlast
    refine ⟨(frame.drop 3).take payload.length, lo, hi, ?_, ?_⟩
    · rw [← hlohi, List.take_append_drop]
    · rw [List.length_take]
      omega
  have hwhole : frame = format.header :: (format.announce a.length).1 ::
      (format.announce a.length).2 :: (a ++ [lo, hi]) := by
    rw [← List.take_append_drop 3 frame, hhead, hframe, ha]
    rfl
  have hbad : word lo hi ≠ crc16 a := by
    rw [hframe] at hflips
    exact detected ha.symm ((word_eq_iff _ _ _).mpr ⟨rfl, rfl⟩) hflips
  have hparse : format.parse (frame ++ rest) = .damaged rest := by
    rw [hwhole]
    exact parse_corrupted rest (by rw [ha]; exact hmax) hbad
  obtain ⟨t, ht, hcap⟩ := reachable_holds hreach
  rw [← hb, ht.contents (by rw [hcap]; exact flash_capacity)] at hparse
  have hspec := flashpacket_get.spec l 5000 (by decide) (by decide) p b t ht hcap
  simp only [getTape, hparse] at hspec
  obtain ⟨b', hget, _⟩ := hspec
  exact ⟨b', hget⟩

/-- One bit of a payload of one byte is flipped, or sixteen that lie in three bytes. -/
theorem a_detectable_corruption_is_not_delivered_for_one_bit :
    (∃ b b', contents b = (make_tx_packet [7]).set 3 6 ∧
      flashpacket_get ((eventOf []).locals 0) blank b = some (-1, blank, b')) ∧
    ∃ b b', contents b = (make_tx_packet [7, 7, 7]).take 3 ++ [0x08, 0xF8, 0xF7] ++
        (make_tx_packet [7, 7, 7]).drop 6 ∧
      flashpacket_get ((eventOf []).locals 0) blank b = some (-1, blank, b') := by
  constructor
  · obtain ⟨b, hreach, hb⟩ := reachable_with (by decide) flash_capacity
      ((make_tx_packet [7]).set 3 6) (by decide)
    obtain ⟨b', hget⟩ := a_detectable_corruption_is_not_delivered [7]
      ((make_tx_packet [7]).set 3 6) [] b ((eventOf []).locals 0) blank (by decide) (by decide)
      (by decide) (.odd (by decide)) hreach (by rw [hb, List.append_nil])
    exact ⟨b, b', hb, hget⟩
  · obtain ⟨b, hreach, hb⟩ := reachable_with (by decide) flash_capacity
      ((make_tx_packet [7, 7, 7]).take 3 ++ [0x08, 0xF8, 0xF7] ++ (make_tx_packet [7, 7, 7]).drop 6)
      (by decide)
    have hburst : flips topFirst ((make_tx_packet [7, 7, 7]).drop 3)
        (((make_tx_packet [7, 7, 7]).take 3 ++ [0x08, 0xF8, 0xF7] ++
          (make_tx_packet [7, 7, 7]).drop 6).drop 3) =
        List.replicate 4 false ++ List.replicate 16 true ++ List.replicate 20 false := by decide
    obtain ⟨b', hget⟩ := a_detectable_corruption_is_not_delivered [7, 7, 7] _ [] b
      ((eventOf []).locals 0) blank (by decide) (by decide) (by decide)
      (.burst 4 20 _ hburst (by decide) (by decide) (by decide)) hreach
      (by rw [hb, List.append_nil])
    exact ⟨b, b', hb, hget⟩

end dect_prog.flashloader
