-- The buffers that a receiver comes to: a new one, and what writes and calls of
-- the packet function make of it. A packet function only moves in what the
-- buffer holds, so nothing behind its place is lost, and before its final copy
-- the size that was announced can be compared with the room in the packet.
import DectProg.FlashReceive
import DectProg.BusFrames

open tape framing dect_prog.buffer

namespace dect_prog.package

/-- The buffers that a receiver with `cap` bytes of room comes to, whatever is written into them
and whatever the uninitialised locals of the packet function hold. -/
inductive Reachable (get : Locals → packet_t → buffer_t → Option (Int × packet_t × buffer_t))
    (cap : Nat) : buffer_t → Prop
  | new {b : buffer_t} : buffer_new cap = some b → Reachable get cap b
  | write {b b' : buffer_t} {input : List UInt8} {k : Nat} {n : Int} :
      Reachable get cap b → k ≤ input.length → buffer_write b input k = some (b', n) →
      Reachable get cap b'
  | get {b b' : buffer_t} {l : Locals} {p p' : packet_t} {ret : Int} :
      Reachable get cap b → get l p b = some (ret, p', b') → Reachable get cap b'

/-! ## Packet functions move on the tape -/

/-- When the packet function returns, its buffer stands for a tape that only moved. -/
def Keeps (cap : Nat) (get : packet_t → buffer_t → Option (Int × packet_t × buffer_t)) : Prop :=
  ∀ (p p' : packet_t) (b b' : buffer_t) (t : Tape UInt8) (ret : Int), Holds b t → t.size = cap →
    get p b = some (ret, p', b') → ∃ t', Holds b' t' ∧ Moves t t'

theorem getTape_moves {f : Format UInt8} {p p' : packet_t} {t t' : Tape UInt8} {ret : Int}
    (h : getTape f p t = some (ret, p', t')) : Moves t t' := by
  unfold getTape at h
  split at h
  · split at h
    · cases h
      apply Moves.read
    · cases h
  · cases h
    apply Moves.read
  · cases h
    apply Moves.read
  · cases h
    split
    · apply Moves.read_all_rewind
    · apply Moves.refl

theorem Gets.keeps {f : Format UInt8} {cap : Nat}
    {get : packet_t → buffer_t → Option (Int × packet_t × buffer_t)} (h : Gets f cap get) :
    Keeps cap get := by
  intro p p' b b' t ret hb ht hget
  have hspec := h p b t hb ht
  cases htape : getTape f p t with
  | none =>
    rw [htape] at hspec
    cases hspec.symm.trans hget
  | some r =>
    obtain ⟨ret', p'', t'⟩ := r
    rw [htape] at hspec
    obtain ⟨b'', hget', hb''⟩ := hspec
    cases hget'.symm.trans hget
    exact ⟨t', hb'', getTape_moves htape⟩

variable {get : Locals → packet_t → buffer_t → Option (Int × packet_t × buffer_t)} {cap : Nat}

/-- A reachable buffer is a ring buffer with `cap` bytes of room. -/
theorem Reachable.holds {b : buffer_t} (h0 : 0 < cap) (hcap : (cap : Int) ≤ INT_MAX)
    (hkeeps : ∀ l, Keeps cap (get l)) (h : Reachable get cap b) : ∃ t, Holds b t ∧ t.size = cap := by
  induction h with
  | @new b hnew =>
    obtain ⟨b', hnew', hb'⟩ := buffer_new.spec cap h0 hcap
    cases hnew'.symm.trans hnew
    exact ⟨_, hb', Tape.size_new cap 0⟩
  | @write b b' input k n _ hk hw ih =>
    obtain ⟨t, hb, ht⟩ := ih
    obtain ⟨b'', hw', hb''⟩ := buffer_write.spec hb (by omega) input k hk
    cases hw'.symm.trans hw
    exact ⟨_, hb'', by rw [Tape.size_write, ht]⟩
  | @get b b' l p p' ret _ hget ih =>
    obtain ⟨t, hb, ht⟩ := ih
    obtain ⟨t', hb', hmoves⟩ := hkeeps l p p' b b' t ret hb ht hget
    exact ⟨t', hb', by rw [hmoves.size, ht]⟩

/-- Whatever fits in the buffer can be in it. -/
theorem reachable_with (h0 : 0 < cap) (hcap : (cap : Int) ≤ INT_MAX) (xs : List UInt8)
    (hxs : xs.length ≤ cap) : ∃ b, Reachable get cap b ∧ contents b = xs := by
  obtain ⟨b0, hnew, hb0⟩ := buffer_new.spec cap h0 hcap
  have hsize : (⟨List.replicate cap 0, []⟩ : Tape UInt8).size = cap := Tape.size_new cap 0
  obtain ⟨b, hw, hb⟩ := buffer_write.spec hb0 (by omega) xs xs.length (Nat.le_refl _)
  refine ⟨b, (Reachable.new hnew).write (Nat.le_refl _) hw, ?_⟩
  rw [hb.contents (by rw [Tape.size_write]; omega), List.take_length,
    Tape.write_fits _ _ (by rw [List.length_replicate]; exact hxs)]
  rfl

/-! ## The handlers stay in the reachable buffers -/

variable {σ : Type}

theorem process_reachable {l : Nat → Locals} {dispatch : σ → packet_t → Outcome σ} (fuel : Nat) :
    ∀ (i : Nat) (s s' : σ) (p : packet_t) (b b' : buffer_t), Reachable get cap b →
      process (fun i => get (l i)) dispatch fuel i s p b = .running (s', b') →
      Reachable get cap b' := by
  induction fuel with
  | zero =>
    intro i s s' p b b' _ h
    cases h
  | succ fuel ih =>
    intro i s s' p b b' hb h
    simp only [process] at h
    split at h
    · cases h
    · rename_i ret p1 b1 hget
      split at h
      · split at h
        · exact ih _ _ _ _ _ _ (hb.get hget) h
        · cases h
        · cases h
        · cases h
      · cases h
        exact hb.get hget

theorem handlePackage_reachable {dispatch : σ → packet_t → Outcome σ} {s s' : σ} {b b' : buffer_t}
    {e : Event} (hb : Reachable get cap b) (h0 : 0 ≤ e.incount)
    (h : handlePackage get dispatch s b e = .running (s', b')) : Reachable get cap b' := by
  have hlen := e.incount_le
  obtain ⟨k, hk⟩ := Int.eq_ofNat_of_zero_le h0
  unfold handlePackage at h
  split at h
  · cases h
  · rename_i b1 n hw
    rw [hk] at hw
    exact process_reachable _ _ _ _ _ _ _ (hb.write (by omega) hw) h

/-- A receiver that has run for any number of events has a reachable buffer. -/
theorem receiveRun_reachable {dispatch : σ → packet_t → Outcome σ} {es : List Event} :
    ∀ {s s' : σ} {b b' : buffer_t}, Reachable get cap b → (∀ e ∈ es, 0 ≤ e.incount) →
      receiveRun (handlePackage get dispatch) s b es = .running (s', b') →
      Reachable get cap b' := by
  induction es with
  | nil =>
    intro s s' b b' hb _ h
    cases h
    exact hb
  | cons e es ih =>
    intro s s' b b' hb h0 h
    obtain ⟨h0e, h0⟩ := List.forall_mem_cons.mp h0
    simp only [receiveRun] at h
    split at h
    · rename_i s1 b1 hstep
      exact ih (handlePackage_reachable hb h0e hstep) h0 h
    · rename_i hstep
      exact absurd h (hstep s' b')

/-- The loop of a handler only moves in what the buffer holds. -/
theorem process_moves {l : Nat → Locals} {dispatch : σ → packet_t → Outcome σ}
    (hkeeps : ∀ l, Keeps cap (get l)) (fuel : Nat) :
    ∀ (i : Nat) (s s' : σ) (p : packet_t) (b b' : buffer_t) (t : Tape UInt8), Holds b t →
      t.size = cap → process (fun i => get (l i)) dispatch fuel i s p b = .running (s', b') →
      ∃ t', Holds b' t' ∧ Moves t t' := by
  induction fuel with
  | zero =>
    intro i s s' p b b' t _ _ h
    cases h
  | succ fuel ih =>
    intro i s s' p b b' t hb ht h
    simp only [process] at h
    split at h
    · cases h
    · rename_i ret p1 b1 hget
      obtain ⟨t1, hb1, hmoves⟩ := hkeeps _ _ _ _ _ _ _ hb ht hget
      split at h
      · split at h
        · obtain ⟨t', hb', hmoves'⟩ := ih _ _ _ _ _ _ _ hb1 (hmoves.size.trans ht) h
          exact ⟨t', hb', hmoves.trans hmoves'⟩
        · cases h
        · cases h
        · cases h
      · cases h
        exact ⟨t1, hb1, hmoves⟩

end dect_prog.package

/-! ## The two packet functions -/

namespace dect_prog.flashloader

open dect_prog.package

theorem flashpacket_get_keeps (l : Locals) : Keeps 5000 (flashpacket_get l) :=
  (flashpacket_get.spec l 5000 (by decide) (by decide)).keeps

theorem reachable_holds {b : buffer_t} (h : Reachable flashpacket_get 5000 b) :
    ∃ t, Holds b t ∧ t.size = 5000 :=
  h.holds (by decide) flash_capacity flashpacket_get_keeps

end dect_prog.flashloader

namespace dect_prog.busmail

open dect_prog.package

/-- Wherever `start` points, `busmail_get` only moves in what the buffer holds. -/
theorem busmail_get_keeps (l : Locals) : Keeps 500 (busmail_get l) := by
  intro p p' b b' t ret hb ht hget
  rw [busmail_get_eq] at hget
  rcases busmailWhole.cases l hb (by omega) (by omega) with
    ⟨_, b1, hw, t1, hb1, htape⟩ | ⟨junk, s, x, y, n, b1, _, _, _, hb1, _, hw⟩
  · rw [hw] at hget
    cases hget
    exact ⟨t1, hb1, getTape_moves (htape p)⟩
  · rw [hw] at hget
    -- The buffer is the same for a good and for a bad checksum.
    have hb' : b' = b1 := by
      obtain ⟨w, hmap, hcopy⟩ := Option.bind_eq_some_iff.mp hget
      obtain ⟨crc, _, rfl⟩ := Option.map_eq_some_iff.mp hmap
      split at hcopy
      · cases hcopy
        rfl
      · obtain ⟨q, _, hq⟩ := Option.bind_eq_some_iff.mp hcopy
        cases hq
        rfl
    subst hb'
    exact ⟨_, hb1, Moves.read t _⟩

theorem reachable_holds {b : buffer_t} (h : Reachable busmail_get 500 b) :
    ∃ t, Holds b t ∧ t.size = 500 :=
  h.holds (by decide) (by decide) busmail_get_keeps

end dect_prog.busmail

/-! ## The final copy -/

namespace dect_prog.package

/-- Every place of its array that the packet function looked at is one of the array, and when it
comes to its final copy, the announced size is no more than the packet has room for. -/
def FinalCopyFits (whole : Option Whole) : Prop :=
  ∃ w, whole = some w ∧ ∀ b buf size, w = .copies b buf size → size ≤ PACKET_SIZE

end dect_prog.package

namespace dect_prog

open dect_prog.package

theorem flash_copy_fits_iff {b : buffer_t} (l : Locals)
    (hreach : Reachable flashloader.flashpacket_get 5000 b) :
    FinalCopyFits (flashloader.flashpacketWhole l b) ↔
      ∀ q rest, flashloader.format.parse (contents b) = .frame q rest → q.length ≤ PACKET_SIZE := by
  obtain ⟨t, hb, ht⟩ := flashloader.reachable_holds hreach
  have hINT : (5000 : Int) ≤ INT_MAX := by decide
  rw [hb.contents (by omega)]
  obtain ⟨w, hw, hprep⟩ := flashloader.flashpacketWhole.spec l hb (by omega) (by omega)
  cases w with
  | returns b' =>
    -- No whole frame with a good checksum is at the front.
    obtain ⟨t', _, htape⟩ := hprep
    have hno : ∀ q rest, flashloader.format.parse t.ahead ≠ .frame q rest := by
      intro q rest hparse
      have := htape blank
      simp only [getTape, hparse] at this
      split at this <;> cases this
    constructor
    · intro _ q rest hparse
      exact absurd hparse (hno q rest)
    · intro _
      exact ⟨_, hw, fun _ _ _ h => by cases h⟩
  | copies b' buf size =>
    obtain ⟨q, rest, hparse, hsize, _⟩ := hprep
    constructor
    · rintro ⟨w, hw', hfits⟩ q' rest' hparse'
      cases hparse.symm.trans hparse'
      have := hfits b' buf size (Option.some.inj (hw'.symm.trans hw))
      omega
    · intro h
      refine ⟨_, hw, ?_⟩
      rintro _ _ _ ⟨⟩
      have := h q rest hparse
      omega

theorem busmail_copy_fits_iff {b : buffer_t} (l : Locals)
    (hreach : Reachable busmail.busmail_get 500 b) :
    FinalCopyFits (busmail.busmailWhole l b) ↔
      ∀ n, busmail.format.whole (contents b) = some n →
        0 ≤ l.start + (3 + n : Nat) ∧ l.start + (3 + n : Nat) < 5000 := by
  obtain ⟨t, hb, ht⟩ := busmail.reachable_holds hreach
  have hINT : (5000 : Int) ≤ INT_MAX := by decide
  rw [hb.contents (by omega)]
  rcases busmail.busmailWhole.cases l hb (by omega) (by omega) with
    ⟨hnone, b', hw, _⟩ | ⟨junk, s, x, y, n, b', hs, hn, hfull, _, _, hw⟩
  · constructor
    · intro _ n hn
      cases hnone.symm.trans hn
    · intro _
      exact ⟨_, hw, fun _ _ _ h => by cases h⟩
  · -- A whole packet in 500 bytes of room leaves 496 for its payload.
    have hcells : t.past.length + t.ahead.length = 500 := ht
    have hlen := congrArg List.length hs
    have htail : busmail.format.trailerLength = 1 := rfl
    simp only [List.length_append, List.length_cons] at hlen
    have hover : (overwrite l.buf 0 (busmail.format.header :: x :: y ::
        s.take (n + busmail.format.trailerLength))).length = 5000 := by
      rw [overwrite_length, l.buf_length]
      rw [l.buf_length]
      simp only [List.length_cons, List.length_take]
      omega
    generalize overwrite l.buf 0 (busmail.format.header :: x :: y ::
      s.take (n + busmail.format.trailerLength)) = buf at *
    constructor
    · rintro ⟨w, hw', _⟩ n' hn'
      cases hn.symm.trans hn'
      obtain ⟨crc, hload, _⟩ := Option.map_eq_some_iff.mp (hw.symm.trans hw')
      unfold load at hload
      split at hload
      · obtain ⟨hlt, _⟩ := List.getElem?_eq_some_iff.mp hload
        omega
      · cases hload
    · intro h
      obtain ⟨h1, h2⟩ := h n hn
      have hload : ∃ crc, load buf (l.start + (3 + n : Nat)) = some crc := by
        unfold load
        rw [if_pos h1, List.getElem?_eq_getElem (by omega)]
        exact ⟨_, rfl⟩
      obtain ⟨crc, hload⟩ := hload
      rw [hload, Option.map_some] at hw
      refine ⟨_, hw, ?_⟩
      intro _ _ _ hcopies
      split at hcopies
      · cases hcopies
      · cases hcopies
        unfold PACKET_SIZE
        omega

/-- The final copy of `flashpacket_get` fits into the packet as long as no whole frame with a good
checksum and more than 500 payload bytes is at the front of the buffer; that of `busmail_get` always
fits, and its checksum byte is one of the array as long as `start` leads to one. -/
theorem the_final_copy_fits_iff (b : buffer_t) (l : Locals) :
    (Reachable flashloader.flashpacket_get 5000 b →
      (FinalCopyFits (flashloader.flashpacketWhole l b) ↔
        ∀ q rest, flashloader.format.parse (contents b) = .frame q rest →
          q.length ≤ PACKET_SIZE)) ∧
    (Reachable busmail.busmail_get 500 b →
      (FinalCopyFits (busmail.busmailWhole l b) ↔
        ∀ n, busmail.format.whole (contents b) = some n →
          0 ≤ l.start + (3 + n : Nat) ∧ l.start + (3 + n : Nat) < 5000)) :=
  ⟨flash_copy_fits_iff l, busmail_copy_fits_iff l⟩

/-- A frame with one payload byte on each link, and a `start` of 0. -/
theorem the_final_copy_fits_iff_for_one_byte :
    (∃ b, Reachable flashloader.flashpacket_get 5000 b ∧
      contents b = flashloader.make_tx_packet [7] ∧
      FinalCopyFits (flashloader.flashpacketWhole ((eventOf []).locals 0) b)) ∧
    ∃ b, Reachable busmail.busmail_get 500 b ∧ contents b = busmail.make_tx_packet [7] ∧
      FinalCopyFits (busmail.busmailWhole ((eventOf []).locals 0) b) := by
  constructor
  · obtain ⟨b, hreach, hb⟩ := reachable_with (by decide) flashloader.flash_capacity
      (flashloader.make_tx_packet [7]) (by decide)
    refine ⟨b, hreach, hb, ((the_final_copy_fits_iff b _).1 hreach).mpr ?_⟩
    intro q rest hparse
    rw [hb, show flashloader.format.parse (flashloader.make_tx_packet [7]) = .frame [7] [] by decide]
      at hparse
    cases hparse
    decide
  · obtain ⟨b, hreach, hb⟩ := reachable_with (by decide : 0 < 500) (by decide)
      (busmail.make_tx_packet [7]) (by decide)
    refine ⟨b, hreach, hb, ((the_final_copy_fits_iff b _).2 hreach).mpr ?_⟩
    intro n hn
    rw [hb, show busmail.format.whole (busmail.make_tx_packet [7]) = some 1 by decide] at hn
    cases hn
    decide

/-- 501 zeros in a frame of the flash link are one byte too many. -/
theorem a_long_frame_overruns_the_packet :
    ∃ b, Reachable flashloader.flashpacket_get 5000 b ∧
      contents b = flashloader.make_tx_packet (List.replicate 501 0) ∧
      ∀ l, ¬ FinalCopyFits (flashloader.flashpacketWhole l b) := by
  have hlen := flashloader.format.encode_length (List.replicate 501 0)
  rw [List.length_replicate] at hlen
  obtain ⟨b, hreach, hb⟩ := reachable_with (by decide) flashloader.flash_capacity
    (flashloader.make_tx_packet (List.replicate 501 0))
    (by rw [flashloader.make_tx_packet_eq, hlen]; decide)
  refine ⟨b, hreach, hb, fun l hfits => ?_⟩
  have hparse := flashloader.format.parse_encode (List.replicate 501 0) []
    (by rw [List.length_replicate]; decide)
  rw [List.append_nil, ← flashloader.make_tx_packet_eq, ← hb] at hparse
  have := (flash_copy_fits_iff l hreach).mp hfits _ _ hparse
  rw [List.length_replicate] at this
  exact absurd this (by decide)

end dect_prog
