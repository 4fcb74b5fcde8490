-- What one call of a package handler does with the bytes that it has: which of
-- them it accounts for, and whether a whole packet is still in the buffer when
-- it returns.
import DectProg.Reachable
import DectProg.Noise

open tape framing dect_prog.buffer dect_prog.package

namespace dect_prog

variable {σ : Type}

/-- A read into a new buffer, with a dispatcher that writes its packets down: the handler returns
when the whole frames at the front fit into a packet. -/
theorem record_returns {f : Format UInt8} {cap : Nat}
    {get : Locals → packet_t → buffer_t → Option (Int × packet_t × buffer_t)} (h0 : 0 < cap)
    (hcap : (cap : Int) ≤ INT_MAX) (xs : List UInt8)
    (hget : ∀ i, Gets f cap (get ((eventOf xs).locals i)))
    (hsizes : ∀ q ∈ (f.drain (xs.take cap)).1, q.length ≤ PACKET_SIZE) :
    ∃ b log b', buffer_new cap = some b ∧ contents b = [] ∧ b.buf_size - b.count = cap ∧
      handlePackage get record [] b (eventOf xs) = .running (log, b') := by
  obtain ⟨b, hnew, hb⟩ := buffer_new.spec cap h0 hcap
  have hsize : (⟨List.replicate cap 0, []⟩ : Tape UInt8).size = cap := Tape.size_new cap 0
  have hends := handlePackage_left record [] hget hb hsize hcap (eventOf_count xs)
  have hahead : ((⟨List.replicate cap 0, []⟩ : Tape UInt8).write (eventOf xs).bytes).ahead =
      xs.take cap := by simp
  rw [hahead, dispatchAll_record, if_pos hsizes] at hends
  obtain ⟨b', hrun, _⟩ := hends
  refine ⟨b, _, b', hnew, hb.contents (by omega), ?_, hrun⟩
  rw [hb.buf_size, hb.count, hsize]
  simp

/-- A read of whole frames that fit into a packet, however many. -/
theorem record_returns_stream {f : Format UInt8} {cap : Nat}
    {get : Locals → packet_t → buffer_t → Option (Int × packet_t × buffer_t)} (h0 : 0 < cap)
    (hcap : (cap : Int) ≤ INT_MAX) (ps : List (List UInt8))
    (hps : ∀ p ∈ ps, p.length ≤ f.maxLength ∧ p.length ≤ PACKET_SIZE)
    (hget : ∀ i, Gets f cap (get ((eventOf (f.stream ps)).locals i))) :
    ∃ b log b', buffer_new cap = some b ∧ contents b = [] ∧ b.buf_size - b.count = cap ∧
      handlePackage get record [] b (eventOf (f.stream ps)) = .running (log, b') := by
  refine record_returns h0 hcap (f.stream ps) hget ?_
  obtain ⟨ps1, ps2, rest, rfl, hdrain, _⟩ := f.drain_stream (fun p hp => (hps p hp).1)
    (List.take_append_drop cap (f.stream ps))
  rw [hdrain]
  exact fun q hq => (hps q (List.mem_append_left ps2 hq)).2

/-! ## Frames that are left behind -/

/-- One more call of the packet function does not give a packet. -/
def Idle (get : packet_t → buffer_t → Option (Int × packet_t × buffer_t)) (b : buffer_t) : Prop :=
  ∀ p, ∃ ret p' b', get p b = some (ret, p', b') ∧ ret ≠ 0

/-- The packet function gives none exactly when no whole frame is at the front. -/
theorem idle_iff {f : Format UInt8} {cap : Nat}
    {get : packet_t → buffer_t → Option (Int × packet_t × buffer_t)} (hget : Gets f cap get)
    {b : buffer_t} {t : Tape UInt8} (hb : Holds b t) (ht : t.size = cap) :
    Idle get b ↔ ¬ ∃ q rest, f.parse t.ahead = .frame q rest := by
  constructor
  · rintro hidle ⟨q, rest, hparse⟩
    obtain ⟨ret, p', b', hsome, hret⟩ := hidle blank
    have hspec := hget blank b t hb ht
    simp only [getTape, hparse] at hspec
    by_cases hq : q.length ≤ PACKET_SIZE
    · rw [dif_pos hq] at hspec
      obtain ⟨b'', h0, _⟩ := hspec
      cases h0.symm.trans hsome
      exact hret rfl
    · rw [dif_neg hq] at hspec
      cases hspec.symm.trans hsome
  · intro hno p
    have hspec := hget p b t hb ht
    unfold getTape at hspec
    cases hparse : f.parse t.ahead with
    | frame q rest => exact absurd ⟨q, rest, hparse⟩ hno
    | absent =>
      rw [hparse] at hspec
      obtain ⟨b', h, _⟩ := hspec
      exact ⟨_, _, _, h, by decide⟩
    | short s =>
      rw [hparse] at hspec
      obtain ⟨b', h, _⟩ := hspec
      exact ⟨_, _, _, h, by decide⟩
    | damaged rest =>
      rw [hparse] at hspec
      obtain ⟨b', h, _⟩ := hspec
      exact ⟨_, _, _, h, by decide⟩

theorem left_frame_iff (f : Format UInt8) (t : Tape UInt8) :
    (∃ q rest, f.parse (left f t).ahead = .frame q rest) ↔ f.Stranded t.ahead := by
  by_cases hne : t.ahead = []
  · have hfew := left_few (f := f) hne
    constructor
    · rintro ⟨q, rest, h⟩
      exact absurd h (f.parse_few (by omega) q rest)
    · rintro ⟨rest, p, s, h, _⟩
      rw [hne, f.drain_stop (by simp [Format.parse_nil])] at h
      cases Format.parse_nil.symm.trans h
  · rw [left_ahead hne]
    exact f.keep_frame_iff t.ahead

/-- When a handler returns, a whole packet is still in the buffer exactly when one was stranded. -/
theorem returns_idle_iff {f : Format UInt8} {cap : Nat}
    {get : Locals → packet_t → buffer_t → Option (Int × packet_t × buffer_t)}
    (hcap : (cap : Int) ≤ INT_MAX) {dispatch : σ → packet_t → Outcome σ} {s s' : σ}
    {b b' : buffer_t} {t : Tape UInt8} {e : Event} (hb : Holds b t) (ht : t.size = cap)
    (hget : ∀ i, Gets f cap (get (e.locals i))) (h0 : 0 ≤ e.incount)
    (hfits : e.incount ≤ b.buf_size - b.count)
    (hrun : handlePackage get dispatch s b e = .running (s', b')) {l : Locals}
    (hl : Gets f cap (get l)) :
    Idle (get l) b' ↔ ¬ f.Stranded (contents b ++ e.bytes) := by
  have hends := handlePackage_left dispatch s hget hb ht hcap h0
  rw [hrun] at hends
  obtain ⟨_, hb'⟩ := hends.holds
  have hcells : t.past.length + t.ahead.length = cap := ht
  have hroom : e.bytes.length ≤ t.past.length := by
    rw [hb.buf_size, hb.count, ht] at hfits
    unfold Event.bytes
    rw [List.length_take]
    omega
  rw [idle_iff hl hb' (by simp [ht]), left_frame_iff, Tape.write_fits _ _ hroom,
    hb.contents (by omega)]

/-- When a handler returns from a read that fits, no whole packet is in the buffer, unless one
was stranded behind a packet with a wrong checksum. -/
theorem a_handler_processes_whole_packets_iff_none_is_stranded (dispatch : σ → packet_t → Outcome σ)
    (s s' : σ) (b b' : buffer_t) (e : Event) (l : Locals) (h0 : 0 ≤ e.incount)
    (hfits : e.incount ≤ b.buf_size - b.count) :
    (Reachable flashloader.flashpacket_get 5000 b →
      flashloader.handle_flashloader_package dispatch s b e = .running (s', b') →
      (Idle (flashloader.flashpacket_get l) b' ↔
        ¬ flashloader.format.Stranded (contents b ++ e.bytes))) ∧
    (Reachable busmail.busmail_get 500 b → (∀ i, (e.locals i).start = 0) → l.start = 0 →
      busmail.handleBusmailPackage dispatch s b e = .running (s', b') →
      (Idle (busmail.busmail_get l) b' ↔
        ¬ busmail.format.Stranded (contents b ++ e.bytes))) := by
  constructor
  · intro hreach hrun
    obtain ⟨t, hb, ht⟩ := flashloader.reachable_holds hreach
    exact returns_idle_iff flashloader.flash_capacity hb ht (flashloader.flash_gets e) h0 hfits hrun
      (flashloader.flashpacket_get.spec l 5000 (by decide) (by decide))
  · intro hreach hstart hl hrun
    obtain ⟨t, hb, ht⟩ := busmail.reachable_holds hreach
    exact returns_idle_iff busmail.bus_capacity hb ht
      (fun i => busmail.busmail_get.spec _ (hstart i) 500 (by decide) (by decide)) h0 hfits hrun
      (busmail.busmail_get.spec l hl 500 (by decide) (by decide))

/-- A read of one whole frame on each link. -/
theorem a_handler_processes_whole_packets_iff_none_is_stranded_for_one_frame :
    (∃ b log b', buffer_new 5000 = some b ∧
      flashloader.handle_flashloader_package record [] b
        (eventOf (flashloader.make_tx_packet [7])) = .running (log, b') ∧
      ∀ l, Idle (flashloader.flashpacket_get l) b') ∧
    ∃ b log b', buffer_new 500 = some b ∧
      busmail.handleBusmailPackage record [] b
        (eventOf (busmail.make_tx_packet [7])) = .running (log, b') ∧
      ∀ l, l.start = 0 → Idle (busmail.busmail_get l) b' := by
  have hnone : ∀ {f : Format UInt8} {q c : List UInt8}, f.parse c = .frame q [] →
      (f.drain c).1 = [q] ∧ ¬ f.Stranded c := by
    intro f q c hparse
    have hdrain : f.drain c = ([q], []) := by
      rw [f.drain_frame hparse, f.drain_stop (by simp [Format.parse_nil])]
    refine ⟨by rw [hdrain], ?_⟩
    rintro ⟨rest, p, s, h, _⟩
    rw [hdrain] at h
    cases Format.parse_nil.symm.trans h
  constructor
  · obtain ⟨hdrain, hidle⟩ := hnone (f := flashloader.format) (q := [7])
      (c := flashloader.make_tx_packet [7]) (by decide)
    obtain ⟨b, log, b', hnew, hb, hroom, hrun⟩ := record_returns (by decide)
      flashloader.flash_capacity (flashloader.make_tx_packet [7])
      (fun i => flashloader.flash_gets _ i)
      (by rw [List.take_of_length_le (by decide), hdrain]; decide)
    refine ⟨b, log, b', hnew, hrun, fun l => ?_⟩
    exact ((a_handler_processes_whole_packets_iff_none_is_stranded record [] log b b' _ l
      (eventOf_count _) (by rw [hroom]; decide)).1 (.new hnew) hrun).mpr (by simpa [hb] using hidle)
  · obtain ⟨hdrain, hidle⟩ := hnone (f := busmail.format) (q := [7])
      (c := busmail.make_tx_packet [7]) (by decide)
    obtain ⟨b, log, b', hnew, hb, hroom, hrun⟩ := record_returns (by decide) busmail.bus_capacity
      (busmail.make_tx_packet [7])
      (fun i => busmail.busmail_get.spec _ rfl 500 (by decide) (by decide))
      (by rw [List.take_of_length_le (by decide), hdrain]; decide)
    refine ⟨b, log, b', hnew, hrun, fun l hl => ?_⟩
    exact ((a_handler_processes_whole_packets_iff_none_is_stranded record [] log b b' _ l
      (eventOf_count _) (by rw [hroom]; decide)).2 (.new hnew) (fun _ => rfl) hl hrun).mpr
      (by simpa [hb] using hidle)

/-- A frame with a wrong checksum and a whole one behind it, in one read into a new buffer: the
whole one stays in the buffer. -/
theorem a_whole_frame_is_left_behind_a_damaged_one :
    (∃ b log b', buffer_new 5000 = some b ∧ b.buf_size - b.count = 5000 ∧
      flashloader.handle_flashloader_package record [] b
        (eventOf [0x46, 0, 0, 1, 0, 0x46, 0, 0, 0, 0]) = .running (log, b') ∧
      ∀ l, ¬ Idle (flashloader.flashpacket_get l) b') ∧
    ∃ b log b', buffer_new 500 = some b ∧ b.buf_size - b.count = 500 ∧
      busmail.handleBusmailPackage record [] b
        (eventOf [0x10, 0, 0, 1, 0x10, 0, 0, 0]) = .running (log, b') ∧
      ∀ l, l.start = 0 → ¬ Idle (busmail.busmail_get l) b' := by
  have hstranded : ∀ {f : Format UInt8} {q c d : List UInt8}, f.parse c = .damaged d →
      f.parse d = .frame q [] → (f.drain c).1 = [] ∧ f.Stranded c := by
    intro f q c d hc hd
    have hdrain : f.drain c = ([], c) := f.drain_stop (by simp [hc])
    exact ⟨by rw [hdrain], d, q, [], by rw [hdrain]; exact hc, hd⟩
  constructor
  · obtain ⟨hdrain, hleft⟩ := hstranded (f := flashloader.format) (q := [])
      (c := [0x46, 0, 0, 1, 0, 0x46, 0, 0, 0, 0]) (d := [0x46, 0, 0, 0, 0]) (by decide) (by decide)
    obtain ⟨b, log, b', hnew, hb, hroom, hrun⟩ := record_returns (by decide)
      flashloader.flash_capacity [0x46, 0, 0, 1, 0, 0x46, 0, 0, 0, 0]
      (fun i => flashloader.flash_gets _ i)
      (by rw [List.take_of_length_le (by decide), hdrain]; simp)
    obtain ⟨t, ht, hsize⟩ := flashloader.reachable_holds (.new hnew)
    refine ⟨b, log, b', hnew, hroom, hrun, fun l hidle => ?_⟩
    exact (returns_idle_iff flashloader.flash_capacity ht hsize (flashloader.flash_gets _)
      (eventOf_count _) (by rw [hroom]; decide) hrun
      (flashloader.flashpacket_get.spec l 5000 (by decide) (by decide))).mp hidle
      (by simpa [hb] using hleft)
  · obtain ⟨hdrain, hleft⟩ := hstranded (f := busmail.format) (q := [])
      (c := [0x10, 0, 0, 1, 0x10, 0, 0, 0]) (d := [0x10, 0, 0, 0]) (by decide) (by decide)
    have hget : ∀ l : Locals, l.start = 0 → Gets busmail.format 500 (busmail.busmail_get l) :=
      fun l hl => busmail.busmail_get.spec l hl 500 (by decide) (by decide)
    obtain ⟨b, log, b', hnew, hb, hroom, hrun⟩ := record_returns (by decide) busmail.bus_capacity
      [0x10, 0, 0, 1, 0x10, 0, 0, 0] (fun i => hget _ rfl)
      (by rw [List.take_of_length_le (by decide), hdrain]; simp)
    obtain ⟨t, ht, hsize⟩ := busmail.reachable_holds (.new hnew)
    refine ⟨b, log, b', hnew, hroom, hrun, fun l hl hidle => ?_⟩
    exact (returns_idle_iff busmail.bus_capacity ht hsize (fun i => hget _ rfl)
      (eventOf_count _) (by rw [hroom]; decide) hrun (hget l hl)).mp hidle
      (by simpa [hb] using hleft)

/-! ## Bytes that are lost -/

/-- The bytes that the buffer held, and those of the read, are the ones that the packet function
consumed and the ones that the buffer holds now. What it consumed is what was in the buffer when the
write was done and is no more. -/
def Accounts (b : buffer_t) (e : Event) (b' : buffer_t) : Prop :=
  ∃ bw n consumed, buffer_write b e.input e.incount = some (bw, n) ∧
    contents bw = consumed ++ contents b' ∧
    contents b ++ e.bytes = consumed ++ contents b'

/-- A handler accounts for every byte exactly when the read fits in the free space. -/
theorem accounts_iff {get : Locals → packet_t → buffer_t → Option (Int × packet_t × buffer_t)}
    {cap : Nat} (hcap0 : 0 < cap) (hcap : (cap : Int) ≤ INT_MAX) (hkeeps : ∀ l, Keeps cap (get l))
    {dispatch : σ → packet_t → Outcome σ} {s s' : σ} {b b' : buffer_t} {e : Event}
    (hreach : Reachable get cap b) (h0 : 0 < e.incount)
    (hrun : handlePackage get dispatch s b e = .running (s', b')) :
    Accounts b e b' ↔ e.incount ≤ b.buf_size - b.count := by
  obtain ⟨t, hb, ht⟩ := hreach.holds hcap0 hcap hkeeps
  have hlen := e.incount_le
  obtain ⟨k, hk⟩ := Int.eq_ofNat_of_zero_le (Int.le_of_lt h0)
  obtain ⟨bw, hw, hbw⟩ := buffer_write.spec hb (by omega) e.input k (by omega)
  have hbytes : e.bytes = e.input.take k := by rw [Event.bytes, hk, Int.toNat_natCast]
  have hbytes' : e.bytes.length = k := by
    rw [hbytes, List.length_take]
    omega
  have hcells : t.past.length + t.ahead.length = cap := ht
  -- After the write something is ahead, so the loop leaves an end of it.
  have hne : (t.write (e.input.take k)).ahead ≠ [] := by
    rw [← List.length_pos_iff, Tape.write_ahead, List.length_append, List.length_take, ← hbytes,
      hbytes']
    omega
  obtain ⟨t', hb', hmoves⟩ : ∃ t', Holds b' t' ∧ Moves (t.write (e.input.take k)) t' := by
    simp only [handlePackage, hk, hw] at hrun
    exact process_moves hkeeps _ _ _ _ _ _ _ _ hbw (by rw [Tape.size_write, ht]) hrun
  obtain ⟨consumed, hconsumed⟩ := hmoves.suffix hne
  have hcw : contents bw = t.ahead ++ e.bytes.take t.past.length := by
    rw [hbw.contents (by rw [Tape.size_write]; omega), hbytes]
    rfl
  have hcb' : contents bw = consumed ++ contents b' := by
    rw [hb'.contents (by rw [hmoves.size, Tape.size_write]; omega),
      hbw.contents (by rw [Tape.size_write]; omega), hconsumed]
  rw [hb.buf_size, hb.count, ht, hk]
  constructor
  · rintro ⟨bw', n', consumed', hw', hc1, hc2⟩
    rw [hk, hw] at hw'
    cases hw'
    rw [← hc1, hb.contents (by omega), hcw] at hc2
    have := congrArg List.length hc2
    simp only [List.length_append, List.length_take] at this
    omega
  · intro hfits
    have hall : e.bytes.take t.past.length = e.bytes := List.take_of_length_le (by omega)
    refine ⟨bw, _, consumed, by rw [hk]; exact hw, hcb', ?_⟩
    rw [← hcb', hcw, hall, hb.contents (by omega)]

/-- A call of a handler accounts for every byte exactly when the read fits in the free space, for
all three handlers and whatever the dispatcher does and the locals hold. -/
theorem a_handler_accounts_for_every_byte_iff_the_read_fits (dispatch : σ → packet_t → Outcome σ)
    (s s' : σ) (b b' : buffer_t) (e : Event) (h0 : 0 < e.incount) :
    (Reachable flashloader.flashpacket_get 5000 b →
      flashloader.handle_flashloader_package dispatch s b e = .running (s', b') →
      (Accounts b e b' ↔ e.incount ≤ b.buf_size - b.count)) ∧
    (Reachable busmail.busmail_get 500 b →
      busmail.handleBusmailPackage dispatch s b e = .running (s', b') →
      (Accounts b e b' ↔ e.incount ≤ b.buf_size - b.count)) :=
  ⟨fun hreach => accounts_iff (by decide) flashloader.flash_capacity
      flashloader.flashpacket_get_keeps hreach h0,
    fun hreach => accounts_iff (by decide) busmail.bus_capacity busmail.busmail_get_keeps hreach h0⟩

/-- A read of one whole frame on each link. -/
theorem a_handler_accounts_for_every_byte_iff_the_read_fits_for_one_frame :
    (∃ b log b', buffer_new 5000 = some b ∧
      flashloader.handle_flashloader_package record [] b
        (eventOf (flashloader.format.stream [[]])) = .running (log, b') ∧
      Accounts b (eventOf (flashloader.format.stream [[]])) b') ∧
    ∃ b log b', buffer_new 500 = some b ∧
      busmail.handleBusmailPackage record [] b
        (eventOf (busmail.format.stream [[]])) = .running (log, b') ∧
      Accounts b (eventOf (busmail.format.stream [[]])) b' := by
  constructor
  · obtain ⟨b, log, b', hnew, _, hroom, hrun⟩ := record_returns_stream (by decide)
      flashloader.flash_capacity [[]] (by simp) (fun i => flashloader.flash_gets _ i)
    exact ⟨b, log, b', hnew, hrun, ((a_handler_accounts_for_every_byte_iff_the_read_fits record []
      log b b' _ (by decide)).1 (.new hnew) hrun).mpr (by rw [hroom]; decide)⟩
  · obtain ⟨b, log, b', hnew, _, hroom, hrun⟩ := record_returns_stream (by decide)
      busmail.bus_capacity [[]] (by simp)
      (fun i => busmail.busmail_get.spec _ rfl 500 (by decide) (by decide))
    exact ⟨b, log, b', hnew, hrun, ((a_handler_accounts_for_every_byte_iff_the_read_fits record []
      log b b' _ (by decide)).2 (.new hnew) hrun).mpr (by rw [hroom]; decide)⟩

/-- 1001 empty frames of the flash link, and 126 of the busmail link, in one read into a new
buffer: some of their bytes are in no buffer and were never consumed. -/
theorem frames_beyond_the_free_space_are_lost :
    (∃ b log b', buffer_new 5000 = some b ∧
      flashloader.handle_flashloader_package record [] b
        (eventOf (flashloader.format.stream (List.replicate 1001 []))) = .running (log, b') ∧
      ¬ Accounts b (eventOf (flashloader.format.stream (List.replicate 1001 []))) b') ∧
    ∃ b log b', buffer_new 500 = some b ∧
      busmail.handleBusmailPackage record [] b
        (eventOf (busmail.format.stream (List.replicate 126 []))) = .running (log, b') ∧
      ¬ Accounts b (eventOf (busmail.format.stream (List.replicate 126 []))) b' := by
  have hlen : ∀ (f : Format UInt8) (n : Nat),
      (eventOf (f.stream (List.replicate n []))).incount = n * (f.trailerLength + 3 : Nat) := by
    intro f n
    show ((f.stream (List.replicate n [])).length : Int) = _
    unfold Format.stream
    rw [List.flatMap_replicate, List.length_flatten]
    simp [f.encode_length]
  constructor
  · obtain ⟨b, log, b', hnew, _, hroom, hrun⟩ := record_returns_stream (by decide)
      flashloader.flash_capacity (List.replicate 1001 [])
      (fun p hp => by rw [List.eq_of_mem_replicate hp]; decide)
      (fun i => flashloader.flash_gets _ i)
    have hcount := hlen flashloader.format 1001
    refine ⟨b, log, b', hnew, hrun, fun h => ?_⟩
    have hfits := (accounts_iff (by decide) flashloader.flash_capacity
      flashloader.flashpacket_get_keeps (.new hnew) (by rw [hcount]; decide) hrun).mp h
    rw [hroom, hcount] at hfits
    exact absurd hfits (by decide)
  · obtain ⟨b, log, b', hnew, _, hroom, hrun⟩ := record_returns_stream (by decide)
      busmail.bus_capacity (List.replicate 126 [])
      (fun p hp => by rw [List.eq_of_mem_replicate hp]; decide)
      (fun i => busmail.busmail_get.spec _ rfl 500 (by decide) (by decide))
    have hcount := hlen busmail.format 126
    refine ⟨b, log, b', hnew, hrun, fun h => ?_⟩
    have hfits := (accounts_iff (by decide) busmail.bus_capacity
      busmail.busmail_get_keeps (.new hnew) (by rw [hcount]; decide) hrun).mp h
    rw [hroom, hcount] at hfits
    exact absurd hfits (by decide)

end dect_prog
