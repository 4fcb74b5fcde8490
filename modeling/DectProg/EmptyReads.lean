-- What a package handler does when `read` brings nothing: main passes 0 or -1 on as
-- the count. With 0 the handler looks again at what is in the buffer; with -1 the
-- copy into the buffer is as long as memory.
import DectProg.Grammar
import DectProg.Noise

open tape framing dect_prog.buffer

namespace dect_prog.package

variable {f : Format UInt8} {cap : Nat} {b : buffer_t} {t : Tape UInt8}

/-- What a call of the packet function does, whatever its uninitialised locals hold: without a whole
frame it returns -1 and moves as the format says, and with one it takes bytes off, if it returns. -/
structure Takes (f : Format UInt8) (cap : Nat)
    (get : packet_t → buffer_t → Option (Int × packet_t × buffer_t)) : Prop where
  waits : ∀ p b t, Holds b t → t.size = cap → f.whole t.ahead = none →
    ∃ b' t', get p b = some (-1, p, b') ∧ getTape f p t = some (-1, p, t') ∧ Holds b' t'
  whole : ∀ p b t n, Holds b t → t.size = cap → f.whole t.ahead = some n →
    ∀ ret p' b', get p b = some (ret, p', b') →
      ∃ t', Holds b' t' ∧ t'.size = cap ∧ t'.ahead.length < t.ahead.length

/-! ## Writes of nothing -/

theorem write_nothing (hb : Holds b t) (hsize : t.size ≤ INT_MAX) (input : List UInt8) :
    ∃ b', buffer_write b input 0 = some (b', 0) ∧ Holds b' t := by
  obtain ⟨b', hw, hb'⟩ := buffer_write.spec hb hsize input 0 (Nat.zero_le _)
  have hsame : t.write (input.take 0) = t := by
    ext1 <;> simp
  rw [hsame] at hb'
  rw [Nat.zero_min] at hw
  exact ⟨b', hw, hb'⟩

theorem memcpy_negative (dst src : List UInt8) (doff soff : Int) :
    memcpy dst doff src soff (-1) = none := by
  unfold memcpy
  rw [if_neg (by omega)]

/-- A count of -1 is a copy of as many bytes as there can be, unless the buffer is full. -/
theorem write_failed (hb : Holds b t) (input : List UInt8) :
    buffer_write b input (-1) = if b.count = b.buf_size then some (b, 0) else none := by
  unfold buffer_write
  split
  · rfl
  · cases hb with
    | normal a d c h =>
      have hlen := congrArg List.length h.storage
      simp only [List.length_append] at hlen
      have hend := h.data_end
      have hclamp : ¬ b.data_end + -1 > b.buf_end := by
        unfold buffer_t.buf_end
        omega
      have hwrite : write_normal b input 0 (-1) = none := by
        simp only [write_normal, if_neg hclamp, memcpy_negative]
        rfl
      rw [h.state]
      simp only [hwrite]
      rfl
    | wrapped a f c h =>
      have hstart := h.data_start
      have hend := h.data_end
      have hclamp : ¬ b.data_end + -1 > b.data_start := by omega
      have hwrite : write_wrapped b input 0 (-1) = none := by
        simp only [write_wrapped, if_neg hclamp, memcpy_negative]
        rfl
      rw [h.state]
      simp only [hwrite]
      rfl

/-! ## Handlers that are not disturbed -/

/-- The handler dispatches no packet, whatever the dispatcher would do with it, and it leaves what is
in the buffer, how much that is, and the representation invariant. -/
def Undisturbed
    (handle : ∀ σ : Type, (σ → packet_t → Outcome σ) → σ → buffer_t → Event → Outcome (σ × buffer_t))
    (b : buffer_t) (e : Event) : Prop :=
  ∀ (σ : Type) (dispatch : σ → packet_t → Outcome σ) (s : σ), ∃ b',
    handle σ dispatch s b e = .running (s, b') ∧
      contents b' = contents b ∧ b'.count = b.count ∧ Ring b'

/-- The bytes in the buffer wait for more: a frame that has not arrived as a whole and nothing in
front of it, or one byte that is no header, or, for a packet function that puts nothing back when it
found nothing, no byte at all. -/
def Waiting (f : Format UInt8) (c : List UInt8) : Prop :=
  f.parse c = .short c ∨ (∃ x, x ≠ f.header ∧ c = [x]) ∨ (c = [] ∧ f.keepsLast = false)

theorem Waiting.whole {c : List UInt8} (h : Waiting f c) : f.whole c = none := by
  rcases h with h | ⟨x, hx, rfl⟩ | ⟨rfl, -⟩
  · exact f.whole_short h
  · exact f.whole_absent (by simpa using hx.symm)
  · rfl

theorem whole_parse {c : List UInt8} {n : Nat} (h : f.whole c = some n) :
    (∃ q rest, f.parse c = .frame q rest) ∨ ∃ rest, f.parse c = .damaged rest := by
  cases hparse : f.parse c with
  | absent =>
    rw [f.whole_absent (Format.header_notMem hparse)] at h
    cases h
  | short s =>
    rw [f.whole_short hparse] at h
    cases h
  | damaged rest => exact .inr ⟨rest, rfl⟩
  | frame q rest => exact .inl ⟨q, rest, rfl⟩

/-- Without a header nothing stays as it is but one byte, or no byte where none is put back. -/
theorem absent_ahead_iff {p : packet_t} {t' : Tape UInt8} (h0 : 0 < t.size)
    (habsent : f.parse t.ahead = .absent) (h : getTape f p t = some (-1, p, t')) :
    t'.ahead = t.ahead ↔ Waiting f t.ahead := by
  have hheader := Format.header_notMem habsent
  have hno : ∀ s, f.parse t.ahead ≠ .short s := by
    intro s hs
    cases habsent.symm.trans hs
  simp only [getTape, habsent, Option.some.injEq, Prod.mk.injEq, true_and] at h
  rcases List.eq_nil_or_concat' t.ahead with hnil | ⟨init, x, hlast⟩
  · have hwaiting : Waiting f t.ahead ↔ f.keepsLast = false := by
      simp [Waiting, hnil, Format.parse_nil]
    rw [hwaiting, ← h, hnil]
    cases hkeep : f.keepsLast with
    | false => simp [hnil]
    | true =>
      -- One byte of the past comes back.
      have hpast : 0 < t.past.length := by
        simp only [Tape.size, hnil, List.length_nil] at h0
        omega
      have hback : (t.rewind 1).ahead.length = 1 := by
        simp only [Tape.rewind, hnil, List.append_nil, List.length_drop]
        omega
      simp only [true_or, if_true, List.length_nil, Tape.read_zero, Bool.true_eq_false, iff_false]
      intro hsame
      rw [hsame] at hback
      cases hback
  · have hleft : t'.ahead = [x] := by
      rw [← h, if_pos (.inr (by simp [hlast])), t.rewind_read_all hlast]
    have hwaiting : Waiting f t.ahead ↔ ∃ x, x ≠ f.header ∧ t.ahead = [x] := by
      simp only [Waiting, hno, false_or, or_iff_left_iff_imp]
      rintro ⟨hnil, -⟩
      rw [hnil] at hlast
      cases (List.append_ne_nil_of_right_ne_nil init (List.cons_ne_nil x []) hlast.symm)
    rw [hleft, hwaiting]
    constructor
    · intro hsame
      rw [← hsame] at hheader ⊢
      exact ⟨x, fun hx => hheader (by rw [hx]; exact List.mem_singleton_self _), rfl⟩
    · rintro ⟨y, -, hone⟩
      obtain rfl : init = [] := by
        have hlen := congrArg List.length (hlast.symm.trans hone)
        simpa using hlen
      rw [hlast]
      rfl

/-- What is in front of the frame goes. -/
theorem short_ahead_iff {p : packet_t} {t' : Tape UInt8} {s : List UInt8}
    (hshort : f.parse t.ahead = .short s) (h : getTape f p t = some (-1, p, t')) :
    t'.ahead = t.ahead ↔ Waiting f t.ahead := by
  obtain ⟨junk, s', hahead, -, hs⟩ := f.parse_short hshort
  simp only [getTape, hshort, Option.some.injEq, Prod.mk.injEq, true_and] at h
  have hleft : t'.ahead = s := by
    rw [← h, Tape.read_ahead, hahead, List.length_append, Nat.add_sub_cancel, List.drop_left]
  rw [hleft]
  constructor
  · intro hsame
    refine .inl ?_
    rw [hshort, hsame]
  · rintro (hwait | ⟨x, hx, hone⟩ | ⟨hnil, -⟩)
    · cases hshort.symm.trans hwait
      rfl
    · rw [hone, f.parse_absent (by simpa using hx.symm)] at hshort
      cases hshort
    · rw [hnil, Format.parse_nil] at hshort
      cases hshort

/-- Without a whole frame the packet function leaves the bytes as they are exactly when they wait. -/
theorem getTape_ahead_iff {p : packet_t} {t' : Tape UInt8} (h0 : 0 < t.size)
    (hwhole : f.whole t.ahead = none) (h : getTape f p t = some (-1, p, t')) :
    t'.ahead = t.ahead ↔ Waiting f t.ahead := by
  rcases f.parse_of_whole_none hwhole with habsent | ⟨s, hshort⟩
  · exact absent_ahead_iff h0 habsent h
  · exact short_ahead_iff hshort h

theorem Gets.takes {get : packet_t → buffer_t → Option (Int × packet_t × buffer_t)}
    (hget : Gets f cap get) : Takes f cap get := by
  constructor
  · intro p b t hb ht hwhole
    have hspec := hget p b t hb ht
    have hreturns : ∃ t', getTape f p t = some (-1, p, t') := by
      rcases f.parse_of_whole_none hwhole with hparse | ⟨s, hparse⟩ <;>
      simp only [getTape, hparse] <;> exact ⟨_, rfl⟩
    obtain ⟨t', htape⟩ := hreturns
    rw [htape] at hspec
    obtain ⟨b', hsome, hb'⟩ := hspec
    exact ⟨b', t', hsome, htape, hb'⟩
  · intro p b t n hb ht hwhole ret p' b' hsome
    have hspec := hget p b t hb ht
    rcases whole_parse hwhole with ⟨q, rest, hparse⟩ | ⟨rest, hparse⟩
    · have hlen := f.parse_frame_length hparse
      simp only [getTape, hparse] at hspec
      split_ifs at hspec with hq
      · obtain ⟨b'', hsome', hb''⟩ := hspec
        cases hsome'.symm.trans hsome
        exact ⟨_, hb'', by rw [Tape.size_read, ht], by rw [Tape.read_ahead, List.length_drop]; omega⟩
      · cases hspec.symm.trans hsome
    · obtain ⟨frame, hahead, hframe⟩ := f.parse_damaged hparse
      have hlen := congrArg List.length hahead
      rw [List.length_append] at hlen
      simp only [getTape, hparse] at hspec
      obtain ⟨b'', hsome', hb''⟩ := hspec
      cases hsome'.symm.trans hsome
      exact ⟨_, hb'', by rw [Tape.size_read, ht], by rw [Tape.read_ahead, List.length_drop]; omega⟩

/-- What the write of such a read does to the buffer: nothing, or it leaves memory. -/
theorem empty_write (hb : Holds b t) (hsize : t.size ≤ INT_MAX) (e : Event)
    (he : e.incount = 0 ∨ e.incount = -1) :
    (∃ n b1, buffer_write b e.input e.incount = some (b1, n) ∧ Holds b1 t ∧
      (e.incount = -1 → b.count = b.buf_size)) ∨
    buffer_write b e.input e.incount = none ∧ e.incount = -1 ∧ b.count ≠ b.buf_size := by
  rcases he with he | he <;> rw [he]
  · obtain ⟨b1, hw, hb1⟩ := write_nothing hb hsize e.input
    exact .inl ⟨0, b1, hw, hb1, fun h => absurd h (by decide)⟩
  · rw [write_failed hb]
    by_cases hfull : b.count = b.buf_size
    · exact .inl ⟨0, b, if_pos hfull, hb, fun _ => hfull⟩
    · exact .inr ⟨if_neg hfull, rfl, hfull⟩

section handler

variable {get : Locals → packet_t → buffer_t → Option (Int × packet_t × buffer_t)} {e : Event}
  {b1 : buffer_t} {n : Int} (hw : buffer_write b e.input e.incount = some (b1, n))

include hw

theorem handlePackage_written {σ : Type} (dispatch : σ → packet_t → Outcome σ) (s : σ) :
    handlePackage get dispatch s b e =
      process (fun i => get (e.locals i)) dispatch (b1.count.toNat + 1) 0 s
        { e.packet with size := 0 } b1 := by
  simp only [handlePackage, hw]

variable (htakes : ∀ l, Takes f cap (get l)) (hb1 : Holds b1 t) (ht : t.size = cap)

include htakes hb1 ht

/-- With no whole frame ahead the packet function is called once, and it is left to see what it puts
back. -/
theorem handlePackage_waits (h0 : 0 < cap)
    (hwhole : f.whole t.ahead = none) :
    ∃ b2 t2, Holds b2 t2 ∧ t2.size = cap ∧ (t2.ahead = t.ahead ↔ Waiting f t.ahead) ∧
      ∀ (σ : Type) (dispatch : σ → packet_t → Outcome σ) (s : σ),
        handlePackage get dispatch s b e = .running (s, b2) := by
  obtain ⟨b2, t2, hget, htape, hb2⟩ :=
    (htakes (e.locals 0)).waits { e.packet with size := 0 } b1 t hb1 ht hwhole
  refine ⟨b2, t2, hb2, (getTape_moves htape).size.trans ht,
    getTape_ahead_iff (by omega) hwhole htape, fun σ dispatch s => ?_⟩
  rw [handlePackage_written hw, process, hget]
  rfl

/-- A whole frame ahead is dispatched, or there is less in the buffer afterwards. -/
theorem handlePackage_takes {k : Nat} (hwhole : f.whole t.ahead = some k) {b2 : buffer_t}
    (hcap : (cap : Int) ≤ INT_MAX)
    (h : handlePackage get (fun _ _ => .undefined) () b e = .running ((), b2)) :
    (contents b2).length < t.ahead.length := by
  rw [handlePackage_written hw, process] at h
  split at h
  · cases h
  · rename_i ret p' b' hget
    obtain ⟨t2, hb2, ht2, hshorter⟩ :=
      (htakes (e.locals 0)).whole _ b1 t k hb1 ht hwhole ret p' b' hget
    split at h
    · cases h
    · cases h
      rw [hb2.contents (by omega)]
      exact hshorter

end handler

/-- A handler whose read brought 0 or -1 is not disturbed exactly when the bytes in its buffer wait
for more, and, for -1, when the buffer is full. -/
theorem undisturbed_iff {get : Locals → packet_t → buffer_t → Option (Int × packet_t × buffer_t)}
    (htakes : ∀ l, Takes f cap (get l)) (h0 : 0 < cap) (hcap : (cap : Int) ≤ INT_MAX)
    (hb : Holds b t) (ht : t.size = cap) (e : Event) (he : e.incount = 0 ∨ e.incount = -1) :
    Undisturbed (fun _ => handlePackage get) b e ↔
      Waiting f (contents b) ∧ (e.incount = -1 → b.count = b.buf_size) := by
  have hsize : (t.size : Int) ≤ INT_MAX := by omega
  have hcontents := hb.contents hsize
  rcases empty_write hb hsize e he with ⟨n, b1, hw, hb1, hfull⟩ | ⟨hw, he, hnot⟩
  · rw [and_iff_left hfull, hcontents]
    cases hwhole : f.whole t.ahead with
    | none =>
      obtain ⟨b2, t2, hb2, ht2, hleft, hrun⟩ :=
        handlePackage_waits hw htakes hb1 ht h0 hwhole
      have hsize2 : (t2.size : Int) ≤ INT_MAX := by omega
      rw [← hleft]
      constructor
      · intro h
        obtain ⟨b', hrun', hsame, -, -⟩ := h Unit (fun _ _ => .undefined) ()
        cases (hrun _ _ _).symm.trans hrun'
        rw [← hb2.contents hsize2, hsame, hcontents]
      · intro hsame σ dispatch s
        refine ⟨b2, hrun σ dispatch s, ?_, ?_, hb2.ring hsize2⟩
        · rw [hb2.contents hsize2, hsame, hcontents]
        · rw [hb2.count, hb.count, hsame]
    | some k =>
      constructor
      · intro h
        obtain ⟨b', hrun, hsame, -, -⟩ := h Unit (fun _ _ => .undefined) ()
        have hshorter := handlePackage_takes hw htakes hb1 ht hwhole hcap hrun
        rw [hsame, hcontents] at hshorter
        exact absurd hshorter (Nat.lt_irrefl _)
      · intro hwaiting
        rw [hwaiting.whole] at hwhole
        cases hwhole
  · constructor
    · intro h
      obtain ⟨b', hrun, -⟩ := h Unit (fun _ _ => .undefined) ()
      simp only [handlePackage, hw] at hrun
      cases hrun
    · intro h
      exact absurd (h.2 he) hnot

end dect_prog.package

/-! ## The handlers of the program -/

namespace dect_prog

open dect_prog.package

/-- With 0 in `start` or anything else. -/
theorem busmail.busmail_get_takes (l : Locals) : Takes busmail.format 500 (busmail.busmail_get l) := by
  constructor
  · intro p b t hb ht hwhole
    rcases busmail.busmailWhole.cases l hb (by omega) (by omega) with
      ⟨-, b', hw, t', hb', htape⟩ | ⟨_, _, _, _, n, _, _, hn, _⟩
    · refine ⟨b', t', ?_, htape p, hb'⟩
      rw [busmail.busmail_get_eq, hw]
      rfl
    · cases hwhole.symm.trans hn
  · intro p b t n hb ht hwhole ret p' b' hsome
    rcases busmail.busmailWhole.cases l hb (by omega) (by omega) with
      ⟨hnone, -⟩ | ⟨junk, s, x, y, _, b1, hs, -, -, hb1, -, hw⟩
    · cases hwhole.symm.trans hnone
    · have hlen := congrArg List.length hs
      simp only [List.length_append, List.length_cons] at hlen
      obtain rfl : b' = b1 := by
        rw [busmail.busmail_get_eq, hw] at hsome
        obtain ⟨w, hmap, hcopy⟩ := Option.bind_eq_some_iff.mp hsome
        obtain ⟨crc, -, rfl⟩ := Option.map_eq_some_iff.mp hmap
        split at hcopy
        · cases hcopy
          rfl
        · obtain ⟨_, -, hcopy⟩ := Option.bind_eq_some_iff.mp hcopy
          cases hcopy
          rfl
      exact ⟨_, hb1, by rw [Tape.size_read, ht], by rw [Tape.read_ahead, List.length_drop]; omega⟩

/-- A read that brought 0 or -1 changes nothing exactly when the bytes in the buffer wait for more
and, for -1, the buffer is full. An empty buffer waits for `busmail_get` only. -/
theorem an_empty_read_changes_nothing_iff (e : Event) (he : e.incount = 0 ∨ e.incount = -1) :
    (∀ b, Reachable flashloader.flashpacket_get 5000 b →
      (Undisturbed (fun _ => flashloader.handle_flashloader_package) b e ↔
        Waiting flashloader.format (contents b) ∧ (e.incount = -1 → b.count = b.buf_size))) ∧
    ∀ b, Reachable busmail.busmail_get 500 b →
      (Undisturbed (fun _ => busmail.handleBusmailPackage) b e ↔
        Waiting busmail.format (contents b) ∧ (e.incount = -1 → b.count = b.buf_size)) := by
  constructor
  · intro b hreach
    obtain ⟨t, hb, ht⟩ := flashloader.reachable_holds hreach
    exact undisturbed_iff (fun l => (flashloader.flashpacket_get.spec l 5000 (by decide)
      (by decide)).takes) (by decide) flashloader.flash_capacity hb ht e he
  · intro b hreach
    obtain ⟨t, hb, ht⟩ := busmail.reachable_holds hreach
    exact undisturbed_iff busmail.busmail_get_takes (by decide) (by decide) hb ht e he

/-- A receiver that read the beginning of a frame, and nothing else. -/
theorem run_of_short {f : Format UInt8} {cap : Nat}
    {get : Locals → packet_t → buffer_t → Option (Int × packet_t × buffer_t)} (h0 : 0 < cap)
    (hcap : (cap : Int) ≤ INT_MAX) {c : List UInt8} (hne : c ≠ []) (hlen : c.length ≤ cap)
    (hparse : f.parse c = .short c) (hget : ∀ i, Gets f cap (get ((eventOf c).locals i))) :
    ∃ b0 b, buffer_new cap = some b0 ∧
      receiveRun (handlePackage get record) [] b0 [eventOf c] = .running ([], b) ∧
      Reachable get cap b ∧ contents b = c ∧ b.count = c.length ∧ b.buf_size = cap := by
  obtain ⟨b0, hnew, hb0⟩ := buffer_new.spec cap h0 hcap
  obtain ⟨b, t, hrun, hb, ht, hahead⟩ := receiveRun_short hcap hne hlen hparse hget hb0
    (Tape.size_new cap 0) rfl
  have hreach : Reachable get cap b := receiveRun_reachable (.new hnew)
    (fun e he => by rw [List.mem_singleton.mp he]; exact eventOf_count c) hrun
  exact ⟨b0, b, hnew, hrun, hreach, by rw [hb.contents (by rw [ht]; exact hcap), hahead],
    by rw [hb.count, hahead], by rw [hb.buf_size, ht]⟩

/-- A read that failed. -/
def failedRead : Event := { eventOf [] with incount := -1, incount_le := by decide }

/-- Half a frame on each link, and a read of 0 bytes; and a buffer that is full, and a read that
fails. -/
theorem an_empty_read_changes_nothing_iff_for_a_header :
    (∃ b0 b, buffer_new 5000 = some b0 ∧
      receiveRun (flashloader.handle_flashloader_package record) [] b0 [eventOf [0x46]] =
        .running ([], b) ∧
      Undisturbed (fun _ => flashloader.handle_flashloader_package) b (eventOf [])) ∧
    (∃ b0 b, buffer_new 500 = some b0 ∧
      receiveRun (busmail.handleBusmailPackage record) [] b0 [eventOf [0x10]] =
        .running ([], b) ∧
      Undisturbed (fun _ => busmail.handleBusmailPackage) b (eventOf [])) ∧
    ∃ b0 b, buffer_new 5000 = some b0 ∧
      receiveRun (flashloader.handle_flashloader_package record) [] b0 [eventOf flashNoise] =
        .running ([], b) ∧ b.count = b.buf_size ∧
      Undisturbed (fun _ => flashloader.handle_flashloader_package) b failedRead := by
  refine ⟨?_, ?_, ?_⟩
  · have hparse : flashloader.format.parse [0x46] = .short [0x46] := by decide
    obtain ⟨b0, b, hnew, hrun, hreach, hb, -⟩ := run_of_short (by decide) flashloader.flash_capacity
      (by simp) (by simp) hparse (flashloader.flash_gets _)
    refine ⟨b0, b, hnew, hrun,
      ((an_empty_read_changes_nothing_iff (eventOf []) (.inl rfl)).1 b hreach).mpr ?_⟩
    exact ⟨.inl (by rw [hb]; exact hparse), fun h => absurd h (by decide)⟩
  · have hparse : busmail.format.parse [0x10] = .short [0x10] := by decide
    obtain ⟨b0, b, hnew, hrun, hreach, hb, -⟩ := run_of_short (by decide) busmail.bus_capacity
      (by simp) (by simp) hparse (busmail.bus_gets (busmail.singles_start [[0x10]]) _ (by simp))
    refine ⟨b0, b, hnew, hrun,
      ((an_empty_read_changes_nothing_iff (eventOf []) (.inl rfl)).2 b hreach).mpr ?_⟩
    exact ⟨.inl (by rw [hb]; exact hparse), fun h => absurd h (by decide)⟩
  · have hlen := flashNoise_length
    obtain ⟨b0, b, hnew, hrun, hreach, hb, hcount, hsize⟩ := run_of_short (by decide)
      flashloader.flash_capacity (by rw [← List.length_pos_iff, hlen]; decide) (Nat.le_of_eq hlen)
      flashNoise_short (flashloader.flash_gets _)
    have hfull : b.count = b.buf_size := by rw [hcount, hsize, hlen]
    refine ⟨b0, b, hnew, hrun, hfull,
      ((an_empty_read_changes_nothing_iff failedRead (.inr rfl)).1 b hreach).mpr ?_⟩
    exact ⟨.inl (by rw [hb]; exact flashNoise_short), fun _ => hfull⟩

/-- A new buffer of the flash loader, and a read of 0 bytes: a byte that was never received is in
the buffer afterwards. -/
theorem an_empty_read_brings_a_byte_back :
    ∃ b b', Reachable flashloader.flashpacket_get 5000 b ∧ contents b = [] ∧
      flashloader.handle_flashloader_package record [] b (eventOf []) = .running ([], b') ∧
      contents b' = [0] ∧
      ¬ Undisturbed (fun _ => flashloader.handle_flashloader_package) b (eventOf []) := by
  obtain ⟨b, hnew, hb⟩ := buffer_new.spec 5000 (by decide) flashloader.flash_capacity
  have hsize : (⟨List.replicate 5000 0, []⟩ : Tape UInt8).size = 5000 := Tape.size_new 5000 0
  have hmax : ((⟨List.replicate 5000 0, []⟩ : Tape UInt8).size : Int) ≤ INT_MAX := by
    rw [hsize]
    exact flashloader.flash_capacity
  have hempty : contents b = [] := hb.contents hmax
  obtain ⟨b1, hw, hb1⟩ := write_nothing hb hmax []
  have hspec := flashloader.flashpacket_get.spec ((eventOf []).locals 0) 5000 (by decide)
    (by decide) blank b1 _ hb1 hsize
  have htape : getTape flashloader.format blank ⟨List.replicate 5000 0, []⟩ =
      some (-1, blank, ⟨List.replicate 4999 0, [0]⟩) := by
    have hback := Tape.rewind_append (List.replicate 4999 (0 : UInt8)) [0] []
    have hcells : List.replicate 5000 (0 : UInt8) = List.replicate 4999 0 ++ [0] :=
      List.replicate_succ'
    have hread : (⟨List.replicate 4999 0 ++ [0], []⟩ : Tape UInt8).read 0 = _ := Tape.read_zero _
    have hkeep : flashloader.format.keepsLast = true := rfl
    simp only [getTape, Format.parse_nil, hkeep, true_or, if_true, List.length_nil, hcells, hread]
    exact congrArg (fun t => some (-1, blank, t)) hback
  rw [htape] at hspec
  obtain ⟨b2, hget, hb2⟩ := hspec
  have hsize2 : ((⟨List.replicate 4999 0, [0]⟩ : Tape UInt8).size : Int) ≤ INT_MAX := by
    simp only [Tape.size, List.length_replicate]
    decide
  have hleft : contents b2 = [0] := hb2.contents hsize2
  have hrun : ∀ {σ : Type} (dispatch : σ → packet_t → Outcome σ) (s : σ),
      flashloader.handle_flashloader_package dispatch s b (eventOf []) = .running (s, b2) := by
    intro σ dispatch s
    have hw' : buffer_write b (eventOf []).input (eventOf []).incount = some (b1, 0) := hw
    have hget' : flashloader.flashpacket_get ((eventOf []).locals 0)
        { (eventOf []).packet with size := 0 } b1 = some (-1, blank, b2) := hget
    rw [flashloader.handle_flashloader_package, handlePackage, hw']
    simp only [process, hget']
    rfl
  refine ⟨b, b2, .new hnew, hempty, hrun record [], hleft, fun hsame => ?_⟩
  obtain ⟨b', hrun', hcontents, -⟩ := hsame _ record []
  cases hrun'.symm.trans (hrun record [])
  rw [hleft, hempty] at hcontents
  cases hcontents

end dect_prog
