-- Reads that cut the stream of flash frames. A read that ends where a frame
-- ends leaves the last byte of the frame in the buffer, and when that byte is
-- an 'F' it is taken for the header of the next frame. No payload list is then
-- given out as it was sent.
import DectProg.FlashFrames
import DectProg.Receive

open tape framing dect_prog.buffer dect_prog.package dect_prog.crc

namespace dect_prog.flashloader

/-- Payloads that are not empty and fit into a packet. -/
def Sendable (payloads : List (List UInt8)) : Prop :=
  ∀ p ∈ payloads, 1 ≤ p.length ∧ p.length ≤ PACKET_SIZE

theorem Sendable.tail {p : List UInt8} {ps : List (List UInt8)} (h : Sendable (p :: ps)) :
    Sendable ps := fun q hq => h q (by simp [hq])

theorem Sendable.maxLength {ps : List (List UInt8)} (h : Sendable ps) :
    ∀ p ∈ ps, p.length ≤ format.maxLength := by
  intro p hp
  have := (h p hp).2
  unfold PACKET_SIZE at this
  simp only [format]
  omega

theorem encode_eq (p : List UInt8) : format.encode p = UART_PACKET_HEADER ::
    UInt8.ofNat p.length :: UInt8.ofNat (p.length / 256) ::
      (p ++ [(crc16 p).toUInt8, (crc16 p >>> 8).toUInt8]) := rfl

theorem trailer_eq (p : List UInt8) :
    format.trailer p = [(crc16 p).toUInt8, (crc16 p >>> 8).toUInt8] := rfl

/-- The last byte of a frame is the high byte of its checksum. -/
theorem encode_getLast? (p : List UInt8) :
    (format.encode p).getLast? = some (crc16 p >>> 8).toUInt8 := by
  have hsplit : format.encode p = (UART_PACKET_HEADER :: UInt8.ofNat p.length ::
      UInt8.ofNat (p.length / 256) :: (p ++ [(crc16 p).toUInt8])) ++
        [(crc16 p >>> 8).toUInt8] := by
    simp [encode_eq]
  rw [hsplit, List.getLast?_concat]

/-! ## Behind a byte too many -/

/-- The kept items `c` and the items `w` still to come are the stream of `qs` without its
first items, but for one item that was put back: the receiver is out of step. -/
def Late (qs : List (List UInt8)) (c w : List UInt8) : Prop :=
  ∃ pre e, pre.length ≤ 1 ∧ pre.length ≤ c.length ∧ 2 ≤ e ∧ e ≤ (format.stream qs).length ∧
    c ++ w = pre ++ (format.stream qs).drop e

/-- Dropping items keeps the receiver out of step. -/
theorem Late.drop {qs : List (List UInt8)} {x c w : List UInt8} (h : Late qs (x ++ c) w) :
    Late qs c w := by
  obtain ⟨pre, e, h1, h2, he, hlen, heq⟩ := h
  by_cases hx : x = []
  · subst hx
    exact ⟨pre, e, h1, h2, he, hlen, heq⟩
  · have hpos : 0 < x.length := List.length_pos_iff.mpr hx
    have hdrop := congrArg (List.drop x.length) heq
    rw [List.append_assoc, List.drop_left, List.drop_append, List.drop_of_length_le (by omega),
      List.nil_append, List.drop_drop] at hdrop
    have hlength := congrArg List.length heq
    simp only [List.length_append, List.length_drop] at hlength
    exact ⟨[], e + (x.length - pre.length), by simp, by simp, by omega, by omega, hdrop⟩

/-- A run of one byte in front of a list that goes on with the same list. -/
theorem shift_run (b : UInt8) (p x y : List UInt8) (h : b :: (p ++ x) = p ++ y) : b :: x = y := by
  induction p with
  | nil => exact h
  | cons a p ih =>
    rw [List.cons_append, List.cons_append, List.cons.injEq] at h
    obtain ⟨rfl, h⟩ := h
    exact ih h

/-- A receiver out of step that is given the next payload as it was sent is out of step after
it, too. -/
theorem Late.frame {p c w rest : List UInt8} {qs : List (List UInt8)}
    (hp : p.length ≤ PACKET_SIZE) (h : Late (p :: qs) c w)
    (hparse : format.parse c = .frame p rest) : Late qs rest w := by
  obtain ⟨pre, e, h1, h2, he, hlen, heq⟩ := h
  obtain ⟨junk, a, b, rfl, hjunk, hab⟩ := format.parse_frame hparse
  have htail : (format.trailer p).length = 2 := rfl
  have henc : (format.encode p).length = p.length + 5 := format.encode_length p
  have hlength := congrArg List.length heq
  rw [format.stream_cons] at heq hlen hlength
  simp only [List.length_append, List.length_cons, List.length_drop, htail, henc] at hlen hlength
  by_cases hstep : 2 ≤ e + junk.length - pre.length
  · -- The place in the stream after the frame.
    have hdrop := congrArg (List.drop (junk.length + (p.length + 5))) heq
    have hleft : (junk ++ format.header :: a :: b :: (p ++ format.trailer p ++ rest) ++ w).drop
        (junk.length + (p.length + 5)) = rest ++ w := by
      have hframe : junk ++ format.header :: a :: b :: (p ++ format.trailer p ++ rest) ++ w =
          (junk ++ format.header :: a :: b :: (p ++ format.trailer p)) ++ (rest ++ w) := by simp
      rw [hframe, List.drop_left' (by simp [htail])]
    have hright : (pre ++ (format.encode p ++ format.stream qs).drop e).drop
        (junk.length + (p.length + 5)) =
          (format.stream qs).drop (e + junk.length - pre.length) := by
      rw [List.drop_append, List.drop_of_length_le (by omega), List.nil_append, List.drop_drop,
        List.drop_append, List.drop_of_length_le (by rw [henc]; omega), List.nil_append, henc]
      congr 1
      omega
    rw [hleft, hright] at hdrop
    exact ⟨[], e + junk.length - pre.length, by simp, by simp, hstep, by omega, hdrop⟩
  · -- The byte that was put back is the header, and the frame starts behind the first size
    -- byte. Then the payload is a run of the byte that is read as its second size byte.
    have he2 : e = 2 := by omega
    have hjunk0 : junk = [] := List.length_eq_zero_iff.mp (by omega)
    obtain ⟨x, rfl⟩ : ∃ x, pre = [x] := List.length_eq_one_iff.mp (by omega)
    subst he2 hjunk0
    simp only [encode_eq, List.nil_append, List.cons_append, List.drop_succ_cons, List.drop_zero,
      List.cons.injEq, List.append_assoc] at heq
    obtain ⟨-, -, heq⟩ := heq
    have hshift := shift_run b p _ _ heq
    simp only [trailer_eq, List.cons_append, List.nil_append, List.cons.injEq] at hshift
    obtain ⟨hlo, hhi, hnext⟩ := hshift
    exfalso
    cases qs with
    | nil => cases hnext
    | cons q qs =>
      rw [format.stream_cons, encode_eq, List.cons_append, List.cons.injEq] at hnext
      have hb : b = UART_PACKET_HEADER := by rw [hlo, hhi, hnext.1]
      have hab' : a.toNat + 256 * b.toNat = p.length := hab
      have : b.toNat = 70 := by rw [hb]; rfl
      unfold PACKET_SIZE at hp
      omega

/-- A receiver out of step that has given out nothing wrong so far is out of step after all
the whole frames that it has. -/
theorem Late.drain (c : List UInt8) :
    ∀ {qs : List (List UInt8)} {w : List UInt8}, Sendable ((format.drain c).1 ++ qs) →
      Late ((format.drain c).1 ++ qs) c w → Late qs (format.drain c).2 w := by
  induction c using format.drain_induct with
  | hframe c p rest hparse ih =>
    intro qs w hsend h
    rw [format.drain_frame hparse] at h hsend ⊢
    exact ih hsend.tail (h.frame (hsend p (by simp)).2 hparse)
  | hstop c hstop =>
    intro qs w _ h
    rw [format.drain_stop hstop] at h ⊢
    exact h

/-- What it keeps then is out of step. -/
theorem Late.keep {qs : List (List UInt8)} {c rest w : List UInt8} (hc : c ≠ [])
    (hsuffix : rest <:+ c) (h : Late qs rest w) : Late qs (format.keep c rest) w := by
  unfold Format.keep
  cases hparse : format.parse rest with
  | short s =>
    obtain ⟨junk, _, rfl, _, _⟩ := format.parse_short hparse
    exact h.drop
  | damaged s =>
    obtain ⟨frame, rfl, _⟩ := format.parse_damaged hparse
    exact h.drop
  | _ =>
    -- One byte is put back: the last one of `rest`, or one that a frame ended with.
    obtain ⟨init, x, rfl⟩ := (List.eq_nil_or_concat' c).resolve_left hc
    simp only [format, true_or, if_true, List.getLast?_concat, Option.toList_some]
    rcases List.eq_nil_or_concat' rest with rfl | ⟨rest', y, rfl⟩
    · obtain ⟨pre, e, h1, h2, he, hlen, heq⟩ := h
      have hpre : pre = [] := List.length_eq_zero_iff.mp (by simpa using h2)
      subst hpre
      exact ⟨[x], e, by simp, by simp, he, hlen, by simpa using heq⟩
    · obtain ⟨z, hz⟩ := hsuffix
      rw [← List.append_assoc] at hz
      obtain ⟨-, hxy⟩ := List.append_inj' hz rfl
      cases hxy
      exact h.drop

/-- A receiver out of step does not give out the payloads that are still to come. -/
theorem Late.receiveAll (ds : List (List UInt8)) :
    ∀ {qs : List (List UInt8)} {c : List UInt8}, Sendable qs → (∀ d ∈ ds, d ≠ []) →
      Late qs c ds.flatten → (format.receiveAll c ds).1 ≠ qs := by
  induction ds with
  | nil =>
    rintro qs c _ _ ⟨pre, e, _, _, he, hlen, _⟩ rfl
    simp only [Format.receiveAll_nil, Format.stream, List.flatMap_nil, List.length_nil] at hlen
    omega
  | cons d ds ih =>
    intro qs c hsend hds h heq
    rw [format.receiveAll_cons] at heq
    subst heq
    have hd : c ++ d ≠ [] := by simp [hds d (by simp)]
    have hcd : Late ((format.receive (c ++ d)).1 ++
        (format.receiveAll (format.receive (c ++ d)).2 ds).1) (c ++ d) ds.flatten := by
      obtain ⟨pre, e, h1, h2, he, hlen, heq⟩ := h
      refine ⟨pre, e, h1, by rw [List.length_append]; omega, he, hlen, ?_⟩
      rw [← heq, List.flatten_cons, List.append_assoc]
    have hkeep := (Late.drain (c ++ d) hsend hcd).keep hd (format.drain_suffix (c ++ d))
    exact ih (fun q hq => hsend q (by simp [hq])) (fun d hd => hds d (by simp [hd])) hkeep rfl

/-! ## A header byte too many -/

/-- A header byte in front of the stream of the next frames: what is parsed is no whole frame
yet, or a frame with another payload, or it is given up and the receiver is out of step. -/
theorem parse_extra_header {q : List UInt8} {qs : List (List UInt8)} {d w : List UInt8}
    (hq : q.length ≤ PACKET_SIZE) (h : d ++ w = format.stream (q :: qs)) :
    format.parse (format.header :: d) = .short (format.header :: d) ∨
    (∃ rest, format.parse (format.header :: d) = .damaged rest ∧ Late (q :: qs) rest w) ∨
    ∃ p rest, format.parse (format.header :: d) = .frame p rest ∧ p ≠ q := by
  rw [format.parse_header]
  match d, h with
  | [], _ => exact .inl rfl
  | [_], _ => exact .inl rfl
  | x :: y :: s, h =>
    have hstream := h
    rw [format.stream_cons, encode_eq] at h
    simp only [List.cons_append, List.cons.injEq] at h
    obtain ⟨rfl, rfl, -⟩ := h
    -- The header byte of the frame is read as the first size byte.
    generalize hn : format.length UART_PACKET_HEADER (UInt8.ofNat q.length) = n
    have hn' : n = 70 + 256 * (q.length % 256) := by
      rw [← hn]
      simp only [format, UInt8.toNat_ofNat']
      rfl
    simp only [Format.body, hn]
    by_cases hshort : s.length < n + format.trailerLength
    · rw [if_pos hshort]
      exact .inl rfl
    · rw [if_neg hshort]
      have htail : format.trailerLength = 2 := rfl
      by_cases htrailer : (s.drop n).take format.trailerLength = format.trailer (s.take n)
      · rw [if_pos htrailer]
        refine .inr (.inr ⟨_, _, rfl, ?_⟩)
        intro heq
        have hlen : q.length = n := by
          rw [← heq, List.length_take]
          omega
        unfold PACKET_SIZE at hq
        omega
      · rw [if_neg htrailer]
        refine .inr (.inl ⟨_, rfl, [], n + 4, by simp, by simp, by omega, ?_, ?_⟩)
        · rw [← hstream]
          simp only [List.length_append, List.length_cons]
          omega
        · rw [← hstream, List.nil_append, htail, List.drop_append_of_le_length (by simp; omega)]
          rfl

/-- A receiver that took a header byte too many does not give out the payloads that are still
to come. -/
theorem extra_header_receiveAll (ds : List (List UInt8)) :
    ∀ {q : List UInt8} {qs : List (List UInt8)} {d : List UInt8}, Sendable (q :: qs) →
      (∀ x ∈ ds, x ≠ []) → d ++ ds.flatten = format.stream (q :: qs) →
      (format.receiveAll (format.header :: d) ds).1 ≠ q :: qs := by
  induction ds with
  | nil =>
    intro q qs d _ _ _ heq
    cases heq
  | cons x ds ih =>
    intro q qs d hsend hds h heq
    have hds' : ∀ x ∈ ds, x ≠ [] := fun x hx => hds x (by simp [hx])
    rw [List.flatten_cons, ← List.append_assoc] at h
    rw [format.receiveAll_cons, List.cons_append] at heq
    rcases parse_extra_header (hsend q (by simp)).2 h with hparse | ⟨rest, hparse, hlate⟩ |
      ⟨p, rest, hparse, hne⟩
    · have hreceive : format.receive (format.header :: (d ++ x)) =
          ([], format.header :: (d ++ x)) := by
        rw [Format.receive, format.drain_stop (by simp [hparse])]
        simp only [Format.keep, hparse]
      rw [hreceive] at heq
      exact ih hsend hds' h heq
    · have hreceive : format.receive (format.header :: (d ++ x)) = ([], rest) := by
        rw [Format.receive, format.drain_stop (by simp [hparse])]
        simp only [Format.keep, hparse]
      rw [hreceive] at heq
      exact hlate.receiveAll ds hsend hds' heq
    · rw [Format.receive, format.drain_frame hparse, List.cons_append, List.cons.injEq] at heq
      exact hne heq.1

/-! ## A bad cut -/

/-- If the payloads are given out as they were sent, and no header byte is left over, then no
read ended at the end of a frame that ends like a header. -/
theorem goodCuts_of_receiveAll {ps : List (List UInt8)} (hps : Sendable ps)
    {ds : List (List UInt8)} (hds : ∀ d ∈ ds, d ≠ []) (junk c : List UInt8)
    (hjunk : format.header ∉ junk) (hc : c = [] ∨ format.parse c = .short c)
    (h : c ++ ds.flatten = format.stream ps) (hout : (format.receiveAll (junk ++ c) ds).1 = ps)
    (hleft : (format.receiveAll (junk ++ c) ds).2 ≠ [format.header]) :
    format.GoodCuts c ds ps := by
  induction ds generalizing ps junk c with
  | nil =>
    intro ds1 ds2 ps1 p ps2 hds hps12 hstream
    obtain ⟨rfl, rfl⟩ := List.append_eq_nil_iff.mp hds.symm
    rw [List.flatten_nil, List.append_nil] at hstream h
    rw [format.receiveAll_nil] at hout
    subst hout
    simp at hps12
  | cons d ds ih =>
    have hd : d ≠ [] := hds d (by simp)
    have hds' : ∀ d ∈ ds, d ≠ [] := fun d hd => hds d (by simp [hd])
    rw [List.flatten_cons, ← List.append_assoc] at h
    obtain ⟨ps1, ps2, rest, rfl, hc1, hd1, hrest, hreceive⟩ := format.receive_stream hps.maxLength h
    have hps2 : Sendable ps2 := fun p hp => hps p (by simp [hp])
    have hkeeps : format.keepsLast = true := rfl
    rw [format.receiveAll_cons, List.append_assoc,
      format.receive_junk (c ++ d) hjunk (by simp [hd]), hreceive] at hout hleft
    replace hout := List.append_cancel_left hout
    dsimp only at hleft
    by_cases hempty : rest = []
    · -- The read ends where a frame ends, and the last byte of that frame is kept.
      subst hempty
      rw [if_pos ⟨rfl, hkeeps⟩] at hout hleft
      rw [List.append_nil] at hc1
      obtain ⟨init, p, rfl⟩ : ∃ init p, ps1 = init ++ [p] := by
        rcases List.eq_nil_or_concat' ps1 with rfl | ⟨init, p, rfl⟩
        · exact absurd hc1 (by simp [Format.stream, hd])
        · exact ⟨init, p, rfl⟩
      have hbyte : (c ++ d).getLast?.toList = [(crc16 p >>> 8).toUInt8] := by
        rw [hc1, format.stream_getLast?, encode_getLast?, Option.toList_some]
      rw [hbyte] at hout hleft
      by_cases hheader : (crc16 p >>> 8).toUInt8 = format.header
      · rw [hheader] at hout hleft
        exfalso
        cases ps2 with
        | nil =>
          have hds0 : ds = [] := by
            cases ds with
            | nil => rfl
            | cons x ds =>
              have hx : x ≠ [] := hds' x (by simp)
              exact absurd hd1 (by simp [Format.stream, hx])
          subst hds0
          exact hleft rfl
        | cons q qs => exact extra_header_receiveAll ds hps2 hds' hd1 hout
      · have hjunk' : format.header ∉ [(crc16 p >>> 8).toUInt8] := by
          simpa using fun hh => hheader hh.symm
        have hgood := ih hps2 hds' [(crc16 p >>> 8).toUInt8] [] hjunk' (.inl rfl) hd1
          hout hleft
        have hcd : c ++ d = format.stream (init ++ [p]) ++ [] := by rw [hc1, List.append_nil]
        refine Format.GoodCuts.cons format hps.maxLength hc hcd ?_ hgood
        intro _ init' p' hp
        obtain ⟨-, hpp⟩ := List.append_inj' hp rfl
        cases hpp
        rw [encode_getLast?]
        simpa using hheader
    · rw [if_neg (by simp [hempty])] at hout hleft
      have hgood := ih hps2 hds' [] rest (by simp) hrest hd1 hout hleft
      exact Format.GoodCuts.cons format hps.maxLength hc hc1 (fun hr => absurd hr hempty) hgood

end dect_prog.flashloader
