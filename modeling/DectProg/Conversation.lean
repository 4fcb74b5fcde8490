-- What the PROG mode writes to the tty (boot.c, preloader.c, flashloader.c and
-- the loop of main.c), for whatever is read: the left column of the chart in
-- preloader.c, then the requests of the flash loader in their frames.
import DectProg.FlashContents
import DectProg.Handshakes

open framing dect_prog.package dect_prog.buffer dect_prog.event_loop

namespace dect_prog.package

variable {σ : Type} {Inv : σ → Prop}

/-- What each dispatch keeps, also one that ends the process, a package handler keeps. -/
theorem process_last {get : Nat → packet_t → buffer_t → Option (Int × packet_t × buffer_t)}
    {dispatch : σ → packet_t → Outcome σ}
    (hstep : ∀ s p s', Inv s → (dispatch s p).last = some s' → Inv s') (fuel : Nat) :
    ∀ (i : Nat) (s s' : σ) (p : packet_t) (b b' : buffer_t), Inv s →
      (process get dispatch fuel i s p b).last = some (s', b') → Inv s' := by
  induction fuel with
  | zero =>
    intro i s s' p b b' _ h
    cases h
  | succ fuel ih =>
    intro i s s' p b b' hs h
    simp only [process] at h
    split at h
    · cases h
    · rename_i ret p1 b1 _
      split at h
      · cases hdispatch : dispatch s p1 with
        | running s1 =>
          rw [hdispatch] at h
          exact ih _ _ _ _ _ _ (hstep s p1 s1 hs (by rw [hdispatch]; rfl)) h
        | exited status s1 =>
          rw [hdispatch] at h
          cases h
          exact hstep s p1 s' hs (by rw [hdispatch]; rfl)
        | aborted s1 =>
          rw [hdispatch] at h
          cases h
          exact hstep s p1 s' hs (by rw [hdispatch]; rfl)
        | undefined =>
          rw [hdispatch] at h
          cases h
      · cases h
        exact hs

theorem handlePackage_last
    {get : Locals → packet_t → buffer_t → Option (Int × packet_t × buffer_t)}
    {dispatch : σ → packet_t → Outcome σ}
    (hstep : ∀ s p s', Inv s → (dispatch s p).last = some s' → Inv s') {s s' : σ}
    {b b' : buffer_t} {e : Event} (hs : Inv s)
    (h : (handlePackage get dispatch s b e).last = some (s', b')) : Inv s' := by
  unfold handlePackage at h
  split at h
  · cases h
  · exact process_last hstep _ _ _ _ _ _ _ hs h

end dect_prog.package

namespace dect_prog.flashloader

/-- The loader has the image `pr`, and wrote requests for it behind `front`. -/
def Wrote (pr : bin_img) (front : List UInt8) (l : Loader) : Prop :=
  l.pr = pr ∧
    ∃ rs : List (List UInt8), l.tty = front ++ rs.flatMap make_tx_packet ∧ ∀ r ∈ rs, Asks pr r

theorem dispatch_last {l l' : Loader} {p : packet_t}
    (h : (flashloader_dispatch l p).last = some l') :
    l' = l ∨ flashloader_dispatch l p = .running l' := by
  cases hdispatch : flashloader_dispatch l p with
  | running l1 =>
    rw [hdispatch] at h
    cases h
    exact .inr rfl
  | exited status l1 =>
    rw [hdispatch] at h
    cases h
    exact .inl (exit_sends_nothing hdispatch)
  | aborted l1 =>
    -- No dispatch fails an assertion.
    exfalso
    have hreturns : ∀ o, returns o ≠ .aborted l1 := by
      intro o ho
      cases o <;> cases ho
    rcases confirm_cases p with hp | hp | hp | hp | hp | hp | hp
    · rw [dispatch_version hp] at hdispatch
      cases hdispatch
    · rw [dispatch_config hp] at hdispatch
      cases hdispatch
    · rw [dispatch_flash_type hp] at hdispatch
      exact hreturns _ hdispatch
    · rw [dispatch_erase hp] at hdispatch
      exact hreturns _ hdispatch
    · rw [dispatch_program hp] at hdispatch
      exact hreturns _ hdispatch
    · rw [dispatch_checksum hp, calc_crc32_cfm] at hdispatch
      split at hdispatch <;> cases hdispatch
    · rw [dispatch_unknown hp] at hdispatch
      cases hdispatch
  | undefined =>
    rw [hdispatch] at h
    cases h

theorem Wrote.dispatch {pr : bin_img} {front : List UInt8} (l : Loader) (p : packet_t) (l' : Loader)
    (h : Wrote pr front l) (hlast : (flashloader_dispatch l p).last = some l') :
    Wrote pr front l' := by
  rcases dispatch_last hlast with rfl | hrunning
  · exact h
  · have hs := dispatch_sends hrunning
    obtain ⟨hpr, rs, htty, hrs⟩ := h
    refine ⟨hs.pr.trans hpr, rs ++ sent l l', ?_, ?_⟩
    · rw [hs.tty.1, htty, List.flatMap_append, List.append_assoc]
    · intro r hr
      rcases List.mem_append.mp hr with hr | hr
      · exact hrs r hr
      · rw [← hpr]
        exact hs.asks r hr

end dect_prog.flashloader

namespace dect_prog.main

/-! ## The conversation -/

/-- What the code writes at a time. -/
inductive Piece
  | size
  | preloader
  | acknowledge
  | baud
  | flashloader
  | request (r : List UInt8)
  /-- What the stack held for a reply before the first read. -/
  | left
  deriving DecidableEq

def Piece.bytes (files : Files) (e0 : event_t) : Piece → List UInt8
  | .size =>
    [SOH, UInt8.ofNat files.PreBootPrgm441_20MHz.length,
      UInt8.ofNat (files.PreBootPrgm441_20MHz.length / 256)]
  | .preloader => files.PreBootPrgm441_20MHz
  | .acknowledge => [ACK, PRELOADER_START]
  | .baud => [PRELOADER_BAUD_230400, PRELOADER_NEW_BAUDRATE]
  | .flashloader =>
    [UInt8.ofNat (files.FlashLoader441.length / 256), UInt8.ofNat files.FlashLoader441.length] ++
      files.FlashLoader441
  | .request r => dect_prog.flashloader.make_tx_packet r
  | .left => e0.out.take e0.outcount.toNat

/-- The image that the flash loader has of target.bin. -/
def Image (files : Files) (pr : dect_prog.flashloader.bin_img) : Prop :=
  (dect_prog.flashloader.read_firmware files.target_bin files.behind.1 files.behind.2.1
    files.behind.2.2).bind dect_prog.flashloader.calculate_checksum = some pr

/-- The conversations that end in a state, and the speed of the tty then. -/
inductive Conversation (files : Files) : states → Nat → List Piece → Prop
  | start : Conversation files .BOOT_STATE 19200 []
  | boot {w : List Piece} {p : Piece} (h : Conversation files .BOOT_STATE 19200 w)
      (hp : p ∈ [Piece.size, .preloader, .left]) : Conversation files .BOOT_STATE 19200 (w ++ [p])
  | acknowledged {w : List Piece} (h : Conversation files .BOOT_STATE 19200 w) :
      Conversation files .PRELOADER_STATE 9600 (w ++ [.acknowledge])
  | baud {w : List Piece} {n : Nat} (h : Conversation files .PRELOADER_STATE n w) :
      Conversation files .PRELOADER_STATE 230400 (w ++ [.baud])
  | preloader {w : List Piece} {n : Nat} {p : Piece} (h : Conversation files .PRELOADER_STATE n w)
      (hp : p ∈ [Piece.flashloader, .left]) : Conversation files .PRELOADER_STATE n (w ++ [p])
  | loaded {w : List Piece} {n : Nat} (h : Conversation files .PRELOADER_STATE n w) :
      Conversation files .FLASHLOADER_STATE n
        (w ++ [.request [dect_prog.flashloader.READ_SW_VERSION_REQ]])
  | asks {w : List Piece} {n : Nat} {pr : dect_prog.flashloader.bin_img} {r : List UInt8}
      (h : Conversation files .FLASHLOADER_STATE n w) (hpr : Image files pr)
      (hr : dect_prog.flashloader.Asks pr r) :
      Conversation files .FLASHLOADER_STATE n (w ++ [.request r])

variable {files : Files} {e0 e e1 : event_t} {m m1 m' : Main} {w w1 : List Piece} {ev : Event}
  {a : Arrival} {as : List Arrival}

/-- The bytes on the tty are those of the conversation. -/
structure Speaks (files : Files) (e0 : event_t) (m : Main) (w : List Piece) : Prop where
  conversation : Conversation files m.current_state m.baud w
  tty : m.tty = w.flatMap (Piece.bytes files e0)

/-- One more piece. -/
theorem Speaks.append (h : Speaks files e0 m w) {p : Piece}
    (hconv : Conversation files m'.current_state m'.baud (w ++ [p]))
    (htty : m'.tty = m.tty ++ p.bytes files e0) : Speaks files e0 m' (w ++ [p]) := by
  refine ⟨hconv, ?_⟩
  rw [htty, h.tty, List.flatMap_append, List.flatMap_cons, List.flatMap_nil, List.append_nil]

/-- An image that was read is sent as a whole. -/
theorem image_whole (array : List UInt8) :
    (calculate_checksum (readImage array)).img.take
      (calculate_checksum (readImage array)).size.toNat = array :=
  List.take_of_length_le (Nat.le_of_eq rfl)

theorem Conversation.boot_baud {n : Nat} (h : Conversation files .BOOT_STATE n w) : n = 19200 := by
  cases h <;> rfl

/-! ## The handlers -/

/-- What holds between two reads. -/
structure Talks (files : Files) (e0 : event_t) (m : Main) (w : List Piece) : Prop where
  spoken : Speaks files e0 m w
  loaded : Loaded files m
  loader : m.current_state = .FLASHLOADER_STATE →
    ∃ l b, m.loader = some (l, b) ∧ Image files l.pr

/-- A handler that leaves the reply as it is. -/
structure Handled (files : Files) (e0 : event_t) (w : List Piece) (m1 : Main) (w1 : List Piece) :
    Prop where
  talks : Talks files e0 m1 w1
  left : w1.count .left = w.count .left

theorem count_left {p : Piece} (hp : p ≠ .left) (w : List Piece) :
    (w ++ [p]).count .left = w.count .left := by
  rw [List.count_append, List.count_singleton, if_neg (by simpa using hp), Nat.add_zero]

theorem boot_handled (h : Talks files e0 m w) (hs : m.current_state = .BOOT_STATE) (b : UInt8) :
    ∃ w1, Handled files e0 w (boot.serves files m b) w1 ∧
      (boot.serves files m b).current_state ≠ .FLASHLOADER_STATE := by
  have hl := h.loaded
  have hconv := h.spoken.conversation
  rw [Loaded, hs] at hl
  rw [hs] at hconv
  have hbaud := hconv.boot_baud
  rw [hbaud] at hconv
  unfold boot.serves
  by_cases hack : b = ACK
  · rw [if_pos hack]
    refine ⟨w ++ [.preloader], ⟨⟨h.spoken.append ?_ ?_, h.loaded, h.loader⟩,
      count_left (by simp) w⟩, ?_⟩
    · show Conversation files m.current_state m.baud _
      rw [hs, hbaud]
      exact .boot hconv (by simp)
    · show m.tty ++ m.preloader.img.take m.preloader.size.toNat = _
      rw [hl, read_preloader, image_whole]
      rfl
    · show m.current_state ≠ _
      rw [hs]
      decide
  rw [if_neg hack]
  by_cases hmoves : boot.Moves files b
  · rw [if_pos hmoves]
    have hspoken : Speaks files e0 (init_preloader_state files
        (state_add_handler (boot.send_ack m) .PRELOADER_STATE)) (w ++ [.acknowledge]) :=
      h.spoken.append (.acknowledged hconv) (List.append_assoc m.tty [ACK] [PRELOADER_START])
    refine ⟨w ++ [.acknowledge], ⟨⟨hspoken, rfl, fun hstate => (by cases hstate)⟩,
      count_left (by simp) w⟩, ?_⟩
    show states.PRELOADER_STATE ≠ states.FLASHLOADER_STATE
    decide
  · rw [if_neg hmoves]
    refine ⟨w, ⟨h, rfl⟩, ?_⟩
    rw [hs]
    decide

theorem initLoader_image {tty : List UInt8} {l : dect_prog.flashloader.Loader} {b : buffer_t}
    (h : initLoader files tty = some (l, b)) : Image files l.pr ∧
      l.tty = tty ++ dect_prog.flashloader.make_tx_packet
        [dect_prog.flashloader.READ_SW_VERSION_REQ] := by
  simp only [initLoader, flashloader.init_flashloader_state, Option.bind_eq_bind,
    Option.bind_eq_some_iff] at h
  obtain ⟨l', ⟨pr, hread, pr', hsum, hl⟩, buf, -, h⟩ := h
  cases hl
  cases h
  refine ⟨?_, rfl⟩
  unfold Image
  rw [hread, Option.bind_some, hsum]

theorem preloader_handled (h : Talks files e0 m w) (hs : m.current_state = .PRELOADER_STATE)
    {b : UInt8} (hlast : (preloader.serves files m b).last = some m1) :
    ∃ w1, Handled files e0 w m1 w1 := by
  have hl := h.loaded
  have hconv := h.spoken.conversation
  rw [Loaded, hs] at hl
  rw [hs] at hconv
  unfold preloader.serves at hlast
  by_cases hready : b = PRELOADER_READY
  · rw [if_pos hready] at hlast
    cases hlast
    refine ⟨w ++ [.baud], ⟨h.spoken.append ?_ ?_, h.loaded, h.loader⟩, count_left (by simp) w⟩
    · show Conversation files m.current_state 230400 _
      rw [hs]
      exact .baud hconv
    · exact List.append_assoc m.tty [PRELOADER_BAUD_230400] [PRELOADER_NEW_BAUDRATE]
  rw [if_neg hready] at hlast
  by_cases hnew : b = PRELOADER_NEW_BAUDRATE_READY
  · rw [if_pos hnew] at hlast
    cases hlast
    refine ⟨w ++ [.flashloader], ⟨h.spoken.append ?_ ?_, h.loaded, h.loader⟩,
      count_left (by simp) w⟩
    · show Conversation files m.current_state m.baud _
      rw [hs]
      exact .preloader hconv (by simp)
    · show m.tty ++ [m.flashloader.size_msb, m.flashloader.size_lsb] ++
        m.flashloader.img.take m.flashloader.size.toNat = _
      rw [hl, read_flashloader, image_whole, List.append_assoc]
      rfl
  rw [if_neg hnew] at hlast
  by_cases hmoves : preloader.Moves files b
  · rw [if_pos hmoves, init_flashloader_state] at hlast
    cases hinit : initLoader files (state_add_handler m .FLASHLOADER_STATE).tty with
    | none =>
      rw [hinit] at hlast
      cases hlast
    | some r =>
      obtain ⟨l, buf⟩ := r
      rw [hinit] at hlast
      cases hlast
      obtain ⟨himage, htty⟩ := initLoader_image hinit
      exact ⟨_, ⟨h.spoken.append (.loaded hconv) htty, trivial, fun _ => ⟨l, buf, rfl, himage⟩⟩,
        count_left (by simp) w⟩
  · rw [if_neg hmoves] at hlast
    cases hlast
    exact ⟨w, h, rfl⟩

/-- Requests in their frames, one after the other. -/
theorem Conversation.requests {n : Nat} {pr : dect_prog.flashloader.bin_img}
    (h : Conversation files .FLASHLOADER_STATE n w) (hpr : Image files pr) (rs : List (List UInt8))
    (hrs : ∀ r ∈ rs, dect_prog.flashloader.Asks pr r) :
    Conversation files .FLASHLOADER_STATE n (w ++ rs.map .request) := by
  induction rs generalizing w with
  | nil => simpa using h
  | cons r rs ih =>
    obtain ⟨hr, hrs⟩ := List.forall_mem_cons.mp hrs
    have := ih (h.asks hpr hr) hrs
    rwa [List.append_assoc] at this

theorem last_map {α β : Type} {f : α → β} {o : Outcome α} {b : β} (h : (o.map f).last = some b) :
    ∃ a, o.last = some a ∧ f a = b := by
  cases o with
  | undefined => cases h
  | running a | exited _ a | aborted a =>
    cases h
    exact ⟨a, rfl, rfl⟩

theorem flashloader_handled (h : Talks files e0 m w) (hs : m.current_state = .FLASHLOADER_STATE)
    (hlast : (handle_flashloader_package m e ev).last = some (m1, e1)) :
    e1 = e ∧ ∃ w1, Handled files e0 w m1 w1 := by
  obtain ⟨l, b, hloader, himage⟩ := h.loader hs
  simp only [handle_flashloader_package, silent, hloader] at hlast
  obtain ⟨m2, hcall, heq⟩ := last_map hlast
  cases heq
  obtain ⟨⟨l', b'⟩, hpackage, rfl⟩ := last_map hcall
  have hwrote : dect_prog.flashloader.Wrote l.pr m.tty { l with tty := m.tty } :=
    ⟨rfl, [], (List.append_nil _).symm, fun r hr => (by cases hr)⟩
  obtain ⟨hpr, rs, htty, hrs⟩ :=
    handlePackage_last dect_prog.flashloader.Wrote.dispatch hwrote hpackage
  have hconv := h.spoken.conversation
  rw [hs] at hconv
  refine ⟨rfl, w ++ rs.map .request, ⟨⟨?_, ?_⟩, ?_, fun _ => ⟨l', b', rfl, ?_⟩⟩, ?_⟩
  · show Conversation files m.current_state m.baud _
    rw [hs]
    exact hconv.requests himage rs hrs
  · show l'.tty = _
    rw [htty, h.spoken.tty, List.flatMap_append, List.flatMap_map]
    rfl
  · unfold Loaded
    rw [show ({ m with loader := some (l', b'), tty := l'.tty } : Main).current_state = _ from hs]
    trivial
  · rw [hpr]
    exact himage
  · rw [List.count_append, Nat.add_eq_left, List.count_eq_zero]
    simp

theorem handled (h : Talks files e0 m w)
    (hlast : (state_event_handler files m e ev).last = some (m1, e1)) :
    (m.current_state = .BOOT_STATE ∧ in0 ev = STX) ∨ e1 = e ∧ ∃ w1, Handled files e0 w m1 w1 := by
  have hl := h.loaded
  cases hs : m.current_state with
  | BOOT_STATE =>
    by_cases hstx : in0 ev = STX
    · exact .inl ⟨rfl, hstx⟩
    rw [Loaded, hs] at hl
    simp only [state_event_handler, hs, boot_handles hl, if_neg hstx] at hlast
    cases hlast
    obtain ⟨w1, h1, -⟩ := boot_handled h hs (in0 ev)
    exact .inr ⟨rfl, w1, h1⟩
  | PRELOADER_STATE =>
    rw [Loaded, hs] at hl
    simp only [state_event_handler, hs, preloader_handles hl] at hlast
    obtain ⟨m2, hserves, heq⟩ := last_map hlast
    cases heq
    exact .inr ⟨rfl, preloader_handled h hs hserves⟩
  | FLASHLOADER_STATE =>
    simp only [state_event_handler, hs] at hlast
    exact .inr (flashloader_handled h hs hlast)

/-! ## The turns -/

theorem Talks.write_nil (h : Talks files e0 m w) : Talks files e0 (m.write []) w := by
  rw [show m.write [] = m from (progMode files).write_nil m]
  exact h

/-- The reply that no handler set. -/
theorem Talks.write_left (h : Talks files e0 m w) (hs : m.current_state ≠ .FLASHLOADER_STATE) :
    Talks files e0 (m.write (Piece.left.bytes files e0)) (w ++ [.left]) := by
  refine ⟨h.spoken.append ?_ rfl, h.loaded, fun hstate => absurd hstate hs⟩
  have hconv := h.spoken.conversation
  show Conversation files m.current_state m.baud _
  cases hstate : m.current_state with
  | BOOT_STATE =>
    rw [hstate] at hconv
    have hbaud := hconv.boot_baud
    rw [hbaud] at hconv ⊢
    exact .boot hconv (by simp)
  | PRELOADER_STATE =>
    rw [hstate] at hconv
    exact .preloader hconv (by simp)
  | FLASHLOADER_STATE => exact absurd hstate hs

/-- The turn in which the size is asked for, whatever the event is. -/
theorem Talks.size (h : Talks files e0 m w) (hs : m.current_state = .BOOT_STATE)
    (hstx : in0 (read e a) = STX) (hlast : (mainStep (progMode files) m e a).last = some m') :
    Talks files e0 m' (w ++ [.size]) := by
  have hreplies : boot.replies m e (in0 (read e a)) =
      some [SOH, m.preloader.size_lsb, m.preloader.size_msb] := if_pos hstx
  rw [boot_turn h.loaded hs hreplies, hstx, boot_serves_stx] at hlast
  cases hlast
  have hl := h.loaded
  have hconv := h.spoken.conversation
  rw [Loaded, hs] at hl
  rw [hs] at hconv
  have hbaud := hconv.boot_baud
  rw [hbaud] at hconv
  refine ⟨h.spoken.append ?_ ?_, h.loaded, fun hstate => ?_⟩
  · show Conversation files m.current_state m.baud _
    rw [hs, hbaud]
    exact .boot hconv (by simp)
  · rw [hl]
    rfl
  · exact absurd (hs.symm.trans hstate) (by decide)

/-- The reply is written after a handler that returned. -/
theorem mainStep_last (h : (mainStep (progMode files) m e a).last = some m') :
    ∃ m1 e1, (state_event_handler files m e (read e a)).last = some (m1, e1) ∧
      (m' = m1 ∨ ∃ bytes, reply e1 = some bytes ∧ m' = m1.write bytes) := by
  cases hstep : mainStep (progMode files) m e a with
  | running m2 =>
    rw [hstep] at h
    cases h
    obtain ⟨m1, e1, bytes, hcall, hreply, rfl⟩ := mainStep_running hstep
    exact ⟨m1, e1, by rw [show state_event_handler files m e (read e a) = _ from hcall]; rfl,
      .inr ⟨bytes, hreply, rfl⟩⟩
  | exited status m2 =>
    rw [hstep] at h
    cases h
    obtain ⟨e1, hcall⟩ := mainStep_exited hstep
    exact ⟨m', e1, by rw [show state_event_handler files m e (read e a) = _ from hcall]; rfl,
      .inl rfl⟩
  | aborted m2 =>
    rw [hstep] at h
    cases h
    obtain ⟨e1, hcall⟩ := mainStep_aborted hstep
    exact ⟨m', e1, by rw [show state_event_handler files m e (read e a) = _ from hcall]; rfl,
      .inl rfl⟩
  | undefined =>
    rw [hstep] at h
    cases h

/-- One turn, when nothing was left to reply. -/
theorem Talks.turn (h : Talks files e0 m w)
    (hlast : (mainStep (progMode files) m .cleared a).last = some m') :
    ∃ w', Handled files e0 w m' w' := by
  obtain ⟨m1, e1, hcall, hwrites⟩ := mainStep_last hlast
  rcases handled h hcall with ⟨hs, hstx⟩ | ⟨rfl, w1, h1⟩
  · exact ⟨w ++ [.size], h.size hs hstx hlast, count_left (by simp) w⟩
  · rcases hwrites with rfl | ⟨bytes, hreply, rfl⟩
    · exact ⟨w1, h1⟩
    · cases reply_cleared.symm.trans hreply
      exact ⟨w1, h1.talks.write_nil, h1.left⟩

/-- The first turn. -/
theorem first_turn (hlast : (mainStep (progMode files) (progInit files) e0 a).last = some m') :
    ∃ w', Talks files e0 m' w' ∧ w'.count .left ≤ 1 := by
  have h : Talks files e0 (progInit files) [] :=
    ⟨⟨.start, rfl⟩, rfl, fun hs => (by cases hs)⟩
  by_cases hstx : in0 (read e0 a) = STX
  · exact ⟨[.size], h.size rfl hstx hlast, by decide⟩
  by_cases hcount : e0.outcount ≤ BUF_SIZE
  · have hreplies : boot.replies (progInit files) e0 (in0 (read e0 a)) =
        some (Piece.left.bytes files e0) := (if_neg hstx).trans (reply_some hcount)
    obtain ⟨w1, h1, hstate⟩ := boot_handled h rfl (in0 (read e0 a))
    rw [boot_turn h.loaded rfl hreplies] at hlast
    cases hlast
    refine ⟨w1 ++ [.left], h1.talks.write_left hstate, ?_⟩
    rw [List.count_append, h1.left]
    decide
  · rw [boot_turn_undefined h.loaded rfl hstx (Int.not_le.mp hcount)] at hlast
    cases hlast

theorem Talks.run (as : List Arrival) : ∀ {m : Main} {w : List Piece}, Talks files e0 m w →
    (mainLoop (progMode files) m .cleared as).last = some m' →
    ∃ w', Handled files e0 w m' w' := by
  induction as with
  | nil =>
    intro m w h hlast
    cases hlast
    exact ⟨w, h, rfl⟩
  | cons a as ih =>
    intro m w h hlast
    rcases mainLoop_last hlast with ⟨m1, hstep, hrest⟩ | hstep
    · have hlast1 : (mainStep (progMode files) m .cleared a).last = some m1 := by
        rw [hstep]
        rfl
      obtain ⟨w1, h1⟩ := h.turn hlast1
      obtain ⟨w', h'⟩ := ih h1.talks hrest
      exact ⟨w', h'.talks, h'.left.trans h1.left⟩
    · exact h.turn hstep

/-! ## The law -/

/-- Whatever is read, and whatever the stack held before: what the PROG mode wrote is a conversation,
in the state and at the speed that it is in, also when the process has ended. What the stack held in
the reply was written once at most. (A count beyond the array has no defined end but where the size
is asked for.) -/
theorem the_prog_mode_keeps_to_the_conversation (files : Files) (e0 : event_t) (as : List Arrival)
    (m : Main) (h : (mainLoop (progMode files) (progInit files) e0 as).last = some m) :
    ∃ w, Conversation files m.current_state m.baud w ∧
      m.tty = w.flatMap (Piece.bytes files e0) ∧ w.count .left ≤ 1 := by
  cases as with
  | nil =>
    cases h
    exact ⟨[], .start, rfl, by decide⟩
  | cons a as =>
    rcases mainLoop_last h with ⟨m1, hstep, hrest⟩ | hstep
    · have hlast1 : (mainStep (progMode files) (progInit files) e0 a).last = some m1 := by
        rw [hstep]
        rfl
      obtain ⟨w1, h1, hleft1⟩ := first_turn hlast1
      obtain ⟨w, hw⟩ := h1.run as hrest
      exact ⟨w, hw.talks.spoken.conversation, hw.talks.spoken.tty,
        Nat.le_trans (Nat.le_of_eq hw.left) hleft1⟩
    · obtain ⟨w, hw, hleft⟩ := first_turn hstep
      exact ⟨w, hw.spoken.conversation, hw.spoken.tty, hleft⟩

theorem ack_in_front_length :
    (ACK :: List.replicate (BUF_SIZE - 1) (0 : UInt8)).length = BUF_SIZE := by
  rw [List.length_cons, List.length_replicate]
  exact Nat.sub_add_cancel (by decide)

/-- An event in which the stack held an acknowledgement and a reply of one byte. -/
def leftBehind : event_t where
  input := ACK :: List.replicate (BUF_SIZE - 1) 0
  out := List.replicate BUF_SIZE 0xAA
  outcount := 1
  input_length := ack_in_front_length
  out_length := List.length_replicate

/-- A read that fails. -/
def failing : Arrival where
  received := none
  received_le := fun _ hbytes => by cases hbytes
  packet := blank
  locals := (eventOf []).locals

/-- The first read fails, and the preloader of one byte is written all the same. Then its checksum is
read. -/
theorem the_prog_mode_keeps_to_the_conversation_after_a_failing_read :
    ∃ m w, mainLoop (progMode ⟨[0x5A], [0x77], [1], 0, 0, 0⟩)
        (progInit ⟨[0x5A], [0x77], [1], 0, 0, 0⟩) leftBehind
        [failing, arrivalOf [0x5A] (short_le (by decide))] = .running m ∧
      m.tty = [0x5A, 0xAA, ACK, PRELOADER_START] ∧
      Conversation ⟨[0x5A], [0x77], [1], 0, 0, 0⟩ .PRELOADER_STATE m.baud w ∧
      m.tty = w.flatMap (Piece.bytes ⟨[0x5A], [0x77], [1], 0, 0, 0⟩ leftBehind) := by
  generalize hfiles : (⟨[0x5A], [0x77], [1], 0, 0, 0⟩ : Files) = files
  have hmoves : boot.Moves files 0x5A := by
    rw [← hfiles]
    decide
  have hack : in0 (read leftBehind failing) = ACK := by
    show (overwrite leftBehind.input 0 []).headD 0 = ACK
    rw [overwrite_nil]
    rfl
  have hleft : boot.replies (progInit files) leftBehind (in0 (read leftBehind failing)) =
      some [0xAA] := by
    rw [boot.replies, hack, if_neg (by decide), reply_some (by decide)]
    show some ((List.replicate BUF_SIZE 0xAA).take 1) = some [0xAA]
    rw [List.take_replicate]
    rfl
  have hloaded : Loaded files (progInit files) := rfl
  have hfirst := boot_turn hloaded rfl hleft
  rw [hack, boot.serves, if_pos rfl] at hfirst
  have hchk : in0 (read .cleared (arrivalOf [0x5A] (short_le (by decide)))) = 0x5A := in0_read rfl
  have hnone : ∀ m, boot.replies m .cleared
      (in0 (read .cleared (arrivalOf [0x5A] (short_le (by decide))))) = some [] := by
    intro m
    rw [boot.replies, hchk, if_neg (by decide), reply_cleared]
  have hsecond := boot_turn (m := (boot.send_preloader (progInit files)).write [0xAA]) hloaded rfl
    (hnone _)
  rw [hchk, boot.serves, if_neg (by decide), if_pos hmoves] at hsecond
  have hrun := (mainLoop_cons hfirst).trans (mainLoop_one.trans hsecond)
  obtain ⟨w, hconv, htty, -⟩ := the_prog_mode_keeps_to_the_conversation files leftBehind _ _
    (congrArg Outcome.last hrun)
  refine ⟨_, w, hrun, ?_, hconv, htty⟩
  rw [← hfiles]
  rfl

end dect_prog.main
