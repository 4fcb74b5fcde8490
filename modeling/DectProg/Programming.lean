-- PROG mode and its target as one system, from the first byte of the boot ROM to
-- the exit of the process: what the target sends lies on a line, and each read of
-- `main` takes some bytes off it. The target plays its part of the chart in
-- preloader.h, and then answers the requests of the flash loader.
import DectProg.Conversation
import DectProg.ErrorDetection
import DectProg.FlashReceive
import DectProg.Flashing
import DectProg.ImageChecksum

open machine tape framing dect_prog.package dect_prog.buffer dect_prog.event_loop dect_prog.main
open dect_prog.flashloader (Loader Asked Answers Image image effect sent Sends format confirmFor
  UART_PACKET_HEADER READ_SW_VERSION_REQ PROG_FLASH_CFM CALC_CRC32_REQ CALC_CRC32_CFM TRUE uint32Of
  flashloader_dispatch)

namespace dect_prog.programming

/-! ## The target -/

/-- What the target waits for. -/
inductive Stage
  | rom_size
  | rom_image (n : Nat)
  | rom_ack
  | pre_baud
  | pre_image
  /-- The flash loader runs, and waits for requests. -/
  | loader
  deriving DecidableEq

/-- What the target was told to load last is in `ram`. -/
structure Target where
  stage : Stage
  ram : List UInt8
  flash : Nat → UInt8

/-- The two bytes of a size. -/
def announcedSize (lsb msb : UInt8) : Nat := lsb.toNat + 256 * msb.toNat

/-- When the bytes that it waits for are there, the target takes them and sends one byte. -/
def hears (t : Target) (pending : List UInt8) : Option (Nat × UInt8 × Target) :=
  match t.stage with
  | .rom_size =>
    match pending with
    | h :: lsb :: msb :: _ =>
      if h = SOH then some (3, ACK, { t with stage := .rom_image (announcedSize lsb msb) }) else none
    | _ => none
  | .rom_image n =>
    if n ≤ pending.length then
      some (n, chk (pending.take n), { t with stage := .rom_ack, ram := pending.take n })
    else none
  | .rom_ack =>
    match pending with
    | a :: s :: _ =>
      if a = ACK ∧ s = PRELOADER_START then
        some (2, PRELOADER_READY, { t with stage := .pre_baud })
      else none
    | _ => none
  | .pre_baud =>
    match pending with
    | b :: n :: _ =>
      if b = PRELOADER_BAUD_230400 ∧ n = PRELOADER_NEW_BAUDRATE then
        some (2, PRELOADER_NEW_BAUDRATE_READY, { t with stage := .pre_image })
      else none
    | _ => none
  | .pre_image =>
    match pending with
    | msb :: lsb :: code =>
      let n := announcedSize lsb msb
      if n ≤ code.length then
        some (n + 2, chk (code.take n), { t with stage := .loader, ram := code.take n })
      else none
    | _ => none
  | .loader => none

/-- A request for the checksum is answered with that of the flash. -/
def Honest (r c : List UInt8) (flash : Nat → UInt8) : Prop :=
  r.head? = some CALC_CRC32_REQ → uint32Of c 9 =
    (crc.reflectedCrc32 ((List.range (uint32Of r 5).toNat).map flash)).toNat

/-- The frame of the confirm does not end like one begins. -/
def Plain (c : List UInt8) : Prop := (crc.crc16 c >>> 8).toUInt8 ≠ UART_PACKET_HEADER

instance (r c : List UInt8) (flash : Nat → UInt8) : Decidable (Honest r c flash) := by
  unfold Honest
  infer_instance

instance (c : List UInt8) : Decidable (Plain c) := inferInstanceAs (Decidable (_ ≠ _))

/-! ## The system -/

/-- The next read goes into `event`. The target has taken `heard` of the bytes that were written to
the tty. -/
structure System where
  main : Outcome Main
  event : event_t
  heard : Nat
  line : List UInt8
  target : Target

def System.pending (s : System) : List UInt8 :=
  match s.main with
  | .running m => m.tty.drop s.heard
  | _ => []

/-- The target acts on what it heard, or it answers a request, or `main` reads. -/
inductive Move
  | hear
  | answer (c : List UInt8) (ok : Bool)
  | read (a : Arrival)

def Move.refuses : Move → Bool
  | .answer _ ok => !ok
  | _ => false

/-- A target that fills in the structures of the source, and refuses nothing. -/
def Move.Exact : Move → Prop
  | .answer c ok => ok = true ∧ ∃ r crc, c = confirmFor r true crc
  | _ => True

/-- What the receiver of the flash loader needs: behind a frame that ends like one begins it does not
find the next one. Behind the confirm of the checksum there is none. -/
def Move.Plain : Move → Prop
  | .answer c _ => c.head? = some CALC_CRC32_CFM ∨ programming.Plain c
  | _ => True

/-- No confirm of a block of the file ends like a frame begins. -/
def PlainBlocks (file : List UInt8) : Prop :=
  ∀ of, of < file.length → 2048 ∣ of →
    programming.Plain ([PROG_FLASH_CFM] ++ le32 of ++ le16 (flashloader.blockWords file of) ++ [TRUE])

/-- A move that can be made. A read takes what it brings off the front of the line. -/
def systemStep (files : Files) (s : System) : Move → Option (System × Unit)
  | .hear =>
    match hears s.target s.pending with
    | some (n, b, t) =>
      some ({ s with heard := s.heard + n, line := s.line ++ [b], target := t }, ())
    | none => none
  | .answer c ok =>
    match s.target.stage, format.parse s.pending with
    | .loader, .frame r rest =>
      if Answers r c ok ∧ Honest r c s.target.flash then
        some ({ s with
          heard := s.heard + (s.pending.length - rest.length)
          line := s.line ++ flashloader.make_tx_packet c
          target := { s.target with flash := effect r ok s.target.flash } }, ())
      else none
    | _, _ => none
  | .read a =>
    match s.main with
    | .running m =>
      if a.bytes ≠ [] ∧ a.bytes <+: s.line then
        some ({ s with
          main := mainStep (progMode files) m s.event a
          event := .cleared
          line := s.line.drop a.bytes.length }, ())
      else none
    | _ => none

/-- The target was reset, and calls. -/
def powerOn (files : Files) (e0 : event_t) (flash : Nat → UInt8) : System where
  main := .running (progInit files)
  event := e0
  heard := 0
  line := [STX]
  target := ⟨.rom_size, [], flash⟩

/-- Images that can be announced in two bytes, and whose checksums are no labels of the switches. -/
structure Loadable (files : Files) : Prop where
  preloader_pos : 0 < files.PreBootPrgm441_20MHz.length
  preloader_lt : files.PreBootPrgm441_20MHz.length < 65536
  preloader_chk : chk files.PreBootPrgm441_20MHz ∉ [SOH, STX, ETX, ACK, NACK]
  flashloader_pos : 0 < files.FlashLoader441.length
  flashloader_lt : files.FlashLoader441.length < 65536
  flashloader_chk : chk files.FlashLoader441 ∉ [PRELOADER_READY, PRELOADER_NEW_BAUDRATE_READY]

/-! ## The handshakes -/

/-- The byte with which the target asks for what it waits for. -/
def call (files : Files) : Stage → UInt8
  | .rom_size => STX
  | .rom_image _ => ACK
  | .rom_ack => chk files.PreBootPrgm441_20MHz
  | .pre_baud => PRELOADER_READY
  | .pre_image => PRELOADER_NEW_BAUDRATE_READY
  | .loader => chk files.FlashLoader441

/-- What `main` writes on that byte. -/
def reply (files : Files) : Stage → List UInt8
  | .rom_size => [SOH, UInt8.ofNat files.PreBootPrgm441_20MHz.length,
      UInt8.ofNat (files.PreBootPrgm441_20MHz.length / 256)]
  | .rom_image _ => files.PreBootPrgm441_20MHz
  | .rom_ack => [ACK, PRELOADER_START]
  | .pre_baud => [PRELOADER_BAUD_230400, PRELOADER_NEW_BAUDRATE]
  | .pre_image => UInt8.ofNat (files.FlashLoader441.length / 256) ::
      UInt8.ofNat files.FlashLoader441.length :: files.FlashLoader441
  | .loader => flashloader.make_tx_packet [READ_SW_VERSION_REQ]

def next (files : Files) : Stage → Stage
  | .rom_size => .rom_image files.PreBootPrgm441_20MHz.length
  | .rom_image _ => .rom_ack
  | .rom_ack => .pre_baud
  | .pre_baud => .pre_image
  | .pre_image => .loader
  | .loader => .loader

def ram (files : Files) : Stage → List UInt8
  | .rom_size => []
  | .rom_image _ => []
  | .rom_ack => files.PreBootPrgm441_20MHz
  | .pre_baud => files.PreBootPrgm441_20MHz
  | .pre_image => files.PreBootPrgm441_20MHz
  | .loader => files.FlashLoader441

/-- The moves up to the request of the flash loader. -/
def left : Stage → Nat
  | .rom_size => 11
  | .rom_image _ => 9
  | .rom_ack => 7
  | .pre_baud => 5
  | .pre_image => 3
  | .loader => 1

def Stage.state : Stage → states
  | .rom_size => .BOOT_STATE
  | .rom_image _ => .BOOT_STATE
  | .rom_ack => .BOOT_STATE
  | .pre_baud => .PRELOADER_STATE
  | .pre_image => .PRELOADER_STATE
  | .loader => .PRELOADER_STATE

/-- `main` waits for the call of the stage. Before the first one the event is what the stack
held. -/
structure Waits (files : Files) (g : Stage) (m : Main) (e : event_t) : Prop where
  state : m.current_state = g.state
  loaded : Loaded files m
  size : ∀ n, g = .rom_image n → n = files.PreBootPrgm441_20MHz.length
  event : g ≠ .rom_size → e = .cleared

variable {files : Files} {m : Main} {e : event_t} {a : Arrival} {g : Stage}

theorem announcedSize_bytes {n : Nat} (h : n < 65536) :
    announcedSize (UInt8.ofNat n) (UInt8.ofNat (n / 256)) = n := by
  unfold announcedSize
  simp only [UInt8.toNat_ofNat']
  omega

/-- The target hears the reply: it takes it as a whole, and calls again. -/
theorem hears_reply (hfiles : Loadable files) (hw : ∀ n, g = .rom_image n →
      n = files.PreBootPrgm441_20MHz.length) (hg : g ≠ .loader) (flash : Nat → UInt8) :
    hears ⟨g, ram files g, flash⟩ (reply files g) = some ((reply files g).length,
      call files (next files g), ⟨next files g, ram files (next files g), flash⟩) := by
  cases g with
  | rom_size =>
    simp only [hears, reply, if_true, announcedSize_bytes hfiles.preloader_lt]
    rfl
  | rom_image n =>
    simp only [hears, reply, hw n rfl, Nat.le_refl, if_true, List.take_length]
    rfl
  | rom_ack => rfl
  | pre_baud => rfl
  | pre_image =>
    simp only [hears, reply, announcedSize_bytes hfiles.flashloader_lt, Nat.le_refl, if_true,
      List.take_length]
    rfl
  | loader => exact absurd rfl hg

/-- As long as nothing was written for it, the target is silent. -/
theorem hears_nothing (hfiles : Loadable files) (hw : ∀ n, g = .rom_image n →
      n = files.PreBootPrgm441_20MHz.length) (r : List UInt8) (flash : Nat → UInt8) :
    hears ⟨g, r, flash⟩ [] = none := by
  cases g with
  | rom_image n =>
    have hpos := hfiles.preloader_pos
    simp only [hears, List.length_nil]
    rw [if_neg (by rw [hw n rfl]; omega)]
  | rom_size => rfl
  | rom_ack => rfl
  | pre_baud => rfl
  | pre_image => rfl
  | loader => rfl

/-- A byte for which the loop has nothing else to reply. -/
theorem replies_cleared {b : UInt8} (hb : b ≠ STX) : boot.replies m .cleared b = some [] :=
  (if_neg hb).trans reply_cleared

/-- `main` reads the call: it writes the reply, and waits for the next call. -/
theorem main_replies (hfiles : Loadable files) (hw : Waits files g m e) (hg : g ≠ .loader)
    (hin0 : in0 (read e a) = call files g) :
    ∃ m', mainStep (progMode files) m e a = .running m' ∧ m'.tty = m.tty ++ reply files g ∧
      Waits files (next files g) m' .cleared := by
  have hloaded := hw.loaded
  have hl := hw.loaded
  have hstate := hw.state
  rw [Loaded, hstate] at hloaded
  have hevent := hw.event
  cases g with
  | rom_size =>
    have hpre : m.preloader = calculate_checksum (read_preloader files) := hloaded
    have hr : boot.replies m e (in0 (read e a)) =
        some [SOH, m.preloader.size_lsb, m.preloader.size_msb] := if_pos hin0
    have hturn := boot_turn hl hstate hr
    rw [show in0 (read e a) = STX from hin0, boot_serves_stx] at hturn
    refine ⟨_, hturn, ?_, hstate, hl, fun n hn => (by cases hn; rfl), fun _ => rfl⟩
    rw [hpre]
    rfl
  | rom_image n =>
    obtain rfl := hevent (by simp)
    have hpre : m.preloader = calculate_checksum (read_preloader files) := hloaded
    have hack : in0 (read .cleared a) = ACK := hin0
    have hturn := boot_turn hl hstate (replies_cleared (by rw [hack]; decide))
    rw [hack, boot.serves, if_pos rfl] at hturn
    refine ⟨_, hturn, ?_, hstate, hl, fun n hn => (by cases hn), fun _ => rfl⟩
    show (m.tty ++ m.preloader.img.take m.preloader.size.toNat) ++ [] = _
    rw [hpre, read_preloader, image_whole, List.append_nil]
    rfl
  | rom_ack =>
    obtain rfl := hevent (by simp)
    have hmoves : boot.Moves files (in0 (read .cleared a)) := by
      rw [hin0]
      exact ⟨rfl, hfiles.preloader_chk⟩
    have hlabel : ∀ b ∈ [SOH, STX, ETX, ACK, NACK], in0 (read .cleared a) ≠ b := by
      rintro b hb rfl
      exact hmoves.2 hb
    have hturn := boot_turn hl hstate (replies_cleared (hlabel STX (by simp)))
    rw [boot.serves, if_neg (hlabel ACK (by simp)), if_pos hmoves] at hturn
    refine ⟨_, hturn, ?_, rfl, rfl, fun n hn => (by cases hn), fun _ => rfl⟩
    show ((m.tty ++ [ACK]) ++ [PRELOADER_START]) ++ [] = m.tty ++ [ACK, PRELOADER_START]
    rw [List.append_nil, List.append_assoc]
    rfl
  | pre_baud =>
    obtain rfl := hevent (by simp)
    have hturn := preloader_turn hl hstate (if_pos hin0) reply_cleared
    refine ⟨_, hturn, ?_, hstate, hl, fun n hn => (by cases hn), fun _ => rfl⟩
    show ((m.tty ++ [PRELOADER_BAUD_230400]) ++ [PRELOADER_NEW_BAUDRATE]) ++ [] =
      m.tty ++ [PRELOADER_BAUD_230400, PRELOADER_NEW_BAUDRATE]
    rw [List.append_nil, List.append_assoc]
    rfl
  | pre_image =>
    obtain rfl := hevent (by simp)
    have himg : m.flashloader = calculate_checksum (read_flashloader files) := hloaded
    have hready : in0 (read .cleared a) = PRELOADER_NEW_BAUDRATE_READY := hin0
    have hserves : preloader.serves files m (in0 (read .cleared a)) =
        .running (preloader.send_flashloader (preloader.send_size m)) := by
      rw [hready, preloader.serves, if_neg (by decide), if_pos rfl]
    have hturn := preloader_turn hl hstate hserves reply_cleared
    refine ⟨_, hturn, ?_, hstate, hl, fun n hn => (by cases hn), fun _ => rfl⟩
    show (m.tty ++ [m.flashloader.size_msb, m.flashloader.size_lsb] ++
      m.flashloader.img.take m.flashloader.size.toNat) ++ [] = _
    rw [himg, read_flashloader, image_whole, List.append_nil, List.append_assoc]
    rfl
  | loader => exact absurd rfl hg

/-! ## The flash loader -/

/-- The flash loader is in charge, with the file in its memory. -/
structure Loading (files : Files) (m : Main) (l : Loader) (b : buffer_t) : Prop where
  state : m.current_state = .FLASHLOADER_STATE
  loader : m.loader = some (l, b)
  tty : l.tty = m.tty
  image : Image l.pr files.target_bin
  checksum : l.pr.checksum = crc.reflectedCrc32 files.target_bin

theorem initLoader.spec (files : Files) (hmax : (files.target_bin.length : Int) + 3 ≤ INT_MAX)
    (tty : List UInt8) :
    ∃ l b, initLoader files tty = some (l, b) ∧ Image l.pr files.target_bin ∧
      l.pr.checksum = crc.reflectedCrc32 files.target_bin ∧
      l.tty = tty ++ flashloader.make_tx_packet [READ_SW_VERSION_REQ] ∧
      Holds b ⟨List.replicate 5000 0, []⟩ := by
  obtain ⟨pr, hread, himg⟩ := flashloader.read_firmware.spec files.target_bin files.behind.1
    files.behind.2.1 files.behind.2.2 hmax
  obtain ⟨g0, g1, g2, hbytes, -⟩ := himg.img
  obtain ⟨b, hnew, hb⟩ := flashloader.flash_buffer
  have hsize : pr.size.toNat = files.target_bin.length := by rw [himg.size, Int.toNat_natCast]
  have hcrc : crc.CalculateCRC32 pr.img files.target_bin.length =
      some (crc.reflectedCrc32 files.target_bin) := by
    rw [crc.CalculateCRC32.spec _ _ (by rw [hbytes]; simp; omega), hbytes, List.take_left]
  have hsum : flashloader.calculate_checksum pr =
      some { pr with checksum := crc.reflectedCrc32 files.target_bin } := by
    rw [flashloader.calculate_checksum, hsize, hcrc]
    rfl
  have himg' : Image { pr with checksum := crc.reflectedCrc32 files.target_bin }
      files.target_bin := ⟨himg.size, himg.img⟩
  refine ⟨⟨{ pr with checksum := crc.reflectedCrc32 files.target_bin }, ⟨0, 0, 0, 0, 0, 0, 0, 0⟩,
    0, 0, _⟩, b, ?_, himg', rfl, rfl, hb⟩
  simp only [initLoader, flashloader.init_flashloader_state, hread, hsum, hnew,
    Option.bind_eq_bind, Option.bind_some]

/-- `main` reads the checksum of the flash loader, which comes into charge and sends its first
request. -/
theorem main_starts (hmax : (files.target_bin.length : Int) + 3 ≤ INT_MAX)
    (hs : m.current_state = .PRELOADER_STATE) (hm : Loaded files m)
    (hmoves : preloader.Moves files (in0 (read .cleared a))) :
    ∃ m' l b, mainStep (progMode files) m .cleared a = .running m' ∧
      m'.tty = m.tty ++ flashloader.make_tx_packet [READ_SW_VERSION_REQ] ∧
      Loading files m' l b ∧ Holds b ⟨List.replicate 5000 0, []⟩ ∧
      initLoader files m.tty = some (l, b) := by
  obtain ⟨l, b, hinit, hl, hsum, htty, hb⟩ := initLoader.spec files hmax m.tty
  have hserves : preloader.serves files m (in0 (read .cleared a)) =
      .running { m with current_state := .FLASHLOADER_STATE, loader := some (l, b), tty := l.tty } := by
    rw [preloader_serves_moves hmoves, init_flashloader_state]
    exact congrArg (setLoader _) hinit
  have hturn := preloader_turn hm hs hserves reply_cleared
  rw [show ∀ m : Main, m.write [] = m from (progMode files).write_nil] at hturn
  exact ⟨_, l, b, hturn, htty, ⟨rfl, rfl, rfl, hl, hsum⟩, hb, hinit⟩

theorem main_starts_loader (hfiles : Loadable files)
    (hmax : (files.target_bin.length : Int) + 3 ≤ INT_MAX) (hw : Waits files .loader m .cleared)
    (hin0 : in0 (read .cleared a) = call files .loader) :
    ∃ m' l b, mainStep (progMode files) m .cleared a = .running m' ∧
      m'.tty = m.tty ++ reply files .loader ∧
      Loading files m' l b ∧ Holds b ⟨List.replicate 5000 0, []⟩ := by
  have hmoves : preloader.Moves files (in0 (read .cleared a)) := by
    rw [hin0]
    exact ⟨rfl, hfiles.flashloader_chk⟩
  obtain ⟨m', l, b, hstep, htty, hl, hb, -⟩ := main_starts hmax hw.state hw.loaded hmoves
  exact ⟨m', l, b, hstep, htty, hl, hb⟩

/-! ## A read of the flash loader -/

variable {l l' : Loader} {b : buffer_t} {t : Tape UInt8}

theorem mainStep_flashloader (hl : Loading files m l b) :
    mainStep (progMode files) m .cleared a =
      (flashloader.handle_flashloader_package flashloader_dispatch l b (read .cleared a)).map
        fun (l', b') => { m with loader := some (l', b'), tty := l'.tty } := by
  have hself : { l with tty := m.tty } = l := by rw [← hl.tty]
  have hcall : (progMode files).handler m .cleared (read .cleared a) =
      ((flashloader.handle_flashloader_package flashloader_dispatch l b (read .cleared a)).map
        fun (l', b') => ({ m with loader := some (l', b'), tty := l'.tty } : Main)).map
          fun m => (m, event_t.cleared) := by
    show state_event_handler files m .cleared (read .cleared a) = _
    simp only [state_event_handler, hl.state, main.handle_flashloader_package, silent, hl.loader,
      hself]
  exact mainStep_silent hcall (Int.le_refl 0)

/-- A read that fits gives its packets to the dispatcher, and the buffer keeps what a receiver
keeps. -/
theorem main_receives (hb : Holds b t) (ht : t.size = 5000) (h0 : a.bytes ≠ [])
    (hroom : (t.ahead ++ a.bytes).length ≤ 5000) :
    ∃ t' : Tape UInt8, t'.size = 5000 ∧ t'.ahead = (format.receive (t.ahead ++ a.bytes)).2 ∧
      Ends (flashloader.handle_flashloader_package flashloader_dispatch l b (read .cleared a))
        (dispatchAll flashloader_dispatch l { a.packet with size := 0 }
          (format.receive (t.ahead ++ a.bytes)).1) t' := by
  have hfits := handlePackage_fits flashloader_dispatch l b t (read .cleared a)
    (flashloader.flash_gets (read .cleared a)) hb ht flashloader.flash_capacity
    (Arrival.incount_pos h0)
  rw [read_bytes] at hfits
  apply hfits
  have hle : (read .cleared a).incount ≤ a.bytes.length := a.incount_le
  rw [hb.buf_size, hb.count, ht]
  rw [List.length_append] at hroom
  omega

/-- The process lives behind the read. -/
theorem main_goes_on (hl : Loading files m l b) {t' : Tape UInt8}
    (hends : Ends (flashloader.handle_flashloader_package flashloader_dispatch l b
      (read .cleared a)) (.running l') t') (hpr : l'.pr = l.pr) :
    ∃ m' b', mainStep (progMode files) m .cleared a = .running m' ∧ Loading files m' l' b' ∧
      Holds b' t' := by
  obtain ⟨b', hrun, hb'⟩ := hends
  refine ⟨{ m with loader := some (l', b'), tty := l'.tty }, b', ?_,
    ⟨hl.state, rfl, rfl, by rw [hpr]; exact hl.image, by rw [hpr]; exact hl.checksum⟩, hb'⟩
  rw [mainStep_flashloader hl, hrun]
  rfl

/-- A part of the answer: it is kept, and nothing happens. -/
theorem read_part (hl : Loading files m l b) (hb : Holds b t) (ht : t.size = 5000)
    (h0 : a.bytes ≠ []) {junk part rest c : List UInt8} (hjunk : format.header ∉ junk)
    (hahead : t.ahead = junk ++ part) (hc : c.length ≤ PACKET_SIZE)
    (hframe : part ++ a.bytes ++ rest = format.encode c) (hrest : rest ≠ [])
    (hroom : (t.ahead ++ a.bytes).length ≤ 5000) :
    ∃ m' b' t', mainStep (progMode files) m .cleared a = .running m' ∧ Loading files m' l b' ∧
      Holds b' t' ∧ t'.size = 5000 ∧ t'.ahead = part ++ a.bytes := by
  have hmax : c.length ≤ format.maxLength := Nat.le_trans hc (by decide)
  have hne : part ++ a.bytes ≠ [] := by simp [h0]
  obtain ⟨t', ht', hahead', hends⟩ := main_receives hb ht h0 hroom
  rw [hahead, List.append_assoc, format.receive_beginning hmax hjunk hframe hne hrest]
    at hahead' hends
  obtain ⟨m', b', hstep, hl', hb'⟩ := main_goes_on hl hends rfl
  exact ⟨m', b', t', hstep, hl', hb', ht', hahead'⟩

/-- The last part of the answer: it goes to the dispatcher, and only its last byte is kept. -/
theorem read_end (hb : Holds b t) (ht : t.size = 5000) (h0 : a.bytes ≠ [])
    {junk part c : List UInt8} (hjunk : format.header ∉ junk)
    (hahead : t.ahead = junk ++ part) (hc : c.length ≤ PACKET_SIZE)
    (hframe : part ++ a.bytes = format.encode c) (hroom : (t.ahead ++ a.bytes).length ≤ 5000) :
    ∃ (t' : Tape UInt8) (p : packet_t), t'.size = 5000 ∧
      t'.ahead = (format.encode c).getLast?.toList ∧
      Ends (flashloader.handle_flashloader_package flashloader_dispatch l b (read .cleared a))
        (flashloader_dispatch l (p.carry c hc)) t' := by
  have hmax : c.length ≤ format.maxLength := Nat.le_trans hc (by decide)
  obtain ⟨t', ht', hahead', hends⟩ := main_receives hb ht h0 hroom
  rw [hahead, List.append_assoc, hframe, format.receive_encode hmax hjunk] at hahead' hends
  refine ⟨t', { a.packet with size := 0 }, ht', hahead', ?_⟩
  simp only [dispatchAll, dif_pos hc] at hends
  cases hd : flashloader_dispatch l (packet_t.carry { a.packet with size := 0 } c hc) with
  | running l' => rwa [hd] at hends
  | exited status l' => rwa [hd] at hends
  | aborted l' => rwa [hd] at hends
  | undefined => rwa [hd] at hends

/-! ## The invariant of a run -/

/-- The buffer between two reads: `part` of a frame, and before it no more than one byte, which is
no header. -/
structure Kept (b : buffer_t) (part : List UInt8) : Prop where
  holds : ∃ (t : Tape UInt8) (junk : List UInt8), Holds b t ∧ t.size = 5000 ∧
    t.ahead = junk ++ part ∧ format.header ∉ junk ∧ junk.length ≤ 1

/-- The moves up to the exit, where `k` bounds the messages that are still to come: each exchange is
one answer, and no more reads than its frame has bytes. -/
def fuel (k : Nat) : Nat := 253 * k

/-- One of the two has the turn: the target has called, or `main` has replied, or there is a request,
or there is an answer of which a part was read; or the process has ended with 0 and the image is in
the flash. The number bounds the moves that are left when no block is refused any more. -/
inductive Turn (files : Files) : System → Nat → Prop
  | called {m : Main} (g : Stage) (flash : Nat → UInt8) (e : event_t) (hw : Waits files g m e) :
      Turn files ⟨.running m, e, m.tty.length, [call files g], ⟨g, ram files g, flash⟩⟩
        (left g + fuel (2 * flashloader.blocks files.target_bin 0 + 10))
  | replied {m : Main} (g : Stage) (flash : Nat → UInt8) (heard : Nat) (hg : g ≠ .loader)
      (hw : Waits files (next files g) m .cleared)
      (hsize : ∀ n, g = .rom_image n → n = files.PreBootPrgm441_20MHz.length)
      (hlen : heard + (reply files g).length = m.tty.length)
      (htty : m.tty.drop heard = reply files g) :
      Turn files ⟨.running m, .cleared, heard, [], ⟨g, ram files g, flash⟩⟩
        (left g - 1 + fuel (2 * flashloader.blocks files.target_bin 0 + 10))
  | asked {m : Main} {l : Loader} {b : buffer_t} {requests : List (List UInt8)} {r : List UInt8}
      {k : Nat} (flash : Nat → UInt8) (heard : Nat) (hl : Loading files m l b) (hb : Kept b [])
      (h : Asked files.target_bin l flash requests r k) (hr : r.length ≤ 2055)
      (hlen : heard + (flashloader.make_tx_packet r).length = m.tty.length)
      (htty : m.tty.drop heard = flashloader.make_tx_packet r) :
      Turn files ⟨.running m, .cleared, heard, [], ⟨.loader, files.FlashLoader441, flash⟩⟩ (fuel k)
  | answered {m : Main} {l : Loader} {b : buffer_t} {requests : List (List UInt8)}
      {r c part rest : List UInt8} {ok : Bool} {k : Nat} (flash : Nat → UInt8)
      (hl : Loading files m l b) (hb : Kept b part)
      (h : Asked files.target_bin l flash requests r k) (hans : Answers r c ok)
      (hhonest : Honest r c flash) (hplain : c.head? = some CALC_CRC32_CFM ∨ Plain c)
      (hframe : part ++ rest = flashloader.make_tx_packet c) (hrest : rest ≠ []) :
      Turn files ⟨.running m, .cleared, m.tty.length, rest, ⟨.loader, files.FlashLoader441,
        effect r ok flash⟩⟩ (fuel (k - 2) + rest.length + if ok then 0 else fuel 2)
  | ended {m : Main} (flash : Nat → UInt8) (heard : Nat)
      (hflash : ∀ i, flash i = image files.target_bin i) :
      Turn files ⟨.exited 0 m, .cleared, heard, [], ⟨.loader, files.FlashLoader441, flash⟩⟩ 0

/-- What the hypotheses on the files are, all together. -/
structure Sound (files : Files) : Prop where
  loadable : Loadable files
  pos : 1 ≤ files.target_bin.length
  max : (files.target_bin.length : Int) + 2048 ≤ INT_MAX
  last : files.target_bin.getLast? ≠ some 0xff

theorem powerOn_turn (files : Files) (e0 : event_t) (flash : Nat → UInt8) :
    Turn files (powerOn files e0 flash)
      (11 + fuel (2 * flashloader.blocks files.target_bin 0 + 10)) :=
  .called .rom_size flash e0 ⟨rfl, rfl, fun n hn => (by cases hn), fun h => absurd rfl h⟩

/-! ## The moves -/

variable {s s' : System} {n : Nat}

/-- The target hears. -/
theorem turn_hear (hfiles : Sound files) (h : Turn files s n)
    (hstep : systemStep files s .hear = some (s', ())) : ∃ n', Turn files s' n' ∧ n' + 1 ≤ n := by
  cases h with
  | called g flash e hw =>
    rename_i m
    have hpending : System.pending ⟨.running m, e, m.tty.length, [call files g],
        ⟨g, ram files g, flash⟩⟩ = [] := List.drop_length
    simp only [systemStep, hpending, hears_nothing hfiles.loadable hw.size] at hstep
    cases hstep
  | replied g flash heard hg hw hsize hlen htty =>
    rename_i m
    have hpending : System.pending ⟨.running m, .cleared, heard, [], ⟨g, ram files g, flash⟩⟩ =
        reply files g := htty
    simp only [systemStep, hpending, hears_reply hfiles.loadable hsize hg flash] at hstep
    cases hstep
    have hturn := Turn.called (next files g) flash .cleared hw
    rw [← hlen] at hturn
    refine ⟨_, hturn, ?_⟩
    have hleft : left (next files g) + 2 = left g := by
      cases g with
      | loader => exact absurd rfl hg
      | _ => rfl
    omega
  | asked flash heard hl hb h hr hlen htty => cases hstep
  | answered flash hl hb h hans hhonest hplain hframe hrest => cases hstep
  | ended flash heard hflash => cases hstep

theorem parse_nothing (r rest : List UInt8) : format.parse [] ≠ .frame r rest := by
  rw [format.parse_absent (by simp)]
  simp

/-- The target answers. -/
theorem turn_answer {c : List UInt8} {ok : Bool} (h : Turn files s n)
    (hplain : c.head? = some CALC_CRC32_CFM ∨ Plain c)
    (hstep : systemStep files s (.answer c ok) = some (s', ())) :
    ∃ n', Turn files s' n' ∧ n' + 1 ≤ n + if ok then 0 else fuel 2 := by
  -- Without a request there is nothing to answer.
  have hnothing : s.pending ≠ [] := by
    intro hnil
    simp only [systemStep, hnil] at hstep
    split at hstep
    · rename_i r rest _ hparse
      exact absurd hparse (parse_nothing r rest)
    · cases hstep
  cases h with
  | called g flash e hw => exact absurd List.drop_length hnothing
  | replied g flash heard hg hw hsize hlen htty =>
    cases g with
    | loader => exact absurd rfl hg
    | _ => cases hstep
  | asked flash heard hl hb h hr hlen htty =>
    rename_i m l b requests r k
    have hpending : System.pending ⟨.running m, .cleared, heard, [], ⟨.loader, files.FlashLoader441, flash⟩⟩ =
        flashloader.make_tx_packet r := htty
    have hparse : format.parse (flashloader.make_tx_packet r) = .frame r [] := by
      have hframe := format.parse_encode r [] (Nat.le_trans hr (by decide))
      rwa [List.append_nil] at hframe
    simp only [systemStep, hpending, hparse] at hstep
    split at hstep
    · rename_i hguard
      obtain ⟨hans, hhonest⟩ := hguard
      cases hstep
      have hne : flashloader.make_tx_packet c ≠ [] := format.encode_ne_nil c
      have hframe : [] ++ flashloader.make_tx_packet c = flashloader.make_tx_packet c := rfl
      have hturn := Turn.answered flash hl hb h hans hhonest hplain hframe hne
      rw [← hlen] at hturn
      refine ⟨_, hturn, ?_⟩
      have hlength : (flashloader.make_tx_packet c).length = c.length + 2 + 3 :=
        format.encode_length c
      have hc : c.length ≤ 500 := hans.1
      have hk := h.pos
      unfold fuel
      cases ok <;> simp <;> omega
    · cases hstep
  | answered flash hl hb h hans hhonest hplain' hframe hrest =>
    exact absurd List.drop_length hnothing
  | ended flash heard hflash => exact absurd rfl hnothing

/-- A byte that is read alone. -/
theorem read_call {x : UInt8} (h0 : a.bytes ≠ []) (h : a.bytes <+: [x]) : a.bytes = [x] := by
  rcases List.prefix_cons_iff.mp h with hnil | ⟨t, ht, hprefix⟩
  · exact absurd hnil h0
  · rw [ht, List.prefix_nil.mp hprefix]

/-- `main` reads a call. -/
theorem turn_read_call (hfiles : Sound files) (flash : Nat → UInt8) (hw : Waits files g m e)
    (hin0 : in0 (read e a) = call files g) :
    ∃ n', Turn files ⟨mainStep (progMode files) m e a, .cleared, m.tty.length, [],
        ⟨g, ram files g, flash⟩⟩ n' ∧
      n' + 1 ≤ left g + fuel (2 * flashloader.blocks files.target_bin 0 + 10) := by
  by_cases hg : g = .loader
  · subst hg
    obtain rfl := hw.event (by simp)
    have hmax := hfiles.max
    obtain ⟨m', l, b, hrun, htty, hl, hb⟩ := main_starts_loader hfiles.loadable (by omega) hw hin0
    have hkept : Kept b [] := ⟨_, [], hb, Tape.size_new 5000 0, rfl, by simp, by simp⟩
    refine ⟨fuel (2 * flashloader.blocks files.target_bin 0 + 10), ?_, by simp only [left]; omega⟩
    rw [hrun]
    exact .asked flash m.tty.length hl hkept .version (by decide)
      (by rw [htty, List.length_append]; rfl) (by rw [htty, List.drop_left]; rfl)
  · obtain ⟨m', hrun, htty, hw'⟩ := main_replies hfiles.loadable hw hg hin0
    refine ⟨left g - 1 + fuel (2 * flashloader.blocks files.target_bin 0 + 10), ?_, ?_⟩
    · rw [hrun]
      exact .replied g flash m.tty.length hg hw' hw.size (by rw [htty, List.length_append])
        (by rw [htty, List.drop_left])
    · cases g with
      | loader => exact absurd rfl hg
      | _ => simp only [left]; omega

/-- The bytes of the flash that the file covers are the file. -/
theorem flash_bytes {file : List UInt8} {flash : Nat → UInt8} (h : ∀ i, flash i = image file i) :
    (List.range file.length).map flash = file := by
  apply List.ext_getElem
  · simp
  · intro i h1 h2
    rw [List.getElem_map, List.getElem_range, h i, image, List.getD_eq_getElem?_getD,
      List.getElem?_eq_getElem h2, Option.getD_some]

/-- Only the answer to the request for the checksum ends the process, and it ends with 0. -/
theorem checksum_exit {l : Loader} {flash : Nat → UInt8} {requests : List (List UInt8)}
    {r c : List UInt8} {k : Nat} {ok : Bool} {status : Int} {p : packet_t}
    (hl : Loading files m l b) (hmax : (files.target_bin.length : Int) + 2048 ≤ INT_MAX)
    (h : Asked files.target_bin l flash requests r k) (hans : Answers r c ok)
    (hhonest : Honest r c flash) (hc : c.length ≤ PACKET_SIZE)
    (hexit : flashloader_dispatch l (p.carry c hc) = .exited status l) : status = 0 := by
  obtain ⟨hbyte, hcfm⟩ := flashloader.exits_on_checksum hexit
  -- The answers to the other requests have other primitives.
  have hother : ∀ x, c.head? = some x → x = flashloader.CALC_CRC32_CFM := by
    intro x hx
    rw [← flashloader.carry_head p hc hx]
    exact hbyte
  cases h with
  | version => exact absurd (hother _ (hans.version rfl)) (by decide)
  | config => exact absurd (hother _ (hans.config rfl)) (by decide)
  | flash_type => exact absurd (hother _ (hans.flash_type rfl).1) (by decide)
  | erase => exact absurd (hother _ (hans.erase rfl)) (by decide)
  | program of m progs hof heven hblock hflash hprogs =>
    exact absurd (hother _ (hans.program rfl).1) (by decide)
  | checksum progs hflash hprogs =>
    obtain ⟨-, hlen⟩ := hans.checksum rfl
    have hINT : INT_MAX = 2147483647 := rfl
    have hsize : u32 l.pr.size = files.target_bin.length := by
      rw [hl.image.size]
      exact u32_of_range (by omega) (by omega)
    have hlength : uint32Of ([CALC_CRC32_REQ] ++ le32 0 ++ le32 (u32 l.pr.size)) 5 =
        files.target_bin.length := by
      rw [hsize]
      exact flashloader.ofLe32_le32 (by omega) (by omega)
    have hcrc := hhonest rfl
    rw [hlength, Int.toNat_natCast, flash_bytes hflash, ← hl.checksum] at hcrc
    have hfield : flashloader.cfmCrc32 (p.carry c hc) = l.pr.checksum.toNat := by
      rw [flashloader.cfmCrc32, flashloader.carry_uint32 p hc (by omega), hcrc]
    rw [flashloader.calc_crc32_cfm, if_pos hfield] at hcfm
    cases hcfm
    rfl

/-- A checksum confirm ends the process. -/
theorem running_no_checksum {c : List UInt8} (hc : c.length ≤ PACKET_SIZE) {p : packet_t}
    (h : flashloader_dispatch l (p.carry c hc) = .running l') : c.head? ≠ some CALC_CRC32_CFM := by
  intro hhead
  rw [flashloader.dispatch_checksum (flashloader.carry_head p hc hhead),
    flashloader.calc_crc32_cfm] at h
  split at h <;> cases h

/-- `main` reads a part of an answer, or its end. -/
theorem turn_read_answer (hfiles : Sound files) {l : Loader} {b : buffer_t}
    {requests : List (List UInt8)} {r c part rest : List UInt8} {ok : Bool} {k : Nat}
    {flash : Nat → UInt8} (hl : Loading files m l b) (hb : Kept b part)
    (h : Asked files.target_bin l flash requests r k) (hans : Answers r c ok)
    (hhonest : Honest r c flash) (hplain : c.head? = some CALC_CRC32_CFM ∨ Plain c)
    (h0 : a.bytes ≠ []) (hframe : part ++ (a.bytes ++ rest) = flashloader.make_tx_packet c) :
    ∃ n', Turn files ⟨mainStep (progMode files) m .cleared a, .cleared, m.tty.length, rest,
        ⟨.loader, files.FlashLoader441, effect r ok flash⟩⟩ n' ∧
      n' + 1 ≤ fuel (k - 2) + (a.bytes ++ rest).length + if ok then 0 else fuel 2 := by
  obtain ⟨t, junk, hholds, ht, hahead, hjunk, hfew⟩ := hb.holds
  have hpos := List.length_pos_iff.mpr h0
  have hlength := congrArg List.length hframe
  have hc : c.length ≤ 500 := hans.1
  have hpacket : (flashloader.make_tx_packet c).length = c.length + 2 + 3 := format.encode_length c
  rw [List.length_append, List.length_append, hpacket] at hlength
  have hroom : (t.ahead ++ a.bytes).length ≤ 5000 := by
    rw [hahead, List.length_append, List.length_append]
    omega
  rw [← List.append_assoc] at hframe
  by_cases hrest : rest = []
  · -- The answer is there as a whole.
    subst hrest
    rw [List.append_nil] at hframe
    obtain ⟨t', p, ht', hahead', hends⟩ := read_end hholds ht h0 hjunk hahead hans.1 hframe hroom
    have hkept : Plain c → format.header ∉ t'.ahead ∧ t'.ahead.length ≤ 1 := by
      intro hc
      rw [hahead', flashloader.encode_getLast?]
      exact ⟨fun hmem => hc (List.mem_singleton.mp hmem).symm, by simp⟩
    rcases flashloader.deliver_answer hl.image hfiles.pos hfiles.max hfiles.last h hans p hans.1 with
      ⟨l', r', k', hdispatch, hpr, hsent, hasked, hk⟩ | ⟨status, hdispatch, -, hflash, hk⟩
    · rw [hdispatch] at hends
      obtain ⟨m', b', hstep, hl', hb'⟩ := main_goes_on hl hends hpr
      have hkept := hkept (hplain.resolve_left (running_no_checksum hans.1 hdispatch))
      obtain ⟨htty, hsize⟩ := (flashloader.dispatch_sends hdispatch).tty
      rw [hsent] at htty hsize
      rw [hl'.tty, hl.tty, List.flatMap_singleton] at htty
      refine ⟨fuel k', ?_, ?_⟩
      · rw [hstep]
        exact .asked _ m.tty.length hl' ⟨t', t'.ahead, hb', ht', (List.append_nil _).symm, hkept⟩
          hasked (hsize r' (by simp)) (by rw [htty, List.length_append])
          (by rw [htty, List.drop_left])
      · unfold fuel
        rw [List.append_nil]
        cases ok <;> simp at hk ⊢ <;> omega
    · have hstatus := checksum_exit hl hfiles.max h hans hhonest hans.1 hdispatch
      subst hstatus
      rw [hdispatch] at hends
      obtain ⟨b', hrun⟩ := hends
      refine ⟨0, ?_, ?_⟩
      · rw [mainStep_flashloader hl, hrun]
        exact .ended _ m.tty.length hflash
      · rw [List.append_nil]
        omega
  · -- Some of it is still on the line.
    obtain ⟨m', b', t', hstep, hl', hb', ht', hahead'⟩ := read_part hl hholds ht h0 hjunk hahead
      hans.1 hframe hrest hroom
    refine ⟨fuel (k - 2) + rest.length + if ok then 0 else fuel 2, ?_, ?_⟩
    · have htty : m'.tty.length = m.tty.length := by rw [← hl'.tty, hl.tty]
      rw [hstep, ← htty]
      exact .answered flash hl' ⟨t', [], hb', ht', hahead', by simp, by simp⟩ h hans hhonest hplain
        hframe hrest
    · rw [List.length_append]
      omega

/-- `main` reads. -/
theorem turn_read (hfiles : Sound files) (h : Turn files s n)
    (hstep : systemStep files s (.read a) = some (s', ())) :
    ∃ n', Turn files s' n' ∧ n' + 1 ≤ n := by
  -- There is something on the line.
  have hline : s.line ≠ [] := by
    intro hnil
    simp only [systemStep, hnil] at hstep
    split at hstep
    · split at hstep
      · rename_i hguard
        exact absurd (List.prefix_nil.mp hguard.2) hguard.1
      · cases hstep
    · cases hstep
  cases h with
  | called g flash e hw =>
    rename_i m
    simp only [systemStep] at hstep
    split at hstep
    · rename_i hguard
      have hbytes := read_call hguard.1 hguard.2
      cases hstep
      rw [hbytes]
      exact turn_read_call hfiles flash hw (in0_read (by rw [hbytes]; rfl))
    · cases hstep
  | replied g flash heard hg hw hsize hlen htty => exact absurd rfl hline
  | asked flash heard hl hb h hr hlen htty => exact absurd rfl hline
  | answered flash hl hb h hans hhonest hplain hframe hrest =>
    simp only [systemStep] at hstep
    split at hstep
    · rename_i hguard
      obtain ⟨h0, rest, rfl⟩ := hguard
      cases hstep
      rw [List.drop_left]
      exact turn_read_answer hfiles hl hb h hans hhonest hplain h0 hframe
    · cases hstep
  | ended flash heard hflash => exact absurd rfl hline

/-! ## The run goes on -/

/-- The answer of an honest target. -/
theorem honest_answer {l : Loader} {flash : Nat → UInt8} {requests : List (List UInt8)}
    {r : List UInt8} {k : Nat} {file : List UInt8} (h : Asked file l flash requests r k) :
    ∃ crc, Answers r (confirmFor r true crc) true ∧ Honest r (confirmFor r true crc) flash := by
  generalize hv : crc.reflectedCrc32 ((List.range (uint32Of r 5).toNat).map flash) = v
  have hlt : v.toNat < 4294967296 := v.toNat_lt
  refine ⟨v.toNat, h.answer true v.toNat, fun hr => ?_⟩
  rw [hv, confirmFor, hr]
  exact flashloader.ofLe32_le32 (by omega) (by omega)

/-- The confirms of the opening have nothing of a checksum. -/
theorem opening_confirm (crc : Int) :
    ∀ r ∈ flashloader.opening, confirmFor r true crc = confirmFor r true 0 := by
  simp only [flashloader.opening, List.forall_mem_cons]
  exact ⟨rfl, rfl, rfl, rfl, by simp⟩

/-- In the structures of the source they do not end like a frame begins. -/
theorem opening_plain (crc : Int) : ∀ r ∈ flashloader.opening, Plain (confirmFor r true crc) := by
  intro r hr
  rw [opening_confirm crc r hr]
  revert r hr
  decide +kernel

/-- The confirm of a block, in the structure of the source. -/
theorem confirmFor_block {file : List UInt8} {of : Nat} {m : flashloader.prog_flash_t}
    (h : flashloader.Block file of m) (heven : 2048 ∣ of) (crc : Int) :
    confirmFor m.bytes true crc =
      [PROG_FLASH_CFM] ++ le32 of ++ le16 (flashloader.blockWords file of) ++ [TRUE] := by
  rw [← h.address, ← h.words heven]
  rfl

/-- The confirm that answers what was asked for, in the structure of the source, ends like a frame
begins for a block at most. -/
theorem exact_plain {file : List UInt8} {l : Loader} {flash : Nat → UInt8}
    {requests : List (List UInt8)} {r : List UInt8} {k : Nat} (h : Asked file l flash requests r k)
    (crc : Int) (hfile : PlainBlocks file) : (Move.answer (confirmFor r true crc) true).Plain := by
  cases h with
  | version => exact .inr (opening_plain crc _ (List.getElem_mem (by decide)))
  | config => exact .inr (opening_plain crc _ (List.getElem_mem (by decide)))
  | flash_type => exact .inr (opening_plain crc _ (List.getElem_mem (by decide)))
  | erase => exact .inr (opening_plain crc _ (List.getElem_mem (by decide)))
  | program of m progs hof heven hblock hflash hprogs =>
    right
    rw [confirmFor_block hblock heven]
    exact hfile of hof heven
  | checksum => exact .inl rfl

/-- What is on the line can be read. -/
theorem can_read {m : Main} {e : event_t} {line : List UInt8} {heard : Nat} {t : Target}
    (hne : line ≠ []) (hlen : line.length ≤ BUF_SIZE) :
    ∃ move : Move, move.Exact ∧ (PlainBlocks files.target_bin → move.Plain) ∧
      (systemStep files ⟨.running m, e, heard, line, t⟩ move).isSome := by
  have hguard : (arrivalOf line hlen).bytes ≠ [] ∧ (arrivalOf line hlen).bytes <+: line :=
    ⟨hne, List.prefix_refl line⟩
  refine ⟨.read (arrivalOf line hlen), trivial, fun _ => trivial, ?_⟩
  simp only [systemStep]
  rw [if_pos hguard]
  rfl

/-- As long as the process lives, one of the two can move. -/
theorem turn_goes_on (hfiles : Sound files) (h : Turn files s n) :
    (∃ m, s.main = .exited 0 m) ∨ (∃ m, s.main = .running m) ∧
      ∃ move : Move, move.Exact ∧ (PlainBlocks files.target_bin → move.Plain) ∧
        (systemStep files s move).isSome := by
  cases h with
  | called g flash e hw => exact .inr ⟨⟨_, rfl⟩, can_read (by simp) (short_le (by simp))⟩
  | replied g flash heard hg hw hsize hlen htty =>
    rename_i m
    have hpending : System.pending ⟨.running m, .cleared, heard, [], ⟨g, ram files g, flash⟩⟩ =
        reply files g := htty
    refine .inr ⟨⟨_, rfl⟩, .hear, trivial, fun _ => trivial, ?_⟩
    simp only [systemStep, hpending, hears_reply hfiles.loadable hsize hg flash]
    rfl
  | asked flash heard hl hb h hr hlen htty =>
    rename_i m l b requests r k
    have hpending : System.pending ⟨.running m, .cleared, heard, [], ⟨.loader, files.FlashLoader441, flash⟩⟩ =
        flashloader.make_tx_packet r := htty
    have hparse : format.parse (flashloader.make_tx_packet r) = .frame r [] := by
      have hframe := format.parse_encode r [] (Nat.le_trans hr (by decide))
      rwa [List.append_nil] at hframe
    obtain ⟨crc, hanswer⟩ := honest_answer h
    refine .inr ⟨⟨_, rfl⟩, .answer (confirmFor r true crc) true, ⟨rfl, r, crc, rfl⟩,
      exact_plain h crc, ?_⟩
    simp only [systemStep, hpending, hparse]
    rw [if_pos hanswer]
    rfl
  | answered flash hl hb h hans hhonest hplain hframe hrest =>
    rename_i m l b requests r c part rest ok k
    have hlength := congrArg List.length hframe
    have hc : c.length ≤ 500 := hans.1
    have hpacket : (flashloader.make_tx_packet c).length = c.length + 2 + 3 :=
      format.encode_length c
    rw [List.length_append, hpacket] at hlength
    exact .inr ⟨⟨_, rfl⟩, can_read hrest (by unfold BUF_SIZE; omega)⟩
  | ended flash heard hflash => exact .inl ⟨_, rfl⟩

/-! ## The law -/

/-- The number of program requests that the target refuses. -/
def refusals (moves : List Move) : Nat := (moves.filter Move.refuses).length

/-- Every move keeps the invariant, and takes one off the bound, unless it refuses. -/
theorem turn_step (hfiles : Sound files) (h : Turn files s n) {move : Move} {o : Unit}
    (hplain : move.Plain) (hstep : systemStep files s move = some (s', o)) :
    ∃ n', Turn files s' n' ∧ n' + 1 ≤ n + if move.refuses then fuel 2 else 0 := by
  cases move with
  | hear => exact turn_hear hfiles h hstep
  | read a => exact turn_read hfiles h hstep
  | answer c ok =>
    obtain ⟨n', h', hn⟩ := turn_answer h hplain hstep
    refine ⟨n', h', ?_⟩
    cases ok with
    | true => exact hn
    | false => exact hn

theorem turn_run (hfiles : Sound files) (moves : List Move) :
    ∀ {s s' : System} {os : List Unit} {n : Nat}, Turn files s n → (∀ move ∈ moves, move.Plain) →
      run (systemStep files) s moves = some (s', os) →
      ∃ n', Turn files s' n' ∧ n' + moves.length ≤ n + fuel 2 * refusals moves := by
  induction moves with
  | nil =>
    intro s s' os n h hplain hrun
    cases hrun
    exact ⟨n, h, Nat.le_add_right n _⟩
  | cons move moves ih =>
    intro s s' os n h hplain hrun
    obtain ⟨hmove, hplain⟩ := List.forall_mem_cons.mp hplain
    obtain ⟨s1, o, os', hstep, hrest, rfl⟩ := run_cons_eq_some.mp hrun
    obtain ⟨n1, h1, hn1⟩ := turn_step hfiles h hmove hstep
    obtain ⟨n', h', hn'⟩ := ih h1 hplain hrest
    refine ⟨n', h', ?_⟩
    have hcount : refusals (move :: moves) = (if move.refuses then 1 else 0) + refusals moves := by
      unfold refusals
      rw [List.filter_cons]
      split <;> simp [Nat.add_comm]
    rw [hcount, Nat.mul_add, List.length_cons]
    split at hn1 <;> simp_all <;> omega

/-- The process has ended with 0, the target has the flash loader in its memory, and its flash is
the file with 0xFF behind it. -/
structure Done (files : Files) (s : System) : Prop where
  exited : ∃ m, s.main = .exited 0 m
  ram : s.target.ram = files.FlashLoader441
  file : ∀ i (hi : i < files.target_bin.length), s.target.flash i = files.target_bin[i]
  behind : ∀ i, files.target_bin.length ≤ i → s.target.flash i = 0xff

theorem Turn.done (h : Turn files s n) {status : Int} {m : Main} (hexit : s.main = .exited status m) :
    Done files s := by
  cases h with
  | called | replied | asked | answered => cases hexit
  | ended flash heard hflash =>
    refine ⟨⟨_, rfl⟩, rfl, fun i hi => ?_, fun i hi => ?_⟩
    · show flash i = _
      rw [hflash i, image, List.getD_eq_getElem?_getD, List.getElem?_eq_getElem hi, Option.getD_some]
    · show flash i = _
      rw [hflash i, flashloader.image_of_le hi]

/-- A move in the structures of the source refuses nothing. -/
theorem Move.Exact.accepts {move : Move} (h : move.Exact) : move.refuses = false := by
  cases move with
  | answer c ok => exact congrArg Bool.not h.1
  | hear | read => rfl

/-- From any state the run can go on to its end; by induction on the bound of the moves. -/
theorem turn_completes (hfiles : Sound files) (hblocks : PlainBlocks files.target_bin) (n : Nat) :
    ∀ {s : System}, Turn files s n → ∃ moves s' os, (∀ move ∈ moves, move.Exact ∧ move.Plain) ∧
      run (systemStep files) s moves = some (s', os) ∧ Done files s' := by
  induction n using Nat.strongRecOn with
  | _ n ih =>
    intro s h
    rcases turn_goes_on hfiles h with ⟨m, hexit⟩ | ⟨-, move, hexact, hplain, hmove⟩
    · exact ⟨[], s, [], by simp, rfl, h.done hexit⟩
    · obtain ⟨⟨s1, o⟩, hstep⟩ := Option.isSome_iff_exists.mp hmove
      obtain ⟨n1, h1, hn1⟩ := turn_step hfiles h (hplain hblocks) hstep
      rw [hexact.accepts] at hn1
      obtain ⟨moves, s', os, hmoves, hrun, hdone⟩ := ih n1 (Nat.lt_of_succ_le (by simpa using hn1)) h1
      exact ⟨move :: moves, s', o :: os,
        List.forall_mem_cons.mpr ⟨⟨hexact, hplain hblocks⟩, hmoves⟩,
        run_cons_eq_some.mpr ⟨s1, o, os, hstep, hrun, rfl⟩, hdone⟩

/-- Whatever `main` finds in its event at first, however the reads cut what the target sends, and
whatever else an honest target puts into its confirms, as long as none but that of the checksum ends
like a frame begins: either all is done, or one of the two can move, and a target that answers in the
structures of the source need not refuse. It comes to the end when the target stops to refuse blocks.
Where no confirm of a block ends like a frame begins, the run can go on until then. -/
theorem prog_mode_programs_the_target (files : Files) (hfiles : Sound files) (e0 : event_t)
    (flash : Nat → UInt8) (moves : List Move) (hplain : ∀ move ∈ moves, move.Plain) (s : System)
    (os : List Unit)
    (hrun : run (systemStep files) (powerOn files e0 flash) moves = some (s, os)) :
    (Done files s ∨ (∃ m, s.main = .running m) ∧
      ∃ move : Move, move.Exact ∧ (systemStep files s move).isSome) ∧
    (PlainBlocks files.target_bin → ∃ more s' os', (∀ move ∈ more, move.Exact ∧ move.Plain) ∧
      run (systemStep files) s more = some (s', os') ∧ Done files s') ∧
    moves.length ≤ 2541 + 506 * (flashloader.blocks files.target_bin 0 + refusals moves) := by
  obtain ⟨n, h, hn⟩ := turn_run hfiles moves (powerOn_turn files e0 flash) hplain hrun
  refine ⟨?_, fun hblocks => turn_completes hfiles hblocks n h, ?_⟩
  · rcases turn_goes_on hfiles h with ⟨m, hexit⟩ | ⟨hruns, move, hexact, -, hmove⟩
    · exact .inl (h.done hexit)
    · exact .inr ⟨hruns, move, hexact, hmove⟩
  · unfold fuel at hn
    omega

/-- Images of one byte. -/
def oneByteFiles : Files := ⟨[0x5A], [0x77], [1], 0, 0, 0⟩

theorem oneByteFiles_sound : Sound oneByteFiles :=
  ⟨⟨by decide, by decide, by decide, by decide, by decide, by decide⟩, by decide, by decide,
    by decide⟩

theorem oneByteFiles_plain : PlainBlocks oneByteFiles.target_bin := by
  intro of hof _
  have hzero : of = 0 := Nat.lt_one_iff.mp hof
  rw [hzero]
  decide

/-- A byte that is read alone. -/
def single (b : UInt8) : Move := .read (arrivalOf [b] (short_le (Nat.le_succ 1)))

/-- The handshakes, and the answer to the first request of the flash loader. -/
def handshakes : List Move :=
  [single STX, .hear, single ACK, .hear, single 0x5A, .hear, single PRELOADER_READY, .hear,
    single PRELOADER_NEW_BAUDRATE_READY, .hear, single 0x77,
    .answer (confirmFor [READ_SW_VERSION_REQ] true 0) true]

theorem handshakes_plain : ∀ move ∈ handshakes, move.Plain := by
  simp only [handshakes, List.forall_mem_cons]
  exact ⟨trivial, trivial, trivial, trivial, trivial, trivial, trivial, trivial, trivial, trivial,
    trivial, .inr (by decide), by simp⟩

/-- The target has the flash loader in its memory and its confirm is on the line, and the run can go
on to its end. -/
theorem prog_mode_programs_the_target_of_one_byte :
    ∃ s os, run (systemStep oneByteFiles) (powerOn oneByteFiles .cleared fun _ => 0)
        handshakes = some (s, os) ∧
      s.target.ram = [0x77] ∧
      s.line = flashloader.make_tx_packet (confirmFor [READ_SW_VERSION_REQ] true 0) ∧
      ∃ more s' os', (∀ move ∈ more, move.Exact ∧ move.Plain) ∧
        run (systemStep oneByteFiles) s more = some (s', os') ∧ Done oneByteFiles s' := by
  have hrun : ∃ s os, run (systemStep oneByteFiles)
      (powerOn oneByteFiles .cleared fun _ => 0) handshakes = some (s, os) ∧
        s.target.ram = [0x77] ∧
        s.line = flashloader.make_tx_packet (confirmFor [READ_SW_VERSION_REQ] true 0) :=
    ⟨_, _, rfl, rfl, rfl⟩
  obtain ⟨s, os, hrun, hram, hline⟩ := hrun
  exact ⟨s, os, hrun, hram, hline, (prog_mode_programs_the_target oneByteFiles
    oneByteFiles_sound .cleared _ handshakes handshakes_plain s os hrun).2.1 oneByteFiles_plain⟩

end dect_prog.programming
