-- The handshakes that bring the loaders into the target (boot.c, preloader.c) and
-- the handlers that state.c keeps: the PROG mode of main.c. Texts for the console and
-- the waiting times are left out.
import DectProg.Loader
import DectProg.MainLoop

open dect_prog.package dect_prog.buffer dect_prog.event_loop

namespace dect_prog.main

/-! ## The state -/

def SOH : UInt8 := 0x01
def STX : UInt8 := 0x02
def ETX : UInt8 := 0x03
def ACK : UInt8 := 0x06
def NACK : UInt8 := 0x15

def PRELOADER_START : UInt8 := 1
def PRELOADER_READY : UInt8 := 2
def PRELOADER_NEW_BAUDRATE : UInt8 := 3
def PRELOADER_NEW_BAUDRATE_READY : UInt8 := 4
def PRELOADER_BAUD_230400 : UInt8 := 9

/-- The structure of util.h, as boot.c and preloader.c use it. -/
structure bin_img where
  img : List UInt8
  size : Int
  size_msb : UInt8
  size_lsb : UInt8
  checksum : UInt32
  deriving DecidableEq

/-- The states of the PROG mode. -/
inductive states
  | BOOT_STATE
  | PRELOADER_STATE
  | FLASHLOADER_STATE
  deriving DecidableEq, Repr

/-- The arrays that are compiled in, and the file target.bin with the bytes that lie behind it in
memory. -/
structure Files where
  PreBootPrgm441_20MHz : List UInt8
  FlashLoader441 : List UInt8
  target_bin : List UInt8
  behind : UInt8 × UInt8 × UInt8

/-- The variables of the modules, the bytes written to the tty so far and its speed. -/
structure Main where
  current_state : states
  preloader : bin_img
  flashloader : bin_img
  loader : Option (dect_prog.flashloader.Loader × buffer_t)
  tty : List UInt8
  baud : Nat

def Main.write (m : Main) (bytes : List UInt8) : Main := { m with tty := m.tty ++ bytes }

def tty_set_baud (m : Main) (baud : Nat) : Main := { m with baud }

/-- The first byte of the array, also where nothing was read. -/
def in0 (ev : Event) : UInt8 := ev.input.headD 0

/-! ## The images -/

/-- What `read_preloader` and `read_flashloader` do with their array. -/
def readImage (array : List UInt8) : bin_img where
  img := array
  size := array.length
  size_msb := UInt8.ofNat (array.length / 256)
  size_lsb := UInt8.ofNat array.length
  checksum := 0

def read_preloader (files : Files) : bin_img := readImage files.PreBootPrgm441_20MHz

def read_flashloader (files : Files) : bin_img := readImage files.FlashLoader441

/-- The loop over the bytes of an image; `chk` is a byte. -/
def chk (image : List UInt8) : UInt8 := image.foldl (fun chk b => chk ^^^ b) 0

def calculate_checksum (pr : bin_img) : bin_img :=
  { pr with checksum := (chk (pr.img.take pr.size.toNat)).toUInt32 }

/-! ## Entering a state -/

def init_boot_state (files : Files) (m : Main) : Main :=
  tty_set_baud { m with preloader := calculate_checksum (read_preloader files) } 19200

def init_preloader_state (files : Files) (m : Main) : Main :=
  let m := { m with flashloader := calculate_checksum (read_flashloader files) }
  (tty_set_baud m 9600).write [PRELOADER_START]

/-- The variables of flashloader.c. The first request is written before the file is read. -/
def initLoader (files : Files) (tty : List UInt8) :
    Option (dect_prog.flashloader.Loader × buffer_t) := do
  let (g0, g1, g2) := files.behind
  let l ← flashloader.init_flashloader_state tty files.target_bin g0 g1 g2
  let buf ← buffer_new 5000
  some (l, buf)

def setLoader (m : Main) : Option (dect_prog.flashloader.Loader × buffer_t) → Outcome Main
  | some (l, buf) => .running { m with loader := some (l, buf), tty := l.tty }
  | none => .undefined

def init_flashloader_state (files : Files) (m : Main) : Outcome Main :=
  setLoader m (initLoader files m.tty)

def state_add_handler (m : Main) (s : states) : Main := { m with current_state := s }

def state_transition (files : Files) (m : Main) : Outcome Main :=
  match m.current_state with
  | .BOOT_STATE => .running (init_boot_state files m)
  | .PRELOADER_STATE => .running (init_preloader_state files m)
  | .FLASHLOADER_STATE => init_flashloader_state files m

/-! ## boot.c -/

namespace boot

def send_size (m : Main) (e : event_t) : event_t :=
  { e with
    out := ((e.out.set 0 SOH).set 1 m.preloader.size_lsb).set 2 m.preloader.size_msb
    outcount := 3
    out_length := by simp [e.out_length] }

def send_preloader (m : Main) : Main :=
  m.write (m.preloader.img.take m.preloader.size.toNat)

def send_ack (m : Main) : Main := m.write [ACK]

/-- Only `e->in[0]` is looked at. The size is the one reply that goes through the event. -/
def handle_boot_package (files : Files) : Handler Main := fun m e ev =>
  if in0 ev = SOH then .running (m, e)
  else if in0 ev = STX then .running (m, send_size m e)
  else if in0 ev = ETX then .running (m, e)
  else if in0 ev = ACK then .running (send_preloader m, e)
  else if in0 ev = NACK then .running (m, e)
  else if (in0 ev).toUInt32 = m.preloader.checksum then
    (state_transition files (state_add_handler (send_ack m) .PRELOADER_STATE)).map fun m => (m, e)
  else .running (m, e)

end boot

/-! ## preloader.c -/

namespace preloader

def send_size (m : Main) : Main := m.write [m.flashloader.size_msb, m.flashloader.size_lsb]

def send_flashloader (m : Main) : Main :=
  m.write (m.flashloader.img.take m.flashloader.size.toNat)

def set_baudrate (m : Main) : Main :=
  (tty_set_baud (m.write [PRELOADER_BAUD_230400]) 230400).write [PRELOADER_NEW_BAUDRATE]

/-- Only `e->in[0]` is looked at. -/
def handle_preloader_package (files : Files) : Handler Main := silent fun m ev =>
  if in0 ev = PRELOADER_READY then .running (set_baudrate m)
  else if in0 ev = PRELOADER_NEW_BAUDRATE_READY then .running (send_flashloader (send_size m))
  else if (in0 ev).toUInt32 = m.flashloader.checksum then
    state_transition files (state_add_handler m .FLASHLOADER_STATE)
  else .running m

end preloader

/-! ## main.c -/

/-- The flash loader takes all the bytes. Its variables are set when it is in charge. -/
def handle_flashloader_package : Handler Main := silent fun m ev =>
  match m.loader with
  | none => .undefined
  | some (l, buf) =>
    (flashloader.handle_flashloader_package flashloader.flashloader_dispatch
        { l with tty := m.tty } buf ev).map
      fun (l, buf) => { m with loader := some (l, buf), tty := l.tty }

/-- The handler that is in charge when the turn begins. -/
def state_event_handler (files : Files) : Handler Main := fun m e ev =>
  match m.current_state with
  | .BOOT_STATE => boot.handle_boot_package files m e ev
  | .PRELOADER_STATE => preloader.handle_preloader_package files m e ev
  | .FLASHLOADER_STATE => handle_flashloader_package m e ev

/-- PROG mode, before the loop. -/
def progInit (files : Files) : Main :=
  init_boot_state files ⟨.BOOT_STATE, ⟨[], 0, 0, 0, 0⟩, ⟨[], 0, 0, 0, 0⟩, none, [], 0⟩

/-! ## The replies -/

theorem set_three {out : List UInt8} (h : 3 ≤ out.length) (b0 b1 b2 : UInt8) :
    (((out.set 0 b0).set 1 b1).set 2 b2).take 3 = [b0, b1, b2] := by
  match out, h with
  | _ :: _ :: _ :: _, _ => rfl

theorem reply_send_size (m : Main) (e : event_t) :
    reply (boot.send_size m e) = some [SOH, m.preloader.size_lsb, m.preloader.size_msb] := by
  have hlen : 3 ≤ e.out.length := by rw [e.out_length]; decide
  have hreply : reply (boot.send_size m e) = some ((boot.send_size m e).out.take 3) := rfl
  rw [hreply]
  exact congrArg some (set_three hlen _ _ _)

variable {files : Files} {m : Main} {ev : Event}

/-- But for the request of the size, boot.c leaves the reply as it is. -/
theorem boot_leaves (hstx : in0 ev ≠ STX) : Leaves (boot.handle_boot_package files) m ev := by
  intro e
  unfold boot.handle_boot_package
  rw [if_neg hstx, if_neg hstx]
  split_ifs
  · rfl
  · rfl
  · rfl
  · rfl
  · cases state_transition files (state_add_handler (boot.send_ack m) .PRELOADER_STATE) <;> rfl
  · rfl

theorem boot_replies (hstx : in0 ev = STX) :
    Replies (boot.handle_boot_package files) m ev
      [SOH, m.preloader.size_lsb, m.preloader.size_msb] := by
  unfold Replies boot.handle_boot_package
  simp only [hstx]
  exact ⟨m, fun e => ⟨boot.send_size m e, rfl, reply_send_size m e⟩⟩

theorem leaves_or_replies (files : Files) (m : Main) (ev : Event) :
    Leaves (state_event_handler files) m ev ∨
      ∃ bytes ≠ [], Replies (state_event_handler files) m ev bytes := by
  unfold Leaves Replies state_event_handler
  cases hs : m.current_state with
  | BOOT_STATE =>
    by_cases hstx : in0 ev = STX
    · exact .inr ⟨_, by simp, boot_replies hstx⟩
    · exact .inl (boot_leaves hstx)
  | PRELOADER_STATE => exact .inl (silent_leaves _ m ev)
  | FLASHLOADER_STATE => exact .inl (silent_leaves _ m ev)

/-- PROG mode in the loop of main.c. -/
def progMode (files : Files) : Mode Main where
  handler := state_event_handler files
  tty := Main.tty
  write := Main.write
  write_nil m := by rw [Main.write, List.append_nil]
  tty_write _ _ := rfl
  leaves_or_replies := leaves_or_replies files

end dect_prog.main
