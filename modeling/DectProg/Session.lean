-- The link layer of busmail.c: the sequence counters, the queue of outgoing
-- mails, and what is done with each received frame. The application callback
-- is a parameter. Texts for the console are left out.
import DectProg.BusFrames
import Mathlib.Logic.Relation

open dect_prog.package

namespace dect_prog.busmail

def API_PROG_ID : UInt8 := 0x00
def API_TEST : UInt8 := 0x01

def PACKET_TYPE_MASK : UInt8 := 0x80
def INFORMATION_FRAME : UInt8 := 0x00
def CONTROL_FRAME : UInt8 := 0x80

def CONTROL_FRAME_MASK : UInt8 := 0xC0
def UNNUMBERED_CONTROL_FRAME : UInt8 := 0xC0
def SUPERVISORY_CONTROL_FRAME : UInt8 := 0x80

def TX_SEQ_MASK : UInt8 := 0x70
def TX_SEQ_OFFSET : UInt8 := 4
def RX_SEQ_MASK : UInt8 := 0x07
def RX_SEQ_OFFSET : UInt8 := 0
def PF_MASK : UInt8 := 0x08
def PF_OFFSET : UInt8 := 3

def SUID_MASK : UInt8 := 0x30
def SUID_RR : UInt8 := 0
def SUID_OFFSET : UInt8 := 4
def NO_PF : UInt8 := 0
def PF : UInt8 := 1

def SAMB_POLL_SET : UInt8 := 0xC8
def SAMB_NO_POLL_SET : UInt8 := 0xC0

/-- A mail in the queue. Its `size` is the number of its bytes. -/
structure tx_packet_t where
  data : List UInt8
  task_id : UInt8
  deriving DecidableEq, Repr

/-- A frame that was written to the tty, by the function that made it. -/
inductive Sent
  | information (frame_header task_id : UInt8) (mail : List UInt8)
  | acknowledgement (frame_header : UInt8)
  | unnumbered (frame_header : UInt8)
  deriving DecidableEq, Repr

/-- The payload of the frame. -/
def Sent.data : Sent → List UInt8
  | .information frame_header task_id mail => frame_header :: API_PROG_ID :: task_id :: mail
  | .acknowledgement frame_header => [frame_header]
  | .unnumbered frame_header => [frame_header]

/-- The bytes on the tty. -/
def Sent.bytes (f : Sent) : List UInt8 := make_tx_packet f.data

/-- The variables of the module, and the frames written to the tty so far. -/
structure Session where
  tx_fifo : List tx_packet_t
  tx_seq_l : UInt8
  rx_seq_l : UInt8
  tx_seq_r : UInt8
  rx_seq_r : UInt8
  tty : List Sent
  deriving DecidableEq, Repr

def busmail_init : Session := ⟨[], 0, 0, 0, 0, []⟩

/-! ## Headers -/

def make_supervisory_frame (s : Session) (suid pf : UInt8) : UInt8 :=
  (suid <<< SUID_OFFSET) ||| (pf <<< PF_OFFSET) ||| s.rx_seq_l

def make_info_frame (s : Session) (pf : UInt8) : UInt8 :=
  (s.tx_seq_l <<< TX_SEQ_OFFSET) ||| (pf <<< PF_OFFSET) ||| s.rx_seq_l

/-! ## What is sent -/

def busmail_tx (s : Session) (data : List UInt8) (pf task_id : UInt8) : Session :=
  { s with tty := s.tty ++ [.information (make_info_frame s pf) task_id data]
           tx_seq_l := s.tx_seq_l + 1 }

def busmail_send (s : Session) (data : List UInt8) : Session :=
  { s with tx_fifo := s.tx_fifo ++ [⟨data, API_TEST⟩] }

def busmail_send0 (s : Session) (data : List UInt8) : Session :=
  { s with tx_fifo := s.tx_fifo ++ [⟨data, 0⟩] }

def busmail_ack (s : Session) : Session :=
  { s with tty := s.tty ++ [.acknowledgement (make_supervisory_frame s SUID_RR NO_PF)] }

/-! ## The application -/

/-- What an application callback calls. -/
inductive Call
  | busmail_send (data : List UInt8)
  | busmail_send0 (data : List UInt8)
  | busmail_ack
  | exit (status : Int)
  deriving DecidableEq, Repr

/-- An application callback with a state of its own. It has a pointer to the packet. -/
def Callback (κ : Type) : Type := κ → packet_t → κ × List Call

def perform : Session → List Call → Outcome Session
  | s, [] => .running s
  | s, .busmail_send data :: calls => perform (busmail_send s data) calls
  | s, .busmail_send0 data :: calls => perform (busmail_send0 s data) calls
  | s, .busmail_ack :: calls => perform (busmail_ack s) calls
  | s, .exit status :: _ => .exited status s

/-! ## What is done with a frame -/

def unnumbered_control_frame (s : Session) (p : packet_t) : Session :=
  if p.byte 0 = SAMB_POLL_SET then
    { s with tx_seq_l := 0, rx_seq_l := 0, tx_seq_r := 0, rx_seq_r := 0
             tty := s.tty ++ [.unnumbered SAMB_NO_POLL_SET] }
  else s

/-- The three kinds of a supervisory frame are only printed. -/
def supervisory_control_frame (s : Session) (p : packet_t) : Session :=
  { s with rx_seq_r := (p.byte 0 &&& RX_SEQ_MASK) >>> RX_SEQ_OFFSET }

/-- The counters after an information frame with the header `h`. -/
def accept (s : Session) (h : UInt8) : Session :=
  let tx_seq_r := (h &&& TX_SEQ_MASK) >>> TX_SEQ_OFFSET
  let rx_seq_l := tx_seq_r + 1
  { s with tx_seq_r
           rx_seq_r := (h &&& RX_SEQ_MASK) >>> RX_SEQ_OFFSET
           rx_seq_l := if rx_seq_l = 7 then 0 else rx_seq_l }

/-- `while (fifo_count(tx_fifo) > 0)`; `ack` says that no packet was sent yet. -/
def transmit : List tx_packet_t → Session → Bool → Outcome (Session × Bool)
  | [], s, ack => .running ({ s with tx_fifo := [] }, ack)
  | tx :: fifo, s, ack =>
    let s := { s with tx_fifo := fifo }
    -- assert(tx->size > 0)
    if 0 < tx.data.length then
      transmit fifo (busmail_tx s tx.data PF tx.task_id) false
    else .aborted (s, ack)

/-- The link layer and the state of the application. -/
structure Link (κ : Type) where
  session : Session
  app : κ

variable {κ : Type}

def information_frame (application_frame : Callback κ) (s : Link κ) (p : packet_t) :
    Outcome (Link κ) :=
  -- Drop unwanted frames
  if p.byte 1 ≠ API_PROG_ID then .running s
  else
    let (app, calls) := application_frame s.app p
    match perform (accept s.session (p.byte 0)) calls with
    | .running session =>
      match transmit session.tx_fifo session true with
      | .running (session, ack) => .running ⟨if ack then busmail_ack session else session, app⟩
      | .exited status (session, _) => .exited status ⟨session, app⟩
      | .aborted (session, _) => .aborted ⟨session, app⟩
      | .undefined => .undefined
    | .exited status session => .exited status ⟨session, app⟩
    | .aborted session => .aborted ⟨session, app⟩
    | .undefined => .undefined

def busmail_dispatch (application_frame : Callback κ) (s : Link κ) (p : packet_t) :
    Outcome (Link κ) :=
  if p.byte 0 &&& PACKET_TYPE_MASK = INFORMATION_FRAME then information_frame application_frame s p
  else if p.byte 0 &&& PACKET_TYPE_MASK = CONTROL_FRAME then
    if p.byte 0 &&& CONTROL_FRAME_MASK = UNNUMBERED_CONTROL_FRAME then
      .running { s with session := unnumbered_control_frame s.session p }
    else if p.byte 0 &&& CONTROL_FRAME_MASK = SUPERVISORY_CONTROL_FRAME then
      .running { s with session := supervisory_control_frame s.session p }
    else .running s
  else .running s

end dect_prog.busmail
