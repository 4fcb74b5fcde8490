-- busmail.c with its memory: the queue is the linked list of fifo.c, each mail in it
-- is a packet with an array of its own, and each frame is made in two more arrays.
-- The nodes, the packets and the arrays of the frames are given back; the arrays of
-- the mails are not.
import DectProg.Blocks
import DectProg.BusReceive
import DectProg.FifoHeap
import Mathlib.Data.List.Forall2

open blocks dect_prog.fifo_heap
open dect_prog.package hiding load

namespace dect_prog.busmail.linked

/-- The packet as it is in the memory; NULL is `none`. -/
structure tx_packet_t where
  data : Option Nat
  size : Nat
  task_id : UInt8

inductive Block
  | tx_packet (tx : tx_packet_t)
  | array (bytes : List UInt8)

/-! ## Arrays -/

/-- All of a new array is written before it is read. -/
def malloc (m : Blocks Block) (n : Nat) : Blocks Block × Nat :=
  alloc m (.array (List.replicate n 0))

def readArray (m : Blocks Block) (p n : Nat) : Option (List UInt8) :=
  match load m p with
  | some (.array bytes) => if n ≤ bytes.length then some (bytes.take n) else none
  | _ => none

def writeArray (m : Blocks Block) (p off : Nat) (xs : List UInt8) : Option (Blocks Block) :=
  match load m p with
  | some (.array bytes) =>
    if off + xs.length ≤ bytes.length then store m p (.array (overwrite bytes off xs)) else none
  | _ => none

variable {m : Blocks Block} {p : Nat} {bytes xs : List UInt8}

theorem readArray.spec (h : load m p = some (.array bytes)) :
    readArray m p bytes.length = some bytes := by
  unfold readArray
  simp only [h, Nat.le_refl, if_true, List.take_length]

theorem writeArray.spec (off : Nat) (xs : List UInt8) (h : load m p = some (.array bytes))
    (hfits : off + xs.length ≤ bytes.length) :
    ∃ m', writeArray m p off xs = some m' ∧ load m' p = some (.array (overwrite bytes off xs)) ∧
      live m' = live m ∧ ∀ m0, load m0 p = none → Keeps m0 m → Keeps m0 m' := by
  obtain ⟨m', hstore⟩ := exists_store (.array (overwrite bytes off xs)) h
  refine ⟨m', ?_, load_store hstore, live_store hstore, fun m0 h0 hkeeps => hkeeps.store h0 hstore⟩
  unfold writeArray
  simp only [h, if_pos hfits, hstore]

/-! ## The module -/

/-- The variables of the module, and the bytes written to the tty so far. The queue is of pointers to
packets; its nodes are a memory of their own. -/
structure Variables where
  heap : Blocks Block
  tx_fifo : fifo_head_t Nat Nat
  tx_seq_l : UInt8
  rx_seq_l : UInt8
  tx_seq_r : UInt8
  rx_seq_r : UInt8
  tty : List UInt8

def busmail_init : Variables := ⟨[], fifo_new, 0, 0, 0, 0, []⟩

def make_supervisory_frame (v : Variables) (suid pf : UInt8) : UInt8 :=
  (suid <<< SUID_OFFSET) ||| (pf <<< PF_OFFSET) ||| v.rx_seq_l

def make_info_frame (v : Variables) (pf : UInt8) : UInt8 :=
  (v.tx_seq_l <<< TX_SEQ_OFFSET) ||| (pf <<< PF_OFFSET) ||| v.rx_seq_l

/-- `data` is what can be read at the pointer. -/
def send_packet (v : Variables) (data : List UInt8) : Option Variables := do
  let (heap, tx) := malloc v.heap (data.length + 4)
  let heap ← writeArray heap tx 0 (make_tx_packet data)
  let bytes ← readArray heap tx (data.length + 4)
  let heap ← free heap tx
  some { v with heap, tty := v.tty ++ bytes }

def busmail_tx (v : Variables) (data size : Nat) (pf task_id : UInt8) : Option Variables := do
  let (heap, r) := malloc v.heap (3 + size)
  let heap ← writeArray heap r 0 [make_info_frame v pf, API_PROG_ID, task_id]
  -- memcpy(&(r->mail_header), data, size)
  let mail ← readArray heap data size
  let heap ← writeArray heap r 3 mail
  let frame ← readArray heap r (3 + size)
  let v ← send_packet { v with heap } frame
  let heap ← free v.heap r
  some { v with heap, tx_seq_l := v.tx_seq_l + 1 }

/-- What `busmail_send` and `busmail_send0` do, which differ in the task. -/
def send (v : Variables) (data : List UInt8) (task_id : UInt8) : Option Variables := do
  let (heap, tx) := alloc v.heap (.tx_packet ⟨none, 0, 0⟩)
  let (heap, array) := malloc heap data.length
  let heap ← writeArray heap array 0 data
  let heap ← store heap tx (.tx_packet ⟨some array, data.length, task_id⟩)
  let tx_fifo ← fifo_add v.tx_fifo v.tx_fifo.allocations tx
  some { v with heap, tx_fifo }

def busmail_send (v : Variables) (data : List UInt8) : Option Variables := send v data API_TEST

def busmail_send0 (v : Variables) (data : List UInt8) : Option Variables := send v data 0

def busmail_ack (v : Variables) : Option Variables :=
  send_packet v [make_supervisory_frame v SUID_RR NO_PF]

/-- A pointer that leads nowhere is undefined. -/
def perform : Variables → List Call → Outcome Variables
  | v, [] => .running v
  | v, .exit status :: _ => .exited status v
  | v, .busmail_send data :: calls => (busmail_send v data).elim .undefined (perform · calls)
  | v, .busmail_send0 data :: calls => (busmail_send0 v data).elim .undefined (perform · calls)
  | v, .busmail_ack :: calls => (busmail_ack v).elim .undefined (perform · calls)

def unnumbered_control_frame (v : Variables) (p : packet_t) : Option Variables :=
  if p.byte 0 = SAMB_POLL_SET then
    send_packet { v with tx_seq_l := 0, rx_seq_l := 0, tx_seq_r := 0, rx_seq_r := 0 }
      [SAMB_NO_POLL_SET]
  else some v

def supervisory_control_frame (v : Variables) (p : packet_t) : Variables :=
  { v with rx_seq_r := (p.byte 0 &&& RX_SEQ_MASK) >>> RX_SEQ_OFFSET }

def accept (v : Variables) (h : UInt8) : Variables :=
  let tx_seq_r := (h &&& TX_SEQ_MASK) >>> TX_SEQ_OFFSET
  let rx_seq_l := tx_seq_r + 1
  { v with tx_seq_r
           rx_seq_r := (h &&& RX_SEQ_MASK) >>> RX_SEQ_OFFSET
           rx_seq_l := if rx_seq_l = 7 then 0 else rx_seq_l }

/-- A packet from the queue is sent, and given back. -/
def transmitPacket (v : Variables) (p : Nat) (tx : tx_packet_t) (data : Nat) : Option Variables := do
  let v ← busmail_tx v data tx.size PF tx.task_id
  let heap ← free v.heap p
  some { v with heap }

/-- `while (fifo_count(tx_fifo) > 0)`. -/
def transmit : Nat → Variables → Bool → Outcome (Variables × Bool)
  | 0, _, _ => .undefined
  | fuel + 1, v, ack =>
    if fifo_count v.tx_fifo > 0 then
      match fifo_get v.tx_fifo with
      | none => .undefined
      | some (tx_fifo, p) =>
        let v : Variables := { v with tx_fifo }
        match load v.heap p with
        | some (.tx_packet tx) =>
          -- assert(tx->data), assert(tx->size > 0)
          match tx.data with
          | none => .aborted (v, ack)
          | some data =>
            if 0 < tx.size then
              (transmitPacket v p tx data).elim .undefined (transmit fuel · false)
            else .aborted (v, ack)
        | _ => .undefined
    else .running (v, ack)

/-- The variables and the state of the application. -/
structure Process (κ : Type) where
  vars : Variables
  app : κ

variable {κ : Type}

def information_frame (application_frame : Callback κ) (s : Process κ) (p : packet_t) :
    Outcome (Process κ) :=
  -- Drop unwanted frames
  if p.byte 1 ≠ API_PROG_ID then .running s
  else
    let (app, calls) := application_frame s.app p
    match perform (accept s.vars (p.byte 0)) calls with
    | .running v =>
      match transmit ((fifo_count v.tx_fifo).toNat + 1) v true with
      | .running (v, ack) =>
        if ack then (busmail_ack v).elim .undefined fun v => .running ⟨v, app⟩ else .running ⟨v, app⟩
      | .exited status (v, _) => .exited status ⟨v, app⟩
      | .aborted (v, _) => .aborted ⟨v, app⟩
      | .undefined => .undefined
    | .exited status v => .exited status ⟨v, app⟩
    | .aborted v => .aborted ⟨v, app⟩
    | .undefined => .undefined

def busmail_dispatch (application_frame : Callback κ) (s : Process κ) (p : packet_t) :
    Outcome (Process κ) :=
  if p.byte 0 &&& PACKET_TYPE_MASK = INFORMATION_FRAME then information_frame application_frame s p
  else if p.byte 0 &&& PACKET_TYPE_MASK = CONTROL_FRAME then
    if p.byte 0 &&& CONTROL_FRAME_MASK = UNNUMBERED_CONTROL_FRAME then
      (unnumbered_control_frame s.vars p).elim .undefined fun v => .running ⟨v, s.app⟩
    else if p.byte 0 &&& CONTROL_FRAME_MASK = SUPERVISORY_CONTROL_FRAME then
      .running { s with vars := supervisory_control_frame s.vars p }
    else .running s
  else .running s

/-- One frame after the other, as long as the process lives. -/
def processRun (application_frame : Callback κ) : Process κ → List packet_t → Outcome (Process κ)
  | s, [] => .running s
  | s, p :: ps =>
    match busmail_dispatch application_frame s p with
    | .running s => processRun application_frame s ps
    | o => o

/-! ## What the functions do -/

variable {v : Variables}

theorem overwrite_all {dst : List UInt8} (h : xs.length = dst.length) : overwrite dst 0 xs = xs := by
  unfold overwrite
  rw [List.take_zero, List.nil_append, Nat.zero_add, h, List.drop_length, List.append_nil]

/-- An array that is written as a whole. -/
theorem writeArray_all (xs : List UInt8) (h : load m p = some (.array bytes))
    (hlen : xs.length = bytes.length) :
    ∃ m', writeArray m p 0 xs = some m' ∧ load m' p = some (.array xs) ∧
      live m' = live m ∧ ∀ m0, load m0 p = none → Keeps m0 m → Keeps m0 m' := by
  have hspec := writeArray.spec 0 xs h (by omega)
  rwa [overwrite_all hlen] at hspec

/-- The array of the frame is given back. -/
theorem send_packet.spec (v : Variables) (data : List UInt8) :
    ∃ heap, send_packet v data = some { v with heap, tty := v.tty ++ make_tx_packet data } ∧
      Keeps v.heap heap ∧ live heap = live v.heap := by
  have hlen : (make_tx_packet data).length = data.length + 4 := by
    rw [make_tx_packet_eq, format.encode_length]
    rfl
  have hfresh := load_fresh v.heap (.array (List.replicate (data.length + 4) 0))
  have hnew : live (malloc v.heap (data.length + 4)).1 = live v.heap + 1 := live_alloc _ _
  obtain ⟨m1, hwrite, hload, hlive, hkeeps⟩ := writeArray_all (make_tx_packet data)
    (load_alloc v.heap (.array (List.replicate (data.length + 4) 0)))
    (by rw [hlen, List.length_replicate])
  have hread := readArray.spec hload
  rw [hlen] at hread
  obtain ⟨m2, hfree⟩ := exists_free hload
  have hlive2 := live_free hfree
  refine ⟨m2, ?_, (hkeeps _ hfresh (keeps_alloc _ _)).free hfresh hfree, ?_⟩
  · unfold send_packet malloc
    simp only [hwrite, hread, hfree, Option.bind_eq_bind, Option.bind_some]
  · rw [live_alloc] at hlive
    omega

/-- The array of the mail stays. -/
theorem busmail_tx.spec {data : Nat} {mail : List UInt8} (h : load v.heap data = some (.array mail))
    (pf task_id : UInt8) :
    ∃ heap, busmail_tx v data mail.length pf task_id =
        some { v with heap, tx_seq_l := v.tx_seq_l + 1, tty := v.tty ++
          make_tx_packet (make_info_frame v pf :: API_PROG_ID :: task_id :: mail) } ∧
      Keeps v.heap heap ∧ live heap = live v.heap := by
  generalize hheader : [make_info_frame v pf, API_PROG_ID, task_id] = header
  have hthree : header.length = 3 := by rw [← hheader]; rfl
  have hfresh := load_fresh v.heap (.array (List.replicate (3 + mail.length) 0))
  have hzeros : (List.replicate (3 + mail.length) (0 : UInt8)).length = 3 + mail.length :=
    List.length_replicate
  -- The three bytes of the header, and the mail behind them.
  obtain ⟨m1, hwrite, hload, hlive, hkeeps⟩ := writeArray.spec 0 header
    (load_alloc v.heap (.array (List.replicate (3 + mail.length) 0))) (by omega)
  have hkeeps1 := hkeeps _ hfresh (keeps_alloc _ _)
  have hmail := readArray.spec (hkeeps1 _ _ h)
  have hlen : (overwrite (List.replicate (3 + mail.length) 0) 0 header).length = 3 + mail.length := by
    rw [overwrite_length (by omega), hzeros]
  obtain ⟨m2, hwrite2, hload2, hlive2, hkeeps2⟩ := writeArray.spec 3 mail hload
    (by omega)
  have hframe : overwrite (overwrite (List.replicate (3 + mail.length) 0) 0 header) 3 mail =
      header ++ mail := by
    have htwo := overwrite_overwrite (List.replicate (3 + mail.length) 0) 0 header mail
      (Nat.zero_le _)
    rw [Nat.zero_add, hthree] at htwo
    rw [htwo, overwrite_all (by rw [List.length_append, hthree, hzeros])]
  rw [hframe] at hload2
  have hread := readArray.spec hload2
  rw [List.length_append, hthree] at hread
  obtain ⟨m3, hsend, hkeeps3, hlive3⟩ := send_packet.spec { v with heap := m2 } (header ++ mail)
  obtain ⟨m4, hfree⟩ := exists_free (hkeeps3 _ _ hload2)
  have hlive4 := live_free hfree
  have hkeeps4 := ((hkeeps2 _ hfresh hkeeps1).trans hkeeps3).free hfresh hfree
  refine ⟨m4, ?_, hkeeps4, ?_⟩
  · unfold busmail_tx malloc
    simp only [hheader, hwrite, hmail, hwrite2, hread, hsend, hfree, Option.bind_eq_bind,
      Option.bind_some]
    rw [← hheader]
    rfl
  · rw [live_alloc] at hlive
    dsimp only at hlive3
    omega

/-! ## The queue of pointers -/

/-- The pointer leads to a packet, and that to the array of the mail. -/
def Owns (m : Blocks Block) (p : Nat) (tx : busmail.tx_packet_t) : Prop :=
  ∃ data, load m p = some (.tx_packet ⟨some data, tx.data.length, tx.task_id⟩) ∧
    load m data = some (.array tx.data)

/-- The pointers lead to the mails, each to another packet. -/
structure Queue (m : Blocks Block) (ps : List Nat) (txs : List busmail.tx_packet_t) : Prop where
  owns : List.Forall₂ (Owns m) ps txs
  nodup : ps.Nodup

variable {m' : Blocks Block} {ps : List Nat} {tx : busmail.tx_packet_t}
  {txs : List busmail.tx_packet_t}

theorem Owns.keeps (h : Owns m p tx) (hkeeps : Keeps m m') : Owns m' p tx := by
  obtain ⟨data, hp, hdata⟩ := h
  exact ⟨data, hkeeps _ _ hp, hkeeps _ _ hdata⟩

theorem Queue.keeps (h : Queue m ps txs) (hkeeps : Keeps m m') : Queue m' ps txs :=
  ⟨h.owns.imp fun _ _ howns => howns.keeps hkeeps, h.nodup⟩

theorem Queue.tail (h : Queue m (p :: ps) (tx :: txs)) : Queue m ps txs := by
  obtain ⟨howns, hnodup⟩ := h
  cases howns with
  | cons _ hrest => exact ⟨hrest, (List.nodup_cons.mp hnodup).2⟩

theorem owned_loads (h : List.Forall₂ (Owns m) ps txs) : ∀ p ∈ ps, load m p ≠ none := by
  induction h with
  | nil => simp
  | cons howns _ ih =>
    obtain ⟨data, hp, -⟩ := howns
    exact List.forall_mem_cons.mpr ⟨by rw [hp]; simp, ih⟩

/-- One more mail behind the others. -/
theorem Queue.concat (h : Queue m ps txs) (hkeeps : Keeps m m') (hp : load m p = none)
    (howns : Owns m' p tx) : Queue m' (ps ++ [p]) (txs ++ [tx]) := by
  refine ⟨List.rel_append (h.keeps hkeeps).owns (.cons howns .nil), ?_⟩
  have hnot : p ∉ ps := fun hmem => owned_loads h.owns p hmem hp
  rw [← List.concat_eq_append]
  exact h.nodup.concat hnot

/-- A mail for the queue takes two blocks. -/
theorem send.spec (h : Once v.tx_fifo ps) (data : List UInt8) (task_id : UInt8) :
    ∃ heap tx_fifo p, send v data task_id = some { v with heap, tx_fifo } ∧
      Once tx_fifo (ps ++ [p]) ∧ load v.heap p = none ∧ Keeps v.heap heap ∧
      Owns heap p ⟨data, task_id⟩ ∧ live heap = live v.heap + 2 := by
  have hfresh := load_fresh v.heap (Block.tx_packet ⟨none, 0, 0⟩)
  have hkeeps := keeps_alloc v.heap (Block.tx_packet ⟨none, 0, 0⟩)
  have hpacket := load_alloc v.heap (Block.tx_packet ⟨none, 0, 0⟩)
  have hlive := live_alloc v.heap (Block.tx_packet ⟨none, 0, 0⟩)
  generalize hnew : alloc v.heap (Block.tx_packet ⟨none, 0, 0⟩) = packet at *
  obtain ⟨m1, p⟩ := packet
  -- The array of the mail, and the packet that points to it.
  have hfresh1 := load_fresh m1 (Block.array (List.replicate data.length 0))
  have hlive1 := live_alloc m1 (Block.array (List.replicate data.length 0))
  obtain ⟨m2, hwrite, harray, hlive2, hkeeps2⟩ := writeArray_all data
    (load_alloc m1 (.array (List.replicate data.length 0))) (by rw [List.length_replicate])
  have hkeeps1 := hkeeps2 m1 hfresh1 (keeps_alloc _ _)
  have hpacket2 := hkeeps1 _ _ hpacket
  obtain ⟨m3, hstore⟩ := exists_store
    (.tx_packet ⟨some (alloc m1 (.array (List.replicate data.length 0))).2, data.length, task_id⟩)
    hpacket2
  obtain ⟨tx_fifo, hadd, hrep⟩ := fifo_add.once h p
  have hne : (alloc m1 (Block.array (List.replicate data.length 0))).2 ≠ p := by
    intro heq
    rw [heq] at hfresh1
    cases hfresh1.symm.trans hpacket
  refine ⟨m3, tx_fifo, p, ?_, hrep, hfresh, ?_, ⟨_, load_store hstore, ?_⟩, ?_⟩
  · unfold send malloc
    rw [hnew]
    simp only [hwrite, hstore, hadd, Option.bind_eq_bind, Option.bind_some]
  · exact (hkeeps.trans hkeeps1).store hfresh hstore
  · rw [load_store_ne hstore hne]
    exact harray
  · rw [live_store hstore, hlive2, hlive1]
    dsimp only at hlive
    omega

/-- A packet is given back: no other mail loses its packet, and none its array. -/
theorem owns_free {tx0 : tx_packet_t} (h : List.Forall₂ (Owns m) ps txs)
    (hp : load m p = some (.tx_packet tx0)) (hnot : p ∉ ps) (hfree : free m p = some m') :
    List.Forall₂ (Owns m') ps txs := by
  induction h with
  | nil => exact .nil
  | cons howns _ ih =>
    rename_i q tx ps txs
    obtain ⟨data, hq, hdata⟩ := howns
    obtain ⟨hne, hnot⟩ := not_or.mp (List.mem_cons.not.mp hnot)
    have hdne : data ≠ p := by
      rintro rfl
      rw [hp] at hdata
      cases hdata
    refine .cons ⟨data, ?_, ?_⟩ (ih hnot)
    · rw [load_free_ne hfree (Ne.symm hne), hq]
    · rw [load_free_ne hfree hdne, hdata]

end dect_prog.busmail.linked
