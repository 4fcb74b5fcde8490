-- When the flash loader reports success (flashloader.c). It keeps no account of
-- what was confirmed: a checksum confirm with the right checksum ends the
-- process with 0, wherever in the exchange it comes. What success says about
-- the image rests on confirms that follow the requests.
import DectProg.Flashing

open machine dect_prog.package

namespace dect_prog.flashloader

/-! ## What happened in a run -/

/-- A packet that was received, and the requests that were sent in answer. -/
abbrev Exchange := packet_t × List (List UInt8)

def requests (h : List Exchange) : List (List UInt8) := h.flatMap (·.2)

def checksumRequest (pr : bin_img) : List UInt8 :=
  [CALC_CRC32_REQ] ++ le32 0 ++ le32 (u32 pr.size)

/-- The block at `of` has a byte other than 0xFF. -/
def Used (pr : bin_img) (of : Nat) : Prop :=
  ∃ i < 2048, ∃ x, (of + i : Nat) < pr.size ∧ pr.img[of + i]? = some x ∧ x ≠ 0xff

/-- The block at `of` was requested, and after that a confirm for its address came with TRUE. -/
def Written (pr : bin_img) (h : List Exchange) (of : Nat) : Prop :=
  ∃ h1 h2 m e, h = h1 ++ h2 ∧ m.bytes ∈ requests h1 ∧ Requests pr of m ∧ e ∈ h2 ∧
    e.1.byte 0 = PROG_FLASH_CFM ∧ cfmAddress e.1 = of ∧ cfmConfirm e.1 = TRUE

/-- The checksum was asked for when every block that is not all 0xFF was written. -/
def AllWritten (pr : bin_img) (h : List Exchange) : Prop :=
  ∃ h1 e h2, h = h1 ++ e :: h2 ∧ checksumRequest pr ∈ e.2 ∧
    ∀ of, 2048 ∣ of → Used pr of → Written pr (h1 ++ [e]) of

/-- The packet follows the requests sent so far: a program confirm has the address of a program
request that was sent, and a checksum confirm comes after a checksum request. -/
def Follows (rs : List (List UInt8)) (p : packet_t) : Prop :=
  (p.byte 0 = PROG_FLASH_CFM →
    ∃ r ∈ rs, r.head? = some PROG_FLASH_REQ ∧ cfmAddress p = uint32Of r 1) ∧
  (p.byte 0 = CALC_CRC32_CFM → ∃ r ∈ rs, r.head? = some CALC_CRC32_REQ)

/-- Each packet follows the requests that were sent before it. -/
def AllFollow (rs : List (List UInt8)) : List packet_t → List (List (List UInt8)) → Prop
  | p :: ps, o :: os => Follows rs p ∧ AllFollow (rs ++ o) ps os
  | _, _ => True

theorem Written.append {pr : bin_img} {h : List Exchange} {of : Nat} (hw : Written pr h of)
    (h' : List Exchange) : Written pr (h ++ h') of := by
  obtain ⟨h1, h2, m, e, rfl, hm, hreq, he, hp, ha, hc⟩ := hw
  exact ⟨h1, h2 ++ h', m, e, List.append_assoc .., hm, hreq, List.mem_append_left _ he, hp, ha, hc⟩

theorem AllWritten.append {pr : bin_img} {h : List Exchange} (hc : AllWritten pr h)
    (h' : List Exchange) : AllWritten pr (h ++ h') := by
  obtain ⟨h1, e, h2, rfl, he, hall⟩ := hc
  exact ⟨h1, e, h2 ++ h', by rw [List.append_assoc, List.cons_append], he, hall⟩

theorem mem_requests_append {h h' : List Exchange} {r : List UInt8} :
    r ∈ requests (h ++ h') ↔ r ∈ requests h ∨ r ∈ requests h' := by
  rw [requests, List.flatMap_append, List.mem_append]
  rfl

/-- A block that was written was requested. -/
theorem AllWritten.requested {pr : bin_img} {h : List Exchange} (hall : AllWritten pr h) {of : Nat}
    (hdvd : 2048 ∣ of) (hused : Used pr of) : ∃ m : prog_flash_t, m.bytes ∈ requests h := by
  obtain ⟨h1, e, h2, rfl, _, hall⟩ := hall
  obtain ⟨h3, h4, m, _, hsplit, hm, _⟩ := hall of hdvd hused
  have hmem : m.bytes ∈ requests (h1 ++ [e]) := by
    rw [hsplit]
    exact mem_requests_append.mpr (.inl hm)
  refine ⟨m, ?_⟩
  rw [List.append_cons]
  exact mem_requests_append.mpr (.inl hmem)

/-! ## What a run keeps -/

/-- The blocks before each one that was requested are written, and when the checksum was asked for,
all of them were. -/
structure Covers (pr : bin_img) (h : List Exchange) : Prop where
  program : ∀ r ∈ requests h, r.head? = some PROG_FLASH_REQ → ∃ of m, r = m.bytes ∧
    Requests pr of m ∧ 2048 ∣ of ∧ (of : Int) + 2048 ≤ INT_MAX ∧
    ∀ of' < of, 2048 ∣ of' → Used pr of' → Written pr h of'
  checksum : (∃ r ∈ requests h, r.head? = some CALC_CRC32_REQ) → AllWritten pr h

theorem Covers.nil (pr : bin_img) : Covers pr [] := by
  constructor
  · intro r hr _
    cases hr
  · rintro ⟨r, hr, _⟩
    cases hr

variable {pr : bin_img} {h : List Exchange} {p : packet_t} {o : List (List UInt8)}

theorem requests_step (h : List Exchange) (p : packet_t) (o : List (List UInt8)) :
    requests (h ++ [(p, o)]) = requests h ++ o := by
  simp [requests]

/-- Requests that were made before. -/
theorem Covers.earlier (hc : Covers pr h) {r : List UInt8} (hr : r ∈ requests h)
    (hhead : r.head? = some PROG_FLASH_REQ) : ∃ of m, r = m.bytes ∧ Requests pr of m ∧ 2048 ∣ of ∧
      (of : Int) + 2048 ≤ INT_MAX ∧
      ∀ of' < of, 2048 ∣ of' → Used pr of' → Written pr (h ++ [(p, o)]) of' := by
  obtain ⟨of, m, hm, hreq, hdvd, hmax, hall⟩ := hc.program r hr hhead
  exact ⟨of, m, hm, hreq, hdvd, hmax, fun of' h1 h2 h3 => (hall of' h1 h2 h3).append _⟩

/-- Requests that are for no block and no checksum. -/
theorem Covers.other (hc : Covers pr h) (ho : ∀ r ∈ o, r.head? ≠ some PROG_FLASH_REQ ∧
    r.head? ≠ some CALC_CRC32_REQ) : Covers pr (h ++ [(p, o)]) := by
  constructor
  · intro r hr hhead
    rw [requests_step, List.mem_append] at hr
    rcases hr with hr | hr
    · exact hc.earlier hr hhead
    · exact absurd hhead (ho r hr).1
  · rintro ⟨r, hr, hhead⟩
    rw [requests_step, List.mem_append] at hr
    rcases hr with hr | hr
    · exact (hc.checksum ⟨r, hr, hhead⟩).append _
    · exact absurd hhead (ho r hr).2

/-- A block of 0xFF is not used. -/
theorem not_used {off of of' : Nat} (hff : ∀ i, off ≤ i → i < of → pr.img[i]? = some 0xff)
    (hoff : off ≤ of') (hof : of' + 2048 ≤ of) : ¬ Used pr of' := by
  rintro ⟨i, hi, x, _, hx, hne⟩
  rw [hff (of' + i) (by omega) (by omega)] at hx
  cases hx
  exact hne rfl

/-- A request for the next block from `off` on, when the blocks before `off` are written. -/
theorem Covers.program_request (hc : Covers pr h) {off : Nat} {m : prog_flash_t}
    (hm : progFlash pr off = some m) (hdvd : 2048 ∣ off)
    (hbefore : ∀ of < off, 2048 ∣ of → Used pr of → Written pr (h ++ [(p, [m.bytes])]) of) :
    Covers pr (h ++ [(p, [m.bytes])]) := by
  obtain ⟨of, k, hof, hreq, hmax, hff, -⟩ := progFlash_asks hm
  constructor
  · intro r hr hhead
    rw [requests_step, List.mem_append] at hr
    rcases hr with hr | hr
    · exact hc.earlier hr hhead
    · refine ⟨of, m, List.mem_singleton.mp hr, hreq, by omega, hmax, fun of' hlt hdvd' hused => ?_⟩
      by_cases hbelow : of' < off
      · exact hbefore of' hbelow hdvd' hused
      · exact absurd hused (not_used hff (by omega) (by omega))
  · rintro ⟨r, hr, hhead⟩
    rw [requests_step, List.mem_append] at hr
    rcases hr with hr | hr
    · exact (hc.checksum ⟨r, hr, hhead⟩).append _
    · rw [List.mem_singleton.mp hr, progFlash_bytes_head] at hhead
      exact absurd hhead (by decide)

/-- A program confirm that follows the requests is for a block that was requested. -/
theorem Covers.follows (hc : Covers pr h) (hp : p.byte 0 = PROG_FLASH_CFM)
    (hf : Follows (requests h) p) :
    ∃ of m, cfmAddress p = (of : Nat) ∧ m.bytes ∈ requests h ∧ Requests pr of m ∧ 2048 ∣ of ∧
      (of : Int) + 2048 ≤ INT_MAX ∧ ∀ of' < of, 2048 ∣ of' → Used pr of' → Written pr h of' := by
  obtain ⟨r, hr, hhead, haddress⟩ := hf.1 hp
  obtain ⟨of, m, rfl, hreq, hdvd, hmax, hall⟩ := hc.program r hr hhead
  have hfit : m.Address < 4294967296 := by
    rw [hreq.address]
    unfold INT_MAX at hmax
    omega
  rw [bytes_Address (by rw [hreq.address]; omega) hfit, hreq.address] at haddress
  exact ⟨of, m, haddress, hr, hreq, hdvd, hmax, hall⟩

/-- A confirm with TRUE for a block that was requested: that block is written too. -/
theorem Covers.confirmed (hc : Covers pr h) (hp : p.byte 0 = PROG_FLASH_CFM)
    (htrue : cfmConfirm p = TRUE) (hf : Follows (requests h) p) :
    ∃ of : Nat, cfmAddress p = of ∧ 2048 ∣ of ∧ (of : Int) + 2048 ≤ INT_MAX ∧
      ∀ of' < of + 2048, 2048 ∣ of' → Used pr of' → Written pr (h ++ [(p, o)]) of' := by
  obtain ⟨of, m, haddress, hm, hreq, hdvd, hmax, hall⟩ := hc.follows hp hf
  refine ⟨of, haddress, hdvd, hmax, fun of' hlt hdvd' hused => ?_⟩
  by_cases hbelow : of' < of
  · exact (hall of' hbelow hdvd' hused).append _
  · have hsame : of' = of := by omega
    subst hsame
    exact ⟨h, [(p, o)], m, (p, o), rfl, hm, hreq, by simp, hp, haddress, htrue⟩

/-- One dispatch of a packet that follows the requests. -/
theorem Covers.step (hc : Covers pr h) {l l' : Loader} (hpr : l.pr = pr)
    (hf : Follows (requests h) p) (hs : Sends l p l' o) : Covers pr (h ++ [(p, o)]) := by
  subst hpr
  cases hs with
  | config hp hl =>
    apply hc.other
    simp [WRITE_CONFIG_REQ, PROG_FLASH_REQ, CALC_CRC32_REQ]
  | flash_type hp hl =>
    apply hc.other
    simp [READ_PROPRIETARY_DATA_REQ, PROG_FLASH_REQ, CALC_CRC32_REQ]
  | erase hp hl =>
    apply hc.other
    simp [FLASH_ERASE_REQ, PROG_FLASH_REQ, CALC_CRC32_REQ]
  | nothing hp hl =>
    apply hc.other
    simp
  | program offset m hp hm hl =>
    rcases hp with ⟨_, hoff⟩ | ⟨hp, htrue, _, hoff⟩ | ⟨hp, _, hoff⟩
    · -- An erase that is confirmed: from the first block on.
      have hfirst : progFlash l.pr (0 : Nat) = some m := by rw [← hm, hoff]; rfl
      exact hc.program_request hfirst (Nat.dvd_zero _) fun of hlt => absurd hlt (by omega)
    · -- The block is confirmed: from the next one on.
      obtain ⟨of, haddress, hdvd, hmax, hall⟩ := hc.confirmed (o := [m.bytes]) hp htrue hf
      have hnext : offset = (of + 2048 : Nat) := by
        rw [hoff, haddress, s32_of_range (by omega) (by omega)]
        omega
      rw [hnext] at hm
      exact hc.program_request hm (Nat.dvd_add hdvd (Nat.dvd_refl 2048)) hall
    · -- The block is refused: once more from it on.
      obtain ⟨of, -, haddress, -, -, hdvd, hmax, hall⟩ := hc.follows hp hf
      rw [hoff, haddress, s32_of_range (by omega) (by omega)] at hm
      exact hc.program_request hm hdvd fun of' h1 h2 h3 => (hall of' h1 h2 h3).append _
  | checksum hp htrue hend hl =>
    obtain ⟨of, haddress, hdvd, hmax, hall⟩ := hc.confirmed (o := [checksumRequest l.pr]) hp htrue hf
    have hsize := l.pr.size_nonneg
    have hle := l.pr.size_le
    -- The confirmed block is the last one.
    have hlast : l.pr.size ≤ (of : Int) + 2048 := by
      rw [haddress, u32_of_range (by omega) (by omega), u32_of_range hsize (by omega)] at hend
      omega
    constructor
    · intro r hr hhead
      rw [requests_step, List.mem_append] at hr
      rcases hr with hr | hr
      · exact hc.earlier hr hhead
      · rw [List.mem_singleton.mp hr] at hhead
        exact absurd (Option.some.inj hhead) (by decide : CALC_CRC32_REQ ≠ PROG_FLASH_REQ)
    · intro _
      refine ⟨h, (p, [checksumRequest l.pr]), [], rfl, by simp, fun of' hdvd' hused => ?_⟩
      have hin : (of' : Int) < l.pr.size := by
        obtain ⟨i, _, _, hi, _⟩ := hused
        omega
      exact hall of' (by omega) hdvd' hused

theorem covers_run (ps : List packet_t) :
    ∀ (h : List Exchange) (l l' : Loader) (os : List (List (List UInt8))), Covers l.pr h →
      AllFollow (requests h) ps os → run flashStep l ps = some (l', os) →
      Covers l.pr (h ++ ps.zip os) ∧ l'.pr = l.pr := by
  induction ps with
  | nil =>
    intro h l l' os hc _ hrun
    cases hrun
    rw [List.zip_nil_left, List.append_nil]
    exact ⟨hc, rfl⟩
  | cons p ps ih =>
    intro h l l' os hc hf hrun
    obtain ⟨l1, o, os', hstep, hrest, rfl⟩ := run_cons_eq_some.mp hrun
    have hs := flashStep_sends hstep
    obtain ⟨hfp, hf⟩ := hf
    rw [← requests_step h p o] at hf
    obtain ⟨hc', hpr⟩ := ih (h ++ [(p, o)]) l1 l' os'
      (by rw [hs.pr]; exact hc.step rfl hfp hs) hf hrest
    rw [hs.pr] at hc' hpr
    rw [List.append_assoc] at hc'
    exact ⟨hc', hpr⟩

/-! ## Success -/

/-- The process ends with 0 on a checksum confirm with the right checksum, and on nothing else. -/
theorem exit_zero {l l' : Loader} {p : packet_t} (h : flashloader_dispatch l p = .exited 0 l') :
    p.byte 0 = CALC_CRC32_CFM ∧ cfmCrc32 p = l.pr.checksum.toNat := by
  obtain ⟨hp, hcfm⟩ := exits_on_checksum h
  unfold calc_crc32_cfm at hcfm
  split at hcfm
  · rename_i hcrc
    exact ⟨hp, hcrc⟩
  · cases hcfm

/-- In every run, the process ends with 0 only on a checksum confirm with the checksum of the image;
and when every packet follows the requests, only after every block that is not all 0xFF was
requested and confirmed with TRUE, and the checksum was asked for after that. -/
theorem success_is_reported_for_a_written_image (l l' l'' : Loader) (ps : List packet_t)
    (os : List (List (List UInt8))) (p : packet_t) (hrun : run flashStep l ps = some (l', os))
    (hexit : flashloader_dispatch l' p = .exited 0 l'') :
    p.byte 0 = CALC_CRC32_CFM ∧ cfmCrc32 p = l.pr.checksum.toNat ∧
      (AllFollow [] ps os → Follows (requests (ps.zip os)) p → AllWritten l.pr (ps.zip os)) := by
  obtain ⟨hp, hcrc⟩ := exit_zero hexit
  have hpr : l'.pr = l.pr :=
    run_invariant (fun s i s' o (hs : s.pr = l.pr) h => (flashStep_sends h).pr.trans hs)
      ps l l' os rfl hrun
  refine ⟨hp, by rw [← hpr]; exact hcrc, fun hall hlast => ?_⟩
  obtain ⟨hc, -⟩ := covers_run ps [] l l' os (Covers.nil l.pr) hall hrun
  exact hc.checksum (hlast.2 hp)

/-- A dispatch that sends one packet. -/
theorem flashStep_packet {l : Loader} {p : packet_t} {data : List UInt8}
    (hlen : data.length ≤ 65535) (h : flashloader_dispatch l p = .running (send_packet l data)) :
    flashStep l p = some (send_packet l data, [data]) := by
  unfold flashStep
  rw [h]
  dsimp only
  rw [sent_packet hlen rfl]

/-- A confirm with TRUE for the first block. -/
def firstBlock : packet_t := blank.carry [0x12, 0, 0, 0, 0, 1, 0, 1] (by decide)

/-- The first block of an image of one byte is the last one. -/
theorem flashStep_firstBlock {l : Loader} (hsize : l.pr.size = 1) :
    flashStep l firstBlock = some (calc_crc32_req l, [checksumRequest l.pr]) := by
  have hend : ¬ u32 (cfmAddress firstBlock + 0x800) < u32 l.pr.size := by
    rw [hsize]
    decide
  apply flashStep_packet (by simp)
  rw [dispatch_program (by decide), prog_flash_cfm, if_pos (by decide), if_neg hend]
  rfl

/-- The image of one byte is programmed: an erase that was confirmed, and the confirm of its one
block. -/
theorem one_block_run {l : Loader} (himg : Image l.pr [1]) :
    ∃ m : prog_flash_t, cfmAddress firstBlock = uint32Of m.bytes 1 ∧
      run flashStep l [blank.carry [0x16] (by decide), firstBlock] =
        some (calc_crc32_req (send_packet l m.bytes), [[m.bytes], [checksumRequest l.pr]]) := by
  obtain ⟨of, m, hm, hblock, -, hof, -⟩ := progFlash.spec himg (by decide) (by decide)
    (Nat.lt_add_one 0) (Nat.dvd_zero _)
  have hzero : of = 0 := by simpa using hof
  have hlen := progFlash_Data_length hm
  have hreq : program_flash l = some (send_packet l m.bytes) := by
    have hm0 : progFlash l.pr 0 = some m := hm
    rw [program_flash, prog_flash_req, hm0]
    rfl
  have hstep : flashStep l (blank.carry [0x16] (by decide)) =
      some (send_packet l m.bytes, [m.bytes]) := by
    apply flashStep_packet (by rw [progFlash_bytes_length]; omega)
    rw [dispatch_erase (by decide), hreq]
    rfl
  refine ⟨m, ?_, run_cons_eq_some.mpr ⟨_, _, _, hstep,
    run_cons_eq_some.mpr ⟨_, _, [], flashStep_firstBlock himg.size, rfl, rfl⟩, rfl⟩⟩
  rw [bytes_Address (by rw [hblock.address]; omega) (by rw [hblock.address, hzero]; decide),
    hblock.address, hzero]
  decide

/-- The image of one byte, from the erase to the checksum. -/
theorem success_is_reported_for_a_written_image_of_one_byte :
    ∃ os, AllWritten oneByteLoader.pr
      ([blank.carry [0x16] (by decide), firstBlock].zip os) := by
  let l1 := send_packet oneByteLoader [0x11, 0, 0, 0, 0, 1, 0, 1, 0xff]
  let l2 := calc_crc32_req l1
  have hstep1 : flashStep oneByteLoader (blank.carry [0x16] (by decide)) =
      some (l1, [[0x11, 0, 0, 0, 0, 1, 0, 1, 0xff]]) := flashStep_packet (by decide) rfl
  have hstep2 : flashStep l1 firstBlock = some (l2, [checksumRequest oneByteLoader.pr]) :=
    flashStep_firstBlock rfl
  have hrun : run flashStep oneByteLoader [blank.carry [0x16] (by decide), firstBlock] =
      some (l2, _) :=
    run_cons_eq_some.mpr ⟨l1, _, _, hstep1, run_cons_eq_some.mpr ⟨l2, _, [], hstep2, rfl, rfl⟩, rfl⟩
  have hexit : flashloader_dispatch l2
      (blank.carry [0x14, 0, 0, 0, 0, 1, 0, 0, 0, 0, 0, 0, 0] (by decide)) = .exited 0 l2 := by
    rw [dispatch_checksum (by decide), calc_crc32_cfm, if_pos (by decide)]
  refine ⟨_, (success_is_reported_for_a_written_image _ _ _ _ _ _ hrun hexit).2.2 ?_ ?_⟩
  · refine ⟨⟨fun h => absurd h (by decide), fun h => absurd h (by decide)⟩,
      ⟨fun _ => ⟨_, List.mem_singleton.mpr rfl, by decide, by decide⟩,
        fun h => absurd h (by decide)⟩, trivial⟩
  · exact ⟨fun h => absurd h (by decide),
      fun _ => ⟨checksumRequest oneByteLoader.pr, by simp [requests], rfl⟩⟩

/-- A checksum confirm with an Address and a Length that are not those of the request. -/
theorem exits_on_any_range (l : Loader) : ∃ p, p.byte 0 = CALC_CRC32_CFM ∧ uint32At p 1 = 7 ∧
    uint32At p 5 = 7 ∧ ∀ l' : Loader, l'.pr = l.pr → flashloader_dispatch l' p = .exited 0 l' := by
  have hsum := l.pr.checksum.toNat_lt
  have hlen : ([CALC_CRC32_CFM] ++ le32 7 ++ le32 7 ++ le32 l.pr.checksum.toNat).length ≤
      PACKET_SIZE := by
    simp
    decide
  refine ⟨blank.carry _ hlen, carry_head _ _ rfl, ?_, ?_, fun l' hpr => ?_⟩
  · rw [carry_uint32 _ _ (by simp)]
    rfl
  · rw [carry_uint32 _ _ (by simp)]
    rfl
  · rw [dispatch_checksum (carry_head _ _ rfl), calc_crc32_cfm, if_pos]
    unfold cfmCrc32
    rw [carry_uint32 _ _ (by simp), hpr]
    exact ofLe32_le32 (by omega) (by omega)

/-- A checksum confirm may come when the checksum was asked for. -/
theorem follows_checksum {rs : List (List UInt8)} {p : packet_t} (hp : p.byte 0 = CALC_CRC32_CFM)
    (pr : bin_img) (h : checksumRequest pr ∈ rs) : Follows rs p := by
  refine ⟨fun hprog => ?_, fun _ => ⟨_, h, rfl⟩⟩
  rw [hp] at hprog
  exact absurd hprog (by decide)

/-- Three ways to success. A checksum confirm as the first packet of all; one after a program
confirm that answers no request; and one for another range, after everything was written. -/
theorem success_is_reported_before_anything_was_written :
    ∃ l p, init_flashloader_state [] [1] 0 0 0 = some l ∧ Used l.pr 0 ∧
      (flashloader_dispatch l p = .exited 0 l ∧ ¬ AllWritten l.pr []) ∧
      (∃ c l' os, run flashStep l [c] = some (l', os) ∧ Follows (requests ([c].zip os)) p ∧
        flashloader_dispatch l' p = .exited 0 l' ∧ ¬ AllWritten l.pr ([c].zip os)) ∧
      (∃ ps l' os, run flashStep l ps = some (l', os) ∧ AllFollow [] ps os ∧
        Follows (requests (ps.zip os)) p ∧ flashloader_dispatch l' p = .exited 0 l' ∧
        uint32At p 1 ≠ 0 ∧ uint32At p 5 ≠ l.pr.size) := by
  obtain ⟨l, hinit, himg, -⟩ := init_flashloader_state.spec [1] 0 0 0 (by decide)
  obtain ⟨p, hp, haddress, hlength, hexit⟩ := exits_on_any_range l
  have hsize : l.pr.size = 1 := himg.size
  have hused : Used l.pr 0 := by
    obtain ⟨g0, g1, g2, hbytes, _⟩ := himg.img
    exact ⟨0, by decide, 1, by rw [hsize]; decide, by rw [hbytes]; rfl, by decide⟩
  refine ⟨l, p, hinit, hused, ⟨hexit l rfl, ?_⟩, ?_, ?_⟩
  · rintro ⟨h1, e, h2, h, _⟩
    simp at h
  · have hrun : run flashStep l [firstBlock] = some (calc_crc32_req l, _) :=
      run_cons_eq_some.mpr ⟨_, _, [], flashStep_firstBlock hsize, rfl, rfl⟩
    refine ⟨firstBlock, _, _, hrun, follows_checksum hp l.pr (by simp [requests]),
      hexit _ rfl, ?_⟩
    intro hall
    -- The only request is that for the checksum.
    obtain ⟨m, hm⟩ := hall.requested (Nat.dvd_zero _) hused
    have hm' : m.bytes = checksumRequest l.pr := by simpa [requests] using hm
    have hhead : PROG_FLASH_REQ = CALC_CRC32_REQ :=
      Option.some.inj (congrArg List.head? hm')
    exact absurd hhead (by decide)
  · obtain ⟨m, hplace, hrun⟩ := one_block_run himg
    refine ⟨_, _, _, hrun, ⟨⟨fun h => absurd h (by decide), fun h => absurd h (by decide)⟩,
      ⟨fun _ => ⟨_, List.mem_singleton.mpr rfl, progFlash_bytes_head m, hplace⟩,
        fun h => absurd h (by decide)⟩, trivial⟩, follows_checksum hp l.pr ?_,
      hexit _ rfl, by rw [haddress]; decide, by rw [hlength, hsize]; decide⟩
    exact List.mem_append_right [m.bytes] (List.mem_singleton.mpr rfl)

end dect_prog.flashloader
