-- Refused confirms (flashloader.c): which request follows which confirm, and
-- when the flash loader builds a step on one that was refused.
import DectProg.Loader
import DectProg.Machine

open framing machine dect_prog.package

namespace dect_prog.flashloader

/-- The packets among the bytes that were written to the tty between two states. -/
def sent (l l' : Loader) : List (List UInt8) := (format.drain (l'.tty.drop l.tty.length)).1

theorem sent_nothing {l l' : Loader} (h : l'.tty = l.tty) : sent l l' = [] := by
  rw [sent, h, List.drop_length, format.drain_stop (by simp [format.parse_absent])]

theorem sent_packet {l l' : Loader} {data : List UInt8} (hlen : data.length ≤ 65535)
    (h : l'.tty = l.tty ++ make_tx_packet data) : sent l l' = [data] := by
  have hparse := format.parse_encode data [] hlen
  rw [List.append_nil] at hparse
  rw [sent, h, List.drop_left, make_tx_packet_eq, format.drain_frame hparse,
    format.drain_stop (by simp [format.parse_absent])]

/-! ## One dispatch -/

/-- A program message holds no more than a block. -/
theorem progFlash_Data_length {pr : bin_img} {offset : Int} {m : prog_flash_t}
    (h : progFlash pr offset = some m) : m.Data.length ≤ 2048 := by
  simp only [progFlash, Option.bind_eq_bind, Option.bind_eq_some_iff] at h
  obtain ⟨of, -, stop, hstop, h⟩ := h
  have hslice : ∀ n data, slice pr.img of n = some data → data.length = n.toNat := by
    intro n data hs
    unfold slice at hs
    split at hs
    · cases hs
      simp only [List.length_take, List.length_drop]
      omega
    · cases hs
  have hend : stop = of + 2048 := by
    unfold intAdd at hstop
    split at hstop
    · cases hstop
      rfl
    · cases hstop
  split at h
  · obtain ⟨data, hdata, h⟩ := Option.bind_eq_some_iff.mp h
    cases h
    have := hslice _ _ hdata
    dsimp only
    split at this <;> omega
  · obtain ⟨data, hdata, h⟩ := Option.bind_eq_some_iff.mp h
    cases h
    have := hslice _ _ hdata
    dsimp only
    omega

theorem progFlash_bytes_head (m : prog_flash_t) : m.bytes.head? = some PROG_FLASH_REQ := rfl

theorem progFlash_bytes_length (m : prog_flash_t) : m.bytes.length = m.Data.length + 7 := by
  simp [prog_flash_t.bytes]
  omega

/-- The request that a dispatch that returns sends, by its primitive. -/
inductive Sends (l : Loader) (p : packet_t) (l' : Loader) : List (List UInt8) → Prop
  | config (h : p.byte 0 = READ_SW_VERSION_CFM) (hl : l' = config_target l) :
      Sends l p l' [[WRITE_CONFIG_REQ] ++ le32 0 ++ le32 0 ++ le32 0xf0000 ++ [QSPI_FLASH_CONFIG]]
  | flash_type (h : p.byte 0 = WRITE_CONFIG_CFM) (hl : l' = qspi_flash_type_req l) :
      Sends l p l' [[READ_PROPRIETARY_DATA_REQ, 0]]
  | erase (h : p.byte 0 = READ_PROPRIETARY_DATA_CFM)
      (hl : erase_flash (qspi_flash_type_cfm l p) = some l') :
      Sends l p l' [[FLASH_ERASE_REQ] ++ le32 0 ++ le16 CHIP_ERASE_CMD]
  | program (offset : Int) (m : prog_flash_t)
      (h : p.byte 0 = FLASH_ERASE_CFM ∧ offset = 0 ∨
        p.byte 0 = PROG_FLASH_CFM ∧ cfmConfirm p = TRUE ∧
          u32 (cfmAddress p + 0x800) < u32 l.pr.size ∧ offset = s32 (cfmAddress p + 0x800) ∨
        p.byte 0 = PROG_FLASH_CFM ∧ cfmConfirm p ≠ TRUE ∧ offset = s32 (cfmAddress p))
      (hm : progFlash l.pr offset = some m) (hl : l' = send_packet l m.bytes) :
      Sends l p l' [m.bytes]
  | checksum (h : p.byte 0 = PROG_FLASH_CFM) (hc : cfmConfirm p = TRUE)
      (ha : ¬ u32 (cfmAddress p + 0x800) < u32 l.pr.size) (hl : l' = calc_crc32_req l) :
      Sends l p l' [[CALC_CRC32_REQ] ++ le32 0 ++ le32 (u32 l.pr.size)]
  | nothing (h : Unknown p) (hl : l' = l) : Sends l p l' []

theorem returns_running {o : Option Loader} {l : Loader} (h : returns o = .running l) :
    o = some l := by
  cases o with
  | none => cases h
  | some l' => cases h; rfl

theorem prog_flash_req_eq {l l' : Loader} {offset : Int} (h : prog_flash_req l offset = some l') :
    ∃ m, progFlash l.pr offset = some m ∧ l' = send_packet l m.bytes ∧ sent l l' = [m.bytes] := by
  obtain ⟨m, hm, h⟩ := Option.bind_eq_some_iff.mp h
  cases h
  have hlen := progFlash_bytes_length m
  have hdata := progFlash_Data_length hm
  exact ⟨m, hm, rfl, sent_packet (by omega) rfl⟩

/-- What a dispatch that returns did. -/
theorem dispatch_sends {l l' : Loader} {p : packet_t}
    (h : flashloader_dispatch l p = .running l') : Sends l p l' (sent l l') := by
  rcases confirm_cases p with hp | hp | hp | hp | hp | hp | hp
  · rw [dispatch_version hp] at h
    cases h
    have hsent : sent l (config_target l) = [_] := sent_packet (by simp) rfl
    rw [hsent]
    exact .config hp rfl
  · rw [dispatch_config hp] at h
    cases h
    have hsent : sent l (qspi_flash_type_req l) = [_] := sent_packet (by simp) rfl
    rw [hsent]
    exact .flash_type hp rfl
  · rw [dispatch_flash_type hp] at h
    have hl := returns_running h
    have htty : l'.tty = l.tty ++
        make_tx_packet ([FLASH_ERASE_REQ] ++ le32 0 ++ le16 CHIP_ERASE_CMD) := by
      unfold erase_flash at hl
      split at hl
      · cases hl
      · cases hl
        rfl
    rw [sent_packet (by simp) htty]
    exact .erase hp hl
  · rw [dispatch_erase hp] at h
    obtain ⟨m, hm, hl, hsent⟩ := prog_flash_req_eq (returns_running h)
    rw [hsent]
    exact .program 0 m (.inl ⟨hp, rfl⟩) hm hl
  · rw [dispatch_program hp] at h
    have hl := returns_running h
    unfold prog_flash_cfm at hl
    split at hl
    · rename_i hc
      split at hl
      · rename_i ha
        obtain ⟨m, hm, hl, hsent⟩ := prog_flash_req_eq hl
        rw [hsent]
        exact .program _ m (.inr (.inl ⟨hp, hc, ha, rfl⟩)) hm hl
      · rename_i ha
        cases hl
        have hsent : sent l (calc_crc32_req l) = [_] := sent_packet (by simp) rfl
        rw [hsent]
        exact .checksum hp hc ha rfl
    · rename_i hc
      obtain ⟨m, hm, hl, hsent⟩ := prog_flash_req_eq hl
      rw [hsent]
      exact .program _ m (.inr (.inr ⟨hp, hc, rfl⟩)) hm hl
  · rw [dispatch_checksum hp] at h
    unfold calc_crc32_cfm at h
    split at h <;> cases h
  · rw [dispatch_unknown hp] at h
    cases h
    rw [sent_nothing rfl]
    exact .nothing hp rfl

/-- The image stays as it is. -/
theorem Sends.pr {l l' : Loader} {p : packet_t} {o : List (List UInt8)} (h : Sends l p l' o) :
    l'.pr = l.pr := by
  cases h with
  | config h hl => rw [hl]; rfl
  | flash_type h hl => rw [hl]; rfl
  | erase h hl =>
    unfold erase_flash at hl
    split at hl
    · cases hl
    · cases hl
      rfl
  | program offset m h hm hl => rw [hl]; rfl
  | checksum h hc ha hl => rw [hl]; rfl
  | nothing h hl => rw [hl]

/-- The tty gets the requests in their frames, and none is longer than that for a block. -/
theorem Sends.tty {l l' : Loader} {p : packet_t} {o : List (List UInt8)} (h : Sends l p l' o) :
    l'.tty = l.tty ++ o.flatMap make_tx_packet ∧ ∀ r ∈ o, r.length ≤ 2055 := by
  cases h with
  | config h hl => simp [hl, config_target, send_packet]
  | flash_type h hl => simp [hl, qspi_flash_type_req, send_packet]
  | erase h hl =>
    unfold erase_flash at hl
    split at hl
    · cases hl
    · cases hl
      simp [erase_flash_req, send_packet, qspi_flash_type_cfm]
  | program offset m h hm hl =>
    have hdata := progFlash_Data_length hm
    have hlen := progFlash_bytes_length m
    refine ⟨by simp [hl, send_packet], fun r hr => ?_⟩
    rw [List.mem_singleton.mp hr]
    omega
  | checksum h hc ha hl => simp [hl, calc_crc32_req, send_packet]
  | nothing h hl => simp [hl]

/-! ## Steps that are built on a refused one -/

/-- The most recent erase confirm. -/
def lastErase (ps : List packet_t) : Option packet_t :=
  (ps.filter fun p => p.byte 0 = FLASH_ERASE_CFM).getLast?

/-- The most recent erase confirm has its field `Confirm` as TRUE. -/
def Erased (ps : List packet_t) : Prop := ∃ p, lastErase ps = some p ∧ p.byte 5 = TRUE

/-- The request `r` in answer to `p`, after the packets `before`, is built on no refused step. -/
def Allowed (before : List packet_t) (p : packet_t) (r : List UInt8) : Prop :=
  (r.head? = some PROG_FLASH_REQ → Erased (before ++ [p])) ∧
  (r.head? = some READ_PROPRIETARY_DATA_REQ → p.byte 0 = WRITE_CONFIG_CFM ∧ p.byte 1 = TRUE)

/-- Each request of a run is allowed. -/
def Built : List packet_t → List packet_t → List (List (List UInt8)) → Prop
  | before, p :: ps, o :: os => (∀ r ∈ o, Allowed before p r) ∧ Built (before ++ [p]) ps os
  | _, _, _ => True

/-- The target refuses nothing: the confirms of the configuration and of the erase are TRUE, and
a program confirm that another block follows comes after an erase that was confirmed. -/
def Accepts (size : Int) (before : List packet_t) (p : packet_t) : Prop :=
  (p.byte 0 = WRITE_CONFIG_CFM → p.byte 1 = TRUE) ∧
  (p.byte 0 = FLASH_ERASE_CFM → p.byte 5 = TRUE) ∧
  (p.byte 0 = PROG_FLASH_CFM → Erased before ∨
    cfmConfirm p = TRUE ∧ ¬ u32 (cfmAddress p + 0x800) < u32 size)

/-- Each packet of a run is one that refuses nothing. -/
def Confirmed (size : Int) : List packet_t → List packet_t → Prop
  | _, [] => True
  | before, p :: ps => Accepts size before p ∧ Confirmed size (before ++ [p]) ps

theorem erased_erase {before : List packet_t} {p : packet_t} (h : p.byte 0 = FLASH_ERASE_CFM) :
    Erased (before ++ [p]) ↔ p.byte 5 = TRUE := by
  simp [Erased, lastErase, List.filter_append, h]

theorem erased_other {before : List packet_t} {p : packet_t} (h : p.byte 0 ≠ FLASH_ERASE_CFM) :
    Erased (before ++ [p]) ↔ Erased before := by
  simp [Erased, lastErase, List.filter_append, h]

/-- One dispatch keeps to what is allowed exactly when its packet refuses nothing. -/
theorem Sends.allowed_iff {before : List packet_t} {p : packet_t} {l l' : Loader}
    {o : List (List UInt8)} (h : Sends l p l' o) :
    (∀ r ∈ o, Allowed before p r) ↔ Accepts l.pr.size before p := by
  cases h with
  | config h hl =>
    simp [Allowed, Accepts, h, READ_SW_VERSION_CFM, WRITE_CONFIG_REQ, PROG_FLASH_REQ,
      READ_PROPRIETARY_DATA_REQ, WRITE_CONFIG_CFM, FLASH_ERASE_CFM, PROG_FLASH_CFM]
  | flash_type h hl =>
    simp [Allowed, Accepts, h, PROG_FLASH_REQ, READ_PROPRIETARY_DATA_REQ, WRITE_CONFIG_CFM,
      FLASH_ERASE_CFM, PROG_FLASH_CFM]
  | erase h hl =>
    simp [Allowed, Accepts, h, READ_PROPRIETARY_DATA_CFM, FLASH_ERASE_REQ, PROG_FLASH_REQ,
      READ_PROPRIETARY_DATA_REQ, WRITE_CONFIG_CFM, FLASH_ERASE_CFM, PROG_FLASH_CFM]
  | program offset m h hm hl =>
    have hnot : PROG_FLASH_REQ ≠ READ_PROPRIETARY_DATA_REQ := by decide
    simp only [List.mem_singleton, forall_eq, Allowed, progFlash_bytes_head, Option.some.injEq,
      hnot, false_implies, and_true, true_implies]
    rcases h with ⟨hp, -⟩ | ⟨hp, hc, ha, -⟩ | ⟨hp, hc, -⟩
    · rw [erased_erase hp]
      simp [Accepts, hp, WRITE_CONFIG_CFM, FLASH_ERASE_CFM, PROG_FLASH_CFM]
    · rw [erased_other (by rw [hp]; decide)]
      simp [Accepts, hp, ha, WRITE_CONFIG_CFM, FLASH_ERASE_CFM, PROG_FLASH_CFM]
    · rw [erased_other (by rw [hp]; decide)]
      simp [Accepts, hp, hc, WRITE_CONFIG_CFM, FLASH_ERASE_CFM, PROG_FLASH_CFM]
  | checksum h hc ha hl =>
    simp [Allowed, Accepts, h, hc, ha, CALC_CRC32_REQ, PROG_FLASH_REQ, READ_PROPRIETARY_DATA_REQ,
      WRITE_CONFIG_CFM, FLASH_ERASE_CFM, PROG_FLASH_CFM]
  | nothing h hl =>
    obtain ⟨-, h2, -, h4, h5, -⟩ := h
    simp [Accepts, h2, h4, h5]

/-! ## The law -/

/-- A dispatch that returns, and the packets that it sends. -/
def flashStep (l : Loader) (p : packet_t) : Option (Loader × List (List UInt8)) :=
  match flashloader_dispatch l p with
  | .running l' => some (l', sent l l')
  | _ => none

theorem flashStep_sends {l l' : Loader} {p : packet_t} {o : List (List UInt8)}
    (h : flashStep l p = some (l', o)) : Sends l p l' o := by
  unfold flashStep at h
  split at h
  · rename_i l'' hd
    cases h
    exact dispatch_sends hd
  · cases h

theorem built_iff_confirmed (ps : List packet_t) :
    ∀ (before : List packet_t) (l l' : Loader) (os : List (List (List UInt8))),
      run flashStep l ps = some (l', os) →
      (Built before ps os ↔ Confirmed l.pr.size before ps) := by
  induction ps with
  | nil =>
    intro before l l' os h
    simp [Built, Confirmed]
  | cons p ps ih =>
    intro before l l' os h
    obtain ⟨l1, o, os', hstep, hrun, rfl⟩ := run_cons_eq_some.mp h
    have hsends := flashStep_sends hstep
    have hrest := ih (before ++ [p]) l1 l' os' hrun
    rw [hsends.pr] at hrest
    simp only [Built, Confirmed, hsends.allowed_iff, hrest]

/-- Only a checksum confirm ends the process. -/
theorem exits_on_checksum {l l' : Loader} {p : packet_t} {status : Int}
    (h : flashloader_dispatch l p = .exited status l') :
    p.byte 0 = CALC_CRC32_CFM ∧ calc_crc32_cfm l p = .exited status l' := by
  have hreturns : ∀ o, returns o ≠ .exited status l' := by
    intro o ho
    cases o <;> cases ho
  rcases confirm_cases p with hp | hp | hp | hp | hp | hp | hp
  · rw [dispatch_version hp] at h
    cases h
  · rw [dispatch_config hp] at h
    cases h
  · rw [dispatch_flash_type hp] at h
    exact absurd h (hreturns _)
  · rw [dispatch_erase hp] at h
    exact absurd h (hreturns _)
  · rw [dispatch_program hp] at h
    exact absurd h (hreturns _)
  · rw [dispatch_checksum hp] at h
    exact ⟨hp, h⟩
  · rw [dispatch_unknown hp] at h
    cases h

/-- A packet that ends the process changes nothing. -/
theorem exit_sends_nothing {l l' : Loader} {p : packet_t} {status : Int}
    (h : flashloader_dispatch l p = .exited status l') : l' = l := by
  obtain ⟨-, hcfm⟩ := exits_on_checksum h
  unfold calc_crc32_cfm at hcfm
  split at hcfm <;> (cases hcfm; rfl)

/-- In every run of the flash loader no request is built on a refused step if and only if the
target refuses none, and a packet that ends the process is answered by nothing. -/
theorem no_request_follows_a_refusal_iff_none_was_refused (l l' : Loader) (ps : List packet_t)
    (os : List (List (List UInt8))) (h : run flashStep l ps = some (l', os)) :
    (Built [] ps os ↔ Confirmed l.pr.size [] ps) ∧
    ∀ p status l'', flashloader_dispatch l' p = .exited status l'' → sent l' l'' = [] := by
  refine ⟨built_iff_confirmed ps [] l l' os h, fun p status l'' hexit => ?_⟩
  rw [exit_sends_nothing hexit]
  exact sent_nothing rfl

/-- A loader for the image of one byte. -/
def oneByteLoader : Loader where
  pr := ⟨[1, 0xff, 0xff, 0xff], 1, 0, by decide, by decide, by decide⟩
  f := ⟨0, 0, 0, 0, 0, 0, 0, 0⟩
  sectors := 0
  sectors_written := 0
  tty := []

/-- A configuration and an erase that are confirmed. -/
theorem no_request_follows_a_refusal_iff_none_was_refused_when_confirmed :
    ∃ l' os, run flashStep oneByteLoader
        [blank.carry [0x10, 1] (by decide), blank.carry [0x16, 0, 0, 0, 0, 1] (by decide)] =
          some (l', os) ∧
      Built [] [blank.carry [0x10, 1] (by decide), blank.carry [0x16, 0, 0, 0, 0, 1] (by decide)]
        os := by
  have hrun : ∃ l' os, run flashStep oneByteLoader
      [blank.carry [0x10, 1] (by decide), blank.carry [0x16, 0, 0, 0, 0, 1] (by decide)] =
        some (l', os) := ⟨_, _, rfl⟩
  obtain ⟨l', os, hrun⟩ := hrun
  refine ⟨l', os, hrun, (no_request_follows_a_refusal_iff_none_was_refused _ l' _ os hrun).1.mpr ?_⟩
  refine ⟨⟨fun _ => by decide, fun h => absurd h (by decide), fun h => absurd h (by decide)⟩,
    ⟨fun h => absurd h (by decide), fun _ => by decide, fun h => absurd h (by decide)⟩, trivial⟩

/-- After an erase that was refused the image is programmed all the same. -/
theorem a_refused_erase_is_followed_by_a_program_request :
    ¬ ∀ (l l' : Loader) (ps : List packet_t) (os : List (List (List UInt8))),
      run flashStep l ps = some (l', os) → Built [] ps os := by
  intro h
  have hrun : ∃ l' os, run flashStep oneByteLoader
      [blank.carry [0x16, 0, 0, 0, 0, 0] (by decide)] = some (l', os) := ⟨_, _, rfl⟩
  obtain ⟨l', os, hrun⟩ := hrun
  have hconfirmed := (built_iff_confirmed _ [] _ l' os hrun).mp (h _ l' _ os hrun)
  have htrue := hconfirmed.1.2.1 (by decide)
  revert htrue
  decide

end dect_prog.flashloader
