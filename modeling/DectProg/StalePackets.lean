-- What a dispatch sees of a packet. The handlers read at fixed places of the
-- packet without a look at its size, so a short packet mixes with the bytes of
-- the packets before it. Here: the flash loader.
import DectProg.Flashing

open dect_prog.package dect_prog.crc

namespace dect_prog.package

variable {σ : Type}

/-- The same size, and the same bytes up to the size. -/
def SamePacket (p p' : packet_t) : Prop := p'.size = p.size ∧ p'.payload = p.payload

/-- What is done with the packet does not depend on what lies behind it. -/
def SeesOnlyThePacket (dispatch : σ → packet_t → Outcome σ) (s : σ) (p : packet_t) : Prop :=
  ∀ p', SamePacket p p' → dispatch s p' = dispatch s p

theorem SamePacket.byte {p p' : packet_t} (h : SamePacket p p') {i : Nat} (hi : i < p.size) :
    p'.byte i = p.byte i := by
  have hbyte : ∀ q : packet_t, i < q.size → q.byte i = q.payload.getD i 0 := by
    intro q hq
    simp [packet_t.byte, packet_t.payload, hq]
  rw [hbyte p' (by rw [h.1]; exact hi), hbyte p hi, h.2]

/-- The same packet over other bytes. -/
theorem exists_stale (p : packet_t) (f : Nat → UInt8) :
    ∃ p', SamePacket p p' ∧ ∀ i, p.size ≤ i → i < PACKET_SIZE → p'.byte i = f i := by
  have hlen := p.data_length
  have hstale : ((List.range PACKET_SIZE).map f).length = PACKET_SIZE := by
    rw [List.length_map, List.length_range]
  refine ⟨⟨p.size, p.payload ++ ((List.range PACKET_SIZE).map f).drop p.size, ?_⟩, ⟨rfl, ?_⟩, ?_⟩
  · rw [List.length_append, List.length_drop, hstale, packet_t.payload, List.length_take, hlen]
    omega
  · simp only [packet_t.payload]
    by_cases hsize : p.size ≤ PACKET_SIZE
    · rw [List.take_append_of_le_length (by rw [List.length_take]; omega), List.take_take,
        Nat.min_self]
    · rw [List.drop_of_length_le (by omega), List.append_nil, List.take_take, Nat.min_self]
  · intro i hi hlt
    have hpayload : p.payload.length = p.size := by
      rw [packet_t.payload, List.length_take]
      omega
    have hplace : p.size + (i - p.size) = i := by omega
    rw [packet_t.byte, List.getD_eq_getElem?_getD, List.getElem?_append_right (by omega), hpayload,
      List.getElem?_drop, hplace, List.getElem?_map, List.getElem?_range hlt]
    rfl

/-- Two stale packets on which the dispatch differs. -/
theorem not_sees {dispatch : σ → packet_t → Outcome σ} {s : σ} {p p1 p2 : packet_t}
    (h1 : SamePacket p p1) (h2 : SamePacket p p2) (hne : dispatch s p1 ≠ dispatch s p2) :
    ¬ SeesOnlyThePacket dispatch s p := fun h => hne ((h p1 h1).trans (h p2 h2).symm)

end dect_prog.package

namespace dect_prog.flashloader

/-- The bytes that the dispatch of the packet reads are in it, or make no difference: both
confirms of a block of 0xFF lead to the same request, and one wrong byte is enough for a bad
checksum. -/
def Settled (l : Loader) (p : packet_t) : Prop :=
  1 ≤ p.size ∧
  (p.byte 0 = READ_PROPRIETARY_DATA_CFM → 15 ≤ p.size) ∧
  (p.byte 0 = PROG_FLASH_CFM → 8 ≤ p.size ∨
    5 ≤ p.size ∧ u32 (cfmAddress p + 0x800) < u32 l.pr.size ∧
      is_data_ff l.pr.img 2048 (s32 (cfmAddress p)) = some true) ∧
  (p.byte 0 = CALC_CRC32_CFM → 13 ≤ p.size ∨
    ∃ i < 4, 9 + i < p.size ∧ p.byte (9 + i) ≠ (le32 l.pr.checksum.toNat).getD i 0)

theorem uint32At_same {p p' : packet_t} (h : SamePacket p p') {i : Nat} (hi : i + 3 < p.size) :
    uint32At p' i = uint32At p i := by
  unfold uint32At
  rw [h.byte (by omega), h.byte (by omega), h.byte (by omega), h.byte hi]

/-! ## Blocks of 0xFF -/

/-- A block that was tested lies in the image. -/
theorem is_data_ff_nonneg {img : List UInt8} {n : Nat} {data : Int} {r : Bool}
    (h : is_data_ff img (n + 1) data = some r) : 0 ≤ data ∧ data < img.length := by
  simp only [is_data_ff, Option.bind_eq_bind, Option.bind_eq_some_iff] at h
  obtain ⟨x, hx, -⟩ := h
  unfold load at hx
  split at hx
  · have := (List.getElem?_eq_some_iff.mp hx).1
    omega
  · cases hx

/-- Enough fuel: more makes no difference. -/
theorem skipDataFf_fuel (img : List UInt8) (fuel : Nat) :
    ∀ of : Int, (img.length : Int) < of + 2048 * fuel →
      skipDataFf img (fuel + 1) of = skipDataFf img fuel of := by
  induction fuel with
  | zero =>
    intro of hfuel
    cases h : is_data_ff img 2048 of with
    | none => simp [skipDataFf, h]
    | some r =>
      have := is_data_ff_nonneg h
      omega
  | succ fuel ih =>
    intro of hfuel
    rw [skipDataFf, skipDataFf.eq_2]
    cases h : is_data_ff img 2048 of with
    | none => rfl
    | some r =>
      simp only [Option.bind_eq_bind, Option.bind_some]
      split
      · cases hadd : intAdd of 2048 with
        | none => rfl
        | some next =>
          have hnext : next = of + 2048 := by
            unfold intAdd at hadd
            split at hadd
            · cases hadd
              rfl
            · cases hadd
          exact ih next (by omega)
      · rfl

/-- The loop does not go back, and not beyond the `int`s. -/
theorem skipDataFf_le (img : List UInt8) (fuel : Nat) :
    ∀ {of of' : Int}, of ≤ INT_MAX → skipDataFf img fuel of = some of' →
      of ≤ of' ∧ of' ≤ INT_MAX := by
  induction fuel with
  | zero =>
    intro of of' _ h
    cases h
  | succ fuel ih =>
    intro of of' hof h
    simp only [skipDataFf, Option.bind_eq_bind, Option.bind_eq_some_iff] at h
    obtain ⟨r, -, h⟩ := h
    split at h
    · obtain ⟨next, hadd, h⟩ := Option.bind_eq_some_iff.mp h
      unfold intAdd at hadd
      split at hadd
      · cases hadd
        have := ih (by omega) h
        omega
      · cases hadd
    · cases h
      omega

/-- From a block of 0xFF the loop goes on as from the next one. -/
theorem progFlash_skip {pr : bin_img} {offset : Int} (hmax : offset + 2048 ≤ INT_MAX)
    (h : is_data_ff pr.img 2048 offset = some true) :
    progFlash pr offset = progFlash pr (offset + 2048) := by
  obtain ⟨h0, h1⟩ := is_data_ff_nonneg h
  have hskip : skipDataFf pr.img (pr.img.length + 1) offset =
      skipDataFf pr.img (pr.img.length + 1) (offset + 2048) := by
    rw [skipDataFf, h, Option.bind_eq_bind, Option.bind_some, if_pos rfl,
      intAdd_of_range (by omega) hmax, Option.bind_eq_bind, Option.bind_some,
      skipDataFf_fuel pr.img pr.img.length (offset + 2048) (by omega)]
  rw [progFlash, progFlash, hskip]

/-- The address of a request is not before the place that was asked for. -/
theorem progFlash_Address {pr : bin_img} {offset : Int} {m : prog_flash_t} (h0 : 0 ≤ offset)
    (hmax : offset ≤ INT_MAX) (h : progFlash pr offset = some m) :
    offset ≤ m.Address ∧ m.Address ≤ INT_MAX ∧
      (is_data_ff pr.img 2048 offset = some false → m.Address = offset) := by
  simp only [progFlash, Option.bind_eq_bind, Option.bind_eq_some_iff] at h
  obtain ⟨of, hskip, stop, -, h⟩ := h
  have hle := skipDataFf_le pr.img _ hmax hskip
  have hof : u32 of = of := u32_of_range (by omega) hle.2
  have haddress : m.Address = of := by
    split at h
    · obtain ⟨data, -, h⟩ := Option.bind_eq_some_iff.mp h
      cases h
      exact hof
    · obtain ⟨data, -, h⟩ := Option.bind_eq_some_iff.mp h
      cases h
      exact hof
  refine ⟨by omega, by omega, fun hff => ?_⟩
  rw [haddress]
  rw [skipDataFf, hff, Option.bind_eq_bind, Option.bind_some, if_neg (by decide)] at hskip
  exact (Option.some.inj hskip).symm

/-! ## Stale bytes that make a difference -/

theorem config_target_ne (l : Loader) : config_target l ≠ l := by
  intro h
  have := congrArg (fun l => l.tty.length) h
  simp [config_target, send_packet, make_tx_packet] at this

theorem not_sees_empty {l : Loader} {p : packet_t} (hsize : p.size = 0) :
    ¬ SeesOnlyThePacket flashloader_dispatch l p := by
  obtain ⟨p1, hp1, hf1⟩ := exists_stale p fun _ => READ_SW_VERSION_CFM
  obtain ⟨p2, hp2, hf2⟩ := exists_stale p fun _ => 0
  have h1 := hf1 0 (by omega) (by decide)
  have h2 := hf2 0 (by omega) (by decide)
  have hd1 : flashloader_dispatch l p1 = .running (config_target l) := dispatch_version h1
  have hd2 : flashloader_dispatch l p2 = .running l := by
    apply dispatch_unknown
    unfold Unknown
    rw [h2]
    decide
  apply not_sees hp1 hp2
  rw [hd1, hd2]
  exact fun h => config_target_ne l (by simpa using h)

theorem not_sees_flash_type {l : Loader} {p : packet_t} (hp : p.byte 0 = READ_PROPRIETARY_DATA_CFM)
    (h0 : 1 ≤ p.size) (hsize : p.size < 15) : ¬ SeesOnlyThePacket flashloader_dispatch l p := by
  -- The highest byte of the sector size is 1 or 2.
  have hsector : ∀ p', SamePacket p p' → p'.byte 14 ≠ 0 → ∃ l',
      flashloader_dispatch l p' = .running l' ∧
        l'.f.SectorSize / 16777216 = (p'.byte 14).toNat := by
    intro p' hp' h14
    have hvalue : uint32At p' 11 / 16777216 = (p'.byte 14).toNat := by
      have h1 := (p'.byte 11).toNat_lt
      have h2 := (p'.byte 12).toNat_lt
      have h3 := (p'.byte 13).toNat_lt
      change ofLe32 (p'.byte 11) (p'.byte 12) (p'.byte 13) (p'.byte 14) / 16777216 = _
      unfold ofLe32
      omega
    have hne : (p'.byte 14).toNat ≠ 0 := fun h => h14 (UInt8.toNat_inj.mp h)
    have hsize : (qspi_flash_type_cfm l p').f.SectorSize = uint32At p' 11 := rfl
    rw [dispatch_flash_type ((hp'.byte h0).trans hp), erase_flash, if_neg (by rw [hsize]; omega)]
    exact ⟨_, rfl, hvalue⟩
  obtain ⟨p1, hp1, hf1⟩ := exists_stale p fun _ => 1
  obtain ⟨p2, hp2, hf2⟩ := exists_stale p fun _ => 2
  have h1 := hf1 14 (by omega) (by decide)
  have h2 := hf2 14 (by omega) (by decide)
  obtain ⟨l1, hd1, hs1⟩ := hsector p1 hp1 (by rw [h1]; decide)
  obtain ⟨l2, hd2, hs2⟩ := hsector p2 hp2 (by rw [h2]; decide)
  apply not_sees hp1 hp2
  rw [hd1, hd2]
  intro h
  cases h
  rw [hs1, h1, h2] at hs2
  exact absurd hs2 (by decide)

theorem u32_size (pr : bin_img) : u32 pr.size = pr.size := by
  have := pr.size_le
  exact u32_of_range pr.size_nonneg (by omega)

theorem not_sees_program_address {l : Loader} {p : packet_t} (hp : p.byte 0 = PROG_FLASH_CFM)
    (h0 : 1 ≤ p.size) (hsize : p.size < 5) : ¬ SeesOnlyThePacket flashloader_dispatch l p := by
  have hINT : INT_MAX = 2147483647 := rfl
  have hmax := l.pr.size_le
  -- The address is far behind the image, and as an `int` it is negative.
  have haddress : ∀ p' : packet_t, p'.byte 4 = 0xFE →
      4261412864 ≤ cfmAddress p' ∧ cfmAddress p' < 4278190080 := by
    intro p' h4
    have h1 := (p'.byte 1).toNat_lt
    have h2 := (p'.byte 2).toNat_lt
    have h3 := (p'.byte 3).toNat_lt
    have h4' : (p'.byte 4).toNat = 254 := by rw [h4]; rfl
    have hvalue : cfmAddress p' =
      ofLe32 (p'.byte 1) (p'.byte 2) (p'.byte 3) (p'.byte 4) := rfl
    rw [hvalue]
    unfold ofLe32
    omega
  obtain ⟨p1, hp1, hf1⟩ := exists_stale p fun i => if i = 7 then TRUE else 0xFE
  obtain ⟨p2, hp2, hf2⟩ := exists_stale p fun _ => 0xFE
  have hd1 : flashloader_dispatch l p1 = .running (calc_crc32_req l) := by
    have hconfirm : cfmConfirm p1 = TRUE := hf1 7 (by omega) (by decide)
    obtain ⟨h1, h2⟩ := haddress p1 (hf1 4 (by omega) (by decide))
    have hnext : ¬ u32 (cfmAddress p1 + 0x800) < u32 l.pr.size := by
      rw [u32_size]
      unfold u32
      omega
    rw [dispatch_program ((hp1.byte h0).trans hp), prog_flash_cfm, if_pos hconfirm, if_neg hnext]
    rfl
  have hd2 : flashloader_dispatch l p2 = .undefined := by
    have hconfirm : cfmConfirm p2 ≠ TRUE := by
      have : cfmConfirm p2 = 0xFE := hf2 7 (by omega) (by decide)
      rw [this]
      decide
    obtain ⟨h1, h2⟩ := haddress p2 (hf2 4 (by omega) (by decide))
    have hnegative : s32 (cfmAddress p2) < 0 := by
      unfold s32 u32
      split <;> omega
    rw [dispatch_program ((hp2.byte h0).trans hp), prog_flash_cfm, if_neg hconfirm, prog_flash_req,
      progFlash_negative hnegative]
    rfl
  apply not_sees hp1 hp2
  rw [hd1, hd2]
  exact fun h => by cases h

/-- From two places a block apart the same request follows only where the first block is all 0xFF. -/
theorem empty_of_same_request {pr : bin_img} {a : Int} (h0 : 0 ≤ a) (hmax : a + 0x800 ≤ INT_MAX)
    {m1 m2 : prog_flash_t} (hm1 : progFlash pr (a + 0x800) = some m1)
    (hm2 : progFlash pr a = some m2) (hbytes : m1.bytes = m2.bytes) :
    is_data_ff pr.img 2048 a = some true := by
  have hINT : INT_MAX = 2147483647 := rfl
  cases hff : is_data_ff pr.img 2048 a with
  | none =>
    rw [progFlash, skipDataFf, hff] at hm2
    cases hm2
  | some r =>
    cases r with
    | true => rfl
    | false =>
      -- Then the two requests have different addresses.
      have h1 := progFlash_Address (by omega) hmax hm1
      have h2 := progFlash_Address h0 (by omega) hm2
      have haddress : m1.Address = m2.Address := by
        rw [← bytes_Address (by omega) (by omega), hbytes, bytes_Address (by omega) (by omega)]
      have hfirst := h2.2.2 hff
      omega

/-- A confirm whose field `Confirm` is stale: the block that it is about has to be all 0xFF. -/
theorem sees_program {l : Loader} {p : packet_t} (hp : p.byte 0 = PROG_FLASH_CFM)
    (h5 : 5 ≤ p.size) (h8 : p.size < 8) (hdef : flashloader_dispatch l p ≠ .undefined)
    (h : SeesOnlyThePacket flashloader_dispatch l p) :
    u32 (cfmAddress p + 0x800) < u32 l.pr.size ∧
      is_data_ff l.pr.img 2048 (s32 (cfmAddress p)) = some true := by
  have hINT : INT_MAX = 2147483647 := rfl
  have hmax := l.pr.size_le
  have hlo : 0 ≤ cfmAddress p := ofLe32_nonneg ..
  have hhi : cfmAddress p < 4294967296 := ofLe32_lt ..
  obtain ⟨p1, hp1, hf1⟩ := exists_stale p fun _ => TRUE
  obtain ⟨p2, hp2, hf2⟩ := exists_stale p fun _ => 0
  have hcfm1 : flashloader_dispatch l p1 = returns (if u32 (cfmAddress p + 0x800) < u32 l.pr.size
      then prog_flash_req l (s32 (cfmAddress p + 0x800)) else some (calc_crc32_req l)) := by
    have hconfirm : cfmConfirm p1 = TRUE := hf1 7 (by omega) (by decide)
    have haddress : cfmAddress p1 = cfmAddress p := uint32At_same hp1 (by omega)
    rw [dispatch_program ((hp1.byte (by omega)).trans hp), prog_flash_cfm, if_pos hconfirm, haddress]
  have hcfm2 : flashloader_dispatch l p2 = returns (prog_flash_req l (s32 (cfmAddress p))) := by
    have hconfirm : cfmConfirm p2 ≠ TRUE := by
      have : cfmConfirm p2 = 0 := hf2 7 (by omega) (by decide)
      rw [this]
      decide
    have haddress : cfmAddress p2 = cfmAddress p := uint32At_same hp2 (by omega)
    rw [dispatch_program ((hp2.byte (by omega)).trans hp), prog_flash_cfm, if_neg hconfirm, haddress]
  rw [h p1 hp1] at hcfm1
  rw [h p2 hp2] at hcfm2
  -- The request of the same block.
  obtain ⟨l2, hreq2⟩ : ∃ l2, prog_flash_req l (s32 (cfmAddress p)) = some l2 := by
    cases hreq : prog_flash_req l (s32 (cfmAddress p)) with
    | none =>
      rw [hreq] at hcfm2
      exact absurd hcfm2 hdef
    | some l2 => exact ⟨l2, rfl⟩
  rw [hreq2] at hcfm2
  obtain ⟨m2, hm2, -, hsent2⟩ := prog_flash_req_eq hreq2
  split at hcfm1
  · rename_i hnext
    refine ⟨hnext, ?_⟩
    have hl2 := returns_running (hcfm1.symm.trans hcfm2)
    obtain ⟨m1, hm1, -, hsent1⟩ := prog_flash_req_eq hl2
    have hbytes : m1.bytes = m2.bytes := by
      rw [hsent1] at hsent2
      simpa using hsent2
    rw [u32_size] at hnext
    by_cases hneg : s32 (cfmAddress p) < 0
    · rw [progFlash_negative hneg] at hm2
      cases hm2
    have hrange : s32 (cfmAddress p) = cfmAddress p ∧ cfmAddress p ≤ INT_MAX := by
      unfold s32 u32 at hneg ⊢
      split <;> split at hneg <;> omega
    have hplace : s32 (cfmAddress p + 0x800) = cfmAddress p + 0x800 ∧
        cfmAddress p + 0x800 ≤ INT_MAX := by
      unfold u32 at hnext
      unfold s32 u32
      split <;> omega
    rw [hrange.1] at hm2 ⊢
    rw [hplace.1] at hm1
    exact empty_of_same_request hlo hplace.2 hm1 hm2 hbytes
  · have hl2 := returns_running (hcfm1.symm.trans hcfm2)
    cases hl2
    have hcrc : sent l (calc_crc32_req l) = [[CALC_CRC32_REQ] ++ le32 0 ++ le32 (u32 l.pr.size)] :=
      sent_packet (by simp) rfl
    rw [hcrc] at hsent2
    have hhead := congrArg (fun o : List (List UInt8) => o.head?.bind List.head?) hsent2
    cases hhead

/-! ## The checksum -/

theorem cfmCrc32_eq_iff {p : packet_t} {c : Int} (h0 : 0 ≤ c) (h1 : c < 4294967296) :
    cfmCrc32 p = c ↔ ∀ i < 4, p.byte (9 + i) = (le32 c).getD i 0 := by
  have hvalue : cfmCrc32 p = ofLe32 (p.byte 9) (p.byte 10) (p.byte 11) (p.byte 12) := rfl
  constructor
  · intro h
    have b0 := (p.byte 9).toNat_lt
    have b1 := (p.byte 10).toNat_lt
    have b2 := (p.byte 11).toNat_lt
    have b3 := (p.byte 12).toNat_lt
    rw [hvalue, ofLe32] at h
    intro i hi
    apply UInt8.toNat_inj.mp
    match i, hi with
    | 0, _ =>
      change (p.byte 9).toNat = (UInt8.ofNat c.toNat).toNat
      rw [UInt8.toNat_ofNat']
      omega
    | 1, _ =>
      change (p.byte 10).toNat = (UInt8.ofNat (c / 256).toNat).toNat
      rw [UInt8.toNat_ofNat']
      omega
    | 2, _ =>
      change (p.byte 11).toNat = (UInt8.ofNat (c / 65536).toNat).toNat
      rw [UInt8.toNat_ofNat']
      omega
    | 3, _ =>
      change (p.byte 12).toNat = (UInt8.ofNat (c / 16777216).toNat).toNat
      rw [UInt8.toNat_ofNat']
      omega
  · intro h
    have e0 : p.byte 9 = _ := h 0 (by decide)
    have e1 : p.byte 10 = _ := h 1 (by decide)
    have e2 : p.byte 11 = _ := h 2 (by decide)
    have e3 : p.byte 12 = _ := h 3 (by decide)
    rw [hvalue, e0, e1, e2, e3]
    exact ofLe32_le32 h0 h1

theorem checksum_range (pr : bin_img) :
    0 ≤ (pr.checksum.toNat : Int) ∧ (pr.checksum.toNat : Int) < 4294967296 := by
  have := pr.checksum.toNat_lt
  omega

/-- A checksum that is right as far as it is in the packet. -/
theorem not_sees_checksum {l : Loader} {p : packet_t} (hp : p.byte 0 = CALC_CRC32_CFM)
    (h0 : 1 ≤ p.size) (hsize : p.size < 13)
    (hright : ∀ i < 4, 9 + i < p.size → p.byte (9 + i) = (le32 l.pr.checksum.toNat).getD i 0) :
    ¬ SeesOnlyThePacket flashloader_dispatch l p := by
  obtain ⟨hc0, hc1⟩ := checksum_range l.pr
  obtain ⟨p1, hp1, hf1⟩ := exists_stale p fun i => (le32 l.pr.checksum.toNat).getD (i - 9) 0
  obtain ⟨p2, hp2, hf2⟩ := exists_stale p fun _ => (le32 l.pr.checksum.toNat).getD 3 0 + 1
  have hd1 : flashloader_dispatch l p1 = .exited 0 l := by
    rw [dispatch_checksum ((hp1.byte h0).trans hp), calc_crc32_cfm, if_pos]
    rw [cfmCrc32_eq_iff hc0 hc1]
    intro i hi
    by_cases hin : 9 + i < p.size
    · rw [hp1.byte hin]
      exact hright i hi hin
    · rw [hf1 (9 + i) (by omega) (by unfold PACKET_SIZE; omega), Nat.add_sub_cancel_left]
  have hd2 : flashloader_dispatch l p2 = .exited (-1) l := by
    rw [dispatch_checksum ((hp2.byte h0).trans hp), calc_crc32_cfm, if_neg]
    rw [cfmCrc32_eq_iff hc0 hc1]
    intro hall
    have h3 := (hf2 12 (by omega) (by decide)).symm.trans (hall 3 (by decide))
    have hne : ∀ x : UInt8, x + 1 ≠ x := by
      apply forall_byte
      decide +kernel
    exact hne _ h3
  apply not_sees hp1 hp2
  rw [hd1, hd2]
  exact fun h => by cases h

/-! ## Packets that are settled -/

theorem sees_of_settled {l : Loader} {p : packet_t} (h : Settled l p) :
    SeesOnlyThePacket flashloader_dispatch l p := by
  obtain ⟨h0, hflash, hprogram, hchecksum⟩ := h
  intro p' hp'
  have hfirst : p'.byte 0 = p.byte 0 := hp'.byte h0
  by_cases h1 : p.byte 0 = READ_PROPRIETARY_DATA_CFM
  · have hsize := hflash h1
    have hsame : qspi_flash_type_cfm l p' = qspi_flash_type_cfm l p := by
      simp only [qspi_flash_type_cfm, hfirst, hp'.byte (show 1 < p.size by omega),
        hp'.byte (show 2 < p.size by omega), hp'.byte (show 3 < p.size by omega),
        hp'.byte (show 4 < p.size by omega), hp'.byte (show 5 < p.size by omega),
        hp'.byte (show 6 < p.size by omega), uint32At_same hp' (show 7 + 3 < p.size by omega),
        uint32At_same hp' (show 11 + 3 < p.size by omega)]
    rw [dispatch_flash_type (hfirst.trans h1), dispatch_flash_type h1, hsame]
  by_cases h2 : p.byte 0 = PROG_FLASH_CFM
  · rw [dispatch_program (hfirst.trans h2), dispatch_program h2]
    rcases hprogram h2 with hsize | ⟨hsize, hnext, hff⟩
    · have haddress : cfmAddress p' = cfmAddress p := uint32At_same hp' (by omega)
      have hconfirm : cfmConfirm p' = cfmConfirm p := hp'.byte (by omega)
      rw [prog_flash_cfm, prog_flash_cfm, haddress, hconfirm]
    · -- Whatever `Confirm` is, the request is the same.
      have hINT : INT_MAX = 2147483647 := rfl
      have hmax := l.pr.size_le
      have hlo : 0 ≤ cfmAddress p := ofLe32_nonneg ..
      have hhi : cfmAddress p < 4294967296 := ofLe32_lt ..
      have hnonneg := (is_data_ff_nonneg hff).1
      rw [u32_size] at hnext
      have hrange : s32 (cfmAddress p) = cfmAddress p ∧
          s32 (cfmAddress p + 0x800) = cfmAddress p + 2048 ∧ cfmAddress p + 2048 ≤ INT_MAX := by
        unfold s32 u32 at hnonneg ⊢
        unfold u32 at hnext
        split at hnonneg <;> split <;> split <;> omega
      have hskip : prog_flash_req l (s32 (cfmAddress p + 0x800)) =
          prog_flash_req l (s32 (cfmAddress p)) := by
        rw [hrange.1] at hff
        rw [prog_flash_req, prog_flash_req, hrange.1, hrange.2.1, progFlash_skip hrange.2.2 hff]
      have hsame : ∀ q : packet_t, cfmAddress q = cfmAddress p →
          prog_flash_cfm l q = prog_flash_req l (s32 (cfmAddress p)) := by
        intro q hq
        rw [prog_flash_cfm, hq, u32_size, if_pos hnext, hskip, ite_self]
      rw [hsame p' (uint32At_same hp' (by omega)), hsame p rfl]
  by_cases h3 : p.byte 0 = CALC_CRC32_CFM
  · rw [dispatch_checksum (hfirst.trans h3), dispatch_checksum h3, calc_crc32_cfm, calc_crc32_cfm]
    rcases hchecksum h3 with hsize | ⟨i, hi, hin, hwrong⟩
    · have hcrc : cfmCrc32 p' = cfmCrc32 p := uint32At_same hp' (by omega)
      rw [hcrc]
    · obtain ⟨hc0, hc1⟩ := checksum_range l.pr
      rw [if_neg, if_neg]
      · rw [cfmCrc32_eq_iff hc0 hc1]
        exact fun hall => hwrong (hall i hi)
      · rw [cfmCrc32_eq_iff hc0 hc1]
        exact fun hall => hwrong ((hp'.byte hin).symm.trans (hall i hi))
  rw [flashloader_dispatch, flashloader_dispatch, hfirst, if_neg h1, if_neg h2, if_neg h3, if_neg h1,
    if_neg h2, if_neg h3]

/-- A dispatch with a defined effect depends on nothing but the packet exactly when the packet is
settled. -/
theorem sees_iff_settled {l : Loader} {p : packet_t}
    (hdef : flashloader_dispatch l p ≠ .undefined) :
    SeesOnlyThePacket flashloader_dispatch l p ↔ Settled l p := by
  refine ⟨fun h => ?_, sees_of_settled⟩
  have h0 : 1 ≤ p.size := by
    by_contra hsize
    exact not_sees_empty (by omega) h
  refine ⟨h0, fun hp => ?_, fun hp => ?_, fun hp => ?_⟩
  · by_contra hsize
    exact not_sees_flash_type hp h0 (by omega) h
  · by_cases h8 : 8 ≤ p.size
    · exact .inl h8
    · by_cases h5 : 5 ≤ p.size
      · exact .inr ⟨h5, sees_program hp h5 (by omega) hdef h⟩
      · exact absurd h (not_sees_program_address hp h0 (by omega))
  · by_contra hnot
    rw [not_or, not_exists] at hnot
    refine not_sees_checksum hp h0 (by omega) (fun i hi hin => ?_) h
    by_contra hwrong
    exact hnot.2 i ⟨hi, hin, hwrong⟩

end dect_prog.flashloader
