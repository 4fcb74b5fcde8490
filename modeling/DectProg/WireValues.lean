-- Values that the target sends and the flash loader works with as they are: the
-- address of a program confirm, which leads the next request out of the image, and
-- the sector size, by which it divides.
import DectProg.Success
import DectProg.Grammar

open dect_prog.buffer dect_prog.package

namespace dect_prog.flashloader

/-! ## The address of a program confirm -/

/-- The field `Length` of a program request, in words. -/
def requestLength (r : List UInt8) : Int := ofLe16 (r.getD 5 0) (r.getD 6 0)

/-- A program request for a place inside the image, which ends with the image or one byte behind an
odd one, and carries the bytes that are there. -/
structure InsideImage (pr : bin_img) (r : List UInt8) : Prop where
  primitive : r.head? = some PROG_FLASH_REQ
  address : uint32Of r 1 < pr.size
  stop : uint32Of r 1 + 2 * requestLength r ≤ pr.size + pr.size % 2
  data : r.drop 7 = (pr.img.drop (uint32Of r 1).toNat).take (2 * requestLength r).toNat

/-- The dispatch returns, so that each byte that it looked at is one of the array, and it sends a
checksum request or one program request that stays inside the image. -/
def StaysInImage (l : Loader) (p : packet_t) : Prop :=
  ∃ l', flashloader_dispatch l p = .running l' ∧
    (sent l l' = [checksumRequest l.pr] ∨ ∃ r, sent l l' = [r] ∧ InsideImage l.pr r)

/-- Counted from `offset` in blocks, the block at `of` is the first one that is not all 0xFF. -/
structure FirstUsed (img : List UInt8) (offset of : Nat) : Prop where
  blocks : ∃ k, of = offset + 2048 * k
  before : ∀ i, offset ≤ i → i < of → img[i]? = some 0xff
  used : ∃ j < 2048, ∃ x, img[of + j]? = some x ∧ x ≠ 0xff

theorem FirstUsed.unique {img : List UInt8} {offset a b : Nat} (ha : FirstUsed img offset a)
    (hb : FirstUsed img offset b) : a = b := by
  have hle : ∀ {a b : Nat}, FirstUsed img offset a → FirstUsed img offset b → b ≤ a := by
    intro a b ha hb
    obtain ⟨k, rfl⟩ := ha.blocks
    obtain ⟨m, rfl⟩ := hb.blocks
    obtain ⟨j, hj, x, hx, hne⟩ := ha.used
    by_contra hlt
    have hff := hb.before (offset + 2048 * k + j) (by omega) (by omega)
    rw [hx] at hff
    exact hne (Option.some.inj hff)
  exact Nat.le_antisymm (hle hb ha) (hle ha hb)

/-- Where there is a byte other than 0xFF ahead, the loop stops at the first block that is used. -/
theorem FirstUsed.skip {img : List UInt8} {offset of : Nat} (h : FirstUsed img offset of)
    (hmax : (img.length : Int) ≤ INT_MAX) :
    skipDataFf img (img.length + 1) offset = some (of : Int) := by
  obtain ⟨k, hk⟩ := h.blocks
  obtain ⟨j, hj, x, hx, hne⟩ := h.used
  obtain ⟨hlt, hx'⟩ := List.getElem?_eq_some_iff.mp hx
  obtain ⟨of', hskip, -⟩ := skipDataFf.spec img (of + j) hlt (by rw [hx']; exact hne) (by omega)
    (img.length + 1) offset (by omega) (by omega)
  obtain ⟨k', hof', hall, hused⟩ := skipDataFf_stops hskip
  have hfirst : FirstUsed img offset of' := by
    rw [Int.ofNat_inj.mp hof']
    exact ⟨⟨k', rfl⟩, hall, hused⟩
  rw [hskip, hfirst.unique h]

/-- How many bytes a request from `of` on carries: a block, or what is left, rounded up to words. -/
def requestSize (size of : Int) : Int :=
  if of + 2048 > size then size - of + (size - of) % 2 else 2048

/-- The message that is put together, from its place on. -/
theorem progFlash_of_skip {pr : bin_img} {offset : Int} {of : Nat}
    (hskip : skipDataFf pr.img (pr.img.length + 1) offset = some (of : Int)) :
    progFlash pr offset =
      if (of : Int) + 2048 ≤ INT_MAX then
        (slice pr.img of (requestSize pr.size of)).map fun data =>
          ⟨of, requestSize pr.size of / 2, data⟩
      else none := by
  have hround : (if (pr.size - of) % 2 ≠ 0 then pr.size - of + 1 else pr.size - of) =
      pr.size - of + (pr.size - of) % 2 := by
    split <;> omega
  unfold progFlash
  rw [hskip, Option.bind_eq_bind, Option.bind_some]
  by_cases hmax : (of : Int) + 2048 ≤ INT_MAX
  · have hadd : intAdd (of : Int) 2048 = some ((of : Int) + 2048) :=
      intAdd_of_range (by omega) hmax
    have hu : u32 (of : Int) = of := u32_of_range (by omega) (by omega)
    rw [hadd, Option.bind_eq_bind, Option.bind_some, if_pos hmax]
    unfold requestSize
    by_cases hend : (of : Int) + 2048 > pr.size
    · rw [if_pos hend, if_pos hend]
      dsimp only
      rw [hround, hu]
      cases slice pr.img of (pr.size - of + (pr.size - of) % 2) <;> rfl
    · rw [if_neg hend, if_neg hend, hu]
      cases slice pr.img of 2048 <;> rfl
  · have hadd : intAdd (of : Int) 2048 = none := by
      unfold intAdd
      rw [if_neg (fun h => hmax h.2)]
    rw [hadd, if_neg hmax]
    rfl

/-- The offset leads to a block that begins inside the image and ends there, or is cut at the end of
the image without an odd byte. -/
def LeadsInside (pr : bin_img) (offset : Int) : Prop :=
  ∃ off of : Nat, offset = off ∧ FirstUsed pr.img off of ∧ (of : Int) < pr.size ∧
    (of : Int) + 2048 ≤ INT_MAX ∧ ((of : Int) + 2048 ≤ pr.size ∨ pr.size % 2 = 1 ∨ off % 2 = 0)

theorem requestSize_le (size of : Int) : requestSize size of ≤ 2048 := by
  unfold requestSize
  split <;> omega

/-- What the target reads in the fields of a request. -/
theorem request_fields {size : Int} {of : Nat} (hmax : (of : Int) + 2048 ≤ INT_MAX)
    (h0 : 0 ≤ requestSize size of) (data : List UInt8) :
    uint32Of (prog_flash_t.bytes ⟨of, requestSize size of / 2, data⟩) 1 = of ∧
      requestLength (prog_flash_t.bytes ⟨of, requestSize size of / 2, data⟩) =
        requestSize size of / 2 := by
  have hle := requestSize_le size of
  constructor
  · exact bytes_Address (by dsimp only; omega) (by dsimp only; unfold INT_MAX at hmax; omega)
  · exact bytes_Length (by dsimp only; omega) (by dsimp only; omega)

theorem slice_nonneg {img data : List UInt8} {off n : Int} (h : slice img off n = some data) :
    0 ≤ n := by
  unfold slice at h
  split at h
  · rename_i hrange
    exact hrange.1
  · cases h

theorem leads_inside {pr : bin_img} {offset : Int} {m : prog_flash_t}
    (hm : progFlash pr offset = some m) (hinside : InsideImage pr m.bytes) :
    LeadsInside pr offset := by
  have h0 : 0 ≤ offset := by
    by_contra hneg
    rw [progFlash_negative (by omega)] at hm
    cases hm
  obtain ⟨off, rfl⟩ := Int.eq_ofNat_of_zero_le h0
  obtain ⟨of', hskip, -⟩ := Option.bind_eq_some_iff.mp hm
  obtain ⟨k, rfl, hall, hused⟩ := skipDataFf_stops hskip
  rw [progFlash_of_skip hskip] at hm
  split at hm
  · rename_i hmax
    obtain ⟨data, hdata, rfl⟩ := Option.map_eq_some_iff.mp hm
    obtain ⟨haddress, hlength⟩ := request_fields hmax (slice_nonneg hdata) data
    have hin := hinside.address
    have hstop := hinside.stop
    rw [haddress] at hin hstop
    rw [hlength] at hstop
    refine ⟨off, off + 2048 * k, rfl, ⟨⟨k, rfl⟩, hall, hused⟩, hin, hmax, ?_⟩
    unfold requestSize at hstop
    split at hstop <;> omega
  · cases hm

theorem LeadsInside.request {pr : bin_img} {offset : Int} (h : LeadsInside pr offset) :
    ∃ m, progFlash pr offset = some m ∧ InsideImage pr m.bytes := by
  have himg := pr.img_length
  have hle := pr.size_le
  obtain ⟨off, of, rfl, hfirst, hin, hmax, hcut⟩ := h
  have hskip := hfirst.skip (by omega)
  obtain ⟨k, hk⟩ := hfirst.blocks
  obtain ⟨h0, hfits, heven⟩ : 0 ≤ requestSize pr.size of ∧
      of + requestSize pr.size of ≤ pr.img.length ∧
      2 * (requestSize pr.size of / 2) = requestSize pr.size of := by
    unfold requestSize
    split <;> omega
  have hdata : slice pr.img of (requestSize pr.size of) =
      some ((pr.img.drop of).take (requestSize pr.size of).toNat) := by
    unfold slice
    rw [if_pos (by omega), Int.toNat_natCast]
  obtain ⟨haddress, hlength⟩ := request_fields hmax h0
    ((pr.img.drop of).take (requestSize pr.size of).toNat)
  refine ⟨_, by rw [progFlash_of_skip hskip, if_pos hmax, hdata]; rfl, ?_⟩
  constructor
  · exact progFlash_bytes_head _
  · rw [haddress]
    exact hin
  · rw [haddress, hlength]
    unfold requestSize
    split <;> omega
  · rw [haddress, hlength, heven, bytes_Data, Int.toNat_natCast]

theorem inside_image_iff (pr : bin_img) (offset : Int) :
    (∃ m, progFlash pr offset = some m ∧ InsideImage pr m.bytes) ↔ LeadsInside pr offset :=
  ⟨fun ⟨_, hm, hinside⟩ => leads_inside hm hinside, LeadsInside.request⟩

/-- Where the request that follows a program confirm begins to look for a block. -/
def confirmOffset (p : packet_t) : Int :=
  if cfmConfirm p = TRUE then u32 (cfmAddress p + 0x800) else cfmAddress p

theorem request_iff {l : Loader} {p : packet_t} {offset : Int}
    (h : flashloader_dispatch l p = returns (prog_flash_req l offset)) :
    StaysInImage l p ↔ ∃ m, progFlash l.pr offset = some m ∧ InsideImage l.pr m.bytes := by
  constructor
  · rintro ⟨l', hd, hsent⟩
    rw [h] at hd
    obtain ⟨m, hm, -, hone⟩ := prog_flash_req_eq (returns_running hd)
    rw [hone] at hsent
    rcases hsent with hsum | ⟨r, hr, hinside⟩
    · have hhead : m.bytes.head? = (checksumRequest l.pr).head? :=
        congrArg List.head? (List.singleton_injective hsum)
      have hother : (checksumRequest l.pr).head? = some CALC_CRC32_REQ := rfl
      rw [progFlash_bytes_head, hother] at hhead
      exact absurd hhead (by decide)
    · exact ⟨m, hm, List.singleton_injective hr ▸ hinside⟩
  · rintro ⟨m, hm, hinside⟩
    have hreq : prog_flash_req l offset = some (send_packet l m.bytes) := by
      rw [prog_flash_req, hm]
      rfl
    obtain ⟨m', hm', -, hone⟩ := prog_flash_req_eq hreq
    cases hm.symm.trans hm'
    exact ⟨_, by rw [h, hreq]; rfl, .inr ⟨m.bytes, hone, hinside⟩⟩

/-- An address is converted to an `int`, which is negative from 0x80000000 on. -/
theorem inside_image_s32_iff (pr : bin_img) (x : Int) :
    (∃ m, progFlash pr (s32 x) = some m ∧ InsideImage pr m.bytes) ↔ LeadsInside pr (u32 x) := by
  have hle := pr.size_le
  by_cases hx : u32 x ≤ INT_MAX
  · rw [s32, if_pos hx]
    exact inside_image_iff pr (u32 x)
  · constructor
    · rintro ⟨m, hm, -⟩
      have hneg : s32 x < 0 := by
        rw [s32, if_neg hx]
        unfold u32
        omega
      rw [progFlash_negative hneg] at hm
      cases hm
    · rintro ⟨off, of, hoff, hfirst, hin, -⟩
      obtain ⟨k, hk⟩ := hfirst.blocks
      omega

/-- After a program confirm the loader stays inside the image exactly when the checksum is next, or
the address that the target sent leads to a block inside the image. A refused address is not
compared with the size at all. -/
theorem a_program_confirm_stays_in_the_image_iff (l : Loader) (p : packet_t)
    (hp : p.byte 0 = PROG_FLASH_CFM) :
    StaysInImage l p ↔
      cfmConfirm p = TRUE ∧ l.pr.size ≤ u32 (cfmAddress p + 0x800) ∨
      LeadsInside l.pr (confirmOffset p) := by
  have h0 := l.pr.size_nonneg
  have hle := l.pr.size_le
  have hsize : u32 l.pr.size = l.pr.size := u32_of_range h0 (by omega)
  have hd := dispatch_program (l := l) hp
  by_cases hc : cfmConfirm p = TRUE
  · by_cases ha : u32 (cfmAddress p + 0x800) < u32 l.pr.size
    · have hnot : ¬ l.pr.size ≤ u32 (cfmAddress p + 0x800) := by omega
      rw [prog_flash_cfm, if_pos hc, if_pos ha] at hd
      rw [request_iff hd, inside_image_s32_iff, confirmOffset, if_pos hc]
      simp [hnot]
    · have hd' : flashloader_dispatch l p = .running (calc_crc32_req l) := by
        rw [hd, prog_flash_cfm, if_pos hc, if_neg ha]
        rfl
      have hsent : sent l (calc_crc32_req l) = [checksumRequest l.pr] :=
        sent_packet (by simp [checksumRequest]) rfl
      exact iff_of_true ⟨_, hd', .inl hsent⟩ (.inl ⟨hc, by omega⟩)
  · have haddress : u32 (cfmAddress p) = cfmAddress p := by
      have hlow : 0 ≤ cfmAddress p := ofLe32_nonneg ..
      have hhigh : cfmAddress p < 4294967296 := ofLe32_lt ..
      unfold u32
      omega
    rw [prog_flash_cfm, if_neg hc] at hd
    rw [request_iff hd, inside_image_s32_iff, haddress, confirmOffset, if_neg hc]
    simp [hc]

/-- An image of one byte, and a refused request for it. -/
theorem a_program_confirm_stays_in_the_image_iff_for_one_byte :
    ∃ pr, read_firmware [7] 0 0 0 = some pr ∧
      StaysInImage ⟨pr, ⟨0, 0, 0, 0, 0, 0, 0, 0⟩, 0, 0, []⟩
        (blank.carry [0x12, 0, 0, 0, 0, 0, 0, 0] (by decide)) := by
  refine ⟨_, rfl, (a_program_confirm_stays_in_the_image_iff _ _ rfl).mpr (.inr ?_)⟩
  refine ⟨0, 0, by decide, ⟨⟨0, rfl⟩, fun i h1 h2 => absurd h2 (Nat.not_lt_zero i), ?_⟩, by decide,
    by decide, .inr (.inl (by decide))⟩
  exact ⟨0, by decide, 7, rfl, by decide⟩

/-- The same image, and a refused request for the address behind it: the bytes there are 0xFF, and
the loop leaves the array. -/
theorem a_refused_address_leads_out_of_the_image :
    ∃ pr, read_firmware [7] 0 0 0 = some pr ∧
      flashloader_dispatch ⟨pr, ⟨0, 0, 0, 0, 0, 0, 0, 0⟩, 0, 0, []⟩
        (blank.carry [0x12, 1, 0, 0, 0, 0, 0, 0] (by decide)) = .undefined ∧
      ¬ StaysInImage ⟨pr, ⟨0, 0, 0, 0, 0, 0, 0, 0⟩, 0, 0, []⟩
        (blank.carry [0x12, 1, 0, 0, 0, 0, 0, 0] (by decide)) := by
  have hff : is_data_ff [7, 0xff, 0xff, 0xff] 2048 1 = none := by decide
  obtain ⟨pr, hpr, himg⟩ : ∃ pr, read_firmware [7] 0 0 0 = some pr ∧
      pr.img = [7, 0xff, 0xff, 0xff] := ⟨_, rfl, rfl⟩
  have hnone : progFlash pr 1 = none := by
    unfold progFlash
    rw [skipDataFf, himg, hff]
    rfl
  have hd : flashloader_dispatch ⟨pr, ⟨0, 0, 0, 0, 0, 0, 0, 0⟩, 0, 0, []⟩
      (blank.carry [0x12, 1, 0, 0, 0, 0, 0, 0] (by decide)) = .undefined := by
    have hoffset : s32 (cfmAddress (blank.carry [0x12, 1, 0, 0, 0, 0, 0, 0] (by decide))) = 1 := by
      decide
    rw [dispatch_program rfl, prog_flash_cfm, if_neg (by decide), hoffset, prog_flash_req, hnone]
    rfl
  refine ⟨pr, hpr, hd, ?_⟩
  rintro ⟨l', hrun, -⟩
  cases hd.symm.trans hrun

/-! ## The sector size -/

/-- The dispatch goes on to the erase request. -/
def Erases (l : Loader) (p : packet_t) : Prop :=
  ∃ l', flashloader_dispatch l p = .running l' ∧
    sent l l' = [[FLASH_ERASE_REQ] ++ le32 0 ++ le16 CHIP_ERASE_CMD]

/-- The division by zero is before the request. -/
theorem dispatch_sector_zero {l : Loader} {p : packet_t} (hp : p.byte 0 = READ_PROPRIETARY_DATA_CFM)
    (hzero : uint32At p 11 = 0) : flashloader_dispatch l p = .undefined := by
  have hsector : (qspi_flash_type_cfm l p).f.SectorSize = 0 := hzero
  rw [dispatch_flash_type hp, erase_flash, if_pos hsector]
  rfl

/-- The erase is requested exactly when the four bytes at the place of the sector size, whether they
came with this packet or with an earlier one, are not all zero. -/
theorem the_erase_is_requested_iff (l : Loader) (p : packet_t)
    (hp : p.byte 0 = READ_PROPRIETARY_DATA_CFM) : Erases l p ↔ uint32At p 11 ≠ 0 := by
  by_cases hzero : uint32At p 11 = 0
  · refine iff_of_false ?_ (not_not.mpr hzero)
    rintro ⟨l', hrun, -⟩
    cases (dispatch_sector_zero hp hzero).symm.trans hrun
  · have hsector : ¬ (qspi_flash_type_cfm l p).f.SectorSize = 0 := hzero
    have hd := dispatch_flash_type (l := l) hp
    rw [erase_flash, if_neg hsector] at hd
    exact iff_of_true ⟨_, hd, sent_packet (by simp) rfl⟩ hzero

/-- A sector size of 4096. -/
theorem the_erase_is_requested_iff_for_sectors :
    ∃ pr, read_firmware [7] 0 0 0 = some pr ∧
      Erases ⟨pr, ⟨0, 0, 0, 0, 0, 0, 0, 0⟩, 0, 0, []⟩
        (blank.carry [0x20, 0, 0, 0, 0, 0, 0, 0, 0, 0, 0, 0, 0x10, 0, 0] (by decide)) :=
  ⟨_, rfl, (the_erase_is_requested_iff _ _ rfl).mpr (by decide)⟩

/-- A frame with zeros only behind its primitive: it is delivered, and its dispatch divides by
zero. -/
theorem a_sector_size_of_zero_ends_the_tool :
    ∃ (pr : bin_img) (b b' : buffer_t) (p : packet_t), read_firmware [7] 0 0 0 = some pr ∧
      contents b = make_tx_packet (0x20 :: List.replicate 14 0) ∧
      flashpacket_get ((eventOf []).locals 0) blank b = some (0, p, b') ∧
      p.byte 0 = READ_PROPRIETARY_DATA_CFM ∧
      flashloader_dispatch ⟨pr, ⟨0, 0, 0, 0, 0, 0, 0, 0⟩, 0, 0, []⟩ p = .undefined ∧
      ¬ Erases ⟨pr, ⟨0, 0, 0, 0, 0, 0, 0, 0⟩, 0, 0, []⟩ p := by
  obtain ⟨b, hreach, hcontents⟩ := reachable_with (by decide) flash_capacity
    (make_tx_packet (0x20 :: List.replicate 14 0)) (by decide)
  obtain ⟨t, hb, ht⟩ := reachable_holds hreach
  have hmax : (t.size : Int) ≤ INT_MAX := by
    rw [ht]
    exact flash_capacity
  have hparse : format.parse t.ahead = .frame (0x20 :: List.replicate 14 0) [] := by
    have hencode := format.parse_encode (0x20 :: List.replicate 14 0) [] (by decide)
    rw [List.append_nil, ← make_tx_packet_eq] at hencode
    rw [← hb.contents hmax, hcontents, hencode]
  obtain ⟨b', hget, -⟩ := (flashpacket_get.spec ((eventOf []).locals 0) 5000 (by decide)
    (by decide)).frame hb ht flash_capacity hparse (by decide) blank
  have hd : ∀ l, flashloader_dispatch l
      (blank.carry (0x20 :: List.replicate 14 0) (by decide)) = .undefined :=
    fun l => dispatch_sector_zero rfl (by decide)
  refine ⟨_, b, b', _, rfl, hcontents, hget, rfl, hd _, ?_⟩
  rintro ⟨l', hrun, -⟩
  cases (hd _).symm.trans hrun

end dect_prog.flashloader
