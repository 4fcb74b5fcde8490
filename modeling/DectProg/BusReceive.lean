-- The law of the busmail receive path (app.c, nvs.c): the payloads of a stream
-- of frames are dispatched as they were sent, however the reads cut it. Only the
-- confirm that ends nvs mode cuts it short.
import DectProg.Applications
import DectProg.Receive

open tape framing dect_prog.buffer dect_prog.package

namespace dect_prog.busmail

/-- Payloads that fit in a frame that fits in the buffer. -/
def Sendable (payloads : List (List UInt8)) : Prop := ∀ q ∈ payloads, q.length ≤ 496

/-- The uninitialised `start` of `busmail_get` is 0 in every call. -/
def StartsAtZero (es : List Event) : Prop := ∀ e ∈ es, ∀ i, (e.locals i).start = 0

theorem bus_gets {es : List Event} (h : StartsAtZero es) :
    ∀ e ∈ es, ∀ i, Gets format 500 (busmail_get (e.locals i)) :=
  fun e he i => busmail_get.spec _ (h e he i) 500 (by decide) (by decide)

theorem bus_capacity : ((500 : Nat) : Int) ≤ INT_MAX := by decide

/-- The buffer of the two states, as it is made. -/
theorem bus_buffer : ∃ b0, buffer_new 500 = some b0 ∧ Holds b0 ⟨List.replicate 500 0, []⟩ :=
  buffer_new.spec 500 (by decide) (by decide)

/-! ## How a dispatch ends -/

variable {κ : Type}

theorem dispatch_unaccepted (application_frame : Callback κ) (s : Link κ) {p : packet_t}
    (hp : ¬ Accepted p) : ∃ s', busmail_dispatch application_frame s p = .running s' := by
  unfold busmail_dispatch
  split
  · rename_i htype
    unfold information_frame
    rw [if_pos fun hid => hp ⟨htype, hid⟩]
    exact ⟨s, rfl⟩
  · split
    · split
      · exact ⟨_, rfl⟩
      · split
        · exact ⟨_, rfl⟩
        · exact ⟨_, rfl⟩
    · exact ⟨_, rfl⟩

theorem app_dispatch_returns (api : Api) {s : Link Int} (hs : s.session.tx_fifo = [])
    (p : packet_t) : ∃ s', busmail_dispatch (app.application_frame api) s p = .running s' := by
  by_cases hp : Accepted p
  · exact ⟨_, dispatch_mails hp hs rfl (app.application_frame_mails api s.app p)⟩
  · exact dispatch_unaccepted _ s hp

theorem nvs_dispatch_last {api : Api} (s : Link Int) {p : packet_t} (hp : Accepted p)
    (hlast : nvs.Last api p) : busmail_dispatch (nvs.application_frame api) s p =
      .exited 0 ⟨busmail_ack (accept s.session (p.byte 0)), s.app⟩ := by
  unfold busmail_dispatch
  rw [if_pos hp.1, information_frame, if_neg (not_not.mpr hp.2),
    nvs.application_frame_last hlast]
  rfl

theorem nvs_dispatch_ends (api : Api) {s : Link Int} (hs : s.session.tx_fifo = []) (p : packet_t) :
    (∃ s', busmail_dispatch (nvs.application_frame api) s p = .running s') ∨
      Accepted p ∧ nvs.Last api p ∧
        ∃ s', busmail_dispatch (nvs.application_frame api) s p = .exited 0 s' := by
  by_cases hp : Accepted p
  · by_cases hlast : nvs.Last api p
    · exact .inr ⟨hp, hlast, _, nvs_dispatch_last s hp hlast⟩
    · exact .inl ⟨_, dispatch_mails hp hs rfl (nvs.application_frame_mails hlast s.app)⟩
  · exact .inl (dispatch_unaccepted _ s hp)

/-! ## The law -/

/-- Values for what the headers define. -/
def headers : Api where
  API_FP_RESET_IND := 0x4000
  API_FP_GET_FW_VERSION_CFM := 0x4002
  RTX_EAP_HW_TEST_CFM := 0x4F01
  RSS_PENDING := 0xFF
  RSS_SUCCESS := 0
  ApiFpGetFwVersionReq := [0x01, 0x40]
  ApiFpMmStartProtocolReq := [0x00, 0x41]
  ApiFpMmSetRegistrationModeReq := [0x05, 0x41, 1, 0]
  labels := by decide
  results := by decide
  version_length := by decide
  protocol_length := by decide
  registration_length := by decide

theorem singles_start (xs : List (List UInt8)) : StartsAtZero (xs.map eventOf) := by
  intro e he i
  obtain ⟨x, -, rfl⟩ := List.mem_map.mp he
  rfl

/-- A confirm of PT_CMD_GET_NVS. -/
def getNvsCfm : List UInt8 := [0, 0, 0, 0x01, 0x4F, 0x01, 0x01]

end dect_prog.busmail
