-- The exchange that provisions the NVS: nvs.c over busmail.c, a target that
-- answers each request, and the frames that are in flight between them. The host
-- sends one request at a time: wherever resets and pending confirms fall, at most one
-- request or its confirm is under way, and that is the one sent last.
import DectProg.BusReceive
import DectProg.Machine

open machine dect_prog.package dect_prog.busmail

namespace dect_prog.nvs

/-- With the label of nvs.c that is only printed. -/
structure Headers extends Api where
  API_SCL_STATUS_IND : UInt16
  status_ind : API_SCL_STATUS_IND ∉
    [API_FP_RESET_IND, API_FP_GET_FW_VERSION_CFM, RTX_EAP_HW_TEST_CFM]

/-! ## Requests and their answers -/

inductive Request
  | fw_version
  | nvs_default
  | setNvs
  | getNvs
  deriving DecidableEq, Repr

/-- In the order of the exchange. -/
def Request.all : List Request := [.fw_version, .nvs_default, .setNvs, .getNvs]

def Request.mail (api : Api) : Request → tx_packet_t
  | .fw_version => ⟨api.ApiFpGetFwVersionReq, API_TEST⟩
  | .nvs_default => ⟨nvs.nvs_default, 0⟩
  | .setNvs => ⟨nvs.setNvs, 0⟩
  | .getNvs => ⟨nvs.getNvs, 0⟩

/-- An information frame for the application whose mail has this label. -/
def Carries (label : UInt16) (p : packet_t) : Prop := Accepted p ∧ mail_header p = label

instance (p : packet_t) : Decidable (Accepted p) := inferInstanceAs (Decidable (_ ∧ _))

instance (label : UInt16) (p : packet_t) : Decidable (Carries label p) :=
  inferInstanceAs (Decidable (_ ∧ _))

def Indicates (api : Headers) (p : packet_t) : Prop :=
  Carries api.API_FP_RESET_IND p ∨ Carries api.API_SCL_STATUS_IND p

def Pends (api : Headers) (p : packet_t) : Prop :=
  Carries api.RTX_EAP_HW_TEST_CFM p ∧ TestPrimitive p = PT_CMD_NVS_DEFAULT ∧
    p.byte 9 = api.RSS_PENDING

/-- The answer that ends a request. -/
def Request.Confirms (api : Headers) : Request → packet_t → Prop
  | .fw_version, p => Carries api.API_FP_GET_FW_VERSION_CFM p
  | .nvs_default, p => Carries api.RTX_EAP_HW_TEST_CFM p ∧
      TestPrimitive p = PT_CMD_NVS_DEFAULT ∧ p.byte 9 = api.RSS_SUCCESS
  | .setNvs, p => Carries api.RTX_EAP_HW_TEST_CFM p ∧ TestPrimitive p = PT_CMD_SET_NVS
  | .getNvs, p => Carries api.RTX_EAP_HW_TEST_CFM p ∧ TestPrimitive p = PT_CMD_GET_NVS

instance (api : Headers) (p : packet_t) : Decidable (Indicates api p) :=
  inferInstanceAs (Decidable (_ ∨ _))

instance (api : Headers) (p : packet_t) : Decidable (Pends api p) :=
  inferInstanceAs (Decidable (_ ∧ _))

instance (api : Headers) (r : Request) (p : packet_t) : Decidable (r.Confirms api p) :=
  match r with
  | .fw_version => inferInstanceAs (Decidable (Carries _ p))
  | .nvs_default => inferInstanceAs (Decidable (_ ∧ _))
  | .setNvs => inferInstanceAs (Decidable (_ ∧ _))
  | .getNvs => inferInstanceAs (Decidable (_ ∧ _))

def mailOf : Sent → Option tx_packet_t
  | .information _ task_id mail => some ⟨mail, task_id⟩
  | .acknowledgement _ => none
  | .unnumbered _ => none

/-- The mails among the frames that were written. -/
def mails (tty : List Sent) : List tx_packet_t := tty.filterMap mailOf

def requestOf (api : Headers) (f : Sent) : Option Request :=
  Request.all.find? fun r => mailOf f = some (r.mail api.toApi)

def confirmOf (api : Headers) (p : packet_t) : Option Request :=
  Request.all.find? fun r => r.Confirms api p

/-! ## The system -/

/-- The host, what is in flight in both directions, and the requests that the target has taken
and not yet answered. -/
structure System where
  host : Outcome (Link Int)
  to_target : List Sent
  asked : List Request
  to_host : List packet_t

def start : System := ⟨.running ⟨busmail_init, 0⟩, [], [], []⟩

inductive Move
  /-- The target sends a reset or a status, at any moment. -/
  | indicate (p : packet_t)
  /-- The target takes the next frame. -/
  | take
  /-- The target puts off the answer to the default request. -/
  | pend (p : packet_t)
  /-- The target answers a request. -/
  | confirm (r : Request) (p : packet_t)
  /-- The host handles the next frame. -/
  | deliver

/-- A frame that the host received, and what it wrote before it waited for the next one or
ended. -/
abbrev Exchange := packet_t × List Sent

def written (l : Link Int) (o : Outcome (Link Int)) : List Sent :=
  match o.last with
  | some l' => l'.session.tty.drop l.session.tty.length
  | none => []

def step (api : Headers) (s : System) : Move → Option (System × Option Exchange)
  | .indicate p =>
    if Indicates api p then some ({ s with to_host := s.to_host ++ [p] }, none) else none
  | .take =>
    match s.to_target with
    | [] => none
    | f :: fs =>
      some ({ s with to_target := fs, asked := s.asked ++ (requestOf api f).toList }, none)
  | .pend p =>
    if .nvs_default ∈ s.asked ∧ Pends api p then
      some ({ s with to_host := s.to_host ++ [p] }, none)
    else none
  | .confirm r p =>
    if r ∈ s.asked ∧ r.Confirms api p then
      some ({ s with asked := s.asked.erase r, to_host := s.to_host ++ [p] }, none)
    else none
  | .deliver =>
    match s.host, s.to_host with
    | .running l, p :: ps =>
      let host := busmail_dispatch (application_frame api.toApi) l p
      let sent := written l host
      some (⟨host, s.to_target ++ sent, s.asked, ps⟩, some (p, sent))
    | _, _ => none

/-! ## What the host does with a frame of the target -/

variable {api : Headers} {p : packet_t}

theorem Headers.status_ne (api : Headers) : api.API_SCL_STATUS_IND ≠ api.API_FP_RESET_IND ∧
    api.API_SCL_STATUS_IND ≠ api.API_FP_GET_FW_VERSION_CFM ∧
    api.API_SCL_STATUS_IND ≠ api.RTX_EAP_HW_TEST_CFM := by
  have hstatus := api.status_ind
  simp only [List.mem_cons, List.not_mem_nil, or_false, not_or] at hstatus
  exact hstatus

/-- The request that follows the answer. -/
def Request.next : Request → Option Request
  | .fw_version => some .nvs_default
  | .nvs_default => some .setNvs
  | .setNvs => some .getNvs
  | .getNvs => none

theorem application_frame_confirm {r r' : Request} (hp : r.Confirms api p)
    (hnext : r.next = some r') (reset_ind : Int) :
    ∃ call, application_frame api.toApi reset_ind p = (reset_ind, [call]) ∧
      call.queues = [r'.mail api.toApi] := by
  cases r with
  | fw_version =>
    cases hnext
    exact ⟨_, application_frame_version hp.2 reset_ind, rfl⟩
  | nvs_default =>
    cases hnext
    have hcalls := application_frame_rtx hp.1.2 reset_ind
    rw [rtx_default_success hp.2.1 hp.2.2] at hcalls
    exact ⟨_, hcalls, rfl⟩
  | setNvs =>
    cases hnext
    have hcalls := application_frame_rtx hp.1.2 reset_ind
    rw [rtx_set hp.2] at hcalls
    exact ⟨_, hcalls, rfl⟩
  | getNvs => cases hnext

theorem application_frame_reset (hp : Carries api.API_FP_RESET_IND p) :
    application_frame api.toApi 0 p = (1, [.busmail_send api.ApiFpGetFwVersionReq]) := by
  unfold application_frame
  rw [hp.2, if_pos rfl, if_pos rfl]

theorem application_frame_noise {reset_ind : Int} (hp : Indicates api p ∨ Pends api p)
    (hreset : Carries api.API_FP_RESET_IND p → reset_ind ≠ 0) :
    application_frame api.toApi reset_ind p = (reset_ind, []) := by
  rcases hp with (hp | hp) | hp
  · unfold application_frame
    rw [if_pos hp.2, if_neg (hreset hp)]
  · obtain ⟨h1, h2, h3⟩ := api.status_ne
    apply application_frame_quiet
    · exact fun _ => by rw [hp.2]; exact h1
    · rw [hp.2]
      exact h2
    · rw [hp.2]
      exact h3
  · rw [application_frame_rtx hp.1.2, rtx_default hp.2.1, if_pos hp.2.2]

theorem confirms_accepted {r : Request} (hp : r.Confirms api p) : Accepted p := by
  cases r with
  | fw_version => exact hp.1
  | nvs_default | setNvs | getNvs => exact hp.1.1

theorem noise_accepted (hp : Indicates api p ∨ Pends api p) : Accepted p := by
  rcases hp with (hp | hp) | hp
  · exact hp.1
  · exact hp.1
  · exact hp.1.1

/-! ## Which answer a frame is -/

theorem commands_ne : PT_CMD_NVS_DEFAULT ≠ PT_CMD_SET_NVS ∧ PT_CMD_NVS_DEFAULT ≠ PT_CMD_GET_NVS ∧
    PT_CMD_SET_NVS ≠ PT_CMD_GET_NVS := by decide

/-- A frame ends no more than one request. -/
theorem confirms_unique {r r' : Request} (h : r.Confirms api p) (h' : r'.Confirms api p) :
    r = r' := by
  have hversion := api.version_ne_rtx
  have hcommands := commands_ne
  cases r <;> cases r' <;> simp only [Request.Confirms, Carries] at h h' <;> grind

/-- The indications and the pending confirms end none. -/
theorem noise_confirms_nothing (hp : Indicates api p ∨ Pends api p) (r : Request) :
    ¬ r.Confirms api p := by
  have hversion := api.version_ne_rtx
  have hreset := api.reset_ne_version
  have hrtx := api.rtx_ne_reset
  have hstatus := api.status_ne
  have hcommands := commands_ne
  have hresults := api.results
  intro h
  cases r <;> simp only [Request.Confirms, Indicates, Pends, Carries] at h hp <;> grind

theorem confirmOf_noise (hp : Indicates api p ∨ Pends api p) : confirmOf api p = none := by
  unfold confirmOf
  rw [List.find?_eq_none]
  intro r _ hr
  exact noise_confirms_nothing hp r (of_decide_eq_true hr)

/-- The only one that is sought is found. -/
theorem find_only {P : Request → Bool} {r : Request} (hr : P r = true)
    (honly : ∀ r', P r' = true → r' = r) : Request.all.find? P = some r := by
  obtain ⟨r', hr'⟩ : ∃ r', Request.all.find? P = some r' :=
    Option.isSome_iff_exists.mp (List.find?_isSome.mpr ⟨r, by cases r <;> decide, hr⟩)
  rw [hr', honly r' (List.find?_some hr')]

theorem confirmOf_confirms {r : Request} (hp : r.Confirms api p) : confirmOf api p = some r :=
  find_only (decide_eq_true hp) fun _ h => confirms_unique (of_decide_eq_true h) hp

/-! ## Which request a frame is -/

theorem mail_injective {r r' : Request} (h : r.mail api.toApi = r'.mail api.toApi) : r = r' := by
  cases r <;> cases r' <;>
    first
    | rfl
    | simp [Request.mail, API_TEST, nvs.nvs_default, nvs.setNvs, nvs.getNvs] at h

theorem requestOf_mail {f : Sent} {r : Request} (hf : mailOf f = some (r.mail api.toApi)) :
    requestOf api f = some r := by
  apply find_only (decide_eq_true hf)
  intro r' h
  have hmail := (of_decide_eq_true h).symm.trans hf
  exact mail_injective (Option.some.inj hmail)

theorem requestOf_ack (h : UInt8) : requestOf api (.acknowledgement h) = none := rfl

/-! ## One dispatch -/

/-- The host writes one frame and waits for the next one. -/
structure Replies (l l' : Link Int) (f : Sent) : Prop where
  tty : l'.session.tty = l.session.tty ++ [f]
  tx_fifo : l'.session.tx_fifo = []

variable {l : Link Int}

theorem written_replies {l' : Link Int} {f : Sent} (h : Replies l l' f) :
    written l (.running l') = [f] := by
  show l'.session.tty.drop l.session.tty.length = [f]
  rw [h.tty, List.drop_left]

/-- A callback that enqueues one mail: it is the answer. -/
theorem dispatch_mail (hp : Accepted p) (hl : l.session.tx_fifo = []) {reset_ind : Int}
    {call : Call} {tx : tx_packet_t}
    (hcalls : application_frame api.toApi l.app p = (reset_ind, [call]))
    (hcall : call.queues = [tx]) (htx : 0 < tx.data.length) :
    ∃ l' f, busmail_dispatch (application_frame api.toApi) l p = .running l' ∧
      l'.app = reset_ind ∧ Replies l l' f ∧ mailOf f = some tx := by
  have hd := dispatch_mails hp hl hcalls (by simpa using ⟨tx, hcall, htx⟩)
  rw [List.flatMap_singleton, hcall] at hd
  refine ⟨_, mailFrame (accept l.session (p.byte 0)) 0 tx, hd, rfl, ⟨?_, ?_⟩, rfl⟩
  · exact (answer_tty _ _).trans (List.append_nil _)
  · exact (answer_received _ _).1

/-- A callback that enqueues nothing: the answer is an acknowledgement. -/
theorem dispatch_ack (hp : Accepted p) (hl : l.session.tx_fifo = []) {reset_ind : Int}
    (hcalls : application_frame api.toApi l.app p = (reset_ind, [])) :
    ∃ l' h, busmail_dispatch (application_frame api.toApi) l p = .running l' ∧
      l'.app = reset_ind ∧ Replies l l' (.acknowledgement h) := by
  have hd := dispatch_mails hp hl hcalls (by simp)
  refine ⟨_, make_supervisory_frame (accept l.session (p.byte 0)) SUID_RR NO_PF, hd, rfl, ?_, ?_⟩
  · rw [List.flatMap_nil, answer_tty, List.mapIdx_nil, List.append_nil]
    rfl
  · exact (answer_received _ _).1

/-! ## What holds while the host waits -/

/-- The requests that are under way: in flight to the target, taken by it, or with the answer in
flight to the host. -/
def underWay (api : Headers) (s : System) : List Request :=
  s.to_target.filterMap (requestOf api) ++ s.asked ++ s.to_host.filterMap (confirmOf api)

/-- After `k` requests the last one of them is under way, and no other. -/
structure Waits (api : Headers) (s : System) (l : Link Int) (k : Nat) : Prop where
  host : s.host = .running l
  sent : k ≤ 4
  tx_fifo : l.session.tx_fifo = []
  reset_ind : l.app = 0 ↔ k = 0
  mails : mails l.session.tty = (Request.all.take k).map (Request.mail api.toApi)
  underWay : (underWay api s).Perm (Request.all.take k).getLast?.toList
  to_host : ∀ p ∈ s.to_host, (Indicates api p ∨ Pends api p) ∨ ∃ r : Request, r.Confirms api p

theorem waits_start (api : Headers) : Waits api start ⟨busmail_init, 0⟩ 0 :=
  ⟨rfl, by decide, rfl, by decide, rfl, .nil, by simp [start]⟩

variable {s : System} {k : Nat}

/-- A move of the target leaves the same requests under way. -/
theorem Waits.target (hs : Waits api s l k) {s' : System} (hhost : s'.host = s.host)
    (hperm : (nvs.underWay api s').Perm (nvs.underWay api s))
    (hframes : ∀ p ∈ s'.to_host, p ∈ s.to_host ∨
      (Indicates api p ∨ Pends api p) ∨ ∃ r : Request, r.Confirms api p) : Waits api s' l k := by
  refine ⟨hhost.trans hs.host, hs.sent, hs.tx_fifo, hs.reset_ind, hs.mails,
    hperm.trans hs.underWay, fun p hp => ?_⟩
  rcases hframes p hp with hold | hnew
  · exact hs.to_host p hold
  · exact hnew

/-- A frame that ends no request goes into flight. -/
theorem Waits.noise (hs : Waits api s l k) (hp : Indicates api p ∨ Pends api p) :
    Waits api { s with to_host := s.to_host ++ [p] } l k := by
  refine Waits.target hs rfl ?_ fun q hq => ?_
  · simp [nvs.underWay, confirmOf_noise hp]
  · rcases List.mem_append.mp hq with hq | hq
    · exact .inl hq
    · rw [List.mem_singleton.mp hq]
      exact .inr (.inl hp)

/-- The target takes a frame. -/
theorem Waits.take {f : Sent} {fs : List Sent} (hs : Waits api s l k)
    (hf : s.to_target = f :: fs) :
    Waits api { s with to_target := fs, asked := s.asked ++ (requestOf api f).toList } l k := by
  refine Waits.target hs rfl ?_ fun q hq => .inl hq
  have hcons : (f :: fs).filterMap (requestOf api) =
      (requestOf api f).toList ++ fs.filterMap (requestOf api) := by
    cases hr : requestOf api f <;> simp [hr]
  have hmove : (fs.filterMap (requestOf api) ++ (s.asked ++ (requestOf api f).toList)).Perm
      ((requestOf api f).toList ++ fs.filterMap (requestOf api) ++ s.asked) := by
    rw [← List.append_assoc, List.append_assoc (requestOf api f).toList]
    exact List.perm_append_comm
  unfold nvs.underWay
  rw [hf, hcons]
  exact hmove.append_right _

/-- The target answers a request. -/
theorem Waits.confirm {r : Request} (hs : Waits api s l k) (hr : r ∈ s.asked)
    (hp : r.Confirms api p) :
    Waits api { s with asked := s.asked.erase r, to_host := s.to_host ++ [p] } l k := by
  refine Waits.target hs rfl ?_ fun q hq => ?_
  · have hmove : ∀ Z : List Request, (s.asked.erase r ++ (Z ++ [r])).Perm (s.asked ++ Z) := by
      intro Z
      calc (s.asked.erase r ++ (Z ++ [r])).Perm (s.asked.erase r ++ r :: Z) :=
            (List.perm_append_singleton r Z).append_left _
        List.Perm _ (r :: s.asked.erase r ++ Z) := List.perm_middle
        List.Perm _ (s.asked ++ Z) := (List.perm_cons_erase hr).symm.append_right Z
    simp only [nvs.underWay, List.filterMap_append, List.filterMap_cons, confirmOf_confirms hp,
      List.filterMap_nil, List.append_assoc]
    exact (hmove _).append_left _
  · rcases List.mem_append.mp hq with hq | hq
    · exact .inl hq
    · rw [List.mem_singleton.mp hq]
      exact .inr (.inr ⟨r, hp⟩)

/-! ## What a delivery does -/

/-- The requests sent so far, when `r` is the last of them and `r'` follows it. -/
theorem take_next {r r' : Request} (hk : k ≤ 4) (hlast : (Request.all.take k).getLast? = some r)
    (hnext : r.next = some r') :
    k + 1 ≤ 4 ∧ Request.all.take (k + 1) = Request.all.take k ++ [r'] := by
  obtain rfl | rfl | rfl | rfl | rfl : k = 0 ∨ k = 1 ∨ k = 2 ∨ k = 3 ∨ k = 4 := by omega
  all_goals cases hlast
  all_goals cases hnext
  all_goals decide

/-- When the answer to a request is next, nothing else is under way. -/
theorem underWay_confirm {r : Request} {A B Z : List Request} {o : Option Request}
    (h : (A ++ B ++ r :: Z).Perm o.toList) : A = [] ∧ B = [] ∧ Z = [] ∧ o = some r := by
  cases o with
  | none => simpa using h.length_eq
  | some q =>
    have hlength := h.length_eq
    simp only [List.length_append, List.length_cons, Option.toList_some, List.length_nil] at hlength
    obtain rfl : A = [] := List.eq_nil_of_length_eq_zero (by omega)
    obtain rfl : B = [] := List.eq_nil_of_length_eq_zero (by omega)
    obtain rfl : Z = [] := List.eq_nil_of_length_eq_zero (by omega)
    cases List.perm_singleton.mp h
    exact ⟨rfl, rfl, rfl, rfl⟩

theorem mail_length (r : Request) : 0 < (r.mail api.toApi).data.length := by
  cases r with
  | fw_version => exact api.version_length
  | nvs_default | setNvs | getNvs => exact Nat.zero_lt_succ _

theorem mails_append (tty : List Sent) (f : Sent) :
    nvs.mails (tty ++ [f]) = nvs.mails tty ++ (mailOf f).toList := by
  cases h : mailOf f <;> simp [nvs.mails, h]

/-- The answer is the next request, when nothing else is under way. -/
theorem Waits.mail {ps : List packet_t} {l' : Link Int} {f : Sent} {r : Request}
    (hs : Waits api s l k) (hps : s.to_host = p :: ps) (hreply : Replies l l' f)
    (hf : mailOf f = some (r.mail api.toApi)) (hreset : l'.app ≠ 0)
    (hidle : s.to_target.filterMap (requestOf api) = [] ∧ s.asked = [] ∧
      ps.filterMap (confirmOf api) = [])
    (hk : k + 1 ≤ 4) (htake : Request.all.take (k + 1) = Request.all.take k ++ [r]) :
    Waits api ⟨.running l', s.to_target ++ [f], s.asked, ps⟩ l' (k + 1) := by
  refine ⟨rfl, hk, hreply.tx_fifo, by simpa using hreset, ?_, ?_, fun q hq => ?_⟩
  · rw [hreply.tty, mails_append, hs.mails, hf, htake, List.map_append]
    rfl
  · rw [htake, List.getLast?_concat]
    simp [nvs.underWay, hidle, requestOf_mail hf]
  · exact hs.to_host q (by rw [hps]; exact List.mem_cons_of_mem p hq)

/-- The answer is an acknowledgement. -/
theorem Waits.ack {ps : List packet_t} {l' : Link Int} {h : UInt8} (hs : Waits api s l k)
    (hps : s.to_host = p :: ps) (hp : Indicates api p ∨ Pends api p)
    (hreply : Replies l l' (.acknowledgement h)) (hreset : l'.app = l.app) :
    Waits api ⟨.running l', s.to_target ++ [.acknowledgement h], s.asked, ps⟩ l' k := by
  refine ⟨rfl, hs.sent, hreply.tx_fifo, hreset ▸ hs.reset_ind, ?_, ?_, fun q hq => ?_⟩
  · rw [hreply.tty, mails_append, hs.mails]
    exact List.append_nil _
  · have hunder := hs.underWay
    rw [nvs.underWay, hps, List.filterMap_cons, confirmOf_noise hp] at hunder
    unfold nvs.underWay
    rw [List.filterMap_append, List.filterMap_cons, requestOf_ack,
      List.filterMap_nil, List.append_nil]
    exact hunder
  · exact hs.to_host q (by rw [hps]; exact List.mem_cons_of_mem p hq)

/-- A received frame is answered by one mail or one acknowledgement. -/
def Answered (e : Exchange) : Prop :=
  ∃ f, e.2 = [f] ∧ ((∃ tx, mailOf f = some tx) ∨ ∃ h, f = .acknowledgement h)

/-- The process ended with 0, and all the requests were sent. -/
def Completed (api : Headers) (s : System) : Prop :=
  ∃ l, s.host = .exited 0 l ∧ nvs.mails l.session.tty = Request.all.map (Request.mail api.toApi)

/-- What the host does with the next frame. -/
inductive Delivers (api : Headers) (s : System) (e : Exchange) : Prop
  | waits (l : Link Int) (k : Nat) (hs : Waits api s l k) (he : Answered e)
      (hp : ¬ Request.getNvs.Confirms api e.1)
  | ends (hs : Completed api s) (hp : Request.getNvs.Confirms api e.1) (h : UInt8)
      (he : e.2 = [.acknowledgement h])

theorem Waits.deliver {ps : List packet_t} (hs : Waits api s l k) (hps : s.to_host = p :: ps) :
    Delivers api ⟨busmail_dispatch (application_frame api.toApi) l p,
      s.to_target ++ written l (busmail_dispatch (application_frame api.toApi) l p), s.asked, ps⟩
      (p, written l (busmail_dispatch (application_frame api.toApi) l p)) := by
  rcases hs.to_host p (by simp [hps]) with hp | ⟨r, hp⟩
  · by_cases hfirst : Carries api.API_FP_RESET_IND p ∧ l.app = 0
    · -- The first reset: the exchange begins.
      obtain ⟨hcarries, hreset⟩ := hfirst
      obtain rfl : k = 0 := hs.reset_ind.mp hreset
      have hcalls := application_frame_reset hcarries
      rw [← hreset] at hcalls
      obtain ⟨l', f, hd, happ, hreply, hf⟩ := dispatch_mail hcarries.1 hs.tx_fifo hcalls rfl
        api.version_length
      have hidle := hs.underWay.eq_nil
      rw [nvs.underWay, hps, List.filterMap_cons, confirmOf_noise hp, List.append_assoc,
        List.append_eq_nil_iff, List.append_eq_nil_iff] at hidle
      have hf : mailOf f = some (Request.fw_version.mail api.toApi) := hf
      have hwaits := hs.mail hps hreply hf (by rw [happ]; decide) hidle
        (by decide) rfl
      rw [hd, written_replies hreply]
      exact .waits l' 1 hwaits ⟨f, rfl, .inl ⟨_, hf⟩⟩ (noise_confirms_nothing hp _)
    · -- A reset that is not the first, a status, a pending confirm.
      have hcalls := application_frame_noise hp
        fun hcarries (hreset : l.app = 0) => hfirst ⟨hcarries, hreset⟩
      obtain ⟨l', h, hd, happ, hreply⟩ := dispatch_ack (noise_accepted hp) hs.tx_fifo hcalls
      rw [hd, written_replies hreply]
      exact .waits l' k (hs.ack hps hp hreply happ) ⟨_, rfl, .inr ⟨h, rfl⟩⟩
        (noise_confirms_nothing hp _)
  · -- The answer to the request that was sent last.
    have hunder := hs.underWay
    rw [nvs.underWay, hps, List.filterMap_cons, confirmOf_confirms hp] at hunder
    obtain ⟨h1, h2, h3, hlast⟩ := underWay_confirm hunder
    cases hnext : r.next with
    | some r' =>
      obtain ⟨call, hcalls, hcall⟩ := application_frame_confirm hp hnext l.app
      obtain ⟨l', f, hd, happ, hreply, hf⟩ := dispatch_mail (confirms_accepted hp) hs.tx_fifo hcalls
        hcall (mail_length r')
      obtain ⟨hk, htake⟩ := take_next hs.sent hlast hnext
      have hreset : l'.app ≠ 0 := by
        rw [happ, Ne, hs.reset_ind]
        rintro rfl
        cases hlast
      have hlive : ¬ Request.getNvs.Confirms api p := by
        intro hget
        rw [confirms_unique hp hget] at hnext
        cases hnext
      rw [hd, written_replies hreply]
      exact .waits l' (k + 1) (hs.mail hps hreply hf hreset ⟨h1, h2, h3⟩ hk htake)
        ⟨f, rfl, .inl ⟨_, hf⟩⟩ hlive
    | none =>
      obtain rfl : r = .getNvs := by
        cases r <;> first | rfl | cases hnext
      have hd := nvs_dispatch_last l hp.1.1 ⟨hp.1.2, hp.2⟩
      have hall : Request.all.take k = Request.all := by
        have hk := hs.sent
        obtain rfl | rfl | rfl | rfl | rfl : k = 0 ∨ k = 1 ∨ k = 2 ∨ k = 3 ∨ k = 4 := by omega
        all_goals first | rfl | cases hlast
      rw [hd]
      refine .ends ⟨_, rfl, ?_⟩ hp (make_supervisory_frame (accept l.session (p.byte 0)) SUID_RR NO_PF) ?_
      · refine (mails_append _ _).trans ?_
        rw [← hall, ← hs.mails]
        exact List.append_nil _
      · exact List.drop_left

/-! ## Runs -/

/-- What a move does. -/
inductive Steps (api : Headers) (s : System) : System → Option Exchange → Prop
  | noise (p : packet_t) (hp : Indicates api p ∨ Pends api p) :
      Steps api s { s with to_host := s.to_host ++ [p] } none
  | take (f : Sent) (fs : List Sent) (hf : s.to_target = f :: fs) :
      Steps api s { s with to_target := fs, asked := s.asked ++ (requestOf api f).toList } none
  | confirm (r : Request) (p : packet_t) (hr : r ∈ s.asked) (hp : r.Confirms api p) :
      Steps api s { s with asked := s.asked.erase r, to_host := s.to_host ++ [p] } none
  | deliver (l : Link Int) (p : packet_t) (ps : List packet_t) (hhost : s.host = .running l)
      (hps : s.to_host = p :: ps) :
      Steps api s ⟨busmail_dispatch (application_frame api.toApi) l p,
        s.to_target ++ written l (busmail_dispatch (application_frame api.toApi) l p), s.asked, ps⟩
        (some (p, written l (busmail_dispatch (application_frame api.toApi) l p)))

theorem step_steps {s' : System} {move : Move} {o : Option Exchange}
    (h : step api s move = some (s', o)) : Steps api s s' o := by
  cases move with
  | indicate p =>
    simp only [step, Option.ite_none_right_eq_some] at h
    obtain ⟨hp, h⟩ := h
    cases h
    exact .noise p (.inl hp)
  | take =>
    simp only [step] at h
    split at h
    · cases h
    · rename_i f fs hf
      cases h
      exact .take f fs hf
  | pend p =>
    simp only [step, Option.ite_none_right_eq_some] at h
    obtain ⟨⟨-, hp⟩, h⟩ := h
    cases h
    exact .noise p (.inr hp)
  | confirm r p =>
    simp only [step, Option.ite_none_right_eq_some] at h
    obtain ⟨⟨hr, hp⟩, h⟩ := h
    cases h
    exact .confirm r p hr hp
  | deliver =>
    simp only [step] at h
    split at h
    · rename_i l p ps hhost hps
      cases h
      exact .deliver l p ps hhost hps
    · cases h

theorem step_waits {s' : System} {move : Move} {o : Option Exchange} (hs : Waits api s l k)
    (h : step api s move = some (s', o)) :
    (o = none ∧ Waits api s' l k) ∨ ∃ e, o = some e ∧ Delivers api s' e := by
  cases step_steps h with
  | noise p hp => exact .inl ⟨rfl, hs.noise hp⟩
  | take f fs hf => exact .inl ⟨rfl, hs.take hf⟩
  | confirm r p hr hp => exact .inl ⟨rfl, hs.confirm hr hp⟩
  | deliver l1 p ps hhost hps =>
    rw [hs.host] at hhost
    cases hhost
    exact .inr ⟨_, rfl, hs.deliver hps⟩

/-- A process that ended receives nothing. -/
theorem step_completed {s' : System} {move : Move} {o : Option Exchange} (hs : Completed api s)
    (h : step api s move = some (s', o)) : o = none ∧ Completed api s' := by
  obtain ⟨l, hhost, hmails⟩ := hs
  cases step_steps h with
  | noise p hp => exact ⟨rfl, l, hhost, hmails⟩
  | take f fs hf => exact ⟨rfl, l, hhost, hmails⟩
  | confirm r p hr hp => exact ⟨rfl, l, hhost, hmails⟩
  | deliver l1 p ps hrunning hps =>
    rw [hhost] at hrunning
    cases hrunning

/-- The frames that the host received in a run, with the answers. -/
def received (os : List (Option Exchange)) : List Exchange := os.filterMap id

theorem completed_run (moves : List Move) : ∀ {s s' : System} {os : List (Option Exchange)},
    Completed api s → run (step api) s moves = some (s', os) →
      received os = [] ∧ Completed api s' := by
  induction moves with
  | nil =>
    intro s s' os hs h
    cases h
    exact ⟨rfl, hs⟩
  | cons move moves ih =>
    intro s s' os hs h
    obtain ⟨s1, o, os', hstep, hrun, rfl⟩ := run_cons_eq_some.mp h
    obtain ⟨rfl, hs1⟩ := step_completed hs hstep
    have hrest := ih hs1 hrun
    exact hrest

/-- The state after a run, and what was received in it: either the host waits, or the answer to
the last request was received, and nothing after it. -/
inductive Stands (api : Headers) (s : System) : List Exchange → Prop
  | waits (l : Link Int) (k : Nat) (hs : Waits api s l k) (es : List Exchange)
      (hes : ∀ e ∈ es, Answered e ∧ ¬ Request.getNvs.Confirms api e.1) : Stands api s es
  | ended (hs : Completed api s) (es : List Exchange) (e : Exchange)
      (hes : ∀ e ∈ es, Answered e ∧ ¬ Request.getNvs.Confirms api e.1)
      (hp : Request.getNvs.Confirms api e.1) (h : UInt8) (he : e.2 = [.acknowledgement h]) :
      Stands api s (es ++ [e])

theorem Stands.cons {e : Exchange} {es : List Exchange} (hs : Stands api s es) (he : Answered e)
    (hp : ¬ Request.getNvs.Confirms api e.1) : Stands api s (e :: es) := by
  cases hs with
  | waits l k hs es hes =>
    exact .waits l k hs (e :: es) (List.forall_mem_cons.mpr ⟨⟨he, hp⟩, hes⟩)
  | ended hs es e' hes hlast h hack =>
    exact .ended hs (e :: es) e' (List.forall_mem_cons.mpr ⟨⟨he, hp⟩, hes⟩) hlast h hack

theorem waits_run (moves : List Move) : ∀ {s s' : System} {l : Link Int} {k : Nat}
    {os : List (Option Exchange)}, Waits api s l k → run (step api) s moves = some (s', os) →
      Stands api s' (received os) := by
  induction moves with
  | nil =>
    intro s s' l k os hs h
    cases h
    exact .waits l k hs [] (by simp)
  | cons move moves ih =>
    intro s s' l k os hs h
    obtain ⟨s1, o, os', hstep, hrun, rfl⟩ := run_cons_eq_some.mp h
    rcases step_waits hs hstep with ⟨rfl, hs1⟩ | ⟨e, rfl, hd⟩
    · have hrest := ih hs1 hrun
      exact hrest
    · cases hd with
      | waits l1 k1 hs1 he hp => exact (ih hs1 hrun).cons he hp
      | ends hs1 hp h he =>
        obtain ⟨hnone, hs'⟩ := completed_run moves hs1 hrun
        show Stands api s' (e :: received os')
        rw [hnone]
        exact .ended hs' [] e (by simp) hp h he

/-! ## The law -/

/-- In every interleaving the mails that were sent are the first few of the four requests, in
their order. As long as the answer to the last one was not received, the host waits, and answered
each frame by one mail or one acknowledgement. When it is received, it is acknowledged and the
process ends with 0. -/
theorem the_requests_are_sent_one_after_the_other (api : Headers) (moves : List Move) (s : System)
    (os : List (Option Exchange)) (h : run (step api) start moves = some (s, os)) :
    (∃ l k, s.host = .running l ∧
      mails l.session.tty = (Request.all.take k).map (Request.mail api.toApi) ∧
      ∀ e ∈ received os, Answered e ∧ ¬ Request.getNvs.Confirms api e.1) ∨
    ∃ l es e, s.host = .exited 0 l ∧
      mails l.session.tty = Request.all.map (Request.mail api.toApi) ∧
      received os = es ++ [e] ∧
      (∀ e ∈ es, Answered e ∧ ¬ Request.getNvs.Confirms api e.1) ∧
      Request.getNvs.Confirms api e.1 ∧ ∃ h, e.2 = [.acknowledgement h] := by
  have hstands := waits_run moves (waits_start api) h
  generalize received os = es at hstands
  cases hstands with
  | waits l k hs es hes => exact .inl ⟨l, k, hs.host, hs.mails, hes⟩
  | ended hs es e hes hp h he =>
    obtain ⟨l, hhost, hmails⟩ := hs
    exact .inr ⟨l, es, e, hhost, hmails, rfl, hes, hp, h, he⟩

def nvsHeaders : Headers :=
  { headers with API_SCL_STATUS_IND := 0x4100, status_ind := by decide }

/-- Two resets, a pending confirm, and the four answers. -/
def provisioningMoves : List Move :=
  let reset := blank.carry [0, 0, 0, 0x00, 0x40] (by decide)
  let version := blank.carry [0, 0, 0, 0x02, 0x40] (by decide)
  let pending := blank.carry [0, 0, 0, 0x01, 0x4F, 0x02, 0x01, 1, 0, 0xFF] (by decide)
  let success := blank.carry [0, 0, 0, 0x01, 0x4F, 0x02, 0x01, 1, 0, 0] (by decide)
  let set := blank.carry [0, 0, 0, 0x01, 0x4F, 0x00, 0x01] (by decide)
  let get := blank.carry getNvsCfm (by decide)
  [.indicate reset, .deliver, .take, .confirm .fw_version version, .indicate reset, .deliver, .deliver,
    .take, .pend pending, .confirm .nvs_default success, .deliver, .deliver, .take, .take, .take,
    .confirm .setNvs set, .deliver, .take, .confirm .getNvs get, .deliver]

theorem the_requests_are_sent_one_after_the_other_to_the_end :
    ∃ s os l es e, run (step nvsHeaders) start provisioningMoves = some (s, os) ∧
      s.host = .exited 0 l ∧
      mails l.session.tty = Request.all.map (Request.mail nvsHeaders.toApi) ∧
      received os = es ++ [e] ∧ ∃ h, e.2 = [.acknowledgement h] := by
  obtain ⟨s, os, hrun, hget⟩ : ∃ s os,
      run (step nvsHeaders) start provisioningMoves = some (s, os) ∧
      (received os).any (fun e => Request.getNvs.Confirms nvsHeaders e.1) = true :=
    ⟨_, _, rfl, by decide⟩
  rcases the_requests_are_sent_one_after_the_other nvsHeaders provisioningMoves s os hrun with
    ⟨l, k, -, -, hes⟩ | ⟨l, es, e, hhost, hmails, hreceived, -, -, hack⟩
  · obtain ⟨e, he, hconfirms⟩ := List.any_eq_true.mp hget
    exact absurd (of_decide_eq_true hconfirms) (hes e he).2
  · exact ⟨s, os, l, es, e, hrun, hhost, hmails, hreceived, hack⟩

end dect_prog.nvs
