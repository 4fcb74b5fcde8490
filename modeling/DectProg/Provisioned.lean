-- The exchange that provisions the NVS comes to its end: a target that goes on
-- answering is never waited for in vain, and apart from what it sends of its own
-- accord there are only so many moves. And the exchange is the one that goes over
-- the line, byte by byte, with the loop of main.c and its buffer in between.
import DectProg.BusStreams

open machine dect_prog.package dect_prog.busmail

namespace dect_prog.busmail

variable {κ : Type} {application_frame : Callback κ}

/-! ## The tty only grows -/

theorem Emits.grows {s s' : Session} (h : Emits s s') : s.tty <+: s'.tty := by
  cases h with
  | fifo => exact List.prefix_refl _
  | tx => exact List.prefix_append _ _
  | ack => exact List.prefix_append _ _

theorem Handles.grows {s s' : Session} {p : packet_t} (h : Handles s p s') : s.tty <+: s'.tty := by
  cases h with
  | accepted hp hemits =>
    induction hemits with
    | refl => exact List.prefix_refl _
    | tail _ hstep ih => exact ih.trans hstep.grows
  | reset => exact List.prefix_append _ _
  | supervisory => exact List.prefix_refl _
  | nothing => exact List.prefix_refl _

end dect_prog.busmail

namespace dect_prog.nvs

/-! ## The moves that are priced -/

/-- The target sends what was not asked for. -/
def Move.spontaneous : Move → Bool
  | .indicate _ => true
  | .pend _ => true
  | .take => false
  | .confirm _ _ => false
  | .deliver => false

def Move.resets (api : Headers) : Move → Bool
  | .indicate p => Carries api.API_FP_RESET_IND p
  | .take => false
  | .pend _ => false
  | .confirm _ _ => false
  | .deliver => false

/-- What is to be done when `k` requests were sent. A request is taken, answered and delivered; a
frame of the target is delivered, and the frame that acknowledges it is taken. -/
def work (api : Headers) (s : System) (k : Nat) : Nat :=
  s.to_target.length + 3 * (s.to_target.filterMap (requestOf api)).length + 3 * s.asked.length +
    2 * s.to_host.length + 3 * (4 - k)

variable {api : Headers} {s : System} {l : Link Int} {k : Nat} {p : packet_t}

/-- A frame of the target goes into flight. -/
theorem work_sent (p : packet_t) (k : Nat) :
    work api { s with to_host := s.to_host ++ [p] } k = work api s k + 2 := by
  simp only [work, List.length_append, List.length_singleton]
  omega

theorem work_take {f : Sent} {fs : List Sent} (hf : s.to_target = f :: fs) (k : Nat) :
    work api { s with to_target := fs, asked := s.asked ++ (requestOf api f).toList } k + 1 =
      work api s k := by
  have hcons : ((f :: fs).filterMap (requestOf api)).length =
      (requestOf api f).toList.length + (fs.filterMap (requestOf api)).length := by
    cases hr : requestOf api f with
    | none => simp [hr]
    | some r => simp [hr, Nat.add_comm]
  simp only [work, hf, hcons, List.length_append, List.length_cons]
  omega

theorem work_confirm {r : Request} (hr : r ∈ s.asked) (p : packet_t) (k : Nat) :
    work api { s with asked := s.asked.erase r, to_host := s.to_host ++ [p] } k + 1 =
      work api s k := by
  have hpos := List.length_pos_of_mem hr
  simp only [work, List.length_erase_of_mem hr, List.length_append, List.length_singleton]
  omega

/-- A frame that is delivered, and the one that answers it. -/
theorem work_deliver {ps : List packet_t} (hps : s.to_host = p :: ps) (host : Outcome (Link Int))
    (f : Sent) {k' : Nat} (hk' : k' ≤ 4) (hk : k + (requestOf api f).toList.length ≤ k') :
    work api ⟨host, s.to_target ++ [f], s.asked, ps⟩ k' + 1 ≤ work api s k := by
  have hfilter : ([f].filterMap (requestOf api)).length = (requestOf api f).toList.length := by
    cases hr : requestOf api f with
    | none => simp [hr]
    | some r => simp [hr]
  simp only [work, hps, List.filterMap_append, List.length_append, hfilter, List.length_cons,
    List.length_nil]
  omega

/-! ## One delivery -/

/-- Only a mail is a request. -/
theorem requestOf_mails (api : Headers) (f : Sent) :
    (requestOf api f).toList.length ≤ (mailOf f).toList.length := by
  cases hmail : mailOf f with
  | none =>
    have hnone : requestOf api f = none := by
      unfold requestOf
      rw [List.find?_eq_none]
      intro r _ hr
      have := of_decide_eq_true hr
      rw [hmail] at this
      cases this
    rw [hnone]
    exact Nat.le_refl _
  | some tx =>
    cases requestOf api f with
    | none => exact Nat.zero_le _
    | some r => exact Nat.le_refl _

/-- A host that waits before a delivery and after it has written one frame more, and one request
more if that frame is a mail. -/
theorem Waits.counts {ps : List packet_t} {l' : Link Int} {k' : Nat} (hs : Waits api s l k)
    (he : Answered (p, written l (busmail_dispatch (application_frame api.toApi) l p)))
    (hs' : Waits api ⟨busmail_dispatch (application_frame api.toApi) l p,
      s.to_target ++ written l (busmail_dispatch (application_frame api.toApi) l p), s.asked, ps⟩
      l' k') :
    ∃ f, written l (busmail_dispatch (application_frame api.toApi) l p) = [f] ∧
      k' = k + (mailOf f).toList.length := by
  obtain ⟨f, hf, -⟩ := he
  refine ⟨f, hf, ?_⟩
  have hd : busmail_dispatch (application_frame api.toApi) l p = .running l' := hs'.host
  have hlast : (busmail_dispatch (application_frame api.toApi) l p).last = some l' := by
    rw [hd]
    rfl
  obtain ⟨rest, hrest⟩ := (dispatch_handles hlast).grows
  rw [hd] at hf
  have htail : l'.session.tty.drop l.session.tty.length = [f] := hf
  rw [← hrest, List.drop_left] at htail
  rw [htail] at hrest
  have hmails := hs'.mails
  rw [← hrest, mails_append, hs.mails] at hmails
  have hlength := congrArg List.length hmails
  have hall : Request.all.length = 4 := rfl
  have hk := hs.sent
  have hk' := hs'.sent
  rw [List.length_append, List.length_map, List.length_map, List.length_take, List.length_take,
    hall] at hlength
  omega

/-- The first reset makes the host send something. -/
theorem Waits.resets {l' : Link Int} (hs : Waits api s l 0) (hp : Carries api.API_FP_RESET_IND p)
    (hd : busmail_dispatch (application_frame api.toApi) l p = .running l') : l'.app = 1 := by
  have hreset : l.app = 0 := hs.reset_ind.mpr rfl
  have hcalls := application_frame_reset hp
  rw [← hreset] at hcalls
  obtain ⟨l1, f, hd1, happ, -, -⟩ := dispatch_mail hp.1 hs.tx_fifo hcalls rfl api.version_length
  rw [hd] at hd1
  cases hd1
  exact happ

/-! ## One move -/

/-- The exchange stands at `k` requests. -/
inductive StandsAt (api : Headers) (s : System) : Nat → Prop
  | waits (l : Link Int) (k : Nat) (hs : Waits api s l k) : StandsAt api s k
  | completed (hs : Completed api s) : StandsAt api s 4

/-- A reset was sent: it is in flight, or it did what it does. -/
def Reset (api : Headers) (s : System) (k : Nat) : Prop :=
  0 < k ∨ ∃ p ∈ s.to_host, Carries api.API_FP_RESET_IND p

/-- What a move costs, at the most, and what it leaves of a reset. -/
structure Costs (api : Headers) (s s' : System) (k k' : Nat) (move : Move) : Prop where
  work : work api s' k' + 1 ≤ work api s k + if move.spontaneous then 3 else 0
  reset : Reset api s k ∨ move.resets api = true → Reset api s' k'

theorem Reset.mono {s' : System} (h : Reset api s k) (hs : ∀ p ∈ s.to_host, p ∈ s'.to_host) :
    Reset api s' k := by
  rcases h with hk | ⟨p, hp, hcarries⟩
  · exact .inl hk
  · exact .inr ⟨p, hs p hp, hcarries⟩

theorem Costs.spontaneous {move : Move} (hmove : move.spontaneous = true) (k : Nat)
    (hresets : move.resets api = true → Carries api.API_FP_RESET_IND p) :
    Costs api s { s with to_host := s.to_host ++ [p] } k k move := by
  refine ⟨?_, ?_⟩
  · apply Nat.le_of_eq
    rw [work_sent, if_pos hmove]
  · rintro (hreset | hreset)
    · exact hreset.mono fun q hq => List.mem_append_left _ hq
    · exact .inr ⟨p, by simp, hresets hreset⟩

/-- The host has the next frame. -/
theorem Waits.costs {ps : List packet_t} (hs : Waits api s l k) (hps : s.to_host = p :: ps) :
    ∃ k', StandsAt api ⟨busmail_dispatch (application_frame api.toApi) l p,
        s.to_target ++ written l (busmail_dispatch (application_frame api.toApi) l p), s.asked, ps⟩
        k' ∧
      Costs api s ⟨busmail_dispatch (application_frame api.toApi) l p,
        s.to_target ++ written l (busmail_dispatch (application_frame api.toApi) l p), s.asked, ps⟩
        k k' .deliver := by
  cases hs.deliver hps with
  | waits l' k' hs' he hp =>
    obtain ⟨f, hf, hk'⟩ := hs.counts he hs'
    have hrequests := requestOf_mails api f
    refine ⟨k', .waits l' k' hs', ?_, ?_⟩
    · rw [hf]
      exact work_deliver hps _ f hs'.sent (by omega)
    · rintro (hreset | hreset)
      · rcases hreset with hk | ⟨q, hq, hcarries⟩
        · exact .inl (by omega)
        · rw [hps] at hq
          rcases List.mem_cons.mp hq with rfl | hq
          · -- It is delivered now.
            by_cases hk : k = 0
            · subst hk
              have happ := hs.resets hcarries hs'.host
              have hk0 : k' ≠ 0 := by
                rw [Ne, ← hs'.reset_ind, happ]
                decide
              exact .inl (by omega)
            · exact .inl (by omega)
          · exact .inr ⟨q, hq, hcarries⟩
      · cases hreset
  | ends hs' hp h he =>
    have hf : written l (busmail_dispatch (application_frame api.toApi) l p) =
        [.acknowledgement h] := he
    have hk := hs.sent
    refine ⟨4, .completed hs', ?_, fun _ => .inl (by decide)⟩
    rw [hf]
    exact work_deliver hps _ _ (by decide) hk

theorem Completed.host {s' : System} (h : Completed api s) (hhost : s'.host = s.host) :
    Completed api s' := by
  obtain ⟨l, hl, hmails⟩ := h
  exact ⟨l, hhost.trans hl, hmails⟩

theorem step_costs {s' : System} {move : Move} {o : Option Exchange} (hs : StandsAt api s k)
    (h : step api s move = some (s', o)) :
    ∃ k', StandsAt api s' k' ∧ Costs api s s' k k' move := by
  have hsame : ∀ {s1 : System}, Steps api s s1 none → s1.host = s.host → StandsAt api s1 k := by
    intro s1 hsteps hhost
    cases hs with
    | waits l k hs =>
      cases hsteps with
      | noise p hp => exact .waits l k (hs.noise hp)
      | take f fs hf => exact .waits l k (hs.take hf)
      | confirm r p hr hp => exact .waits l k (hs.confirm hr hp)
    | completed hs => exact .completed (hs.host hhost)
  cases move with
  | indicate p =>
    simp only [step, Option.ite_none_right_eq_some] at h
    obtain ⟨hp, h⟩ := h
    cases h
    exact ⟨k, hsame (.noise p (.inl hp)) rfl, .spontaneous rfl k of_decide_eq_true⟩
  | take =>
    simp only [step] at h
    split at h
    · cases h
    · rename_i f fs hf
      cases h
      refine ⟨k, hsame (.take f fs hf) rfl, Nat.le_of_eq (work_take hf k), ?_⟩
      rintro (hreset | hreset)
      · exact hreset.mono fun q hq => hq
      · cases hreset
  | pend p =>
    simp only [step, Option.ite_none_right_eq_some] at h
    obtain ⟨⟨-, hp⟩, h⟩ := h
    cases h
    exact ⟨k, hsame (.noise p (.inr hp)) rfl, .spontaneous rfl k fun h => by cases h⟩
  | confirm r p =>
    simp only [step, Option.ite_none_right_eq_some] at h
    obtain ⟨⟨hr, hp⟩, h⟩ := h
    cases h
    refine ⟨k, hsame (.confirm r p hr hp) rfl, Nat.le_of_eq (work_confirm hr p k), ?_⟩
    rintro (hreset | hreset)
    · exact hreset.mono fun q hq => List.mem_append_left _ hq
    · cases hreset
  | deliver =>
    simp only [step] at h
    split at h
    · rename_i l1 p ps hhost hps
      cases h
      cases hs with
      | waits l k hs =>
        rw [hs.host] at hhost
        cases hhost
        exact hs.costs hps
      | completed hs =>
        obtain ⟨l, hl, -⟩ := hs
        cases hl.symm.trans hhost
    · cases h

/-! ## A run -/

theorem run_costs (moves : List Move) : ∀ {s s' : System} {k : Nat} {os : List (Option Exchange)},
    StandsAt api s k → run (step api) s moves = some (s', os) →
      ∃ k', StandsAt api s' k' ∧
        moves.length + work api s' k' ≤ work api s k + 3 * moves.countP Move.spontaneous ∧
        (Reset api s k ∨ (∃ m ∈ moves, m.resets api = true) → Reset api s' k') := by
  induction moves with
  | nil =>
    intro s s' k os hs h
    cases h
    refine ⟨k, hs, Nat.le_of_eq ?_, ?_⟩
    · rw [List.length_nil, List.countP_nil]
      omega
    · rintro (hreset | ⟨m, hm, -⟩)
      · exact hreset
      · cases hm
  | cons move moves ih =>
    intro s s' k os hs h
    obtain ⟨s1, o, os', hstep, hrun, rfl⟩ := run_cons_eq_some.mp h
    obtain ⟨k1, hs1, hcosts⟩ := step_costs hs hstep
    obtain ⟨k', hs', hwork, hreset⟩ := ih hs1 hrun
    refine ⟨k', hs', ?_, fun h => hreset ?_⟩
    · have hmove := hcosts.work
      rw [List.length_cons, List.countP_cons]
      split at hmove
      · rw [if_pos (by assumption)]
        omega
      · rw [if_neg (by assumption)]
        omega
    · rcases h with h | ⟨m, hm, hresets⟩
      · exact .inl (hcosts.reset (.inl h))
      · rcases List.mem_cons.mp hm with rfl | hm
        · exact .inl (hcosts.reset (.inr hresets))
        · exact .inr ⟨m, hm, hresets⟩

/-! ## The answers of a target -/

/-- An information frame with a mail of ten bytes. -/
def confirmPacket (label test : UInt16) (result : UInt8) : packet_t :=
  blank.carry [INFORMATION_FRAME, API_PROG_ID, 0, low label, high label, low test, high test, 1, 0,
    result] (show 10 ≤ PACKET_SIZE by decide)

theorem confirmPacket_byte (label test : UInt16) (result : UInt8) {i : Nat} (hi : i < 10) :
    (confirmPacket label test result).byte i =
      [INFORMATION_FRAME, API_PROG_ID, 0, low label, high label, low test, high test, 1, 0,
        result].getD i 0 :=
  carry_getD _ _ _ hi

theorem confirmPacket_carries (label test : UInt16) (result : UInt8) :
    Carries label (confirmPacket label test result) ∧
      TestPrimitive (confirmPacket label test result) = test ∧
      (confirmPacket label test result).byte 9 = result := by
  refine ⟨⟨⟨?_, ?_⟩, ?_⟩, ?_, ?_⟩
  · rw [confirmPacket_byte label test result (by decide)]
    exact (by decide : INFORMATION_FRAME &&& PACKET_TYPE_MASK = INFORMATION_FRAME)
  · rw [confirmPacket_byte label test result (by decide)]
    rfl
  · apply uint16At_eq_iff.mpr
    rw [confirmPacket_byte label test result (by decide),
      confirmPacket_byte label test result (by decide)]
    exact ⟨rfl, rfl⟩
  · apply uint16At_eq_iff.mpr
    rw [confirmPacket_byte label test result (by decide),
      confirmPacket_byte label test result (by decide)]
    exact ⟨rfl, rfl⟩
  · rw [confirmPacket_byte label test result (by decide)]
    rfl

/-- Each request can be answered. -/
theorem Request.exists_confirm (api : Headers) (r : Request) : ∃ p, r.Confirms api p := by
  cases r with
  | fw_version =>
    exact ⟨_, (confirmPacket_carries api.API_FP_GET_FW_VERSION_CFM 0 0).1⟩
  | nvs_default =>
    exact ⟨_, confirmPacket_carries api.RTX_EAP_HW_TEST_CFM PT_CMD_NVS_DEFAULT api.RSS_SUCCESS⟩
  | setNvs =>
    obtain ⟨hcarries, htest, -⟩ := confirmPacket_carries api.RTX_EAP_HW_TEST_CFM PT_CMD_SET_NVS 0
    exact ⟨_, hcarries, htest⟩
  | getNvs =>
    obtain ⟨hcarries, htest, -⟩ := confirmPacket_carries api.RTX_EAP_HW_TEST_CFM PT_CMD_GET_NVS 0
    exact ⟨_, hcarries, htest⟩

/-- While the host waits something is in flight or was asked for. -/
theorem Waits.moves (hs : Waits api s l k) (hreset : Reset api s k) :
    ∃ move, move.spontaneous = false ∧ (step api s move).isSome := by
  cases hhost : s.to_host with
  | cons p ps =>
    refine ⟨.deliver, rfl, ?_⟩
    simp only [step, hs.host, hhost]
    rfl
  | nil =>
    cases htarget : s.to_target with
    | cons f fs =>
      refine ⟨.take, rfl, ?_⟩
      simp only [step, htarget]
      rfl
    | nil =>
      cases hasked : s.asked with
      | cons r rs =>
        obtain ⟨p, hp⟩ := r.exists_confirm api
        refine ⟨.confirm r p, rfl, ?_⟩
        have hmem : r ∈ s.asked := by simp [hasked]
        rw [step, if_pos ⟨hmem, hp⟩]
        rfl
      | nil =>
        -- Nothing is under way, so no request was sent.
        have hunder := hs.underWay
        rw [nvs.underWay, htarget, hasked, hhost] at hunder
        have hnone : (Request.all.take k).getLast? = none := by
          have hnil := hunder.symm.eq_nil
          cases hlast : (Request.all.take k).getLast? with
          | none => rfl
          | some r =>
            rw [hlast] at hnil
            cases hnil
        have hk : k = 0 := by
          have hnil := List.getLast?_eq_none_iff.mp hnone
          rcases List.take_eq_nil_iff.mp hnil with hk | hall
          · exact hk
          · cases hall
        rcases hreset with hpos | ⟨p, hp, -⟩
        · omega
        · rw [hhost] at hp
          cases hp

/-- In every run there are, apart from the indications and the pending confirms, no more moves than
12 and two for each of these. After a reset there is always one of these other moves to make, until
the process has sent its four requests and has ended with 0. -/
theorem the_provisioning_comes_to_its_end (api : Headers) (moves : List Move) (s : System)
    (os : List (Option Exchange)) (h : run (step api) start moves = some (s, os)) :
    moves.length ≤ 12 + 3 * moves.countP Move.spontaneous ∧
    ((∃ m ∈ moves, m.resets api = true) →
      Completed api s ∨ ∃ move, move.spontaneous = false ∧ (step api s move).isSome) := by
  obtain ⟨k, hs, hwork, hreset⟩ := run_costs moves (.waits _ 0 (waits_start api)) h
  have hstart : work api start 0 = 12 := rfl
  refine ⟨by omega, fun hresets => ?_⟩
  cases hs with
  | waits l k hs => exact .inr (hs.moves (hreset (.inr hresets)))
  | completed hs => exact .inl hs

theorem the_provisioning_comes_to_its_end_after_a_reset :
    ∃ s os move, run (step nvsHeaders) start
        [.indicate (blank.carry [0, 0, 0, 0x00, 0x40] (by decide)), .deliver] = some (s, os) ∧
      move.spontaneous = false ∧ (step nvsHeaders s move).isSome := by
  obtain ⟨s, os, hrun, hlive⟩ : ∃ s os, run (step nvsHeaders) start
      [.indicate (blank.carry [0, 0, 0, 0x00, 0x40] (by decide)), .deliver] = some (s, os) ∧
      ∀ status l, s.host ≠ .exited status l := by
    refine ⟨_, _, rfl, ?_⟩
    rintro status l ⟨⟩
  have hresets : ∃ m ∈ [Move.indicate (blank.carry [0, 0, 0, 0x00, 0x40] (by decide)), .deliver],
      m.resets nvsHeaders = true := ⟨_, List.mem_cons_self, by decide⟩
  rcases (the_provisioning_comes_to_its_end nvsHeaders _ s os hrun).2 hresets with
    ⟨l, hl, -⟩ | ⟨move, hmove, hstep⟩
  · exact absurd hl (hlive 0 l)
  · exact ⟨s, os, move, hrun, hmove, hstep⟩

/-! ## Over the line -/

/-- Only a delivery changes the host. -/
theorem Steps.host {s' : System} (h : Steps api s s' none) : s'.host = s.host := by
  cases h with
  | noise => rfl
  | take => rfl
  | confirm => rfl

/-- A host that has ended does nothing more. -/
theorem ended_run (moves : List Move) : ∀ {s s' : System} {os : List (Option Exchange)},
    (∀ l, s.host ≠ .running l) → run (step api) s moves = some (s', os) →
      received os = [] ∧ s'.host = s.host := by
  induction moves with
  | nil =>
    intro s s' os _ h
    cases h
    exact ⟨rfl, rfl⟩
  | cons move moves ih =>
    intro s s' os hs h
    obtain ⟨s1, o, os', hstep, hrun, rfl⟩ := run_cons_eq_some.mp h
    cases o with
    | none =>
      have hhost := (step_steps hstep).host
      rw [← hhost] at hs
      obtain ⟨hnone, hrest⟩ := ih hs hrun
      exact ⟨hnone, hrest.trans hhost⟩
    | some x =>
      cases step_steps hstep with
      | deliver l p ps hhost hps => exact absurd hhost (hs l)

/-- The host is the link layer over the frames that it received. -/
theorem host_run (moves : List Move) :
    ∀ {s s' : System} {l : Link Int} {os : List (Option Exchange)}, s.host = .running l →
      run (step api) s moves = some (s', os) →
      s'.host = linkRun (application_frame api.toApi) l ((received os).map Prod.fst) := by
  induction moves with
  | nil =>
    intro s s' l os hs h
    cases h
    exact hs
  | cons move moves ih =>
    intro s s' l os hs h
    obtain ⟨s1, o, os', hstep, hrun, rfl⟩ := run_cons_eq_some.mp h
    cases o with
    | none =>
      have hhost := (step_steps hstep).host
      have hrest := ih (hhost.trans hs) hrun
      exact hrest
    | some x =>
      cases step_steps hstep with
      | deliver l1 p ps hhost hps =>
        rw [hs] at hhost
        cases hhost
        show s'.host = linkRun _ l (p :: (received os').map Prod.fst)
        rw [linkRun]
        split
        · rename_i l' hd
          exact ih hd hrun
        · rename_i hended
          exact (ended_run moves hended hrun).2

end dect_prog.nvs

namespace dect_prog.event_loop

open dect_prog.nvs

/-- The frames that the host receives in some run of the exchange, as a stream of bytes that is cut
into reads: the NVS mode does over the line what the host does in the exchange. It has written the
first few of the four requests, in their order, or all of them when it has ended. -/
theorem the_nvs_is_provisioned_over_the_line (api : Headers) (moves : List nvs.Move) (s : nvs.System)
    (os : List (Option Exchange)) (e : event_t) (as : List Arrival)
    (hrun : run (nvs.step api) nvs.start moves = some (s, os)) (he : e.outcount ≤ 0)
    (hframes : ∀ x ∈ received os, x.1.size ≤ 496 ∧
      ∀ reset_ind, nvs.Settled api.toApi reset_ind x.1)
    (h : Stream ((received os).map fun x => x.1.payload) as) :
    ∃ b, event_loop.busmail_init = some b ∧
      ((∃ b' l k, mainLoop (nvsMode api.toApi) b e as = .running b' ∧ s.host = .running l ∧
        b'.1.vars.tty = l.session.tty.flatMap Sent.bytes ∧
        nvs.mails l.session.tty = (Request.all.take k).map (Request.mail api.toApi)) ∨
      ∃ b' l, mainLoop (nvsMode api.toApi) b e as = .exited 0 b' ∧ s.host = .exited 0 l ∧
        b'.1.vars.tty = l.session.tty.flatMap Sent.bytes ∧
        nvs.mails l.session.tty = Request.all.map (Request.mail api.toApi)) := by
  obtain ⟨b, hinit, hb⟩ := busmail_init_eq
  have hsize : ∀ x ∈ received os, x.1.size ≤ PACKET_SIZE :=
    fun x hx => Nat.le_trans (hframes x hx).1 (by decide)
  have hsendable : Sendable ((received os).map fun x => x.1.payload) := by
    intro q hq
    obtain ⟨x, hx, rfl⟩ := List.mem_map.mp hq
    exact Nat.le_trans (List.length_take_le _ _) (hframes x hx).1
  have hsees : ∀ x ∈ received os, ∀ l : Link Int, l.session.tx_fifo = [] →
      SeesOnlyThePacket (busmail.busmail_dispatch (nvs.application_frame api.toApi)) l
        (packetOf x.1.payload) := by
    intro x hx l _
    have hsettled := nvs.sees_of_settled (s := l) ((hframes x hx).2 l.app)
    have hsame := packetOf_same (hsize x hx)
    exact hsettled.same ⟨hsame.1.symm, hsame.2.symm⟩
  have hpackets : ∀ q ∈ (received os).map fun x => x.1.payload, ∀ l : Link Int,
      l.session.tx_fifo = [] →
      SeesOnlyThePacket (busmail.busmail_dispatch (nvs.application_frame api.toApi)) l
        (packetOf q) := List.forall_mem_map.mpr hsees
  have hinits : linked.ProcessAccounts (⟨linked.busmail_init, 0⟩ : linked.Process Int)
      ⟨busmail.busmail_init, 0⟩ := ⟨linked.busmail_init_accounts, rfl⟩
  have hrefines := h.refines hsendable hb he hinits rfl hpackets
  have hsame : List.Forall₂ SamePacket
      (((received os).map fun x => x.1.payload).map packetOf) ((received os).map Prod.fst) := by
    rw [List.map_map, List.forall₂_map_left_iff, List.forall₂_map_right_iff, List.forall₂_same]
    exact fun x hx => packetOf_same (hsize x hx)
  have hhost := host_run moves rfl hrun
  rw [linkRun_same hsame (List.forall_mem_map.mpr hpackets) _ rfl] at hhost
  rw [← hhost] at hrefines
  refine ⟨_, hinit, ?_⟩
  have hstands := waits_run moves (waits_start api) hrun
  generalize received os = es at hstands
  cases hstands with
  | waits l k hs =>
    rw [hs.host] at hrefines
    obtain ⟨b', hb', hrefines⟩ := hrefines.to_running
    exact .inl ⟨b', l, k, hb', hs.host, hrefines.1.tty, hs.mails⟩
  | ended hs =>
    obtain ⟨l, hl, hmails⟩ := hs
    rw [hl] at hrefines
    obtain ⟨b', hb', hrefines⟩ := hrefines.to_exited
    exact .inr ⟨b', l, hb', hl, hrefines.1.tty, hmails⟩

/-- A packet that holds all that the NVS mode looks at. -/
theorem settled_of_size (api : Api) {p : packet_t} (h : 10 ≤ p.size) (reset_ind : Int) :
    nvs.Settled api reset_ind p :=
  ⟨by omega, fun _ => ⟨by omega, fun _ => .inr ⟨by omega, fun _ => .inr ⟨by omega, fun _ => h⟩⟩⟩⟩

/-- The first reset, in one read. -/
theorem the_nvs_is_provisioned_over_the_line_after_a_reset :
    ∃ b b', ∃ l : Link Int, event_loop.busmail_init = some b ∧
      mainLoop (nvsMode headers) b .cleared
        [arrivalOf (make_tx_packet (confirmPacket 0x4000 0 0).payload) (by decide)] = .running b' ∧
      nvs.mails l.session.tty = [⟨headers.ApiFpGetFwVersionReq, API_TEST⟩] ∧
      b'.1.vars.tty = l.session.tty.flatMap Sent.bytes := by
  obtain ⟨s, os, hrun, hreceived, hhost⟩ : ∃ s os, run (nvs.step nvsHeaders) nvs.start
      [.indicate (confirmPacket 0x4000 0 0), .deliver] = some (s, os) ∧
      (received os).map Prod.fst = [confirmPacket 0x4000 0 0] ∧
      ∃ l, s.host = .running l ∧
        nvs.mails l.session.tty = [⟨headers.ApiFpGetFwVersionReq, API_TEST⟩] :=
    ⟨_, _, rfl, rfl, _, rfl, rfl⟩
  have hframes : ∀ x ∈ received os, x.1.size ≤ 496 ∧
      ∀ reset_ind, nvs.Settled nvsHeaders.toApi reset_ind x.1 := by
    intro x hx
    have hmem : x.1 ∈ (received os).map Prod.fst := List.mem_map_of_mem hx
    rw [hreceived, List.mem_singleton] at hmem
    rw [hmem]
    exact ⟨by decide, settled_of_size _ (by decide)⟩
  have hpayloads : (received os).map (fun x => x.1.payload) = [(confirmPacket 0x4000 0 0).payload] := by
    have hmap := congrArg (List.map packet_t.payload) hreceived
    rw [List.map_map] at hmap
    exact hmap
  have hstream : Stream ((received os).map fun x => x.1.payload)
      [arrivalOf (make_tx_packet (confirmPacket 0x4000 0 0).payload) (by decide)] := by
    rw [hpayloads]
    refine ⟨?_, ?_, ?_, rfl, ?_⟩
    · exact List.forall_mem_singleton.mpr rfl
    · exact List.forall_mem_singleton.mpr fun _ => rfl
    · exact List.forall_mem_singleton.mpr (by decide)
    · exact framing.Format.fitsIn_of_few _ (by decide) (by decide)
  obtain ⟨b, hinit, hends⟩ := the_nvs_is_provisioned_over_the_line nvsHeaders _ s os .cleared _ hrun
    (Int.le_refl 0) hframes hstream
  obtain ⟨l, hl, hmails⟩ := hhost
  rcases hends with ⟨b', l', k, hb', hl', htty, -⟩ | ⟨b', l', -, hl', -⟩
  · cases hl.symm.trans hl'
    exact ⟨b, b', l, hinit, hb', hmails, htty⟩
  · cases hl.symm.trans hl'

end dect_prog.event_loop
