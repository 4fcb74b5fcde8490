-- A receiver with room for a limited number of items. A header whose frame is
-- longer than the room is waited for without an end, and blocks the receiver;
-- from all other items it recovers.
import DectProg.Reads

namespace framing

variable {α : Type}

namespace Format

variable (f : Format α)

/-- The length of a whole frame. -/
def frameLength (x y : α) : Nat := 3 + f.length x y + f.trailerLength

variable [DecidableEq α]

/-- Among the items there is, where a receiver comes to look for a frame, a header whose frame is
longer than `cap`, whatever its second length item will be, or a payload longer than `size`. -/
inductive Blocked (cap size : Nat) : List α → Prop
  | long {c s : List α} {x : α} (h : f.parse c = .short (f.header :: x :: s))
      (hlong : ∀ y, s = [] ∨ s.head? = some y → cap < f.frameLength x y) : Blocked cap size c
  | payload {c p rest : List α} (h : f.parse c = .frame p rest) (hp : size < p.length) :
      Blocked cap size c
  | frame {c p rest : List α} (h : f.parse c = .frame p rest) (hrest : Blocked cap size rest) :
      Blocked cap size c
  | damaged {c rest : List α} (h : f.parse c = .damaged rest) (hrest : Blocked cap size rest) :
      Blocked cap size c

variable {f} {cap size : Nat}

/-! ## What a parse says, read the other way -/

theorem body_ne_absent (s : List α) : f.body (f.header :: s) ≠ .absent := by
  match s with
  | [] => simp [body]
  | [_] => simp [body]
  | x :: y :: s =>
    simp only [body]
    split
    · simp
    · split <;> simp

theorem header_notMem {c : List α} (h : f.parse c = .absent) : f.header ∉ c := by
  rcases f.split_header c with hc | ⟨junk, s, rfl, hj⟩
  · exact hc
  · rw [f.parse_junk _ hj, f.parse_header] at h
    exact absurd h (body_ne_absent s)

theorem parse_nil : f.parse ([] : List α) = .absent := f.parse_absent (by simp)

/-- A parse that found the end of a frame does not depend on what comes after it. -/
theorem parse_frame_append {c p rest : List α} (d : List α) (h : f.parse c = .frame p rest) :
    f.parse (c ++ d) = .frame p (rest ++ d) := by
  obtain ⟨junk, a, b, rfl, hj, hn⟩ := f.parse_frame h
  have ht := f.trailer_length p
  rw [List.append_assoc, f.parse_junk _ hj, List.cons_append, f.parse_header]
  simp only [List.cons_append, body, hn, List.append_assoc]
  rw [if_neg (by simp only [List.length_append]; omega), List.drop_left, List.take_left, ← ht,
    List.take_left, if_pos rfl, ← List.drop_drop, List.drop_left, List.drop_left]

theorem parse_damaged_append {c rest : List α} (d : List α) (h : f.parse c = .damaged rest) :
    f.parse (c ++ d) = .damaged (rest ++ d) := by
  rcases f.split_header c with hc | ⟨junk, s, rfl, hj⟩
  · rw [f.parse_absent hc] at h
    cases h
  · rw [f.parse_junk _ hj, f.parse_header] at h
    rw [List.append_assoc, f.parse_junk _ hj, List.cons_append, f.parse_header]
    match s, h with
    | [], h => cases h
    | [_], h => cases h
    | x :: y :: s, h =>
      simp only [body] at h
      split at h
      · cases h
      · rename_i hlen
        split at h
        · cases h
        · rename_i htrailer
          cases h
          have h1 : f.length x y ≤ s.length := by omega
          have h2 : f.trailerLength ≤ (s.drop (f.length x y)).length := by
            rw [List.length_drop]
            omega
          simp only [List.cons_append, body]
          rw [if_neg (by rw [List.length_append]; omega), List.drop_append_of_le_length h1,
            List.take_append_of_le_length h2, List.take_append_of_le_length h1, if_neg htrailer,
            List.drop_append_of_le_length (by omega)]

/-- An induction that takes whole frames off the front, good or damaged. -/
theorem parse_induct {P : List α → Prop} (habsent : ∀ c, f.parse c = .absent → P c)
    (hshort : ∀ c s, f.parse c = .short s → P c)
    (hframe : ∀ c p rest, f.parse c = .frame p rest → P rest → P c)
    (hdamaged : ∀ c rest, f.parse c = .damaged rest → P rest → P c) (c : List α) : P c := by
  induction hn : c.length using Nat.strongRecOn generalizing c with
  | _ n ih =>
    cases h : f.parse c with
    | absent => exact habsent c h
    | short s => exact hshort c s h
    | frame p rest =>
      exact hframe c p rest h (ih _ (hn ▸ f.parse_frame_length h) rest rfl)
    | damaged rest =>
      obtain ⟨frame, rfl, hlen⟩ := f.parse_damaged h
      exact hdamaged _ rest h (ih _ (by rw [← hn, List.length_append]; omega) rest rfl)

/-! ## Blocked items -/

theorem Blocked.ne_nil {c : List α} (h : f.Blocked cap size c) : c ≠ [] := by
  rintro rfl
  cases h with
  | long h _ => cases parse_nil.symm.trans h
  | payload h _ => cases parse_nil.symm.trans h
  | frame h _ => cases parse_nil.symm.trans h
  | damaged h _ => cases parse_nil.symm.trans h

/-- One item alone does not block. -/
theorem not_blocked_singleton (x : α) : ¬ f.Blocked cap size [x] := by
  have hlen : ∀ c : List α, 3 ≤ c.length → ∀ rest, [x] ≠ c ++ rest := by
    intro c hc rest h
    have := congrArg List.length h
    simp only [List.length_singleton, List.length_append] at this
    omega
  have hframe : ∀ p rest, f.parse [x] ≠ .frame p rest := by
    intro p rest h
    obtain ⟨junk, a, b, hc, -⟩ := f.parse_frame h
    exact hlen (junk ++ f.header :: a :: b :: (p ++ f.trailer p)) (by simp; omega) rest
      (by simpa using hc)
  intro h
  cases h with
  | @long _ s y h _ =>
    obtain ⟨junk, s', hc, -, hs⟩ := f.parse_short h
    have := congrArg List.length hc
    simp only [List.length_append, List.length_cons, List.length_nil] at this
    omega
  | payload h _ => exact hframe _ _ h
  | frame h _ => exact hframe _ _ h
  | damaged h _ =>
    obtain ⟨frame, hc, h3⟩ := f.parse_damaged h
    exact hlen frame h3 _ hc

theorem blocked_short {c s : List α} (h : f.parse c = .short s) :
    f.Blocked cap size c ↔ ∃ x s', s = f.header :: x :: s' ∧
      ∀ y, s' = [] ∨ s'.head? = some y → cap < f.frameLength x y := by
  constructor
  · intro hb
    cases hb with
    | @long _ s' x h' hlong =>
      cases h.symm.trans h'
      exact ⟨x, s', rfl, hlong⟩
    | payload h' _ => cases h.symm.trans h'
    | frame h' _ => cases h.symm.trans h'
    | damaged h' _ => cases h.symm.trans h'
  · rintro ⟨x, s', rfl, hlong⟩
    exact .long h hlong

theorem blocked_frame {c p rest : List α} (h : f.parse c = .frame p rest) :
    f.Blocked cap size c ↔ size < p.length ∨ f.Blocked cap size rest := by
  constructor
  · intro hb
    cases hb with
    | long h' _ => cases h.symm.trans h'
    | payload h' hp =>
      cases h.symm.trans h'
      exact .inl hp
    | frame h' hrest =>
      cases h.symm.trans h'
      exact .inr hrest
    | damaged h' _ => cases h.symm.trans h'
  · rintro (hp | hrest)
    · exact .payload h hp
    · exact .frame h hrest

theorem blocked_damaged {c rest : List α} (h : f.parse c = .damaged rest) :
    f.Blocked cap size c ↔ f.Blocked cap size rest := by
  constructor
  · intro hb
    cases hb with
    | long h' _ => cases h.symm.trans h'
    | payload h' _ => cases h.symm.trans h'
    | frame h' _ => cases h.symm.trans h'
    | damaged h' hrest =>
      cases h.symm.trans h'
      exact hrest
  · exact .damaged h

/-- The parse of what is left of a frame that has not arrived. -/
theorem parse_of_short {c s : List α} (h : f.parse c = .short s) : f.parse s = .short s := by
  obtain ⟨junk, s', rfl, hj, rfl⟩ := f.parse_short h
  rw [f.parse_junk _ hj] at h
  exact h

/-- A frame that is too long for the room does not arrive in it. -/
theorem parse_short_append {c s d : List α} {x : α} (h : f.parse c = .short (f.header :: x :: s))
    (hlong : ∀ y, s = [] ∨ s.head? = some y → cap < f.frameLength x y)
    (hroom : (c ++ d).length ≤ cap) :
    f.parse (c ++ d) = .short (f.header :: x :: (s ++ d)) ∧
      ∀ y, s ++ d = [] ∨ (s ++ d).head? = some y → cap < f.frameLength x y := by
  obtain ⟨junk, s', rfl, hj, hs'⟩ := f.parse_short h
  have hlong' : ∀ y, s ++ d = [] ∨ (s ++ d).head? = some y → cap < f.frameLength x y := by
    intro y hy
    cases s with
    | nil => exact hlong y (.inl rfl)
    | cons z s =>
      refine hlong y (.inr ?_)
      rcases hy with hy | hy
      · cases hy
      · exact hy
  refine ⟨?_, hlong'⟩
  rw [List.append_assoc, f.parse_junk _ hj, List.cons_append, List.cons_append, f.parse_header]
  cases hsd : s ++ d with
  | nil => rfl
  | cons y t =>
    have hlt := hlong' y (.inr (by rw [hsd]; rfl))
    have hlen := congrArg List.length hsd
    simp only [List.length_append, List.length_cons] at hroom hlen
    unfold frameLength at hlt
    simp only [body]
    rw [if_pos (by omega)]

theorem Blocked.append {c d : List α} (h : f.Blocked cap size c) (hroom : (c ++ d).length ≤ cap) :
    f.Blocked cap size (c ++ d) := by
  induction h with
  | long h hlong =>
    obtain ⟨h', hlong'⟩ := parse_short_append h hlong hroom
    exact .long h' hlong'
  | payload h hp => exact .payload (parse_frame_append d h) hp
  | @frame c p rest h hrest ih =>
    have := f.parse_frame_length h
    refine .frame (parse_frame_append d h) (ih ?_)
    simp only [List.length_append] at hroom ⊢
    omega
  | @damaged c rest h hrest ih =>
    obtain ⟨frame, rfl, _⟩ := f.parse_damaged h
    refine .damaged (parse_damaged_append d h) (ih ?_)
    simp only [List.length_append] at hroom ⊢
    omega

/-! ## What a receiver keeps -/

theorem receive_frame {c p rest : List α} (h : f.parse c = .frame p rest) (hrest : rest ≠ []) :
    f.receive c = (p :: (f.receive rest).1, (f.receive rest).2) := by
  obtain ⟨junk, a, b, hc, -⟩ := f.parse_frame h
  have hlast : c.getLast? = rest.getLast? := by
    have hc' : c = (junk ++ f.header :: a :: b :: (p ++ f.trailer p)) ++ rest := by simp [hc]
    rw [hc', List.getLast?_append_of_ne_nil _ hrest]
  rw [receive, f.drain_frame h, receive]
  simp only [keep, hlast]

theorem receive_stop {c : List α} (h : ∀ p rest, f.parse c ≠ .frame p rest) :
    f.receive c = ([], f.keep c c) := by rw [receive, f.drain_stop h]

theorem receive_short {c s : List α} (h : f.parse c = .short s) : f.receive c = ([], s) := by
  rw [receive_stop (by simp [h]), keep, h]

theorem receive_damaged {c rest : List α} (h : f.parse c = .damaged rest) :
    f.receive c = ([], rest) := by
  rw [receive_stop (by simp [h]), keep, h]

/-- A receiver keeps no more than one item when it finds no frame. -/
theorem keep_few {c rest : List α} (h : ∀ s, f.parse rest ≠ .short s ∧ f.parse rest ≠ .damaged s) :
    f.keep c rest = [] ∨ ∃ x, f.keep c rest = [x] := by
  unfold keep
  split
  · rename_i s hs
    exact absurd hs (h s).1
  · rename_i s hs
    exact absurd hs (h s).2
  · split
    · rcases c.getLast? with _ | x
      · exact .inl rfl
      · exact .inr ⟨x, rfl⟩
    · exact .inl rfl

/-- Kept items that do not block leave room. -/
theorem receive_leaves_room (hcap : 3 ≤ cap) {c : List α} (hroom : c.length ≤ cap)
    (h : ¬ f.Blocked cap size (f.receive c).2) : (f.receive c).2.length < cap := by
  have hle := Nat.le_trans (f.drain_suffix c).length_le hroom
  have hfew : (f.keep c (f.drain c).2 = [] ∨ ∃ x, f.keep c (f.drain c).2 = [x]) →
      (f.keep c (f.drain c).2).length < cap := by
    rintro (hk | ⟨x, hk⟩)
    · rw [hk, List.length_nil]
      omega
    · rw [hk, List.length_singleton]
      omega
  unfold receive at h ⊢
  generalize hrest : (f.drain c).2 = rest at h hle hfew ⊢
  cases hparse : f.parse rest with
  | short s =>
    obtain ⟨junk, s', rfl, _, rfl⟩ := f.parse_short hparse
    simp only [keep, hparse] at h ⊢
    rw [List.length_append] at hle
    by_contra hfull
    -- Then the frame is all there is, and it has not arrived.
    have hbody := parse_of_short hparse
    rcases s' with _ | ⟨x, _ | ⟨y, t⟩⟩
    · simp only [List.length_cons, List.length_nil] at hfull
      omega
    · simp only [List.length_cons, List.length_nil] at hfull
      omega
    · refine h (.long hbody fun z hz => ?_)
      obtain rfl : y = z := by simpa using hz
      simp only [List.length_cons] at hle hfull
      rw [f.parse_header] at hbody
      simp only [body] at hbody
      unfold frameLength
      split at hbody
      · omega
      · split at hbody <;> cases hbody
  | damaged s =>
    obtain ⟨frame, rfl, hlen⟩ := f.parse_damaged hparse
    simp only [keep, hparse]
    rw [List.length_append] at hle
    omega
  | absent => exact hfew (keep_few (by simp [hparse]))
  | frame p s => exact hfew (keep_few (by simp [hparse]))

/-- What is kept of items that do not block does not block. -/
theorem not_blocked_receive {c : List α} (h : ¬ f.Blocked cap size c) :
    ¬ f.Blocked cap size (f.receive c).2 := by
  induction c using f.drain_induct with
  | hframe c p rest hparse ih =>
    rw [blocked_frame hparse] at h
    by_cases hrest : rest = []
    · subst hrest
      rw [receive, f.drain_frame hparse, f.drain_stop (by simp [parse_nil])]
      have hfew : f.keep c [] = [] ∨ ∃ x, f.keep c [] = [x] := keep_few (by simp [parse_nil])
      rcases hfew with hk | ⟨x, hk⟩
      · rw [hk]
        exact fun hb => hb.ne_nil rfl
      · rw [hk]
        exact not_blocked_singleton x
    · rw [receive_frame hparse hrest]
      exact ih fun hb => h (.inr hb)
  | hstop c hstop =>
    cases hparse : f.parse c with
    | short s =>
      rw [receive_short hparse]
      intro hb
      rw [blocked_short (parse_of_short hparse)] at hb
      exact h ((blocked_short hparse).mpr hb)
    | damaged rest =>
      rw [receive_damaged hparse]
      exact fun hb => h ((blocked_damaged hparse).mpr hb)
    | absent =>
      rw [receive_stop hstop]
      have hfew : f.keep c c = [] ∨ ∃ x, f.keep c c = [x] := keep_few (by simp [hparse])
      rcases hfew with hk | ⟨x, hk⟩
      · rw [hk]
        exact fun hb => hb.ne_nil rfl
      · rw [hk]
        exact not_blocked_singleton x
    | frame p rest => exact absurd hparse (hstop p rest)

/-- Blocked items give out what they would give out alone, whatever comes after them. What comes
after them is kept behind items that block. -/
theorem blocked_receive {c d : List α} (h : f.Blocked cap size c)
    (hroom : (c ++ d).length ≤ cap) :
    (∃ p ∈ (f.receive (c ++ d)).1, size < p.length) ∨
      f.receive (c ++ d) = ((f.receive c).1, (f.receive c).2 ++ d) ∧
        f.Blocked cap size (f.receive c).2 := by
  induction h with
  | long h hlong =>
    obtain ⟨h', -⟩ := parse_short_append h hlong hroom
    rw [receive_short h', receive_short h]
    exact .inr ⟨rfl, .long (parse_of_short h) hlong⟩
  | @payload c p rest h hp =>
    refine .inl ⟨p, ?_, hp⟩
    rw [receive, f.drain_frame (parse_frame_append d h)]
    simp
  | @frame c p rest h hrest ih =>
    have hlt := f.parse_frame_length h
    have hne : rest ++ d ≠ [] := by simp [hrest.ne_nil]
    rw [receive_frame (parse_frame_append d h) hne, receive_frame h hrest.ne_nil]
    rcases ih (by simp only [List.length_append] at hroom ⊢; omega) with ⟨q, hq, hlong⟩ | ⟨h1, h2⟩
    · exact .inl ⟨q, by simp [hq], hlong⟩
    · exact .inr ⟨by rw [h1], h2⟩
  | @damaged c rest h hrest ih =>
    rw [receive_damaged (parse_damaged_append d h), receive_damaged h]
    exact .inr ⟨rfl, hrest⟩

/-- The payloads that a receiver gives out of the items `c` alone, in `n` turns. -/
def given (f : Format α) : List α → Nat → List (List α)
  | _, 0 => []
  | c, n + 1 => (f.receive c).1 ++ given f (f.receive c).2 n

/-! ## Recovery -/

/-- The beginning of a frame that fits in the room does not block. -/
theorem not_blocked_beginning {u v t : List α} {x y : α} (hu : u ≠ []) (hv : v ≠ [])
    (huv : u ++ v = f.header :: x :: y :: t) (ht : t.length = f.length x y + f.trailerLength)
    (hcap : f.frameLength x y ≤ cap) : f.parse u = .short u ∧ ¬ f.Blocked cap size u := by
  have hpos : 0 < v.length := List.length_pos_iff.mpr hv
  match u, hu with
  | [a], _ =>
    obtain ⟨rfl, -⟩ : a = f.header ∧ _ := by simpa using huv
    exact ⟨by rw [f.parse_header]; rfl, not_blocked_singleton _⟩
  | [a, b], _ =>
    obtain ⟨rfl, rfl, -⟩ : a = f.header ∧ b = x ∧ _ := by simpa using huv
    have hparse : f.parse [f.header, b] = .short [f.header, b] := by rw [f.parse_header]; rfl
    refine ⟨hparse, fun hb => ?_⟩
    obtain ⟨x', s', hs, hlong⟩ := (blocked_short hparse).mp hb
    cases hs
    have := hlong y (.inl rfl)
    omega
  | a :: b :: c :: u, _ =>
    obtain ⟨rfl, rfl, rfl, htail⟩ : a = f.header ∧ b = x ∧ c = y ∧ u ++ v = t := by simpa using huv
    have hparse : f.parse (f.header :: b :: c :: u) = .short (f.header :: b :: c :: u) := by
      rw [f.parse_header]
      simp only [body]
      rw [← htail, List.length_append] at ht
      rw [if_pos (by omega)]
    refine ⟨hparse, fun hb => ?_⟩
    obtain ⟨x', s', hs, hlong⟩ := (blocked_short hparse).mp hb
    cases hs
    have := hlong c (.inr rfl)
    omega

/-- Items that spoil a frame: its trailer is wrong. -/
theorem exists_spoiled [Nontrivial α] (f : Format α) (htrailer : 0 < f.trailerLength) (x y : α)
    (s : List α) (hs : s.length < f.length x y + f.trailerLength) :
    ∃ d, d ≠ [] ∧ (s ++ d).length = f.length x y + f.trailerLength ∧
      f.parse (f.header :: x :: y :: (s ++ d)) = .damaged [] := by
  obtain ⟨z⟩ : Nonempty α := inferInstance
  -- All but the last item, which is in the trailer.
  obtain ⟨e, he⟩ : ∃ e : List α, (s ++ e).length = f.length x y + f.trailerLength - 1 := by
    refine ⟨List.replicate (f.length x y + f.trailerLength - 1 - s.length) z, ?_⟩
    rw [List.length_append, List.length_replicate]
    omega
  obtain ⟨w, hw⟩ := exists_ne ((f.trailer ((s ++ e).take (f.length x y))).getLastD z)
  refine ⟨e ++ [w], by simp, by rw [← List.append_assoc, List.length_append, he]; simp; omega, ?_⟩
  have hlen : (s ++ (e ++ [w])).length = f.length x y + f.trailerLength := by
    rw [← List.append_assoc, List.length_append, he, List.length_singleton]
    omega
  rw [f.parse_header]
  simp only [body]
  rw [if_neg (by omega)]
  rw [← List.append_assoc, List.take_append_of_le_length (by omega), if_neg, List.drop_of_length_le]
  · rw [List.append_assoc]
    omega
  · intro h
    have hlast := congrArg (fun l => l.getLastD z) h
    rw [← hlast, List.drop_append_of_le_length (by omega), List.take_of_length_le] at hw
    · simp at hw
    · rw [List.length_append, List.length_drop, he, List.length_singleton]
      omega

/-- What is left of a frame that fits in the room can be made up to one that is dropped. -/
theorem exists_completion [Nontrivial α] (htrailer : 0 < f.trailerLength)
    (hcap : 3 + f.trailerLength ≤ cap) {s : List α} (hs : s = [] ∨ f.parse s = .short s)
    (h : ¬ f.Blocked cap size s) :
    ∃ d x y t, d ≠ [] ∧ s ++ d = f.header :: x :: y :: t ∧
      t.length = f.length x y + f.trailerLength ∧ f.frameLength x y ≤ cap ∧
      f.parse (s ++ d) = .damaged [] := by
  have hzero := f.length_announce 0 (Nat.zero_le _)
  have hfits : f.frameLength (f.announce 0).1 (f.announce 0).2 ≤ cap := by
    rw [frameLength, hzero]
    omega
  obtain ⟨d0, -, hlen0, hparse0⟩ := exists_spoiled f htrailer (f.announce 0).1 (f.announce 0).2 []
    (by rw [List.length_nil]; omega)
  rcases hs with rfl | hs
  · exact ⟨_ :: _ :: _ :: d0, _, _, d0, by simp, rfl, hlen0, hfits, hparse0⟩
  · obtain ⟨junk, s', hs', hj, hs0⟩ := f.parse_short hs
    obtain rfl : junk = [] := by simpa using hs'
    subst hs0
    match s', hs, h with
    | [], _, _ => exact ⟨_ :: _ :: d0, _, _, d0, by simp, rfl, hlen0, hfits, hparse0⟩
    | [x], hs, h =>
      obtain ⟨y, hy⟩ : ∃ y, f.frameLength x y ≤ cap := by
        by_contra hnone
        simp only [not_exists, Nat.not_le] at hnone
        exact h (.long hs fun y _ => hnone y)
      obtain ⟨d, -, hlen, hparse⟩ := exists_spoiled f htrailer x y []
        (by rw [List.length_nil]; omega)
      exact ⟨y :: d, x, y, d, by simp, rfl, hlen, hy, hparse⟩
    | x :: y :: t, hs, h =>
      have hy : f.frameLength x y ≤ cap := by
        by_contra hlong
        refine h (.long hs fun z hz => ?_)
        obtain rfl : y = z := by simpa using hz
        exact Nat.lt_of_not_le hlong
      have ht : t.length < f.length x y + f.trailerLength := by
        rw [f.parse_header] at hs
        simp only [body] at hs
        split at hs
        · assumption
        · split at hs <;> cases hs
      obtain ⟨d, hd, hlen, hparse⟩ := exists_spoiled f htrailer x y t ht
      exact ⟨d, x, y, t ++ d, hd, rfl, hlen, hy, hparse⟩

theorem not_blocked_of_parse_short {junk s : List α} (hj : f.header ∉ junk)
    (hs : s = [] ∨ f.parse s = .short s) (h : ¬ f.Blocked cap size (junk ++ s)) :
    ¬ f.Blocked cap size s := by
  rcases hs with rfl | hs
  · exact fun hb => hb.ne_nil rfl
  · rw [blocked_short (hs : f.parse s = .short s)]
    rwa [blocked_short ((f.parse_junk s hj).trans hs)] at h

/-- A receiver that looks for the rest of a frame, or for a new one, recovers in two reads. -/
theorem recovers_short [Nontrivial α] (htrailer : 0 < f.trailerLength)
    (hcap : 3 + f.trailerLength ≤ cap) {junk s : List α} (hj : f.header ∉ junk)
    (hs : s = [] ∨ f.parse s = .short s) (hroom : (junk ++ s).length < cap)
    (h : ¬ f.Blocked cap size (junk ++ s)) :
    ∃ ds, (∀ d ∈ ds, d ≠ []) ∧ f.FitsIn cap (junk ++ s) ds ∧
      f.receiveAll (junk ++ s) ds = ([], []) := by
  obtain ⟨d, x, y, t, hd, hsd, ht, hfits, hparse⟩ :=
    exists_completion htrailer hcap hs (not_blocked_of_parse_short hj hs h)
  obtain ⟨z, d, rfl⟩ := List.exists_cons_of_ne_nil hd
  have hfirst : (junk ++ s ++ [z]).length ≤ cap := by
    rw [List.length_append, List.length_singleton]
    omega
  cases d with
  | nil =>
    have hlast : f.parse (junk ++ s ++ [z]) = .damaged [] := by
      rw [List.append_assoc, f.parse_junk _ hj, hparse]
    refine ⟨[[z]], by simp, ⟨hfirst, trivial⟩, ?_⟩
    rw [receiveAll_cons, receive_damaged hlast]
    rfl
  | cons w d =>
    have hsplit : s ++ z :: w :: d = (s ++ [z]) ++ w :: d := by simp
    rw [hsplit] at hsd hparse
    obtain ⟨hbegin, -⟩ : f.parse (s ++ [z]) = .short (s ++ [z]) ∧ ¬ f.Blocked cap size (s ++ [z]) :=
      not_blocked_beginning (by simp) (by simp) hsd ht hfits
    have hshort : f.parse (junk ++ s ++ [z]) = .short (s ++ [z]) := by
      rw [List.append_assoc, f.parse_junk _ hj, hbegin]
    have hsecond : ((s ++ [z]) ++ w :: d).length ≤ cap := by
      rw [hsd]
      simp only [List.length_cons]
      unfold frameLength at hfits
      omega
    refine ⟨[[z], w :: d], by simp, ⟨hfirst, ?_, trivial⟩, ?_⟩
    · rw [receive_short hshort]
      exact hsecond
    · rw [receiveAll_cons, receive_short hshort, receiveAll_cons, receive_damaged hparse]
      rfl

/-- One more item does not have to block. -/
theorem exists_open [Nontrivial α] (htrailer : 0 < f.trailerLength)
    (hcap : 3 + f.trailerLength ≤ cap) {c : List α} (h : ¬ f.Blocked cap size c) :
    ∃ z, ¬ f.Blocked cap size (c ++ [z]) := by
  induction c using f.parse_induct with
  | habsent c hparse =>
    have hj := header_notMem hparse
    have hone : f.parse (c ++ [f.header]) = .short [f.header] := by
      rw [f.parse_junk _ hj, f.parse_header]
      rfl
    refine ⟨f.header, ?_⟩
    rw [blocked_short hone]
    rintro ⟨x, s', hs, -⟩
    cases hs
  | hshort c s hparse =>
    have hs := parse_of_short hparse
    obtain ⟨junk, s', rfl, hj, -⟩ := f.parse_short hparse
    obtain ⟨d, x, y, t, hd, hsd, ht, hfits, hlast⟩ :=
      exists_completion htrailer hcap (.inr hs) (not_blocked_of_parse_short hj (.inr hs) h)
    obtain ⟨z, d, rfl⟩ := List.exists_cons_of_ne_nil hd
    refine ⟨z, ?_⟩
    cases d with
    | nil =>
      rw [List.append_assoc, blocked_damaged ((f.parse_junk _ hj).trans hlast)]
      exact fun hb => hb.ne_nil rfl
    | cons w d =>
      have hsplit : s ++ z :: w :: d = (s ++ [z]) ++ w :: d := by simp
      rw [hsplit] at hsd
      obtain ⟨hbegin, hnot⟩ : f.parse (s ++ [z]) = .short (s ++ [z]) ∧
          ¬ f.Blocked cap size (s ++ [z]) := not_blocked_beginning (by simp) (by simp) hsd ht hfits
      rw [blocked_short hbegin] at hnot
      rw [List.append_assoc, blocked_short ((f.parse_junk _ hj).trans hbegin)]
      exact hnot
  | hframe c p rest hparse ih =>
    rw [blocked_frame hparse, not_or] at h
    obtain ⟨z, hz⟩ := ih h.2
    refine ⟨z, ?_⟩
    rw [blocked_frame (parse_frame_append [z] hparse), not_or]
    exact ⟨h.1, hz⟩
  | hdamaged c rest hparse ih =>
    rw [blocked_damaged hparse] at h
    obtain ⟨z, hz⟩ := ih h
    refine ⟨z, ?_⟩
    rw [blocked_damaged (parse_damaged_append [z] hparse)]
    exact hz

theorem receive_sizes {c : List α} (h : ¬ f.Blocked cap size c) :
    ∀ p ∈ (f.receive c).1, p.length ≤ size := by
  have : ∀ p ∈ (f.drain c).1, p.length ≤ size := by
    induction c using f.drain_induct with
    | hframe c p rest hparse ih =>
      rw [blocked_frame hparse, not_or] at h
      rw [f.drain_frame hparse]
      intro q hq
      rcases List.mem_cons.mp hq with rfl | hq
      · exact Nat.le_of_not_lt h.1
      · exact ih h.2 q hq
    | hstop c hstop =>
      rw [f.drain_stop hstop]
      simp
  exact this

/-- From items that do not block there are reads that leave nothing behind. -/
theorem recovers [Nontrivial α] (htrailer : 0 < f.trailerLength) (hcap : 3 + f.trailerLength ≤ cap)
    (c : List α) (hroom : c.length < cap) (h : ¬ f.Blocked cap size c) :
    ∃ ds, (∀ d ∈ ds, d ≠ []) ∧ f.FitsIn cap c ds ∧
      (∀ p ∈ (f.receiveAll c ds).1, p.length ≤ size) ∧ (f.receiveAll c ds).2 = [] := by
  induction hn : c.length using Nat.strongRecOn generalizing c with
  | _ n ih =>
    -- One item more, and what is kept is shorter.
    have hagain : (∀ z, (f.receive (c ++ [z])).2.length < c.length) →
        ∃ ds, (∀ d ∈ ds, d ≠ []) ∧ f.FitsIn cap c ds ∧
          (∀ p ∈ (f.receiveAll c ds).1, p.length ≤ size) ∧ (f.receiveAll c ds).2 = [] := by
      intro hshorter
      obtain ⟨z, hz⟩ := exists_open htrailer hcap h
      obtain ⟨ds, hds, hfits, hsizes, hnil⟩ := ih _ (hn ▸ hshorter z) _
        (by have := hshorter z; omega) (not_blocked_receive hz) rfl
      refine ⟨[z] :: ds, by simpa using hds, ⟨?_, hfits⟩, ?_, hnil⟩
      · rw [List.length_append, List.length_singleton]
        omega
      · rw [receiveAll_cons]
        intro p hp
        rcases List.mem_append.mp hp with hp | hp
        · exact receive_sizes hz p hp
        · exact hsizes p hp
    cases hparse : f.parse c with
    | absent =>
      have hc : c = c ++ [] := (List.append_nil c).symm
      rw [hc] at hroom h
      obtain ⟨ds, hds, hfits, hall⟩ := recovers_short htrailer hcap (header_notMem hparse)
        (.inl rfl) hroom h
      rw [← hc] at hfits hall
      exact ⟨ds, hds, hfits, by simp [hall], by rw [hall]⟩
    | short s =>
      have hs := parse_of_short hparse
      obtain ⟨junk, s', rfl, hj, -⟩ := f.parse_short hparse
      obtain ⟨ds, hds, hfits, hall⟩ := recovers_short htrailer hcap hj (.inr hs) hroom h
      exact ⟨ds, hds, hfits, by simp [hall], by rw [hall]⟩
    | frame p rest =>
      apply hagain
      intro z
      rw [receive_frame (parse_frame_append [z] hparse) (by simp)]
      have hle := f.keep_length (rest ++ [z]) _ (f.drain_suffix (rest ++ [z])).length_le (by simp)
      obtain ⟨junk, a, b, rfl, -⟩ := f.parse_frame hparse
      simp only [receive, List.length_append, List.length_cons, List.length_nil] at hle ⊢
      omega
    | damaged rest =>
      apply hagain
      intro z
      rw [receive_damaged (parse_damaged_append [z] hparse)]
      obtain ⟨frame, rfl, hlen⟩ := f.parse_damaged hparse
      simp only [List.length_append, List.length_singleton]
      omega

end Format

end framing
