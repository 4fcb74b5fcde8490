-- A receiver over several reads. Whatever the reads cut the stream of some
-- frames into, the receiver gives out the payloads, as long as no read ends
-- with an item that is put back and looks like a header.
import DectProg.Framing

namespace framing

variable {α : Type} [DecidableEq α]

namespace Format

variable (f : Format α)

/-- What is given out over the reads, from the kept items `c` on, and what is kept in the end. -/
def receiveAll : List α → List (List α) → List (List α) × List α
  | c, [] => ([], c)
  | c, d :: ds =>
    let (ps, c) := f.receive (c ++ d)
    let (qs, c) := receiveAll c ds
    (ps ++ qs, c)

@[simp] theorem receiveAll_nil (c : List α) : f.receiveAll c [] = ([], c) := rfl

theorem receiveAll_cons (c d : List α) (ds : List (List α)) :
    f.receiveAll c (d :: ds) =
      ((f.receive (c ++ d)).1 ++ (f.receiveAll (f.receive (c ++ d)).2 ds).1,
        (f.receiveAll (f.receive (c ++ d)).2 ds).2) := rfl

/-- One read after the other fits in the room for `cap` items. -/
def FitsIn (cap : Nat) : List α → List (List α) → Prop
  | _, [] => True
  | c, d :: ds => (c ++ d).length ≤ cap ∧ FitsIn cap (f.receive (c ++ d)).2 ds

/-- Reads that fit all together fit one after the other. -/
theorem fitsIn_of_few {cap : Nat} {ds : List (List α)} (hds : ∀ d ∈ ds, d ≠ []) {c : List α}
    (h : (c ++ ds.flatten).length ≤ cap) : f.FitsIn cap c ds := by
  induction ds generalizing c with
  | nil => trivial
  | cons d ds ih =>
    have hne : c ++ d ≠ [] := by simp [hds d (by simp)]
    have hkeep := f.keep_length (c ++ d) _ (f.drain_suffix (c ++ d)).length_le hne
    rw [List.flatten_cons, ← List.append_assoc, List.length_append] at h
    refine ⟨by omega, ih (fun d hd => hds d (by simp [hd])) ?_⟩
    rw [List.length_append]
    exact Nat.le_trans (Nat.add_le_add_right hkeep _) h

/-! ## Items before the first header -/

/-- Items that are no header make no difference to a receiver that has others after them. -/
theorem receive_junk {junk : List α} (c : List α) (h : f.header ∉ junk) (hc : c ≠ []) :
    f.receive (junk ++ c) = f.receive c := by
  have hkeep : ∀ rest, f.keep (junk ++ c) rest = f.keep c rest := by
    intro rest
    unfold keep
    rw [List.getLast?_append_of_ne_nil junk hc]
  by_cases hframe : ∃ p rest, f.parse c = .frame p rest
  · obtain ⟨p, rest, hp⟩ := hframe
    have hp' : f.parse (junk ++ c) = .frame p rest := by rw [f.parse_junk c h, hp]
    simp only [receive, f.drain_frame hp, f.drain_frame hp', hkeep]
  · have hp : ∀ p rest, f.parse c ≠ .frame p rest := fun p rest hp => hframe ⟨p, rest, hp⟩
    have hp' : ∀ p rest, f.parse (junk ++ c) ≠ .frame p rest := by
      rw [f.parse_junk c h]
      exact hp
    simp only [receive, f.drain_stop hp, f.drain_stop hp', hkeep]
    unfold keep
    rw [f.parse_junk c h]
    simp [hc]

/-- So they make no difference to what is given out. -/
theorem receiveAll_junk {junk : List α} (c : List α) (ds : List (List α)) (h : f.header ∉ junk)
    (hds : ∀ d ∈ ds, d ≠ []) : (f.receiveAll (junk ++ c) ds).1 = (f.receiveAll c ds).1 := by
  cases ds with
  | nil => rfl
  | cons d ds =>
    have hd : c ++ d ≠ [] := by simp [hds d (by simp)]
    rw [receiveAll_cons, receiveAll_cons, List.append_assoc, f.receive_junk (c ++ d) h hd]

/-! ## The stream of some frames -/

/-- A receiver that has a part of a stream gives out the whole frames, and keeps the rest. -/
theorem receive_stream {ps : List (List α)} (hps : ∀ p ∈ ps, p.length ≤ f.maxLength) {c d : List α}
    (h : c ++ d = f.stream ps) :
    ∃ ps1 ps2 rest, ps = ps1 ++ ps2 ∧ c = f.stream ps1 ++ rest ∧ rest ++ d = f.stream ps2 ∧
      (rest = [] ∨ f.parse rest = .short rest) ∧
      f.receive c = (ps1, if rest = [] ∧ f.keepsLast then c.getLast?.toList else rest) := by
  obtain ⟨ps1, ps2, rest, hps12, hdrain, hc1, hd1, hrest⟩ := f.drain_stream hps h
  refine ⟨ps1, ps2, rest, hps12, hc1, hd1, hrest, ?_⟩
  rw [receive, hdrain]
  rcases hrest with rfl | hrest
  · have habsent : f.parse ([] : List α) = .absent := f.parse_absent (by simp)
    simp only [keep, habsent, ne_eq, not_true_eq_false, or_false, true_and]
  · have hne : rest ≠ [] := by
      rintro rfl
      rw [f.parse_absent (by simp)] at hrest
      cases hrest
    simp [keep, hrest, hne]

/-- The beginning of a frame is kept, and the junk before it is not. -/
theorem receive_beginning {junk c d p : List α} (hp : p.length ≤ f.maxLength)
    (hjunk : f.header ∉ junk) (h : c ++ d = f.encode p) (hc : c ≠ []) (hd : d ≠ []) :
    f.receive (junk ++ c) = ([], c) := by
  have hparse := f.parse_beginning hp h.symm hc hd
  rw [f.receive_junk c hjunk hc, receive, f.drain_stop (by simp [hparse])]
  simp only [keep, hparse]

/-- A whole frame is given out, and its last item is put back. -/
theorem receive_encode {junk p : List α} (hp : p.length ≤ f.maxLength) (hjunk : f.header ∉ junk) :
    f.receive (junk ++ f.encode p) =
      ([p], if f.keepsLast then (f.encode p).getLast?.toList else []) := by
  have hparse := f.parse_encode p [] hp
  rw [List.append_nil] at hparse
  have habsent : f.parse ([] : List α) = .absent := f.parse_absent (by simp)
  rw [f.receive_junk _ hjunk (f.encode_ne_nil p), receive, f.drain_frame hparse,
    f.drain_stop (by simp [habsent])]
  simp [keep, habsent]

omit [DecidableEq α] in
/-- The last item of a stream is the last item of its last frame. -/
theorem stream_getLast? (ps : List (List α)) (p : List α) :
    (f.stream (ps ++ [p])).getLast? = (f.encode p).getLast? := by
  rw [stream, List.flatMap_append, List.flatMap_cons, List.flatMap_nil, List.append_nil,
    List.getLast?_append_of_ne_nil _ (f.encode_ne_nil p)]

/-- Where the items `c` that were kept and the reads `ds` make up the frames of `ps`: no read
ends at the end of a frame that ends with an item like a header. -/
def GoodCuts (c : List α) (ds ps : List (List α)) : Prop :=
  ∀ ds1 ds2 ps1 p ps2, ds = ds1 ++ ds2 → ps = ps1 ++ p :: ps2 →
    c ++ ds1.flatten = f.stream (ps1 ++ [p]) → (f.encode p).getLast? ≠ some f.header

omit [DecidableEq α] in
theorem GoodCuts.tail {c rest d : List α} {ds ps1 ps2 : List (List α)}
    (h : f.GoodCuts c (d :: ds) (ps1 ++ ps2)) (hc : c ++ d = f.stream ps1 ++ rest) :
    f.GoodCuts rest ds ps2 := by
  intro ds1 ds2 qs1 p qs2 hds hps hstream
  refine h (d :: ds1) ds2 (ps1 ++ qs1) p qs2 (by rw [hds]; rfl)
    (by rw [hps, List.append_assoc]) ?_
  rw [List.flatten_cons, ← List.append_assoc, hc, List.append_assoc, hstream, ← stream_append,
    List.append_assoc]

/-- Kept items that are no whole frame are not the stream of some frames. -/
theorem short_ne_stream {c : List α} (hc : c = [] ∨ f.parse c = .short c) {p : List α}
    {ps : List (List α)} (hp : p.length ≤ f.maxLength) : c ≠ f.stream (p :: ps) := by
  rintro rfl
  rw [stream_cons, f.parse_encode p _ hp] at hc
  rcases hc with hc | hc
  · exact f.encode_ne_nil p (List.append_eq_nil_iff.mp hc).1
  · cases hc

theorem GoodCuts.cons {c rest d : List α} {ds ps1 ps2 : List (List α)}
    (hps : ∀ p ∈ ps1 ++ ps2, p.length ≤ f.maxLength) (hc : c = [] ∨ f.parse c = .short c)
    (hcd : c ++ d = f.stream ps1 ++ rest)
    (hlast : rest = [] → ∀ init p, ps1 = init ++ [p] → (f.encode p).getLast? ≠ some f.header)
    (h : f.GoodCuts rest ds ps2) : f.GoodCuts c (d :: ds) (ps1 ++ ps2) := by
  intro ds1 ds2 qs1 p qs2 hds hpq hstream
  cases ds1 with
  | nil =>
    -- No cut: what was kept is no stream of frames.
    rw [List.flatten_nil, List.append_nil] at hstream
    cases qs1 with
    | nil => exact absurd hstream (f.short_ne_stream hc (hps p (by simp [hpq])))
    | cons q qs1 => exact absurd hstream (f.short_ne_stream hc (hps q (by simp [hpq])))
  | cons x ds1 =>
    obtain ⟨rfl, rfl⟩ : d = x ∧ ds = ds1 ++ ds2 := by simpa using hds
    rw [List.flatten_cons, ← List.append_assoc, hcd, List.append_assoc] at hstream
    have hpq' : ps1 ++ ps2 = (qs1 ++ [p]) ++ qs2 := by simp [hpq]
    rcases List.append_eq_append_iff.mp hpq' with ⟨y, hy, -⟩ | ⟨y, rfl, -⟩
    · -- The cut lies behind the frames of this read.
      rcases List.eq_nil_or_concat' y with rfl | ⟨y, p', rfl⟩
      · rw [List.append_nil] at hy
        subst hy
        have hrest : rest = [] := by
          have := List.append_cancel_left (hstream.trans (List.append_nil _).symm)
          exact (List.append_eq_nil_iff.mp this).1
        exact hlast hrest qs1 p rfl
      · rw [← List.append_assoc] at hy
        obtain ⟨rfl, hp⟩ := List.append_inj' hy rfl
        cases hp
        rw [List.append_assoc, stream_append] at hstream
        refine h ds1 ds2 y p qs2 rfl ?_ (List.append_cancel_left hstream)
        rw [List.append_assoc] at hpq
        exact List.append_cancel_left hpq
    · -- The cut is this read.
      rw [stream_append, List.append_assoc] at hstream
      have hnil := List.append_cancel_left (hstream.trans (List.append_nil _).symm)
      have hy : y = [] := by
        cases y with
        | nil => rfl
        | cons q y => exact absurd (List.append_eq_nil_iff.mp hnil).1 (by simp [stream, encode])
      subst hy
      have hrest : rest = [] := by
        have := (List.append_eq_nil_iff.mp hnil).2
        exact (List.append_eq_nil_iff.mp this).1
      exact hlast hrest qs1 p (by simp)

/-- Over the reads of a stream a receiver gives out the payloads of the frames, and what it
keeps in the end cannot be taken for a header. -/
theorem receiveAll_stream {ps : List (List α)} (hps : ∀ p ∈ ps, p.length ≤ f.maxLength)
    {ds : List (List α)} (hds : ∀ d ∈ ds, d ≠ []) (junk c : List α) (hjunk : f.header ∉ junk)
    (hc : c = [] ∨ f.parse c = .short c) (h : c ++ ds.flatten = f.stream ps)
    (hcuts : f.keepsLast → f.GoodCuts c ds ps) :
    (f.receiveAll (junk ++ c) ds).1 = ps ∧ f.header ∉ (f.receiveAll (junk ++ c) ds).2 := by
  induction ds generalizing ps junk c with
  | nil =>
    -- What is left of the stream is no whole frame, so there is none left.
    rw [List.flatten_nil, List.append_nil] at h
    have hps' : ps = [] := by
      cases ps with
      | nil => rfl
      | cons p ps => exact absurd h (f.short_ne_stream hc (hps p (by simp)))
    subst hps'
    have hc' : c = [] := h
    subst hc'
    rw [List.append_nil]
    exact ⟨rfl, hjunk⟩
  | cons d ds ih =>
    have hd : d ≠ [] := hds d (by simp)
    rw [List.flatten_cons, ← List.append_assoc] at h
    obtain ⟨ps1, ps2, rest, rfl, hc1, hd1, hrest, hreceive⟩ := f.receive_stream hps h
    have hps2 : ∀ p ∈ ps2, p.length ≤ f.maxLength := fun p hp => hps p (by simp [hp])
    have hds' : ∀ d ∈ ds, d ≠ [] := fun d hd => hds d (by simp [hd])
    have hcuts' : f.keepsLast → f.GoodCuts rest ds ps2 := fun hk => (hcuts hk).tail f hc1
    rw [receiveAll_cons, List.append_assoc, f.receive_junk (c ++ d) hjunk (by simp [hd]), hreceive]
    dsimp only
    by_cases hlast : rest = [] ∧ f.keepsLast
    · -- The read ends where a frame ends, and its last item is kept.
      obtain ⟨rfl, hkeeps⟩ := hlast
      rw [if_pos ⟨rfl, hkeeps⟩]
      rw [List.append_nil] at hc1
      obtain ⟨init, p, rfl⟩ : ∃ init p, ps1 = init ++ [p] := by
        rcases List.eq_nil_or_concat' ps1 with rfl | ⟨init, p, rfl⟩
        · exact absurd hc1 (by simp [stream, hd])
        · exact ⟨init, p, rfl⟩
      have hgood := hcuts hkeeps [d] ds init p ps2 rfl (by simp) (by simpa using hc1)
      have hnew : f.header ∉ (c ++ d).getLast?.toList := by
        rw [hc1, stream_getLast?]
        intro hmem
        exact hgood (by simpa using hmem)
      have := ih hps2 hds' (c ++ d).getLast?.toList [] hnew (.inl rfl) hd1 hcuts'
      rw [List.append_nil] at this
      exact ⟨by rw [this.1], this.2⟩
    · rw [if_neg hlast]
      have := ih hps2 hds' [] rest (by simp) hrest hd1 hcuts'
      rw [List.nil_append] at this
      exact ⟨by rw [this.1], this.2⟩

end Format

end framing
