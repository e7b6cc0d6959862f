import Pyhdiff.Streaming.Encoder

/-! A reference codec for any format with computable frames. It buffers a whole
frame before it answers, which is enough to be lawful. -/
namespace Pyhdiff.Streaming.Reference
variable {α π : Type*} (F : Format α)

/-- The shortest piece of the input that completes a frame begun with `c`. -/
def scan (p : List α) : List α → List α → Option (Nat × Frame α)
  | c, [] => (F.frame p c).map fun f => (0, f)
  | c, x :: xs => match F.frame p c with
    | some f => some (0, f)
    | none => (scan p (c ++ [x]) xs).map fun (k, f) => (k+1, f)

theorem scan_some {p c input : List α} {k : Nat} {f : Frame α}
    (h : scan F p c input = some (k, f)) :
    k ≤ input.length ∧ F.frame p (c ++ input.take k) = some f := by
  induction input generalizing c k with
  | nil =>
    simp only [scan, Option.map_eq_some_iff, Prod.mk.injEq] at h
    obtain ⟨g, hc, rfl, rfl⟩ := h
    simp [hc]
  | cons x xs ih =>
    cases hc : F.frame p c with
    | some g =>
      simp only [scan, hc, Option.some.injEq, Prod.mk.injEq] at h
      simp [← h.1, ← h.2, hc]
    | none =>
      simp only [scan, hc, Option.map_eq_some_iff, Prod.mk.injEq, Prod.exists] at h
      obtain ⟨j, g, hj, rfl, rfl⟩ := h
      obtain ⟨hle, hf⟩ := ih hj
      exact ⟨by simpa using hle, by simpa [List.append_assoc] using hf⟩

theorem scan_none {p c input : List α} (h : scan F p c input = none) (k : Nat) :
    F.frame p (c ++ input.take k) = none := by
  induction input generalizing c k with
  | nil => simpa [scan] using h
  | cons x xs ih =>
    cases hc : F.frame p c with
    | some g => simp [scan, hc] at h
    | none =>
      simp only [scan, hc, Option.map_eq_none_iff] at h
      cases k with
      | zero => simpa using hc
      | succ k => simpa [List.append_assoc] using ih h k

theorem scan_frame {p s t : List α} {f : Frame α} (hf : F.frame p s = some f) :
    scan F p [] (s ++ t) = some (s.length, f) := by
  cases h : scan F p [] (s ++ t) with
  | none =>
    have hnone := scan_none F h s.length
    rw [List.nil_append, List.take_left, hf] at hnone
    cases hnone
  | some kg =>
    obtain ⟨hk, hg⟩ := scan_some F h
    obtain ⟨hlen, hfg⟩ := F.inside (c := []) hf hk hg (.inr (List.prefix_append s t))
    rw [← hlen, ← hfg]

structure DecoderState (α : Type*) where
  cfg : DecoderConfig α
  taken : List α
  waiting : Option (List α)

def DecoderState.flush (s : DecoderState α) (out : List α) (room k : Nat) :
    Reply (DecoderState α) α :=
  if out.length ≤ room then ⟨⟨s.cfg.nextFrame, [], none⟩, .ok 0, k, out⟩
  else ⟨{ s with waiting := some (out.drop room) }, .ok 1, k, out.take room⟩

/-- Error 16 is the refusal of a window above the configured limit. -/
def decode (s : DecoderState α) (input : List α) (room : Nat) : Reply (DecoderState α) α :=
  match s.waiting with
  | some out => s.flush out room 0
  | none => match scan F s.cfg.history s.taken input with
    | none => ⟨{ s with taken := s.taken ++ input }, .ok 1, input.length, []⟩
    | some (k, f) =>
      if f.window ≤ 2 ^ s.cfg.windowLog then
        { s with taken := s.taken ++ input.take k }.flush f.content room k
      else ⟨s, .error 16, 0, []⟩

def At (s : DecoderState α) (cfg : DecoderConfig α) (c o : List α) : Prop :=
  s.cfg = cfg ∧ s.taken = c ∧ match s.waiting with
    | none => o = [] ∧ F.frame cfg.history c = none
    | some left => left ≠ [] ∧ ∃ f, F.frame cfg.history c = some f ∧
        f.window ≤ 2 ^ cfg.windowLog ∧ f.content = o ++ left

theorem at_start (cfg : DecoderConfig α) : At F ⟨cfg, [], none⟩ cfg [] [] :=
  ⟨rfl, rfl, rfl, F.nonempty _⟩

theorem flush_cases (s : DecoderState α) (out : List α) (room k : Nat) :
    (out.length ≤ room ∧ s.flush out room k = ⟨⟨s.cfg.nextFrame, [], none⟩, .ok 0, k, out⟩) ∨
    (out.drop room ≠ [] ∧
      s.flush out room k = ⟨{ s with waiting := some (out.drop room) }, .ok 1, k, out.take room⟩) := by
  by_cases h : out.length ≤ room
  · exact .inl ⟨h, by simp [DecoderState.flush, h]⟩
  · refine .inr ⟨?_, by simp [DecoderState.flush, h]⟩
    simp only [ne_eq, List.drop_eq_nil_iff]
    exact h

theorem flush_within (s : DecoderState α) (out : List α) (room k : Nat) :
    (s.flush out room k).consumed = k ∧ (s.flush out room k).produced.length ≤ room := by
  cases flush_cases s out room k with
  | inl h =>
    obtain ⟨hle, he⟩ := h
    rw [he]
    exact ⟨rfl, hle⟩
  | inr h =>
    obtain ⟨-, he⟩ := h
    rw [he]
    exact ⟨rfl, List.length_take_le _ _⟩

theorem decode_within (s : DecoderState α) (input : List α) (room : Nat) :
    (decode F s input room).Within input room := by
  obtain ⟨cfg, taken, waiting⟩ := s
  cases waiting with
  | some out =>
    obtain ⟨hk, hp⟩ := flush_within ⟨cfg, taken, some out⟩ out room 0
    exact ⟨hk ▸ Nat.zero_le _, hp⟩
  | none =>
    unfold decode
    cases hs : scan F cfg.history taken input with
    | none => simp [Reply.Within]
    | some kf =>
      obtain ⟨k, f⟩ := kf
      dsimp only
      split
      · obtain ⟨hk, hp⟩ := flush_within ⟨cfg, taken ++ input.take k, none⟩ f.content room k
        exact ⟨by rw [hk]; exact (scan_some F hs).1, hp⟩
      · exact ⟨Nat.zero_le _, Nat.zero_le _⟩

theorem flush_at {s : DecoderState α} {cfg : DecoderConfig α} {c o out : List α} {f : Frame α}
    (hcfg : s.cfg = cfg) (hc : s.taken = c) (hf : F.frame cfg.history c = some f)
    (ha : f.window ≤ 2 ^ cfg.windowLog) (ho : f.content = o ++ out) (room k : Nat) :
    ((s.flush out room k).result = .ok 0 ∧ f.content = o ++ (s.flush out room k).produced ∧
      At F (s.flush out room k).ctx cfg.nextFrame [] []) ∨
    ((s.flush out room k).result = .ok 1 ∧ o ++ (s.flush out room k).produced <+: f.content ∧
      (0 < room → (s.flush out room k).produced ≠ []) ∧
      At F (s.flush out room k).ctx cfg c (o ++ (s.flush out room k).produced)) := by
  cases flush_cases s out room k with
  | inl h =>
    obtain ⟨-, he⟩ := h
    left
    rw [he]
    exact ⟨rfl, ho, hcfg ▸ at_start F _⟩
  | inr h =>
    obtain ⟨hne, he⟩ := h
    right
    have hjoin : f.content = o ++ out.take room ++ out.drop room := by
      rw [ho, List.append_assoc, List.take_append_drop]
    rw [he]
    refine ⟨rfl, ⟨_, hjoin.symm⟩, ?_, hcfg, hc, hne, f, hf, ha, hjoin⟩
    intro hroom h
    rcases List.take_eq_nil_iff.mp h with rfl | rfl
    · omega
    · simp at hne

/-- What the reference decoder does from a position: it ends the frame or waits
to flush it, it swallows the input, or it refuses the window. -/
theorem decode_at {s : DecoderState α} {cfg : DecoderConfig α} {c o : List α}
    (hat : At F s cfg c o) (input : List α) (room : Nat) :
    (∃ f, F.frame cfg.history (c ++ input.take (decode F s input room).consumed) = some f ∧
      f.window ≤ 2 ^ cfg.windowLog ∧
      (((decode F s input room).result = .ok 0 ∧
          f.content = o ++ (decode F s input room).produced ∧
          At F (decode F s input room).ctx cfg.nextFrame [] []) ∨
        ((decode F s input room).result = .ok 1 ∧
          o ++ (decode F s input room).produced <+: f.content ∧
          (0 < room → (decode F s input room).produced ≠ []) ∧
          At F (decode F s input room).ctx cfg
            (c ++ input.take (decode F s input room).consumed)
            (o ++ (decode F s input room).produced)))) ∨
    (decode F s input room = ⟨{ s with taken := c ++ input }, .ok 1, input.length, []⟩ ∧
      o = [] ∧ (∀ k, F.frame cfg.history (c ++ input.take k) = none) ∧
      At F { s with taken := c ++ input } cfg (c ++ input) []) ∨
    ((decode F s input room).result = .error 16 ∧ ∃ k ≤ input.length, ∃ f,
      F.frame cfg.history (c ++ input.take k) = some f ∧ ¬ f.window ≤ 2 ^ cfg.windowLog) := by
  obtain ⟨cfg', taken, waiting⟩ := s
  obtain ⟨hcfg, htaken, h⟩ := hat
  dsimp only at hcfg htaken h
  subst hcfg htaken
  cases waiting with
  | some left =>
    obtain ⟨-, f, hf, ha, ho⟩ := h
    have hk := (flush_within ⟨cfg', taken, some left⟩ left room 0).1
    refine .inl ⟨f, ?_, ha, ?_⟩
    · simpa [decode, hk] using hf
    · simpa [decode, hk] using flush_at F (s := ⟨cfg', taken, some left⟩) rfl rfl hf ha ho room 0
  | none =>
    obtain ⟨rfl, hc⟩ := h
    cases hs : scan F cfg'.history taken input with
    | none =>
      have hnone := scan_none F hs
      refine .inr (.inl ⟨by simp [decode, hs], rfl, hnone, rfl, rfl, rfl, ?_⟩)
      simpa using hnone input.length
    | some kf =>
      obtain ⟨k, f⟩ := kf
      obtain ⟨hle, hf⟩ := scan_some F hs
      by_cases ha : f.window ≤ 2 ^ cfg'.windowLog
      · have hk := (flush_within ⟨cfg', taken ++ input.take k, none⟩ f.content room k).1
        refine .inl ⟨f, ?_, ha, ?_⟩
        · simpa [decode, hs, ha, hk] using hf
        · simpa [decode, hs, ha, hk] using flush_at F (s := ⟨cfg', taken ++ input.take k, none⟩)
            rfl rfl hf ha (o := []) rfl room k
      · exact .inr (.inr ⟨by simp [decode, hs, ha], k, hle, f, hf, ha⟩)

def decoder : LawfulDecoder F (decode F) where
  At := At F
  accepts cfg f := f.window ≤ 2 ^ cfg.windowLog
  accepts_window h := h
  within := decode_within F
  pending := by
    rintro s cfg c o f ⟨rfl, rfl, h⟩ hf ho
    cases hw : s.waiting with
    | none => simp [hw, hf] at h
    | some left =>
      simp only [hw, hf, Option.some.injEq, exists_eq_left'] at h
      exact h.1 (List.self_eq_append_right.mp (ho.symm.trans h.2.2))
  ended := by
    intro s cfg c o input room hat hres
    rcases decode_at F hat input room with ⟨f, hf, -, h | h⟩ | ⟨he, -⟩ | ⟨he, -⟩
    · exact ⟨⟨f, hf, h.2.1⟩, h.2.2⟩
    · simp [h.1] at hres
    · simp [he] at hres
    · simp [he] at hres
  continued := by
    intro s cfg c o input room k hat hres
    rcases decode_at F hat input room with ⟨f, -, -, h | h⟩ | ⟨he, rfl, -, hnext⟩ | ⟨he, -⟩
    · simp [h.1] at hres
    · exact h.2.2.2
    · simpa [he] using hnext
    · simp [he] at hres
  decodes := by
    intro s cfg c o rest f input room hat hf ha hroom hin
    rcases decode_at F hat input room with ⟨g, hg, -, h⟩ | ⟨he, rfl, hnone, -⟩ | ⟨-, k, hk, g, hg, hn⟩
    · obtain ⟨hk, rfl⟩ := F.inside hf (decode_within F s input room).1 hg hin
      cases h with
      | inl h =>
        obtain ⟨hr, ho, -⟩ := h
        exact ⟨0, hr, Nat.le_of_eq hk, ho ▸ List.prefix_refl _, fun h => absurd rfl h⟩
      | inr h =>
        obtain ⟨hr, hpre, hne, -⟩ := h
        exact ⟨1, hr, Nat.le_of_eq hk, hpre, fun _ _ => .inr (hne hroom)⟩
    · have hir : input <+: rest := by
        cases hin with
        | inl h => exact h
        | inr h =>
          have := hnone rest.length
          rw [← List.prefix_iff_eq_take.mp h, hf] at this
          cases this
      refine ⟨1, by rw [he], by rw [he]; exact hir.length_le, by rw [he]; simp, ?_⟩
      rintro - (hne | rfl)
      · rw [he]
        exact .inl (List.length_pos_iff.mpr hne)
      · have := hnone 0
        rw [List.take_zero, hf] at this
        cases this
    · obtain ⟨rfl, rfl⟩ := F.inside hf hk hg hin
      exact absurd ha hn

theorem decoder_strict : (decoder F).Strict := by
  intro cfg s c o input room f hat hres hf
  rcases decode_at F hat input room with ⟨g, hg, ha, -⟩ | ⟨he, -⟩ | ⟨he, -⟩
  · obtain rfl := Option.some.inj (hf.symm.trans hg)
    exact ha
  · exact absurd ((congrArg Reply.result he).symm.trans hres) (by simp)
  · exact absurd (he.symm.trans hres) (by simp)

theorem decode_refuses {s : DecoderState α} {cfg : DecoderConfig α} {c o rest input : List α}
    {f : Frame α} {room : Nat} (hat : At F s cfg c o) (hf : F.frame cfg.history (c ++ rest) = some f)
    (hno : ¬ f.window ≤ 2 ^ cfg.windowLog) (hne : input ≠ [])
    (hin : input <+: rest ∨ rest <+: input) :
    (decode F s input room).result = .error 16 ∨ ∃ k, (decode F s input room).result = .ok (k+1) ∧
      0 < (decode F s input room).consumed ∧ (decode F s input room).consumed < rest.length ∧
      (decode F s input room).produced = [] := by
  rcases decode_at F hat input room with ⟨g, hg, ha, -⟩ | ⟨he, rfl, hnone, -⟩ | ⟨he, -⟩
  · obtain ⟨-, rfl⟩ := F.inside hf (decode_within F s input room).1 hg hin
    exact absurd ha hno
  · rw [he]
    refine .inr ⟨0, rfl, List.length_pos_iff.mpr hne, ?_, rfl⟩
    have hall := hnone rest.length
    by_contra hge
    have hrest : input.take rest.length = rest := by
      cases hin with
      | inl h => rw [h.eq_of_length_le (by simpa using hge), List.take_length]
      | inr h => exact (List.prefix_iff_eq_take.mp h).symm
    rw [hrest, hf] at hall
    cases hall
  · exact .inl he

structure EncoderState (π α : Type*) where
  job : Job π α
  fed : List α
  waiting : Option (List α)

variable (encode : Job π α → List α → Option (List α))

/-- Error 72 refuses a source that is not of the pledged length. -/
def encodeStream (s : EncoderState π α) (input : List α) (room : Nat) :
    EndDirective → Reply (EncoderState π α) α
  | .eContinue => ⟨{ s with fed := s.fed ++ input }, .ok 0, input.length, []⟩
  | .eEnd =>
    match s.waiting.or (encode s.job (s.fed ++ input)) with
    | none => ⟨s, .error 72, 0, []⟩
    | some out =>
      ⟨{ s with fed := s.fed ++ input, waiting := some (out.drop room) },
        .ok (out.length - room), input.length, out.take room⟩

def Fed (s : EncoderState π α) (job : Job π α) (src out : List α)
    (closing : Option (List α)) : Prop :=
  s.job = job ∧ s.fed = src ∧ match s.waiting with
    | none => out = [] ∧ closing = none
    | some left => left ≠ [] ∧ closing = some [] ∧ encode job src = some (out ++ left)

theorem encodeStream_end {encode : Job π α → List α → Option (List α)} {s : EncoderState π α}
    {job : Job π α} {src out input : List α} {closing : Option (List α)}
    (hfed : Fed encode s job src out closing) (hadm : Admissible closing input .eEnd)
    (room : Nat) :
    (∃ due, encode job (src ++ input) = some (out ++ due) ∧
      encodeStream encode s input room .eEnd =
        ⟨⟨job, src ++ input, some (due.drop room)⟩, .ok (due.length - room), input.length,
          due.take room⟩) ∨
    (closing = none ∧ encode job (src ++ input) = none ∧
      encodeStream encode s input room .eEnd = ⟨s, .error 72, 0, []⟩) := by
  obtain ⟨job', fed, waiting⟩ := s
  obtain ⟨hjob, hsrc, h⟩ := hfed
  dsimp only at hjob hsrc h
  subst hjob hsrc
  cases waiting with
  | none =>
    obtain ⟨rfl, rfl⟩ := h
    cases he : encode job' (fed ++ input) with
    | none => exact .inr ⟨rfl, rfl, by simp [encodeStream, he]⟩
    | some due => exact .inl ⟨due, rfl, by simp [encodeStream, he]⟩
  | some left =>
    obtain ⟨-, rfl, he⟩ := h
    have hin : input = [] := by
      cases hadm with
      | inl h => cases h
      | inr h =>
        obtain ⟨h, -⟩ := h
        exact (Option.some.inj h).symm
    subst hin
    exact .inl ⟨left, by simpa using he, by simp [encodeStream]⟩

def encoder (hsound : ∀ job src out, encode job src = some out →
      ∃ f, F.frame job.history out = some f ∧ f.skippable = false ∧ f.content = src) :
    LawfulEncoder F π (encodeStream encode) where
  Fed := Fed encode
  emits job f := ∃ src out, encode job src = some out ∧ F.frame job.history out = some f
  within := by
    intro s input room op
    cases op with
    | eContinue => simp [encodeStream, Reply.Within]
    | eEnd =>
      simp only [encodeStream]
      split
      · simp [Reply.Within]
      · exact ⟨Nat.le_refl _, List.length_take_le ..⟩
  continued := by
    intro s job src out closing input room op k hfed hadm hres hk
    cases op with
    | eContinue =>
      obtain ⟨rfl, rfl, h⟩ := hfed
      cases hadm with
      | inl h =>
        obtain rfl := h
        cases hw : s.waiting with
        | none => simp_all [encodeStream, Fed]
        | some left => simp [hw] at h
      | inr h =>
        obtain ⟨-, h'⟩ := h
        cases h'
    | eEnd =>
      cases encodeStream_end hfed hadm room with
      | inl h =>
        obtain ⟨due, he, hr⟩ := h
        rw [hr] at hres ⊢
        have hne : due.drop room ≠ [] := by
          simp only [Except.ok.injEq] at hres
          simp only [ne_eq, List.drop_eq_nil_iff]
          have := hk rfl
          omega
        simp only [Fed, List.take_length, List.drop_length, if_true, true_and]
        exact ⟨hne, by rw [List.append_assoc, List.take_append_drop]; exact he⟩
      | inr h =>
        obtain ⟨-, -, hr⟩ := h
        simp [hr] at hres
  closed := by
    intro s job src out closing input room hfed hadm hres _
    cases encodeStream_end hfed hadm room with
    | inl h =>
      obtain ⟨due, he, hr⟩ := h
      have hdue : due.take room = due := by
        simp only [hr, Except.ok.injEq] at hres
        exact List.take_of_length_le (by omega)
      obtain ⟨f, hf, hskip, hc⟩ := hsound _ _ _ he
      rw [hr]
      dsimp only
      rw [hdue]
      exact ⟨f, hf, ⟨_, _, he, hf⟩, hskip, hc⟩
    | inr h =>
      obtain ⟨-, -, hr⟩ := h
      simp [hr] at hres

theorem encoder_flushes (hsound : ∀ job src out, encode job src = some out →
      ∃ f, F.frame job.history out = some f ∧ f.skippable = false ∧ f.content = src)
    (hall : ∀ job src, src.length = job.pledged → encode job src ≠ none)
    {bound : Job π α → Nat} (hbound : ∀ job src out, encode job src = some out →
      out.length ≤ bound job) : (encoder F encode hsound).Flushes bound where
  moves := by
    intro s job src out closing input room op hfed hadm hroom hcont hend
    cases op with
    | eContinue =>
      exact ⟨0, rfl, .inr (.inl (List.length_pos_iff.mpr (hcont rfl).1))⟩
    | eEnd =>
      cases encodeStream_end hfed hadm room with
      | inl h =>
        obtain ⟨due, -, hr⟩ := h
        rw [hr]
        refine ⟨_, rfl, ?_⟩
        by_cases hd : due.length ≤ room
        · exact .inl ⟨rfl, by omega⟩
        · refine .inr (.inr ?_)
          intro h
          rcases List.take_eq_nil_iff.mp h with rfl | rfl
          · omega
          · simp at hd
      | inr h =>
        obtain ⟨-, he, -⟩ := h
        exact absurd he (hall _ _ (by simpa using hend rfl))
  bounded := by
    rintro s job src out closing ⟨-, -, h⟩
    cases hw : s.waiting with
    | none => simp_all
    | some left =>
      simp only [hw] at h
      have := hbound _ _ _ h.2.2
      rw [List.length_append] at this
      omega

theorem encoder_compact (hsound : ∀ job src out, encode job src = some out →
      ∃ f, F.frame job.history out = some f ∧ f.skippable = false ∧ f.content = src)
    {bound : Job π α → Nat} (hbound : ∀ job src out, encode job src = some out →
      out.length ≤ bound job) : (encoder F encode hsound).Compact bound := by
  intro s job src out closing input room hfed hadm hres _
  cases encodeStream_end hfed hadm room with
  | inl hclosed =>
    obtain ⟨due, he, hr⟩ := hclosed
    have hle := hbound _ _ _ he
    rw [List.length_append] at hle
    rw [hr]
    exact Nat.le_trans (Nat.add_le_add_left (List.length_take_le' _ _) _) hle
  | inr hrefused =>
    rw [hrefused.2.2] at hres
    cases hres

end Pyhdiff.Streaming.Reference
