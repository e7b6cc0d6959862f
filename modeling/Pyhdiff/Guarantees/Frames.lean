import Pyhdiff.Guarantees.Stored

/-! Concatenated frames under an output bound: what `frame_decompress` returns,
and `compress` and `decompress` between them. -/
namespace Pyhdiff.Guarantees
open Native Python Streaming

/-- The same library, with other answers about the content size a frame claims. -/
def claiming (Z : Zstd) (claimed : Bytes → Nat) : Zstd := { Z with getFrameContentSize := claimed }

def lawsClaiming {Z : Zstd} {F : Format UInt8} (D : DecodingLaws Z F) (claimed : Bytes → Nat) :
    DecodingLaws (claiming Z claimed) F :=
  ⟨D.dec, D.created, D.windowSet, D.prefixSet, D.header⟩

section
variable {Z : Zstd} {F : Format UInt8} {heap : Heap} {G : Growth} {src : Bytes} {maxOutput : Nat}

theorem frames_accepted (D : DecodingLaws Z F) (hheap : heap.Grants) (hctx : Z.createDCtx ≠ none)
    (hne : src ≠ []) (hlen : src.length ≤ frameMax) (hmax : maxOutput ≤ frameMax)
    {fs : List (Frame UInt8)} (hspells : F.Spells src fs)
    (haccepts : ∀ f ∈ fs, D.dec.accepts ⟨[], frameWindowLog maxOutput⟩ f) :
    ((contents fs).length ≤ maxOutput → ∃ out, frameDecompressWith Z heap G src maxOutput = .ok out ∧
      out.contents = (contents fs).map some) ∧
    (maxOutput < (contents fs).length → frameDecompressWith Z heap G src maxOutput = fail .limit) := by
  have hverdict : Verdict D (frameWindowLog maxOutput) maxOutput fs
      (frameDecompressWith Z heap G src maxOutput) :=
    frameDecompressWith_complete D hheap hctx hne hlen hmax hspells (fun f hf _ => haccepts f hf)
      fun ⟨f, hf, hno⟩ => absurd (haccepts f hf) hno
  unfold Verdict at hverdict
  constructor
  · intro hle
    rwa [if_pos hle] at hverdict
  · intro hlt
    rw [if_neg (Nat.not_le_of_lt hlt)] at hverdict
    cases hverdict with
    | inl h => exact h
    | inr h =>
      obtain ⟨-, f, hf, hno⟩ := h
      exact absurd (haccepts f hf) hno

theorem frames_iff (D : DecodingLaws Z F) (hstrict : D.dec.Strict) (hheap : heap.Grants)
    (hctx : Z.createDCtx ≠ none) (hne : src ≠ []) (hlen : src.length ≤ frameMax)
    (hmax : maxOutput ≤ frameMax) (c : Cells) :
    (frameDecompressWith Z heap G src maxOutput).toOption.map Growable.contents = some c ↔
      ∃ fs, F.Spells src fs ∧ (∀ f ∈ fs, D.dec.accepts ⟨[], frameWindowLog maxOutput⟩ f) ∧
        (contents fs).length ≤ maxOutput ∧ c = (contents fs).map some := by
  constructor
  · intro h
    cases hcall : frameDecompressWith Z heap G src maxOutput with
    | error e => simp [hcall, Except.toOption] at h
    | ok out =>
      obtain ⟨⟨fs, -, hspells, haccepts, hcontents⟩, hsize⟩ :=
        frameDecompressWith_sound D (hstrict _) hcall
      rw [hcall] at h
      have hc : out.contents = c := by simpa [Except.toOption] using h
      refine ⟨fs, hspells, haccepts, ?_, hc ▸ hcontents⟩
      have hlength := congrArg List.length hcontents
      rw [Growable.contents_length, List.length_map] at hlength
      omega
  · rintro ⟨fs, hspells, haccepts, hle, rfl⟩
    obtain ⟨out, hcall, hcontents⟩ :=
      (frames_accepted (G := G) D hheap hctx hne hlen hmax hspells haccepts).1 hle
    rw [hcall]
    simp [Except.toOption, hcontents]

/-- `frame_decompress` is exact. What it returns is the content of the frames
that its source spells to the last byte, within the bound. Frames within its
window limit are decoded, or refused for passing the bound and nothing else. Where the
split does not decide what zstd accepts, neither the claimed content size nor
the growth of the block matters for any source. -/
theorem frameDecompress_exact (D : DecodingLaws Z F) (hne : src ≠ []) (hlen : src.length ≤ frameMax)
    (hmax : maxOutput ≤ frameMax) (heap : Heap) (G : Growth) (claimed : Bytes → Nat) :
    let call := frameDecompressWith (claiming Z claimed) heap G src maxOutput
    (∀ out, call = .ok out → ∃ fs, fs ≠ [] ∧ F.Spells src fs ∧
      out.contents = (contents fs).map some ∧ out.size ≤ maxOutput) ∧
    (heap.Grants → Z.createDCtx ≠ none →
      (∀ fs, F.Spells src fs → (∀ f ∈ fs, f.window ≤ 2 ^ frameWindowLog maxOutput) →
        ((contents fs).length ≤ maxOutput →
          ∃ out, call = .ok out ∧ out.contents = (contents fs).map some) ∧
        (maxOutput < (contents fs).length → call = fail .limit)) ∧
      (D.dec.Strict → call.toOption.map Growable.contents =
        (frameDecompress Z heap src maxOutput).toOption.map Growable.contents)) := by
  intro call
  refine ⟨?_, fun hheap hctx => ⟨?_, fun hstrict => ?_⟩⟩
  · intro out h
    obtain ⟨⟨fs, hfs, hspells, -, hcontents⟩, hsize⟩ :=
      frameDecompressWith_sound (lawsClaiming D claimed) (D.dec.endsOnly_any _) h
    exact ⟨fs, hfs, hspells, hcontents, hsize⟩
  · intro fs hspells hwindow
    exact frames_accepted (lawsClaiming D claimed) hheap hctx hne hlen hmax hspells
      fun f hf => D.dec.accepts_window (hwindow f hf)
  · refine Option.ext fun c => ?_
    exact (frames_iff (lawsClaiming D claimed) hstrict hheap hctx hne hlen hmax c).trans
      (frames_iff (G := .source) D hstrict hheap hctx hne hlen hmax c).symm

end

-- a frame at the bound, a skippable frame and an empty frame
theorem frameDecompress_exact_abc :
    ∃ out, frameDecompressWith (claiming Stored.zstd fun _ => 7) Stored.host.heap .source
      (Stored.abcFrame ++ ([0x50, 0x2A, 0x4D, 0x18, 1, 0, 0, 0, 0] ++
        [0x28, 0xB5, 0x2F, 0xFD, 0x20, 0, 1, 0, 0])) 3 = .ok out ∧
      out.contents = [some 97, some 98, some 99] := by
  have hspells : Stored.format.Spells (Stored.abcFrame ++
      ([0x50, 0x2A, 0x4D, 0x18, 1, 0, 0, 0, 0] ++ ([0x28, 0xB5, 0x2F, 0xFD, 0x20, 0, 1, 0, 0] ++ [])))
      [Stored.sized [97, 98, 99], Stored.skippable, Stored.sized []] :=
    .cons (Stored.abcFrame_frame []) (.cons rfl (.cons rfl .nil))
  exact (((frameDecompress_exact Stored.decodingLaws (by decide) (by decide) (by decide)
    Stored.host.heap .source fun _ => 7).2 Stored.host_grants Stored.zstd_creates).1 _ hspells
    (by decide)).1 (by decide)

/-- Strings compressed one by one and joined in order, with skippable frames
among them: the stream, and what the strings were joined. -/
inductive Joined (Z : Zstd) (F : Format UInt8) : Bytes → Bytes → Prop
  | nil : Joined Z F [] []
  | compressed {hdiff : HDiffPatch} {heap : Heap} {passes : Nat} {I : Interpreter}
      {d b stream total : Bytes} {level windowLog : Int} {checksum : Bool} :
      Python.compress (native ⟨Z, hdiff, heap, passes⟩ I) d level windowLog checksum = .ok b →
      Joined Z F stream total → Joined Z F (b ++ stream) (d ++ total)
  | skipped {b stream total : Bytes} {f : Frame UInt8} :
      F.frame [] b = some f → f.skippable = true →
      Joined Z F stream total → Joined Z F (b ++ stream) total

section
variable {Z : Zstd} {F : Format UInt8} {stream total : Bytes}

theorem compress_frame (E : EncodingLaws Z F) (hfits : E.FitsWindow) {hdiff : HDiffPatch}
    {heap : Heap} {passes : Nat} {I : Interpreter} {d b : Bytes} {level windowLog : Int}
    {checksum : Bool}
    (h : Python.compress (native ⟨Z, hdiff, heap, passes⟩ I) d level windowLog checksum = .ok b) :
    ∃ f, F.frame [] b = some f ∧ f.content = d ∧
      f.window ≤ max (2 ^ 10) (2 ^ Nat.clog 2 f.content.length) := by
  unfold Python.compress at h
  split at h
  · cases h
  simp only [call_eq_ok, native, Extension.compress, bind_eq_ok, Extension.finish_eq_ok] at h
  obtain ⟨l, -, w, -, c, -, cells, hcompress, -, rfl⟩ := h
  obtain ⟨options, b, f, out, hencoded, rfl⟩ :=
    Host.phdZstdCompress_ok (C := ⟨Z, hdiff, heap, passes⟩) E hcompress
  rw [readCells_map_some]
  refine ⟨f, hencoded.frame, hencoded.content, ?_⟩
  rw [hencoded.content]
  exact hfits hencoded.emits rfl

theorem joined_spells (E : EncodingLaws Z F) (hfits : E.FitsWindow) (h : Joined Z F stream total) :
    ∃ fs, F.Spells stream fs ∧ contents fs = total ∧
      ∀ f ∈ fs, f.window ≤ max (2 ^ 10) (2 ^ Nat.clog 2 f.content.length) := by
  induction h with
  | nil => exact ⟨[], .nil, rfl, by simp⟩
  | compressed hcompress _ ih =>
    obtain ⟨fs, hspells, hcontents, hwindows⟩ := ih
    obtain ⟨f, hf, hcontent, hwindow⟩ := compress_frame E hfits hcompress
    exact ⟨f :: fs, .cons hf hspells, by rw [contents_cons, hcontent, hcontents],
      List.forall_mem_cons.mpr ⟨hwindow, hwindows⟩⟩
  | @skipped b stream total f hf hskip _ ih =>
    obtain ⟨fs, hspells, hcontents, hwindows⟩ := ih
    obtain ⟨hcontent, hwindow⟩ := f.skip hskip
    exact ⟨f :: fs, .cons hf hspells, by rw [contents_cons, hcontent, hcontents, List.nil_append],
      List.forall_mem_cons.mpr ⟨by rw [hwindow]; exact Nat.zero_le _, hwindows⟩⟩

theorem window_within {n maxOutput : Nat} (hn : n ≤ max 1 maxOutput) (hmax : maxOutput ≤ frameMax) :
    max (2 ^ 10) (2 ^ Nat.clog 2 n) ≤ 2 ^ frameWindowLog maxOutput := by
  have hcover := (frameWindowLog_spec maxOutput).2 hmax
  refine Nat.max_le.mpr ⟨?_, ?_⟩
  · exact Nat.pow_le_pow_right (by decide) ((by decide : 10 ≤ 23).trans (le_frameWindowLog _))
  · have hone : 1 ≤ 2 ^ frameWindowLog maxOutput := Nat.one_le_two_pow
    exact Nat.pow_le_pow_right (by decide)
      (Nat.clog_le_of_le_pow (hn.trans (Nat.max_le.mpr ⟨hone, hcover⟩)))

end

section
variable {C : Host} {I : Interpreter} {data : Bytes} {m : Nat}

theorem phdZstdDecompress_ok (hheap : C.heap.Grants) {cells : Cells} :
    C.phdZstdDecompress data m = .ok (.ok cells) ↔
      (frameDecompress C.zstd C.heap data m).toOption.map Growable.contents = some cells := by
  rw [Host.phdZstdDecompress, boundary_ok_iff, bind_eq_ok]
  cases frameDecompress C.zstd C.heap data m with
  | error e => simp [Except.toOption]
  | ok out => simp [Except.toOption, out.release_ok hheap]

theorem decompress_fails (hm : m ≤ frameMax) {s : Status}
    (h : frameDecompress C.zstd C.heap data m = fail s) :
    Python.decompress (native C I) data m = raise (exceptionOf s.code true) := by
  rw [decompress_eq hm, Host.phdZstdDecompress, h]
  rfl

theorem decompress_returns (hm : m ≤ frameMax) (hheap : C.heap.Grants)
    (hobjects : ∀ n, I.bytesObject n = true) {out : Growable} {b : Bytes}
    (h : frameDecompress C.zstd C.heap data m = .ok out) (hb : out.contents = b.map some) :
    Python.decompress (native C I) data m = .ok b := by
  rw [decompress_eq hm, call_eq_ok, Extension.finish_eq_ok]
  refine ⟨b.map some, (phdZstdDecompress_ok hheap).mpr ?_, hobjects _, (readCells_map_some _ _).symm⟩
  rw [h, ← hb]
  rfl

end

/-- Decompressing undoes compressing piece by piece, exactly up to the bound:
one byte less and it is the bound that is reported, also where the decoder
refuses the window of a frame too long for it. -/
theorem decompress_joined {C : Host} {I : Interpreter} {F : Format UInt8}
    (D : DecodingLaws C.zstd F) (E : EncodingLaws C.zstd F) (hfits : E.FitsWindow)
    (hrefuses : D.Refuses) (hctx : C.zstd.createDCtx ≠ none) (hheap : C.heap.Grants)
    (hobjects : ∀ n, I.bytesObject n = true) {stream total : Bytes}
    (hjoined : Joined C.zstd F stream total) (hne : stream ≠ []) (hlen : stream.length ≤ frameMax)
    {m : Nat} (hm : m ≤ frameMax) :
    (total.length ≤ m → Python.decompress (native C I) stream m = .ok total) ∧
    (m < total.length →
      ∃ message, Python.decompress (native C I) stream m = raise (.limitError message)) := by
  obtain ⟨fs, hspells, rfl, hwindows⟩ := joined_spells E hfits hjoined
  have hverdict : Verdict D (frameWindowLog m) m fs (frameDecompress C.zstd C.heap stream m) :=
    frameDecompressWith_complete D hheap hctx hne hlen hm hspells
      (fun f hf hle => D.dec.accepts_window ((hwindows f hf).trans (window_within hle hm)))
      (fun _ => hrefuses)
  unfold Verdict at hverdict
  constructor
  · intro hle
    rw [if_pos hle] at hverdict
    obtain ⟨out, h, hcontents⟩ := hverdict
    exact decompress_returns hm hheap hobjects h hcontents
  · intro hlt
    rw [if_neg (Nat.not_le_of_lt hlt)] at hverdict
    cases hverdict with
    | inl h => exact ⟨_, decompress_fails hm h⟩
    | inr h =>
      obtain ⟨h, -⟩ := h
      exact ⟨_, decompress_fails hm h⟩

theorem decompress_joined_abc :
    Python.decompress (native Stored.host Stored.interpreter)
        (Stored.abcFrame ++ [0x50, 0x2A, 0x4D, 0x18, 1, 0, 0, 0, 0]) 3 = .ok [97, 98, 99] ∧
      ∃ message, Python.decompress (native Stored.host Stored.interpreter)
        (Stored.abcFrame ++ [0x50, 0x2A, 0x4D, 0x18, 1, 0, 0, 0, 0]) 2 = raise (.limitError message) := by
  have hjoined : Joined Stored.zstd Stored.format
      (Stored.abcFrame ++ ([0x50, 0x2A, 0x4D, 0x18, 1, 0, 0, 0, 0] ++ [])) ([97, 98, 99] ++ []) :=
    .compressed Stored.compress_abc (.skipped (f := Stored.skippable) rfl rfl .nil)
  have h := fun {m : Nat} => decompress_joined (C := Stored.host) (I := Stored.interpreter) (m := m)
    Stored.decodingLaws Stored.encodingLaws Stored.encodingLaws_fitsWindow
    Stored.decodingLaws_refuses Stored.zstd_creates Stored.host_grants (fun _ => rfl) hjoined
    (by decide) (by decide)
  exact ⟨(h (m := 3) (by decide)).1 (by decide), (h (m := 2) (by decide)).2 (by decide)⟩

end Pyhdiff.Guarantees
