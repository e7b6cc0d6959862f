import Pyhdiff.Guarantees.Deltas
import Pyhdiff.Guarantees.Frames
import Pyhdiff.Guarantees.Profiles

/-! Encodings without a base: `encode_base` and `compress` make one and the same
frame, and the decoders of both read it back. -/
namespace Pyhdiff.Guarantees
open Native Python Streaming

theorem compressProfile_allowed (Z : Zstd) (n : Nat) {level windowLog : Int} {checksum : Bool}
    (h : CompressDocumented level windowLog) :
    ∀ q ∈ zstdParameters Z (zstdOptionSet (compressProfile level windowLog checksum)) 0 n,
      q.1.Allows q.2 := by
  obtain ⟨hlevel, hwindow⟩ := h
  have hparams : zstdParameters Z (zstdOptionSet (compressProfile level windowLog checksum)) 0 n =
      [(.compressionLevel, level), (.nbWorkers, 0), (.contentSizeFlag, 1),
        (.checksumFlag, if checksum then 1 else 0)] ++
      if windowLog ≠ 0 then [(.windowLog, windowLog)] else [] := by
    have hset : zstdOptionSet (compressProfile level windowLog checksum) =
        ⟨level, windowLog, 0, 1, if checksum then 1 else 0, 0, 0, 0, 0, 0, 0, 0, 0⟩ := rfl
    simp [hset, zstdParameters, resolveWindow, resolveHashLog]
  rw [hparams]
  intro q hq
  simp only [List.mem_append, List.mem_cons, List.not_mem_nil, or_false,
    List.mem_ite_nil_right] at hq
  rcases hq with (rfl | rfl | rfl | rfl) | ⟨hset, rfl⟩
  · exact hlevel
  · rfl
  · exact .inr rfl
  · cases checksum with
    | false => exact .inl rfl
    | true => exact .inr rfl
  · simp only [CParameter.Allows]
    omega

section
variable {C : Host} {I : Interpreter} {F : Format UInt8} {base target : Bytes}

theorem zstdRun_returns (hheap : C.heap.Grants) (hobjects : ∀ n, I.bytesObject n = true)
    {o : Options} {limits : Limits} {out : Growable} {b : Bytes}
    (h : zstdEncode C.zstd C.heap C.passes base target o limits = .ok out)
    (hb : out.contents = b.map some) : zstdRun C I base target o limits = .ok b := by
  rw [zstdRun, h, ok_bind, out.release_ok hheap, call_eq_ok, Extension.finish_eq_ok]
  exact ⟨out.contents, rfl, hobjects _, by rw [hb, readCells_map_some]⟩

/-- One standard frame of the target, with no larger window than it needs. -/
structure Standalone (F : Format UInt8) (target b : Bytes) : Prop where
  bound : b.length ≤ payloadMax
  framed : ∃ f, F.frame [] b = some f ∧ f.skippable = false ∧ f.content = target ∧
    f.window ≤ max (2 ^ 10) (2 ^ Nat.clog 2 target.length)

theorem zstdRun_standalone (E : EncodingLaws C.zstd F) (hready : E.Ready)
    (hempty : E.TakesEmptyPrefix) (hfits : E.FitsWindow) (hflush : E.enc.Flushes compressBound)
    (hcompact : E.enc.Compact compressBound) (hheap : C.heap.Grants)
    (hobjects : ∀ n, I.bytesObject n = true) (htarget : target.length ≤ rawMax)
    (hpasses : 2 * target.length + target.length / 128 + 1024 < C.passes) {level windowLog : Int}
    (hdoc : CompressDocumented level windowLog) (checksum : Bool) :
    ∃ b, Standalone F target b ∧
      zstdRun C I [] target (zstdOptionSet (compressProfile level windowLog checksum))
        kCodecLimits = .ok b ∧
      zstdRun C I [] target (zstdOptionSet (compressProfile level windowLog checksum))
        kFrameLimits = .ok b := by
  let o := zstdOptionSet (compressProfile level windowLog checksum)
  have hcap : compressBound (encodeJob E [] target o) =
      target.length + target.length / 128 + 1024 := rfl
  have hbound : compressBound (encodeJob E [] target o) ≤ payloadMax := by
    unfold rawMax at htarget
    unfold payloadMax
    omega
  have hpasses' : target.length + compressBound (encodeJob E [] target o) < C.passes := by omega
  obtain ⟨out, hencode⟩ : ∃ out, zstdEncode C.zstd C.heap C.passes [] target o kCodecLimits =
      .ok out :=
    zstdEncode_ends hready hempty hflush hcompact hheap (compressProfile_allowed C.zstd _ hdoc)
      htarget (htarget.trans_lt (by decide)) hbound hpasses'
  obtain ⟨-, -, b, f, hencoded⟩ := zstdEncode_ok (E := E) hencode
  have hframe : zstdEncode C.zstd C.heap C.passes [] target o kFrameLimits = .ok out :=
    zstdEncode_mono (by decide) (by decide) hencode
  refine ⟨b, ⟨hencoded.bound, f, hencoded.frame, hencoded.standard, hencoded.content, ?_⟩,
    zstdRun_returns hheap hobjects hencode hencoded.contents,
    zstdRun_returns hheap hobjects hframe hencoded.contents⟩
  exact hfits hencoded.emits rfl

theorem Standalone.decompress {b : Bytes} (h : Standalone F target b) (D : DecodingLaws C.zstd F)
    (hctx : C.zstd.createDCtx ≠ none) (hheap : C.heap.Grants)
    (hobjects : ∀ n, I.bytesObject n = true) {m : Nat} (hle : target.length ≤ m)
    (hm : m ≤ frameMax) : Python.decompress (native C I) b m = .ok target := by
  obtain ⟨hbound, f, hf, -, hcontent, hwindow⟩ := h
  have hframe : payloadMax ≤ frameMax := by decide
  have haccepts : ∀ g ∈ [f], D.dec.accepts ⟨[], frameWindowLog m⟩ g := by
    simp only [List.forall_mem_singleton]
    exact D.dec.accepts_window (hwindow.trans (window_within (by omega) hm))
  have hspells : F.Spells b [f] := by
    simpa only [List.append_nil] using Format.Spells.cons hf .nil
  have hcontents : contents [f] = target := by
    rw [contents_cons, hcontent]
    exact List.append_nil target
  obtain ⟨out, hcall, hout⟩ := (frames_accepted (G := .source) D hheap hctx (F.ne_nil hf)
    (hbound.trans hframe) hm hspells haccepts).1 (by rw [hcontents]; exact hle)
  rw [hcontents] at hout
  exact decompress_returns hm hheap hobjects hcall hout

theorem Standalone.apply {b : Bytes} (h : Standalone F target b) (D : DecodingLaws C.zstd F)
    (hctx : C.zstd.createDCtx ≠ none) (hobjects : ∀ n, I.bytesObject n = true)
    (htarget : target.length ≤ rawMax) :
    Python.apply (native C I) [] (envelope .zstd [] target b) rawMax = .ok target := by
  obtain ⟨hbound, f, hf, hstandard, hcontent, hwindow⟩ := h
  have hframe : rawMax ≤ frameMax := by decide
  have hmost : frameWindowLog frameMax ≤ zstdWindowLogMax := (frameWindowLog_spec frameMax).1
  have hneeds : max (2 ^ 10) (2 ^ Nat.clog 2 target.length) ≤ 2 ^ frameWindowLog frameMax :=
    window_within (by omega) (Nat.le_refl _)
  have hcap : f.window ≤ 2 ^ zstdWindowLogMax :=
    (hwindow.trans hneeds).trans (Nat.pow_le_pow_right (by decide) hmost)
  exact apply_envelope D hctx (Nat.zero_le _) htarget hbound ⟨f, hf, hstandard, hcap, hcontent⟩
    (hobjects _) (by omega)

end

/-- The envelope path and the plain path are one encoder. Values that fit a C
`int` are accepted by both or refused by both; what is accepted makes the same
frame, and `decompress` reads that frame as `apply` reads the envelope. -/
theorem encodeBase_compress {C : Host} {I : Interpreter} {F : Format UInt8}
    (D : DecodingLaws C.zstd F) (E : EncodingLaws C.zstd F) (hready : E.Ready)
    (hempty : E.TakesEmptyPrefix) (hfits : E.FitsWindow) (hflush : E.enc.Flushes compressBound)
    (hcompact : E.enc.Compact compressBound) (hctx : C.zstd.createDCtx ≠ none)
    (hheap : C.heap.Grants) (hobjects : ∀ n, I.bytesObject n = true) {target : Bytes}
    (htarget : target.length ≤ rawMax)
    (hpasses : 2 * target.length + target.length / 128 + 1024 < C.passes) {level windowLog : Int}
    (hlevel : FitsInt level) (hwindow : FitsInt windowLog) (checksum : Bool) :
    (∃ blob, encodeBase (native C I) target (compressProfile level windowLog checksum) = .ok blob ∧
      Python.compress (native C I) target level windowLog checksum =
        .ok (blob.drop envelopeSize) ∧
      Python.apply (native C I) [] blob rawMax = .ok target ∧
      ∀ m : Int, target.length ≤ m → m ≤ frameMax →
        Python.decompress (native C I) (blob.drop envelopeSize) m =
          Python.apply (native C I) [] blob rawMax) ∨
    ((∃ message, encodeBase (native C I) target (compressProfile level windowLog checksum) =
        raise (.optionError message)) ∧
      ∃ message, Python.compress (native C I) target level windowLog checksum =
        raise (.optionError message)) := by
  have hbase : Parsed (call false (Extension.zstdEncode C I [] target
      (zstdArguments (compressProfile level windowLog checksum)))) _ _ _ := zstd_parsed _
  have hplain := compress_parsed (C := C) (I := I) target level windowLog checksum
  have hframe : rawMax ≤ frameMax := by decide
  rw [encodeBase, encodeDelta_zstd (Nat.zero_le _) htarget (.inl rfl),
    compress_eq (htarget.trans hframe)]
  by_cases hdoc : CompressDocumented level windowLog
  · left
    obtain ⟨b, hb, hcodec, hframed⟩ := zstdRun_standalone (I := I) E hready hempty hfits hflush
      hcompact hheap hobjects htarget hpasses hdoc checksum
    refine ⟨envelope .zstd [] target b, ?_, ?_, ?_⟩
    · rw [hbase.passed ((compressProfile_documented _ _ _).mpr hdoc), hcodec]
      rfl
    · rw [hplain.passed hdoc, hframed, envelope_drop]
    · have happly := hb.apply D hctx hobjects htarget
      refine ⟨happly, fun m hle hm => ?_⟩
      rw [happly, envelope_drop]
      obtain ⟨k, rfl⟩ := Int.eq_ofNat_of_zero_le (by omega : 0 ≤ m)
      exact hb.decompress D hctx hheap hobjects (by omega) (by omega)
  · right
    have hfields : ∀ v ∈ zstdFields (compressProfile level windowLog checksum), FitsInt v := by
      simp only [zstdFields, compressProfile, List.forall_mem_cons, List.not_mem_nil,
        false_implies, implies_true, and_true]
      exact ⟨hlevel, hwindow, by decide⟩
    obtain ⟨message, hraised⟩ := hbase.option hfields
      (hdoc ∘ (compressProfile_documented _ _ _).mp)
    exact ⟨⟨message, by rw [hraised]; rfl⟩, hplain.option ⟨hlevel, hwindow⟩ hdoc⟩

-- the frame of `abc` once more, with and without its envelope
theorem encodeBase_compress_abc : ∃ blob,
    encodeBase (native Stored.patient Stored.interpreter) [97, 98, 99] (compressProfile 3 0 false) =
      .ok blob ∧ blob.drop envelopeSize = Stored.abcFrame ∧
    Python.decompress (native Stored.patient Stored.interpreter) Stored.abcFrame 3 =
      Python.apply (native Stored.patient Stored.interpreter) [] blob rawMax := by
  have hcompress : Python.compress (native Stored.patient Stored.interpreter) [97, 98, 99] 3 0
      false = .ok Stored.abcFrame := by
    decide +kernel
  have h := encodeBase_compress (C := Stored.patient) (I := Stored.interpreter)
    Stored.decodingLaws Stored.encodingLaws Stored.encodingLaws_ready
    Stored.encodingLaws_takesEmptyPrefix Stored.encodingLaws_fitsWindow
    Stored.encodingLaws_flushes_bound Stored.encodingLaws_compact Stored.zstd_creates
    Stored.host_grants (fun _ => rfl) (by decide : ([97, 98, 99] : Bytes).length ≤ rawMax)
    (by decide) (by decide : FitsInt 3) (by decide : FitsInt 0) false
  rw [hcompress] at h
  cases h with
  | inl h =>
    obtain ⟨blob, hblob, hframe, -, hread⟩ := h
    rw [← Except.ok.inj hframe] at hread
    exact ⟨blob, hblob, (Except.ok.inj hframe).symm, hread 3 (by decide) (by decide)⟩
  | inr h =>
    obtain ⟨-, message, hraised⟩ := h
    cases hraised

end Pyhdiff.Guarantees
