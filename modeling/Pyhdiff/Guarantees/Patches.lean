import Pyhdiff.Guarantees.Deltas
import Pyhdiff.Guarantees.Profiles
import Pyhdiff.Guarantees.Whole
import Pyhdiff.Native.PlainDiff

/-! Codec 1 over plain files: the streams and the plugin hide nothing from
HDiffPatch, and what it guarantees over files holds through the package. -/
namespace Pyhdiff.Guarantees
open Native Python Streaming

section
variable {C : Host} {base patch : Bytes} {tn : Nat} {d : OutObject}

theorem phdHdiffApply_ok : C.phdHdiffApply base patch (.fresh tn) = .ok (.ok d) ↔
    hdiffApply C.zstd C.hdiff C.heap base patch (.fresh tn) = .ok d := by
  have hfresh : (OutObject.fresh tn).cells.length = tn := (OutObject.fresh_wrote tn).length
  unfold Host.phdHdiffApply Host.applyInto
  simp only [boundary_ok_iff, bind_eq_ok, require_eq_ok, hfresh, Bool.false_eq_true, if_false]
  constructor
  · rintro ⟨-, -, h⟩
    exact h
  · intro h
    have happly := h
    rw [hdiffApply_eq, bind_eq_ok] at happly
    obtain ⟨info, hgate, -⟩ := happly
    obtain ⟨⟨-, htn, -⟩, -⟩ := hdiffGate_eq_ok.mp hgate
    exact ⟨(), hfresh ▸ htn, h⟩

end

/-- The header of the payload passes, and patching plain files with it, where a
range that is opened holds one accepted frame, goes well and leaves `d`. -/
def PatchesFiles (F : Format UInt8) (accepts : Frame UInt8 → Prop) [DecidablePred accepts] (C : Host)
    (base patch : Bytes) (tn : Nat) (d : OutObject) : Prop :=
  (base.length ≤ rawMax ∧ tn ≤ rawMax ∧ patch.length ≤ payloadMax) ∧
  ∃ info, C.hdiff.getSingleCompressedDiffInfo patch = some info ∧
    info.Passes base.length tn patch.length ∧
    C.heap.new (info.stepMemSize + C.hdiff.kStreamCacheSize * 3) = true ∧
    plainPatch F accepts C.hdiff base patch info (.fresh tn) = some d

/-- `hdiff_apply` is patching of plain files: the chunks in which the source is
read, the frame decoded and the parts are asked for do not show. With a client
that approves of nothing it could not close, it accepts only what patches files
so, with the same result; it accepts all that does so with frames within the
window limit; and these are the same where the payload holds no other frames. -/
theorem phdHdiffApply_plain {C : Host} {F : Format UInt8} (D : DecodingLaws C.zstd F)
    (hctx : C.zstd.createDCtx ≠ none) (hH : C.hdiff.Diligent) (base patch : Bytes) (tn : Nat)
    (d : OutObject) :
    let accepted := C.phdHdiffApply base patch (.fresh tn) = .ok (.ok d)
    let fits : Frame UInt8 → Prop := fun f => f.window ≤ 2 ^ hdiffWindowLogMax
    (accepted → PatchesFiles F (fun _ => True) C base patch tn d) ∧
    (PatchesFiles F fits C base patch tn d → accepted) ∧
    ((∀ b e f, F.frame [] ((patch.drop b).take (e - b)) = some f → fits f) →
      (accepted ↔ PatchesFiles F (fun _ => True) C base patch tn d)) := by
  intro accepted fits
  have hfresh : (OutObject.fresh tn).cells.length = tn := (OutObject.fresh_wrote tn).length
  have hsound : accepted → PatchesFiles F (fun _ => True) C base patch tn d := by
    intro h
    have happly := phdHdiffApply_ok.mp h
    rw [hdiffApply_eq, bind_eq_ok, hfresh] at happly
    obtain ⟨info, hgate, hpatch⟩ := happly
    obtain ⟨hlimits, hparsed, hpasses⟩ := hdiffGate_eq_ok.mp hgate
    exact ⟨hlimits, info, hparsed, hpasses, (hdiffPatch_eq_ok.mp hpatch).1,
      plain_of_hdiffPatch D hH hpatch⟩
  have hcomplete : PatchesFiles F fits C base patch tn d → accepted := by
    rintro ⟨hlimits, info, hparsed, hpasses, hcache, hplain⟩
    refine phdHdiffApply_ok.mpr ?_
    rw [hdiffApply_eq, bind_eq_ok, hfresh]
    exact ⟨info, hdiffGate_eq_ok.mpr ⟨hlimits, hparsed, hpasses⟩,
      hdiffPatch_of_plain hctx (fun h => D.dec.accepts_window h) hcache hplain⟩
  refine ⟨hsound, hcomplete, fun hfits => ⟨hsound, fun h => hcomplete ?_⟩⟩
  obtain ⟨hlimits, info, hparsed, hpasses, hcache, hplain⟩ := h
  rw [plainPatch_congr fun b e f hf => iff_of_true trivial (hfits b e f hf)] at hplain
  exact ⟨hlimits, info, hparsed, hpasses, hcache, hplain⟩

-- the patch of `abc` against nothing, and the same one with its last byte missing
theorem phdHdiffApply_plain_abc :
    let content := Whole.content [97, 98, 99]
    Whole.host.phdHdiffApply [] (Whole.header 3 0 0 ++ content) (.fresh 3) =
        .ok (.ok ⟨[some 97, some 98, some 99], [0, 1, 2]⟩) ∧
      ∀ d, Whole.host.phdHdiffApply [] (Whole.header 3 0 0 ++ content.dropLast) (.fresh 3) ≠
        .ok (.ok d) := by
  have h := @phdHdiffApply_plain Whole.host Stored.format Stored.decodingLaws
    Stored.zstd_creates Whole.library_diligent []
  have hparse := fun data => @Whole.header_fields 3 0 0 data (by decide) (by decide) (by decide)
  refine ⟨(h _ 3 _).2.1 ⟨by decide, _, hparse _, ?_, rfl, ?_⟩, fun d hd => ?_⟩
  · exact ⟨rfl, rfl, by decide, by decide, .inr rfl, ⟨by decide, by decide⟩, .inl rfl⟩
  · have hread : readFile (Whole.header 3 0 0 ++ Whole.content [97, 98, 99])
        (Whole.header 3 0 0).length ((Whole.steps 3).length + 3) = some (Whole.content [97, 98, 99]) := rfl
    refine plainPatch_eq_some.mpr ((if_neg (not_not.mpr rfl)).trans ?_)
    exact @Whole.copy_plain _ _ _ [] _ [97, 98, 99] _ rfl hread
  · obtain ⟨-, info, hparsed, hpasses, -⟩ := (h _ 3 d).1 hd
    obtain rfl := Option.some.inj ((hparse _).symm.trans hparsed)
    exact absurd hpasses.fits (by decide)

/-- `hdiff_encode` is diffing of plain files. Whatever it returns the library
could have left in a file, with a compression no more than a frame of its source
put there; and it does return where the library behaves over files. -/
theorem phdHdiffEncode_plain {C : Host} {F : Format UInt8} (E : EncodingLaws C.zstd F)
    (hhonors : E.HonorsWindowLog) (base target : Bytes) (p : HDiffOptions) :
    let client := C.hdiff.createSingleCompressedDiffBlock p.stepBytes p.fastBlockBytes p.matchScore
    (∀ cells, C.phdHdiffEncode base target p = .ok (.ok cells) → p.Documented ∧
      ∃ patch : Bytes, cells = patch.map some ∧ patch.length ≤ payloadMax ∧
        client.Leaves F target base [] patch) ∧
    (p.Documented → base.length ≤ rawMax → target.length ≤ rawMax → C.heap.Grants → E.Ready →
      E.enc.Flushes compressBound → client.Behaves F C.passes target base [] →
      ∃ cells, C.phdHdiffEncode base target p = .ok (.ok cells)) := by
  intro client
  simp only [Host.phdHdiffEncode, boundary_ok_iff, bind_eq_ok]
  refine ⟨fun cells h => ?_, fun hdoc hbase htarget hheap hready hflush hbehaves => ?_⟩
  · obtain ⟨o, ho, out, hencode, hrelease⟩ := h
    obtain ⟨hdoc, rfl⟩ := hdiffOptions_eq_ok.mp ho
    obtain ⟨patch, hcontents, hbound, hleaves⟩ := hdiffEncode_leaves hhonors ho hencode
    exact ⟨hdoc, patch, (Growable.release_eq_ok hrelease).trans hcontents, hbound, hleaves⟩
  · have ho : hdiffOptions p = .ok p.options := hdiffOptions_eq_ok.mpr ⟨hdoc, rfl⟩
    obtain ⟨out, hencode⟩ :=
      hdiffEncode_ends (H := C.hdiff) hhonors hready hflush hheap ho hbase htarget hbehaves
    exact ⟨out.contents, _, ho, out, hencode, out.release_ok hheap⟩

theorem phdHdiffEncode_plain_abc : ∃ patch : Bytes,
    Whole.host.phdHdiffEncode [] [97, 98, 99] ⟨6, 19, 23, 1024, 262144, 1, 0⟩ =
        .ok (.ok (patch.map some)) ∧
      Whole.create.Leaves Stored.format [97, 98, 99] [] [] patch := by
  obtain ⟨hsound, hends⟩ := @phdHdiffEncode_plain Whole.host Stored.format Stored.encodingLaws
    Stored.encodingLaws_honorsWindowLog [] [97, 98, 99] ⟨6, 19, 23, 1024, 262144, 1, 0⟩
  obtain ⟨cells, hcells⟩ := hends (hdiffOptions_eq_ok.mp rfl).1 (by decide) (by decide)
    Stored.host_grants Stored.encodingLaws_ready Stored.encodingLaws_flushes_bound
    (Whole.create_behaves (by decide) (by decide) (by decide))
  obtain ⟨-, patch, rfl, -, hleaves⟩ := hsound cells hcells
  exact ⟨patch, hcells, hleaves⟩

section
variable {C : Host} {I : Interpreter} {F : Format UInt8} {base target : Bytes}

/-- The payload is a patch of the base that the library may leave for the target. -/
def Patches (F : Format UInt8) (H : HDiffPatch) (base target payload : Bytes) : Prop :=
  payload.length ≤ payloadMax ∧ ∃ p : HDiffOptions, p.Documented ∧
    (H.createSingleCompressedDiffBlock p.stepBytes p.fastBlockBytes p.matchScore).Leaves F target base
      [] payload

theorem hdiffEncode_patches (E : EncodingLaws C.zstd F) (hhonors : E.HonorsWindowLog)
    {payload : Bytes} {args : HDiffOptions}
    (h : Extension.hdiffEncode C I base target args = .ok payload) :
    Patches F C.hdiff base target payload := by
  rw [hdiffEncode_parses] at h
  split at h
  · obtain ⟨cells, hcells, -, rfl⟩ := Extension.finish_eq_ok.mp h
    obtain ⟨hdoc, patch, rfl, hbound, hleaves⟩ :=
      (phdHdiffEncode_plain E hhonors base target args).1 cells hcells
    rw [readCells_map_some]
    exact ⟨hbound, args, hdoc, hleaves⟩
  · cases h

theorem hdiffApply_patches (D : DecodingLaws C.zstd F) (hctx : C.zstd.createDCtx ≠ none)
    (hheap : C.heap.Grants) (hcorrect : C.hdiff.Correct F) {payload : Bytes}
    (hbase : base.length ≤ rawMax) (htarget : target.length ≤ rawMax)
    (h : Patches F C.hdiff base target payload) : ∃ d : OutObject, d.cells = target.map some ∧
      C.applyInto false base payload (.fresh target.length) = .ok (.ok d) := by
  obtain ⟨hbound, p, hdoc, hleaves⟩ := h
  obtain ⟨info, d, hparsed, hpasses, hplain, hcells⟩ := hcorrect hdoc hbase htarget hleaves hbound
  have hfresh : (OutObject.fresh target.length).cells.length = target.length :=
    (OutObject.fresh_wrote _).length
  refine ⟨d, hcells, phdHdiffApply_ok.mpr ?_⟩
  rw [hdiffApply_eq, bind_eq_ok, hfresh]
  exact ⟨info, hdiffGate_eq_ok.mpr ⟨⟨hbase, htarget, hbound⟩, hparsed, hpasses⟩,
    hdiffPatch_of_plain hctx (fun h => D.dec.accepts_window h) (hheap.2 _) hplain⟩

theorem apply_patch (D : DecodingLaws C.zstd F) (hctx : C.zstd.createDCtx ≠ none)
    (hheap : C.heap.Grants) (hcorrect : C.hdiff.Correct F) {payload : Bytes}
    (hbase : base.length ≤ rawMax) (htarget : target.length ≤ rawMax)
    (h : Patches F C.hdiff base target payload) (hobject : I.bytesObject target.length = true)
    {m : Int} (hm : target.length ≤ m) :
    Python.apply (native C I) base (envelope .hdiff base target payload) m = .ok target := by
  obtain ⟨d, hcells, hinto⟩ := hdiffApply_patches D hctx hheap hcorrect hbase htarget h
  have happly : Extension.apply C I false base (envelope .hdiff base target payload) envelopeSize
      target.length = .ok target := by
    rw [Extension.apply_eq (by rw [envelope_length]; omega) (by decide) htarget,
      if_neg (not_not.mpr hobject), envelope_drop, hinto]
    simp only [hcells, readCells_map_some, pure_ok]
  have hbound : (target.length : Int) ≤ min m rawMax := by omega
  rw [apply_eq (inspect_encoded .hdiff hbase htarget h.1) rfl hbound rfl]
  simp [call_eq_ok.mpr happly]

end

/-- The round trip of codec 1. With a library that is correct over files, every
delta is applied to its target under the bounds that admit it, and refused for
the bound under the others, whatever parts the library asks for. And a documented
profile gets its delta where the library behaves over files. -/
theorem apply_encodeDelta_hdiff {C : Host} {I : Interpreter} {F : Format UInt8}
    (D : DecodingLaws C.zstd F) (E : EncodingLaws C.zstd F) (hhonors : E.HonorsWindowLog)
    (hctx : C.zstd.createDCtx ≠ none) (hheap : C.heap.Grants)
    (hobjects : ∀ n, I.bytesObject n = true) (hcorrect : C.hdiff.Correct F) (base target : Bytes)
    (profile : HDiffProfile) :
    (∀ heap passes J blob,
      encodeDelta (native ⟨C.zstd, C.hdiff, heap, passes⟩ J) base target (.hdiff profile) = .ok blob →
      ∀ m : Int, (target.length ≤ m → Python.apply (native C I) base blob m = .ok target) ∧
        (m < target.length → Python.apply (native C I) base blob m =
          raise (.limitError "target length exceeds the output limit"))) ∧
    (HDiffDocumented profile → base.length ≤ rawMax → target.length ≤ rawMax → E.Ready →
      E.enc.Flushes compressBound →
      (C.hdiff.createSingleCompressedDiffBlock profile.stepBytes profile.fastBlockBytes
        profile.matchScore).Behaves F C.passes target base [] →
      ∃ blob, encodeDelta (native C I) base target (.hdiff profile) = .ok blob) := by
  refine ⟨fun heap passes J blob h m => ?_, fun hdoc hbase htarget hready hflush hbehaves => ?_⟩
  · obtain ⟨hbase, htarget, payload, rfl, hencode⟩ := encodeDelta_ok h
    have hpatches : Patches F C.hdiff base target payload :=
      hdiffEncode_patches (C := ⟨C.zstd, C.hdiff, heap, passes⟩) E hhonors hencode
    refine ⟨apply_patch D hctx hheap hcorrect hbase htarget hpatches (hobjects _), fun hm => ?_⟩
    unfold Python.apply
    rw [Profile.codec, inspect_encoded .hdiff hbase htarget hpatches.1, ok_bind, if_neg (by simp),
      if_pos (by simp only; omega)]
  · obtain ⟨cells, hcells⟩ := (phdHdiffEncode_plain E hhonors base target (hdiffArgs profile)).2
      ((hdiffArgs_documented profile).mpr hdoc) hbase htarget hheap hready hflush hbehaves
    have hfits : ∀ v ∈ [(hdiffArgs profile).matchScore, (hdiffArgs profile).level,
        (hdiffArgs profile).windowLog, (hdiffArgs profile).fastBlockBytes,
        (hdiffArgs profile).stepBytes, (hdiffArgs profile).contentSize,
        (hdiffArgs profile).checksum], FitsInt v := by
      have := hdoc.fits
      simp only [hdiffFields, List.forall_mem_cons] at this
      simp only [hdiffArgs, List.forall_mem_cons, fitsInt_toInt]
      simp [this]
    have hencode : Extension.hdiffEncode C I base target (hdiffArgs profile) =
        .ok (readCells I.stale cells) := by
      rw [hdiffEncode_parses, if_pos hfits]
      exact Extension.finish_eq_ok.mpr ⟨cells, hcells, hobjects _, rfl⟩
    have hcall : call false ((native C I).hdiffEncode base target (hdiffArgs profile)) =
        .ok (readCells I.stale cells) := call_eq_ok.mpr hencode
    refine ⟨envelope .hdiff base target (readCells I.stale cells), ?_⟩
    unfold encodeDelta
    rw [if_neg (by omega)]
    dsimp only
    rw [hcall]
    rfl

-- `abc`, and a bound one below its size
theorem apply_encodeDelta_hdiff_abc : ∃ blob,
    encodeDelta (native Whole.host Stored.interpreter) [1, 2] [97, 98, 99] (.hdiff {}) = .ok blob ∧
      Python.apply (native Whole.host Stored.interpreter) [1, 2] blob 3 = .ok [97, 98, 99] ∧
      Python.apply (native Whole.host Stored.interpreter) [1, 2] blob 2 =
        raise (.limitError "target length exceeds the output limit") := by
  obtain ⟨happly, hencode⟩ := @apply_encodeDelta_hdiff Whole.host Stored.interpreter Stored.format
    Stored.decodingLaws Stored.encodingLaws Stored.encodingLaws_honorsWindowLog
    Stored.zstd_creates Stored.host_grants (fun _ => rfl) (Whole.library_correct _) [1, 2]
    [97, 98, 99] {}
  obtain ⟨blob, hblob⟩ := hencode
    ⟨by decide, by decide, by decide, by decide, by decide⟩ (by decide) (by decide)
    Stored.encodingLaws_ready Stored.encodingLaws_flushes_bound
    (Whole.create_behaves (by decide) (by decide) (by decide))
  obtain ⟨h3, -⟩ := happly _ _ _ blob hblob 3
  obtain ⟨-, h2⟩ := happly _ _ _ blob hblob 2
  exact ⟨blob, hblob, h3 (by decide), h2 (by decide)⟩

end Pyhdiff.Guarantees
