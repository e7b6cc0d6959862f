import Pyhdiff.Guarantees.Stored

/-! Codec 2: which payloads `zstd_apply` accepts, and the round trip through
the envelope. -/
namespace Pyhdiff.Guarantees
open Native Python Streaming

/-- The payload, all of it, is one standard frame that gives the content under
the base, with a window the bridge decodes. -/
def Reconstructs (F : Format UInt8) (base payload content : Bytes) : Prop :=
  ∃ f, F.frame base payload = some f ∧ f.skippable = false ∧
    f.window ≤ 2 ^ zstdWindowLogMax ∧ f.content = content

section
variable {F : Format UInt8} {base payload content : Bytes}

theorem Reconstructs.unique {content' : Bytes} (h : Reconstructs F base payload content)
    (h' : Reconstructs F base payload content') : content = content' := by
  obtain ⟨f, hf, -, -, rfl⟩ := h
  obtain ⟨g, hg, -, -, rfl⟩ := h'
  obtain rfl := Option.some.inj (hf.symm.trans hg)
  rfl

theorem Reconstructs.whole {rest content' : Bytes} (h : Reconstructs F base payload content)
    (h' : Reconstructs F base (payload ++ rest) content') : rest = [] := by
  obtain ⟨f, hf, -⟩ := h
  obtain ⟨g, hg, -⟩ := h'
  exact F.prefixFree hf hg

theorem Reconstructs.alone {before : Bytes} {f : Frame UInt8} (hf : F.frame base before = some f)
    (hne : payload ≠ []) : ¬ Reconstructs F base (before ++ payload) content := by
  rintro ⟨g, hg, -⟩
  exact hne (F.prefixFree hf hg)

end

section
variable {Z : Zstd} {F : Format UInt8} {base payload : Bytes} {tn : Nat}

/-- The loop refines the one-shot decode, whatever its chunk sizes. -/
theorem zstdApplyWith_iff (D : DecodingLaws Z F) {inChunk outChunk : Nat} (hin : 0 < inChunk)
    (hout : 0 < outChunk) (hctx : Z.createDCtx ≠ none) (hbase : base.length ≤ rawMax)
    (hpayload : payload.length ≤ payloadMax) (htn : tn ≤ rawMax) {d : OutObject} :
    zstdApplyWith Z inChunk outChunk base payload (.fresh tn) = .ok d ↔
      ∃ content, Reconstructs F base payload content ∧ content.length = tn ∧
        d = ⟨content.map some, List.range tn⟩ := by
  constructor
  · intro h
    obtain ⟨f, hf, hskip, hwindow, hlen, hd⟩ := zstdApplyWith_sound D hout h
    exact ⟨f.content, ⟨f, hf, hskip, hwindow, rfl⟩, hlen, hd⟩
  · rintro ⟨content, ⟨f, hf, hskip, hwindow, rfl⟩, hlen, rfl⟩
    exact zstdApplyWith_complete D hin hout hctx hbase hpayload htn hf hskip hwindow hlen

theorem zstdApply_limits {d : OutObject} (h : zstdApply Z base payload (.fresh tn) = .ok d) :
    base.length ≤ rawMax ∧ tn ≤ rawMax ∧ payload.length ≤ payloadMax :=
  (zstdApplyWith_ok.mp h).1

theorem phdZstdApply_ok {C : Host} {d : OutObject} :
    C.phdZstdApply base payload (.fresh tn) = .ok (.ok d) ↔
      zstdApply C.zstd base payload (.fresh tn) = .ok d := by
  have hfresh : (OutObject.fresh tn).cells.length = tn := (OutObject.fresh_wrote tn).length
  unfold Host.phdZstdApply Host.applyInto
  simp only [boundary_ok_iff, bind_eq_ok, require_eq_ok, hfresh, if_true]
  constructor
  · rintro ⟨-, -, h⟩
    exact h
  · intro h
    exact ⟨(), (zstdApply_limits h).2.1, h⟩

theorem phdZstdApply_sound {C : Host} (D : DecodingLaws C.zstd F) {d : OutObject}
    (h : C.phdZstdApply base payload (.fresh tn) = .ok (.ok d)) :
    ∃ content, Reconstructs F base payload content ∧ content.length = tn ∧
      d.cells = content.map some := by
  obtain ⟨f, hf, hskip, hwindow, hlen, rfl⟩ :=
    zstdApplyWith_sound D (by decide) (phdZstdApply_ok.mp h)
  exact ⟨f.content, ⟨f, hf, hskip, hwindow, rfl⟩, hlen, rfl⟩

end

/-- `zstd_apply` accepts exactly the payloads that are one standard frame of the
target size. So a payload that is accepted has one target size, and is neither
accepted cut short, nor extended, nor behind another frame; and the chunks the
loop works in do not matter. -/
theorem phdZstdApply_exact {C : Host} {F : Format UInt8} (D : DecodingLaws C.zstd F)
    (hctx : C.zstd.createDCtx ≠ none) {base payload : Bytes} (hbase : base.length ≤ rawMax)
    (hpayload : payload.length ≤ payloadMax) {tn : Nat} (htn : tn ≤ rawMax) :
    (∀ content, (∃ d, C.phdZstdApply base payload (.fresh tn) = .ok (.ok d) ∧
        d.cells = content.map some) ↔
      Reconstructs F base payload content ∧ content.length = tn) ∧
    (∀ d, C.phdZstdApply base payload (.fresh tn) = .ok (.ok d) → ∀ n d',
      (C.phdZstdApply base payload (.fresh n) = .ok (.ok d') → n = tn) ∧
      (∀ u v, payload = u ++ v → v ≠ [] → C.phdZstdApply base u (.fresh n) ≠ .ok (.ok d')) ∧
      (∀ v, v ≠ [] → C.phdZstdApply base (payload ++ v) (.fresh n) ≠ .ok (.ok d')) ∧
      (∀ v f, F.frame base v = some f →
        C.phdZstdApply base (v ++ payload) (.fresh n) ≠ .ok (.ok d'))) ∧
    (∀ inChunk outChunk, 0 < inChunk → 0 < outChunk → ∀ d,
      boundary (zstdApplyWith C.zstd inChunk outChunk base payload (.fresh tn)) = .ok (.ok d) ↔
        C.phdZstdApply base payload (.fresh tn) = .ok (.ok d)) := by
  refine ⟨fun content => ?_, fun d h n d' => ?_, fun inChunk outChunk hin hout d => ?_⟩
  · simp only [phdZstdApply_ok]
    constructor
    · rintro ⟨d, h, hcells⟩
      obtain ⟨content', hrec, hlen, rfl⟩ :=
        (zstdApplyWith_iff D (by decide) (by decide) hctx hbase hpayload htn).mp h
      obtain rfl := List.map_injective_iff.mpr (fun _ _ => Option.some.inj) hcells
      exact ⟨hrec, hlen⟩
    · rintro ⟨hrec, hlen⟩
      exact ⟨_, (zstdApplyWith_iff D (by decide) (by decide) hctx hbase hpayload htn).mpr
        ⟨content, hrec, hlen, rfl⟩, rfl⟩
  · obtain ⟨content, hrec, hlen, -⟩ := phdZstdApply_sound D h
    refine ⟨fun h' => ?_, fun u v hu hv h' => ?_, fun v hv h' => ?_, fun v f hf h' => ?_⟩
    · obtain ⟨content', hrec', hlen', -⟩ := phdZstdApply_sound D h'
      rw [← hlen, ← hlen', hrec.unique hrec']
    · obtain ⟨content', hrec', -⟩ := phdZstdApply_sound D h'
      exact hv (hrec'.whole (hu ▸ hrec))
    · obtain ⟨content', hrec', -⟩ := phdZstdApply_sound D h'
      exact hv (hrec.whole hrec')
    · obtain ⟨content', hrec', -⟩ := phdZstdApply_sound D h'
      obtain ⟨g, hg, -⟩ := hrec
      exact Reconstructs.alone hf (F.ne_nil hg) hrec'
  · rw [boundary_ok_iff, phdZstdApply_ok]
    exact (zstdApplyWith_iff D hin hout hctx hbase hpayload htn).trans
      (zstdApplyWith_iff D (by decide) (by decide) hctx hbase hpayload htn).symm

theorem phdZstdApply_exact_abc :
    (∃ d, Stored.host.phdZstdApply [] Stored.abcFrame (.fresh 3) = .ok (.ok d) ∧
      d.cells = [some 97, some 98, some 99]) ∧
    ∀ d, Stored.host.phdZstdApply [] (Stored.abcFrame ++ [0]) (.fresh 3) ≠ .ok (.ok d) := by
  have h := @phdZstdApply_exact Stored.host Stored.format Stored.decodingLaws Stored.zstd_creates []
    Stored.abcFrame (by decide) (by decide) 3 (by decide)
  have hrec : Reconstructs Stored.format [] Stored.abcFrame [97, 98, 99] :=
    ⟨_, Stored.abcFrame_frame [], rfl, by decide, rfl⟩
  obtain ⟨d, hd, hcells⟩ := (h.1 [97, 98, 99]).mpr ⟨hrec, rfl⟩
  exact ⟨⟨d, hd, hcells⟩, fun d' => (h.2.1 d hd 3 d').2.2.1 [0] (by decide)⟩

theorem zstdEncode_reconstructs {C : Host} {I : Interpreter} {F : Format UInt8}
    (E : EncodingLaws C.zstd F) (hcaps : E.CapsWindow) {base target payload : Bytes}
    {args : ZstdOptions} (h : Extension.zstdEncode C I base target args = .ok payload) :
    Reconstructs F base payload target ∧ payload.length ≤ payloadMax := by
  unfold Extension.zstdEncode at h
  simp only [bind_eq_ok, Extension.finish_eq_ok] at h
  obtain ⟨a, -, b, -, c, -, d, -, e, -, f, -, g, -, i, -, j, -, cells, hencode, -, rfl⟩ := h
  obtain ⟨options, bytes, frame, out, ho, -, -, hencoded, rfl⟩ := Host.phdZstdEncode_ok E hencode
  rw [readCells_map_some]
  exact ⟨⟨frame, hencoded.frame, hencoded.standard,
    hcaps hencoded.emits (encodeJob_window (zstdOptions_ok ho).2.1), hencoded.content⟩,
    hencoded.bound⟩

theorem zstdApply_reconstructs {C : Host} {I : Interpreter} {F : Format UInt8}
    (D : DecodingLaws C.zstd F) (hctx : C.zstd.createDCtx ≠ none)
    {base object content : Bytes} {offset : Nat} (hoffset : offset ≤ object.length)
    (hsmall : offset < 2 ^ 63) (hbase : base.length ≤ rawMax)
    (hpayload : (object.drop offset).length ≤ payloadMax) (hcontent : content.length ≤ rawMax)
    (hobject : I.bytesObject content.length = true)
    (h : Reconstructs F base (object.drop offset) content) :
    Extension.zstdApply C I base object offset content.length = .ok content := by
  have happly : C.applyInto true base (object.drop offset) (.fresh content.length) =
      .ok (.ok ⟨content.map some, List.range content.length⟩) :=
    phdZstdApply_ok.mpr ((zstdApplyWith_iff D (by decide) (by decide) hctx hbase hpayload
      hcontent).mpr ⟨content, h, rfl, rfl⟩)
  rw [Extension.zstdApply, Extension.apply_eq hoffset hsmall hcontent,
    if_neg (not_not.mpr hobject), happly]
  simp only [readCells_map_some, pure_ok]

theorem apply_envelope {C : Host} {I : Interpreter} {F : Format UInt8} (D : DecodingLaws C.zstd F)
    (hctx : C.zstd.createDCtx ≠ none) {base target payload : Bytes} (hbase : base.length ≤ rawMax)
    (htarget : target.length ≤ rawMax) (hpayload : payload.length ≤ payloadMax)
    (hrec : Reconstructs F base payload target) (hobject : I.bytesObject target.length = true)
    {m : Int} (hm : target.length ≤ m) :
    Python.apply (native C I) base (envelope .zstd base target payload) m = .ok target := by
  have hpayload' := envelope_drop .zstd base target payload
  have happly : Extension.zstdApply C I base (envelope .zstd base target payload) envelopeSize
      target.length = .ok target :=
    zstdApply_reconstructs D hctx (by rw [envelope_length]; omega) (by decide) hbase
      (by rw [hpayload']; exact hpayload) htarget hobject (by rw [hpayload']; exact hrec)
  have hcall : call true (Extension.apply C I true base (envelope .zstd base target payload)
      envelopeSize target.length) = .ok target := call_eq_ok.mpr happly
  have hbound : (target.length : Int) ≤ min m rawMax := by omega
  rw [apply_eq (inspect_encoded .zstd hbase htarget hpayload) rfl hbound rfl]
  simp [hcall]

/-- The round trip of codec 2: an encoding is applied to its target under every
bound that admits it, and refused for the bound under every other. -/
theorem apply_encodeDelta {C : Host} {I : Interpreter} {F : Format UInt8}
    (D : DecodingLaws C.zstd F) (E : EncodingLaws C.zstd F) (hcaps : E.CapsWindow)
    (hctx : C.zstd.createDCtx ≠ none) {hdiff : HDiffPatch} {heap : Heap} {passes : Nat}
    {J : Interpreter} {base target blob : Bytes} {profile : ZstdProfile}
    (h : encodeDelta (native ⟨C.zstd, hdiff, heap, passes⟩ J) base target (.zstd profile) = .ok blob)
    (hobject : I.bytesObject target.length = true) (m : Int) :
    (target.length ≤ m → Python.apply (native C I) base blob m = .ok target) ∧
    (m < target.length → Python.apply (native C I) base blob m =
      raise (.limitError "target length exceeds the output limit")) := by
  obtain ⟨hbase, htarget, payload, rfl, args, -, hencode⟩ := encodeDelta_ok h
  obtain ⟨hrec, hpayload⟩ := zstdEncode_reconstructs (C := ⟨C.zstd, hdiff, heap, passes⟩) E hcaps
    hencode
  refine ⟨apply_envelope D hctx hbase htarget hpayload hrec hobject, fun hm => ?_⟩
  unfold Python.apply
  rw [Profile.codec, inspect_encoded .zstd hbase htarget hpayload, ok_bind, if_neg (by simp),
    if_pos (by simp only; omega)]

theorem apply_encodeDelta_abc :
    let blob := envelope .zstd [] [97, 98, 99] Stored.abcFrame
    Python.apply (native Stored.host Stored.interpreter) [] blob 3 = .ok [97, 98, 99] ∧
      Python.apply (native Stored.host Stored.interpreter) [] blob 2 =
        raise (.limitError "target length exceeds the output limit") := by
  have h := apply_encodeDelta (C := Stored.host) (I := Stored.interpreter) Stored.decodingLaws
    Stored.encodingLaws Stored.encodingLaws_capsWindow Stored.zstd_creates
    Stored.encodeDelta_abc rfl
  exact ⟨(h 3).1 (by decide), (h 2).2 (by decide)⟩

end Pyhdiff.Guarantees
