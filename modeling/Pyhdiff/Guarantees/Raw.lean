import Pyhdiff.Guarantees.Failures
import Pyhdiff.Guarantees.Patches

/-! The raw functions: the payloads they make and take are the ones inside
envelopes, and decode at their own target length only. -/
namespace Pyhdiff.Guarantees
open Native Python Streaming

def rawEncode (N : NativeModule) (base target : Bytes) : Profile → Py Bytes
  | .hdiff p => Raw.hdiffEncode N base target p
  | .zstd p => Raw.zstdEncode N base target p

def rawApply (N : NativeModule) : Codec → (base payload : Bytes) → (targetLength : Int) → Py Bytes
  | .hdiff => Raw.hdiffApply N
  | .zstd => Raw.zstdApply N

section
variable {C : Host} {I : Interpreter} {F : Format UInt8} {base target payload : Bytes}

theorem rawApply_eq (codec : Codec) : rawApply (native C I) codec =
    Raw.applyWith (Extension.apply C I (decide (codec ≠ .hdiff))) := by
  cases codec <;> rfl

theorem encodeDelta_framed (N : NativeModule) (profile : Profile) (hbase : base.length ≤ rawMax)
    (htarget : target.length ≤ rawMax) : encodeDelta N base target profile =
      rawEncode N base target profile >>= fun payload =>
        .ok (envelope profile.codec base target payload) := by
  have hinputs : Raw.inputs base target = .ok (base, target) := if_neg (by omega)
  unfold encodeDelta
  rw [if_neg (by omega)]
  cases profile with
  | hdiff p =>
    simp only [rawEncode, Raw.hdiffEncode, hinputs, ok_bind]
    rfl
  | zstd p =>
    simp only [rawEncode, Raw.zstdEncode, hinputs, ok_bind, bind_assoc]
    rfl

theorem apply_framed {blob : Bytes} {m : Int} {h : Header} (hok : inspect blob = .ok h)
    (hraw : base.length ≤ rawMax) (hbase : base.length = h.baseLength)
    (hbound : (h.targetLength : Int) ≤ min m rawMax) (hhash : sha256 base = h.baseSha256) :
    Python.apply (native C I) base blob m =
      rawApply (native C I) h.codec base (blob.drop envelopeSize) h.targetLength >>= fun target =>
        if sha256 target ≠ h.targetSha256 then
          raise (.integrityError "reconstruction SHA-256 differs from the envelope")
        else .ok target := by
  have hn : h.targetLength ≤ rawMax := by omega
  have htail : Extension.apply C I (decide (h.codec ≠ .hdiff)) base blob envelopeSize h.targetLength =
      Extension.apply C I (decide (h.codec ≠ .hdiff)) base (blob.drop envelopeSize) 0 h.targetLength := by
    rw [← Int.natCast_zero, Extension.apply_eq (inspect_eq_ok.mp hok).1 (by decide) hn,
      Extension.apply_eq (Nat.zero_le _) (by decide) hn, List.drop_zero]
  rw [apply_eq hok hbase hbound hhash, rawApply_eq, Raw.applyWith_eq hraw hn, htail]
  rfl

/-- The bridge fills an object with the target, and objects of no other size. -/
structure Decodes (C : Host) (zstd : Bool) (base payload target : Bytes) : Prop where
  whole : ∃ d : OutObject, d.cells = target.map some ∧
    C.applyInto zstd base payload (.fresh target.length) = .ok (.ok d)
  only : ∀ n d, C.applyInto zstd base payload (.fresh n) = .ok (.ok d) → n = target.length

theorem decodes_of_patches (D : DecodingLaws C.zstd F) (hctx : C.zstd.createDCtx ≠ none)
    (hheap : C.heap.Grants) (hcorrect : C.hdiff.Correct F) (hbase : base.length ≤ rawMax)
    (htarget : target.length ≤ rawMax) (h : Patches F C.hdiff base target payload) :
    Decodes C false base payload target := by
  refine ⟨hdiffApply_patches D hctx hheap hcorrect hbase htarget h, fun n d hd => ?_⟩
  obtain ⟨hbound, p, hdoc, hleaves⟩ := h
  obtain ⟨info, -, hparsed, hpasses, -⟩ := hcorrect hdoc hbase htarget hleaves hbound
  obtain ⟨info', hparsed', hpasses'⟩ := hdiffApply_ok (phdHdiffApply_ok.mp hd)
  obtain rfl := Option.some.inj (hparsed.symm.trans hparsed')
  have hfresh : (OutObject.fresh n).cells.length = n := (OutObject.fresh_wrote n).length
  rw [← hfresh, ← hpasses'.newDataSize, hpasses.newDataSize]

theorem decodes_of_reconstructs (D : DecodingLaws C.zstd F) (hctx : C.zstd.createDCtx ≠ none)
    (hbase : base.length ≤ rawMax) (htarget : target.length ≤ rawMax) (hpayload : payload.length ≤ payloadMax)
    (h : Reconstructs F base payload target) : Decodes C true base payload target := by
  refine ⟨⟨_, rfl, phdZstdApply_ok.mpr ((zstdApplyWith_iff D (by decide) (by decide) hctx hbase hpayload
    htarget).mpr ⟨target, h, rfl, rfl⟩)⟩, fun n d hd => ?_⟩
  obtain ⟨content, hcontent, hlen, -⟩ := phdZstdApply_sound D hd
  rw [← hlen, hcontent.unique h]

theorem hdiffEncode_limits {args : HDiffOptions} (h : Extension.hdiffEncode C I base target args = .ok payload) :
    target.length ≤ rawMax := by
  rw [hdiffEncode_parses] at h
  split at h
  · obtain ⟨cells, hcells, -⟩ := Extension.finish_eq_ok.mp h
    simp only [Host.phdHdiffEncode, boundary_ok_iff, bind_eq_ok] at hcells
    obtain ⟨o, -, out, hencode, -⟩ := hcells
    exact (hdiffEncode_bounded hencode).2.1
  · cases h

theorem zstdEncode_limits (E : EncodingLaws C.zstd F) {args : ZstdOptions}
    (h : Extension.zstdEncode C I base target args = .ok payload) : target.length ≤ rawMax := by
  rw [zstdEncode_parses] at h
  split at h
  · obtain ⟨cells, hcells, -⟩ := Extension.finish_eq_ok.mp h
    obtain ⟨o, b, f, out, -, -, htarget, -⟩ := Host.phdZstdEncode_ok E hcells
    exact htarget
  · cases h

theorem rawEncode_decodes (D : DecodingLaws C.zstd F) (E : EncodingLaws C.zstd F) (hcaps : E.CapsWindow)
    (hhonors : E.HonorsWindowLog) (hctx : C.zstd.createDCtx ≠ none) (hheap : C.heap.Grants)
    (hcorrect : C.hdiff.Correct F) {heap : Heap} {passes : Nat} {J : Interpreter} {profile : Profile}
    (h : rawEncode (native ⟨C.zstd, C.hdiff, heap, passes⟩ J) base target profile = .ok payload) :
    base.length ≤ rawMax ∧ target.length ≤ rawMax ∧ payload.length ≤ payloadMax ∧
      Decodes C (decide (profile.codec ≠ .hdiff)) base payload target := by
  have hraw : ∀ {x : Py (Bytes × Bytes)} {f : Bytes × Bytes → Py Bytes}, x = Raw.inputs base target →
      x >>= f = .ok payload → base.length ≤ rawMax ∧ f (base, target) = .ok payload := by
    rintro x f rfl h
    unfold Raw.inputs at h
    split at h
    · cases h
    · exact ⟨by omega, h⟩
  cases profile with
  | hdiff p =>
    obtain ⟨hbase, hcall⟩ := hraw rfl h
    have hencode := call_eq_ok.mp hcall
    have htarget := hdiffEncode_limits hencode
    have hpatches := hdiffEncode_patches (C := ⟨C.zstd, C.hdiff, heap, passes⟩) E hhonors hencode
    exact ⟨hbase, htarget, hpatches.1, decodes_of_patches D hctx hheap hcorrect hbase htarget hpatches⟩
  | zstd p =>
    obtain ⟨hbase, hcall⟩ := hraw rfl h
    obtain ⟨args, -, hcall⟩ := bind_eq_ok.mp hcall
    have hencode := call_eq_ok.mp hcall
    have htarget := zstdEncode_limits (C := ⟨C.zstd, C.hdiff, heap, passes⟩) E hencode
    obtain ⟨hrec, hbound⟩ :=
      zstdEncode_reconstructs (C := ⟨C.zstd, C.hdiff, heap, passes⟩) E hcaps hencode
    exact ⟨hbase, htarget, hbound, decodes_of_reconstructs D hctx hbase htarget hbound hrec⟩

theorem raw_eq_ok {zstd : Bool} {n : Int} {t : Bytes}
    (h : Raw.applyWith (Extension.apply C I zstd) base payload n = .ok t) :
    ∃ k : Nat, n = k ∧ ∃ d, C.applyInto zstd base payload (.fresh k) = .ok (.ok d) := by
  unfold Raw.applyWith Raw.inputs at h
  split at h
  · cases h
  rw [ok_bind] at h
  dsimp only at h
  split at h
  · cases h
  rename_i hn
  obtain ⟨hpos, hle⟩ := not_not.mp hn
  obtain ⟨k, rfl⟩ := Int.eq_ofNat_of_zero_le hpos
  have happly := call_eq_ok.mp h
  rw [← Int.natCast_zero, Extension.apply_eq (Nat.zero_le _) (by decide) (by omega), List.drop_zero] at happly
  split at happly
  · cases happly
  split at happly
  · cases happly
  · cases happly
  · rename_i d hinto
    exact ⟨k, rfl, d, hinto⟩

theorem rawApply_exact (hobjects : ∀ n, I.bytesObject n = true) {codec : Codec} (hbase : base.length ≤ rawMax)
    (htarget : target.length ≤ rawMax) (h : Decodes C (decide (codec ≠ .hdiff)) base payload target) (n : Int) :
    (n = target.length → rawApply (native C I) codec base payload n = .ok target) ∧
    (n ≠ target.length → ∃ e, e.isError = true ∧ rawApply (native C I) codec base payload n = raise e) := by
  rw [rawApply_eq]
  generalize decide (codec ≠ .hdiff) = zstd at h
  refine ⟨?_, fun hn => ?_⟩
  · rintro rfl
    obtain ⟨d, hcells, hinto⟩ := h.whole
    rw [Raw.applyWith_eq hbase htarget, ← Int.natCast_zero,
      Extension.apply_eq (Nat.zero_le _) (by decide) htarget, if_neg (not_not.mpr (hobjects _)),
      List.drop_zero, hinto]
    simp [hcells, call_eq_ok]
  · have hcontained := (contained_raw (C := C) (I := I) zstd base payload n).mpr fun _ _ _ => hobjects _
    cases hx : Raw.applyWith (Extension.apply C I zstd) base payload n with
    | ok t =>
      obtain ⟨k, hk, d, hinto⟩ := raw_eq_ok hx
      exact absurd (hk.trans (congrArg Int.ofNat (h.only k d hinto))) hn
    | error x =>
      rw [hx] at hcontained
      cases x with
      | raised e => exact ⟨e, hcontained, rfl⟩
      | halt _ => exact hcontained.elim

end

/-- The raw layer. Within bounds `encode_delta` frames what the raw encoder
returns, whatever native module the package runs with, and `apply` is the raw
decoder on what follows the header, between its checks. With libraries as
documented a raw payload gives its target at the target's length and an `Error`
at every other integer, and may be framed by hand. -/
theorem raw_exact (C : Host) (I : Interpreter) (base : Bytes) :
    (∀ N target profile, base.length ≤ rawMax → target.length ≤ rawMax →
      encodeDelta N base target profile = rawEncode N base target profile >>= fun payload =>
        .ok (envelope profile.codec base target payload)) ∧
    (∀ blob (m : Int) h, inspect blob = .ok h → base.length ≤ rawMax → base.length = h.baseLength →
      (h.targetLength : Int) ≤ min m rawMax → sha256 base = h.baseSha256 →
      Python.apply (native C I) base blob m =
        rawApply (native C I) h.codec base (blob.drop envelopeSize) h.targetLength >>= fun target =>
          if sha256 target ≠ h.targetSha256 then
            raise (.integrityError "reconstruction SHA-256 differs from the envelope")
          else .ok target) ∧
    ∀ (F : Format UInt8) (_ : DecodingLaws C.zstd F) (E : EncodingLaws C.zstd F), E.CapsWindow →
      E.HonorsWindowLog → C.zstd.createDCtx ≠ none → C.heap.Grants →
      (∀ n, I.bytesObject n = true) → C.hdiff.Correct F → ∀ heap passes J target profile payload,
      rawEncode (native ⟨C.zstd, C.hdiff, heap, passes⟩ J) base target profile = .ok payload →
      (∀ n : Int, (n = target.length → rawApply (native C I) profile.codec base payload n = .ok target) ∧
        (n ≠ target.length → ∃ e, e.isError = true ∧
          rawApply (native C I) profile.codec base payload n = raise e)) ∧
      ∀ m : Int, target.length ≤ m →
        Python.apply (native C I) base (envelope profile.codec base target payload) m = .ok target := by
  refine ⟨fun N target profile => encodeDelta_framed N profile,
    fun blob m h hok hraw hbase hbound hhash => apply_framed hok hraw hbase hbound hhash, ?_⟩
  intro F D E hcaps hhonors hctx hheap hobjects hcorrect heap passes J target profile payload hencode
  obtain ⟨hbase, htarget, hpayload, hdecodes⟩ :=
    rawEncode_decodes D E hcaps hhonors hctx hheap hcorrect hencode
  have hexact := rawApply_exact hobjects hbase htarget hdecodes
  refine ⟨hexact, fun m hm => ?_⟩
  have hbound : (target.length : Int) ≤ min m rawMax := by omega
  rw [apply_framed (inspect_encoded profile.codec hbase htarget hpayload) hbase rfl hbound rfl, envelope_drop]
  simp only
  rw [(hexact target.length).1 rfl, ok_bind]
  exact if_neg (not_not.mpr rfl)

-- a frame of `abc`, asked for at two lengths
theorem raw_exact_abc :
    rawApply (native Whole.host Stored.interpreter) .zstd [] Stored.abcFrame 3 = .ok [97, 98, 99] ∧
      ∃ e, e.isError = true ∧
        rawApply (native Whole.host Stored.interpreter) .zstd [] Stored.abcFrame 2 = raise e := by
  have hencode : rawEncode (native Whole.host Stored.interpreter) [] [97, 98, 99]
      (.zstd ⟨3, 0, "auto", true, false, 0, 0, 0, 0⟩) = .ok Stored.abcFrame := by decide +kernel
  obtain ⟨-, -, hraw⟩ := raw_exact Whole.host Stored.interpreter []
  obtain ⟨hexact, -⟩ := hraw Stored.format Stored.decodingLaws Stored.encodingLaws
    Stored.encodingLaws_capsWindow Stored.encodingLaws_honorsWindowLog Stored.zstd_creates
    Stored.host_grants (fun _ => rfl) (Whole.library_correct _) _ _ _ _ _ _ hencode
  exact ⟨(hexact 3).1 rfl, (hexact 2).2 (by decide)⟩

end Pyhdiff.Guarantees
