import Pyhdiff.Guarantees.Stored
import Pyhdiff.Native.Feeding

/-! The encode loops against an encoder that may do anything inside its buffers. -/
namespace Pyhdiff.Guarantees
open Native Streaming

/-- Whatever an encoder returns, the encode loops feed it the source in order and
close it with the last of it, and they return what it gave out, in order and
nothing else. They fail where a call fails, where the output would pass its
limit or cannot be stored, and take no span out of range. An encoder that never
stalls ends them, within one call more than there are bytes to feed and room for
output: the limit stops one that gives out without end. -/
theorem encodeLoops_safe (Z : Zstd) (hin : 0 < Z.cStreamInSize) (hroom : 0 < Z.cStreamOutSize) :
    (∀ heap passes base target o limits,
      Safe (fun _ => True) (encodeSetup Z base target o limits) ∧
      (∀ e, encodeSetup Z base target o limits = .error e →
        zstdEncode Z heap passes base target o limits = .error e) ∧
      ∀ ctx, encodeSetup Z base target o limits = .ok ctx →
        EncodeOutcome Z heap target limits ctx passes
          (zstdEncode Z heap passes base target o limits)) ∧
    (∀ {ω : Type} (write : ω → Nat → Bytes → Cxx (Option ω)) (input : StreamInput) (src : Bytes) (heap : Heap)
      (passes : Nat) (o : Options) (out₀ : ω), input.Serves 0 src → input.size = src.length →
      Safe (fun _ => True) (pluginSetup Z heap input o) ∧
      (∀ e, pluginSetup Z heap input o = .error e →
        Native.compress Z write input heap passes o out₀ = .error e) ∧
      ∀ ctx chunk, pluginSetup Z heap input o = .ok (ctx, chunk) →
        CompressOutcome Z write src out₀ ctx passes
          (Native.compress Z write input heap passes o out₀)) ∧
    (Progresses Z.compressStream2 →
      (∀ heap passes base target o limits, target.length + limits.output < passes →
        Safe (fun out => ∃ ctx w, encodeSetup Z base target o limits = .ok ctx ∧
          Encodes Z.compressStream2 target 65536 ctx w ∧ out.contents = w.map some ∧
          w.length ≤ limits.output) (zstdEncode Z heap passes base target o limits)) ∧
      ∀ (H : HDiffPatch) heap passes base target (o : Options) n, n + payloadMax < passes →
        (H.createSingleCompressedDiffBlock o.stepBytes o.fastBlockBytes o.matchScore).Sources n →
        Safe (fun out => out.size ≤ payloadMax) (hdiffEncode Z H heap passes base target o)) := by
  refine ⟨fun heap passes base target o limits => ⟨encodeSetup_safe Z base target o limits,
    fun e hsetup => ?_, fun ctx => zstdEncode_outcome⟩, ?_, fun hprogress => ⟨?_, ?_⟩⟩
  · rw [zstdEncode_eq, hsetup, error_bind]
  · intro ω write input src heap passes o out₀ hserves hsize
    refine ⟨pluginSetup_safe hserves hsize, fun e hsetup => ?_, fun ctx chunk =>
      compress_outcome hserves hsize hin⟩
    rw [compress_eq_plugin, hsetup, error_bind]
  · intro heap passes base target o limits hpasses
    have hsetup := encodeSetup_safe Z base target o limits
    cases hcall : encodeSetup Z base target o limits with
    | error e =>
      rw [hcall] at hsetup
      rw [zstdEncode_eq, hcall, error_bind]
      exact hsetup.of_error
    | ok ctx =>
      refine ((zstdEncode_outcome hcall).safe hprogress hpasses).mono fun out hout => ?_
      obtain ⟨w, hw⟩ := hout
      exact ⟨ctx, w, rfl, hw⟩
  · intro H heap passes base target o n hpasses hsources
    exact hdiffEncode_safe H hprogress hin hroom hpasses hsources

theorem Stored.zstd_progresses : Progresses Stored.zstd.compressStream2 := by
  intro s input room op hint hroom hmore hres
  cases op with
  | eContinue => exact .inr (.inl (List.length_pos_iff.mpr (hmore rfl)))
  | eEnd =>
    have hcall : Stored.zstd.compressStream2 s input room .eEnd =
      Reference.encodeStream Stored.encode s input room .eEnd := rfl
    rw [hcall] at hres ⊢
    cases hdue : s.waiting.or (Stored.encode s.job (s.fed ++ input)) with
    | none => simp [Reference.encodeStream, hdue] at hres
    | some out =>
      have hreply : Reference.encodeStream Stored.encode s input room .eEnd =
          ⟨{ s with fed := s.fed ++ input, waiting := some (out.drop room) },
            .ok (out.length - room), input.length, out.take room⟩ := by
        simp only [Reference.encodeStream, hdue]
      rw [hreply] at hres ⊢
      obtain rfl := Except.ok.inj hres
      by_cases hfits : out.length ≤ room
      · exact .inl ⟨rfl, Nat.sub_eq_zero_of_le hfits⟩
      · refine .inr (.inr (List.ne_nil_of_length_pos ?_))
        rw [List.length_take]
        omega

-- `abc` against a base, under the limits of a delta
theorem encodeLoops_safe_abc :
    Safe (fun out => ∃ ctx w, encodeSetup Stored.zstd [97] [97, 98, 99]
        (⟨3, 0, 0, 1, 0, 0, 0, 0, 0⟩ : ZstdOptions).options kCodecLimits = .ok ctx ∧
      Encodes Stored.zstd.compressStream2 [97, 98, 99] 65536 ctx w ∧ out.contents = w.map some ∧
      w.length ≤ payloadMax)
      (zstdEncode Stored.zstd Stored.host.heap (payloadMax + 4) [97] [97, 98, 99]
        (⟨3, 0, 0, 1, 0, 0, 0, 0, 0⟩ : ZstdOptions).options kCodecLimits) :=
  ((encodeLoops_safe Stored.zstd (by decide) (by decide)).2.2 Stored.zstd_progresses).1 _ _ _ _ _ _
    (by decide)

end Pyhdiff.Guarantees
