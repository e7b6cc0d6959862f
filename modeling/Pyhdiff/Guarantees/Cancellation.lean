import Pyhdiff.Guarantees.Stored
import Pyhdiff.Native.Cancel

/-! What a cancel callback can make of an encoding and of a decoding. -/
namespace Pyhdiff.Guarantees
open Native Streaming

section
variable {κ : Type} {C : Host} {cancel : Cancel κ} {data : κ} {base : Bytes}

theorem phdTestZstdEncode_documented {target : Bytes} {p : ZstdOptions} (hp : p.Documented) :
    C.phdTestZstdEncode cancel base target p data = boundary (do
      let encoded ← zstdEncodeCancel cancel C.zstd C.heap C.passes base target p.options kCodecLimits
        data
      encoded.release C.heap) := by
  rw [Host.phdTestZstdEncode, zstdOptions_eq_ok.mpr ⟨hp, rfl⟩, ok_bind]

theorem phdZstdEncode_documented {target : Bytes} {p : ZstdOptions} (hp : p.Documented) :
    C.phdZstdEncode base target p = boundary (do
      let encoded ← zstdEncode C.zstd C.heap C.passes base target p.options kCodecLimits
      encoded.release C.heap) := by
  rw [Host.phdZstdEncode, zstdOptions_eq_ok.mpr ⟨hp, rfl⟩, ok_bind]

theorem phdTestZstdEncode_refused {target : Bytes} {p : ZstdOptions} (hp : ¬ p.Documented) :
    C.phdTestZstdEncode cancel base target p data = C.phdZstdEncode base target p := by
  have hrefused : zstdOptions p = fail .option :=
    (zstdOptions_cases p).resolve_right fun ⟨o, ho⟩ => hp (zstdOptions_eq_ok.mp ho).1
  rw [Host.phdTestZstdEncode, Host.phdZstdEncode, hrefused]
  rfl

end

/-- A callback decides nothing but whether a call goes on. While it is content, or
null, encoding and decoding are what they are without it. When it asks to stop or
throws, at its `k`-th turn, a loop that has made `k` calls of zstd and is not done
ends with the status for that; a call that is done by then does not notice. A
decoding that is stopped leaves in the caller's object a beginning of the content,
without a gap. -/
theorem cancellation_exact {κ : Type} (C : Host) {F : Format UInt8} (D : DecodingLaws C.zstd F)
    (cancel : Cancel κ) (data : κ) (base : Bytes) :
    (∀ (target : Bytes) (p : ZstdOptions),
      (Granted cancel.poll C.passes data →
        C.phdTestZstdEncode cancel base target p data = C.phdZstdEncode base target p) ∧
      ∀ t k, RefusedAt cancel.poll (.thrown t) k data → k < C.passes →
        ((p.Documented ∧ ∃ s, Encoding C.zstd C.heap base target p.options kCodecLimits k s) →
          C.phdTestZstdEncode cancel base target p data = boundary (.error (.thrown t))) ∧
        (¬ (p.Documented ∧ ∃ s, Encoding C.zstd C.heap base target p.options kCodecLimits k s) →
          C.phdTestZstdEncode cancel base target p data = C.phdZstdEncode base target p)) ∧
    ∀ (payload : Bytes) (tn : Nat),
      (Granted cancel.poll (payload.length + tn + 1) data →
        C.phdTestZstdApply cancel base payload (.fresh tn) data =
          C.phdZstdApply base payload (.fresh tn)) ∧
      ∀ t k, RefusedAt cancel.poll (.thrown t) k data →
        ((∃ s, Decoding C.zstd base payload (.fresh tn) k s) →
          C.phdTestZstdApply cancel base payload (.fresh tn) data = boundary (.error (.thrown t))) ∧
        ((¬ ∃ s, Decoding C.zstd base payload (.fresh tn) k s) →
          C.phdTestZstdApply cancel base payload (.fresh tn) data =
            C.phdZstdApply base payload (.fresh tn)) ∧
        ∀ s f, Decoding C.zstd base payload (.fresh tn) k s → F.frame base payload = some f →
          f.window ≤ 2 ^ zstdWindowLogMax →
          ∃ o, o <+: f.content ∧ o.length = s.written ∧ s.dst.Wrote tn o := by
  refine ⟨fun target p => ⟨fun hgranted => ?_, fun t k hrefused hk => ⟨?_, fun hno => ?_⟩⟩,
    fun payload tn => ?_⟩
  · by_cases hp : p.Documented
    · rw [phdTestZstdEncode_documented hp, phdZstdEncode_documented hp,
        zstdEncodeCancel_granted hgranted]
    · exact phdTestZstdEncode_refused hp
  · rintro ⟨hp, hgoing⟩
    rw [phdTestZstdEncode_documented hp, (zstdEncodeCancel_refused hrefused hk).1 hgoing]
    rfl
  · by_cases hp : p.Documented
    · rw [phdTestZstdEncode_documented hp, phdZstdEncode_documented hp,
        (zstdEncodeCancel_refused hrefused hk).2 fun hgoing => hno ⟨hp, hgoing⟩]
    · exact phdTestZstdEncode_refused hp
  · have hfresh : (OutObject.fresh tn).cells.length = tn := (OutObject.fresh_wrote tn).length
    have htest : ∀ x, zstdApplyCancel cancel C.zstd base payload (.fresh tn) data = x →
        C.phdTestZstdApply cancel base payload (.fresh tn) data = boundary (do
          require (tn ≤ rawMax) .limit
          x) := by
      rintro x rfl
      rw [Host.phdTestZstdApply, hfresh]
    have hplain : C.phdZstdApply base payload (.fresh tn) = boundary (do
        require (tn ≤ rawMax) .limit
        zstdApply C.zstd base payload (.fresh tn)) := by
      rw [Host.phdZstdApply, Host.applyInto, hfresh]
      rfl
    refine ⟨fun hgranted => ?_, fun t k hrefused => ⟨fun hgoing => ?_, fun hno => ?_,
      fun s f hs hf hwindow => hs.written D hf hwindow⟩⟩
    · rw [htest _ (zstdApplyCancel_granted (by rw [hfresh]; exact hgranted)), hplain]
    · rw [htest _ ((zstdApplyCancel_refused hrefused).1 hgoing)]
      obtain ⟨s, ctx, hsetup, -⟩ := hgoing
      rw [hfresh] at hsetup
      have htn : tn ≤ rawMax := by
        simp only [applySetup, bind_eq_ok, require_eq_ok] at hsetup
        obtain ⟨-, hlimits, -⟩ := hsetup
        exact hlimits.2.1
      rw [require_bind, if_pos htn]
    · rw [htest _ ((zstdApplyCancel_refused hrefused).2 hno), hplain]

-- a callback that stops at once, and one that is content with one call
theorem cancellation_exact_abc :
    let now : Cancel Unit := some fun _ => .ok (true, ())
    let second : Cancel Nat := some fun n => .ok (decide (n ≠ 0), n + 1)
    Stored.host.phdTestZstdApply now [] Stored.abcFrame (.fresh 3) () = .ok (.error .cancelled) ∧
      Stored.host.phdTestZstdApply second [] Stored.abcFrame (.fresh 3) 0 =
        Stored.host.phdZstdApply [] Stored.abcFrame (.fresh 3) := by
  intro now second
  have hnow : RefusedAt now.poll (.thrown (.failure .cancelled)) 0 () := rfl
  have hsecond : RefusedAt second.poll (.thrown (.failure .cancelled)) 1 0 := ⟨1, rfl, rfl⟩
  have h := ((cancellation_exact Stored.host Stored.decodingLaws now () []).2 Stored.abcFrame 3).2 _ 0
    hnow
  have h' := ((cancellation_exact Stored.host Stored.decodingLaws second 0 []).2 Stored.abcFrame 3).2
    _ 1 hsecond
  refine ⟨h.1 ⟨_, _, rfl, .start _⟩, h'.2.1 ?_⟩
  rintro ⟨s, ctx, hsetup, hafter⟩
  obtain rfl := Except.ok.inj hsetup
  cases hafter with
  | pass hb _ => cases hb

end Pyhdiff.Guarantees
