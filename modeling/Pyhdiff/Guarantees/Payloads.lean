import Pyhdiff.Guarantees.Whole
import Pyhdiff.Native.Gate

/-! The payloads of the HDiffPatch codec: what their headers are held to. -/
namespace Pyhdiff.Guarantees
open Native

theorem passes_length {H : HDiffPatch} (hH : H.ReadsHeader) {p q : Bytes} {info info' : DiffInfo}
    {bn tn bn' tn' : Nat} (hp : H.getSingleCompressedDiffInfo p = some info)
    (hpasses : info.Passes bn tn p.length) (hq : H.getSingleCompressedDiffInfo q = some info')
    (hpasses' : info'.Passes bn' tn' q.length) (hpre : p <+: q) : p = q := by
  obtain rfl := hH.same hpre hp hq
  exact hpre.eq_of_length (hpasses.fits.length_eq hpasses'.fits)

/-- No accepted payload is the beginning of another, whatever the bases, the
targets and the libraries' answers are. And a header, whatever 64-bit words it
holds, passes the checks only if its data ends with the payload, the cache size
does not wrap, the sizes are those of the call, and the plugin opens on the data. -/
theorem hdiffApply_prefixFree (H : HDiffPatch) (hcache : H.kStreamCacheSize < 2 ^ 32) :
    (H.ReadsHeader → ∀ Z heap base p dst out, hdiffApply Z H heap base p dst = .ok out →
      ∀ Z' heap' base' p' dst', p' ≠ p → (p' <+: p ∨ p <+: p') →
        ∃ t, hdiffApply Z' H heap' base' p' dst' = .error (.thrown t)) ∧
    ∀ (w : HeaderWords) base p tn, H.getSingleCompressedDiffInfo p = some w.info →
      (hdiffGate H base p tn = .ok w.info ↔
        (base.length ≤ rawMax ∧ tn ≤ rawMax ∧ p.length ≤ payloadMax) ∧
        w.checks (.ofNat base.length) (.ofNat tn) (.ofNat p.length) = .ok ()) ∧
      (hdiffGate H base p tn = .ok w.info →
        w.diffDataPos.toNat + w.encoded.toNat = p.length ∧ w.dataEnd.toNat = p.length ∧
        (w.cacheSize (.ofNat H.kStreamCacheSize)).toNat =
          w.stepMemSize.toNat + 3 * H.kStreamCacheSize ∧
        w.oldDataSize.toNat = base.length ∧ w.newDataSize.toNat = tn ∧
        ∀ (Z : Zstd) (ctx ctx' : Z.DCtx), Z.createDCtx = some ctx →
          Z.dctxSetWindowLogMax ctx hdiffWindowLogMax = .ok ctx' →
          Decompress.opens Z w.uncompressedSize.toNat (Input p) w.diffDataPos.toNat w.dataEnd.toNat =
            .ok ⟨ctx', Input p, w.diffDataPos.toNat, w.dataEnd.toNat, w.uncompressedSize.toNat, [], 0,
              false⟩) := by
  refine ⟨fun hH Z heap base p dst out h Z' heap' base' p' dst' hne hpre => ?_,
    fun w base p tn hparsed => ⟨?_, fun hgate => ?_⟩⟩
  · have hsafe := hdiffApply_safe Z' H heap' base' p' dst'
    cases hrun : hdiffApply Z' H heap' base' p' dst' with
    | ok out' =>
      obtain ⟨info, hparsed, hpasses⟩ := hdiffApply_ok h
      obtain ⟨info', hparsed', hpasses'⟩ := hdiffApply_ok hrun
      cases hpre with
      | inl hshort => exact absurd (passes_length hH hparsed' hpasses' hparsed hpasses hshort) hne
      | inr hlong => exact absurd (passes_length hH hparsed hpasses hparsed' hpasses' hlong).symm hne
    | error e =>
      cases e with
      | thrown t => exact ⟨t, rfl⟩
      | halt x =>
        rw [hrun] at hsafe
        exact hsafe.elim
  · rw [hdiffGate_eq_ok]
    have hraw : rawMax < 2 ^ 64 := by decide
    have hpayload : payloadMax < 2 ^ 64 := by decide
    refine and_congr_right fun hlimits => ?_
    rw [w.checks_eq_ok (by omega) (by omega) (by omega)]
    exact and_iff_right hparsed
  · obtain ⟨hlimits, -, hpasses⟩ := hdiffGate_eq_ok.mp hgate
    have hpayload : payloadMax < 2 ^ 64 := by decide
    obtain ⟨hsum, hend⟩ := w.dataEnd_toNat (by omega) hpasses.fits
    refine ⟨hsum, hend, w.cacheSize_toNat hcache hpasses.stepMemSize, hpasses.oldDataSize,
      hpasses.newDataSize, fun Z ctx ctx' hctx hset => ?_⟩
    have hrange : w.dataEnd.toNat = w.info.diffDataPos + w.info.encoded := by
      rw [hend, ← hsum, w.encoded_toNat]
      rfl
    rw [hrange]
    exact hpasses.opens hctx hset

-- the patch of `abc` against nothing, with a byte behind it
theorem hdiffApply_prefixFree_abc :
    ∃ t, hdiffApply Stored.zstd Whole.library Stored.host.heap []
      (Whole.header 3 0 0 ++ Whole.content [97, 98, 99] ++ [7]) (.fresh 3) = .error (.thrown t) := by
  have haccepted : hdiffApply Stored.zstd Whole.library Stored.host.heap []
      (Whole.header 3 0 0 ++ Whole.content [97, 98, 99]) (.fresh 3) =
        .ok ⟨[some 97, some 98, some 99], [0, 1, 2]⟩ := rfl
  exact (hdiffApply_prefixFree Whole.library (by decide)).1 Whole.library_readsHeader _ _ _ _ _ _
    haccepted _ _ _ _ _ (by decide) (.inr ⟨[7], rfl⟩)

end Pyhdiff.Guarantees
