import Pyhdiff.Native.HDiff

/-! The checks `hdiff_apply` makes of a payload's header before it patches, in
the 64-bit arithmetic they are written in. -/
namespace Pyhdiff.Native

/-- What holds of a header that has passed the checks, for a base of `bn`, a
target of `tn` and a payload of `pn` bytes. -/
structure DiffInfo.Passes (info : DiffInfo) (bn tn pn : Nat) : Prop where
  oldDataSize : info.oldDataSize = bn
  newDataSize : info.newDataSize = tn
  stepMemSize : info.stepMemSize ≤ stepMax
  uncompressedSize : info.uncompressedSize ≤ payloadMax
  compressType : info.compressType = "" ∨ isZstd info.compressType
  fits : info.Fits pn
  named : info.compressedSize = 0 ∨ info.compressType ≠ ""

def hdiffGate (H : HDiffPatch) (base patch : Bytes) (tn : Nat) : Cxx DiffInfo := do
  let bn := base.length
  let pn := patch.length
  require (bn ≤ rawMax ∧ tn ≤ rawMax ∧ pn ≤ payloadMax) .limit
  let some info := H.getSingleCompressedDiffInfo patch | fail .invalid
  require (info.oldDataSize = bn ∧ info.newDataSize = tn) .invalid
  require (info.stepMemSize ≤ stepMax ∧ info.uncompressedSize ≤ payloadMax) .limit
  require (info.compressType = "" ∨ isZstd info.compressType) .invalid
  require (info.Fits pn) .invalid
  require (info.compressedSize = 0 ∨ info.compressType ≠ "") .invalid
  return info

def hdiffPatch (Z : Zstd) (H : HDiffPatch) (heap : Heap) (base patch : Bytes) (dst : OutObject)
    (info : DiffInfo) : Cxx OutObject := do
  allocate heap (info.stepMemSize + H.kStreamCacheSize * 3)
  let (verdict, dst) ← (if info.compressedSize ≠ 0 then
      (H.patchSingleCompressedDiff info true).run Z H (Input base) (Input patch) () dst
    else (H.patchSingleCompressedDiff info false).run Z H (Input base) (Input patch) () dst)
  require verdict .invalid
  return dst

theorem hdiffApply_eq (Z : Zstd) (H : HDiffPatch) (heap : Heap) (base patch : Bytes)
    (dst : OutObject) : hdiffApply Z H heap base patch dst =
      hdiffGate H base patch dst.cells.length >>= hdiffPatch Z H heap base patch dst := by
  unfold hdiffApply hdiffGate hdiffPatch
  simp only [bind_assoc]
  refine bind_congr fun _ => ?_
  cases H.getSingleCompressedDiffInfo patch with
  | none => rfl
  | some info => simp only [bind_assoc, pure_bind]

theorem hdiffGate_eq_ok {H : HDiffPatch} {base patch : Bytes} {tn : Nat} {info : DiffInfo} :
    hdiffGate H base patch tn = .ok info ↔
      (base.length ≤ rawMax ∧ tn ≤ rawMax ∧ patch.length ≤ payloadMax) ∧
      H.getSingleCompressedDiffInfo patch = some info ∧
      info.Passes base.length tn patch.length := by
  simp only [hdiffGate, bind_eq_ok, require_eq_ok]
  cases H.getSingleCompressedDiffInfo patch with
  | none => simp [fail]
  | some info' =>
    simp only [bind_eq_ok, require_eq_ok, Option.some.injEq]
    constructor
    · rintro ⟨-, hlimits, -, hsizes, -, hbounds, -, htype, -, hfits, -, hnamed, h⟩
      obtain rfl := Except.ok.inj h
      exact ⟨hlimits, rfl, hsizes.1, hsizes.2, hbounds.1, hbounds.2, htype, hfits, hnamed⟩
    · rintro ⟨hlimits, rfl, hold, hnew, hstep, huncompressed, htype, hfits, hnamed⟩
      exact ⟨(), hlimits, (), ⟨hold, hnew⟩, (), ⟨hstep, huncompressed⟩, (), htype, (), hfits, (),
        hnamed, rfl⟩

theorem hdiffApply_ok {Z : Zstd} {H : HDiffPatch} {heap : Heap} {base patch : Bytes}
    {dst out : OutObject} (h : hdiffApply Z H heap base patch dst = .ok out) :
    ∃ info, H.getSingleCompressedDiffInfo patch = some info ∧
      info.Passes base.length dst.cells.length patch.length := by
  rw [hdiffApply_eq, bind_eq_ok] at h
  obtain ⟨info, hgate, -⟩ := h
  obtain ⟨-, hparsed, hpasses⟩ := hdiffGate_eq_ok.mp hgate
  exact ⟨info, hparsed, hpasses⟩

/-- Parsing a header reads the bytes before the diff data, all of them, and is a
function of these. -/
structure HDiffPatch.ReadsHeader (H : HDiffPatch) : Prop where
  present : ∀ {p info}, H.getSingleCompressedDiffInfo p = some info → info.diffDataPos ≤ p.length
  alone : ∀ {p q info}, H.getSingleCompressedDiffInfo p = some info →
    p.take info.diffDataPos <+: q → H.getSingleCompressedDiffInfo q = some info

theorem HDiffPatch.ReadsHeader.same {H : HDiffPatch} (hH : H.ReadsHeader) {p q : Bytes}
    {info info' : DiffInfo} (hpre : p <+: q) (hp : H.getSingleCompressedDiffInfo p = some info)
    (hq : H.getSingleCompressedDiffInfo q = some info') : info = info' := by
  have hq' := hH.alone hp ((List.take_prefix _ p).trans hpre)
  exact Option.some.inj (hq'.symm.trans hq)

theorem DiffInfo.Fits.length_eq {info : DiffInfo} {m n : Nat} (hm : info.Fits m)
    (hn : info.Fits n) : m = n := by
  obtain ⟨hposm, hm⟩ := hm
  obtain ⟨hposn, hn⟩ := hn
  omega

/-- The header as the parser leaves it, in 64-bit words. -/
structure HeaderWords where
  newDataSize : UInt64
  oldDataSize : UInt64
  uncompressedSize : UInt64
  compressedSize : UInt64
  diffDataPos : UInt64
  coverCount : UInt64
  stepMemSize : UInt64
  compressType : String

namespace HeaderWords
variable (w : HeaderWords)

def info : DiffInfo where
  newDataSize := w.newDataSize.toNat
  oldDataSize := w.oldDataSize.toNat
  uncompressedSize := w.uncompressedSize.toNat
  compressedSize := w.compressedSize.toNat
  diffDataPos := w.diffDataPos.toNat
  coverCount := w.coverCount.toNat
  stepMemSize := w.stepMemSize.toNat
  compressType := w.compressType

def encoded : UInt64 := if w.compressedSize ≠ 0 then w.compressedSize else w.uncompressedSize

/-- The checks on the words, where a subtraction could wrap. -/
def checks (bn tn pn : UInt64) : Cxx Unit := do
  require (w.oldDataSize = bn ∧ w.newDataSize = tn) .invalid
  require (w.stepMemSize ≤ UInt64.ofNat stepMax ∧ w.uncompressedSize ≤ UInt64.ofNat payloadMax) .limit
  require (w.compressType = "" ∨ isZstd w.compressType) .invalid
  require (w.diffDataPos ≤ pn ∧ w.encoded = pn - w.diffDataPos) .invalid
  require (w.compressedSize = 0 ∨ w.compressType ≠ "") .invalid

def cacheSize (kStreamCacheSize : UInt64) : UInt64 := w.stepMemSize + kStreamCacheSize * 3

def dataEnd : UInt64 := w.diffDataPos + w.encoded

theorem encoded_toNat : w.encoded.toNat = w.info.encoded := by
  unfold encoded DiffInfo.encoded
  have hzero : w.compressedSize = 0 ↔ w.info.compressedSize = 0 := by
    rw [← UInt64.toNat_inj]
    exact Iff.rfl
  by_cases h : w.compressedSize = 0
  · rw [if_neg (not_not.mpr h), if_neg (not_not.mpr (hzero.mp h))]
    rfl
  · rw [if_pos h, if_pos (mt hzero.mpr h)]
    rfl

/-- The subtraction is guarded, so the words are checked as numbers are. -/
theorem fits_iff (pn : UInt64) : (w.diffDataPos ≤ pn ∧ w.encoded = pn - w.diffDataPos) ↔
    w.info.Fits pn.toNat := by
  unfold DiffInfo.Fits
  rw [← encoded_toNat, UInt64.le_iff_toNat_le, ← UInt64.toNat_inj]
  refine and_congr_right fun hle => ?_
  rw [UInt64.toNat_sub_of_le _ _ (UInt64.le_iff_toNat_le.mpr hle)]
  exact Iff.rfl

theorem checks_eq_ok {bn tn pn : Nat} (hbn : bn < 2 ^ 64) (htn : tn < 2 ^ 64) (hpn : pn < 2 ^ 64) :
    w.checks (.ofNat bn) (.ofNat tn) (.ofNat pn) = .ok () ↔ w.info.Passes bn tn pn := by
  have hword : ∀ {n : Nat}, n < 2 ^ 64 → (UInt64.ofNat n).toNat = n :=
    fun h => UInt64.toNat_ofNat_of_lt' h
  have hsize : ∀ (v : UInt64) {n : Nat}, n < 2 ^ 64 → (v = UInt64.ofNat n ↔ v.toNat = n) := by
    intro v n hn
    rw [← UInt64.toNat_inj, hword hn]
  have hbound : ∀ (v : UInt64) {n : Nat}, n < 2 ^ 64 → (v ≤ UInt64.ofNat n ↔ v.toNat ≤ n) := by
    intro v n hn
    rw [UInt64.le_iff_toNat_le, hword hn]
  have hnamed : w.compressedSize = 0 ↔ w.compressedSize.toNat = 0 := hsize _ (by decide)
  simp only [checks, bind_eq_ok, require_eq_ok, fits_iff, hword hpn, hsize _ hbn, hsize _ htn,
    hbound _ (by decide : stepMax < 2 ^ 64), hbound _ (by decide : payloadMax < 2 ^ 64), hnamed]
  constructor
  · rintro ⟨-, hsizes, -, hbounds, -, htype, -, hfits, hnamed⟩
    exact ⟨hsizes.1, hsizes.2, hbounds.1, hbounds.2, htype, hfits, hnamed⟩
  · rintro ⟨hold, hnew, hstep, huncompressed, htype, hfits, hnamed⟩
    exact ⟨(), ⟨hold, hnew⟩, (), ⟨hstep, huncompressed⟩, (), htype, (), hfits, hnamed⟩

theorem dataEnd_toNat {pn : Nat} (hpn : pn < 2 ^ 64) (h : w.info.Fits pn) :
    w.diffDataPos.toNat + w.encoded.toNat = pn ∧ w.dataEnd.toNat = pn := by
  obtain ⟨hpos, hencoded⟩ := h
  have hpos : w.diffDataPos.toNat ≤ pn := hpos
  have hencoded : w.encoded.toNat = pn - w.diffDataPos.toNat := w.encoded_toNat.trans hencoded
  refine ⟨by omega, ?_⟩
  rw [dataEnd, UInt64.toNat_add, Nat.mod_eq_of_lt (by omega)]
  omega

theorem cacheSize_toNat {k : Nat} (hk : k < 2 ^ 32) (h : w.stepMemSize.toNat ≤ stepMax) :
    (w.cacheSize (.ofNat k)).toNat = w.stepMemSize.toNat + 3 * k := by
  unfold stepMax at h
  have hk' : (UInt64.ofNat k).toNat = k :=
    UInt64.toNat_ofNat_of_lt' (Nat.lt_of_lt_of_le hk (by decide))
  rw [cacheSize, UInt64.toNat_add, UInt64.toNat_mul, hk', show (3 : UInt64).toNat = 3 from rfl]
  omega

end HeaderWords

theorem DiffInfo.Passes.opens {info : DiffInfo} {bn tn : Nat} {patch : Bytes}
    (h : info.Passes bn tn patch.length) {Z : Zstd} {ctx ctx' : Z.DCtx}
    (hctx : Z.createDCtx = some ctx) (hset : Z.dctxSetWindowLogMax ctx hdiffWindowLogMax = .ok ctx') :
    Decompress.opens Z info.uncompressedSize (Input patch) info.diffDataPos
        (info.diffDataPos + info.encoded) =
      .ok ⟨ctx', Input patch, info.diffDataPos, info.diffDataPos + info.encoded,
        info.uncompressedSize, [], 0, false⟩ := by
  obtain ⟨hpos, hencoded⟩ := h.fits
  have hrange : info.diffDataPos ≤ info.diffDataPos + info.encoded ∧
      info.diffDataPos + info.encoded ≤ (Input patch).size ∧ info.uncompressedSize ≤ payloadMax := by
    refine ⟨Nat.le_add_right _ _, ?_, h.uncompressedSize⟩
    change _ ≤ patch.length
    omega
  unfold Decompress.opens
  rw [require_bind, if_pos hrange, hctx]
  dsimp only
  rw [hset]
  rfl

end Pyhdiff.Native
