import Pyhdiff.Guarantees.Stored
import Pyhdiff.Native.Parameters

/-! The parameters of an encoding are consistent with its options and its sizes. -/
namespace Pyhdiff.Guarantees
open Native Python

/-- The sizes `zstd_encode` is called with: a delta within the codec limits, or a
frame without a base within its own. -/
def InLimits (bn tn : Nat) : Prop :=
  (bn ≤ rawMax ∧ tn ≤ kCodecLimits.input) ∨ (bn = 0 ∧ tn ≤ kFrameLimits.input)

/-- The parameters of accepted options `p`, as the option set `o`. -/
structure Consistent (Z : Zstd) (p : ZstdOptions) (o : Options) (bn tn : Nat) : Prop where
  explicit : ∀ q ∈ p.explicit, q ∈ zstdParameters Z o bn tn ∧
    ∀ v, (q.1, v) ∈ zstdParameters Z o bn tn → v = q.2
  verified : ∀ s : Setup, verifyOptions (s.setAll (zstdParameters Z o bn tn)).params o false = .ok ()
  window : bn ≠ 0 → p.windowLog = 0 → ∃ w : Nat,
    (.windowLog, (w : Int)) ∈ zstdParameters Z o bn tn ∧ 10 ≤ w ∧ w ≤ 30 ∧ tn < 2 ^ w
  tuning : ∀ q ∈ zstdParameters Z o bn tn, q.1.tunesLdm = true →
    p.ldm = 1 ∧ (.enableLongDistanceMatching, 1) ∈ zstdParameters Z o bn tn
  buckets : p.ldmBucketLog ≠ 0 → ∃ hash, (.ldmHashLog, hash) ∈ zstdParameters Z o bn tn ∧
    p.ldmBucketLog ≤ hash ∧ 6 ≤ hash ∧ hash ≤ 30
  threshold : ∀ c, c = Z.getCParams o.level tn bn →
    (ldmThreshold c : Int) = c.chainLog - (if btlazy2 ≤ c.strategy then 1 else 0) ∧
    (bn ≠ 0 → p.windowLog = 0 → p.ldm = 0 →
      ((.enableLongDistanceMatching, 1) ∈ zstdParameters Z o bn tn ↔
        (c.chainLog : Int) - (if btlazy2 ≤ c.strategy then 1 else 0) < Nat.size tn))
  difference : ∀ window c, window = (resolveWindow Z o bn tn).1 → c = hashLogParams Z o window bn tn →
    (window % 2 ^ 32).toNat = window ∧ toInt c.windowLog = c.windowLog ∧
    toInt c.strategy = c.strategy ∧ -2 ^ 31 ≤ toInt c.windowLog - ldmRate o c ∧
    toInt c.windowLog - ldmRate o c < 2 ^ 31 ∧
    (p.ldmHashLog = 0 → p.ldmBucketLog ≠ 0 ∨ p.ldmRateLog ≠ 0 →
      (.ldmHashLog, max p.ldmBucketLog (clamp (c.windowLog - ldmRate o c) 6 30)) ∈
        zstdParameters Z o bn tn)

/-- Accepted options give consistent parameters, at every size within the limits. -/
theorem zstdParameters_consistent {Z : Zstd} (hZ : Z.DerivesParameters) {p : ZstdOptions}
    {o : Options} (ho : zstdOptions p = .ok o) {bn tn : Nat} (hlimits : InLimits bn tn) :
    Consistent Z p o bn tn := by
  obtain ⟨hp, rfl⟩ := zstdOptions_eq_ok.mp ho
  have htn : tn ≤ 2 ^ 30 ∧ (bn ≠ 0 → tn < 2 ^ 30) := by
    simp only [InLimits, kCodecLimits, kFrameLimits, rawMax, frameMax] at hlimits
    omega
  have hthreshold := ldmThreshold_eq (hZ.derived p.options.level tn bn)
  constructor
  case explicit =>
    refine fun q hq => ⟨mem_zstdParameters.mpr (explicit_set Z bn tn hq), fun v hv => ?_⟩
    exact Option.some.inj ((mem_zstdParameters.mp hv).symm.trans (explicit_set Z bn tn hq))
  case verified => exact zstdParameters_verified hp
  case window =>
    intro hbn hwindow
    obtain ⟨w, hw, hlow, hhigh, hcovers⟩ :=
      resolveWindow_covers (Z := Z) (o := p.options) hbn hwindow (htn.2 hbn)
    exact ⟨w, mem_zstdParameters.mpr (nonzero_eq_some.mpr ⟨hw, by omega⟩), hlow, hhigh, hcovers⟩
  case tuning =>
    intro q hq htunes
    have hon : p.options.ldm = 1 := parameterValue_tunes Z bn tn hp htunes (mem_zstdParameters.mp hq)
    refine ⟨hon, mem_zstdParameters.mpr (nonzero_eq_some.mpr ⟨?_, by decide⟩)⟩
    rw [resolveWindow_ldm (by omega), hon]
  case buckets =>
    intro hbucket
    obtain ⟨hash, hset, hlow, hhigh, hge⟩ := parameterValue_hash Z bn tn hp hbucket
    exact ⟨hash, mem_zstdParameters.mpr hset, hge, hlow, hhigh⟩
  case threshold =>
    rintro c rfl
    refine ⟨hthreshold, fun hbn hwindow hldm => ?_⟩
    rw [mem_zstdParameters, ← hthreshold]
    change nonzero (resolveWindow Z p.options bn tn).2 = some 1 ↔ _
    rw [nonzero_eq_some, resolveWindow_auto hbn hwindow hldm (by omega)]
    split
    · exact iff_of_true ⟨rfl, by decide⟩ (by omega)
    · exact iff_of_false (by simp) (by omega)
  case difference =>
    rintro window c hwindow rfl
    have hrange := resolveWindow_window (Z := Z) hp bn tn
    rw [← hwindow] at hrange
    obtain ⟨hcast, hlog, hstrategy, hlow, hhigh, hsmall⟩ := hashLog_difference hZ hp hrange bn tn
    refine ⟨hcast, hlog, hstrategy, by omega, by omega, fun hhash hauto => ?_⟩
    refine mem_zstdParameters.mpr (nonzero_eq_some.mpr ⟨?_, ?_⟩)
    · rw [← hwindow, resolveHashLog_eq, if_pos ⟨hhash, hauto⟩, hlog]
      rfl
    · have hclamp := clamp_mem ((hashLogParams Z p.options window bn tn).windowLog -
        ldmRate p.options (hashLogParams Z p.options window bn tn)) (by decide : (6 : Int) ≤ 30)
      omega

theorem Stored.zstd_derives : Stored.zstd.DerivesParameters :=
  ⟨fun _ _ _ => (⟨by decide, by decide, by decide⟩ : CParams.Documented ⟨21, 16, 2⟩), fun _ _ h => h⟩

theorem zstdParameters_consistent_bucket :
    ∃ hash, (.ldmHashLog, hash) ∈ zstdParameters Stored.zstd
        (ZstdOptions.options ⟨3, 0, 1, 1, 1, 0, 0, 8, 24⟩) 5 3 ∧ 8 ≤ hash ∧ 6 ≤ hash ∧ hash ≤ 30 :=
  (zstdParameters_consistent Stored.zstd_derives (p := ⟨3, 0, 1, 1, 1, 0, 0, 8, 24⟩) rfl
    (.inl ⟨by decide, by decide⟩)).buckets (by decide)

end Pyhdiff.Guarantees
