import Mathlib.Algebra.Group.Int.Defs
import Pyhdiff.Native.Failure

/-! The public option structs and their ranges. -/
namespace Pyhdiff.Native

structure HDiffOptions where
  matchScore : Int
  level : Int
  windowLog : Int
  fastBlockBytes : Int
  stepBytes : Int
  contentSize : Int
  checksum : Int

structure ZstdOptions where
  level : Int
  windowLog : Int
  ldm : Int
  contentSize : Int
  checksum : Int
  ldmHashLog : Int
  ldmMinMatch : Int
  ldmBucketLog : Int
  ldmRateLog : Int

structure Options where
  level : Int
  windowLog : Int
  workers : Int
  contentSize : Int
  checksum : Int
  matchScore : Int
  fastBlockBytes : Int
  stepBytes : Int
  ldm : Int
  ldmHashLog : Int
  ldmMinMatch : Int
  ldmBucketLog : Int
  ldmRateLog : Int

def within (v low high : Int) : Prop := low ≤ v ∧ v ≤ high

def automaticOr (v low high : Int) : Prop := v = 0 ∨ within v low high

instance (v low high : Int) : Decidable (within v low high) :=
  inferInstanceAs (Decidable (low ≤ v ∧ v ≤ high))

instance (v low high : Int) : Decidable (automaticOr v low high) :=
  inferInstanceAs (Decidable (v = 0 ∨ within v low high))

def hdiffOptions (o : HDiffOptions) : Cxx Options := do
  require (within o.matchScore 0 64 ∧ within o.level 1 22 ∧
    within o.windowLog 10 hdiffWindowLogMax ∧ automaticOr o.fastBlockBytes 4 1048576 ∧
    within o.stepBytes 4096 262144 ∧ within o.contentSize 0 1 ∧ within o.checksum 0 1) .option
  return ⟨o.level, o.windowLog, 0, o.contentSize, o.checksum, o.matchScore, o.fastBlockBytes,
    o.stepBytes, 0, 0, 0, 0, 0⟩

def zstdOptions (o : ZstdOptions) : Cxx Options := do
  require (within o.level 1 22 ∧ automaticOr o.windowLog 10 zstdWindowLogMax ∧
    within o.ldm 0 2 ∧ within o.contentSize 0 1 ∧ within o.checksum 0 1 ∧
    automaticOr o.ldmHashLog 6 23 ∧ automaticOr o.ldmMinMatch 4 4096 ∧
    automaticOr o.ldmBucketLog 1 8 ∧ automaticOr o.ldmRateLog 1 24) .option
  require (o.ldmHashLog = 0 ∨ o.ldmBucketLog ≤ o.ldmHashLog) .option
  require (o.ldm = 1 ∨ ¬ (o.ldmHashLog ≠ 0 ∨ o.ldmMinMatch ≠ 0 ∨ o.ldmBucketLog ≠ 0 ∨
    o.ldmRateLog ≠ 0)) .option
  return ⟨o.level, o.windowLog, 0, o.contentSize, o.checksum, 0, 0, 0, o.ldm, o.ldmHashLog,
    o.ldmMinMatch, o.ldmBucketLog, o.ldmRateLog⟩

theorem hdiffOptions_ok {p : HDiffOptions} {o : Options} (h : hdiffOptions p = .ok o) :
    within o.level 1 22 ∧ within o.windowLog 10 hdiffWindowLogMax ∧ o.level = p.level ∧
      o.windowLog = p.windowLog ∧ within o.contentSize 0 1 ∧ within o.checksum 0 1 := by
  simp only [hdiffOptions, bind_eq_ok, require_eq_ok] at h
  obtain ⟨-, ⟨-, hlevel, hwindow, -, -, hsize, hcheck⟩, h⟩ := h
  obtain rfl := Except.ok.inj h
  exact ⟨hlevel, hwindow, rfl, rfl, hsize, hcheck⟩

theorem zstdOptions_ok {p : ZstdOptions} {o : Options} (h : zstdOptions p = .ok o) :
    within o.level 1 22 ∧ automaticOr o.windowLog 10 zstdWindowLogMax ∧ o.level = p.level ∧
      o.windowLog = p.windowLog ∧ o.workers = 0 ∧ within o.ldm 0 2 := by
  simp only [zstdOptions, bind_eq_ok, require_eq_ok] at h
  obtain ⟨-, ⟨hlevel, hwindow, hldm, -⟩, -, -, -, -, h⟩ := h
  obtain rfl := Except.ok.inj h
  exact ⟨hlevel, hwindow, rfl, rfl, rfl, hldm⟩

structure HDiffOptions.Documented (o : HDiffOptions) : Prop where
  matchScore : 0 ≤ o.matchScore ∧ o.matchScore ≤ 64
  level : 1 ≤ o.level ∧ o.level ≤ 22
  windowLog : 10 ≤ o.windowLog ∧ o.windowLog ≤ 23
  fastBlockBytes : o.fastBlockBytes = 0 ∨ (4 ≤ o.fastBlockBytes ∧ o.fastBlockBytes ≤ 1048576)
  stepBytes : 4096 ≤ o.stepBytes ∧ o.stepBytes ≤ 262144
  contentSize : 0 ≤ o.contentSize ∧ o.contentSize ≤ 1
  checksum : 0 ≤ o.checksum ∧ o.checksum ≤ 1

/-- The tuning values need LDM to be on, and a hash log holds its buckets. -/
structure ZstdOptions.Documented (o : ZstdOptions) : Prop where
  level : 1 ≤ o.level ∧ o.level ≤ 22
  windowLog : o.windowLog = 0 ∨ (10 ≤ o.windowLog ∧ o.windowLog ≤ 30)
  ldm : 0 ≤ o.ldm ∧ o.ldm ≤ 2
  contentSize : 0 ≤ o.contentSize ∧ o.contentSize ≤ 1
  checksum : 0 ≤ o.checksum ∧ o.checksum ≤ 1
  ldmHashLog : o.ldmHashLog = 0 ∨ (6 ≤ o.ldmHashLog ∧ o.ldmHashLog ≤ 23)
  ldmMinMatch : o.ldmMinMatch = 0 ∨ (4 ≤ o.ldmMinMatch ∧ o.ldmMinMatch ≤ 4096)
  ldmBucketLog : o.ldmBucketLog = 0 ∨ (1 ≤ o.ldmBucketLog ∧ o.ldmBucketLog ≤ 8)
  ldmRateLog : o.ldmRateLog = 0 ∨ (1 ≤ o.ldmRateLog ∧ o.ldmRateLog ≤ 24)
  buckets : o.ldmHashLog = 0 ∨ o.ldmBucketLog ≤ o.ldmHashLog
  tuning : o.ldm = 1 ∨
    (o.ldmHashLog = 0 ∧ o.ldmMinMatch = 0 ∧ o.ldmBucketLog = 0 ∧ o.ldmRateLog = 0)

def HDiffOptions.options (o : HDiffOptions) : Options where
  level := o.level
  windowLog := o.windowLog
  workers := 0
  contentSize := o.contentSize
  checksum := o.checksum
  matchScore := o.matchScore
  fastBlockBytes := o.fastBlockBytes
  stepBytes := o.stepBytes
  ldm := 0
  ldmHashLog := 0
  ldmMinMatch := 0
  ldmBucketLog := 0
  ldmRateLog := 0

def ZstdOptions.options (o : ZstdOptions) : Options where
  level := o.level
  windowLog := o.windowLog
  workers := 0
  contentSize := o.contentSize
  checksum := o.checksum
  matchScore := 0
  fastBlockBytes := 0
  stepBytes := 0
  ldm := o.ldm
  ldmHashLog := o.ldmHashLog
  ldmMinMatch := o.ldmMinMatch
  ldmBucketLog := o.ldmBucketLog
  ldmRateLog := o.ldmRateLog

/-- Exactly the documented options pass, as they are. -/
theorem hdiffOptions_eq_ok {p : HDiffOptions} {o : Options} :
    hdiffOptions p = .ok o ↔ p.Documented ∧ o = p.options := by
  simp only [hdiffOptions, bind_eq_ok, require_eq_ok]
  constructor
  · rintro ⟨-, ⟨hscore, hlevel, hwindow, hblock, hstep, hsize, hcheck⟩, h⟩
    exact ⟨⟨hscore, hlevel, hwindow, hblock, hstep, hsize, hcheck⟩, (Except.ok.inj h).symm⟩
  · rintro ⟨⟨hscore, hlevel, hwindow, hblock, hstep, hsize, hcheck⟩, rfl⟩
    exact ⟨(), ⟨hscore, hlevel, hwindow, hblock, hstep, hsize, hcheck⟩, rfl⟩

theorem zstdOptions_eq_ok {p : ZstdOptions} {o : Options} :
    zstdOptions p = .ok o ↔ p.Documented ∧ o = p.options := by
  simp only [zstdOptions, bind_eq_ok, require_eq_ok]
  constructor
  · rintro ⟨-, ⟨hlevel, hwindow, hldm, hsize, hcheck, hhash, hmatch, hbucket, hrate⟩, -, hbuckets, -,
      htuning, h⟩
    refine ⟨⟨hlevel, hwindow, hldm, hsize, hcheck, hhash, hmatch, hbucket, hrate, hbuckets, ?_⟩,
      (Except.ok.inj h).symm⟩
    exact htuning.imp_right fun h => by simpa only [not_or, not_not] using h
  · rintro ⟨⟨hlevel, hwindow, hldm, hsize, hcheck, hhash, hmatch, hbucket, hrate, hbuckets, htuning⟩,
      rfl⟩
    refine ⟨(), ⟨hlevel, hwindow, hldm, hsize, hcheck, hhash, hmatch, hbucket, hrate⟩, (), hbuckets,
      (), ?_, rfl⟩
    exact htuning.imp_right fun h => by simpa only [not_or, not_not] using h

theorem hdiffOptions_cases (p : HDiffOptions) :
    hdiffOptions p = fail .option ∨ ∃ o, hdiffOptions p = .ok o := by
  unfold hdiffOptions
  simp only [require_bind]
  split
  · exact .inr ⟨_, rfl⟩
  · exact .inl rfl

theorem zstdOptions_cases (p : ZstdOptions) :
    zstdOptions p = fail .option ∨ ∃ o, zstdOptions p = .ok o := by
  unfold zstdOptions
  simp only [require_bind]
  split
  · split
    · split
      · exact .inr ⟨_, rfl⟩
      · exact .inl rfl
    · exact .inl rfl
  · exact .inl rfl

end Pyhdiff.Native
