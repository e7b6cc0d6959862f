import Pyhdiff.Native.Encode
import Mathlib.Data.Nat.Size

/-! The parameters `zstd_encode` hands to zstd for accepted options: what is set
explicitly, and what is derived from the sizes and from zstd's own parameters. -/
namespace Pyhdiff.Native
open Streaming

theorem clamp_mem (v : Int) {low high : Int} (h : low ≤ high) :
    low ≤ clamp v low high ∧ clamp v low high ≤ high := by
  unfold clamp
  split
  · exact ⟨Int.le_refl _, h⟩
  · split <;> omega

theorem bitLength_eq_size {tn : Nat} (h : tn < 2 ^ 64) : bitLength tn = Nat.size tn := by
  have hhalf : ∀ n, n ≠ 0 → Nat.size (n / 2) + 1 = Nat.size n := by
    intro n hn
    have hbit := Nat.bit_bodd_div2 n
    rw [Nat.div2_val] at hbit
    rw [← hbit] at hn
    rw [← Nat.succ_eq_add_one, ← Nat.size_bit hn, hbit]
  obtain ⟨hcount, hend⟩ := repeatWhile_ends (fun s : Nat × Nat => decide (s.1 ≠ 0))
    (fun s => (s.1 / 2, s.2 + 1)) (fun s => s.2 + Nat.size s.1 = Nat.size tn)
    (fun s => Nat.size s.1) (fun s hs hmore => by
      have := hhalf s.1 (of_decide_eq_true hmore)
      exact ⟨by simp only; omega, by simp only; omega⟩)
    64 (tn, 0) (Nat.zero_add _) (Nat.size_le.mpr h)
  have hzero := not_not.mp (of_decide_eq_false hend)
  rw [hzero, Nat.size_zero, Nat.add_zero] at hcount
  exact hcount

theorem toInt_small {n : Nat} (h : n < 2 ^ 31) : toInt n = n := by
  unfold toInt
  rw [Int.bmod_eq_of_le] <;> omega

/-- What zstd documents of the parameters it derives. `chainLog` is an `unsigned`. -/
structure CParams.Documented (p : CParams) : Prop where
  windowLog : 10 ≤ p.windowLog ∧ p.windowLog ≤ 31
  chainLog : 6 ≤ p.chainLog ∧ p.chainLog < 2 ^ 32
  strategy : 1 ≤ p.strategy ∧ p.strategy ≤ 9

structure Zstd.DerivesParameters (Z : Zstd) : Prop where
  derived : ∀ level tn bn, (Z.getCParams level tn bn).Documented
  adjusted : ∀ {p} tn bn, p.Documented → (Z.adjustCParams p tn bn).Documented

theorem ldmThreshold_eq {p : CParams} (h : p.Documented) :
    (ldmThreshold p : Int) = p.chainLog - if btlazy2 ≤ p.strategy then 1 else 0 := by
  have := h.chainLog
  unfold ldmThreshold
  split
  · omega
  · omega

def hashLogParams (Z : Zstd) (o : Options) (window : Int) (bn tn : Nat) : CParams :=
  Z.adjustCParams { Z.getCParams o.level tn bn with
    windowLog := if window ≠ 0 then (window % 2 ^ 32).toNat else 27 } (max tn 1) bn

def ldmRate (o : Options) (p : CParams) : Int :=
  if o.ldmRateLog ≠ 0 then o.ldmRateLog else 7 - toInt p.strategy / 3

theorem resolveHashLog_eq (Z : Zstd) (o : Options) (window : Int) (bn tn : Nat) :
    resolveHashLog Z o window bn tn =
      if o.ldmHashLog = 0 ∧ (o.ldmBucketLog ≠ 0 ∨ o.ldmRateLog ≠ 0) then
        max o.ldmBucketLog (clamp (toInt (hashLogParams Z o window bn tn).windowLog -
          ldmRate o (hashLogParams Z o window bn tn)) 6 30)
      else o.ldmHashLog := rfl

section
variable {Z : Zstd} {p : ZstdOptions} {o : Options} {bn tn : Nat}

theorem resolveWindow_window (hp : p.Documented) (bn tn : Nat) : (resolveWindow Z p.options bn tn).1 = 0 ∨
    (10 ≤ (resolveWindow Z p.options bn tn).1 ∧ (resolveWindow Z p.options bn tn).1 ≤ 30) := by
  unfold resolveWindow
  split
  · exact .inr (clamp_mem _ (by decide))
  · split
    · exact hp.windowLog
    · exact hp.windowLog

theorem resolveWindow_explicit (h : o.windowLog ≠ 0) :
    (resolveWindow Z o bn tn).1 = o.windowLog := by
  unfold resolveWindow
  rw [if_neg fun hauto => h hauto.2]
  split <;> rfl

/-- The derived window reaches back over the whole target. -/
theorem resolveWindow_covers (hbn : bn ≠ 0) (hwindow : o.windowLog = 0) (htn : tn < 2 ^ 30) :
    ∃ w : Nat, (resolveWindow Z o bn tn).1 = w ∧ 10 ≤ w ∧ w ≤ 30 ∧ tn < 2 ^ w := by
  have hlog := bitLength_eq_size (show tn < 2 ^ 64 by omega)
  have hsize : Nat.size tn ≤ 30 := Nat.size_le.mpr htn
  refine ⟨max 10 (Nat.size tn), ?_, Nat.le_max_left _ _, by omega, ?_⟩
  · unfold resolveWindow clamp
    rw [if_pos ⟨hbn, hwindow⟩, hlog]
    dsimp only
    split
    · omega
    · split <;> omega
  · exact (Nat.lt_size_self tn).trans_le (Nat.pow_le_pow_right (by decide) (Nat.le_max_right _ _))

theorem resolveWindow_ldm (h : o.ldm ≠ 0) : (resolveWindow Z o bn tn).2 = o.ldm := by
  unfold resolveWindow
  split
  · exact if_neg fun hauto => h hauto.1
  · rw [if_neg fun hauto => h hauto.2]

/-- Automatic LDM compares the bits of the target with the chain log. -/
theorem resolveWindow_auto (hbn : bn ≠ 0) (hwindow : o.windowLog = 0) (hldm : o.ldm = 0)
    (htn : tn < 2 ^ 64) : (resolveWindow Z o bn tn).2 =
      if ldmThreshold (Z.getCParams o.level tn bn) < Nat.size tn then 1 else 0 := by
  unfold resolveWindow
  rw [if_pos ⟨hbn, hwindow⟩, bitLength_eq_size htn]
  dsimp only
  simp only [hldm, true_and]

theorem resolveWindow_ldm_mem (hp : p.Documented) :
    0 ≤ (resolveWindow Z p.options bn tn).2 ∧ (resolveWindow Z p.options bn tn).2 ≤ 2 := by
  have hldm : 0 ≤ p.options.ldm ∧ p.options.ldm ≤ 2 := hp.ldm
  unfold resolveWindow
  split
  · dsimp only
    split
    · exact ⟨by decide, by decide⟩
    · exact hldm
  · split
    · exact ⟨Int.one_nonneg, by dsimp only; decide⟩
    · exact hldm

theorem resolveHashLog_cases (hp : p.Documented) (window : Int) (bn tn : Nat) :
    (resolveHashLog Z p.options window bn tn = 0 ∧ p.ldmBucketLog = 0) ∨
    (6 ≤ resolveHashLog Z p.options window bn tn ∧ resolveHashLog Z p.options window bn tn ≤ 30 ∧
      p.ldmBucketLog ≤ resolveHashLog Z p.options window bn tn) := by
  rw [resolveHashLog_eq]
  by_cases hauto : p.options.ldmHashLog = 0 ∧
      (p.options.ldmBucketLog ≠ 0 ∨ p.options.ldmRateLog ≠ 0)
  · rw [if_pos hauto]
    right
    have hbucket : p.options.ldmBucketLog = 0 ∨
        (1 ≤ p.options.ldmBucketLog ∧ p.options.ldmBucketLog ≤ 8) := hp.ldmBucketLog
    have hclamp := clamp_mem (toInt (hashLogParams Z p.options window bn tn).windowLog -
      ldmRate p.options (hashLogParams Z p.options window bn tn)) (by decide : (6 : Int) ≤ 30)
    refine ⟨hclamp.1.trans (Int.le_max_right _ _), Int.max_le.mpr ⟨by omega, hclamp.2⟩,
      Int.le_max_left _ _⟩
  · rw [if_neg hauto]
    have hhash := hp.ldmHashLog
    have hbuckets := hp.buckets
    change (p.ldmHashLog = 0 ∧ _) ∨ (6 ≤ p.ldmHashLog ∧ p.ldmHashLog ≤ 30 ∧
      p.ldmBucketLog ≤ p.ldmHashLog)
    change ¬ (p.ldmHashLog = 0 ∧ (p.ldmBucketLog ≠ 0 ∨ p.ldmRateLog ≠ 0)) at hauto
    omega

theorem resolveHashLog_explicit (window : Int) (h : o.ldmHashLog ≠ 0) :
    resolveHashLog Z o window bn tn = o.ldmHashLog := by
  rw [resolveHashLog_eq, if_neg fun hauto => h hauto.1]

theorem resolveHashLog_tuned (hp : p.Documented) (window : Int)
    (h : resolveHashLog Z p.options window bn tn ≠ 0) : p.ldm = 1 := by
  refine hp.tuning.resolve_right fun hzero => h ?_
  obtain ⟨hhash, -, hbucket, hrate⟩ := hzero
  rw [resolveHashLog_eq, if_neg]
  · exact hhash
  · rintro ⟨-, hset⟩
    exact hset.elim (fun h => h hbucket) fun h => h hrate

/-- No conversion on the way to the hash log changes a value, and the difference
that is clamped is the one between a window and a rate. -/
theorem hashLog_difference (hZ : Z.DerivesParameters) (hp : p.Documented) {window : Int}
    (hwindow : window = 0 ∨ (10 ≤ window ∧ window ≤ 30)) (bn tn : Nat) :
    (window % 2 ^ 32).toNat = window ∧
    toInt (hashLogParams Z p.options window bn tn).windowLog =
      (hashLogParams Z p.options window bn tn).windowLog ∧
    toInt (hashLogParams Z p.options window bn tn).strategy =
      (hashLogParams Z p.options window bn tn).strategy ∧
    1 ≤ ldmRate p.options (hashLogParams Z p.options window bn tn) ∧
    ldmRate p.options (hashLogParams Z p.options window bn tn) ≤ 24 ∧
    (hashLogParams Z p.options window bn tn).windowLog ≤ 31 := by
  have hcast : ((window % 2 ^ 32).toNat : Int) = window := by omega
  have hdocumented : (hashLogParams Z p.options window bn tn).Documented := by
    have hderived := hZ.derived p.options.level tn bn
    refine hZ.adjusted _ _ ⟨?_, hderived.chainLog, hderived.strategy⟩
    dsimp only
    split
    · omega
    · decide
  obtain ⟨hlog, -, hstrategy⟩ := hdocumented
  have hrate : p.options.ldmRateLog = 0 ∨
      (1 ≤ p.options.ldmRateLog ∧ p.options.ldmRateLog ≤ 24) := hp.ldmRateLog
  have hint := toInt_small (n := (hashLogParams Z p.options window bn tn).strategy) (by omega)
  have hrated : 1 ≤ ldmRate p.options (hashLogParams Z p.options window bn tn) ∧
      ldmRate p.options (hashLogParams Z p.options window bn tn) ≤ 24 := by
    unfold ldmRate
    split
    · omega
    · rw [hint]
      omega
  exact ⟨hcast, toInt_small (by omega), hint, hrated.1, hrated.2, hlog.2⟩

end

/-- A value that is set unless it is 0, which stands for automatic. -/
def nonzero (v : Int) : Option Int := if v ≠ 0 then some v else none

theorem nonzero_eq_some {v w : Int} : nonzero v = some w ↔ v = w ∧ w ≠ 0 := by
  unfold nonzero
  rw [Option.ite_none_right_eq_some, Option.some.injEq]
  constructor
  · rintro ⟨hne, rfl⟩
    exact ⟨rfl, hne⟩
  · rintro ⟨rfl, hne⟩
    exact ⟨hne, rfl⟩

def parameterValue (Z : Zstd) (o : Options) (bn tn : Nat) : CParameter → Option Int
  | .compressionLevel => some o.level
  | .nbWorkers => some o.workers
  | .contentSizeFlag => some o.contentSize
  | .checksumFlag => some o.checksum
  | .windowLog => nonzero (resolveWindow Z o bn tn).1
  | .enableLongDistanceMatching => nonzero (resolveWindow Z o bn tn).2
  | .ldmHashLog => nonzero (resolveHashLog Z o (resolveWindow Z o bn tn).1 bn tn)
  | .ldmMinMatch => nonzero o.ldmMinMatch
  | .ldmBucketSizeLog => nonzero o.ldmBucketLog
  | .ldmHashRateLog => nonzero o.ldmRateLog

/-- Every parameter is set at most once, and to this value. -/
theorem mem_zstdParameters {Z : Zstd} {o : Options} {bn tn : Nat} {q : CParameter} {v : Int} :
    (q, v) ∈ zstdParameters Z o bn tn ↔ parameterValue Z o bn tn q = some v := by
  simp only [zstdParameters, List.mem_append, List.mem_cons, List.not_mem_nil, or_false,
    List.mem_ite_nil_right, Prod.mk.injEq]
  cases q with
  | compressionLevel | nbWorkers | contentSizeFlag | checksumFlag =>
    simp only [parameterValue, Option.some.injEq, reduceCtorEq, true_and, false_and, and_false,
      or_false, false_or]
    exact eq_comm
  | _ =>
    simp only [parameterValue, nonzero_eq_some, reduceCtorEq, true_and, false_and, and_false,
      or_false, false_or]
    constructor
    · rintro ⟨hne, rfl⟩
      exact ⟨rfl, hne⟩
    · rintro ⟨rfl, hne⟩
      exact ⟨hne, rfl⟩

theorem Setup.setAll_set {P : Int → Prop} {l : List (CParameter × Int)} (s : Setup) {q : CParameter}
    (hset : ∃ v, (q, v) ∈ l) (hl : ∀ v, (q, v) ∈ l → P v) : P ((s.setAll l).params q) := by
  induction l generalizing s with
  | nil =>
    obtain ⟨v, hv⟩ := hset
    cases hv
  | cons p l ih =>
    by_cases hlater : ∃ v, (q, v) ∈ l
    · exact ih (s.set p.1 p.2) hlater fun v hv => hl v (List.mem_cons_of_mem p hv)
    · obtain ⟨v, hv⟩ := hset
      have hhead : (q, v) = p := (List.mem_cons.mp hv).resolve_right fun h => hlater ⟨v, h⟩
      refine Setup.setAll_params l (s.set p.1 p.2) q ?_ fun w hw => absurd ⟨w, hw⟩ hlater
      rw [← hhead]
      simpa only [Setup.set, if_true] using hl v hv

theorem zstdParameters_readBack {Z : Zstd} {o : Options} {bn tn : Nat} (s : Setup) {q : CParameter}
    {v : Int} (h : parameterValue Z o bn tn q = some v) :
    (s.setAll (zstdParameters Z o bn tn)).params q = v := by
  refine Setup.setAll_set (P := (· = v)) s ⟨v, mem_zstdParameters.mpr h⟩ fun w hw => ?_
  exact Option.some.inj ((mem_zstdParameters.mp hw).symm.trans h)

def CParameter.tunesLdm : CParameter → Bool
  | .ldmHashLog | .ldmMinMatch | .ldmBucketSizeLog | .ldmHashRateLog => true
  | _ => false

theorem parameterValue_tunes (Z : Zstd) (bn tn : Nat) {p : ZstdOptions} (hp : p.Documented)
    {q : CParameter} (hq : q.tunesLdm = true) {v : Int}
    (h : parameterValue Z p.options bn tn q = some v) : p.ldm = 1 := by
  cases q with
  | ldmHashLog =>
    obtain ⟨hv, hne⟩ := nonzero_eq_some.mp h
    exact resolveHashLog_tuned hp _ (hv ▸ hne)
  | ldmMinMatch =>
    obtain ⟨hv, hne⟩ := nonzero_eq_some.mp h
    exact hp.tuning.resolve_right fun hzero => hne (hv ▸ hzero.2.1)
  | ldmBucketSizeLog =>
    obtain ⟨hv, hne⟩ := nonzero_eq_some.mp h
    exact hp.tuning.resolve_right fun hzero => hne (hv ▸ hzero.2.2.1)
  | ldmHashRateLog =>
    obtain ⟨hv, hne⟩ := nonzero_eq_some.mp h
    exact hp.tuning.resolve_right fun hzero => hne (hv ▸ hzero.2.2.2)
  | _ => cases hq

theorem parameterValue_hash (Z : Zstd) (bn tn : Nat) {p : ZstdOptions} (hp : p.Documented)
    (hbucket : p.ldmBucketLog ≠ 0) :
    ∃ hash, parameterValue Z p.options bn tn .ldmHashLog = some hash ∧ 6 ≤ hash ∧ hash ≤ 30 ∧
      p.ldmBucketLog ≤ hash := by
  have hcases := resolveHashLog_cases (Z := Z) hp (resolveWindow Z p.options bn tn).1 bn tn
  cases hcases with
  | inl hzero => exact absurd hzero.2 hbucket
  | inr hhash => exact ⟨_, nonzero_eq_some.mpr ⟨rfl, by omega⟩, hhash⟩

def CParameter.InBounds : CParameter → Int → Prop
  | .enableLongDistanceMatching, v => 0 ≤ v ∧ v ≤ 2
  | .ldmHashLog, v => 6 ≤ v ∧ v ≤ 30
  | .ldmMinMatch, v => 4 ≤ v ∧ v ≤ 4096
  | .ldmBucketSizeLog, v => 1 ≤ v ∧ v ≤ 8
  | .ldmHashRateLog, v => 1 ≤ v ∧ v ≤ 25
  | q, v => q.Allows v

theorem CParameter.Allows.inBounds {q : CParameter} {v : Int} (h : q.Allows v) : q.InBounds v := by
  cases q with
  | enableLongDistanceMatching | ldmHashLog | ldmMinMatch | ldmBucketSizeLog | ldmHashRateLog =>
    exact h.elim
  | _ => exact h

/-- No documented option makes zstd refuse a parameter. -/
theorem zstdParameters_inBounds (Z : Zstd) (bn tn : Nat) {p : ZstdOptions} (hp : p.Documented) :
    ∀ q ∈ zstdParameters Z p.options bn tn, q.1.InBounds q.2 := by
  rintro ⟨q, v⟩ hq
  have hset := mem_zstdParameters.mp hq
  cases q with
  | compressionLevel =>
    obtain rfl := Option.some.inj hset
    exact hp.level
  | nbWorkers =>
    obtain rfl := Option.some.inj hset
    rfl
  | contentSizeFlag =>
    obtain rfl := Option.some.inj hset
    have : 0 ≤ p.options.contentSize ∧ p.options.contentSize ≤ 1 := hp.contentSize
    exact (by omega : p.options.contentSize = 0 ∨ p.options.contentSize = 1)
  | checksumFlag =>
    obtain rfl := Option.some.inj hset
    have : 0 ≤ p.options.checksum ∧ p.options.checksum ≤ 1 := hp.checksum
    exact (by omega : p.options.checksum = 0 ∨ p.options.checksum = 1)
  | windowLog =>
    obtain ⟨rfl, hne⟩ := nonzero_eq_some.mp hset
    have hwindow := (resolveWindow_window (Z := Z) hp bn tn).resolve_left hne
    exact ⟨hwindow.1, hwindow.2.trans (by decide)⟩
  | enableLongDistanceMatching =>
    obtain ⟨rfl, -⟩ := nonzero_eq_some.mp hset
    exact resolveWindow_ldm_mem hp
  | ldmHashLog =>
    obtain ⟨rfl, hne⟩ := nonzero_eq_some.mp hset
    have hcases := resolveHashLog_cases (Z := Z) hp (resolveWindow Z p.options bn tn).1 bn tn
    have hhash := hcases.resolve_left fun h => hne h.1
    exact ⟨hhash.1, hhash.2.1⟩
  | ldmMinMatch =>
    obtain ⟨rfl, hne⟩ := nonzero_eq_some.mp hset
    exact hp.ldmMinMatch.resolve_left hne
  | ldmBucketSizeLog =>
    obtain ⟨rfl, hne⟩ := nonzero_eq_some.mp hset
    exact hp.ldmBucketLog.resolve_left hne
  | ldmHashRateLog =>
    obtain ⟨rfl, hne⟩ := nonzero_eq_some.mp hset
    have hrate := hp.ldmRateLog.resolve_left hne
    exact ⟨hrate.1, hrate.2.trans (by decide)⟩

/-- `if (v) x;`, for a value that is 0 when automatic. -/
def unlessZero (v : Int) (x : Cxx Unit) : Cxx Unit := if v ≠ 0 then x else .ok ()

/-- `verify_options` of the test build, on what the context reads back. -/
def verifyOptions (params : CParameter → Int) (o : Options) (hdiff : Bool) : Cxx Unit := do
  let same (parameter : CParameter) (expected : Int) : Cxx Unit :=
    require (params parameter = expected) .invalid
  same .compressionLevel o.level
  same .nbWorkers o.workers
  same .contentSizeFlag o.contentSize
  same .checksumFlag o.checksum
  unlessZero o.windowLog (same .windowLog o.windowLog)
  if hdiff then return ()
  unlessZero o.ldm (same .enableLongDistanceMatching o.ldm)
  let hash := if o.ldmHashLog ≠ 0 then same .ldmHashLog o.ldmHashLog
    else unlessZero o.ldmBucketLog (require (params .ldmHashLog ≥ o.ldmBucketLog) .invalid)
  hash
  unlessZero o.ldmMinMatch (same .ldmMinMatch o.ldmMinMatch)
  unlessZero o.ldmBucketLog (same .ldmBucketSizeLog o.ldmBucketLog)
  unlessZero o.ldmRateLog (same .ldmHashRateLog o.ldmRateLog)

def ZstdOptions.explicit (o : ZstdOptions) : List (CParameter × Int) :=
  [(.compressionLevel, o.level), (.contentSizeFlag, o.contentSize), (.checksumFlag, o.checksum),
    (.windowLog, o.windowLog), (.enableLongDistanceMatching, o.ldm), (.ldmHashLog, o.ldmHashLog),
    (.ldmMinMatch, o.ldmMinMatch), (.ldmBucketSizeLog, o.ldmBucketLog),
    (.ldmHashRateLog, o.ldmRateLog)].filter fun q => q.2 ≠ 0

theorem explicit_set (Z : Zstd) {p : ZstdOptions} (bn tn : Nat) {q : CParameter × Int}
    (h : q ∈ p.explicit) : parameterValue Z p.options bn tn q.1 = some q.2 := by
  obtain ⟨hmem, hne⟩ := List.mem_filter.mp h
  have hne := of_decide_eq_true hne
  simp only [List.mem_cons, List.not_mem_nil, or_false] at hmem
  rcases hmem with rfl | rfl | rfl | rfl | rfl | rfl | rfl | rfl | rfl
  · rfl
  · rfl
  · rfl
  · exact nonzero_eq_some.mpr ⟨resolveWindow_explicit hne, hne⟩
  · exact nonzero_eq_some.mpr ⟨resolveWindow_ldm hne, hne⟩
  · exact nonzero_eq_some.mpr ⟨resolveHashLog_explicit _ hne, hne⟩
  · exact nonzero_eq_some.mpr ⟨rfl, hne⟩
  · exact nonzero_eq_some.mpr ⟨rfl, hne⟩
  · exact nonzero_eq_some.mpr ⟨rfl, hne⟩

theorem require_ok {c : Prop} [Decidable c] {s : Status} (h : c) : require c s = .ok () := if_pos h

theorem unlessZero_ok {v : Int} {x : Cxx Unit} (h : v ≠ 0 → x = .ok ()) :
    unlessZero v x = .ok () := by
  unfold unlessZero
  split
  · exact h ‹_›
  · rfl

/-- The test build's own check of the parameters always passes. -/
theorem zstdParameters_verified {Z : Zstd} {p : ZstdOptions} {bn tn : Nat} (hp : p.Documented)
    (s : Setup) :
    verifyOptions (s.setAll (zstdParameters Z p.options bn tn)).params p.options false = .ok () := by
  have hsame : ∀ {q v}, parameterValue Z p.options bn tn q = some v →
      require ((s.setAll (zstdParameters Z p.options bn tn)).params q = v) .invalid = .ok () :=
    fun h => require_ok (zstdParameters_readBack s h)
  have hauto : ∀ {q v}, (v ≠ 0 → parameterValue Z p.options bn tn q = some v) → unlessZero v
      (require ((s.setAll (zstdParameters Z p.options bn tn)).params q = v) .invalid) = .ok () :=
    fun h => unlessZero_ok fun hne => hsame (h hne)
  unfold verifyOptions
  simp only [Bool.false_eq_true, if_false]
  rw [hsame rfl, ok_bind, hsame rfl, ok_bind, hsame rfl, ok_bind, hsame rfl, ok_bind,
    hauto (q := .windowLog) fun h => nonzero_eq_some.mpr ⟨resolveWindow_explicit h, h⟩, ok_bind,
    hauto (q := .enableLongDistanceMatching) fun h =>
      nonzero_eq_some.mpr ⟨resolveWindow_ldm h, h⟩, ok_bind]
  have hhash : (if p.options.ldmHashLog ≠ 0 then
      require ((s.setAll (zstdParameters Z p.options bn tn)).params .ldmHashLog =
        p.options.ldmHashLog) .invalid
    else unlessZero p.options.ldmBucketLog
      (require ((s.setAll (zstdParameters Z p.options bn tn)).params .ldmHashLog ≥
        p.options.ldmBucketLog) .invalid)) = .ok () := by
    split
    · rename_i hne
      exact hsame (q := .ldmHashLog) (nonzero_eq_some.mpr ⟨resolveHashLog_explicit _ hne, hne⟩)
    · refine unlessZero_ok fun hbucket => ?_
      obtain ⟨hash, hset, -, -, hge⟩ := parameterValue_hash Z bn tn hp hbucket
      have hread := zstdParameters_readBack s hset
      exact require_ok (hread ▸ hge)
  rw [hhash, ok_bind, hauto (q := .ldmMinMatch) fun h => nonzero_eq_some.mpr ⟨rfl, h⟩, ok_bind,
    hauto (q := .ldmBucketSizeLog) fun h => nonzero_eq_some.mpr ⟨rfl, h⟩, ok_bind,
    hauto (q := .ldmHashRateLog) fun h => nonzero_eq_some.mpr ⟨rfl, h⟩]

end Pyhdiff.Native
