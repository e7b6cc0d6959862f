import Pyhdiff.Guarantees.Stored
import Pyhdiff.Native.Parameters
import Pyhdiff.Native.Refusals

/-! Which values of a profile are accepted, and where they go. -/
namespace Pyhdiff.Guarantees
open Native Python

def FitsInt (v : Int) : Prop := -2 ^ 31 ≤ v ∧ v < 2 ^ 31

instance (v : Int) : Decidable (FitsInt v) := inferInstanceAs (Decidable (-2 ^ 31 ≤ v ∧ v < 2 ^ 31))

theorem parseInt_bind {α : Type} (v : Int) (f : Int → Py α) :
    (parseInt v >>= f) = if FitsInt v then f v else raise .overflowError := by
  by_cases h : FitsInt v
  · have hparse : parseInt v = .ok v := if_pos h
    rw [if_pos h, hparse, ok_bind]
  · have hparse : parseInt v = raise .overflowError := if_neg h
    rw [if_neg h, hparse]
    rfl

theorem fitsInt_of_mem {v low high : Int} (h : low ≤ v ∧ v ≤ high) (hlow : -2 ^ 31 ≤ low)
    (hhigh : high < 2 ^ 31) : FitsInt v := ⟨hlow.trans h.1, h.2.trans_lt hhigh⟩

theorem fitsInt_toInt (b : Bool) : FitsInt b.toInt := by cases b <;> decide

/-- What the profile documents. The two flags are booleans. -/
structure HDiffDocumented (p : HDiffProfile) : Prop where
  matchScore : 0 ≤ p.matchScore ∧ p.matchScore ≤ 64
  level : 1 ≤ p.level ∧ p.level ≤ 22
  windowLog : 10 ≤ p.windowLog ∧ p.windowLog ≤ 23
  fastBlockBytes : p.fastBlockBytes = 0 ∨ (4 ≤ p.fastBlockBytes ∧ p.fastBlockBytes ≤ 1048576)
  stepBytes : 4096 ≤ p.stepBytes ∧ p.stepBytes ≤ 262144

structure ZstdDocumented (p : ZstdProfile) : Prop where
  level : 1 ≤ p.level ∧ p.level ≤ 22
  windowLog : p.windowLog = 0 ∨ (10 ≤ p.windowLog ∧ p.windowLog ≤ 30)
  ldmHashLog : p.ldmHashLog = 0 ∨ (6 ≤ p.ldmHashLog ∧ p.ldmHashLog ≤ 23)
  ldmMinMatch : p.ldmMinMatch = 0 ∨ (4 ≤ p.ldmMinMatch ∧ p.ldmMinMatch ≤ 4096)
  ldmBucketLog : p.ldmBucketLog = 0 ∨ (1 ≤ p.ldmBucketLog ∧ p.ldmBucketLog ≤ 8)
  ldmRateLog : p.ldmRateLog = 0 ∨ (1 ≤ p.ldmRateLog ∧ p.ldmRateLog ≤ 24)
  buckets : p.ldmHashLog = 0 ∨ p.ldmBucketLog ≤ p.ldmHashLog
  tuning : p.ldm = "on" ∨
    (p.ldmHashLog = 0 ∧ p.ldmMinMatch = 0 ∧ p.ldmBucketLog = 0 ∧ p.ldmRateLog = 0)

structure CompressDocumented (level windowLog : Int) : Prop where
  level : 1 ≤ level ∧ level ≤ 22
  windowLog : windowLog = 0 ∨ (10 ≤ windowLog ∧ windowLog ≤ 30)

def hdiffFields (p : HDiffProfile) : List Int :=
  [p.matchScore, p.level, p.windowLog, p.fastBlockBytes, p.stepBytes]

def zstdFields (p : ZstdProfile) : List Int :=
  [p.level, p.windowLog, p.ldmHashLog, p.ldmMinMatch, p.ldmBucketLog, p.ldmRateLog]

/-- The option set that holds every field of a profile under its own name. -/
def hdiffOptionSet (p : HDiffProfile) : Options where
  level := p.level
  windowLog := p.windowLog
  workers := 0
  contentSize := if p.contentSize then 1 else 0
  checksum := if p.checksum then 1 else 0
  matchScore := p.matchScore
  fastBlockBytes := p.fastBlockBytes
  stepBytes := p.stepBytes
  ldm := 0
  ldmHashLog := 0
  ldmMinMatch := 0
  ldmBucketLog := 0
  ldmRateLog := 0

def zstdOptionSet (p : ZstdProfile) : Options where
  level := p.level
  windowLog := p.windowLog
  workers := 0
  contentSize := if p.contentSize then 1 else 0
  checksum := if p.checksum then 1 else 0
  matchScore := 0
  fastBlockBytes := 0
  stepBytes := 0
  ldm := if p.ldm = "on" then 1 else if p.ldm = "off" then 2 else 0
  ldmHashLog := p.ldmHashLog
  ldmMinMatch := p.ldmMinMatch
  ldmBucketLog := p.ldmBucketLog
  ldmRateLog := p.ldmRateLog

def hdiffRun (C : Host) (I : Interpreter) (base target : Bytes) (o : Options) : Py Bytes :=
  call false (Extension.finish I (boundary do
    let encoded ← hdiffEncode C.zstd C.hdiff C.heap C.passes base target o
    encoded.release C.heap))

def zstdRun (C : Host) (I : Interpreter) (base target : Bytes) (o : Options) (limits : Limits) :
    Py Bytes :=
  call false (Extension.finish I (boundary do
    let encoded ← zstdEncode C.zstd C.heap C.passes base target o limits
    encoded.release C.heap))

/-- A call is validated when it raises the exception for options exactly on what
is not documented, and on the rest hands zstd only parameters in their ranges and
is the run of its codec. -/
structure Validated (x : Py Bytes) (documented : Prop) (parameters : List (CParameter × Int))
    (run : Py Bytes) : Prop where
  refused : (∃ message, x = raise (.optionError message)) ↔ ¬ documented
  inBounds : documented → ∀ q ∈ parameters, q.1.InBounds q.2
  passed : documented → x = run

/-- What the extension module and the bridge do with a profile: values that do
not fit an `int` overflow before they are validated. -/
structure Parsed (x : Py Bytes) (documented fits : Prop) (run : Py Bytes) : Prop where
  overflow : ¬ fits → x = raise .overflowError
  option : fits → ¬ documented → ∃ message, x = raise (.optionError message)
  passed : documented → x = run
  run : ∀ message, run ≠ raise (.optionError message)

theorem Parsed.validated_iff {x run : Py Bytes} {documented fits : Prop}
    {parameters : List (CParameter × Int)} (h : Parsed x documented fits run)
    (hfits : documented → fits) (hbounds : documented → ∀ q ∈ parameters, q.1.InBounds q.2) :
    Validated x documented parameters run ↔ fits := by
  constructor
  · intro hvalidated
    by_contra hno
    obtain ⟨message, hraised⟩ := hvalidated.refused.mpr fun hdoc => hno (hfits hdoc)
    rw [h.overflow hno] at hraised
    cases hraised
  · refine fun hfit => ⟨⟨?_, h.option hfit⟩, hbounds, h.passed⟩
    rintro ⟨message, hraised⟩ hdoc
    exact h.run message ((h.passed hdoc).symm.trans hraised)

theorem Parsed.of_validates {c documented fits : Prop} [Decidable c] {x run : Py Bytes}
    (hparses : c ↔ fits) (hfits : documented → fits)
    (hrefused : ¬ documented → ∃ message, call false x = raise (.optionError message))
    (hpassed : documented → call false x = run)
    (hrun : ∀ message, run ≠ raise (.optionError message)) :
    Parsed (call false (if c then x else raise .overflowError)) documented fits run where
  overflow hno := by
    rw [if_neg (hno ∘ hparses.mp)]
    rfl
  option hfit hno := by
    rw [if_pos (hparses.mpr hfit)]
    exact hrefused hno
  passed hdoc := by
    rw [if_pos (hparses.mpr (hfits hdoc))]
    exact hpassed hdoc
  run := hrun

theorem Parsed.map {x run : Py Bytes} {documented fits : Prop} (h : Parsed x documented fits run)
    (f : Bytes → Bytes) :
    Parsed (x >>= fun b => .ok (f b)) documented fits (run >>= fun b => .ok (f b)) where
  overflow hno := by rw [h.overflow hno]; rfl
  option hfit hdoc := by
    obtain ⟨message, hraised⟩ := h.option hfit hdoc
    exact ⟨message, by rw [hraised]; rfl⟩
  passed hdoc := by rw [h.passed hdoc]
  run message hraised := by
    have hrun := h.run message
    cases run with
    | error e =>
      cases hraised
      exact hrun rfl
    | ok b => cases hraised

theorem exceptionOf_option {code : Nat} {decoding : Bool} {message : String}
    (h : exceptionOf code decoding = .optionError message) : code = Status.option.code := by
  unfold exceptionOf at h
  split at h
  · cases h
  split at h
  · assumption
  split at h
  · cases h
  split at h
  · cases h
  split at h
  · dsimp only at h
    split at h
    · cases h
    split at h
    · cases h
    · cases h
  · cases h

theorem code_eq_option {s : Status} (h : s.code = Status.option.code) : s = .option := by
  cases s with
  | option => rfl
  | zstdError e =>
    simp only [Status.code, zstdErrorBase] at h
    omega
  | _ => cases h

theorem unrefused_reported {I : Interpreter} {y : Cxx Cells} (h : Unrefused y) (message : String) :
    call false (Extension.finish I (boundary y)) ≠ raise (.optionError message) := by
  intro hraised
  cases y with
  | error e =>
    cases e with
    | thrown t =>
      cases t with
      | failure s =>
        have hexn : exceptionOf s.code false = .optionError message :=
          Exit.raised.inj (Except.error.inj hraised)
        obtain rfl := code_eq_option (exceptionOf_option hexn)
        exact h rfl
      | _ => cases hraised
    | halt _ => cases hraised
  | ok cells =>
    simp only [boundary, Extension.finish] at hraised
    split at hraised
    · cases hraised
    · cases hraised

theorem refused_reported (I : Interpreter) : call false (Extension.finish I
    (boundary (fail .option))) = raise (.optionError "profile parameter out of range") := rfl

section
variable {C : Host} {I : Interpreter} (base target : Bytes)

theorem hdiffEncode_parses (args : HDiffOptions) : Extension.hdiffEncode C I base target args =
    if ∀ v ∈ [args.matchScore, args.level, args.windowLog, args.fastBlockBytes, args.stepBytes,
      args.contentSize, args.checksum], FitsInt v then
      Extension.finish I (C.phdHdiffEncode base target args)
    else raise .overflowError := by
  unfold Extension.hdiffEncode
  simp only [parseInt_bind, ← ite_and, List.forall_mem_cons, List.not_mem_nil, false_implies,
    implies_true, and_true]

theorem zstdEncode_parses (args : ZstdOptions) : Extension.zstdEncode C I base target args =
    if ∀ v ∈ [args.level, args.windowLog, args.ldm, args.contentSize, args.checksum,
      args.ldmHashLog, args.ldmMinMatch, args.ldmBucketLog, args.ldmRateLog], FitsInt v then
      Extension.finish I (C.phdZstdEncode base target args)
    else raise .overflowError := by
  unfold Extension.zstdEncode
  simp only [parseInt_bind, ← ite_and, List.forall_mem_cons, List.not_mem_nil, false_implies,
    implies_true, and_true]

theorem compress_parses (level windowLog checksum : Int) :
    Extension.compress C I target level windowLog checksum =
      if ∀ v ∈ [level, windowLog, checksum], FitsInt v then
        Extension.finish I (C.phdZstdCompress target level windowLog checksum)
      else raise .overflowError := by
  unfold Extension.compress
  simp only [parseInt_bind, ← ite_and, List.forall_mem_cons, List.not_mem_nil, false_implies,
    implies_true, and_true]

variable {base target}

theorem hdiffArgs_documented (p : HDiffProfile) : (hdiffArgs p).Documented ↔ HDiffDocumented p := by
  have hflag : ∀ b : Bool, 0 ≤ b.toInt ∧ b.toInt ≤ 1 := by decide
  constructor
  · rintro ⟨hscore, hlevel, hwindow, hblock, hstep, -, -⟩
    exact ⟨hscore, hlevel, hwindow, hblock, hstep⟩
  · rintro ⟨hscore, hlevel, hwindow, hblock, hstep⟩
    exact ⟨hscore, hlevel, hwindow, hblock, hstep, hflag _, hflag _⟩

theorem hdiffArgs_options (p : HDiffProfile) : (hdiffArgs p).options = hdiffOptionSet p := by
  have hflag : ∀ b : Bool, b.toInt = if b then 1 else 0 := by decide
  simp only [HDiffOptions.options, hdiffArgs, hdiffOptionSet, hflag]

theorem HDiffDocumented.fits {p : HDiffProfile} (h : HDiffDocumented p) :
    ∀ v ∈ hdiffFields p, FitsInt v := by
  obtain ⟨hscore, hlevel, hwindow, hblock, hstep⟩ := h
  simp only [hdiffFields, List.forall_mem_cons, List.not_mem_nil, false_implies, implies_true,
    and_true, FitsInt]
  omega

theorem hdiff_parsed (hH : C.hdiff.Foreign) (p : HDiffProfile) :
    Parsed (call false (Extension.hdiffEncode C I base target (hdiffArgs p))) (HDiffDocumented p)
      (∀ v ∈ hdiffFields p, FitsInt v) (hdiffRun C I base target (hdiffOptionSet p)) := by
  have hargs : (∀ v ∈ [(hdiffArgs p).matchScore, (hdiffArgs p).level, (hdiffArgs p).windowLog,
      (hdiffArgs p).fastBlockBytes, (hdiffArgs p).stepBytes, (hdiffArgs p).contentSize,
      (hdiffArgs p).checksum], FitsInt v) ↔ ∀ v ∈ hdiffFields p, FitsInt v := by
    simp only [hdiffFields, hdiffArgs, List.forall_mem_cons, List.not_mem_nil, false_implies,
      implies_true, and_true, fitsInt_toInt]
  rw [hdiffEncode_parses]
  refine .of_validates hargs HDiffDocumented.fits (fun hno => ?_) (fun hdoc => ?_) fun message => ?_
  · have hrefused : hdiffOptions (hdiffArgs p) = fail .option := by
      refine (hdiffOptions_cases _).resolve_right fun ⟨o, ho⟩ => hno ?_
      exact (hdiffArgs_documented p).mp (hdiffOptions_eq_ok.mp ho).1
    rw [Host.phdHdiffEncode, hrefused, fail_bind]
    exact ⟨_, refused_reported I⟩
  · have haccepted : hdiffOptions (hdiffArgs p) = .ok (hdiffOptionSet p) :=
      hdiffOptions_eq_ok.mpr ⟨(hdiffArgs_documented p).mpr hdoc, (hdiffArgs_options p).symm⟩
    rw [Host.phdHdiffEncode, haccepted, ok_bind]
    rfl
  · exact unrefused_reported ((hdiffEncode_unrefused hH _ _ _ _).bind unrefused_release) message

def zstdArguments (p : ZstdProfile) : ZstdOptions :=
  ⟨p.level, p.windowLog, (zstdOptionSet p).ldm, p.contentSize.toInt, p.checksum.toInt, p.ldmHashLog,
    p.ldmMinMatch, p.ldmBucketLog, p.ldmRateLog⟩

theorem zstdArgs_eq {p : ZstdProfile} (hldm : p.ldm = "auto" ∨ p.ldm = "on" ∨ p.ldm = "off") :
    zstdArgs p = .ok (zstdArguments p) := by
  rcases hldm with h | h | h
  · simp only [zstdArgs, zstdArguments, zstdOptionSet, h]
    rfl
  · simp only [zstdArgs, zstdArguments, zstdOptionSet, h]
    rfl
  · simp only [zstdArgs, zstdArguments, zstdOptionSet, h]
    rfl

theorem encodeDelta_zstd (hbase : base.length ≤ rawMax) (htarget : target.length ≤ rawMax)
    {p : ZstdProfile} (hldm : p.ldm = "auto" ∨ p.ldm = "on" ∨ p.ldm = "off") :
    encodeDelta (native C I) base target (.zstd p) =
      call false (Extension.zstdEncode C I base target (zstdArguments p)) >>= fun payload =>
        .ok (envelope .zstd base target payload) := by
  rw [encodeDelta, if_neg (by omega), zstdArgs_eq hldm]
  rfl

theorem compress_eq {data : Bytes} (hdata : data.length ≤ frameMax) (level windowLog : Int)
    (checksum : Bool) : Python.compress (native C I) data level windowLog checksum =
      call false (Extension.compress C I data level windowLog checksum.toInt) :=
  if_neg (Nat.not_lt_of_le hdata)

theorem zstdArguments_options (p : ZstdProfile) : (zstdArguments p).options = zstdOptionSet p := by
  have hflag : ∀ b : Bool, b.toInt = if b then 1 else 0 := by decide
  simp only [ZstdOptions.options, zstdArguments, zstdOptionSet, hflag]

theorem zstdOptionSet_ldm (p : ZstdProfile) : ((zstdOptionSet p).ldm = 1 ↔ p.ldm = "on") ∧
    0 ≤ (zstdOptionSet p).ldm ∧ (zstdOptionSet p).ldm ≤ 2 := by
  simp only [zstdOptionSet]
  split
  · exact ⟨iff_of_true rfl ‹_›, by decide, by decide⟩
  · split
    · exact ⟨iff_of_false (by decide) ‹_›, by decide, by decide⟩
    · exact ⟨iff_of_false (by decide) ‹_›, by decide, by decide⟩

theorem zstdArguments_documented (p : ZstdProfile) :
    (zstdArguments p).Documented ↔ ZstdDocumented p := by
  have hflag : ∀ b : Bool, 0 ≤ b.toInt ∧ b.toInt ≤ 1 := by decide
  obtain ⟨hon, hldm⟩ := zstdOptionSet_ldm p
  constructor
  · rintro ⟨hlevel, hwindow, -, -, -, hhash, hmatch, hbucket, hrate, hbuckets, htuning⟩
    exact ⟨hlevel, hwindow, hhash, hmatch, hbucket, hrate, hbuckets, htuning.imp_left hon.mp⟩
  · rintro ⟨hlevel, hwindow, hhash, hmatch, hbucket, hrate, hbuckets, htuning⟩
    exact ⟨hlevel, hwindow, hldm, hflag _, hflag _, hhash, hmatch, hbucket, hrate, hbuckets,
      htuning.imp_left hon.mpr⟩

theorem ZstdDocumented.fits {p : ZstdProfile} (h : ZstdDocumented p) :
    ∀ v ∈ zstdFields p, FitsInt v := by
  obtain ⟨hlevel, hwindow, hhash, hmatch, hbucket, hrate, -, -⟩ := h
  simp only [zstdFields, List.forall_mem_cons, List.not_mem_nil, false_implies, implies_true,
    and_true, FitsInt]
  omega

theorem zstd_validates (base target : Bytes) (args : ZstdOptions) (limits : Limits) :
    (¬ args.Documented → call false (Extension.finish I (boundary do
        let options ← zstdOptions args
        let encoded ← zstdEncode C.zstd C.heap C.passes base target options limits
        encoded.release C.heap)) = raise (.optionError "profile parameter out of range")) ∧
    (args.Documented → call false (Extension.finish I (boundary do
        let options ← zstdOptions args
        let encoded ← zstdEncode C.zstd C.heap C.passes base target options limits
        encoded.release C.heap)) = zstdRun C I base target args.options limits) := by
  constructor
  · intro hno
    have hrefused : zstdOptions args = fail .option :=
      (zstdOptions_cases _).resolve_right fun ⟨o, ho⟩ => hno (zstdOptions_eq_ok.mp ho).1
    rw [hrefused, fail_bind]
    exact refused_reported I
  · intro hdoc
    rw [zstdOptions_eq_ok.mpr ⟨hdoc, rfl⟩, ok_bind]
    rfl

theorem zstdRun_option (o : Options) (limits : Limits) (message : String) :
    zstdRun C I base target o limits ≠ raise (.optionError message) :=
  unrefused_reported ((zstdEncode_unrefused _ _ _ _ _ _).bind unrefused_release) message

theorem zstd_parsed (p : ZstdProfile) :
    Parsed (call false (Extension.zstdEncode C I base target (zstdArguments p))) (ZstdDocumented p)
      (∀ v ∈ zstdFields p, FitsInt v)
      (zstdRun C I base target (zstdOptionSet p) kCodecLimits) := by
  have hcode := fitsInt_of_mem (zstdOptionSet_ldm p).2 (by decide) (by decide)
  have hargs : (∀ v ∈ [(zstdArguments p).level, (zstdArguments p).windowLog, (zstdArguments p).ldm,
      (zstdArguments p).contentSize, (zstdArguments p).checksum, (zstdArguments p).ldmHashLog,
      (zstdArguments p).ldmMinMatch, (zstdArguments p).ldmBucketLog,
      (zstdArguments p).ldmRateLog], FitsInt v) ↔ ∀ v ∈ zstdFields p, FitsInt v := by
    simp only [zstdFields, zstdArguments, List.forall_mem_cons, List.not_mem_nil, false_implies,
      implies_true, and_true, true_and, fitsInt_toInt, hcode]
  obtain ⟨hrefused, hpassed⟩ := zstd_validates (C := C) (I := I) base target (zstdArguments p)
    kCodecLimits
  rw [zstdArguments_options, zstdArguments_documented] at hpassed
  rw [zstdArguments_documented] at hrefused
  rw [zstdEncode_parses]
  exact .of_validates hargs ZstdDocumented.fits (fun hno => ⟨_, hrefused hno⟩) hpassed
    (zstdRun_option _ _)

def compressProfile (level windowLog : Int) (checksum : Bool) : ZstdProfile :=
  ⟨level, windowLog, "auto", true, checksum, 0, 0, 0, 0⟩

theorem compressProfile_documented (level windowLog : Int) (checksum : Bool) :
    ZstdDocumented (compressProfile level windowLog checksum) ↔
      CompressDocumented level windowLog := by
  constructor
  · rintro ⟨hlevel, hwindow, -⟩
    exact ⟨hlevel, hwindow⟩
  · rintro ⟨hlevel, hwindow⟩
    exact ⟨hlevel, hwindow, .inl rfl, .inl rfl, .inl rfl, .inl rfl, .inl rfl,
      .inr ⟨rfl, rfl, rfl, rfl⟩⟩

theorem CompressDocumented.fits {level windowLog : Int} (h : CompressDocumented level windowLog) :
    FitsInt level ∧ FitsInt windowLog := by
  obtain ⟨hlevel, hwindow⟩ := h
  unfold FitsInt
  omega

theorem compress_parsed (data : Bytes) (level windowLog : Int) (checksum : Bool) :
    Parsed (call false (Extension.compress C I data level windowLog checksum.toInt))
      (CompressDocumented level windowLog) (FitsInt level ∧ FitsInt windowLog)
      (zstdRun C I [] data (zstdOptionSet (compressProfile level windowLog checksum))
        kFrameLimits) := by
  have hargs : (∀ v ∈ [level, windowLog, checksum.toInt], FitsInt v) ↔
      FitsInt level ∧ FitsInt windowLog := by
    simp only [List.forall_mem_cons, List.not_mem_nil, false_implies, implies_true, and_true,
      fitsInt_toInt]
  obtain ⟨hrefused, hpassed⟩ := zstd_validates (C := C) (I := I) [] data
    (zstdArguments (compressProfile level windowLog checksum)) kFrameLimits
  rw [zstdArguments_options, zstdArguments_documented, compressProfile_documented] at hpassed
  rw [zstdArguments_documented, compressProfile_documented] at hrefused
  rw [compress_parses]
  exact .of_validates hargs CompressDocumented.fits (fun hno => ⟨_, hrefused hno⟩) hpassed
    (zstdRun_option _ _)

theorem hdiffOptionSet_inBounds {p : HDiffProfile} (h : HDiffDocumented p) :
    ∀ q ∈ compressParameters (hdiffOptionSet p), q.1.InBounds q.2 := fun q hq =>
  (compressParameters_allowed (hdiffOptions_eq_ok.mpr ⟨(hdiffArgs_documented p).mpr h,
    (hdiffArgs_options p).symm⟩) q hq).inBounds

theorem zstdOptionSet_inBounds (Z : Zstd) (bn tn : Nat) {p : ZstdProfile} (h : ZstdDocumented p) :
    ∀ q ∈ zstdParameters Z (zstdOptionSet p) bn tn, q.1.InBounds q.2 := by
  rw [← zstdArguments_options]
  exact zstdParameters_inBounds Z bn tn ((zstdArguments_documented p).mpr h)

end

/-- Every call that takes a profile validates it exactly when its numeric fields
fit a C `int`. A field that does not fit is refused on the way to the validation,
by an exception that is not the one for options. -/
theorem profiles_validated_iff (C : Host) (I : Interpreter) (hH : C.hdiff.Foreign)
    {base target : Bytes} (hbase : base.length ≤ rawMax) (htarget : target.length ≤ rawMax) :
    (∀ p : HDiffProfile,
      (Validated (encodeDelta (native C I) base target (.hdiff p)) (HDiffDocumented p)
          (compressParameters (hdiffOptionSet p))
          (hdiffRun C I base target (hdiffOptionSet p) >>= fun payload =>
            .ok (envelope .hdiff base target payload)) ↔
        ∀ v ∈ hdiffFields p, FitsInt v) ∧
      (Validated (Raw.hdiffEncode (native C I) base target p) (HDiffDocumented p)
          (compressParameters (hdiffOptionSet p)) (hdiffRun C I base target (hdiffOptionSet p)) ↔
        ∀ v ∈ hdiffFields p, FitsInt v)) ∧
    (∀ p : ZstdProfile, p.ldm = "auto" ∨ p.ldm = "on" ∨ p.ldm = "off" →
      (Validated (encodeDelta (native C I) base target (.zstd p)) (ZstdDocumented p)
          (zstdParameters C.zstd (zstdOptionSet p) base.length target.length)
          (zstdRun C I base target (zstdOptionSet p) kCodecLimits >>= fun payload =>
            .ok (envelope .zstd base target payload)) ↔
        ∀ v ∈ zstdFields p, FitsInt v) ∧
      (Validated (Raw.zstdEncode (native C I) base target p) (ZstdDocumented p)
          (zstdParameters C.zstd (zstdOptionSet p) base.length target.length)
          (zstdRun C I base target (zstdOptionSet p) kCodecLimits) ↔
        ∀ v ∈ zstdFields p, FitsInt v)) ∧
    ∀ level windowLog checksum,
      Validated (Python.compress (native C I) target level windowLog checksum)
          (CompressDocumented level windowLog)
          (zstdParameters C.zstd (zstdOptionSet (compressProfile level windowLog checksum)) 0
            target.length)
          (zstdRun C I [] target (zstdOptionSet (compressProfile level windowLog checksum))
            kFrameLimits) ↔
        FitsInt level ∧ FitsInt windowLog := by
  have hlimits : ¬ (base.length > rawMax ∨ target.length > rawMax) := by omega
  have hinputs : Raw.inputs base target = .ok (base, target) := if_neg (by omega)
  refine ⟨fun p => ⟨?_, ?_⟩, fun p hldm => ⟨?_, ?_⟩, fun level windowLog checksum => ?_⟩
  · have hencode : encodeDelta (native C I) base target (.hdiff p) =
        call false (Extension.hdiffEncode C I base target (hdiffArgs p)) >>= fun payload =>
          .ok (envelope .hdiff base target payload) := if_neg hlimits
    rw [hencode]
    exact ((hdiff_parsed hH p).map _).validated_iff HDiffDocumented.fits hdiffOptionSet_inBounds
  · have hencode : Raw.hdiffEncode (native C I) base target p =
        call false (Extension.hdiffEncode C I base target (hdiffArgs p)) := by
      rw [Raw.hdiffEncode, hinputs]
      rfl
    rw [hencode]
    exact (hdiff_parsed hH p).validated_iff HDiffDocumented.fits hdiffOptionSet_inBounds
  · rw [encodeDelta_zstd hbase htarget hldm]
    exact ((zstd_parsed p).map _).validated_iff ZstdDocumented.fits
      (zstdOptionSet_inBounds C.zstd _ _)
  · have hencode : Raw.zstdEncode (native C I) base target p =
        call false (Extension.zstdEncode C I base target (zstdArguments p)) := by
      rw [Raw.zstdEncode, hinputs, ok_bind, zstdArgs_eq hldm]
      rfl
    rw [hencode]
    exact (zstd_parsed p).validated_iff ZstdDocumented.fits (zstdOptionSet_inBounds C.zstd _ _)
  · have hframe : rawMax ≤ frameMax := by decide
    rw [compress_eq (htarget.trans hframe)]
    exact (compress_parsed target level windowLog checksum).validated_iff CompressDocumented.fits
      fun hdoc => zstdOptionSet_inBounds C.zstd _ _ ((compressProfile_documented _ _ _).mpr hdoc)

theorem Stored.host_foreign : Stored.host.hdiff.Foreign := fun _ _ _ => trivial

theorem profiles_validated_iff_level : ∃ message,
    Python.compress (native Stored.host Stored.interpreter) [97, 98, 99] 23 0 false =
      raise (.optionError message) := by
  have hiff := (profiles_validated_iff Stored.host Stored.interpreter Stored.host_foreign
    (by decide : ([] : Bytes).length ≤ rawMax)
    (by decide : ([97, 98, 99] : Bytes).length ≤ rawMax)).2.2 23 0 false
  exact (hiff.mpr (by decide)).refused.mpr fun hdoc => absurd hdoc.level (by decide)

-- the first level that is not a C int
theorem compress_overflows :
    Python.compress (native Stored.host Stored.interpreter) [97, 98, 99] (2 ^ 31) 0 false =
      raise .overflowError ∧ ¬ CompressDocumented (2 ^ 31) 0 ∧
    ¬ ∃ message, Python.compress (native Stored.host Stored.interpreter) [97, 98, 99] (2 ^ 31) 0
      false = raise (.optionError message) := by
  have h : Python.compress (native Stored.host Stored.interpreter) [97, 98, 99] (2 ^ 31) 0 false =
      raise .overflowError := by
    decide +kernel
  refine ⟨h, fun hdoc => absurd hdoc.level (by decide), ?_⟩
  rw [h]
  rintro ⟨message, hraised⟩
  cases hraised

end Pyhdiff.Guarantees
