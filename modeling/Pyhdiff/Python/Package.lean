import Pyhdiff.Python.Envelope

/-! The package: profiles, the translation of native errors, and the public
functions. Arguments are bytes already; buffers of other types are copied into
bytes first. -/
namespace Pyhdiff.Python
open Native

structure HDiffProfile where
  matchScore : Int := 6
  level : Int := 19
  windowLog : Int := 23
  fastBlockBytes : Int := 1024
  stepBytes : Int := 262144
  contentSize : Bool := true
  checksum : Bool := false

structure ZstdProfile where
  level : Int := 3
  windowLog : Int := 0
  ldm : String := "auto"
  contentSize : Bool := true
  checksum : Bool := true
  ldmHashLog : Int := 0
  ldmMinMatch : Int := 0
  ldmBucketLog : Int := 0
  ldmRateLog : Int := 0

inductive Profile where
  | hdiff (p : HDiffProfile)
  | zstd (p : ZstdProfile)

structure NativeModule where
  hdiffEncode : (base target : Bytes) → HDiffOptions → Py Bytes
  hdiffApply : (base payload : Bytes) → (offset targetSize : Int) → Py Bytes
  zstdEncode : (base target : Bytes) → ZstdOptions → Py Bytes
  zstdApply : (base payload : Bytes) → (offset targetSize : Int) → Py Bytes
  compress : (data : Bytes) → (level windowLog checksum : Int) → Py Bytes
  decompress : (data : Bytes) → (maxOutput : Int) → Py Bytes

def native (C : Host) (I : Interpreter) : NativeModule where
  hdiffEncode := Extension.hdiffEncode C I
  hdiffApply := Extension.hdiffApply C I
  zstdEncode := Extension.zstdEncode C I
  zstdApply := Extension.zstdApply C I
  compress := Extension.compress C I
  decompress := Extension.decompress C I

/-- `_raise`: the exception of a status code. -/
def exceptionOf (code : Nat) (decoding : Bool) : Exn :=
  if code = Status.limit.code then .limitError "size limit exceeded"
  else if code = Status.option.code then .optionError "profile parameter out of range"
  else if code = Status.alloc.code then .allocationError "native allocation failed"
  else if code = Status.invalid.code then .decodeError "malformed payload"
  else if code ≥ zstdErrorBase then
    let zstd := code - zstdErrorBase
    if zstd = 16 then .limitError "zstd window exceeds the decoder limit"
    else if decoding then
      .decodeError ("malformed zstd data (zstd error " ++ toString zstd ++ ")")
    else .nativeFailure ("zstd error " ++ toString zstd)
  else .nativeFailure ("native codec failure (status " ++ toString code ++ ")")

/-- `_call`: only the extension's own error is translated. -/
def call (decoding : Bool) : Py Bytes → Py Bytes
  | .error (.raised (.nativeError code)) => raise (exceptionOf code decoding)
  | r => r

theorem call_eq_ok {decoding : Bool} {x : Py Bytes} {b : Bytes} :
    call decoding x = .ok b ↔ x = .ok b := by
  cases x with
  | error x =>
    cases x with
    | raised e => cases e <;> simp [call, raise]
    | halt h => simp [call]
  | ok b => simp [call]

theorem call_settles {decoding : Bool} {P : Bytes → Prop} {x : Py Bytes}
    (h : Settles P (fun _ => True) x) : Settles P (fun _ => True) (call decoding x) := by
  cases x with
  | error x =>
    cases x with
    | raised e => cases e <;> trivial
    | halt _ => exact h
  | ok b => exact h

theorem call_translates (decoding : Bool) {P : Bytes → Prop} {x : Py Bytes}
    (h : Settles P (fun e => e.isError = false) x) :
    Settles P (fun e => e.isError = false ∨ ∃ code, e = exceptionOf code decoding)
      (call decoding x) := by
  cases x with
  | error x =>
    cases x with
    | raised e =>
      cases e with
      | nativeError code => exact .inr ⟨code, rfl⟩
      | _ => exact .inl h
    | halt _ => exact h
  | ok b => exact h

theorem exceptionOf_ne_baseMismatch (code : Nat) (decoding : Bool) (message : String) :
    exceptionOf code decoding ≠ .baseMismatchError message := by
  unfold exceptionOf
  dsimp only
  repeat' split
  all_goals simp

def hdiffArgs (profile : HDiffProfile) : HDiffOptions :=
  ⟨profile.matchScore, profile.level, profile.windowLog, profile.fastBlockBytes,
    profile.stepBytes, profile.contentSize.toInt, profile.checksum.toInt⟩

def ldmCode : String → Option Int
  | "auto" => some 0
  | "on" => some 1
  | "off" => some 2
  | _ => none

def zstdArgs (profile : ZstdProfile) : Py ZstdOptions :=
  match ldmCode profile.ldm with
  | none => raise (.optionError "ldm must be 'auto', 'on' or 'off'")
  | some ldm => .ok ⟨profile.level, profile.windowLog, ldm, profile.contentSize.toInt,
      profile.checksum.toInt, profile.ldmHashLog, profile.ldmMinMatch, profile.ldmBucketLog,
      profile.ldmRateLog⟩

section
variable (N : NativeModule)

def encodeDelta (base target : Bytes) (profile : Profile) : Py Bytes :=
  if base.length > rawMax ∨ target.length > rawMax then raise (.limitError "input exceeds RAW_MAX")
  else match profile with
    | .hdiff p => do
      let encoded ← call false (N.hdiffEncode base target (hdiffArgs p))
      return envelope .hdiff base target encoded
    | .zstd p => do
      let args ← zstdArgs p
      let encoded ← call false (N.zstdEncode base target args)
      return envelope .zstd base target encoded

def Profile.codec : Profile → Codec
  | .hdiff _ => .hdiff
  | .zstd _ => .zstd

def Encodes (base target payload : Bytes) : Profile → Prop
  | .hdiff p => N.hdiffEncode base target (hdiffArgs p) = .ok payload
  | .zstd p => ∃ args, zstdArgs p = .ok args ∧ N.zstdEncode base target args = .ok payload

variable {N} in
theorem encodeDelta_ok {base target blob : Bytes} {profile : Profile}
    (h : encodeDelta N base target profile = .ok blob) :
    base.length ≤ rawMax ∧ target.length ≤ rawMax ∧ ∃ payload,
      blob = envelope profile.codec base target payload ∧ Encodes N base target payload profile := by
  unfold encodeDelta at h
  split at h
  · cases h
  rename_i hlimits
  refine ⟨by omega, by omega, ?_⟩
  cases profile with
  | hdiff p =>
    obtain ⟨payload, hencode, h⟩ := bind_eq_ok.mp h
    exact ⟨payload, (Except.ok.inj h).symm, call_eq_ok.mp hencode⟩
  | zstd p =>
    obtain ⟨args, hargs, h⟩ := bind_eq_ok.mp h
    obtain ⟨payload, hencode, h⟩ := bind_eq_ok.mp h
    exact ⟨payload, (Except.ok.inj h).symm, args, hargs, call_eq_ok.mp hencode⟩

def encodeBase (payload : Bytes) (profile : ZstdProfile) : Py Bytes :=
  encodeDelta N [] payload (.zstd profile)

def apply (base blob : Bytes) (maxOutput : Int) : Py Bytes := do
  let header ← inspect blob
  if header.baseLength ≠ base.length then
    raise (.baseMismatchError "base length differs from the envelope")
  else if header.targetLength > min maxOutput rawMax then
    raise (.limitError "target length exceeds the output limit")
  else if sha256 base ≠ header.baseSha256 then
    raise (.baseMismatchError "base SHA-256 differs from the envelope")
  else
    let decode := if header.codec = .hdiff then N.hdiffApply else N.zstdApply
    let target ← call true (decode base blob envelopeSize header.targetLength)
    if sha256 target ≠ header.targetSha256 then
      raise (.integrityError "reconstruction SHA-256 differs from the envelope")
    else return target

def compress (data : Bytes) (level windowLog : Int) (checksum : Bool) : Py Bytes :=
  if data.length > frameMax then raise (.limitError "input exceeds FRAME_MAX")
  else call false (N.compress data level windowLog checksum.toInt)

def decompress (data : Bytes) (maxOutputBytes : Int) : Py Bytes :=
  if ¬ (0 ≤ maxOutputBytes ∧ maxOutputBytes ≤ frameMax) then
    raise (.limitError "max_output_bytes must be between 0 and FRAME_MAX")
  else call true (N.decompress data maxOutputBytes)

theorem apply_eq {C : Host} {I : Interpreter} {base blob : Bytes} {m : Int} {h : Header}
    (hok : inspect blob = .ok h) (hbase : base.length = h.baseLength)
    (hbound : (h.targetLength : Int) ≤ min m rawMax) (hhash : sha256 base = h.baseSha256) :
    apply (native C I) base blob m =
      call true (Extension.apply C I (decide (h.codec ≠ .hdiff)) base blob envelopeSize
        h.targetLength) >>= fun target =>
      if sha256 target ≠ h.targetSha256 then
        raise (.integrityError "reconstruction SHA-256 differs from the envelope")
      else return target := by
  have hdecode : (if h.codec = .hdiff then (native C I).hdiffApply else (native C I).zstdApply) =
      Extension.apply C I (decide (h.codec ≠ .hdiff)) := by
    cases h.codec <;> rfl
  unfold apply
  rw [hok, ok_bind, if_neg (not_not.mpr hbase.symm), if_neg (by omega), if_neg (not_not.mpr hhash),
    hdecode]

theorem decompress_eq {C : Host} {I : Interpreter} {data : Bytes} {m : Nat} (hm : m ≤ frameMax) :
    decompress (native C I) data m =
      call true (Extension.finish I (C.phdZstdDecompress data m)) := by
  have hbound : frameMax < 2 ^ 63 := by decide
  unfold decompress
  rw [if_neg (not_not.mpr ⟨Int.natCast_nonneg m, by exact_mod_cast hm⟩)]
  simp only [native, Extension.decompress]
  rw [parseSsize_ok ⟨by omega, by omega⟩, ok_bind, if_neg (by omega), Int.toNat_natCast]

namespace Raw

def inputs (base other : Bytes) : Py (Bytes × Bytes) :=
  if base.length > rawMax then raise (.limitError "base exceeds RAW_MAX") else .ok (base, other)

def hdiffEncode (base target : Bytes) (profile : HDiffProfile) : Py Bytes := do
  let (base, target) ← inputs base target
  call false (N.hdiffEncode base target (hdiffArgs profile))

def applyWith (decode : (base payload : Bytes) → (offset targetSize : Int) → Py Bytes)
    (base payload : Bytes) (targetLength : Int) : Py Bytes := do
  let (base, payload) ← inputs base payload
  if ¬ (0 ≤ targetLength ∧ targetLength ≤ rawMax) then
    raise (.limitError "target_length must be between 0 and RAW_MAX")
  else call true (decode base payload 0 targetLength)

theorem applyWith_eq {decode : (base payload : Bytes) → (offset targetSize : Int) → Py Bytes}
    {base payload : Bytes} {n : Nat} (hbase : base.length ≤ rawMax) (hn : n ≤ rawMax) :
    applyWith decode base payload n = call true (decode base payload 0 n) := by
  unfold applyWith inputs
  rw [if_neg (by omega), ok_bind]
  exact if_neg (by omega)

def hdiffApply : Bytes → Bytes → Int → Py Bytes := applyWith N.hdiffApply

def zstdEncode (base target : Bytes) (profile : ZstdProfile) : Py Bytes := do
  let (base, target) ← inputs base target
  let args ← zstdArgs profile
  call false (N.zstdEncode base target args)

def zstdApply : Bytes → Bytes → Int → Py Bytes := applyWith N.zstdApply

end Raw
end
end Pyhdiff.Python
