import Pyhdiff.Guarantees.Stored

/-! The envelope as a format, and as the check on everything `apply` returns. -/
namespace Pyhdiff.Guarantees
open Native Python

theorem encodes_bounded {C : Host} {I : Interpreter} {base target payload : Bytes}
    {profile : Profile} (h : Encodes (native C I) base target payload profile) :
    payload.length ≤ payloadMax := by
  cases profile with
  | hdiff p =>
    simp only [Encodes, native, Extension.hdiffEncode, bind_eq_ok, Extension.finish_eq_ok] at h
    obtain ⟨a, -, b, -, c, -, d, -, e, -, f, -, g, -, cells, hencode, -, rfl⟩ := h
    rw [readCells_length]
    exact Host.phdHdiffEncode_bounded hencode
  | zstd p =>
    simp only [Encodes, native, Extension.zstdEncode, bind_eq_ok, Extension.finish_eq_ok] at h
    obtain ⟨args, -, a, -, b, -, c, -, d, -, e, -, f, -, g, -, i, -, j, -, cells, hencode, -, rfl⟩ := h
    rw [readCells_length]
    exact Host.phdZstdEncode_bounded hencode

/-- The format is a bijection between well-formed headers with a payload and the
strings `inspect` accepts, and `encode_delta` makes envelopes of what it was
given. No accepted string is the beginning of another. -/
theorem inspect_bijection :
    (∀ blob h, inspect blob = .ok h ↔ h.WellFormed ∧
      ∃ payload, payload.length = h.payloadLength ∧ blob = h.pack ++ payload) ∧
    (∀ blob h, inspect blob = .ok h → h.pack ++ blob.drop envelopeSize = blob) ∧
    (∀ blob, (∃ h, inspect blob = .ok h) ∨ ∃ message, inspect blob = raise (.envelopeError message)) ∧
    (∀ (C : Host) (I : Interpreter) (base target blob : Bytes) (profile : Profile),
      encodeDelta (native C I) base target profile = .ok blob →
      inspect blob = .ok ⟨formatVersion, profile.codec, base.length, target.length,
        blob.length - envelopeSize, sha256 base, sha256 target⟩ ∧ blob.length ≤ 512 * 1024 * 1024) ∧
    (∀ blob h rest, inspect blob = .ok h → rest ≠ [] →
      (∃ message, inspect (blob ++ rest) = raise (.envelopeError message)) ∧
      ∀ u, blob = u ++ rest → ∃ message, inspect u = raise (.envelopeError message)) := by
  refine ⟨fun blob h => ⟨fun hok => ?_, ?_⟩, fun blob h hok => (pack_inspect hok).2.2,
    inspect_cases, fun C I base target blob profile h => ?_, fun blob h rest hok hne => ⟨?_, ?_⟩⟩
  · obtain ⟨hwf, hpayload, hpack⟩ := pack_inspect hok
    exact ⟨hwf, _, by rw [hpayload, List.length_drop], hpack.symm⟩
  · rintro ⟨hwf, payload, hpayload, rfl⟩
    exact inspect_pack hwf hpayload
  · obtain ⟨hbase, htarget, payload, rfl, hencodes⟩ := encodeDelta_ok h
    have hpayload := encodes_bounded hencodes
    have hmax : payloadMax + envelopeSize = 512 * 1024 * 1024 := by decide
    rw [envelope_length, Nat.add_sub_cancel_left]
    exact ⟨inspect_encoded _ hbase htarget hpayload, by omega⟩
  · cases inspect_cases (blob ++ rest) with
    | inl h =>
      obtain ⟨h', hok'⟩ := h
      exact absurd (inspect_whole hok hok') hne
    | inr hrefused => exact hrefused
  · rintro u rfl
    cases inspect_cases u with
    | inl h =>
      obtain ⟨h', hok'⟩ := h
      exact absurd (inspect_whole hok' hok) hne
    | inr hrefused => exact hrefused

theorem inspect_bijection_abc :
    inspect (envelope .zstd [] [97, 98, 99] Stored.abcFrame) =
      .ok ⟨1, .zstd, 0, 3, 12, sha256 [], sha256 [97, 98, 99]⟩ := by
  have h := (inspect_bijection.2.2.2.1 _ _ _ _ _ _ Stored.encodeDelta_abc).1
  rwa [envelope_length] at h

/-- A decoder that answers every request with bytes of the requested length or
with an exception. -/
def Answers (decode : Bytes → Bytes → Int → Int → Py Bytes) : Prop :=
  ∀ base object offset n, Settles (fun t => (t.length : Int) = n) (fun _ => True)
    (decode base object offset n)

theorem native_answers (C : Host) (I : Interpreter) :
    Answers (native C I).hdiffApply ∧ Answers (native C I).zstdApply :=
  ⟨Extension.apply_settles C I false, Extension.apply_settles C I true⟩

/-- Bytes that agree with all an envelope records of its base and target. -/
structure Authentic (h : Header) (base target : Bytes) (m : Int) : Prop where
  baseLength : base.length = h.baseLength
  baseSha256 : sha256 base = h.baseSha256
  targetLength : target.length = h.targetLength
  bound : (target.length : Int) ≤ min m rawMax
  targetSha256 : sha256 target = h.targetSha256

theorem apply_settles {N : NativeModule} (hhdiff : Answers N.hdiffApply)
    (hzstd : Answers N.zstdApply) (base blob : Bytes) (m : Int) :
    Settles (fun t => ∃ h, inspect blob = .ok h ∧ Authentic h base t m) (fun _ => True)
      (Python.apply N base blob m) := by
  unfold Python.apply
  cases inspect_cases blob with
  | inl h =>
    obtain ⟨h, hok⟩ := h
    rw [hok, ok_bind]
    split
    · trivial
    split
    · trivial
    split
    · trivial
    rename_i hbase hbound hhash
    simp only [ne_eq, not_not] at hbase hhash
    have hdecode : Answers (if h.codec = .hdiff then N.hdiffApply else N.zstdApply) := by
      split
      · exact hhdiff
      · exact hzstd
    have hcall := hdecode base blob envelopeSize h.targetLength
    refine (call_settles hcall).bind fun t ht => ?_
    split
    · trivial
    · rename_i hmatch
      exact ⟨h, rfl, hbase.symm, hhash, by omega, by omega, not_not.mp hmatch⟩
  | inr h =>
    obtain ⟨message, hrefused⟩ := h
    rw [hrefused]
    trivial

/-- Nothing leaves `apply` but bytes that agree with the envelope, whatever the
envelope, the base and the decoder are. So tampering anywhere but in the target
hash cannot give another target. -/
theorem apply_authentic {N : NativeModule} (hhdiff : Answers N.hdiffApply)
    (hzstd : Answers N.zstdApply) (base blob : Bytes) (m : Int) :
    ((∃ t h, Python.apply N base blob m = .ok t ∧ inspect blob = .ok h ∧ Authentic h base t m) ∨
      ∃ e, Python.apply N base blob m = raise e) ∧
    (∀ (M : NativeModule) (base₀ target₀ blob₀ : Bytes) (profile : Profile),
      encodeDelta M base₀ target₀ profile = .ok blob₀ → field blob 64 32 = field blob₀ 64 32 →
      (∀ t, Python.apply N base blob m = .ok t → sha256 t = sha256 target₀ → t = target₀) →
      Python.apply N base blob m = .ok target₀ ∨ ∃ e, Python.apply N base blob m = raise e) := by
  have hgate : (∃ t h, Python.apply N base blob m = .ok t ∧ inspect blob = .ok h ∧
      Authentic h base t m) ∨ ∃ e, Python.apply N base blob m = raise e := by
    have hsettles := apply_settles hhdiff hzstd base blob m
    generalize Python.apply N base blob m = x at hsettles
    rcases x with (e | _) | t
    · exact .inr ⟨e, rfl⟩
    · exact hsettles.elim
    · obtain ⟨h, hok, hauthentic⟩ := hsettles
      exact .inl ⟨t, h, rfl, hok, hauthentic⟩
  refine ⟨hgate, fun M base₀ target₀ blob₀ profile hencode hfield hinj => ?_⟩
  cases hgate with
  | inl h =>
    obtain ⟨t, h, happly, hok, hauthentic⟩ := h
    left
    obtain ⟨-, -, payload, rfl, -⟩ := encodeDelta_ok hencode
    rw [envelope_target] at hfield
    have htarget : h.targetSha256 = field blob 64 32 := by
      rw [(inspect_eq_ok.mp hok).2.2.2.2.2.2]
    obtain rfl := hinj t happly (hauthentic.targetSha256.trans (htarget.trans hfield))
    exact happly
  | inr hraised => exact .inr hraised

-- another base recorded, and the payload split into two blocks
theorem apply_authentic_abc :
    let payload := [0x28, 0xB5, 0x2F, 0xFD, 0x20, 3, 8, 0, 0, 97, 17, 0, 0, 98, 99]
    let blob := envelope .zstd [7] [97, 98, 99] payload
    blob ≠ envelope .zstd [] [97, 98, 99] Stored.abcFrame ∧
      (Python.apply (native Stored.host Stored.interpreter) [7] blob 3 = .ok [97, 98, 99] ∨
        ∃ e, Python.apply (native Stored.host Stored.interpreter) [7] blob 3 = raise e) := by
  intro payload blob
  have happly : Python.apply (native Stored.host Stored.interpreter) [7] blob 3 = .ok [97, 98, 99] := by
    decide +kernel
  have htarget : field blob 64 32 = field (envelope .zstd [] [97, 98, 99] Stored.abcFrame) 64 32 := by
    rw [envelope_target, envelope_target]
  refine ⟨by decide +kernel, (apply_authentic (native_answers Stored.host Stored.interpreter).1
    (native_answers Stored.host Stored.interpreter).2 [7] blob 3).2 _ _ _ _ _ Stored.encodeDelta_abc
      htarget ?_⟩
  intro t ht _
  exact Except.ok.inj (ht.symm.trans happly)

def Recorded (h : Header) (base : Bytes) : Prop :=
  base.length = h.baseLength ∧ sha256 base = h.baseSha256

def ReportsBase (x : Py Bytes) : Prop := ∃ message, x = raise (.baseMismatchError message)

section
variable {blob base : Bytes} {h : Header}

/-- The checks of a base, in the order they are made, and that no decoder is
called before they have passed. -/
theorem apply_wrongBase (hok : inspect blob = .ok h) (hwrong : ¬ Recorded h base)
    (N : NativeModule) (m : Int) : Python.apply N base blob m =
      if base.length ≠ h.baseLength then
        raise (.baseMismatchError "base length differs from the envelope")
      else if (h.targetLength : Int) > min m rawMax then
        raise (.limitError "target length exceeds the output limit")
      else raise (.baseMismatchError "base SHA-256 differs from the envelope") := by
  unfold Python.apply
  rw [hok, ok_bind]
  by_cases hbase : base.length = h.baseLength
  · have hhash : sha256 base ≠ h.baseSha256 := fun hhash => hwrong ⟨hbase, hhash⟩
    rw [if_neg (not_not.mpr hbase.symm), if_neg (not_not.mpr hbase), if_pos hhash]
  · rw [if_pos (Ne.symm hbase), if_pos hbase]

def RaisesBare (decode : Bytes → Bytes → Int → Int → Py Bytes) : Prop :=
  ∀ base object offset n, Settles (fun _ => True) (fun e => e.isError = false)
    (decode base object offset n)

theorem native_raisesBare (C : Host) (I : Interpreter) :
    RaisesBare (native C I).hdiffApply ∧ RaisesBare (native C I).zstdApply :=
  ⟨fun base object offset n => (Extension.apply_raises C I false base object offset n).mono
      (fun _ _ => trivial) fun _ h => h,
    fun base object offset n => (Extension.apply_raises C I true base object offset n).mono
      (fun _ _ => trivial) fun _ h => h⟩

theorem apply_recorded {N : NativeModule} (hhdiff : RaisesBare N.hdiffApply)
    (hzstd : RaisesBare N.zstdApply) (hok : inspect blob = .ok h) (hbase : Recorded h base)
    (m : Int) : ¬ ReportsBase (Python.apply N base blob m) := by
  have hsettles : Settles (fun _ => True) (fun e => ∀ message, e ≠ .baseMismatchError message)
      (Python.apply N base blob m) := by
    unfold Python.apply
    rw [hok, ok_bind, if_neg (not_not.mpr hbase.1.symm)]
    split
    · intro message
      simp
    rw [if_neg (not_not.mpr hbase.2)]
    have hdecode : RaisesBare (if h.codec = .hdiff then N.hdiffApply else N.zstdApply) := by
      split
      · exact hhdiff
      · exact hzstd
    have hcall := call_translates true (hdecode base blob envelopeSize h.targetLength)
    refine (hcall.mono (fun _ h => h) ?_).bind fun t _ => ?_
    · rintro e (hbare | ⟨code, rfl⟩) message
      · rintro rfl
        cases hbare
      · exact exceptionOf_ne_baseMismatch code true message
    · split
      · intro message
        simp
      · trivial
  rintro ⟨message, hraised⟩
  rw [hraised] at hsettles
  exact hsettles message rfl

/-- A wrong base is reported as one, with no decoder called, and the recorded
base never is, exactly when a base of the recorded length but another hash does
not meet a target beyond the output limit. That limit is checked between the
two, so there it is the limit that is reported. -/
theorem apply_baseMismatch_iff (C : Host) (I : Interpreter) (hok : inspect blob = .ok h)
    (base : Bytes) (m : Int) :
    ((¬ Recorded h base → ∃ message, ∀ N : NativeModule,
        Python.apply N base blob m = raise (.baseMismatchError message)) ∧
      (Recorded h base → ¬ ReportsBase (Python.apply (native C I) base blob m))) ↔
    (base.length = h.baseLength → sha256 base ≠ h.baseSha256 →
      (h.targetLength : Int) ≤ min m rawMax) := by
  constructor
  · rintro ⟨hreports, -⟩ hbase hhash
    by_contra hbound
    have hwrong : ¬ Recorded h base := fun hrecorded => hhash hrecorded.2
    obtain ⟨message, hraised⟩ := hreports hwrong
    have hlimit := apply_wrongBase hok hwrong (native C I) m
    rw [hraised, if_neg (not_not.mpr hbase), if_pos (by omega)] at hlimit
    cases hlimit
  · refine fun hcond => ⟨fun hwrong => ?_, fun hbase => ?_⟩
    by_cases hbase : base.length = h.baseLength
    · have hbound := hcond hbase fun hhash => hwrong ⟨hbase, hhash⟩
      refine ⟨"base SHA-256 differs from the envelope", fun N => ?_⟩
      rw [apply_wrongBase hok hwrong N m, if_neg (not_not.mpr hbase), if_neg (by omega)]
    · refine ⟨"base length differs from the envelope", fun N => ?_⟩
      rw [apply_wrongBase hok hwrong N m, if_pos hbase]
    · exact apply_recorded (native_raisesBare C I).1 (native_raisesBare C I).2 hok hbase m

theorem apply_baseMismatch_iff_abc :
    ∃ message, Python.apply (native Stored.host Stored.interpreter) [2]
      (envelope .zstd [1] [97, 98, 99] Stored.abcFrame) 3 = raise (.baseMismatchError message) := by
  have hok : inspect (envelope .zstd [1] [97, 98, 99] Stored.abcFrame) = .ok _ :=
    inspect_envelope .zstd (by decide) (by decide) (by decide)
  obtain ⟨message, h⟩ := ((apply_baseMismatch_iff Stored.host Stored.interpreter hok [2] 3).mpr
    fun _ _ => by decide).1 fun hrecorded => absurd hrecorded.2 (by decide +kernel)
  exact ⟨message, h _⟩

-- another byte in the place of the base, and an output limit below the target
theorem apply_limit_wrongBase :
    (∃ h, inspect (envelope .zstd [1] [97, 98, 99] Stored.abcFrame) = .ok h ∧ ¬ Recorded h [2]) ∧
    Python.apply (native Stored.host Stored.interpreter) [2]
        (envelope .zstd [1] [97, 98, 99] Stored.abcFrame) 2 =
      raise (.limitError "target length exceeds the output limit") ∧
    ¬ ReportsBase (Python.apply (native Stored.host Stored.interpreter) [2]
      (envelope .zstd [1] [97, 98, 99] Stored.abcFrame) 2) := by
  have hok : inspect (envelope .zstd [1] [97, 98, 99] Stored.abcFrame) = .ok _ :=
    inspect_envelope .zstd (by decide) (by decide) (by decide)
  have hwrong : ¬ Recorded ⟨formatVersion, .zstd, 1, 3, 12, sha256 [1], sha256 [97, 98, 99]⟩ [2] :=
    fun hrecorded => absurd hrecorded.2 (by decide +kernel)
  have hlimit := apply_wrongBase hok hwrong (native Stored.host Stored.interpreter) 2
  refine ⟨⟨_, hok, hwrong⟩, hlimit, ?_⟩
  rw [hlimit]
  rintro ⟨message, hraised⟩
  cases hraised

end

end Pyhdiff.Guarantees
