import Pyhdiff.Guarantees.Standalone
import Pyhdiff.Native.EncodeEnds

/-! Codec 2 is total: which deltas are made, how long they are, and that they are
read back. -/
namespace Pyhdiff.Guarantees
open Native Python Streaming

section
variable {C : Host} {I : Interpreter} {F : Format UInt8} {base target : Bytes}

theorem zstdRun_total (E : EncodingLaws C.zstd F) (hopen : E.Open)
    (hflush : E.enc.Flushes compressBound) (hcompact : E.enc.Compact compressBound)
    (hheap : C.heap.Grants) (hobjects : ∀ n, I.bytesObject n = true)
    (hbase : base.length ≤ rawMax) (htarget : target.length ≤ rawMax)
    (hpasses : 2 * target.length + target.length / 128 + 1024 < C.passes) {p : ZstdProfile}
    (hdoc : ZstdDocumented p) :
    ∃ b : Bytes, zstdRun C I base target (zstdOptionSet p) kCodecLimits = .ok b ∧
      b.length ≤ target.length + target.length / 128 + 1024 := by
  have hcap : compressBound (encodeJob E base target (zstdOptionSet p)) =
      target.length + target.length / 128 + 1024 := rfl
  have hmax : target.length + target.length / 128 + 1024 ≤ payloadMax := by
    unfold rawMax at htarget
    unfold payloadMax
    omega
  have hparams := zstdOptionSet_inBounds C.zstd base.length target.length hdoc
  -- the limit is set to the bound, since a higher one changes nothing
  let tight : Limits := ⟨rawMax, target.length + target.length / 128 + 1024⟩
  have hfits : target.length ≤ tight.input := htarget
  obtain ⟨out, htight⟩ := zstdEncode_open
    hopen hflush hcompact hheap hparams hbase hfits (htarget.trans_lt (by decide)) (Nat.le_of_eq hcap)
    (by omega : target.length + compressBound (encodeJob E base target (zstdOptionSet p)) < C.passes)
  have hmono : tight.output ≤ kCodecLimits.output := hmax
  have hencode : zstdEncode C.zstd C.heap C.passes base target (zstdOptionSet p) kCodecLimits =
      .ok out := zstdEncode_mono (Nat.le_refl rawMax) hmono htight
  obtain ⟨-, -, b, f, hencoded⟩ := zstdEncode_ok (E := E) htight
  exact ⟨b, zstdRun_returns hheap hobjects hencode hencoded.contents, hencoded.bound⟩

end

def LdmNamed (p : ZstdProfile) : Prop := p.ldm = "auto" ∨ p.ldm = "on" ∨ p.ldm = "off"

theorem zstdArgs_refused {p : ZstdProfile} (h : ¬ LdmNamed p) :
    zstdArgs p = raise (.optionError "ldm must be 'auto', 'on' or 'off'") := by
  simp only [LdmNamed, not_or] at h
  have hcode : ldmCode p.ldm = none := by
    unfold ldmCode
    split
    · exact absurd ‹_› h.1
    · exact absurd ‹_› h.2.1
    · exact absurd ‹_› h.2.2
    · rfl
  unfold zstdArgs
  rw [hcode]

/-- What `encode_delta` needs of a base, a target and a zstd profile. -/
structure ZstdMade (base target : Bytes) (p : ZstdProfile) : Prop where
  base : base.length ≤ rawMax
  target : target.length ≤ rawMax
  ldm : LdmNamed p
  documented : ZstdDocumented p

/-- How it refuses the rest: by the sizes first, then by the profile. -/
structure ZstdRefused (x : Py Bytes) (base target : Bytes) (p : ZstdProfile) : Prop where
  limit : ¬ (base.length ≤ rawMax ∧ target.length ≤ rawMax) →
    x = raise (.limitError "input exceeds RAW_MAX")
  option : base.length ≤ rawMax ∧ target.length ≤ rawMax →
    ¬ LdmNamed p ∨ (∀ v ∈ zstdFields p, FitsInt v) → ∃ message, x = raise (.optionError message)
  overflow : base.length ≤ rawMax ∧ target.length ≤ rawMax → LdmNamed p →
    ¬ (∀ v ∈ zstdFields p, FitsInt v) → x = raise .overflowError

theorem encodeDelta_refused {C : Host} {I : Interpreter} {base target : Bytes} {p : ZstdProfile}
    (h : ¬ ZstdMade base target p) :
    ZstdRefused (encodeDelta (native C I) base target (.zstd p)) base target p := by
  constructor
  case limit =>
    intro hsizes
    exact if_pos (by omega)
  case option =>
    rintro ⟨hbase, htarget⟩ hprofile
    by_cases hldm : LdmNamed p
    · obtain ⟨message, hraised⟩ := (zstd_parsed p).option (hprofile.resolve_left (not_not.mpr hldm))
        fun hdoc => h ⟨hbase, htarget, hldm, hdoc⟩
      refine ⟨message, ?_⟩
      rw [encodeDelta_zstd hbase htarget hldm, hraised]
      rfl
    · refine ⟨"ldm must be 'auto', 'on' or 'off'", ?_⟩
      rw [encodeDelta, if_neg (by omega)]
      simp only [zstdArgs_refused hldm]
      rfl
  case overflow =>
    rintro ⟨hbase, htarget⟩ hldm hfits
    rw [encodeDelta_zstd hbase htarget hldm, (zstd_parsed p).overflow hfits]
    rfl

/-- Codec 2 is total. A delta is made of every base and target within the limit
and every documented profile. It adds at most its header, 1 KiB and one byte in
128 to the target, and is applied to the target under the bounds that admit it.
The rest is refused. -/
theorem encodeDelta_total {C : Host} {I : Interpreter} {F : Format UInt8}
    (D : DecodingLaws C.zstd F) (E : EncodingLaws C.zstd F) (hopen : E.Open) (hcaps : E.CapsWindow)
    (hflush : E.enc.Flushes compressBound) (hcompact : E.enc.Compact compressBound)
    (hctx : C.zstd.createDCtx ≠ none) (hheap : C.heap.Grants)
    (hobjects : ∀ n, I.bytesObject n = true) (base target : Bytes) (p : ZstdProfile)
    (hpasses : 2 * target.length + target.length / 128 + 1024 < C.passes) :
    (ZstdMade base target p → ∃ blob,
      encodeDelta (native C I) base target (.zstd p) = .ok blob ∧
      blob.length ≤ envelopeSize + target.length + target.length / 128 + 1024 ∧
      ∀ m : Int, target.length ≤ m → Python.apply (native C I) base blob m = .ok target) ∧
    (¬ ZstdMade base target p →
      ZstdRefused (encodeDelta (native C I) base target (.zstd p)) base target p) := by
  refine ⟨fun hmade => ?_, encodeDelta_refused⟩
  obtain ⟨hbase, htarget, hldm, hdoc⟩ := hmade
  obtain ⟨b, hrun, hlen⟩ := zstdRun_total (I := I) E hopen hflush hcompact hheap hobjects hbase
    htarget hpasses hdoc
  have hencode : encodeDelta (native C I) base target (.zstd p) =
      .ok (envelope .zstd base target b) := by
    rw [encodeDelta_zstd hbase htarget hldm, (zstd_parsed p).passed hdoc, hrun, ok_bind]
  obtain ⟨-, -, payload, hblob, args, -, hcall⟩ := encodeDelta_ok hencode
  obtain ⟨hrec, hbound⟩ := zstdEncode_reconstructs E hcaps hcall
  refine ⟨envelope .zstd base target b, hencode, ?_, fun m hm => ?_⟩
  · rw [envelope_length]
    omega
  · rw [hblob]
    exact apply_envelope D hctx hbase htarget hbound hrec (hobjects _) hm

theorem Stored.encodingLaws_open : Stored.encodingLaws.Open where
  creates := by simp [Stored.zstd]
  sets _ _ := ⟨_, rfl⟩
  pledges _ _ := ⟨_, rfl⟩
  references _ _ := ⟨_, rfl⟩

-- a delta with explicit LDM buckets, and the same profile with LDM left to zstd
theorem encodeDelta_total_buckets :
    (∃ blob, encodeDelta (native Stored.patient Stored.interpreter) [97] [97, 98, 99]
        (.zstd { ldm := "on", ldmBucketLog := 8 }) = .ok blob ∧ blob.length ≤ 1123 ∧
      Python.apply (native Stored.patient Stored.interpreter) [97] blob 3 = .ok [97, 98, 99]) ∧
    ∃ message, encodeDelta (native Stored.patient Stored.interpreter) [97] [97, 98, 99]
      (.zstd { ldmBucketLog := 8 }) = raise (.optionError message) := by
  have h := fun p => encodeDelta_total (C := Stored.patient) (I := Stored.interpreter)
    Stored.decodingLaws Stored.encodingLaws Stored.encodingLaws_open Stored.encodingLaws_capsWindow
    Stored.encodingLaws_flushes_bound Stored.encodingLaws_compact Stored.zstd_creates
    Stored.host_grants (fun _ => rfl) [97] [97, 98, 99] p (by decide)
  constructor
  · obtain ⟨blob, hblob, hlen, happly⟩ := (h { ldm := "on", ldmBucketLog := 8 }).1
      ⟨by decide, by decide, .inr (.inl rfl), ⟨by decide, by decide, by decide, by decide, by decide,
        by decide, by decide, by decide⟩⟩
    exact ⟨blob, hblob, hlen, happly 3 (by decide)⟩
  · refine ((h { ldmBucketLog := 8 }).2 fun hmade => ?_).option ⟨by decide, by decide⟩
      (.inr (by decide))
    exact absurd hmade.documented.tuning (by decide)

end Pyhdiff.Guarantees
