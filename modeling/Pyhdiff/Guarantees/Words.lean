import Pyhdiff.Guarantees.Whole
import Pyhdiff.Native.WordBridge

/-! The bridge computes in `size_t` what it would compute over natural numbers. -/
namespace Pyhdiff.Guarantees
open Native Streaming

/-- Where the libraries answer in 64-bit numbers, no sum, difference or product
the bridge forms of sizes and cursors wraps around: every entry point ends in
64-bit arithmetic as it does over natural numbers, with the same bytes, the same
status or the same halt. The room the plugin asks for does not wrap around either,
up to half of the range. -/
theorem phd_words (C : Host) (hC : Words.Machine C) (base target payload data : Bytes)
    (out : OutObject) (hbase : base.length < 2 ^ 64) (htarget : target.length < 2 ^ 64)
    (hpayload : payload.length < 2 ^ 64) (hdata : data.length < 2 ^ 64) (hout : out.cells.length < 2 ^ 64) :
    (∀ o, Words.phdHdiffEncode C base target hbase htarget o = C.phdHdiffEncode base target o) ∧
    Words.phdHdiffApply C base payload hbase hpayload out = C.phdHdiffApply base payload out ∧
    (∀ o, Words.phdZstdEncode C base target o = C.phdZstdEncode base target o) ∧
    Words.phdZstdApply C base payload hbase hpayload out = C.phdZstdApply base payload out ∧
    (∀ level windowLog checksum, Words.phdZstdCompress C data level windowLog checksum =
      C.phdZstdCompress data level windowLog checksum) ∧
    (∀ maxOutput, Words.phdZstdDecompress C data maxOutput = C.phdZstdDecompress data maxOutput.toNat) ∧
    ∀ n : UInt64, n.toNat ≤ 2 ^ 63 →
      (Words.maxCompressedSize n).toNat = maxCompressedSize n.toNat :=
  ⟨Words.phdHdiffEncode_words hC hbase htarget, Words.applyInto_words hC false hbase hpayload hout,
    Words.phdZstdEncode_words hbase htarget, Words.applyInto_words hC true hbase hpayload hout,
    Words.phdZstdCompress_words hdata, Words.phdZstdDecompress_words hC hdata,
    fun n hn => Words.maxCompressedSize_words (by unfold maxCompressedSize; omega)⟩

theorem Stored.readStandard_small {s : Bytes} {f : Frame UInt8} (h : Stored.readStandard s = some f) :
    f.recorded.getD contentSizeUnknown < 2 ^ 64 ∧ f.window < 2 ^ 64 := by
  match s, h with
  | descriptor :: x :: blocks, h =>
    simp only [Stored.readStandard] at h
    cases hc : Stored.readBlocks blocks.length blocks with
    | none =>
      rw [hc] at h
      cases h
    | some c =>
      rw [hc] at h
      dsimp only at h
      split at h
      · split at h
        · rename_i hlen
          obtain rfl := Option.some.inj h
          have hx := x.toNat_lt
          change c.length < 2 ^ 64 ∧ c.length < 2 ^ 64
          omega
        · cases h
      · split at h
        · obtain rfl := Option.some.inj h
          exact ⟨by change contentSizeUnknown < 2 ^ 64; decide, by change Stored.blockMax < 2 ^ 64; decide⟩
        · cases h

theorem Stored.readFrame_small {s : Bytes} {f : Frame UInt8} (h : Stored.readFrame s = some f) :
    f.recorded.getD contentSizeUnknown < 2 ^ 64 ∧ f.window < 2 ^ 64 := by
  unfold Stored.readFrame at h
  split at h
  · exact Stored.readStandard_small h
  · match s, h with
    | m :: a :: b :: c :: l0 :: l1 :: l2 :: l3 :: data, h =>
      simp only [Stored.readSkippable, Option.ite_none_right_eq_some] at h
      obtain ⟨-, h⟩ := h
      obtain rfl := Option.some.inj h
      exact ⟨by decide, by decide⟩

theorem Stored.zstd_words : Stored.zstd.Words := by
  have hheader : ∀ {b needed header}, Stored.getFrameHeader b = .ok (needed, header) →
      needed < 2 ^ 64 ∧ header.frameContentSize < 2 ^ 64 ∧ header.windowSize < 2 ^ 64 := by
    intro b needed header h
    unfold Stored.getFrameHeader at h
    cases hscan : Reference.scan Stored.format [] [] b with
    | none =>
      rw [hscan] at h
      cases h
    | some x =>
      rw [hscan] at h
      obtain ⟨rfl, rfl⟩ := Prod.mk.inj (Except.ok.inj h)
      obtain ⟨-, hframe⟩ := Reference.scan_some Stored.format hscan
      exact ⟨by decide, Stored.readFrame_small hframe⟩
  refine ⟨fun b => ?_, hheader, by decide, by decide⟩
  cases h : Stored.getFrameHeader b with
  | error e =>
    have hnone : Stored.zstd.getFrameContentSize b = 2 ^ 64 - 2 := by simp only [Stored.zstd, h]
    omega
  | ok x =>
    have hsize : Stored.zstd.getFrameContentSize b = x.2.frameContentSize := by simp only [Stored.zstd, h]
    rw [hsize]
    exact (hheader h).2.1

theorem Whole.scan_words {c : (pos n : Nat) → (Option Bytes → Diffing) → Diffing} {k : Bytes → Diffing}
    (limit : Nat) (hlimit : limit < 2 ^ 64)
    (hread : ∀ {pos n k}, pos < 2 ^ 64 ∧ n < 2 ^ 64 → (∀ r, Delivers n r → (k r).Words) → (c pos n k).Words)
    (hk : ∀ b : Bytes, b.length ≤ limit → (k b).Words) {fuel : Nat} {done : Bytes}
    (h : done.length + fuel ≤ limit) : (Whole.scan c k fuel done).Words := by
  induction fuel generalizing done with
  | zero => exact hk done h
  | succ fuel ih =>
    refine hread ⟨by omega, by decide⟩ fun r hr => ?_
    cases r with
    | none => exact hk done (by omega)
    | some b =>
      refine ih ?_
      rw [List.length_append, hr b rfl]
      omega

theorem Whole.diff_words {base target : Bytes} (htarget : target.length ≤ rawMax + 1) :
    (Whole.diff base target).Words := by
  have hheader : ∀ n, (Whole.header target.length base.length n).length ≤ 75 := by
    intro n
    rw [Whole.header_length]
    exact Whole.header_le _ _
  have hsteps := Whole.steps_length target.length
  have hcontent := Whole.content_length target
  have hraw : 100 + rawMax < 2 ^ 64 := by decide
  have hstart := hheader 0
  refine ⟨⟨by decide, by omega⟩, ⟨?_, by omega⟩, fun n => ?_⟩
  · change (Whole.content target).length < 2 ^ 64
    omega
  · have hlen := hheader n
    dsimp only
    split
    · exact ⟨⟨by omega, by omega⟩, trivial⟩
    · exact ⟨⟨by decide, by omega⟩, trivial⟩

theorem Whole.create_words : Whole.create.Words := by
  refine Whole.scan_words (rawMax + 1) (by decide) ?_ ?_ (Nat.le_of_eq (Nat.zero_add _))
  · exact fun hpos hk => ⟨hpos, hk⟩
  · intro target htarget
    refine Whole.scan_words (rawMax + 1) (by decide) ?_ ?_ (Nat.le_of_eq (Nat.zero_add _))
    · exact fun hpos hk => ⟨hpos, hk⟩
    · exact fun base _ => Whole.diff_words htarget

theorem Whole.parse_words {b : Bytes} {info : DiffInfo} (h : Whole.parse b = some info) : info.Words := by
  obtain ⟨⟨hnew, hold, hsize, hcompressed, hstep⟩, s, t, -, hpos, hlen, -⟩ := Whole.parse_split h
  exact ⟨hnew, hold, hsize, hcompressed, by omega, hstep⟩

theorem Whole.library_words : Whole.library.Words := by
  refine ⟨by decide, Whole.parse_words, ?_, fun _ _ _ => Whole.create_words⟩
  intro b info hinfo hfits hb plugin
  have hsmall := Whole.parse_words hinfo
  have hnew := hsmall.newDataSize
  have hsteps := Whole.steps_length info.newDataSize
  cases plugin with
  | true =>
    obtain ⟨hpos, hencoded⟩ := hfits
    have hend : info.diffDataPos + info.compressedSize < 2 ^ 64 := by
      unfold DiffInfo.encoded at hencoded
      split at hencoded <;> omega
    refine ⟨⟨hsmall.uncompressedSize, hsmall.diffDataPos, hend⟩, ?_, fun s _ =>
      ⟨?_, fun a _ _ => ⟨?_, fun c _ _ _ => trivial⟩⟩⟩ <;> omega
  | false =>
    refine ⟨⟨hsmall.diffDataPos, hsmall.uncompressedSize⟩, fun r _ => ?_⟩
    cases r with
    | none => trivial
    | some c =>
      change Session.Words (if _ then _ else _)
      split
      · exact fun _ => trivial
      · trivial

-- a patch that holds `abc` whole, against a library that reads, writes and opens the plugin
theorem phd_words_abc :
    let payload := Whole.header 3 1 0 ++ Whole.content [97, 98, 99]
    Words.phdHdiffApply Whole.host [97] payload (by decide) (by decide) (.fresh 3) =
      Whole.host.phdHdiffApply [97] payload (.fresh 3) :=
  (phd_words Whole.host ⟨Stored.zstd_words, Whole.library_words⟩ [97] []
    (Whole.header 3 1 0 ++ Whole.content [97, 98, 99]) [] (.fresh 3) (by decide) (by decide) (by decide)
    (by decide) (by decide)).2.1

end Pyhdiff.Guarantees
