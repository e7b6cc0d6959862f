import Pyhdiff.Data.BigEndian
import Pyhdiff.Data.Sha256
import Pyhdiff.Python.Extension

/-! The version 1 envelope: a 96-byte header and a payload. -/
namespace Pyhdiff.Python
open Native

def magic : Bytes := [0x50, 0x48, 0x44, 0x46]
def formatVersion : Nat := 1
def envelopeSize : Nat := 96

inductive Codec where
  | hdiff | zstd
  deriving DecidableEq

def Codec.toNat : Codec → Nat
  | .hdiff => 1
  | .zstd => 2

def Codec.ofNat? : Nat → Option Codec
  | 1 => some .hdiff
  | 2 => some .zstd
  | _ => none

structure Header where
  formatVersion : Nat
  codec : Codec
  baseLength : Nat
  targetLength : Nat
  payloadLength : Nat
  baseSha256 : Bytes
  targetSha256 : Bytes
  deriving DecidableEq

/-- The format `32s` of `struct.pack`: cut or padded with zeros to 32 bytes. -/
def pack32s (b : Bytes) : Bytes := (b ++ List.replicate 32 0).take 32

/-- `_HEADER.pack(...)`, the format `>4sBBHQQQ32s32s`. -/
def Header.pack (h : Header) : Bytes :=
  magic ++ (BigEndian.encode 1 h.formatVersion ++ (BigEndian.encode 1 h.codec.toNat ++
    (BigEndian.encode 2 0 ++ (BigEndian.encode 8 h.baseLength ++
    (BigEndian.encode 8 h.targetLength ++ (BigEndian.encode 8 h.payloadLength ++
    (pack32s h.baseSha256 ++ pack32s h.targetSha256)))))))

def envelope (codec : Codec) (base target payload : Bytes) : Bytes :=
  let header := (⟨formatVersion, codec, base.length, target.length, payload.length,
    sha256 base, sha256 target⟩ : Header).pack
  header ++ payload

def field (b : Bytes) (offset w : Nat) : Bytes := (b.drop offset).take w

def inspect (blob : Bytes) : Py Header :=
  let size := blob.length
  if size < envelopeSize then raise (.envelopeError "shorter than the envelope header")
  else
    let fmt := BigEndian.decode (field blob 4 1)
    let codec := BigEndian.decode (field blob 5 1)
    let reserved := BigEndian.decode (field blob 6 2)
    let baseLen := BigEndian.decode (field blob 8 8)
    let targetLen := BigEndian.decode (field blob 16 8)
    let payloadLen := BigEndian.decode (field blob 24 8)
    let baseHash := field blob 32 32
    let targetHash := field blob 64 32
    if field blob 0 4 ≠ magic then raise (.envelopeError "bad magic")
    else if fmt ≠ formatVersion then
      raise (.envelopeError ("unsupported format version " ++ toString fmt))
    else match Codec.ofNat? codec with
      | none => raise (.envelopeError ("unsupported codec " ++ toString codec))
      | some c =>
        if reserved ≠ 0 then raise (.envelopeError "reserved bytes are not zero")
        else if payloadLen ≠ size - envelopeSize then
          raise (.envelopeError "payload length does not match the envelope size")
        else .ok ⟨fmt, c, baseLen, targetLen, payloadLen, baseHash, targetHash⟩

/-- A header of a supported version whose fields fit their widths. -/
structure Header.WellFormed (h : Header) : Prop where
  version : h.formatVersion = Python.formatVersion
  baseLength : h.baseLength < 2 ^ 64
  targetLength : h.targetLength < 2 ^ 64
  payloadLength : h.payloadLength < 2 ^ 64
  baseSha256 : h.baseSha256.length = 32
  targetSha256 : h.targetSha256.length = 32

@[simp] theorem pack32s_length (b : Bytes) : (pack32s b).length = 32 := by
  simp [pack32s]

theorem pack32s_eq {b : Bytes} (h : b.length = 32) : pack32s b = b := by
  rw [pack32s, List.take_append_of_le_length (Nat.le_of_eq h.symm), ← h, List.take_length]

@[simp] theorem magic_length : magic.length = 4 := rfl

@[simp] theorem Header.pack_length (h : Header) : h.pack.length = envelopeSize := by
  simp [Header.pack, envelopeSize]

theorem Codec.ofNat?_toNat (c : Codec) : Codec.ofNat? c.toNat = some c := by cases c <;> rfl

theorem Codec.toNat_of_ofNat? {n : Nat} {c : Codec} (h : Codec.ofNat? n = some c) : c.toNat = n := by
  unfold Codec.ofNat? at h
  split at h
  · obtain rfl := Option.some.inj h
    rfl
  · obtain rfl := Option.some.inj h
    rfl
  · cases h

theorem field_append_drop (b : Bytes) (offset w : Nat) :
    field b offset w ++ b.drop (offset + w) = b.drop offset := by
  rw [field, ← List.drop_drop, List.take_append_drop]

theorem field_skip {a b : Bytes} {offset w : Nat} (h : a.length ≤ offset) :
    field (a ++ b) offset w = field b (offset - a.length) w := by
  rw [field, List.drop_append, List.drop_eq_nil_of_le h, List.nil_append, field]

theorem field_head {x b : Bytes} {offset w : Nat} (h0 : offset = 0) (h : x.length = w) :
    field (x ++ b) offset w = x := by
  rw [field, h0, List.drop_zero, ← h, List.take_left]

theorem field_length (b : Bytes) (offset w : Nat) (h : offset + w ≤ b.length) :
    (field b offset w).length = w := by
  rw [field, List.length_take, List.length_drop]
  omega

theorem field_append {b t : Bytes} {offset w : Nat} (h : offset + w ≤ b.length) :
    field (b ++ t) offset w = field b offset w := by
  rw [field, List.drop_append_of_le_length (by omega), List.take_append_of_le_length, field]
  rw [List.length_drop]
  omega

theorem encode_field (b : Bytes) (offset w : Nat) (h : offset + w ≤ b.length) :
    BigEndian.encode w (BigEndian.decode (field b offset w)) = field b offset w := by
  have henc := BigEndian.encode_decode (field b offset w)
  rwa [field_length b offset w h] at henc

theorem decode_field_lt (b : Bytes) (offset w : Nat) (h : offset + w ≤ b.length) :
    BigEndian.decode (field b offset w) < 256 ^ w := by
  have hlt := BigEndian.decode_lt (field b offset w)
  rwa [field_length b offset w h] at hlt

/-- Everything an accepted envelope has passed, and nothing else. -/
theorem inspect_eq_ok {blob : Bytes} {h : Header} : inspect blob = .ok h ↔
    envelopeSize ≤ blob.length ∧ field blob 0 4 = magic ∧
    BigEndian.decode (field blob 4 1) = formatVersion ∧
    BigEndian.decode (field blob 5 1) = h.codec.toNat ∧
    BigEndian.decode (field blob 6 2) = 0 ∧
    BigEndian.decode (field blob 24 8) = blob.length - envelopeSize ∧
    h = ⟨formatVersion, h.codec, BigEndian.decode (field blob 8 8),
      BigEndian.decode (field blob 16 8), BigEndian.decode (field blob 24 8),
      field blob 32 32, field blob 64 32⟩ := by
  unfold inspect raise
  dsimp only
  split
  · simp only [reduceCtorEq, false_iff]
    rintro ⟨hsize, -⟩
    omega
  split
  · simp only [reduceCtorEq, false_iff]
    rintro ⟨-, hmagic, -⟩
    contradiction
  split
  · simp only [reduceCtorEq, false_iff]
    rintro ⟨-, -, hversion, -⟩
    contradiction
  rename_i hsize hmagic hversion
  simp only [ne_eq, not_not] at hmagic hversion
  cases hcodec : Codec.ofNat? (BigEndian.decode (field blob 5 1)) with
  | none =>
    simp only [reduceCtorEq, false_iff]
    rintro ⟨-, -, -, hc, -⟩
    rw [hc, Codec.ofNat?_toNat] at hcodec
    cases hcodec
  | some c =>
    have hc := Codec.toNat_of_ofNat? hcodec
    dsimp only
    split
    · simp only [reduceCtorEq, false_iff]
      rintro ⟨-, -, -, -, hreserved, -⟩
      contradiction
    split
    · simp only [reduceCtorEq, false_iff]
      rintro ⟨-, -, -, -, -, hpayload, -⟩
      contradiction
    rename_i hreserved hpayload
    simp only [ne_eq, not_not] at hreserved hpayload
    constructor
    · intro hh
      obtain rfl := Except.ok.inj hh
      exact ⟨by omega, hmagic, hversion, hc.symm, hreserved, hpayload, by rw [hversion]⟩
    · rintro ⟨-, -, -, hc', -, -, hh⟩
      have hsame : c = h.codec := by
        rw [hc', Codec.ofNat?_toNat] at hcodec
        exact (Option.some.inj hcodec).symm
      rw [hh, hversion, hsame]

theorem inspect_cases (blob : Bytes) :
    (∃ h, inspect blob = .ok h) ∨ ∃ message, inspect blob = raise (.envelopeError message) := by
  unfold inspect
  dsimp only
  split
  · exact .inr ⟨_, rfl⟩
  split
  · exact .inr ⟨_, rfl⟩
  split
  · exact .inr ⟨_, rfl⟩
  split
  · exact .inr ⟨_, rfl⟩
  split
  · exact .inr ⟨_, rfl⟩
  split
  · exact .inr ⟨_, rfl⟩
  · exact .inl ⟨_, rfl⟩

/-- Parsing is faithful: packing what was read gives the header back. -/
theorem pack_inspect {blob : Bytes} {h : Header} (hok : inspect blob = .ok h) :
    h.WellFormed ∧ h.payloadLength = blob.length - envelopeSize ∧
      h.pack ++ blob.drop envelopeSize = blob := by
  obtain ⟨hsize, hmagic, hversion, hcodec, hreserved, hpayload, hh⟩ := inspect_eq_ok.mp hok
  unfold envelopeSize at hsize
  have hbase := decode_field_lt blob 8 8 (by omega)
  have htarget := decode_field_lt blob 16 8 (by omega)
  have hpayload' := decode_field_lt blob 24 8 (by omega)
  have hbaseHash := field_length blob 32 32 (by omega)
  have htargetHash := field_length blob 64 32 (by omega)
  rw [hh]
  refine ⟨⟨rfl, hbase, htarget, hpayload', hbaseHash, htargetHash⟩, hpayload, ?_⟩
  have hzero := encode_field blob 6 2 (by omega)
  rw [hreserved] at hzero
  simp only [Header.pack, List.append_assoc, ← hmagic, ← hversion, ← hcodec, hzero,
    pack32s_eq hbaseHash, pack32s_eq htargetHash]
  rw [encode_field blob 4 1 (by omega), encode_field blob 5 1 (by omega),
    encode_field blob 8 8 (by omega), encode_field blob 16 8 (by omega),
    encode_field blob 24 8 (by omega)]
  have hjoin := field_append_drop blob
  rw [envelopeSize, hjoin 64 32, hjoin 32 32, hjoin 24 8, hjoin 16 8, hjoin 8 8, hjoin 6 2,
    hjoin 5 1, hjoin 4 1, hjoin 0 4, List.drop_zero]

theorem inspect_pack {h : Header} {payload : Bytes} (hwf : h.WellFormed)
    (hpayload : payload.length = h.payloadLength) : inspect (h.pack ++ payload) = .ok h := by
  obtain ⟨version, codec, baseLength, targetLength, payloadLength, baseHash, targetHash⟩ := h
  obtain ⟨hversion, hbase, htarget, hpayload', hbaseHash, htargetHash⟩ := hwf
  simp only at hversion hbase htarget hpayload' hbaseHash htargetHash hpayload
  subst hversion
  have hlen : (Header.pack ⟨formatVersion, codec, baseLength, targetLength, payloadLength, baseHash,
      targetHash⟩ ++ payload).length = envelopeSize + payload.length := by
    rw [List.length_append, Header.pack_length]
  generalize hb : Header.pack _ ++ payload = blob at hlen
  simp only [Header.pack, List.append_assoc, pack32s_eq hbaseHash, pack32s_eq htargetHash] at hb
  have h0 : field blob 0 4 = magic := by
    rw [← hb]
    exact field_head rfl magic_length
  have h4 : field blob 4 1 = BigEndian.encode 1 formatVersion := by
    rw [← hb]
    iterate 1 rw [field_skip (by simp)]
    exact field_head (by simp) (by simp)
  have h5 : field blob 5 1 = BigEndian.encode 1 codec.toNat := by
    rw [← hb]
    iterate 2 rw [field_skip (by simp)]
    exact field_head (by simp) (by simp)
  have h6 : field blob 6 2 = BigEndian.encode 2 0 := by
    rw [← hb]
    iterate 3 rw [field_skip (by simp)]
    exact field_head (by simp) (by simp)
  have h8 : field blob 8 8 = BigEndian.encode 8 baseLength := by
    rw [← hb]
    iterate 4 rw [field_skip (by simp)]
    exact field_head (by simp) (by simp)
  have h16 : field blob 16 8 = BigEndian.encode 8 targetLength := by
    rw [← hb]
    iterate 5 rw [field_skip (by simp)]
    exact field_head (by simp) (by simp)
  have h24 : field blob 24 8 = BigEndian.encode 8 payloadLength := by
    rw [← hb]
    iterate 6 rw [field_skip (by simp)]
    exact field_head (by simp) (by simp)
  have h32 : field blob 32 32 = baseHash := by
    rw [← hb]
    iterate 7 rw [field_skip (by simp)]
    exact field_head (by simp) hbaseHash
  have h64 : field blob 64 32 = targetHash := by
    rw [← hb]
    iterate 8 rw [field_skip (by simp [hbaseHash])]
    exact field_head (by simp [hbaseHash]) htargetHash
  have hcodec : codec.toNat < 256 ^ 1 := by cases codec <;> decide
  refine inspect_eq_ok.mpr ⟨by omega, h0, ?_, ?_, ?_, ?_, ?_⟩
  · rw [h4, BigEndian.decode_encode _ _ (by decide)]
  · rw [h5, BigEndian.decode_encode _ _ hcodec]
  · rw [h6, BigEndian.decode_encode _ _ (by decide)]
  · rw [h24, BigEndian.decode_encode _ _ hpayload', hlen, ← hpayload, Nat.add_sub_cancel_left]
  · rw [h8, h16, h24, h32, h64, BigEndian.decode_encode _ _ hbase,
      BigEndian.decode_encode _ _ htarget, BigEndian.decode_encode _ _ hpayload']

/-- The payload length pins the end: no envelope is the beginning of another. -/
theorem inspect_whole {blob rest : Bytes} {h h' : Header} (hok : inspect blob = .ok h)
    (hok' : inspect (blob ++ rest) = .ok h') : rest = [] := by
  obtain ⟨hsize, -, -, -, -, hpayload, -⟩ := inspect_eq_ok.mp hok
  obtain ⟨-, -, -, -, -, hpayload', -⟩ := inspect_eq_ok.mp hok'
  unfold envelopeSize at hsize hpayload hpayload'
  rw [field_append (by omega), hpayload, List.length_append] at hpayload'
  exact List.eq_nil_of_length_eq_zero (by omega)

theorem envelope_length (codec : Codec) (base target payload : Bytes) :
    (envelope codec base target payload).length = envelopeSize + payload.length := by
  rw [envelope, List.length_append, Header.pack_length]

theorem envelope_drop (codec : Codec) (base target payload : Bytes) :
    (envelope codec base target payload).drop envelopeSize = payload := by
  rw [envelope, List.drop_left' (Header.pack_length _)]

theorem envelope_target (codec : Codec) (base target payload : Bytes) :
    field (envelope codec base target payload) 64 32 = sha256 target := by
  simp only [envelope, Header.pack, List.append_assoc]
  iterate 8 rw [field_skip (by simp)]
  rw [field_head (by simp) (by simp), pack32s_eq (Sha256.sha256_length target)]

theorem inspect_envelope (codec : Codec) {base target payload : Bytes} (hbase : base.length < 2 ^ 64)
    (htarget : target.length < 2 ^ 64) (hpayload : payload.length < 2 ^ 64) :
    inspect (envelope codec base target payload) = .ok ⟨formatVersion, codec, base.length,
      target.length, payload.length, sha256 base, sha256 target⟩ :=
  inspect_pack ⟨rfl, hbase, htarget, hpayload, Sha256.sha256_length _, Sha256.sha256_length _⟩ rfl

theorem inspect_encoded (codec : Codec) {base target payload : Bytes} (hbase : base.length ≤ rawMax)
    (htarget : target.length ≤ rawMax) (hpayload : payload.length ≤ payloadMax) :
    inspect (envelope codec base target payload) = .ok ⟨formatVersion, codec, base.length,
      target.length, payload.length, sha256 base, sha256 target⟩ := by
  have hraw : rawMax < 2 ^ 64 := by decide
  have hmax : payloadMax < 2 ^ 64 := by decide
  exact inspect_envelope codec (by omega) (by omega) (by omega)

end Pyhdiff.Python
