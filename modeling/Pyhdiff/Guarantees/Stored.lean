import Pyhdiff.Python.Package
import Pyhdiff.Streaming.Reference

/-! A part of the zstd format small enough to compute with: frames of raw
blocks and of runs, with the content size or a 1 KiB window in their header, and
skippable frames. It makes the assumptions about zstd true of a zstd that can be
run. -/
namespace Pyhdiff.Guarantees.Stored
open Native Python Streaming

def blockMax : Nat := 1024

/-- A block header: the size, the type (0 for raw, 1 for a run), and whether it
is the last block. -/
def blockHeader (size kind last : Nat) : Bytes :=
  let v := 8 * size + 2 * kind + last
  [UInt8.ofNat v, UInt8.ofNat (v / 256), UInt8.ofNat (v / 65536)]

/-- The content of a string that is raw blocks and runs up to and with a last one. -/
def readBlocks : Nat → Bytes → Option Bytes
  | k+1, b0 :: b1 :: b2 :: rest =>
    let v := b0.toNat + 256 * b1.toNat + 65536 * b2.toNat
    let size := v / 8
    let stored := if v / 2 % 4 = 1 then 1 else size
    let block := if v / 2 % 4 = 1 then List.replicate size (rest.headD 0) else rest.take size
    if 2 ≤ v / 2 % 4 ∨ blockMax < size ∨ rest.length < stored then none
    else if v % 2 = 1 then if rest.length = stored then some block else none
    else (readBlocks k (rest.drop stored)).map (block ++ ·)
  | _, _ => none

def writeBlocks : Nat → Bytes → Bytes
  | k+1, b => if b.length ≤ blockMax then blockHeader b.length 0 1 ++ b
    else blockHeader blockMax 0 0 ++ (b.take blockMax ++ writeBlocks k (b.drop blockMax))
  | 0, b => blockHeader b.length 0 1 ++ b

def writeContent (b : Bytes) : Bytes :=
  if 1 < b.length ∧ b.length ≤ blockMax ∧ b = List.replicate b.length (b.headD 0) then
    blockHeader b.length 1 1 ++ [b.headD 0]
  else writeBlocks b.length b

theorem blockHeader_value {size kind last : Nat} (hsize : size ≤ blockMax) (hkind : kind ≤ 1)
    (hlast : last ≤ 1) :
    (UInt8.ofNat (8 * size + 2 * kind + last)).toNat +
      256 * (UInt8.ofNat ((8 * size + 2 * kind + last) / 256)).toNat +
      65536 * (UInt8.ofNat ((8 * size + 2 * kind + last) / 65536)).toNat =
        8 * size + 2 * kind + last := by
  unfold blockMax at hsize
  simp only [UInt8.toNat_ofNat']
  omega

theorem readBlocks_last {k : Nat} {b : Bytes} (hb : b.length ≤ blockMax) :
    readBlocks (k+1) (blockHeader b.length 0 1 ++ b) = some b := by
  simp only [blockHeader, List.cons_append, List.nil_append, readBlocks]
  rw [blockHeader_value hb (Nat.zero_le 1) (Nat.le_refl 1)]
  have hsize : (8 * b.length + 2 * 0 + 1) / 8 = b.length := by omega
  have hraw : ¬ (8 * b.length + 2 * 0 + 1) / 2 % 4 = 1 := by omega
  rw [hsize, if_neg hraw, if_neg hraw, if_neg (by omega), if_pos (by omega), if_pos rfl,
    List.take_length]

theorem readBlocks_more {k : Nat} {x rest : Bytes} (hx : x.length = blockMax) :
    readBlocks (k+1) (blockHeader blockMax 0 0 ++ (x ++ rest)) =
      (readBlocks k rest).map (x ++ ·) := by
  simp only [blockHeader, List.cons_append, List.nil_append, readBlocks]
  rw [blockHeader_value (Nat.le_refl _) (Nat.zero_le 1) (Nat.zero_le 1)]
  have hsize : (8 * blockMax + 2 * 0 + 0) / 8 = blockMax := by omega
  have hraw : ¬ (8 * blockMax + 2 * 0 + 0) / 2 % 4 = 1 := by omega
  rw [hsize, if_neg hraw, if_neg hraw, if_neg (by rw [List.length_append]; omega),
    if_neg (by omega), ← hx, List.drop_left, List.take_left]

theorem readBlocks_run {k n : Nat} (x : UInt8) (hn : n ≤ blockMax) :
    readBlocks (k+1) (blockHeader n 1 1 ++ [x]) = some (List.replicate n x) := by
  simp only [blockHeader, List.cons_append, List.nil_append, readBlocks]
  rw [blockHeader_value hn (Nat.le_refl 1) (Nat.le_refl 1)]
  have hsize : (8 * n + 2 * 1 + 1) / 8 = n := by omega
  have hrun : (8 * n + 2 * 1 + 1) / 2 % 4 = 1 := by omega
  rw [hsize, if_pos hrun, if_pos hrun, if_neg (by simp only [List.length_singleton]; omega),
    if_pos (by omega)]
  rfl

theorem readBlocks_write {j k : Nat} {b : Bytes} (hj : b.length ≤ j * blockMax + blockMax)
    (hk : (writeBlocks j b).length ≤ k) : readBlocks k (writeBlocks j b) = some b := by
  induction j generalizing b k with
  | zero =>
    rw [writeBlocks, blockHeader, List.length_append] at hk
    obtain ⟨k, rfl⟩ := Nat.exists_eq_succ_of_ne_zero (by simp at hk; omega : k ≠ 0)
    exact readBlocks_last (by omega)
  | succ j ih =>
    rw [writeBlocks] at hk ⊢
    split
    · rename_i hb
      rw [if_pos hb, blockHeader, List.length_append] at hk
      obtain ⟨k, rfl⟩ := Nat.exists_eq_succ_of_ne_zero (by simp at hk; omega : k ≠ 0)
      exact readBlocks_last hb
    · rename_i hb
      rw [if_neg hb, blockHeader, List.length_append, List.length_append] at hk
      simp only [List.length_cons, List.length_nil] at hk
      obtain ⟨k, rfl⟩ := Nat.exists_eq_succ_of_ne_zero (by omega : k ≠ 0)
      have hx : (b.take blockMax).length = blockMax := by
        rw [List.length_take]
        omega
      rw [readBlocks_more hx, ih (by
        rw [List.length_drop, Nat.succ_mul] at *
        omega) (by omega), Option.map_some, List.take_append_drop]

theorem writeBlocks_length (j : Nat) (b : Bytes) :
    (writeBlocks j b).length ≤ b.length + 3 * (b.length / blockMax) + 3 := by
  unfold blockMax
  induction j generalizing b with
  | zero =>
    simp only [writeBlocks, blockHeader, List.length_append, List.length_cons, List.length_nil]
    omega
  | succ j ih =>
    rw [writeBlocks]
    split
    · simp only [blockHeader, List.length_append, List.length_cons, List.length_nil]
      omega
    · have := ih (b.drop blockMax)
      simp only [blockMax, blockHeader, List.length_append, List.length_cons, List.length_nil,
        List.length_take, List.length_drop] at *
      omega

theorem readBlocks_writeContent (b : Bytes) :
    readBlocks (writeContent b).length (writeContent b) = some b := by
  unfold writeContent
  split
  · rename_i hrun
    rw [List.length_append, List.length_singleton, readBlocks_run _ hrun.2.1, ← hrun.2.2]
  · exact readBlocks_write (by unfold blockMax; omega) (Nat.le_refl _)

theorem writeContent_length (b : Bytes) :
    (writeContent b).length ≤ b.length + 3 * (b.length / blockMax) + 3 := by
  unfold writeContent
  split
  · simp only [blockHeader, List.length_append, List.length_cons, List.length_nil]
    omega
  · exact writeBlocks_length b.length b

theorem readBlocks_prefixFree {k k' : Nat} {s t c c' : Bytes} (h : readBlocks k s = some c)
    (h' : readBlocks k' (s ++ t) = some c') : t = [] := by
  induction k generalizing s k' c c' with
  | zero => simp [readBlocks] at h
  | succ k ih =>
    match s, h with
    | b0 :: b1 :: b2 :: rest, h =>
      cases k' with
      | zero => simp [readBlocks] at h'
      | succ k' =>
        simp only [List.cons_append, readBlocks] at h h'
        generalize b0.toNat + 256 * b1.toNat + 65536 * b2.toNat = v at h h'
        generalize (if v / 2 % 4 = 1 then 1 else v / 8) = stored at h h'
        split at h
        · cases h
        rename_i hok
        split at h'
        · cases h'
        split at h
        · rename_i hlast
          rw [if_pos hlast] at h'
          split at h
          · split at h'
            · rename_i hl hl'
              rw [List.length_append] at hl'
              exact List.eq_nil_of_length_eq_zero (by omega)
            · cases h'
          · cases h
        · rename_i hlast
          rw [if_neg hlast] at h'
          obtain ⟨d, hd, -⟩ := Option.map_eq_some_iff.mp h
          obtain ⟨d', hd', -⟩ := Option.map_eq_some_iff.mp h'
          rw [List.drop_append_of_le_length (by omega)] at hd'
          exact ih hd hd'

def zstdMagic : Bytes := [0x28, 0xB5, 0x2F, 0xFD]
def skippableMagic : Bytes := [0x2A, 0x4D, 0x18]

def sized (c : Bytes) : Frame UInt8 := ⟨false, c.length, some c.length, c, by simp, by simp⟩

def windowed (c : Bytes) : Frame UInt8 := ⟨false, blockMax, none, c, by simp, by simp⟩

def skippable : Frame UInt8 := ⟨true, 0, none, [], by simp, by simp⟩

def readStandard : Bytes → Option (Frame UInt8)
  | descriptor :: x :: blocks => match readBlocks blocks.length blocks with
    | none => none
    | some c =>
      if descriptor = 0x20 then if c.length = x.toNat then some (sized c) else none
      else if descriptor = 0 ∧ x = 0 then some (windowed c)
      else none
  | _ => none

def readSkippable : Bytes → Option (Frame UInt8)
  | m :: a :: b :: c :: l0 :: l1 :: l2 :: l3 :: data =>
    if 0x50 ≤ m ∧ m ≤ 0x5F ∧ [a, b, c] = skippableMagic ∧
        data.length = l0.toNat + 256 * (l1.toNat + 256 * (l2.toNat + 256 * l3.toNat)) then
      some skippable
    else none
  | _ => none

def readFrame (s : Bytes) : Option (Frame UInt8) :=
  if s.take 4 = zstdMagic then readStandard (s.drop 4) else readSkippable s

theorem readFrame_standard (b : Bytes) : readFrame (zstdMagic ++ b) = readStandard b := if_pos rfl

theorem readStandard_prefixFree {s t : Bytes} {f g : Frame UInt8} (h : readStandard s = some f)
    (h' : readStandard (s ++ t) = some g) : t = [] := by
  match s, h with
  | descriptor :: x :: blocks, h =>
    simp only [List.cons_append, readStandard] at h h'
    cases hc : readBlocks blocks.length blocks with
    | none => simp [hc] at h
    | some c =>
      cases hc' : readBlocks (blocks ++ t).length (blocks ++ t) with
      | none =>
        rw [hc'] at h'
        cases h'
      | some c' => exact readBlocks_prefixFree hc hc'

theorem readSkippable_length {s : Bytes} {f : Frame UInt8} (h : readSkippable s = some f) :
    4 ≤ s.length := by
  match s, h with
  | m :: a :: b :: c :: l0 :: l1 :: l2 :: l3 :: data, _ => simp

theorem readSkippable_prefixFree {s t : Bytes} {f g : Frame UInt8} (h : readSkippable s = some f)
    (h' : readSkippable (s ++ t) = some g) : t = [] := by
  match s, h with
  | m :: a :: b :: c :: l0 :: l1 :: l2 :: l3 :: data, h =>
    simp only [List.cons_append, readSkippable, Option.ite_none_right_eq_some] at h h'
    have hl := h.1.2.2.2
    have hl' := h'.1.2.2.2
    rw [List.length_append, ← hl] at hl'
    exact List.eq_nil_of_length_eq_zero (by omega)

def format : Format UInt8 where
  frame _ s := readFrame s
  nonempty _ := rfl
  prefixFree := by
    intro _ s t f g h h'
    unfold readFrame at h h'
    by_cases hmagic : s.take 4 = zstdMagic
    · have hlen : 4 ≤ s.length := by
        have := congrArg List.length hmagic
        rw [List.length_take] at this
        simp only [zstdMagic, List.length_cons, List.length_nil] at this
        omega
      rw [if_pos hmagic] at h
      rw [List.take_append_of_le_length hlen, if_pos hmagic, List.drop_append_of_le_length hlen] at h'
      exact readStandard_prefixFree h h'
    · rw [if_neg hmagic] at h
      rw [List.take_append_of_le_length (readSkippable_length h), if_neg hmagic] at h'
      exact readSkippable_prefixFree h h'

def encode (job : Job (CParameter → Int) UInt8) (src : Bytes) : Option Bytes :=
  if src.length ≠ job.pledged then none
  else if job.params .contentSizeFlag = 1 ∧ src.length < 256 then
    some (zstdMagic ++ (0x20 :: UInt8.ofNat src.length :: writeContent src))
  else some (zstdMagic ++ (0 :: 0 :: writeContent src))

theorem encode_frame {job : Job (CParameter → Int) UInt8} {src out : Bytes}
    (h : encode job src = some out) : src.length = job.pledged ∧
      ((src.length < 256 ∧ readFrame out = some (sized src)) ∨ readFrame out = some (windowed src)) := by
  have hblocks := readBlocks_writeContent src
  unfold encode at h
  split at h
  · cases h
  rename_i hlen
  refine ⟨not_not.mp hlen, ?_⟩
  split at h
  · rename_i hsized
    obtain rfl := Option.some.inj h
    left
    refine ⟨hsized.2, ?_⟩
    have hx : (UInt8.ofNat src.length).toNat = src.length := by
      rw [UInt8.toNat_ofNat']
      omega
    rw [readFrame_standard, readStandard, hblocks]
    simp only [if_true, hx]
  · obtain rfl := Option.some.inj h
    right
    rw [readFrame_standard, readStandard, hblocks]
    simp

theorem encode_sound (job : Job (CParameter → Int) UInt8) (src out : Bytes)
    (h : encode job src = some out) :
    ∃ f, format.frame job.history out = some f ∧ f.skippable = false ∧ f.content = src := by
  cases (encode_frame h).2 with
  | inl h =>
    obtain ⟨-, hf⟩ := h
    exact ⟨_, hf, rfl, rfl⟩
  | inr hf => exact ⟨_, hf, rfl, rfl⟩

def getFrameHeader (b : Bytes) : Except Nat (Nat × FrameHeader) :=
  match Reference.scan format [] [] b with
  | none => .error 10
  | some (_, f) => .ok (0, ⟨f.recorded.getD contentSizeUnknown, f.window, f.skippable⟩)

def defaults : CParameter → Int
  | .compressionLevel => 3
  | .contentSizeFlag => 1
  | _ => 0

/-- A zstd of this part of the format, made of the reference codec. -/
def zstd : Zstd where
  DCtx := Reference.DecoderState UInt8
  createDCtx := some ⟨⟨[], 27⟩, [], none⟩
  dctxSetWindowLogMax ctx w :=
    if 10 ≤ w ∧ w ≤ 31 then .ok { ctx with cfg := { ctx.cfg with windowLog := w } } else .error 42
  dctxRefPrefix ctx b := .ok { ctx with cfg := { ctx.cfg with history := b } }
  decompressStream := Reference.decode format
  decompressStream_within := Reference.decode_within format
  getFrameHeader := getFrameHeader
  getFrameContentSize b := match getFrameHeader b with
    | .ok (_, h) => h.frameContentSize
    | .error _ => 2 ^ 64 - 2
  CCtx := Reference.EncoderState (CParameter → Int) UInt8
  createCCtx := some ⟨⟨defaults, [], 0⟩, [], none⟩
  cctxSetParameter ctx p v :=
    .ok { ctx with job := { ctx.job with params := fun q => if q = p then v else ctx.job.params q } }
  cctxSetPledgedSrcSize ctx n := .ok { ctx with job := { ctx.job with pledged := n } }
  cctxRefPrefix ctx b := .ok { ctx with job := { ctx.job with history := b } }
  compressStream2 := Reference.encodeStream encode
  compressStream2_within := (Reference.encoder format encode encode_sound).within
  cStreamInSize := 131072
  cStreamOutSize := 131591
  getCParams _ _ _ := ⟨21, 16, 2⟩
  adjustCParams p _ _ := p

def decodingLaws : DecodingLaws zstd format where
  dec := Reference.decoder format
  created := by
    rintro ctx ⟨⟩
    exact Reference.at_start format _
  windowSet := by
    rintro ctx cfg w ⟨hcfg, htaken, hwaiting⟩ hw hw'
    refine ⟨_, if_pos ⟨hw, hw'⟩, ?_, htaken, ?_⟩
    · rw [hcfg]
    · cases h : ctx.waiting with
      | none => exact ⟨rfl, rfl⟩
      | some left => simp [h, format, readFrame, readSkippable, zstdMagic] at hwaiting
  prefixSet := by
    rintro ctx cfg b ⟨hcfg, htaken, hwaiting⟩
    refine ⟨_, rfl, ?_, htaken, ?_⟩
    · rw [hcfg]
    · cases h : ctx.waiting with
      | none => exact ⟨rfl, rfl⟩
      | some left => simp [h, format, readFrame, readSkippable, zstdMagic] at hwaiting
  header := by
    intro p s f hf t
    have hscan := Reference.scan_frame format (p := []) (t := t) hf
    refine ⟨⟨f.recorded.getD contentSizeUnknown, f.window, f.skippable⟩, ?_, rfl, rfl, fun _ => rfl⟩
    change getFrameHeader (s ++ t) = _
    rw [getFrameHeader, hscan]

theorem decodingLaws_strict : decodingLaws.dec.Strict := Reference.decoder_strict format

theorem decodingLaws_refuses : decodingLaws.Refuses :=
  fun hat hf hno _ _ hne hin => Reference.decode_refuses format hat hf hno hne hin

theorem zstd_creates : zstd.createDCtx ≠ none := by simp [zstd]

def encodingLaws : EncodingLaws zstd format where
  enc := Reference.encoder format encode encode_sound
  defaults := defaults
  automaticWindow := rfl
  Idle ctx s := ctx.fed = [] ∧ ctx.waiting = none ∧ ctx.job.params = s.params ∧
    ctx.job.history = s.history ∧ ∀ n, s.pledged = some n → ctx.job.pledged = n
  created := by
    rintro ctx ⟨⟩
    exact ⟨rfl, rfl, rfl, rfl, by simp⟩
  parameterSet := by
    rintro ctx ctx' s p v ⟨hfed, hwaiting, hparams, hhistory, hpledged⟩ ⟨⟩
    exact ⟨hfed, hwaiting, by simp only [hparams, Setup.set], hhistory, hpledged⟩
  pledgedSet := by
    rintro ctx ctx' s n ⟨hfed, hwaiting, hparams, hhistory, -⟩ ⟨⟩
    exact ⟨hfed, hwaiting, hparams, hhistory, by simp⟩
  prefixSet := by
    rintro ctx ctx' s b ⟨hfed, hwaiting, hparams, -, hpledged⟩ ⟨⟩
    exact ⟨hfed, hwaiting, hparams, rfl, hpledged⟩
  begins := by
    rintro ctx s n ⟨hfed, hwaiting, hparams, hhistory, hpledged⟩ hn
    refine ⟨?_, hfed, ?_⟩
    · rw [← hparams, ← hhistory, ← hpledged n hn]
    · simp [hwaiting]

theorem emits_window {job : Job (CParameter → Int) UInt8} {f : Frame UInt8}
    (h : encodingLaws.enc.emits job f) :
    f.window = blockMax ∨ (f.window = job.pledged ∧ f.window < 256) := by
  obtain ⟨src, out, he, hf⟩ := h
  obtain ⟨hlen, ⟨hsmall, hf'⟩ | hf'⟩ := encode_frame he
  · obtain rfl := Option.some.inj (hf.symm.trans hf')
    exact .inr ⟨hlen, hsmall⟩
  · obtain rfl := Option.some.inj (hf.symm.trans hf')
    exact .inl rfl

theorem encodingLaws_capsWindow : encodingLaws.CapsWindow := by
  intro job f h _
  have := emits_window h
  simp only [blockMax, zstdWindowLogMax] at this ⊢
  omega

theorem encodingLaws_honorsWindowLog : encodingLaws.HonorsWindowLog := by
  intro job f w h _ hw
  have hle : 2 ^ 10 ≤ 2 ^ w := Nat.pow_le_pow_right (by decide) hw
  have := emits_window h
  simp only [blockMax] at this
  omega

theorem encodingLaws_fitsWindow : encodingLaws.FitsWindow := by
  intro job f h _
  cases emits_window h with
  | inl hf =>
    rw [hf]
    exact Nat.le_max_left _ _
  | inr h =>
    obtain ⟨hf, -⟩ := h
    rw [hf]
    exact (Nat.le_pow_clog (by decide) _).trans (Nat.le_max_right _ _)

theorem encodingLaws_ready : encodingLaws.Ready where
  creates := by simp [zstd]
  sets _ _ := ⟨_, rfl⟩
  pledges _ _ := ⟨_, rfl⟩
  buffers := by decide

theorem encode_ne_none (job : Job (CParameter → Int) UInt8) (src : Bytes)
    (hlen : src.length = job.pledged) : encode job src ≠ none := by
  intro h
  unfold encode at h
  rw [if_neg (not_not.mpr hlen)] at h
  split at h <;> cases h

theorem encode_length {job : Job (CParameter → Int) UInt8} {src out : Bytes}
    (h : encode job src = some out) :
    out.length ≤ job.pledged + 3 * (job.pledged / blockMax) + 9 := by
  have hlen := (encode_frame h).1
  have hblocks := writeContent_length src
  unfold encode at h
  rw [if_neg (not_not.mpr hlen)] at h
  rw [hlen] at hblocks
  split at h
  · obtain rfl := Option.some.inj h
    simp only [zstdMagic, List.length_append, List.length_cons, List.length_nil]
    omega
  · obtain rfl := Option.some.inj h
    simp only [zstdMagic, List.length_append, List.length_cons, List.length_nil]
    omega

theorem encodingLaws_flushes : encodingLaws.enc.Flushes fun job => 4 * job.pledged + 9 := by
  refine Reference.encoder_flushes format encode encode_sound encode_ne_none ?_
  intro job src out h
  have := encode_length h
  unfold blockMax at this
  omega

theorem encode_compressBound (job : Job (CParameter → Int) UInt8) (src out : Bytes)
    (h : encode job src = some out) : out.length ≤ compressBound job := by
  have := encode_length h
  unfold blockMax at this
  unfold compressBound
  omega

theorem encodingLaws_flushes_bound : encodingLaws.enc.Flushes compressBound :=
  Reference.encoder_flushes format encode encode_sound encode_ne_none encode_compressBound

theorem encodingLaws_compact : encodingLaws.enc.Compact compressBound :=
  Reference.encoder_compact format encode encode_sound encode_compressBound

theorem encodingLaws_takesEmptyPrefix : encodingLaws.TakesEmptyPrefix := fun _ => ⟨_, rfl⟩

/-- A machine with this library, ample memory, and no use for HDiffPatch. -/
def host : Host where
  zstd := zstd
  hdiff := ⟨4096, memWrite, fun _ _ _ => rfl, fun _ => none, fun _ _ => .finish false, fun _ _ _ => .finish⟩
  heap := ⟨fun _ _ => true, fun _ => true⟩
  passes := 100

def patient : Host := { host with passes := 2000 }

theorem host_grants : host.heap.Grants := ⟨fun _ _ => rfl, fun _ => rfl⟩

def interpreter : Interpreter := ⟨fun _ => true, rfl, fun _ => 0⟩

/-- The frame zstd makes of `abc`, with its length and without a checksum. -/
def abcFrame : Bytes := [0x28, 0xB5, 0x2F, 0xFD, 0x20, 3, 25, 0, 0, 97, 98, 99]

theorem abcFrame_frame (base : Bytes) : format.frame base abcFrame = some (sized [97, 98, 99]) := rfl

theorem compress_abc :
    Python.compress (native host interpreter) [97, 98, 99] 3 0 false = .ok abcFrame := by
  decide +kernel

theorem encodeDelta_abc : encodeDelta (native host interpreter) [] [97, 98, 99]
    (.zstd ⟨3, 0, "auto", true, false, 0, 0, 0, 0⟩) =
      .ok (envelope .zstd [] [97, 98, 99] abcFrame) := by
  decide +kernel

end Pyhdiff.Guarantees.Stored
