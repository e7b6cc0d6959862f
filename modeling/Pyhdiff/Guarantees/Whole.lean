import Pyhdiff.Data.Packed
import Pyhdiff.Guarantees.Stored
import Pyhdiff.Native.PlainDiff

/-! A small patch library. Its patches are those of HDiffPatch for files that have
nothing in common: a header, one empty cover at the end of the new file, and the
new file itself, as one frame of the plugin where that is shorter. -/
namespace Pyhdiff.Guarantees.Whole
open Native Streaming

/-- `HDIFFSF20&zstd`, with its terminator. -/
def magic : Bytes := [72, 68, 73, 70, 70, 83, 70, 50, 48, 38, 122, 115, 116, 100, 0]

/-- The cover: its places in the old and the new file, and its length. -/
def cover (new : Nat) : Bytes := 0 :: (Packed.encode new ++ [0])

/-- The sizes of the covers and of the differences, then these. -/
def steps (new : Nat) : Bytes := Packed.encode (cover new).length ++ 1 :: (cover new ++ [0])

def content (target : Bytes) : Bytes := steps target.length ++ target

/-- The last number has room for the size of the content. -/
def header (new old compressed : Nat) : Bytes :=
  let size := (steps new).length + new
  magic ++ (Packed.encode new ++ (Packed.encode old ++ (Packed.encode 1 ++
    (Packed.encode ((cover new).length + 1) ++ (Packed.encode size ++
      Packed.digits (Packed.width 9 size) compressed)))))

theorem encode_length (n : Nat) : (Packed.encode n).length ≤ 10 := by
  rw [Packed.encode, Packed.digits_length]
  exact Packed.width_le 9 n

theorem cover_length (new : Nat) : (cover new).length ≤ 12 := by
  have hnew := encode_length new
  simp only [cover, List.length_append, List.length_cons, List.length_nil]
  omega

theorem steps_length (new : Nat) : (steps new).length ≤ 24 := by
  have hcover := cover_length new
  have hsize := encode_length (cover new).length
  simp only [steps, List.length_append, List.length_cons, List.length_nil]
  omega

theorem header_length (new old compressed : Nat) :
    (header new old compressed).length = (header new old 0).length := by
  simp only [header, List.length_append, Packed.digits_length]

theorem header_le (new old : Nat) : (header new old 0).length ≤ 75 := by
  have hnew := encode_length new
  have hold := encode_length old
  have hone := encode_length 1
  have hstep := encode_length ((cover new).length + 1)
  have hsize := encode_length ((steps new).length + new)
  have hlast := Packed.width_le 9 ((steps new).length + new)
  have hmagic : magic.length = 15 := rfl
  simp only [header, List.length_append, Packed.digits_length, hmagic]
  omega

/-- Read a stream byte by byte to its end. -/
def scan (c : (pos n : Nat) → (Option Bytes → Diffing) → Diffing) (k : Bytes → Diffing) :
    Nat → Bytes → Diffing
  | 0, done => k done
  | fuel+1, done => c done.length 1 fun r => r.elim (k done) fun b => scan c k fuel (done ++ b)

def diff (base target : Bytes) : Diffing :=
  let size := (header target.length base.length 0).length
  .write 0 (header target.length base.length 0)
    (.compress (Input (content target)) size ((content target).length - 1) fun n =>
      if n = 0 then .write size (content target) .finish
      else .write 0 (header target.length base.length n) .finish)

def create : Diffing :=
  scan .readNew (fun target => scan .readOld (fun base => diff base target) (rawMax + 1) [])
    (rawMax + 1) []

def parse (patch : Bytes) : Option DiffInfo :=
  if magic <+: patch then
    match Packed.readMany 6 (patch.drop magic.length) with
    | some ([new, old, covers, step, size, compressed], rest) =>
      some ⟨new, old, size, compressed, patch.length - rest.length, covers, step, "zstd"⟩
    | _ => none
  else none

/-- The new file is asked for in two parts. -/
def unpack (info : DiffInfo) : Session .closed :=
  .opens info.uncompressedSize info.diffDataPos (info.diffDataPos + info.compressedSize) <|
    .part (steps info.newDataSize).length fun s =>
      .part (info.newDataSize / 2) fun a => .write 0 a fun _ =>
        .part (info.newDataSize - info.newDataSize / 2) fun b => .write a.length b fun stored =>
          .close fun done => .finish (s == steps info.newDataSize && stored && done)

def copy (info : DiffInfo) : Session .absent :=
  .readDelta info.diffDataPos info.uncompressedSize fun r =>
    r.elim (.finish false) fun b =>
      if b.take (steps info.newDataSize).length = steps info.newDataSize then
        .write 0 (b.drop (steps info.newDataSize).length) fun stored => .finish stored
      else .finish false

def library : HDiffPatch where
  __ := Stored.host.hdiff
  getSingleCompressedDiffInfo := parse
  patchSingleCompressedDiff info
    | true => unpack info
    | false => copy info
  createSingleCompressedDiffBlock _ _ _ := create

theorem library_diligent : library.Diligent := by
  intro info plugin
  cases plugin with
  | true => exact fun s a _ b stored => ⟨nofun, Bool.and_false _⟩
  | false =>
    intro r
    cases r with
    | none => exact nofun
    | some b =>
      change Session.Diligent (if _ then _ else _)
      split
      · exact fun _ => nofun
      · exact nofun

/-- A header is read without what follows it. -/
theorem parse_split {p : Bytes} {info : DiffInfo} (h : parse p = some info) :
    (info.newDataSize < 2 ^ 64 ∧ info.oldDataSize < 2 ^ 64 ∧ info.uncompressedSize < 2 ^ 64 ∧
      info.compressedSize < 2 ^ 64 ∧ info.stepMemSize < 2 ^ 64) ∧
    ∃ s t, p = s ++ t ∧ info.diffDataPos = s.length ∧ s.length ≤ 75 ∧
      ∀ u, parse (s ++ u) = some info := by
  unfold parse at h
  split at h
  swap
  · cases h
  rename_i hmagic
  obtain ⟨b, rfl⟩ := hmagic
  rw [List.drop_left] at h
  split at h
  swap
  · cases h
  rename_i new old covers step size compressed rest hread
  obtain rfl := Option.some.inj h
  obtain ⟨s, rfl, hlen, -, hsmall, hmany⟩ := Packed.readMany_split hread
  simp only [List.forall_mem_cons] at hsmall
  obtain ⟨hnew, hold, hcovers, hstep, hsize, hcompressed, -⟩ := hsmall
  have hmagic : magic.length = 15 := rfl
  have hpos : ∀ u : Bytes, (magic ++ (s ++ u)).length - u.length = (magic ++ s).length := by
    intro u
    simp only [List.length_append]
    omega
  have hbound : (magic ++ s).length ≤ 75 := by
    rw [List.length_append]
    omega
  refine ⟨⟨hnew, hold, hsize, hcompressed, hstep⟩, magic ++ s, rest, (List.append_assoc _ _ _).symm,
    hpos rest, hbound, fun u => ?_⟩
  unfold parse
  rw [List.append_assoc, if_pos (List.prefix_append _ _), List.drop_left, hmany, hpos rest]
  simp only [hpos u]

theorem library_readsHeader : library.ReadsHeader where
  present h := by
    obtain ⟨-, s, t, rfl, hpos, -⟩ := parse_split h
    rw [hpos, List.length_append]
    exact Nat.le_add_right _ _
  alone h hpre := by
    obtain ⟨-, s, t, rfl, hpos, -, hparse⟩ := parse_split h
    rw [hpos, List.take_left] at hpre
    obtain ⟨u, rfl⟩ := hpre
    exact hparse u

theorem readFile_next (done : Bytes) (x : UInt8) (rest : Bytes) :
    readFile (done ++ x :: rest) done.length 1 = some [x] := by
  unfold readFile
  rw [if_neg (by simp), List.drop_left]
  rfl

theorem readFile_end (file : Bytes) : readFile file file.length 1 = none := if_pos (by omega)

section
variable {F : Format UInt8} {passes : Nat} {new old : Bytes}
variable {c : (pos n : Nat) → (Option Bytes → Diffing) → Diffing} {k : Bytes → Diffing}

theorem scan_leaves {s : Bytes} (hread : ∀ {pos n k file out},
      (c pos n k).Leaves F new old file out → (k (readFile s pos n)).Leaves F new old file out)
    {file out done rest : Bytes} (hs : s = done ++ rest) {fuel : Nat} (hfuel : rest.length < fuel)
    (h : (scan c k fuel done).Leaves F new old file out) : (k s).Leaves F new old file out := by
  induction fuel generalizing done rest with
  | zero => omega
  | succ fuel ih =>
    have hnext := hread h
    cases rest with
    | nil =>
      rw [List.append_nil] at hs
      rw [hs, readFile_end] at hnext
      exact hs ▸ hnext
    | cons x rest =>
      rw [hs, readFile_next] at hnext
      exact ih (by rw [hs, List.append_assoc]; rfl) (by simpa using hfuel) hnext

theorem scan_behaves {s : Bytes} (hread : ∀ {pos n k file},
      (k (readFile s pos n)).Behaves F passes new old file → (c pos n k).Behaves F passes new old file)
    {file done rest : Bytes} (hs : s = done ++ rest) {fuel : Nat} (hfuel : rest.length < fuel)
    (h : (k s).Behaves F passes new old file) : (scan c k fuel done).Behaves F passes new old file := by
  induction fuel generalizing done rest with
  | zero => omega
  | succ fuel ih =>
    refine hread ?_
    cases rest with
    | nil =>
      rw [List.append_nil] at hs
      rw [hs, readFile_end]
      exact hs ▸ h
    | cons x rest =>
      rw [hs, readFile_next]
      exact ih (by rw [hs, List.append_assoc]; rfl) (by simpa using hfuel)

/-- The fields of a header, whatever follows it. -/
theorem header_fields {new old compressed : Nat} (data : Bytes) (hnew : new ≤ rawMax)
    (hold : old ≤ rawMax) (hcompressed : compressed ≤ (steps new).length + new) :
    parse (header new old compressed ++ data) = some ⟨new, old, (steps new).length + new, compressed,
      (header new old 0).length, 1, (cover new).length + 1, "zstd"⟩ := by
  have hsteps := steps_length new
  have hcover := cover_length new
  unfold rawMax at hnew hold
  have hfits : compressed < 128 ^ Packed.width 9 ((steps new).length + new) :=
    Nat.lt_of_le_of_lt hcompressed (Packed.lt_width (Nat.lt_trans (by omega : _ < 2 ^ 64) (by decide)))
  have hread : Packed.readMany 6 ((header new old compressed ++ data).drop magic.length) =
      some ([new, old, 1, (cover new).length + 1, (steps new).length + new, compressed], data) := by
    simp only [header, List.append_assoc, List.drop_left]
    refine Packed.readMany_cons (Packed.read_encode (by omega) _) ?_
    refine Packed.readMany_cons (Packed.read_encode (by omega) _) ?_
    refine Packed.readMany_cons (Packed.read_encode (by decide) _) ?_
    refine Packed.readMany_cons (Packed.read_encode (by omega) _) ?_
    refine Packed.readMany_cons (Packed.read_encode (by omega) _) ?_
    exact Packed.readMany_cons (Packed.read_digits (Packed.width_pos 9 _) (Packed.width_le 9 _) hfits
      (by omega) data) rfl
  have hmagic : magic <+: header new old compressed ++ data :=
    (List.prefix_append magic _).trans (List.prefix_append _ data)
  unfold parse
  rw [if_pos hmagic, hread]
  simp only [List.length_append, Nat.add_sub_cancel, header_length new old compressed]

theorem content_length (target : Bytes) :
    (content target).length = (steps target.length).length + target.length := List.length_append

theorem put_empty (b : Bytes) : put [] 0 b = b := by simp [put]

theorem diff_leaves {base target patch : Bytes} (h : (diff base target).Leaves F new old [] patch) :
    patch = header target.length base.length 0 ++ content target ∨
    ∃ w f, patch = header target.length base.length w.length ++ w ∧ 0 < w.length ∧
      w.length < (content target).length ∧ F.frame [] w = some f ∧
      f.window ≤ 2 ^ hdiffWindowLogMax ∧ f.content = content target := by
  have hlen : ∀ c, (header target.length base.length c).length =
      (header target.length base.length 0).length := header_length _ _
  cases h with
  | write _ _ h =>
    rw [put_empty] at h
    cases h with
    | compress n file hcompress h =>
      obtain ⟨w, hw, -, rfl, hend⟩ := hcompress (content target) (Input_serves_all _) rfl
      have hput : put (header target.length base.length 0)
          (header target.length base.length 0).length w =
          header target.length base.length 0 ++ w := by
        have hput := @put_end (header target.length base.length 0) [] w (Nat.zero_le _)
        rwa [List.append_nil] at hput
      rw [hput] at h
      dsimp only at h
      by_cases hn : n = 0
      · rw [if_pos hn] at h
        cases h with
        | write _ _ h =>
          cases h
          exact .inl (put_end (by omega))
      · obtain ⟨rfl, f, hf, -, hwindow, hcontent⟩ := hend.resolve_left hn
        rw [if_neg hn] at h
        cases h with
        | write _ _ h =>
          cases h
          have hpos : 0 < w.length := Nat.pos_of_ne_zero hn
          exact .inr ⟨w, f, put_start (hlen _), hpos, by omega, hf, hwindow, hcontent⟩

theorem create_leaves {base target patch : Bytes} (hbase : base.length ≤ rawMax)
    (htarget : target.length ≤ rawMax) (h : create.Leaves F target base [] patch) :
    (diff base target).Leaves F target base [] patch := by
  have hnew := scan_leaves (fun h => by cases h; assumption) (List.nil_append target).symm
    (by omega) h
  exact scan_leaves (k := fun base => diff base target) (fun h => by cases h; assumption)
    (List.nil_append base).symm (by omega) hnew

theorem diff_behaves {base target : Bytes} (htarget : target.length ≤ rawMax)
    (hpasses : (content target).length +
      ((content target).length + (content target).length / 128 + 1024) < passes) :
    (diff base target).Behaves F passes new old [] := by
  have hlen : ∀ c, (header target.length base.length c).length =
      (header target.length base.length 0).length := header_length _ _
  have hle := header_le target.length base.length
  have hsteps := steps_length target.length
  have hcontent := content_length target
  have hmax : 75 + (24 + rawMax) ≤ payloadMax := by decide
  have hlt : 24 + rawMax < 2 ^ 64 := by decide
  have hpos : 0 < (content target).length := by
    rw [hcontent]
    exact Nat.lt_of_lt_of_le (by simp [steps]) (Nat.le_add_right _ _)
  refine ⟨Nat.zero_le _, by omega, ?_⟩
  rw [put_empty]
  refine ⟨content target, ⟨Input_serves_all _, rfl, fun hnil => by rw [hnil] at hpos; cases hpos⟩,
    ⟨Nat.le_refl _, by omega⟩, ⟨by omega, hpasses⟩, ?_⟩
  rintro n file ⟨w, -, -, rfl, -⟩
  have hput : (header target.length base.length 0).length ≤ (put (header target.length base.length 0)
      (header target.length base.length 0).length w).length := by
    rw [put_length (Nat.le_refl _)]
    omega
  dsimp only
  split
  · exact ⟨hput, by omega, trivial⟩
  · exact ⟨Nat.zero_le _, by rw [hlen]; omega, trivial⟩

theorem create_behaves {base target : Bytes} (hbase : base.length ≤ rawMax)
    (htarget : target.length ≤ rawMax) (hpasses : (content target).length +
      ((content target).length + (content target).length / 128 + 1024) < passes) :
    create.Behaves F passes target base [] := by
  have hdiff : (diff base target).Behaves F passes target base [] := diff_behaves htarget hpasses
  have hold := scan_behaves (c := .readOld) (k := fun base => diff base target) id
    (List.nil_append base).symm (Nat.lt_succ_of_le hbase) hdiff
  exact scan_behaves (c := .readNew)
    (k := fun target => scan .readOld (fun base => diff base target) (rawMax + 1) []) id
    (List.nil_append target).symm (Nat.lt_succ_of_le htarget) hold

end

theorem store_halves (b : Bytes) (k : Nat) : ∃ dst,
    memWrite (.fresh b.length) 0 (b.take k) = some dst ∧
    memWrite dst (b.take k).length (b.drop k) = some ⟨b.map some, List.range b.length⟩ := by
  have hlen : (b.take k).length + (b.drop k).length = b.length := by
    rw [← List.length_append, List.take_append_drop]
  have hwrote := (OutObject.fresh_wrote b.length).store (c := b.take k) (by
    simp only [List.length_nil]
    omega)
  have hwrote' := hwrote.store (c := b.drop k) (by
    rw [List.nil_append]
    omega)
  rw [List.nil_append] at hwrote hwrote'
  rw [List.take_append_drop] at hwrote'
  have hfresh := (OutObject.fresh_wrote b.length).length
  refine ⟨(OutObject.fresh b.length).store 0 (b.take k), if_neg ?_, ?_⟩
  · omega
  · rw [← hwrote'.full rfl]
    refine if_neg ?_
    have hstored := hwrote.length
    simp only [List.length_nil] at hstored
    omega

theorem store_whole (b : Bytes) :
    memWrite (.fresh b.length) 0 b = some ⟨b.map some, List.range b.length⟩ := by
  have hwrote := (OutObject.fresh_wrote b.length).store (c := b) (by simp)
  have hfresh := (OutObject.fresh_wrote b.length).length
  rw [List.nil_append] at hwrote
  rw [← hwrote.full rfl]
  exact if_neg (by omega)

section
variable {F : Format UInt8} {accepts : Frame UInt8 → Prop} [DecidablePred accepts]
variable {base patch target : Bytes} {info : DiffInfo} (hsize : info.newDataSize = target.length)
include hsize

theorem copy_plain
    (hread : readFile patch info.diffDataPos info.uncompressedSize = some (content target)) :
    (copy info).plain F accepts base patch () (.fresh target.length) =
      some (true, ⟨target.map some, List.range target.length⟩) := by
  rw [copy, Session.plain_readDelta, hread, Option.elim_some, hsize, content, List.take_left,
    if_pos rfl, List.drop_left, Session.plain_write (store_whole target), Session.plain_finish]

theorem unpack_plain (hopen : openFile F accepts patch info.uncompressedSize info.diffDataPos
      (info.diffDataPos + info.compressedSize) = some (content target)) :
    (unpack info).plain F accepts base patch () (.fresh target.length) =
      some (true, ⟨target.map some, List.range target.length⟩) := by
  obtain ⟨dst, hfirst, hsecond⟩ := store_halves target (target.length / 2)
  have hrest : (target.drop (target.length / 2)).length = target.length - target.length / 2 :=
    List.length_drop
  have hsteps : (steps target.length).length ≤ (content target).length := by
    rw [content_length]
    exact Nat.le_add_right _ _
  rw [unpack, Session.plain_opens hopen, hsize, Session.plain_part hsteps, content, List.take_left,
    List.drop_left, Session.plain_part (Nat.div_le_self _ _), Session.plain_write hfirst, ← hrest,
    Session.plain_part (Nat.le_refl _), List.take_length, List.drop_length,
    Session.plain_write hsecond, Session.plain_close, Session.plain_finish, beq_self_eq_true]
  rfl

end

theorem library_correct (F : Format UInt8) : library.Correct F := by
  intro p base target patch _ hbase htarget hleaves _
  have hmax : 24 + rawMax ≤ payloadMax := by decide
  have hraw : rawMax < 2 ^ 64 := by decide
  have hsteps := steps_length target.length
  have hcontent := content_length target
  have hstep : (cover target.length).length + 1 ≤ stepMax :=
    Nat.le_trans (Nat.succ_le_succ (cover_length _)) (by decide)
  have hlen : ∀ c, (header target.length base.length c).length =
      (header target.length base.length 0).length := header_length _ _
  rcases diff_leaves (create_leaves hbase htarget hleaves) with rfl |
    ⟨w, f, rfl, hpos, hlt, hf, hwindow, hcontent'⟩
  · refine ⟨_, ⟨target.map some, List.range target.length⟩,
      header_fields (content target) htarget hbase (Nat.zero_le _),
      ⟨rfl, rfl, hstep, by simp only; omega, .inr rfl, ⟨?_, ?_⟩, .inl rfl⟩, ?_, rfl⟩
    · rw [List.length_append]
      exact Nat.le_add_right _ _
    · simp [DiffInfo.encoded, hcontent]
    · refine plainPatch_eq_some.mpr ((if_neg (not_not.mpr rfl)).trans (copy_plain rfl ?_))
      unfold readFile
      simp only
      rw [if_neg (by rw [List.length_append, hcontent]; omega), List.drop_left, ← hcontent,
        List.take_length]
  · have hne : w.length ≠ 0 := Nat.ne_of_gt hpos
    refine ⟨_, ⟨target.map some, List.range target.length⟩,
      header_fields w htarget hbase (by omega),
      ⟨rfl, rfl, hstep, by simp only; omega, .inr rfl, ⟨?_, ?_⟩,
        .inr (show "zstd" ≠ "" by decide)⟩, ?_, rfl⟩
    · simp only [List.length_append, hlen]
      exact Nat.le_add_right _ _
    · simp [DiffInfo.encoded, hlen, hne]
    · refine plainPatch_eq_some.mpr ((if_pos hne).trans (unpack_plain rfl ?_))
      refine openFile_eq_some.mpr ⟨⟨Nat.le_add_right _ _, ?_, ?_⟩, f, ?_, hwindow,
        by rw [hcontent', hcontent], hcontent'⟩
      · simp only [List.length_append, hlen]
        exact Nat.le_refl _
      · simp only
        omega
      · simp only [← hlen w.length]
        rw [List.drop_left, Nat.add_sub_cancel_left, List.take_length]
        exact hf

def host : Host := { Stored.host with hdiff := library, passes := 2000 }

end Pyhdiff.Guarantees.Whole
