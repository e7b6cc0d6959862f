import Pyhdiff.Native.PlainFiles

/-! What a diffing client of the bridge would leave behind if its streams were
plain files, and a compression put a frame of its source into the output. -/
namespace Pyhdiff.Native
open Streaming

def put (file : Bytes) (pos : Nat) (b : Bytes) : Bytes :=
  file.take pos ++ b ++ file.drop (pos + b.length)

@[simp] theorem put_nil (file : Bytes) (pos : Nat) : put file pos [] = file := by simp [put]

theorem put_length {file b : Bytes} {pos : Nat} (h : pos ≤ file.length) :
    (put file pos b).length = max file.length (pos + b.length) := by
  simp only [put, List.length_append, List.length_take, List.length_drop]
  omega

theorem put_end {file w b : Bytes} (h : w.length ≤ b.length) :
    put (file ++ w) file.length b = file ++ b := by
  have hdrop : (file ++ w).drop (file.length + b.length) = [] := by
    refine List.drop_eq_nil_of_le ?_
    rw [List.length_append]
    omega
  rw [put, List.take_left, hdrop, List.append_nil]

theorem put_start {file w b : Bytes} (h : b.length = file.length) : put (file ++ w) 0 b = b ++ w := by
  rw [put, List.take_zero, List.nil_append, Nat.zero_add, h, List.drop_left]

theorem put_append {file w : Bytes} {pos : Nat} (h : pos ≤ file.length) (b : Bytes) :
    put (put file pos w) (pos + w.length) b = put file pos (w ++ b) := by
  have hlen : (file.take pos ++ w).length = pos + w.length := by
    rw [List.length_append, List.length_take, Nat.min_eq_left h]
  have htake : (put file pos w).take (pos + w.length) = file.take pos ++ w := by
    rw [put, List.take_left' hlen]
  have hdrop : (put file pos w).drop (pos + w.length + b.length) =
      file.drop (pos + w.length + b.length) := by
    rw [put, ← List.drop_drop, List.drop_left' hlen, List.drop_drop]
  rw [put, htake, hdrop, put, List.length_append, List.append_assoc (file.take pos), Nat.add_assoc]

/-- Compressing `src` to `offset` of a file comes to `n`: it is given up after a
part of the output, or has put one frame there that the plugin decodes. -/
def Compresses (F : Format UInt8) (src : Bytes) (offset limit : Nat) (file : Bytes) (n : Nat)
    (file' : Bytes) : Prop :=
  ∃ w, w.length ≤ limit ∧ (w ≠ [] → offset ≤ file.length ∧ offset + w.length ≤ payloadMax) ∧
    file' = put file offset w ∧
    (n = 0 ∨ (n = w.length ∧ ∃ f, F.frame [] w = some f ∧ f.skippable = false ∧
      f.window ≤ 2 ^ hdiffWindowLogMax ∧ f.content = src))

/-- The file a client may leave, that begins with the given one. What compressing
something else than a file comes to is left open. -/
inductive Diffing.Leaves (F : Format UInt8) (new old : Bytes) : Diffing → Bytes → Bytes → Prop
  | finish {file : Bytes} : Leaves F new old .finish file file
  | readNew {pos n : Nat} {k : Option Bytes → Diffing} {file out : Bytes} :
      Leaves F new old (k (readFile new pos n)) file out → Leaves F new old (.readNew pos n k) file out
  | readOld {pos n : Nat} {k : Option Bytes → Diffing} {file out : Bytes} :
      Leaves F new old (k (readFile old pos n)) file out → Leaves F new old (.readOld pos n k) file out
  | write {pos : Nat} {b : Bytes} {k : Diffing} {file out : Bytes} :
      pos ≤ file.length → pos + b.length ≤ payloadMax → Leaves F new old k (put file pos b) out →
      Leaves F new old (.write pos b k) file out
  | compress {input : StreamInput} {offset limit : Nat} {k : Nat → Diffing} {file out : Bytes}
      (n : Nat) (file' : Bytes) :
      (∀ src, input.Serves 0 src → input.size = src.length →
        Compresses F src offset limit file n file') →
      Leaves F new old (k n) file' out → Leaves F new old (.compress input offset limit k) file out

/-- Over plain files the client does not throw, writes without gaps and inside the
limit, and compresses nonempty files that are done in the given passes. -/
def Diffing.Behaves (F : Format UInt8) (passes : Nat) (new old : Bytes) : Diffing → Bytes → Prop
  | .finish, _ => True
  | .throws _, _ => False
  | .readNew pos n k, file => (k (readFile new pos n)).Behaves F passes new old file
  | .readOld pos n k, file => (k (readFile old pos n)).Behaves F passes new old file
  | .write pos b k, file =>
    pos ≤ file.length ∧ pos + b.length ≤ payloadMax ∧ k.Behaves F passes new old (put file pos b)
  | .compress input offset limit k, file =>
    ∃ src, (input.Serves 0 src ∧ input.size = src.length ∧ src ≠ []) ∧
      (offset ≤ file.length ∧ offset + limit ≤ payloadMax) ∧
      (src.length < 2 ^ 64 ∧ src.length + (src.length + src.length / 128 + 1024) < passes) ∧
      ∀ n file', Compresses F src offset limit file n file' → (k n).Behaves F passes new old file'

/-- Over plain files the library patches what it has diffed: a patch it may leave
has a header that passes, and gives the target. -/
def HDiffPatch.Correct (F : Format UInt8) (H : HDiffPatch) : Prop :=
  ∀ {p : HDiffOptions} {base target patch : Bytes}, p.Documented → base.length ≤ rawMax →
    target.length ≤ rawMax →
    (H.createSingleCompressedDiffBlock p.stepBytes p.fastBlockBytes p.matchScore).Leaves F target base
      [] patch → patch.length ≤ payloadMax →
    ∃ info dst, H.getSingleCompressedDiffInfo patch = some info ∧
      info.Passes base.length target.length patch.length ∧
      plainPatch F (fun f => f.window ≤ 2 ^ hdiffWindowLogMax) H base patch info
        (.fresh target.length) = some dst ∧ dst.cells = target.map some

def Output.HoldsFile (out : Output) (file : Bytes) : Prop :=
  out.limit = payloadMax ∧ out.bytes.contents = file.map some

theorem Output.holdsFile_empty : Output.HoldsFile ⟨payloadMax, .empty⟩ [] :=
  ⟨rfl, List.take_nil⟩

theorem Output.HoldsFile.size {out : Output} {file : Bytes} (h : out.HoldsFile file) :
    out.bytes.size = file.length := by
  rw [← Growable.contents_length, h.2, List.length_map]

theorem Output.HoldsFile.write_cases {out : Output} {file : Bytes} (h : out.HoldsFile file)
    (heap : Heap) {pos : Nat} {b : Bytes} (hpos : pos ≤ file.length)
    (hlimit : pos + b.length ≤ payloadMax) :
    (∃ out', out.write heap pos b = .ok out' ∧ out'.HoldsFile (put file pos b)) ∨
      (out.write heap pos b = .error (.thrown .badAlloc) ∧ ¬ heap.Grants) := by
  refine (Output.write_cases heap out pos b (h.1 ▸ hlimit) (h.size ▸ hpos)).imp_left ?_
  rintro ⟨out', hwrite, hlimit', hcontents⟩
  refine ⟨out', hwrite, hlimit'.trans h.1, ?_⟩
  rw [hcontents, h.2, put, List.map_append, List.map_append, List.map_take, List.map_drop]

theorem Output.HoldsFile.write_ok {out out' : Output} {file : Bytes} (h : out.HoldsFile file)
    {heap : Heap} {pos : Nat} {b : Bytes} (hwrite : out.write heap pos b = .ok out') :
    pos ≤ file.length ∧ pos + b.length ≤ payloadMax ∧ out'.HoldsFile (put file pos b) := by
  have hchecks := hwrite
  simp only [Output.write, bind_eq_ok, require_eq_ok] at hchecks
  obtain ⟨-, hlimit, -, hpos, -⟩ := hchecks
  rw [h.1] at hlimit
  rw [h.size] at hpos
  have hlimit : pos + b.length ≤ payloadMax := by omega
  refine ⟨hpos, hlimit, ?_⟩
  cases h.write_cases heap hpos hlimit with
  | inl hdone =>
    obtain ⟨out₁, hwrite₁, hout₁⟩ := hdone
    obtain rfl := Except.ok.inj (hwrite.symm.trans hwrite₁)
    exact hout₁
  | inr hfailed =>
    obtain ⟨hfailed, -⟩ := hfailed
    rw [hwrite] at hfailed
    cases hfailed

def HoldsPut (file : Bytes) (offset limit : Nat) (out : Output) (w : Bytes) : Prop :=
  out.HoldsFile (put file offset w) ∧ w.length ≤ limit ∧
    (w ≠ [] → offset ≤ file.length ∧ offset + w.length ≤ payloadMax)

theorem HoldsPut.nil {file : Bytes} {out : Output} (h : out.HoldsFile file) (offset limit : Nat) :
    HoldsPut file offset limit out [] :=
  ⟨by rw [put_nil]; exact h, Nat.zero_le _, fun hne => absurd rfl hne⟩

theorem HoldsPut.fits {file w : Bytes} {offset limit : Nat} {out : Output}
    (h : HoldsPut file offset limit out w) (hpos : offset + w.length ≤ (put file offset w).length) :
    offset ≤ file.length := by
  obtain ⟨-, -, hplace⟩ := h
  by_cases hw : w = []
  · subst hw
    simpa using hpos
  · exact (hplace hw).1

theorem writeWithin_puts {heap : Heap} {file : Bytes} {offset limit : Nat} :
    Appends (writeWithin heap offset limit) (HoldsPut file offset limit) := by
  intro out w b out' hout hwrite
  unfold writeWithin at hwrite
  split at hwrite
  · cases hwrite
  rename_i hpast
  obtain ⟨out₁, hwrite₁, h₁⟩ := bind_eq_ok.mp hwrite
  obtain rfl := Option.some.inj (Except.ok.inj h₁)
  obtain ⟨hpos, hlimit, hholds⟩ := hout.1.write_ok hwrite₁
  have hoffset := hout.fits hpos
  rw [put_append hoffset] at hholds
  exact ⟨hholds, by rw [List.length_append]; omega, fun _ => ⟨hoffset, by
    rw [List.length_append]
    omega⟩⟩

theorem writeWithin_holdsFile {heap : Heap} {offset limit pos : Nat} {b : Bytes}
    {out out' : Output} (hout : ∃ file, out.HoldsFile file)
    (hwrite : writeWithin heap offset limit out pos b = .ok (some out')) :
    ∃ file, out'.HoldsFile file := by
  obtain ⟨file, hout⟩ := hout
  unfold writeWithin at hwrite
  split at hwrite
  · cases hwrite
  obtain ⟨out₁, hwrite₁, h₁⟩ := bind_eq_ok.mp hwrite
  obtain rfl := Option.some.inj (Except.ok.inj h₁)
  exact ⟨_, (hout.write_ok hwrite₁).2.2⟩

theorem writeWithin_answers {heap : Heap} (hheap : heap.Grants) {file : Bytes} {offset limit : Nat}
    (hoffset : offset ≤ file.length) (hfits : offset + limit ≤ payloadMax) :
    Responds (writeWithin heap offset limit) (HoldsPut file offset limit) := by
  intro out w b hout
  unfold writeWithin
  split
  · exact ⟨none, rfl⟩
  rename_i hpast
  have hpos : offset + w.length ≤ (put file offset w).length := by
    rw [put_length hoffset]
    omega
  cases hout.1.write_cases heap hpos (by omega : offset + w.length + b.length ≤ payloadMax) with
  | inl hdone =>
    obtain ⟨out', hwrite, -⟩ := hdone
    exact ⟨some out', by rw [hwrite]; rfl⟩
  | inr hfailed => exact absurd hheap hfailed.2

section
variable {Z : Zstd} {F : Format UInt8} {E : EncodingLaws Z F} {heap : Heap} {passes : Nat}
variable {p : HDiffOptions} {o : Options} {new old : Bytes}

theorem compressJob_frame_window (hhonors : E.HonorsWindowLog) (ho : hdiffOptions p = .ok o) {n : Nat}
    {f : Frame UInt8} (h : E.enc.emits (compressJob E o n) f) : f.window ≤ 2 ^ hdiffWindowLogMax := by
  obtain ⟨-, ⟨hlow, hhigh⟩, -⟩ := hdiffOptions_ok ho
  obtain ⟨w, hw⟩ := Int.eq_ofNat_of_zero_le (by omega : 0 ≤ o.windowLog)
  rw [hw] at hlow hhigh
  refine (hhonors h ((compressJob_window o n).trans hw) ?_).trans ?_
  · exact_mod_cast hlow
  · exact Nat.pow_le_pow_right (by decide) (by exact_mod_cast hhigh)

theorem Compressed.compresses (hhonors : E.HonorsWindowLog) (ho : hdiffOptions p = .ok o)
    {src file : Bytes} {offset limit n : Nat} {out : Output}
    (h : Compressed E (HoldsPut file offset limit) (compressJob E o src.length) src (n, out)) :
    ∃ file', out.HoldsFile file' ∧ Compresses F src offset limit file n file' := by
  cases h with
  | inl h =>
    obtain ⟨hzero, w, hholds, hlimit, hplace⟩ := h
    exact ⟨_, hholds, w, hlimit, hplace, rfl, .inl hzero⟩
  | inr h =>
    obtain ⟨w, f, hn, ⟨hholds, hlimit, hplace⟩, hf, hemits, hstandard, hcontent⟩ := h
    exact ⟨_, hholds, w, hlimit, hplace, rfl, .inr ⟨hn, f, hf, hstandard,
      compressJob_frame_window hhonors ho hemits, hcontent⟩⟩

theorem StreamInput.Serves.unique {input : StreamInput} {u v : Bytes} (hu : input.Serves 0 u)
    (hv : input.Serves 0 v) (hlen : u.length = v.length) : u = v := by
  have hread := (hu 0 u.length (Nat.le_of_eq (Nat.zero_add _))).symm.trans
    (hv 0 u.length (by omega))
  have htake := Option.some.inj (Except.ok.inj hread)
  rwa [List.drop_zero, List.drop_zero, List.take_length, hlen, List.take_length] at htake

/-- Whatever a client leaves through the bridge it could leave in plain files. -/
theorem Diffing.leaves_of_run (hhonors : E.HonorsWindowLog) (ho : hdiffOptions p = .ok o)
    (c : Diffing) {out out' : Output} {file : Bytes} (hout : out.HoldsFile file)
    (hrun : c.run Z heap passes o (Input new) (Input old) out = .ok out') :
    ∃ file', out'.HoldsFile file' ∧ c.Leaves F new old file file' := by
  induction c generalizing out file with
  | finish =>
    obtain rfl := Except.ok.inj hrun
    exact ⟨file, hout, .finish⟩
  | throws t => cases hrun
  | readNew pos n k ih =>
    rw [run, Input_call, ok_bind] at hrun
    obtain ⟨file', hout', hleaves⟩ := ih _ hout hrun
    exact ⟨file', hout', .readNew hleaves⟩
  | readOld pos n k ih =>
    rw [run, Input_call, ok_bind] at hrun
    obtain ⟨file', hout', hleaves⟩ := ih _ hout hrun
    exact ⟨file', hout', .readOld hleaves⟩
  | write pos b k ih =>
    obtain ⟨out₁, hwrite, hrun⟩ := bind_eq_ok.mp hrun
    obtain ⟨hpos, hlimit, hout₁⟩ := hout.write_ok hwrite
    obtain ⟨file', hout', hleaves⟩ := ih hout₁ hrun
    exact ⟨file', hout', .write hpos hlimit hleaves⟩
  | compress input offset limit k ih =>
    obtain ⟨⟨n, out₁⟩, hcompress, hrun⟩ := bind_eq_ok.mp hrun
    by_cases hinput : ∃ src, input.Serves 0 src ∧ input.size = src.length
    · obtain ⟨src, hserves, hsize⟩ := hinput
      obtain ⟨file₁, hout₁, hcompresses⟩ := Compressed.compresses hhonors ho
        (compress_sound writeWithin_puts hserves hsize (.nil hout offset limit) hcompress)
      obtain ⟨file', hout', hleaves⟩ := ih n hout₁ hrun
      refine ⟨file', hout', .compress n file₁ (fun src' hserves' hsize' => ?_) hleaves⟩
      obtain rfl : src' = src := StreamInput.Serves.unique hserves' hserves
        (hsize'.symm.trans hsize)
      exact hcompresses
    -- what is no file may come to anything, and leaves a file all the same
    · obtain ⟨file₁, hout₁⟩ := compress_preserves (P := fun out => ∃ file, Output.HoldsFile out file)
        writeWithin_holdsFile ⟨file, hout⟩ hcompress
      obtain ⟨file', hout', hleaves⟩ := ih n hout₁ hrun
      exact ⟨file', hout', .compress n file₁
        (fun src hserves hsize => absurd ⟨src, hserves, hsize⟩ hinput) hleaves⟩

/-- A client that behaves over plain files is served to its end. -/
theorem Diffing.run_ends (hhonors : E.HonorsWindowLog) (hready : E.Ready)
    (hflush : E.enc.Flushes compressBound) (hheap : heap.Grants) (ho : hdiffOptions p = .ok o)
    (c : Diffing) {out : Output} {file : Bytes} (hout : out.HoldsFile file)
    (hc : c.Behaves F passes new old file) :
    ∃ out', c.run Z heap passes o (Input new) (Input old) out = .ok out' := by
  induction c generalizing out file with
  | finish => exact ⟨out, rfl⟩
  | throws t => exact hc.elim
  | readNew pos n k ih =>
    rw [run, Input_call, ok_bind]
    exact ih _ hout hc
  | readOld pos n k ih =>
    rw [run, Input_call, ok_bind]
    exact ih _ hout hc
  | write pos b k ih =>
    obtain ⟨hpos, hlimit, hc⟩ := hc
    cases hout.write_cases heap hpos hlimit with
    | inl hdone =>
      obtain ⟨out₁, hwrite, hout₁⟩ := hdone
      rw [run, hwrite, ok_bind]
      exact ih hout₁ hc
    | inr hfailed => exact absurd hheap hfailed.2
  | compress input offset limit k ih =>
    obtain ⟨src, ⟨hserves, hsize, hne⟩, ⟨hoffset, hfits⟩, ⟨hlt, hpasses⟩, hc⟩ := hc
    obtain ⟨⟨n, out₁⟩, hcompress⟩ := compress_ends hready hflush hheap writeWithin_puts
      (writeWithin_answers hheap hoffset hfits) hserves hsize hlt hne ho
      (.nil hout offset limit) hpasses
    obtain ⟨file₁, hout₁, hcompresses⟩ := Compressed.compresses hhonors ho
      (compress_sound writeWithin_puts hserves hsize (.nil hout offset limit) hcompress)
    rw [run, hcompress, ok_bind]
    exact ih n hout₁ (hc n file₁ hcompresses)

variable {H : HDiffPatch} {base target : Bytes}

theorem hdiffEncode_leaves (hhonors : E.HonorsWindowLog) (ho : hdiffOptions p = .ok o)
    {out : Growable} (h : hdiffEncode Z H heap passes base target o = .ok out) :
    ∃ patch : Bytes, out.contents = patch.map some ∧ patch.length ≤ payloadMax ∧
      (H.createSingleCompressedDiffBlock o.stepBytes o.fastBlockBytes o.matchScore).Leaves F target
        base [] patch := by
  have hbounded := (hdiffEncode_bounded h).2.2
  simp only [hdiffEncode, bind_eq_ok] at h
  obtain ⟨-, -, out', hrun, h⟩ := h
  obtain rfl := Except.ok.inj h
  obtain ⟨patch, hpatch, hleaves⟩ := Diffing.leaves_of_run hhonors ho _ Output.holdsFile_empty
    hrun
  exact ⟨patch, hpatch.2, hpatch.size ▸ hbounded, hleaves⟩

theorem hdiffEncode_ends (hhonors : E.HonorsWindowLog) (hready : E.Ready)
    (hflush : E.enc.Flushes compressBound) (hheap : heap.Grants) (ho : hdiffOptions p = .ok o)
    (hbase : base.length ≤ rawMax) (htarget : target.length ≤ rawMax)
    (hH : (H.createSingleCompressedDiffBlock o.stepBytes o.fastBlockBytes o.matchScore).Behaves F
      passes target base []) : ∃ out, hdiffEncode Z H heap passes base target o = .ok out := by
  obtain ⟨out, hrun⟩ := Diffing.run_ends hhonors hready hflush hheap ho _
    Output.holdsFile_empty hH
  refine ⟨out.bytes, ?_⟩
  unfold hdiffEncode
  simp only [require_bind]
  rw [if_pos ⟨hbase, htarget⟩, hrun]
  rfl

end

end Pyhdiff.Native
