import Pyhdiff.Native.Gate

/-! What a patching client of the bridge would meet if the old data and the
payload were plain files, and the range it opens a file of its frame's content. -/
namespace Pyhdiff.Native
open Streaming

def readFile (file : Bytes) (pos n : Nat) : Option Bytes :=
  if pos > file.length ∨ n > file.length - pos then none else some ((file.drop pos).take n)

theorem Input_call (file : Bytes) (pos n : Nat) :
    (Input file).call pos n = .ok (readFile file pos n) := by
  by_cases hpast : pos > file.length ∨ n > file.length - pos
  · simp only [StreamInput.call, readFile, Input, if_pos hpast]
  · simp only [StreamInput.call, readFile, Input, if_neg hpast]

abbrev HandleFile : Handle → Type
  | .opened => Bytes
  | _ => Unit

section
variable (F : Format UInt8) (accepts : Frame UInt8 → Prop) [DecidablePred accepts]

/-- The content of the range, where that is one accepted frame of the announced size. -/
def openFile (delta : Bytes) (size b e : Nat) : Option Bytes :=
  if b ≤ e ∧ e ≤ delta.length ∧ size ≤ payloadMax then
    match F.frame [] ((delta.drop b).take (e - b)) with
    | some f => if accepts f ∧ f.content.length = size then some f.content else none
    | none => none
  else none

/-- A session over plain files, where it meets no error. -/
def Session.plain (old delta : Bytes) :
    {h : Handle} → Session h → HandleFile h → OutObject → Option (Bool × OutObject)
  | _, .finish verdict, _, dst => some (verdict, dst)
  | _, .throws _, _, _ => none
  | _, .readOld pos n k, st, dst => (k (readFile old pos n)).plain old delta st dst
  | _, .readDelta pos n k, st, dst => (k (readFile delta pos n)).plain old delta st dst
  | _, .write pos b k, st, dst =>
    match memWrite dst pos b with
    | none => (k false).plain old delta st dst
    | some dst => (k true).plain old delta st dst
  | .closed, .opens size b e k, _, dst =>
    match openFile F accepts delta size b e with
    | none => none
    | some content => k.plain old delta content dst
  | .opened, .part n k, left, dst =>
    if n ≤ left.length then (k (left.take n)).plain old delta (left.drop n) dst else none
  | .opened, .close k, left, dst => (k left.isEmpty).plain old delta () dst

variable {F accepts}

section
variable {old delta : Bytes} {h : Handle} {st : HandleFile h} {dst : OutObject}

@[simp] theorem Session.plain_finish (verdict : Bool) :
    (Session.finish verdict).plain F accepts old delta st dst = some (verdict, dst) := rfl

@[simp] theorem Session.plain_readDelta (pos n : Nat) (k : Option Bytes → Session h) :
    (Session.readDelta pos n k).plain F accepts old delta st dst =
      (k (readFile delta pos n)).plain F accepts old delta st dst := rfl

theorem Session.plain_write {dst' : OutObject} {pos : Nat} {b : Bytes}
    (hwrite : memWrite dst pos b = some dst') (k : Bool → Session h) :
    (Session.write pos b k).plain F accepts old delta st dst =
      (k true).plain F accepts old delta st dst' := by
  rw [plain, hwrite]

theorem Session.plain_opens {size b e : Nat} {content : Bytes}
    (hopen : openFile F accepts delta size b e = some content) (k : Session .opened)
    (st : HandleFile .closed) : (Session.opens size b e k).plain F accepts old delta st dst =
      k.plain F accepts old delta content dst := by
  rw [plain, hopen]

theorem Session.plain_part {left : Bytes} {n : Nat} (hn : n ≤ left.length)
    (k : Bytes → Session .opened) :
    Session.plain F accepts old delta (h := .opened) (.part n k) left dst =
      (k (left.take n)).plain F accepts old delta (left.drop n) dst := if_pos hn

@[simp] theorem Session.plain_close (left : Bytes) (k : Bool → Session .closed) :
    Session.plain F accepts old delta (h := .opened) (.close k) left dst =
      (k left.isEmpty).plain F accepts old delta () dst := rfl

end

theorem openFile_eq_some {delta content : Bytes} {size b e : Nat} :
    openFile F accepts delta size b e = some content ↔
      (b ≤ e ∧ e ≤ delta.length ∧ size ≤ payloadMax) ∧
      ∃ f, F.frame [] ((delta.drop b).take (e - b)) = some f ∧ accepts f ∧
        f.content.length = size ∧ f.content = content := by
  unfold openFile
  split
  · cases F.frame [] ((delta.drop b).take (e - b)) with
    | none => simp
    | some f => simp [and_assoc, *]
  · simp [*]

end

section
variable {Z : Zstd} {F : Format UInt8} (L : LawfulDecoder F Z.decompressStream)

/-- An open handle owes exactly what the file it stands for has left. -/
def HandleState.Mirrors : {h : Handle} → HandleState Z h → HandleFile h → Prop
  | .opened, self, left => ∃ b w seen, Decompress.Tracks self b w seen ∧
      Decompress.Owes L self b w left ∧ Decompress.remaining self = List.length left
  | _, _, _ => True

/-- Whatever an open handle still gives out up to a successful close meets `P`. -/
def HandleState.Pledges : {h : Handle} → HandleState Z h → (HandleFile h → Prop) → Prop
  | .opened, self, P => ∃ b w seen o, Decompress.Tracks self b w seen ∧
      Decompress.Decoded L (fun _ => True) self seen o ∧
      ∀ f left, F.frame [] w = some f → f.content = o ++ left →
        List.length left = Decompress.remaining self → P left
  | .absent, _, P => P ()
  | .closed, _, P => P ()

end

def Session.Refuses : {h : Handle} → Session h → Prop
  | _, .finish verdict => verdict = false
  | _, .throws _ => True
  | _, .readOld _ _ k => ∀ r, (k r).Refuses
  | _, .readDelta _ _ k => ∀ r, (k r).Refuses
  | _, .write _ _ k => ∀ r, (k r).Refuses
  | _, .opens _ _ _ k => k.Refuses
  | _, .part _ k => ∀ b, (k b).Refuses
  | _, .close k => ∀ r, (k r).Refuses

/-- The client approves of nothing that it has not closed successfully. -/
def Session.Diligent : {h : Handle} → Session h → Prop
  | h, .finish verdict => h = .opened → verdict = false
  | _, .throws _ => True
  | _, .readOld _ _ k => ∀ r, (k r).Diligent
  | _, .readDelta _ _ k => ∀ r, (k r).Diligent
  | _, .write _ _ k => ∀ r, (k r).Diligent
  | _, .opens _ _ _ k => k.Diligent
  | _, .part _ k => ∀ b, (k b).Diligent
  | _, .close k => (k true).Diligent ∧ (k false).Refuses

section
variable {Z : Zstd} {F : Format UInt8} {D : DecodingLaws Z F}
variable {accepts : Frame UInt8 → Prop} [DecidablePred accepts] {old delta : Bytes}

theorem opens_mirrors (hctx : Z.createDCtx ≠ none)
    (haccepts : ∀ {f}, accepts f → D.dec.accepts Decompress.config f) {size b e : Nat}
    {content : Bytes} (h : openFile F accepts delta size b e = some content) :
    ∃ self, Decompress.opens Z size (Input delta) b e = .ok self ∧
      HandleState.Mirrors D.dec (h := .opened) self content := by
  obtain ⟨⟨hb, he, hsize⟩, f, hf, hf', hlen, rfl⟩ := openFile_eq_some.mp h
  have hrange : b + ((delta.drop b).take (e - b)).length = e := by
    rw [List.length_take, List.length_drop]
    omega
  obtain ⟨self, hopen, ht, hrest, hremaining, hgoing, hat⟩ :=
    Decompress.opens_tracks D hctx he hrange hsize (Input_serves_range delta hb he)
  refine ⟨self, hopen, b, _, [], ht, .inl ⟨hgoing, ?_⟩, hremaining.trans hlen.symm⟩
  rw [hrest]
  exact D.dec.midway_start hat hf (haccepts hf')

theorem close_mirrors {self : Decompress Z} {left : Bytes}
    (h : HandleState.Mirrors D.dec (h := .opened) self left) :
    self.close = .ok left.isEmpty := by
  obtain ⟨b, w, seen, ht, howes, hremaining⟩ := h
  cases left with
  | nil => exact Decompress.close_complete ht howes hremaining
  | cons a left => exact if_pos (by rw [hremaining]; exact Nat.succ_ne_zero _)

theorem part_mirrors {self : Decompress Z} {left : Bytes}
    (h : HandleState.Mirrors D.dec (h := .opened) self left) {n : Nat} (hn : n ≤ left.length) :
    ∃ self' out, self.decompressPart n = .ok (self', out) ∧
      readCells (fun _ => 0) out.cells = left.take n ∧
      HandleState.Mirrors D.dec (h := .opened) self' (left.drop n) := by
  obtain ⟨b, w, seen, ht, howes, hremaining⟩ := h
  obtain ⟨self', out, seen', hpart, ht', howes', hout, hremaining'⟩ :=
    Decompress.decompressPart_complete ht howes (hremaining ▸ hn) hn
  refine ⟨self', out, hpart, by rw [hout, readCells_map_some], b, w, seen', ht', howes', ?_⟩
  rw [List.length_drop]
  omega

/-- What goes well over plain files goes well over the streams and the plugin,
with the same result. -/
theorem Session.run_of_plain (hctx : Z.createDCtx ≠ none)
    (haccepts : ∀ {f}, accepts f → D.dec.accepts Decompress.config f) {h : Handle} (c : Session h)
    {st : HandleState Z h} {file : HandleFile h} (hst : st.Mirrors D.dec file) {dst : OutObject}
    {r : Bool × OutObject} (hplain : c.plain F accepts old delta file dst = some r) :
    c.run Z H (Input old) (Input delta) st dst = .ok r := by
  induction c generalizing dst with
  | finish verdict => exact congrArg Except.ok (Option.some.inj hplain)
  | throws t => cases hplain
  | readOld pos n k ih =>
    rw [run, Input_call, ok_bind]
    exact ih _ hst hplain
  | readDelta pos n k ih =>
    rw [run, Input_call, ok_bind]
    exact ih _ hst hplain
  | write pos b k ih =>
    unfold plain at hplain
    unfold run
    rw [H.memAsHStreamOutput_eq]
    cases hwrite : memWrite dst pos b with
    | none =>
      rw [hwrite] at hplain
      exact ih false hst hplain
    | some dst' =>
      rw [hwrite] at hplain
      exact ih true hst hplain
  | opens size b e k ih =>
    unfold plain at hplain
    cases hopen : openFile F accepts delta size b e with
    | none => simp [hopen] at hplain
    | some content =>
      rw [hopen] at hplain
      obtain ⟨self, hself, hmirrors⟩ := opens_mirrors hctx haccepts hopen
      rw [run, hself, ok_bind]
      exact ih hmirrors hplain
  | part n k ih =>
    unfold plain at hplain
    by_cases hn : n ≤ List.length file
    · rw [if_pos hn] at hplain
      obtain ⟨self', out, hpart, hout, hmirrors⟩ := part_mirrors hst hn
      rw [run, hpart, ok_bind]
      simp only [hout]
      exact ih _ hmirrors hplain
    · rw [if_neg hn] at hplain
      cases hplain
  | close k ih =>
    rw [run, close_mirrors hst, ok_bind]
    exact ih _ trivial hplain

theorem Session.Refuses.run_false {h : Handle} {c : Session h} (hc : c.Refuses)
    {source source' : StreamInput} {st : HandleState Z h} {dst dst' : OutObject} {verdict : Bool}
    (hrun : c.run Z H source source' st dst = .ok (verdict, dst')) : verdict = false := by
  induction c generalizing dst with
  | finish v =>
    obtain ⟨rfl, -⟩ := Prod.mk.inj (Except.ok.inj hrun)
    exact hc
  | throws t => cases hrun
  | readOld pos n k ih =>
    obtain ⟨r, -, hrun⟩ := bind_eq_ok.mp hrun
    exact ih r (hc r) hrun
  | readDelta pos n k ih =>
    obtain ⟨r, -, hrun⟩ := bind_eq_ok.mp hrun
    exact ih r (hc r) hrun
  | write pos b k ih =>
    unfold run at hrun
    rw [H.memAsHStreamOutput_eq] at hrun
    cases hwrite : memWrite dst pos b with
    | none =>
      rw [hwrite] at hrun
      exact ih false (hc false) hrun
    | some dst₁ =>
      rw [hwrite] at hrun
      exact ih true (hc true) hrun
  | opens size b e k ih =>
    obtain ⟨self, -, hrun⟩ := bind_eq_ok.mp hrun
    exact ih hc hrun
  | part n k ih =>
    obtain ⟨⟨self, out⟩, -, hrun⟩ := bind_eq_ok.mp hrun
    exact ih _ (hc _) hrun
  | close k ih =>
    obtain ⟨v, -, hrun⟩ := bind_eq_ok.mp hrun
    exact ih v (hc v) hrun

theorem opens_creates {source : StreamInput} {size b e : Nat} {self : Decompress Z}
    (h : Decompress.opens Z size source b e = .ok self) :
    (b ≤ e ∧ e ≤ source.size ∧ size ≤ payloadMax) ∧ Z.createDCtx ≠ none := by
  simp only [Decompress.opens, bind_eq_ok, require_eq_ok] at h
  obtain ⟨-, hlimits, h⟩ := h
  refine ⟨hlimits, fun hnone => ?_⟩
  simp [hnone] at h

theorem opens_pledges {size b e : Nat} {self : Decompress Z}
    (h : Decompress.opens Z size (Input delta) b e = .ok self) :
    HandleState.Pledges D.dec (h := .opened) self fun content =>
      openFile F (fun _ => True) delta size b e = some content := by
  obtain ⟨⟨hb, he, hsize⟩, hctx⟩ := opens_creates h
  have hrange : b + ((delta.drop b).take (e - b)).length = e := by
    change e ≤ delta.length at he
    rw [List.length_take, List.length_drop]
    omega
  obtain ⟨self', hself, ht, -, hremaining, hgoing, hat⟩ :=
    Decompress.opens_tracks D hctx he hrange hsize (Input_serves_range delta hb he)
  obtain rfl := Except.ok.inj (h.symm.trans hself)
  refine ⟨b, _, [], [], ht, .inl ⟨hgoing, hat⟩, fun f left hf hcontent hlen => ?_⟩
  rw [List.nil_append] at hcontent
  refine openFile_eq_some.mpr ⟨⟨hb, he, hsize⟩, f, hf, trivial, ?_, hcontent⟩
  rw [hcontent, hlen, hremaining]

theorem part_pledges {self self' : Decompress Z} {P : Bytes → Prop} {n : Nat} {out : OutObject}
    (h : HandleState.Pledges D.dec (h := .opened) self P)
    (hpart : self.decompressPart n = .ok (self', out)) :
    ∃ given, readCells (fun _ => 0) out.cells = given ∧ given.length = n ∧
      HandleState.Pledges D.dec (h := .opened) self' fun left => P (given ++ left) := by
  obtain ⟨b, w, seen, o, ht, hdecoded, hP⟩ := h
  obtain ⟨seen', given, ht', hdecoded', hlen, hout, hremaining⟩ :=
    Decompress.decompressPart_sound (D.dec.endsOnly_any _) ht hdecoded hpart
  refine ⟨given, by rw [hout, readCells_map_some], hlen, b, w, seen', o ++ given, ht', hdecoded',
    fun f left hf hcontent hleft => hP f _ hf (by rw [hcontent, List.append_assoc]) ?_⟩
  rw [List.length_append, hlen, hleft]
  omega

theorem close_pledges {self : Decompress Z} {P : Bytes → Prop}
    (h : HandleState.Pledges D.dec (h := .opened) self P) (hclose : self.close = .ok true) : P [] := by
  obtain ⟨b, w, seen, o, ht, hdecoded, hP⟩ := h
  obtain ⟨f, hf, -, hcontent⟩ := Decompress.close_sound (D.dec.endsOnly_any _) ht hdecoded hclose
  have hspent := Decompress.close_safe ⟨ht.ipos, ht.pos⟩
  rw [hclose] at hspent
  exact hP f [] hf (by rw [hcontent, List.append_nil]) (hspent rfl).symm

/-- A session that is approved of over the streams and the plugin went as over
plain files, where every open handle stood for what it came to give out. -/
theorem Session.plain_of_run {h : Handle} {c : Session h} (hc : c.Diligent) {st : HandleState Z h}
    {P : HandleFile h → Prop} (hst : st.Pledges D.dec P) {dst dst' : OutObject}
    (hrun : c.run Z H (Input old) (Input delta) st dst = .ok (true, dst')) :
    ∃ file, P file ∧ c.plain F (fun _ => True) old delta file dst = some (true, dst') := by
  induction c generalizing dst with
  | @finish h verdict =>
    obtain ⟨rfl, rfl⟩ := Prod.mk.inj (Except.ok.inj hrun)
    cases h with
    | opened => cases hc rfl
    | absent => exact ⟨(), hst, rfl⟩
    | closed => exact ⟨(), hst, rfl⟩
  | throws t => cases hrun
  | readOld pos n k ih =>
    rw [run, Input_call, ok_bind] at hrun
    exact ih _ (hc _) hst hrun
  | readDelta pos n k ih =>
    rw [run, Input_call, ok_bind] at hrun
    exact ih _ (hc _) hst hrun
  | write pos b k ih =>
    unfold run at hrun
    rw [H.memAsHStreamOutput_eq] at hrun
    unfold plain
    cases hwrite : memWrite dst pos b with
    | none =>
      rw [hwrite] at hrun
      exact ih false (hc false) hst hrun
    | some dst₁ =>
      rw [hwrite] at hrun
      exact ih true (hc true) hst hrun
  | opens size b e k ih =>
    obtain ⟨self, hself, hrun⟩ := bind_eq_ok.mp hrun
    obtain ⟨content, hopen, hplain⟩ := ih hc (opens_pledges hself) hrun
    refine ⟨(), hst, ?_⟩
    rw [plain_opens hopen, hplain]
  | part n k ih =>
    obtain ⟨⟨self, out⟩, hpart, hrun⟩ := bind_eq_ok.mp hrun
    obtain ⟨given, hgiven, hlen, hst'⟩ := part_pledges hst hpart
    simp only [hgiven] at hrun
    obtain ⟨left, hleft, hplain⟩ := ih _ (hc _) hst' hrun
    refine ⟨given ++ left, hleft, ?_⟩
    rw [plain_part (by rw [List.length_append]; omega), ← hlen, List.take_left, List.drop_left, hplain]
  | close k ih =>
    obtain ⟨v, hclose, hrun⟩ := bind_eq_ok.mp hrun
    cases v with
    | false => cases hc.2.run_false hrun
    | true =>
      obtain ⟨file, -, hplain⟩ := ih true hc.1 (P := fun _ => True) (by trivial) hrun
      exact ⟨[], close_pledges hst hclose, hplain⟩

theorem Session.plain_congr {accepts' : Frame UInt8 → Prop} [DecidablePred accepts']
    (h : ∀ b e f, F.frame [] ((delta.drop b).take (e - b)) = some f → (accepts f ↔ accepts' f))
    {h' : Handle} (c : Session h') (file : HandleFile h') (dst : OutObject) :
    c.plain F accepts old delta file dst = c.plain F accepts' old delta file dst := by
  have hopen (size b e : Nat) :
      openFile F accepts delta size b e = openFile F accepts' delta size b e := by
    unfold openFile
    cases hf : F.frame [] ((delta.drop b).take (e - b)) with
    | none => rfl
    | some f => simp only [h b e f hf]
  induction c generalizing dst with
  | finish verdict => rfl
  | throws t => rfl
  | readOld pos n k ih => exact ih _ _ _
  | readDelta pos n k ih => exact ih _ _ _
  | write pos b k ih =>
    unfold plain
    cases memWrite dst pos b with
    | none => exact ih _ _ _
    | some dst₁ => exact ih _ _ _
  | opens size b e k ih =>
    unfold plain
    rw [hopen]
    cases openFile F accepts' delta size b e with
    | none => rfl
    | some content => exact ih _ _
  | part n k ih =>
    unfold plain
    split
    · exact ih _ _ _
    · rfl
  | close k ih => exact ih _ _ _

end

section
variable (F : Format UInt8) (accepts : Frame UInt8 → Prop) [DecidablePred accepts] (H : HDiffPatch)

def plainPatch (base patch : Bytes) (info : DiffInfo) (dst : OutObject) : Option OutObject :=
  match (if info.compressedSize ≠ 0 then
      (H.patchSingleCompressedDiff info true).plain F accepts base patch () dst
    else (H.patchSingleCompressedDiff info false).plain F accepts base patch () dst) with
  | some (true, dst) => some dst
  | _ => none

def HDiffPatch.Diligent : Prop := ∀ info plugin, (H.patchSingleCompressedDiff info plugin).Diligent

end

section
variable {Z : Zstd} {F : Format UInt8} {D : DecodingLaws Z F}
variable {accepts : Frame UInt8 → Prop} [DecidablePred accepts] {H : HDiffPatch} {heap : Heap}
variable {base patch : Bytes} {info : DiffInfo} {dst out : OutObject}

theorem plainPatch_eq_some : plainPatch F accepts H base patch info dst = some out ↔
    (if info.compressedSize ≠ 0 then
      (H.patchSingleCompressedDiff info true).plain F accepts base patch () dst
    else (H.patchSingleCompressedDiff info false).plain F accepts base patch () dst) =
      some (true, out) := by
  unfold plainPatch
  split
  · rename_i h
    rw [h]
    simp
  · rename_i hno
    exact iff_of_false (by simp) fun h => hno out h

theorem allocate_eq_ok {n : Nat} {u : Unit} : allocate heap n = .ok u ↔ heap.new n = true := by
  unfold allocate
  split <;> simp_all

theorem hdiffPatch_eq_ok : hdiffPatch Z H heap base patch dst info = .ok out ↔
    heap.new (info.stepMemSize + H.kStreamCacheSize * 3) = true ∧
    (if info.compressedSize ≠ 0 then
      (H.patchSingleCompressedDiff info true).run Z H (Input base) (Input patch) () dst
    else (H.patchSingleCompressedDiff info false).run Z H (Input base) (Input patch) () dst) =
      .ok (true, out) := by
  simp only [hdiffPatch, bind_eq_ok, allocate_eq_ok, require_eq_ok]
  constructor
  · rintro ⟨-, hcache, ⟨verdict, dst'⟩, hrun, -, hverdict, h⟩
    obtain rfl := Except.ok.inj h
    subst hverdict
    exact ⟨hcache, hrun⟩
  · rintro ⟨hcache, hrun⟩
    exact ⟨(), hcache, _, hrun, (), rfl, rfl⟩

theorem hdiffPatch_of_plain (hctx : Z.createDCtx ≠ none)
    (haccepts : ∀ {f}, accepts f → D.dec.accepts Decompress.config f)
    (hcache : heap.new (info.stepMemSize + H.kStreamCacheSize * 3) = true)
    (h : plainPatch F accepts H base patch info dst = some out) :
    hdiffPatch Z H heap base patch dst info = .ok out := by
  have hplain := plainPatch_eq_some.mp h
  refine hdiffPatch_eq_ok.mpr ⟨hcache, ?_⟩
  split
  · rw [if_pos ‹_›] at hplain
    exact Session.run_of_plain (h := .closed) hctx haccepts _ trivial hplain
  · rw [if_neg ‹_›] at hplain
    exact Session.run_of_plain (h := .absent) hctx haccepts _ trivial hplain

theorem plain_of_hdiffPatch (D : DecodingLaws Z F) (hH : H.Diligent)
    (h : hdiffPatch Z H heap base patch dst info = .ok out) :
    plainPatch F (fun _ => True) H base patch info dst = some out := by
  obtain ⟨-, hrun⟩ := hdiffPatch_eq_ok.mp h
  refine plainPatch_eq_some.mpr ?_
  split
  · rw [if_pos ‹_›] at hrun
    obtain ⟨_, _, hplain⟩ := Session.plain_of_run (D := D) (h := .closed) (hH info true)
      (P := fun _ => True) trivial hrun
    exact hplain
  · rw [if_neg ‹_›] at hrun
    obtain ⟨_, _, hplain⟩ := Session.plain_of_run (D := D) (h := .absent) (hH info false)
      (P := fun _ => True) trivial hrun
    exact hplain

theorem plainPatch_congr {accepts' : Frame UInt8 → Prop} [DecidablePred accepts']
    (h : ∀ b e f, F.frame [] ((patch.drop b).take (e - b)) = some f → (accepts f ↔ accepts' f)) :
    plainPatch F accepts H base patch info dst = plainPatch F accepts' H base patch info dst := by
  unfold plainPatch
  simp only [Session.plain_congr h]

end

end Pyhdiff.Native
