import Pyhdiff.Native.Options
import Pyhdiff.Native.Streams
import Pyhdiff.Native.Zstd
import Pyhdiff.Streaming.Loop

/-! The compression plugin: one frame of a stream, written through a callback
that may refuse a write. -/
namespace Pyhdiff.Native
open Streaming

def allocate (heap : Heap) (n : Nat) : Cxx Unit :=
  if heap.new n then .ok () else .error (.thrown .badAlloc)

def compressParameters (o : Options) : List (CParameter × Int) :=
  [(.compressionLevel, o.level), (.windowLog, o.windowLog), (.nbWorkers, 0),
    (.contentSizeFlag, o.contentSize), (.checksumFlag, o.checksum)]

/-- The room the plugin asks for before it compresses `n` bytes. -/
def maxCompressedSize (n : Nat) : Nat := n + n / 8 + 1024

/-- `read` counts the source bytes taken so far, the last of them in `chunk`;
`pos` is the cursor in the chunk. -/
structure CompressState (Z : Zstd) (ω : Type) where
  ctx : Z.CCtx
  read : Nat
  chunk : Bytes
  pos : Nat
  written : Nat
  out : ω

section
variable (Z : Zstd) {ω : Type} (write : ω → Nat → Bytes → Cxx (Option ω)) (input : StreamInput)

def nextChunk (read : Nat) : Cxx Bytes := do
  let n := min Z.cStreamInSize (input.size - read)
  first Z.cStreamInSize n
  input.fetch read n

/-- One pass of the inner loop, which reads the next chunk where that loop ends.
A refused write abandons the compression; nothing was written by it. -/
def compressPass (s : CompressState Z ω) : Cxx (Pass (CompressState Z ω) (Nat × ω)) := do
  let last := decide (s.read = input.size)
  let r := Z.compressStream2 s.ctx (s.chunk.drop s.pos) Z.cStreamOutSize
    (if last then .eEnd else .eContinue)
  let remaining ← zcheck r.result
  first Z.cStreamOutSize r.produced.length
  let some out ← write s.out s.written r.produced | return .stop (0, s.out)
  let written := s.written + r.produced.length
  let pos := s.pos + r.consumed
  if (if last then remaining ≠ 0 else pos ≠ s.chunk.length) then
    return .next ⟨r.ctx, s.read, s.chunk, pos, written, out⟩
  if last then return .stop (written, out)
  let chunk ← nextChunk Z input s.read
  return .next ⟨r.ctx, s.read + chunk.length, chunk, 0, written, out⟩

/-- The compressed size, or 0 when a write was refused. -/
def compress (heap : Heap) (passes : Nat) (o : Options) (out : ω) : Cxx (Nat × ω) := do
  let some ctx := Z.createCCtx | .error (.thrown .badAlloc)
  allocate heap Z.cStreamInSize
  allocate heap Z.cStreamOutSize
  let ctx ← (compressParameters o).foldlM (zset Z) ctx
  let ctx ← zcheck (Z.cctxSetPledgedSrcSize ctx input.size)
  let chunk ← nextChunk Z input 0
  run (compressPass Z write input) (.halt .running) passes ⟨ctx, chunk.length, chunk, 0, 0, out⟩

end

/-- What a write callback stores is appended to what `Holds` says is in the stream. -/
def Appends {ω : Type} (write : ω → Nat → Bytes → Cxx (Option ω)) (Holds : ω → Bytes → Prop) : Prop :=
  ∀ ⦃out w b out'⦄, Holds out w → write out w.length b = .ok (some out') → Holds out' (w ++ b)

/-- A write callback that stores or refuses, and does not throw. -/
def Responds {ω : Type} (write : ω → Nat → Bytes → Cxx (Option ω)) (Holds : ω → Bytes → Prop) : Prop :=
  ∀ ⦃out w⦄ b, Holds out w → ∃ answer, write out w.length b = .ok answer

section
variable {Z : Zstd} {F : Format UInt8} (E : EncodingLaws Z F)
variable {ω : Type} {write : ω → Nat → Bytes → Cxx (Option ω)} (Holds : ω → Bytes → Prop)
variable {input : StreamInput} {src : Bytes} {bound : Job (CParameter → Int) UInt8 → Nat}

def CompressState.fed (s : CompressState Z ω) : Nat := s.read - s.chunk.length + s.pos

/-- The job has been fed the source up to the cursor, and what it gave out is in
the stream. Once it is being closed the last chunk stays. -/
structure CompressState.Sound (job : Job (CParameter → Int) UInt8) (src : Bytes)
    (s : CompressState Z ω) : Prop where
  read : s.read ≤ src.length
  pos : s.pos ≤ s.chunk.length
  feeds : ∃ before w closing, src.take s.read = before ++ s.chunk ∧
    E.enc.Fed s.ctx job (before ++ s.chunk.take s.pos) w closing ∧ Holds s.out w ∧
    w.length = s.written ∧
    (closing = none ∨ (closing = some (s.chunk.drop s.pos) ∧ s.read = src.length))

def CompressState.More (src : Bytes) (s : CompressState Z ω) : Prop :=
  s.read ≠ src.length → s.pos < s.chunk.length

def CompressState.ahead (job : Job (CParameter → Int) UInt8) (src : Bytes)
    (bound : Job (CParameter → Int) UInt8 → Nat) (s : CompressState Z ω) : Nat :=
  (src.length - s.fed) + (bound job - s.written)

/-- A compression ends refused, with a part of the frame in the stream, or with
exactly one standard frame of the source in it. -/
def Compressed (job : Job (CParameter → Int) UInt8) (src : Bytes) (y : Nat × ω) : Prop :=
  (y.1 = 0 ∧ ∃ w, Holds y.2 w) ∨
  ∃ w f, y.1 = w.length ∧ Holds y.2 w ∧ F.frame job.history w = some f ∧ E.enc.emits job f ∧
    f.skippable = false ∧ f.content = src

variable {E Holds}

theorem nextChunk_serves (hserves : input.Serves 0 src) (hsize : input.size = src.length)
    {read : Nat} (hread : read ≤ src.length) :
    nextChunk Z input read =
      .ok ((src.drop read).take (min Z.cStreamInSize (src.length - read))) := by
  have hfetch := hserves.fetch read (min Z.cStreamInSize (src.length - read)) (by omega)
  rw [Nat.zero_add] at hfetch
  unfold nextChunk
  dsimp only
  rw [hsize, first_ok (Nat.min_le_left _ _), ok_bind, hfetch]

abbrev CompressState.reply (input : StreamInput) (s : CompressState Z ω) : Reply Z.CCtx UInt8 :=
  Z.compressStream2 s.ctx (s.chunk.drop s.pos) Z.cStreamOutSize (directive (s.read = input.size))

def CompressState.settle (input : StreamInput) (s : CompressState Z ω) (k : Nat)
    (r : Reply Z.CCtx UInt8) (out : ω) : Cxx (Pass (CompressState Z ω) (Nat × ω)) :=
  if (if s.read = input.size then k ≠ 0 else s.pos + r.consumed ≠ s.chunk.length) then
    .ok (.next ⟨r.ctx, s.read, s.chunk, s.pos + r.consumed, s.written + r.produced.length, out⟩)
  else if s.read = input.size then .ok (.stop (s.written + r.produced.length, out))
  else nextChunk Z input s.read >>= fun chunk =>
    .ok (.next ⟨r.ctx, s.read + chunk.length, chunk, 0, s.written + r.produced.length, out⟩)

theorem compressPass_eq (s : CompressState Z ω) : compressPass Z write input s =
    (zcheck (s.reply input).result >>= fun k =>
      write s.out s.written (s.reply input).produced >>= fun
        | none => .ok (.stop (0, s.out))
        | some out => s.settle input k (s.reply input) out) := by
  unfold compressPass
  simp only [decide_eq_true_eq, first_ok (Z.compressStream2_within _ _ _ _).2, ok_bind]
  refine congrArg _ (funext fun k => congrArg _ (funext fun answer => ?_))
  cases answer with
  | none => rfl
  | some out => rfl

theorem CompressState.Sound.fed_le {job : Job (CParameter → Int) UInt8} {s : CompressState Z ω}
    (hs : s.Sound E Holds job src) : s.fed ≤ src.length := by
  obtain ⟨hread, hpos, before, -, -, hbefore, -⟩ := hs
  have hlen := congrArg List.length hbefore
  rw [List.length_take, List.length_append] at hlen
  unfold fed
  omega

theorem CompressState.reply_le {s : CompressState Z ω} (hpos : s.pos ≤ s.chunk.length) :
    s.pos + (s.reply input).consumed ≤ s.chunk.length := by
  have hw := (Z.compressStream2_within s.ctx (s.chunk.drop s.pos) Z.cStreamOutSize
    (directive (s.read = input.size))).1
  rw [List.length_drop] at hw
  unfold reply
  omega

theorem CompressState.Sound.job_fed (hsize : input.size = src.length)
    {job : Job (CParameter → Int) UInt8} {s : CompressState Z ω} (hs : s.Sound E Holds job src) :
    ∃ before w closing, src.take s.read = before ++ s.chunk ∧
      before.length + s.chunk.length = s.read ∧
      E.enc.Fed s.ctx job (before ++ s.chunk.take s.pos) w closing ∧ Holds s.out w ∧
      w.length = s.written ∧ (closing = none ∨
        (closing = some (s.chunk.drop s.pos) ∧ s.read = input.size)) := by
  obtain ⟨hread, -, before, w, closing, hbefore, hfed, hholds, hwritten, hclosing⟩ := hs
  have hlen := congrArg List.length hbefore
  rw [List.length_take, List.length_append, Nat.min_eq_left hread] at hlen
  exact ⟨before, w, closing, hbefore, hlen.symm, hfed, hholds, hwritten, by rwa [hsize]⟩

theorem CompressState.Sound.settle (hserves : input.Serves 0 src) (hsize : input.size = src.length)
    {job : Job (CParameter → Int) UInt8} (hpledged : job.pledged = src.length)
    {s : CompressState Z ω} (hs : s.Sound E Holds job src) {k : Nat}
    (hres : (s.reply input).result = .ok k) (out : ω)
    (hout : ∀ {w}, Holds s.out w → w.length = s.written → Holds out (w ++ (s.reply input).produced)) :
    (∃ y, s.settle input k (s.reply input) out = .ok (.stop y) ∧ Compressed E Holds job src y) ∨
    ∃ t : CompressState Z ω, s.settle input k (s.reply input) out = .ok (.next t) ∧
      t.Sound E Holds job src ∧ (0 < Z.cStreamInSize → t.More src) ∧
      (s.read = input.size → k ≠ 0) ∧ t.fed = s.fed + (s.reply input).consumed ∧
      t.written = s.written + (s.reply input).produced.length := by
  have hread := hs.read
  have hpos := hs.pos
  have hcursor : s.pos + (s.reply input).consumed ≤ s.chunk.length := CompressState.reply_le hpos
  obtain ⟨before, w, closing, hbefore, hbase, hfed, hholds, hwritten, hclosing⟩ := hs.job_fed hsize
  have hr : s.reply input = Z.compressStream2 s.ctx (s.chunk.drop s.pos) Z.cStreamOutSize
    (directive (s.read = input.size)) := rfl
  have hholds' := hout hholds hwritten
  generalize s.reply input = r at *
  have hlen : (w ++ r.produced).length = s.written + r.produced.length := by
    rw [List.length_append, hwritten]
  by_cases hend : s.read = input.size ∧ k = 0
  · obtain ⟨hlast, rfl⟩ := hend
    obtain ⟨f, hf, hemits, hstandard, hcontent⟩ := LawfulEncoder.ends hfed hclosing hlast hr hres (by
      simp only [List.length_append, List.length_take, List.length_drop]
      omega)
    refine .inl ⟨(s.written + r.produced.length, out), ?_,
      .inr ⟨_, f, hlen.symm, hholds', hf, hemits, hstandard, ?_⟩⟩
    · rw [CompressState.settle, if_neg (by simp [hlast]), if_pos hlast]
    · rw [hcontent, List.append_assoc, List.take_append_drop, ← hbefore, hlast, hsize,
        List.take_length]
  right
  have hgoing : s.read = input.size → k ≠ 0 := fun hlast hk => hend ⟨hlast, hk⟩
  have hfed := LawfulEncoder.feeds hfed hclosing hr hres hgoing
  rw [List.append_assoc, ← List.take_add, List.drop_drop] at hfed
  unfold CompressState.settle
  by_cases hlast : s.read = input.size
  · rw [if_pos (by rw [if_pos hlast]; exact hgoing hlast)]
    rw [if_pos hlast] at hfed
    exact ⟨_, rfl, ⟨hread, hcursor, before, _, _, hbefore, hfed, hholds', hlen,
      .inr ⟨rfl, hlast.trans hsize⟩⟩, fun _ h => absurd (hlast.trans hsize) h, hgoing,
      (Nat.add_assoc _ _ _).symm, rfl⟩
  rw [if_neg hlast] at hfed
  by_cases hdone : s.pos + r.consumed = s.chunk.length
  -- the chunk is used up and the next one is read
  · rw [if_neg (by rw [if_neg hlast]; exact not_not.mpr hdone), if_neg hlast,
      nextChunk_serves hserves hsize hread, ok_bind]
    have hchunk : ((src.drop s.read).take (min Z.cStreamInSize (src.length - s.read))).length =
        min Z.cStreamInSize (src.length - s.read) := by
      rw [List.length_take, List.length_drop]
      omega
    rw [hdone, List.take_length, ← hbefore] at hfed
    refine ⟨_, rfl, ⟨?_, Nat.zero_le _, src.take s.read, _, none, ?_, ?_, hholds', hlen, .inl rfl⟩,
      fun hin h => ?_, hgoing, ?_, rfl⟩
    · simp only [hchunk]
      omega
    · simp only [hchunk]
      rw [List.take_add]
    · simpa using hfed
    · simp only [hchunk] at h ⊢
      omega
    · simp only [fed]
      omega
  · rw [if_pos (by rw [if_neg hlast]; exact hdone)]
    exact ⟨_, rfl, ⟨hread, hcursor, before, _, none, hbefore, hfed, hholds', hlen, .inl rfl⟩,
      fun _ _ => Nat.lt_of_le_of_ne hcursor hdone, hgoing, (Nat.add_assoc _ _ _).symm, rfl⟩

/-- Everything a pass can do: report an error of the library or of the write
callback, end, or go on. -/
theorem compressPass_cases (hwrite : Appends write Holds) (hserves : input.Serves 0 src)
    (hsize : input.size = src.length) {job : Job (CParameter → Int) UInt8}
    (hpledged : job.pledged = src.length) {s : CompressState Z ω} (hs : s.Sound E Holds job src) :
    let r := s.reply input
    (∃ e, r.result = .error e ∧ compressPass Z write input s = zcheck (.error e)) ∨
    (∃ e, write s.out s.written r.produced = .error e ∧ compressPass Z write input s = .error e) ∨
    (∃ y, compressPass Z write input s = .ok (.stop y) ∧ Compressed E Holds job src y) ∨
    ∃ k, ∃ t : CompressState Z ω, r.result = .ok k ∧ compressPass Z write input s = .ok (.next t) ∧
      t.Sound E Holds job src ∧ (0 < Z.cStreamInSize → t.More src) ∧
      (s.read = input.size → k ≠ 0) ∧ t.fed = s.fed + r.consumed ∧
      t.written = s.written + r.produced.length := by
  intro r
  rw [compressPass_eq]
  cases hres : r.result with
  | error e => exact .inl ⟨e, rfl, rfl⟩
  | ok k =>
    right
    rw [zcheck_ok, ok_bind]
    cases hanswer : write s.out s.written r.produced with
    | error e => exact .inl ⟨e, rfl, rfl⟩
    | ok answer =>
      right
      rw [ok_bind]
      cases answer with
      | none =>
        obtain ⟨-, -, -, w, -, -, -, hholds, -⟩ := hs
        exact .inl ⟨_, rfl, .inl ⟨rfl, w, hholds⟩⟩
      | some out =>
        rcases hs.settle hserves hsize hpledged hres out
          (fun hholds hlen => hwrite hholds (hlen ▸ hanswer)) with h | ⟨t, h⟩
        · exact .inl h
        · exact .inr ⟨k, t, rfl, h⟩

theorem compressPass_sound (hwrite : Appends write Holds) (hserves : input.Serves 0 src)
    (hsize : input.size = src.length) {job : Job (CParameter → Int) UInt8}
    (hpledged : job.pledged = src.length) {s : CompressState Z ω} (hs : s.Sound E Holds job src) :
    Pass.Ends (CompressState.Sound E Holds job src)
      (fun x => ∀ y, x = .ok y → Compressed E Holds job src y) (compressPass Z write input s) := by
  rcases compressPass_cases hwrite hserves hsize hpledged hs with ⟨e, -, h⟩ | ⟨e, -, h⟩ |
    ⟨y, h, hy⟩ | ⟨k, t, -, h, ht, -⟩
  · simp [h, zcheck_error, fail, Pass.Ends]
  · simp [h, Pass.Ends]
  · rw [h]
    rintro y' ⟨⟩
    exact hy
  · rw [h]
    exact ht

theorem compressPass_ends (hready : E.Ready) (hflush : E.enc.Flushes bound)
    (hwrite : Appends write Holds) (hresponds : Responds write Holds) (hserves : input.Serves 0 src)
    (hsize : input.size = src.length) {job : Job (CParameter → Int) UInt8}
    (hpledged : job.pledged = src.length) {s : CompressState Z ω} (hs : s.Sound E Holds job src)
    (hmore : s.More src) :
    Pass.Ends (fun t => (t.Sound E Holds job src ∧ t.More src) ∧
        t.ahead job src bound < s.ahead job src bound)
      (fun x => ∃ y, x = .ok y) (compressPass Z write input s) := by
  have hpass := compressPass_cases hwrite hserves hsize hpledged hs
  have hread := hs.read
  have hpos := hs.pos
  obtain ⟨before, w, closing, hbefore, hbase, hfed, hholds, hwritten, hclosing⟩ := hs.job_fed hsize
  have hlen : (before ++ s.chunk.take s.pos).length + (s.chunk.drop s.pos).length = s.read := by
    simp only [List.length_append, List.length_take, List.length_drop]
    omega
  obtain ⟨k', hres, hmove⟩ := hflush.call_moves hfed hclosing hready.buffers.2
    (fun hlast => by
      have := hmore (hsize ▸ hlast)
      exact ⟨List.ne_nil_of_length_pos (by rw [List.length_drop]; omega), by omega⟩)
    (fun hlast => by omega)
  rcases hpass with ⟨e, herr, -⟩ | ⟨e, herr, -⟩ | ⟨y, h, -⟩ | ⟨k, t, hk, h, ht, hmore', hzero, hfed', hto⟩
  · simp [hres] at herr
  · obtain ⟨answer, hanswer⟩ := hresponds (s.reply input).produced hholds
    rw [hwritten, herr] at hanswer
    cases hanswer
  · rw [h]
    exact ⟨y, rfl⟩
  · obtain rfl : k' = k := Except.ok.inj (hres.symm.trans hk)
    rw [h]
    refine ⟨⟨ht, hmore' hready.buffers.1⟩, ?_⟩
    have hfedLe := ht.fed_le
    obtain ⟨-, -, before', w', closing', -, hfedTo, -, hwritten', -⟩ := ht
    have hbounded := hflush.bounded hfedTo
    have hmoved : 0 < (s.reply input).consumed ∨ (s.reply input).produced ≠ [] :=
      hmove.resolve_left fun ⟨hlast, hk⟩ => hzero hlast hk
    simp only [CompressState.ahead]
    cases hmoved with
    | inl hmoved => omega
    | inr hmoved =>
      have := List.length_pos_iff.mpr hmoved
      omega

def compressJob (E : EncodingLaws Z F) (o : Options) (n : Nat) : Job (CParameter → Int) UInt8 :=
  ⟨((⟨E.defaults, [], none⟩ : Setup).setAll (compressParameters o)).params, [], n⟩

theorem compressJob_window (o : Options) (n : Nat) :
    (compressJob E o n).params .windowLog = o.windowLog := rfl

theorem compressParameters_allowed {p : HDiffOptions} {o : Options} (h : hdiffOptions p = .ok o) :
    ∀ q ∈ compressParameters o, q.1.Allows q.2 := by
  obtain ⟨hlevel, hwindow, -, -, hsize, hcheck⟩ := hdiffOptions_ok h
  simp only [within, hdiffWindowLogMax] at hlevel hwindow hsize hcheck
  simp only [compressParameters, List.forall_mem_cons, CParameter.Allows]
  refine ⟨hlevel, ⟨by omega, by omega⟩, trivial, by omega, by omega, by simp⟩

def CompressState.start (Z : Zstd) (src : Bytes) (ctx : Z.CCtx) (out : ω) : CompressState Z ω :=
  ⟨ctx, min Z.cStreamInSize src.length, src.take (min Z.cStreamInSize src.length), 0, 0, out⟩

theorem CompressState.start_sound {o : Options} {ctx : Z.CCtx}
    (hfed : E.enc.Fed ctx (compressJob E o src.length) [] [] none) {out : ω} (hout : Holds out []) :
    (CompressState.start Z src ctx out).Sound E Holds (compressJob E o src.length) src :=
  ⟨Nat.min_le_right _ _, Nat.zero_le _, [], [], none, rfl, by simpa [start] using hfed, hout, rfl,
    .inl rfl⟩

theorem compress_ok (hserves : input.Serves 0 src) (hsize : input.size = src.length) {heap : Heap}
    {passes : Nat} {o : Options} {out : ω} {y : Nat × ω} :
    compress Z write input heap passes o out = .ok y ↔
      ∃ ctx ctx₁ ctx₂, Z.createCCtx = some ctx ∧ heap.new Z.cStreamInSize = true ∧
        heap.new Z.cStreamOutSize = true ∧ (compressParameters o).foldlM (zset Z) ctx = .ok ctx₁ ∧
        Z.cctxSetPledgedSrcSize ctx₁ src.length = .ok ctx₂ ∧
        run (compressPass Z write input) (.halt .running) passes
          (CompressState.start Z src ctx₂ out) = .ok y := by
  have hchunk : (src.take (min Z.cStreamInSize src.length)).length =
      min Z.cStreamInSize src.length := by
    rw [List.length_take]
    omega
  have hnext := nextChunk_serves (Z := Z) hserves hsize (Nat.zero_le _)
  rw [List.drop_zero, Nat.sub_zero] at hnext
  have hallocate : ∀ n, allocate heap n = .ok () ↔ heap.new n = true := by
    intro n
    unfold allocate
    split <;> simp_all
  unfold compress
  cases hctx : Z.createCCtx with
  | none => simp
  | some ctx =>
    simp only [bind_eq_ok, zcheck_eq_ok, hsize, hnext, hallocate, Option.some.injEq, exists_const,
      Except.ok.injEq, exists_eq_left', hchunk]
    constructor
    · rintro ⟨hin, hout, ctx₁, hset, ctx₂, hpledge, hrun⟩
      exact ⟨ctx, ctx₁, ctx₂, rfl, hin, hout, hset, hpledge, hrun⟩
    · rintro ⟨_, ctx₁, ctx₂, rfl, hin, hout, hset, hpledge, hrun⟩
      exact ⟨hin, hout, ctx₁, hset, ctx₂, hpledge, hrun⟩

/-- Whatever a compression returns, it ended refused or complete. -/
theorem compress_sound {heap : Heap} (hwrite : Appends write Holds) (hserves : input.Serves 0 src)
    (hsize : input.size = src.length) {o : Options} {out : ω} (hout : Holds out []) {passes : Nat}
    {y : Nat × ω} (h : compress Z write input heap passes o out = .ok y) :
    Compressed E Holds (compressJob E o src.length) src y := by
  obtain ⟨ctx, ctx₁, ctx₂, hctx, -, -, hset, hpledge, hrun⟩ := (compress_ok hserves hsize).mp h
  have hfed := E.begins (E.pledgedSet (zset_idle E (E.created hctx) hset) hpledge) rfl
  exact run_partial (compressPass Z write input) (.halt .running)
    (CompressState.Sound E Holds (compressJob E o src.length) src)
    (fun x => ∀ y, x = .ok y → Compressed E Holds (compressJob E o src.length) src y) (by simp)
    (fun _ => compressPass_sound hwrite hserves hsize rfl) passes _
    (CompressState.start_sound hfed hout) y hrun

theorem compress_ends {heap : Heap} (hready : E.Ready) (hflush : E.enc.Flushes bound)
    (hheap : heap.Grants) (hwrite : Appends write Holds) (hresponds : Responds write Holds)
    (hserves : input.Serves 0 src) (hsize : input.size = src.length) (hlt : src.length < 2 ^ 64)
    (hne : src ≠ []) {p : HDiffOptions} {o : Options} (ho : hdiffOptions p = .ok o) {out : ω}
    (hout : Holds out []) {passes : Nat}
    (hpasses : src.length + bound (compressJob E o src.length) < passes) :
    ∃ y, compress Z write input heap passes o out = .ok y := by
  obtain ⟨ctx, hctx⟩ := Option.ne_none_iff_exists'.mp hready.creates
  obtain ⟨ctx₁, hset, hidle₁⟩ := zset_ready hready (compressParameters_allowed ho) (E.created hctx)
  obtain ⟨ctx₂, hpledge⟩ := hready.pledges hidle₁ hlt
  have hfed := E.begins (E.pledgedSet hidle₁ hpledge) rfl
  have hrun : ∃ y, run (compressPass Z write input) (.halt .running) passes
      (CompressState.start Z src ctx₂ out) = .ok y := by
    refine run_ends (compressPass Z write input) (.halt .running)
      (fun s => s.Sound E Holds (compressJob E o src.length) src ∧ s.More src)
      (CompressState.ahead (compressJob E o src.length) src bound) (fun x => ∃ y, x = .ok y)
      (fun _ hs => compressPass_ends hready hflush hwrite hresponds hserves hsize rfl hs.1 hs.2)
      passes _ ⟨CompressState.start_sound hfed hout, fun _ => ?_⟩ ?_
    · have hin := hready.buffers.1
      have hpos := List.length_pos_iff.mpr hne
      simp only [CompressState.start, List.length_take]
      omega
    · simp only [CompressState.ahead]
      omega
  obtain ⟨y, hrun⟩ := hrun
  exact ⟨y, (compress_ok hserves hsize).mpr ⟨ctx, ctx₁, ctx₂, hctx, hheap.2 _, hheap.2 _, hset,
    hpledge, hrun⟩⟩

end

theorem compress_preserves {Z : Zstd} {ω : Type} {write : ω → Nat → Bytes → Cxx (Option ω)}
    {input : StreamInput} {heap : Heap} {passes : Nat} {o : Options} {P : ω → Prop}
    (hwrite : ∀ {out pos b out'}, P out → write out pos b = .ok (some out') → P out') {out out' : ω}
    (hout : P out) {n : Nat} (h : compress Z write input heap passes o out = .ok (n, out')) :
    P out' := by
  unfold compress at h
  cases hctx : Z.createCCtx with
  | none => simp [hctx] at h
  | some ctx =>
    simp only [hctx, bind_eq_ok] at h
    obtain ⟨-, -, -, -, ctx₁, -, ctx₂, -, chunk, -, hrun⟩ := h
    refine run_partial (compressPass Z write input) (.halt .running) (fun s => P s.out)
      (fun x => ∀ y : Nat × ω, x = .ok y → P y.2) (by simp) ?_ passes _ hout _ hrun
    intro s hs
    have hpass : ∀ p, compressPass Z write input s = .ok p →
        match p with
        | .next t => P t.out
        | .stop y => P y.2 := by
      intro p hp
      rw [compressPass_eq] at hp
      obtain ⟨k, -, hp⟩ := bind_eq_ok.mp hp
      obtain ⟨answer, hanswer, hp⟩ := bind_eq_ok.mp hp
      cases answer with
      | none =>
        obtain rfl := Except.ok.inj hp
        exact hs
      | some out₁ =>
        have hout₁ := hwrite hs hanswer
        dsimp only at hp
        rw [CompressState.settle] at hp
        by_cases hlast : s.read = input.size
        · simp only [if_pos hlast] at hp
          split at hp
          · obtain rfl := Except.ok.inj hp
            exact hout₁
          · obtain rfl := Except.ok.inj hp
            exact hout₁
        · simp only [if_neg hlast] at hp
          split at hp
          · obtain rfl := Except.ok.inj hp
            exact hout₁
          · obtain ⟨chunk, -, hp⟩ := bind_eq_ok.mp hp
            obtain rfl := Except.ok.inj hp
            exact hout₁
    exact Pass.Ends.of_ok (fun t ht => hpass _ ht) fun y hy => hpass _ hy

/-- The stream HDiffPatch hands to the plugin: what is written lands at `offset`
of the output, and a write that ends past `limit` is refused. -/
def writeWithin (heap : Heap) (offset limit : Nat) (out : Output) (pos : Nat) (b : Bytes) :
    Cxx (Option Output) := do
  if limit < pos + b.length then return none
  let out ← out.write heap (offset + pos) b
  return some out

def HoldsAfter (h : Bytes) (limit : Nat) (out : Output) (w : Bytes) : Prop :=
  out.limit = payloadMax ∧ out.bytes.contents = (h ++ w).map some ∧ w.length ≤ limit

section
variable {heap : Heap} {h src : Bytes} {limit : Nat}

theorem HoldsAfter.size {out : Output} {w : Bytes} (hout : HoldsAfter h limit out w) :
    out.bytes.size = h.length + w.length := by
  rw [← Growable.contents_length, hout.2.1, List.length_map, List.length_append]

theorem writeWithin_appends (hfits : h.length + limit ≤ payloadMax) :
    Appends (writeWithin heap h.length limit) (HoldsAfter h limit) := by
  intro out w b out' hout hwrite
  have hsize := hout.size
  obtain ⟨hlimit, hcontents, hw⟩ := hout
  unfold writeWithin at hwrite
  split at hwrite
  · cases hwrite
  rename_i hpast
  obtain ⟨out₁, hwrite₁, h₁⟩ := bind_eq_ok.mp hwrite
  obtain rfl := Option.some.inj (Except.ok.inj h₁)
  rcases Output.write_cases heap out (h.length + w.length) b
    (by omega) (by omega) with ⟨out₂, hwrite₂, hlimit', hcontents'⟩ | ⟨hwrite₂, -⟩
  · obtain rfl := Except.ok.inj (hwrite₁.symm.trans hwrite₂)
    have hlen : (List.map some (h ++ w)).length = h.length + w.length := by simp
    refine ⟨hlimit'.trans hlimit, ?_, by rw [List.length_append]; omega⟩
    rw [hcontents', hcontents, List.take_of_length_le (Nat.le_of_eq hlen),
      List.drop_eq_nil_of_le (by omega), List.append_nil, ← List.map_append, List.append_assoc]
  · rw [hwrite₂] at hwrite₁
    cases hwrite₁

theorem writeWithin_responds (hheap : heap.Grants) (hfits : h.length + limit ≤ payloadMax) :
    Responds (writeWithin heap h.length limit) (HoldsAfter h limit) := by
  intro out w b hout
  have hsize := hout.size
  have hlimit := hout.1
  unfold writeWithin
  split
  · exact ⟨none, rfl⟩
  rcases Output.write_cases heap out (h.length + w.length) b
    (by omega) (by omega) with ⟨out', hwrite, -⟩ | ⟨-, hno⟩
  · exact ⟨some out', by rw [hwrite]; rfl⟩
  · exact absurd hheap hno

theorem HoldsAfter.overwritten (heap : Heap) (src : Bytes) {w : Bytes} {out : Output}
    (hout : HoldsAfter h limit out w)
    (hlimit : limit ≤ src.length) (hfits : h.length + src.length ≤ payloadMax) :
    (∃ out' : Output, out.write heap h.length src = .ok out' ∧
      out'.bytes.contents = (h ++ src).map some) ∨
    (out.write heap h.length src = .error (.thrown .badAlloc) ∧ ¬ heap.Grants) := by
  have hsize := hout.size
  obtain ⟨hbound, hcontents, hw⟩ := hout
  refine (Output.write_cases heap out h.length src (by omega)
    (by omega)).imp_left fun ⟨out', hwrite, _, hcontents'⟩ => ⟨out', hwrite, ?_⟩
  have htake : (List.map some (h ++ w)).take h.length = h.map some := by
    rw [List.map_append, List.take_left' (List.length_map _)]
  have hdrop : (List.map some (h ++ w)).drop (h.length + src.length) = [] := by
    refine List.drop_eq_nil_of_le ?_
    rw [List.length_map, List.length_append]
    omega
  rw [hcontents', hcontents, htake, hdrop, List.append_nil, List.map_append]

end

end Pyhdiff.Native
