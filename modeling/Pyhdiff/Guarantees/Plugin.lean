import Pyhdiff.Guarantees.Stored

/-! Codec 1: the streams HDiffPatch compresses and decompresses with the plugin. -/
namespace Pyhdiff.Guarantees
open Native Streaming

/-- The plugin is strict: whatever the requests that add up to the announced
size, every call succeeds exactly on one standard frame of that size which fills
the range, and its content is delivered. Requests that add up to less end in a
failing close. -/
theorem serve_exact {Z : Zstd} {F : Format UInt8} (D : DecodingLaws Z F) (hstrict : D.dec.Strict)
    (hctx : Z.createDCtx ≠ none) {source : StreamInput} {b e : Nat} {w : Bytes}
    (hrange : b + w.length = e) (he : e ≤ source.size) (hserves : source.Serves b w) {size : Nat}
    (hpos : 0 < size) (hsize : size ≤ payloadMax) :
    (∀ ns, ns.sum = size →
      ((∃ dsts, Decompress.serve Z size source b e ns = .ok (dsts, true)) ↔
        ∃ f, F.frame [] w = some f ∧ f.skippable = false ∧ D.dec.accepts Decompress.config f ∧
          f.content.length = size) ∧
      ∀ dsts f, Decompress.serve Z size source b e ns = .ok (dsts, true) → F.frame [] w = some f →
        Decompress.delivered dsts = f.content.map some) ∧
    (∀ ns ns' : List Nat, ns.sum = size → ns'.sum = size →
      ((∃ dsts, Decompress.serve Z size source b e ns = .ok (dsts, true)) ↔
        ∃ dsts, Decompress.serve Z size source b e ns' = .ok (dsts, true))) ∧
    (∀ (ns : List Nat) d d' dsts, ns.sum < size → Decompress.opens Z size source b e = .ok d →
      d.decompressParts ns = .ok (d', dsts) → d'.close = .ok false) := by
  have hexact : ∀ ns : List Nat, ns.sum = size →
      ((∃ dsts, Decompress.serve Z size source b e ns = .ok (dsts, true)) ↔
        ∃ f, F.frame [] w = some f ∧ f.skippable = false ∧ D.dec.accepts Decompress.config f ∧
          f.content.length = size) := by
    intro ns hns
    constructor
    · rintro ⟨dsts, h⟩
      obtain ⟨f, hf, haccepts, hlen, -⟩ :=
        Decompress.serve_sound D (hstrict _) hctx he hrange hsize hserves h
      rw [hns] at hlen
      refine ⟨f, hf, ?_, haccepts, hlen⟩
      cases hskip : f.skippable with
      | false => rfl
      | true =>
        rw [(f.skip hskip).1] at hlen
        exact absurd hlen (Nat.ne_of_lt hpos)
    · rintro ⟨f, hf, -, haccepts, hlen⟩
      obtain ⟨dsts, h, -⟩ :=
        Decompress.serve_complete D hctx he hrange hsize hserves hf haccepts hlen hns
      exact ⟨dsts, h⟩
  refine ⟨fun ns hns => ⟨hexact ns hns, fun dsts f h hf => ?_⟩, fun ns ns' hns hns' => ?_,
    fun ns d d' dsts hns hopen hparts => Decompress.close_short hns hopen hparts⟩
  · obtain ⟨g, hg, -, -, hdelivered⟩ := Decompress.serve_sound D (hstrict _) hctx he hrange hsize
      hserves h
    obtain rfl := Option.some.inj (hf.symm.trans hg)
    exact hdelivered
  · exact (hexact ns hns).trans (hexact ns' hns').symm

theorem serve_exact_abc :
    ∃ dsts, Decompress.serve Stored.zstd 3
      (Input ([7] ++ Stored.abcFrame ++ [])) 1 13 [1, 0, 2] = .ok (dsts, true) := by
  have hserves := Input_serves [7] Stored.abcFrame []
  exact (((serve_exact Stored.decodingLaws Stored.decodingLaws_strict Stored.zstd_creates (b := 1)
    (e := 13) rfl (by decide) hserves (by decide : 0 < 3) (by decide)).1 [1, 0, 2] rfl).1).mpr
      ⟨_, Stored.abcFrame_frame [], rfl, Stored.decodingLaws.dec.accepts_window (by decide), rfl⟩

section
variable {Z : Zstd} {F : Format UInt8} (E : EncodingLaws Z F)
variable {head src : Bytes} {job : Job (CParameter → Int) UInt8} {n : Nat} {out : Output}

theorem compressed_holds {limit : Nat}
    (h : Compressed E (HoldsAfter head limit) job src (n, out)) : ∃ w, HoldsAfter head limit out w := by
  cases h with
  | inl h =>
    obtain ⟨-, w, hw⟩ := h
    exact ⟨w, hw⟩
  | inr h =>
    obtain ⟨w, -, -, hw, -⟩ := h
    exact ⟨w, hw⟩

theorem contents_size {g : Growable} {b : Bytes} (h : g.contents = b.map some) : g.size = b.length := by
  rw [← Growable.contents_length, h, List.length_map]

/-- A patch header for a stream of `size` bytes that was compressed to `n` bytes
from `pos` on, or stored there as it is. -/
def Announces (info : DiffInfo) (pos n size : Nat) : Prop :=
  info.diffDataPos = pos ∧ info.compressedSize = n ∧ info.uncompressedSize = size

theorem Announces.fits {info : DiffInfo} {pos n size pn : Nat} (h : Announces info pos n size)
    (hpn : pn = pos + if n ≠ 0 then n else size) : info.Fits pn := by
  obtain ⟨rfl, rfl, rfl⟩ := h
  subst hpn
  exact ⟨Nat.le_add_right _ _, (Nat.add_sub_cancel_left _ _).symm⟩

theorem compressJob_accepted (D : DecodingLaws Z F) (hhonors : E.HonorsWindowLog) {p : HDiffOptions}
    {o : Options} (ho : hdiffOptions p = .ok o) {f : Frame UInt8}
    (h : E.enc.emits (compressJob E o n) f) : D.dec.accepts Decompress.config f := by
  obtain ⟨-, ⟨hlow, hhigh⟩, -⟩ := hdiffOptions_ok ho
  obtain ⟨w, hw⟩ := Int.eq_ofNat_of_zero_le (by omega : 0 ≤ o.windowLog)
  rw [hw] at hlow hhigh
  refine D.dec.accepts_window ((hhonors h ((compressJob_window o n).trans hw) ?_).trans ?_)
  · exact_mod_cast hlow
  · exact Nat.pow_le_pow_right (by decide) (by exact_mod_cast hhigh)

end

/-- Compression into a stream and decompression out of it. A refused write
leaves nothing behind once the source itself is written over the attempt.
A compression that is not refused leaves one frame and nothing after it, from
which requests of any lengths get the source back. Either way the payload has
the size that `hdiff_apply` checks. -/
theorem compress_roundTrip {Z : Zstd} {F : Format UInt8} (D : DecodingLaws Z F)
    (E : EncodingLaws Z F) (hhonors : E.HonorsWindowLog) {head src : Bytes} (hne : src ≠ [])
    (hfits : head.length + src.length ≤ payloadMax) {input : StreamInput}
    (hserves : input.Serves 0 src) (hsize : input.size = src.length) {p : HDiffOptions}
    {o : Options} (ho : hdiffOptions p = .ok o) {out : Output} (hlimit : out.limit = payloadMax)
    (hout : out.bytes.contents = head.map some) (heap : Heap) (passes : Nat) :
    let compressed := compress Z (writeWithin heap head.length (src.length - 1)) input heap passes o out
    (∀ n out', compressed = .ok (n, out') →
      (n = 0 → ∀ raw, out'.write heap head.length src = .ok raw →
        raw.bytes.contents = (head ++ src).map some ∧ raw.bytes.size = head.length + src.length ∧
        ∀ info, Announces info head.length 0 src.length → info.Fits raw.bytes.size) ∧
      (0 < n → ∃ w : Bytes, out'.bytes.contents = (head ++ w).map some ∧
        out'.bytes.size = head.length + n ∧ n < src.length ∧
        (∀ info, Announces info head.length n src.length → info.Fits out'.bytes.size) ∧
        (Z.createDCtx ≠ none → ∀ ns, ns.sum = src.length → ∃ dsts,
          Decompress.serve Z src.length (Input (head ++ w)) head.length (head.length + n) ns =
            .ok (dsts, true) ∧ Decompress.delivered dsts = src.map some))) ∧
    (∀ bound, heap.Grants → E.Ready → E.enc.Flushes bound →
      src.length + bound (compressJob E o src.length) < passes →
      ∃ n out', compressed = .ok (n, out') ∧
        (n = 0 → ∃ raw, out'.write heap head.length src = .ok raw)) := by
  have hsrc := List.length_pos_iff.mpr hne
  have hlimits : head.length + (src.length - 1) ≤ payloadMax := by omega
  have hstart : HoldsAfter head (src.length - 1) out [] :=
    ⟨hlimit, by rw [List.append_nil]; exact hout, Nat.zero_le _⟩
  intro compressed
  have hsound : ∀ y, compressed = .ok y → Compressed E (HoldsAfter head (src.length - 1))
      (compressJob E o src.length) src y :=
    fun y h => compress_sound (writeWithin_appends hlimits) hserves hsize hstart h
  refine ⟨fun n out' h => ⟨fun hn raw hraw => ?_, fun hn => ?_⟩,
    fun bound hheap hready hflush hpasses => ?_⟩
  · obtain ⟨w, hw⟩ := compressed_holds E (hsound _ h)
    rcases hw.overwritten heap src (by omega) hfits with
      ⟨raw', hraw', hcontents⟩ | ⟨hraw', -⟩
    · obtain rfl := Except.ok.inj (hraw.symm.trans hraw')
      have hrawsize : raw.bytes.size = head.length + src.length := by
        rw [contents_size hcontents, List.length_append]
      exact ⟨hcontents, hrawsize, fun info hinfo => hinfo.fits hrawsize⟩
    · rw [hraw'] at hraw
      cases hraw
  · rcases hsound _ h with ⟨hzero, -⟩ | ⟨w, f, hlen, ⟨-, hcontents, hw⟩, hf, hemits, -, hcontent⟩
    · exact absurd hzero (Nat.ne_of_gt hn)
    simp only at hlen hcontents
    have houtsize : out'.bytes.size = head.length + n := by
      rw [contents_size hcontents, List.length_append, hlen]
    refine ⟨w, hcontents, houtsize, by omega, fun info hinfo => hinfo.fits ?_, fun hctx ns hns => ?_⟩
    · rw [houtsize, if_pos (Nat.ne_of_gt hn)]
    have hrange := Input_serves head w []
    rw [List.append_nil] at hrange
    obtain ⟨dsts, hserve, hdelivered⟩ := Decompress.serve_complete D hctx
      (e := head.length + n) (by simp [Input, hlen]) (by rw [hlen])
      (by omega : src.length ≤ payloadMax) hrange hf (compressJob_accepted E D hhonors ho hemits)
      (by rw [hcontent]) hns
    exact ⟨dsts, hserve, by rw [hdelivered, hcontent]⟩
  · have hmax : payloadMax < 2 ^ 64 := by decide
    obtain ⟨⟨n, out'⟩, h⟩ := compress_ends hready hflush hheap (writeWithin_appends hlimits)
      (writeWithin_responds hheap hlimits) hserves hsize (by omega) hne ho hstart hpasses
    refine ⟨n, out', h, fun _ => ?_⟩
    obtain ⟨w, hw⟩ := compressed_holds E (hsound _ h)
    rcases hw.overwritten heap src (by omega) hfits with
      ⟨raw, hraw, -⟩ | ⟨-, hno⟩
    · exact ⟨raw, hraw⟩
    · exact absurd hheap hno

-- a run of 64 bytes behind a header of one byte, requested in two parts, and
-- `abc`, which no frame makes shorter
theorem compress_roundTrip_run :
    (∃ n out', 0 < n ∧ compress Stored.zstd (writeWithin Stored.host.heap 1 63)
        (Input (List.replicate 64 97)) Stored.host.heap 400
        ⟨19, 23, 0, 1, 0, 6, 1024, 262144, 0, 0, 0, 0, 0⟩
        ⟨payloadMax, ⟨[some 7], 1, by decide⟩⟩ = .ok (n, out') ∧
      ∃ w dsts, out'.bytes.contents = ([7] ++ w : Bytes).map some ∧
        Decompress.serve Stored.zstd 64 (Input ([7] ++ w)) 1 (1 + n) [10, 54] = .ok (dsts, true) ∧
        Decompress.delivered dsts = (List.replicate 64 97).map some) ∧
    ∃ out' raw, compress Stored.zstd (writeWithin Stored.host.heap 1 2) (Input [97, 98, 99])
        Stored.host.heap 400 ⟨19, 23, 0, 1, 0, 6, 1024, 262144, 0, 0, 0, 0, 0⟩
        ⟨payloadMax, ⟨[some 7], 1, by decide⟩⟩ = .ok (0, out') ∧
      out'.write Stored.host.heap 1 [97, 98, 99] = .ok raw ∧
      raw.bytes.contents = ([7, 97, 98, 99] : Bytes).map some := by
  have hround := fun src hne hfits => @compress_roundTrip Stored.zstd Stored.format
    Stored.decodingLaws Stored.encodingLaws Stored.encodingLaws_honorsWindowLog [7] src hne hfits _
    (Input_serves_all src) rfl ⟨6, 19, 23, 1024, 262144, 1, 0⟩
    ⟨19, 23, 0, 1, 0, 6, 1024, 262144, 0, 0, 0, 0, 0⟩ rfl ⟨payloadMax, ⟨[some 7], 1, by decide⟩⟩
    rfl rfl Stored.host.heap 400
  constructor
  · obtain ⟨hresult, hends⟩ := hround (List.replicate 64 97) (by decide) (by decide)
    obtain ⟨n, out', h, -⟩ := hends _ Stored.host_grants Stored.encodingLaws_ready
      Stored.encodingLaws_flushes (by decide)
    have hsize : (compress Stored.zstd (writeWithin Stored.host.heap 1 63)
        (Input (List.replicate 64 97)) Stored.host.heap 400
        ⟨19, 23, 0, 1, 0, 6, 1024, 262144, 0, 0, 0, 0, 0⟩
        ⟨payloadMax, ⟨[some 7], 1, by decide⟩⟩).toOption.map Prod.fst ≠ some 0 := by decide +kernel
    have hpos : 0 < n := by
      refine Nat.pos_of_ne_zero fun hzero => hsize ?_
      rw [← hzero]
      exact congrArg (Option.map Prod.fst ∘ Except.toOption) h
    obtain ⟨w, hcontents, -, -, -, hdelivers⟩ := (hresult n out' h).2 hpos
    obtain ⟨dsts, hserve, hdelivered⟩ := hdelivers Stored.zstd_creates [10, 54] (by decide)
    exact ⟨n, out', hpos, h, w, dsts, hcontents, hserve, hdelivered⟩
  · obtain ⟨hresult, hends⟩ := hround [97, 98, 99] (by decide) (by decide)
    obtain ⟨n, out', h, hraw⟩ := hends _ Stored.host_grants Stored.encodingLaws_ready
      Stored.encodingLaws_flushes (by decide)
    have hsize : (compress Stored.zstd (writeWithin Stored.host.heap 1 2) (Input [97, 98, 99])
        Stored.host.heap 400 ⟨19, 23, 0, 1, 0, 6, 1024, 262144, 0, 0, 0, 0, 0⟩
        ⟨payloadMax, ⟨[some 7], 1, by decide⟩⟩).toOption.map Prod.fst = some 0 := by decide +kernel
    have hzero : n = 0 := Option.some.inj
      ((congrArg (Option.map Prod.fst ∘ Except.toOption) h).symm.trans hsize)
    subst hzero
    obtain ⟨raw, hraw⟩ := hraw rfl
    exact ⟨out', raw, h, hraw, ((hresult 0 out' h).1 rfl raw hraw).1⟩

end Pyhdiff.Guarantees
