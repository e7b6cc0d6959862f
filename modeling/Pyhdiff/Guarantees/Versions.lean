import Mathlib.Data.Set.Function
import Pyhdiff.Guarantees.Envelopes
import Pyhdiff.Guarantees.Patches

/-! Histories of versions: deltas of either codec, applied one after another in
whatever order they come. -/
namespace Pyhdiff.Guarantees
open Native Python Streaming

/-- A delta that an encoder over these libraries has made. -/
structure Delta (C : Host) where
  base : Bytes
  target : Bytes
  profile : Profile
  blob : Bytes
  made : ∃ heap passes I, encodeDelta (native ⟨C.zstd, C.hdiff, heap, passes⟩ I) base target profile =
    .ok blob

def applyAll (N : NativeModule) (version : Bytes) (blobs : List Bytes) (maxOutput : Int) : Py Bytes :=
  blobs.foldlM (fun version blob => Python.apply N version blob maxOutput) version

/-- The deltas are a path from one version to another, all within the bound. -/
def Leads {C : Host} (m : Int) (version : Bytes) : List (Delta C) → Bytes → Prop
  | [], last => last = version
  | d :: ds, last => d.base = version ∧ (d.target.length : Int) ≤ m ∧ Leads m d.target ds last

/-- The first delta that does not go on from the version it is applied to, or
that is beyond the bound, and the exception for it. -/
def Stops {C : Host} (m : Int) (version : Bytes) (ds : List (Delta C)) (x : Py Bytes) : Prop :=
  ∃ done d rest v, ds = done ++ d :: rest ∧ Leads m version done v ∧
    ((v ≠ d.base ∧ ∃ message, x = raise (.baseMismatchError message)) ∨
      (m < d.target.length ∧ x = raise (.limitError "target length exceeds the output limit")))

section
variable {C : Host} {I : Interpreter} {F : Format UInt8} {m : Int} {version : Bytes}

theorem Stops.cons {d : Delta C} {ds : List (Delta C)} {x : Py Bytes}
    (hbound : (d.target.length : Int) ≤ m) (h : Stops m d.target ds x) : Stops m d.base (d :: ds) x := by
  obtain ⟨done, e, rest, v, rfl, hleads, hstop⟩ := h
  exact ⟨d :: done, e, rest, v, rfl, ⟨rfl, hbound, hleads⟩, hstop⟩

theorem Delta.sizes (d : Delta C) : d.base.length ≤ rawMax ∧ d.target.length ≤ rawMax := by
  obtain ⟨heap, passes, J, h⟩ := d.made
  obtain ⟨hbase, htarget, -⟩ := encodeDelta_ok h
  exact ⟨hbase, htarget⟩

theorem Delta.inspect (d : Delta C) : ∃ h, inspect d.blob = .ok h ∧ h.baseLength = d.base.length ∧
    h.targetLength = d.target.length ∧ h.baseSha256 = sha256 d.base := by
  obtain ⟨heap, passes, J, h⟩ := d.made
  obtain ⟨hbase, htarget, payload, hblob, hencodes⟩ := encodeDelta_ok h
  rw [hblob]
  exact ⟨_, inspect_encoded _ hbase htarget (encodes_bounded hencodes), rfl, rfl, rfl⟩

theorem Delta.apply (D : DecodingLaws C.zstd F) (E : EncodingLaws C.zstd F) (hcaps : E.CapsWindow)
    (hhonors : E.HonorsWindowLog) (hctx : C.zstd.createDCtx ≠ none) (hheap : C.heap.Grants)
    (hobjects : ∀ n, I.bytesObject n = true) (hcorrect : C.hdiff.Correct F) (d : Delta C)
    (hm : d.target.length ≤ m) : Python.apply (native C I) d.base d.blob m = .ok d.target := by
  obtain ⟨base, target, profile, blob, heap, passes, J, h⟩ := d
  obtain ⟨hbase, htarget, payload, rfl, hencodes⟩ := encodeDelta_ok h
  cases profile with
  | hdiff p =>
    have hpatches : Patches F C.hdiff base target payload :=
      hdiffEncode_patches (C := ⟨C.zstd, C.hdiff, heap, passes⟩) E hhonors hencodes
    exact apply_patch D hctx hheap hcorrect hbase htarget hpatches (hobjects _) hm
  | zstd p =>
    obtain ⟨args, -, hencode⟩ := hencodes
    obtain ⟨hrec, hpayload⟩ :=
      zstdEncode_reconstructs (C := ⟨C.zstd, C.hdiff, heap, passes⟩) E hcaps hencode
    exact apply_envelope D hctx hbase htarget hpayload hrec (hobjects _) hm

theorem Delta.apply_limit (N : NativeModule) (d : Delta C) (hm : m < d.target.length) :
    Python.apply N d.base d.blob m = raise (.limitError "target length exceeds the output limit") := by
  obtain ⟨h, hok, hbase, htarget, -⟩ := d.inspect
  unfold Python.apply
  rw [hok, ok_bind, if_neg (not_not.mpr hbase), if_pos (by omega)]

theorem Delta.apply_other (N : NativeModule) (d : Delta C) (hne : version ≠ d.base)
    (hinj : sha256 version = sha256 d.base → version = d.base) :
    (∃ message, Python.apply N version d.blob m = raise (.baseMismatchError message)) ∨
    (m < d.target.length ∧
      Python.apply N version d.blob m = raise (.limitError "target length exceeds the output limit")) := by
  obtain ⟨h, hok, -, htarget, hhash⟩ := d.inspect
  have hwrong : ¬ Recorded h version := fun hrecorded => hne (hinj (hrecorded.2.trans hhash))
  have hsize := d.sizes.2
  rw [apply_wrongBase hok hwrong N m]
  split
  · exact .inl ⟨_, rfl⟩
  · split
    · exact .inr ⟨by omega, rfl⟩
    · exact .inl ⟨_, rfl⟩

theorem applyAll_cases {S : Set Bytes} (hinj : S.InjOn sha256) {N : NativeModule} {ds : List (Delta C)}
    (happly : ∀ d ∈ ds, (d.target.length : Int) ≤ m → Python.apply N d.base d.blob m = .ok d.target)
    (hds : ∀ d ∈ ds, d.base ∈ S ∧ d.target ∈ S) (hversion : version ∈ S) :
    (∃ last, Leads m version ds last ∧ applyAll N version (ds.map Delta.blob) m = .ok last) ∨
    ∃ e, applyAll N version (ds.map Delta.blob) m = raise e ∧ Stops m version ds (raise e) := by
  induction ds generalizing version with
  | nil => exact .inl ⟨version, rfl, rfl⟩
  | cons d ds ih =>
    obtain ⟨hbase, htarget⟩ := hds d List.mem_cons_self
    have hstep : applyAll N version ((d :: ds).map Delta.blob) m =
        Python.apply N version d.blob m >>= fun v => applyAll N v (ds.map Delta.blob) m := rfl
    rw [hstep]
    by_cases hsame : version = d.base
    · subst hsame
      by_cases hbound : (d.target.length : Int) ≤ m
      · rw [happly d List.mem_cons_self hbound, ok_bind]
        cases ih (fun e he => happly e (List.mem_cons_of_mem d he))
          (fun e he => hds e (List.mem_cons_of_mem d he)) htarget with
        | inl h =>
          obtain ⟨last, hleads, hrun⟩ := h
          exact .inl ⟨last, ⟨rfl, hbound, hleads⟩, hrun⟩
        | inr h =>
          obtain ⟨e, hrun, hstops⟩ := h
          exact .inr ⟨e, hrun, hstops.cons hbound⟩
      · rw [d.apply_limit N (by omega)]
        exact .inr ⟨_, rfl, [], d, ds, d.base, rfl, rfl, .inr ⟨by omega, rfl⟩⟩
    · cases d.apply_other (m := m) N hsame (fun h => hinj hversion hbase h) with
      | inl h =>
        obtain ⟨message, hraised⟩ := h
        rw [hraised]
        exact .inr ⟨_, rfl, [], d, ds, version, rfl, rfl, .inl ⟨hsame, message, rfl⟩⟩
      | inr h =>
        obtain ⟨hbound, hraised⟩ := h
        rw [hraised]
        exact .inr ⟨_, rfl, [], d, ds, version, rfl, rfl, .inr ⟨hbound, rfl⟩⟩

theorem Leads.unique {ds : List (Delta C)} {last last' : Bytes} (h : Leads m version ds last)
    (h' : Leads m version ds last') : last = last' := by
  induction ds generalizing version with
  | nil => exact Eq.trans h (Eq.symm h')
  | cons d ds ih => exact ih h.2.2 h'.2.2

theorem Stops.no_path {ds : List (Delta C)} {x : Py Bytes} (h : Stops m version ds x) (last : Bytes) :
    ¬ Leads m version ds last := by
  obtain ⟨done, d, rest, v, rfl, hdone, hstop⟩ := h
  induction done generalizing version with
  | nil =>
    rintro ⟨hbase, hbound, -⟩
    cases hstop with
    | inl h => exact h.1 (Eq.trans hdone hbase.symm)
    | inr h => exact absurd hbound (by omega)
  | cons e done ih => exact fun hleads => ih hdone.2.2 hleads.2.2

end

/-- Applying deltas is walking through versions. Whichever deltas are applied, of
either codec, from whichever version, in whatever order and as often as one
likes, they are applied exactly along a path, to the version it leads to.
Elsewhere the first delta that does not go on is refused. -/
theorem applyAll_exact {C : Host} {I : Interpreter} {F : Format UInt8}
    (D : DecodingLaws C.zstd F) (E : EncodingLaws C.zstd F) (hcaps : E.CapsWindow)
    (hhonors : E.HonorsWindowLog) (hctx : C.zstd.createDCtx ≠ none) (hheap : C.heap.Grants)
    (hobjects : ∀ n, I.bytesObject n = true) (hcorrect : C.hdiff.Correct F) {S : Set Bytes}
    (hinj : S.InjOn sha256) {version : Bytes} (hversion : version ∈ S) {ds : List (Delta C)}
    (hds : ∀ d ∈ ds, d.base ∈ S ∧ d.target ∈ S) (m : Int) :
    (∀ last, applyAll (native C I) version (ds.map Delta.blob) m = .ok last ↔
      Leads m version ds last) ∧
    ((¬ ∃ last, Leads m version ds last) →
      Stops m version ds (applyAll (native C I) version (ds.map Delta.blob) m)) := by
  have hruns := applyAll_cases hinj (N := native C I) (m := m) (fun d _ hbound =>
    d.apply D E hcaps hhonors hctx hheap hobjects hcorrect hbound) hds hversion
  cases hruns with
  | inl h =>
    obtain ⟨last, hleads, hrun⟩ := h
    rw [hrun]
    refine ⟨fun last' => ⟨fun hsame => ?_, fun hleads' => ?_⟩, fun hno => absurd ⟨last, hleads⟩ hno⟩
    · rwa [← Except.ok.inj hsame]
    · rw [hleads.unique hleads']
  | inr h =>
    obtain ⟨e, hrun, hstops⟩ := h
    rw [hrun]
    exact ⟨fun last => iff_of_false (by simp [raise]) (hstops.no_path last), fun _ => hstops⟩

def Whole.first : Delta Whole.host where
  base := []
  target := [97, 98, 99]
  profile := .zstd { checksum := false }
  blob := envelope .zstd [] [97, 98, 99] Stored.abcFrame
  made := ⟨Whole.host.heap, Whole.host.passes, Stored.interpreter, by decide +kernel⟩

def Whole.second : Delta Whole.host where
  base := [97, 98, 99]
  target := [100]
  profile := .hdiff {}
  blob := envelope .hdiff [97, 98, 99] [100] (Whole.header 1 3 0 ++ Whole.content [100])
  made := ⟨Whole.host.heap, Whole.host.passes, Stored.interpreter, by decide +kernel⟩

-- one after the other, and the other way round
theorem applyAll_exact_two :
    applyAll (native Whole.host Stored.interpreter) [] [Whole.first.blob, Whole.second.blob] 3 =
        .ok [100] ∧
      Stops 3 [] [Whole.second, Whole.first]
        (applyAll (native Whole.host Stored.interpreter) [] [Whole.second.blob, Whole.first.blob] 3) := by
  have hhashes : ∀ x ∈ ([[], [97, 98, 99], [100]] : List Bytes), ∀ y ∈ ([[], [97, 98, 99], [100]] : List Bytes),
      sha256 x = sha256 y → x = y := by decide +kernel
  have hinj : Set.InjOn sha256 {x | x ∈ ([[], [97, 98, 99], [100]] : List Bytes)} :=
    fun x hx y hy => hhashes x hx y hy
  have h := fun ds hds => @applyAll_exact Whole.host Stored.interpreter Stored.format
    Stored.decodingLaws Stored.encodingLaws Stored.encodingLaws_capsWindow
    Stored.encodingLaws_honorsWindowLog Stored.zstd_creates Stored.host_grants (fun _ => rfl)
    (Whole.library_correct _) _ hinj [] (by decide) ds hds 3
  obtain ⟨hforth, -⟩ := h [Whole.first, Whole.second] (by
    simp only [List.forall_mem_cons, List.not_mem_nil, false_implies, implies_true, and_true]
    exact ⟨⟨by decide, by decide⟩, by decide, by decide⟩)
  obtain ⟨-, hback⟩ := h [Whole.second, Whole.first] (by
    simp only [List.forall_mem_cons, List.not_mem_nil, false_implies, implies_true, and_true]
    exact ⟨⟨by decide, by decide⟩, by decide, by decide⟩)
  refine ⟨(hforth [100]).mpr ⟨rfl, by decide, rfl, by decide, rfl⟩, hback ?_⟩
  rintro ⟨last, hbase, -⟩
  cases hbase

end Pyhdiff.Guarantees
