import Pyhdiff.Native.Bridge

/-! The status for options is given by their validation and by nothing else. -/
namespace Pyhdiff.Native
open Streaming

def Unrefused {α : Type} (x : Cxx α) : Prop := x ≠ fail .option

section
variable {α β : Type}

theorem Unrefused.bind {x : Cxx α} {f : α → Cxx β} (h : Unrefused x) (hf : ∀ a, Unrefused (f a)) :
    Unrefused (x >>= f) := by
  cases x with
  | error e =>
    rintro hbind
    rw [error_bind] at hbind
    cases hbind
    exact h rfl
  | ok a => exact hf a

theorem unrefused_ok (a : α) : Unrefused (.ok a) := fun h => by cases h

theorem unrefused_fail {s : Status} (h : s ≠ .option) : Unrefused (fail s : Cxx α) := by
  intro hrefused
  cases hrefused
  exact h rfl

theorem unrefused_badAlloc : Unrefused (.error (.thrown .badAlloc) : Cxx α) := fun h => by cases h

theorem unrefused_require {s : Status} (h : s ≠ .option) (c : Prop) [Decidable c] :
    Unrefused (require c s) := by
  unfold require
  split
  · exact unrefused_ok ()
  · exact unrefused_fail h

theorem unrefused_zcheck (x : Except Nat α) : Unrefused (zcheck x) := by
  cases x with
  | error e =>
    rw [zcheck_error]
    split
    · exact unrefused_fail (by simp)
    · exact unrefused_fail (by simp)
  | ok a => exact unrefused_ok a

theorem unrefused_subspan (b : List α) (pos n : Nat) : Unrefused (subspan b pos n) := by
  unfold subspan
  split
  · exact unrefused_ok _
  · exact fun h => by cases h

theorem unrefused_run {σ : Type} {body : σ → Cxx (Pass σ α)} (h : ∀ s, Unrefused (body s))
    (n : Nat) (s : σ) : Unrefused (run body (.halt .running) n s) := by
  refine run_partial body (.halt .running) (fun _ => True) Unrefused (fun h => by cases h)
    (fun s _ => ?_) n s trivial
  have hbody := h s
  cases hb : body s with
  | error e =>
    rw [hb] at hbody
    intro hrefused
    cases hrefused
    exact hbody rfl
  | ok p =>
    cases p with
    | next t => trivial
    | stop a => exact unrefused_ok a

end

section
variable {heap : Heap}

theorem unrefused_append (g : Growable) (b : Bytes) : Unrefused (g.append heap .source b) := by
  cases Growable.append_cases heap .source g b with
  | inl h =>
    obtain ⟨g', h, -⟩ := h
    rw [h]
    exact unrefused_ok g'
  | inr h =>
    rw [h.1]
    exact unrefused_badAlloc

theorem unrefused_release (g : Growable) : Unrefused (g.release heap) := by
  cases Growable.release_cases heap g with
  | inl h =>
    rw [h]
    exact unrefused_ok _
  | inr h =>
    rw [h.1]
    exact unrefused_badAlloc

theorem unrefused_resize {g : Growable} {n : Nat} (h : g.size ≤ n) :
    Unrefused (g.resize heap .source n) := by
  cases Growable.resize_cases heap .source h with
  | inl h =>
    obtain ⟨g', h, -⟩ := h
    rw [h]
    exact unrefused_ok g'
  | inr h =>
    rw [h.1]
    exact unrefused_badAlloc

theorem unrefused_zset {Z : Zstd} (l : List (CParameter × Int)) (ctx : Z.CCtx) :
    Unrefused (l.foldlM (zset Z) ctx) := by
  induction l generalizing ctx with
  | nil => exact unrefused_ok ctx
  | cons q l ih =>
    rw [List.foldlM_cons]
    exact (unrefused_zcheck _).bind ih

/-- Encoding a frame reports sizes, zstd's errors and the memory, not options. -/
theorem zstdEncode_unrefused (Z : Zstd) (passes : Nat) (base target : Bytes) (o : Options)
    (limits : Limits) : Unrefused (zstdEncode Z heap passes base target o limits) := by
  unfold zstdEncode
  refine (unrefused_require (by simp) _).bind fun _ => ?_
  cases Z.createCCtx with
  | none => exact unrefused_badAlloc
  | some ctx =>
    refine (unrefused_zset _ ctx).bind fun ctx => (unrefused_zcheck _).bind fun ctx =>
      (unrefused_zcheck _).bind fun ctx => unrefused_run (fun s => ?_) passes _
    unfold encodePass
    refine (unrefused_subspan _ _ _).bind fun chunk => (unrefused_zcheck _).bind fun remaining =>
      (unrefused_require (by simp) _).bind fun _ => (unrefused_append _ _).bind fun encoded => ?_
    exact unrefused_ok _

end

/-- An exception that is not of the bridge's own type, which no library can name. -/
def Thrown.Foreign : Thrown → Prop
  | .failure _ => False
  | _ => True

def StreamInput.Foreign (s : StreamInput) : Prop :=
  ∀ ⦃pos n t⦄, s.read pos n = .error t → t.Foreign

def Diffing.Foreign : Diffing → Prop
  | .finish => True
  | .throws t => t.Foreign
  | .readNew _ _ k => ∀ r, (k r).Foreign
  | .readOld _ _ k => ∀ r, (k r).Foreign
  | .write _ _ k => k.Foreign
  | .compress input _ _ k => input.Foreign ∧ ∀ n, (k n).Foreign

def HDiffPatch.Foreign (H : HDiffPatch) : Prop :=
  ∀ stepMemSize fastBlock matchScore,
    (H.createSingleCompressedDiffBlock stepMemSize fastBlock matchScore).Foreign

theorem Thrown.Foreign.unrefused {α : Type} {t : Thrown} (h : t.Foreign) :
    Unrefused (.error (.thrown t) : Cxx α) := by
  intro hrefused
  cases hrefused
  exact h

theorem Input_foreign (bytes : Bytes) : (Input bytes).Foreign := by
  intro pos n t h
  simp only [Input] at h
  split at h
  · cases h
  · cases h

namespace StreamInput.Foreign
variable {s : StreamInput} (hs : s.Foreign) (pos n : Nat)
include hs

theorem call_unrefused : Unrefused (s.call pos n) := by
  unfold StreamInput.call
  cases h : s.read pos n with
  | error t => exact (hs h).unrefused
  | ok r => exact unrefused_ok r

theorem fetch_unrefused : Unrefused (s.fetch pos n) := by
  unfold StreamInput.fetch
  cases h : s.read pos n with
  | error t => exact (hs h).unrefused
  | ok r =>
    cases r with
    | none => exact unrefused_fail (by simp)
    | some b => exact unrefused_ok b

end StreamInput.Foreign

section
variable {Z : Zstd} {heap : Heap}

theorem unrefused_allocate (n : Nat) : Unrefused (allocate heap n) := by
  unfold allocate
  split
  · exact unrefused_ok ()
  · exact unrefused_badAlloc

theorem unrefused_first (size n : Nat) : Unrefused (first size n) := by
  unfold first
  split
  · exact unrefused_ok ()
  · exact fun h => by cases h

theorem unrefused_write (out : Output) (pos : Nat) (b : Bytes) :
    Unrefused (out.write heap pos b) := by
  unfold Output.write
  refine (unrefused_require (by simp) _).bind fun _ => (unrefused_require (by simp) _).bind fun _ => ?_
  refine Unrefused.bind ?_ fun bytes => (unrefused_subspan _ _ _).bind fun _ => unrefused_ok _
  split
  · rename_i hgrow
    exact unrefused_resize (Nat.le_of_lt hgrow)
  · exact unrefused_ok _

theorem unrefused_writeWithin (offset limit : Nat) (out : Output) (pos : Nat) (b : Bytes) :
    Unrefused (writeWithin heap offset limit out pos b) := by
  unfold writeWithin
  split
  · exact unrefused_ok _
  · exact (unrefused_write _ _ _).bind fun _ => unrefused_ok _

theorem compress_unrefused {input : StreamInput} (hinput : input.Foreign) (offset limit : Nat)
    (passes : Nat) (o : Options) (out : Output) :
    Unrefused (compress Z (writeWithin heap offset limit) input heap passes o out) := by
  have hnext : ∀ read, Unrefused (nextChunk Z input read) := fun read =>
    (unrefused_first _ _).bind fun _ => hinput.fetch_unrefused _ _
  unfold compress
  cases Z.createCCtx with
  | none => exact unrefused_badAlloc
  | some ctx =>
    refine (unrefused_allocate _).bind fun _ => (unrefused_allocate _).bind fun _ =>
      (unrefused_zset _ ctx).bind fun ctx => (unrefused_zcheck _).bind fun ctx =>
      (hnext 0).bind fun chunk => unrefused_run (fun s => ?_) passes _
    rw [compressPass_eq]
    refine (unrefused_zcheck _).bind fun k => (unrefused_writeWithin _ _ _ _ _).bind fun answer => ?_
    cases answer with
    | none => exact unrefused_ok _
    | some out =>
      dsimp only
      unfold CompressState.settle
      by_cases hlast : s.read = input.size
      · simp only [if_pos hlast]
        split
        · exact unrefused_ok _
        · exact unrefused_ok _
      · simp only [if_neg hlast]
        split
        · exact unrefused_ok _
        · exact (hnext _).bind fun chunk => unrefused_ok _

theorem Diffing.run_unrefused {passes : Nat} {o : Options} {new old : StreamInput}
    (hnew : new.Foreign) (hold : old.Foreign) {c : Diffing} (hc : c.Foreign) (out : Output) :
    Unrefused (c.run Z heap passes o new old out) := by
  induction c generalizing out with
  | finish => exact unrefused_ok out
  | throws t => exact hc.unrefused
  | readNew pos n k ih => exact (hnew.call_unrefused pos n).bind fun r => ih r (hc r) out
  | readOld pos n k ih => exact (hold.call_unrefused pos n).bind fun r => ih r (hc r) out
  | write pos b k ih => exact (unrefused_write out pos b).bind fun out => ih hc out
  | compress input offset limit k ih =>
    exact (compress_unrefused hc.1 offset limit passes o out).bind fun x => ih x.1 (hc.2 x.1) x.2

theorem hdiffEncode_unrefused {H : HDiffPatch} (hH : H.Foreign) (passes : Nat)
    (base target : Bytes) (o : Options) :
    Unrefused (hdiffEncode Z H heap passes base target o) := by
  unfold hdiffEncode
  refine (unrefused_require (by simp) _).bind fun _ => ?_
  refine Unrefused.bind ?_ fun out => unrefused_ok out.bytes
  exact Diffing.run_unrefused (Input_foreign target) (Input_foreign base) (hH _ _ _) _

end
end Pyhdiff.Native
