import BananaApi.Core.ByteStream
import Mathlib.Computability.Language
import Mathlib.Order.CompletePartialOrder

/-!
# Recorded runs

A stream that keeps, next to its own state, every byte its reads delivered. A program
runs on it as on the stream itself, so what a run took off the stream is read off the
record, also where the state of the stream does not show it.
-/

namespace BananaApi

/-- A stream and the bytes its reads delivered. -/
structure Recorded (σ : Type) where
  stream : σ
  delivered : List Byte
  deriving DecidableEq

namespace Recorded

variable {σ : Type} [ByteStream σ]

/-- Read from the stream and record what it delivers. -/
def read (r : Recorded σ) (n : Int) : Outcome (Recorded σ) (List Byte × Recorded σ) := do
  let (bs, s) ← (ByteStream.read r.stream n).mapThrow fun s => ⟨s, r.delivered⟩
  .returned (bs, ⟨s, r.delivered ++ bs⟩)

/-- Writing is not recorded. -/
def write (r : Recorded σ) (bs : List Byte) (n : Int) : Outcome (Recorded σ) (Recorded σ) := do
  let s ← (ByteStream.write r.stream bs n).mapThrow fun s => ⟨s, r.delivered⟩
  .returned ⟨s, r.delivered⟩

instance : ByteStream (Recorded σ) where
  read := read
  write := write

/-- A stream nothing was read from yet. -/
def start (s : σ) : Recorded σ := ⟨s, []⟩

/-- The record does not change what is read. -/
theorem readSimulation : ReadSimulation False fun (r : Recorded σ) s => r.stream = s := by
  rintro r s n - rfl
  change Outcome.Rel False _ _ (r.read n) (ByteStream.read r.stream n)
  unfold read
  cases ByteStream.read r.stream n with
  | returned p => exact .returned ⟨rfl, rfl⟩
  | threw what e => exact .threw rfl
  | aborted => exact .aborted
  | overran => exact .overran
  | unfinished => exact .unfinished

end Recorded

section Records

variable {σ : Type} {I : σ → Prop} {ε ε' α γ : Type}

/-- A read that returns delivers as many bytes as it was asked for. -/
def ExactReads [ByteStream σ] (I : σ → Prop) : Prop :=
  ∀ s n bs s', I s → ByteStream.read s n = .returned (bs, s') → I s' ∧ (bs.length : Int) = n

/-- When the reader returns `a`, it has taken a member of `P a` off the stream. -/
def Records (I : σ → Prop) (f : Recorded σ → Outcome ε (α × Recorded σ))
    (P : α → Language Byte) : Prop :=
  ∀ r a r', I r.stream → f r = .returned (a, r') →
    I r'.stream ∧ ∃ e ∈ P a, r'.delivered = r.delivered ++ e

namespace Records

/-- The record can be described more loosely. -/
theorem mono {f : Recorded σ → Outcome ε (α × Recorded σ)} {P Q : α → Language Byte}
    (h : Records I f P) (hle : ∀ a, P a ≤ Q a) : Records I f Q := by
  intro r a r' hr hf
  obtain ⟨hr', e, he, hd⟩ := h r a r' hr hf
  exact ⟨hr', e, hle a he, hd⟩

theorem returned (a : α) :
    Records I (fun r => (.returned (a, r) : Outcome ε (α × Recorded σ))) fun _ => 1 := by
  intro r b r' hr h
  cases h
  exact ⟨hr, [], rfl, (List.append_nil _).symm⟩

/-- A reader that never returns takes nothing in particular off the stream. -/
theorem unfinished :
    Records I (fun _ => (.unfinished : Outcome ε (α × Recorded σ))) fun _ => 0 :=
  fun _ _ _ _ h => nomatch h

theorem mapThrow {f : Recorded σ → Outcome ε (α × Recorded σ)} {P : α → Language Byte}
    (g : ε → ε') (h : Records I f P) : Records I (fun r => (f r).mapThrow g) P :=
  fun r a r' hr hf => h r a r' hr (Outcome.mapThrow_eq_returned.mp hf)

/-- Two readers in a row take what the first takes, and behind it what the second takes. -/
theorem bind {f : Recorded σ → Outcome ε (α × Recorded σ)}
    {g : α → Recorded σ → Outcome ε (γ × Recorded σ)} {P : α → Language Byte}
    {Q : α → Language Byte} (hf : Records I f P) (hg : ∀ a, Records I (g a) fun _ => Q a) :
    Records I (fun r => f r >>= fun p => g p.1 p.2) fun _ => ⨆ a, P a * Q a := by
  intro r c r'' hr h
  obtain ⟨⟨a, r'⟩, h₁, h₂⟩ := Outcome.bind_eq_returned.mp h
  obtain ⟨hr', e, he, hd⟩ := hf r a r' hr h₁
  obtain ⟨hr'', e', he', hd'⟩ := hg a r' c r'' hr' h₂
  refine ⟨hr'', e ++ e', ?_, by rw [hd', hd, List.append_assoc]⟩
  exact Language.mem_iSup.mpr ⟨a, Language.append_mem_mul he he'⟩

/-- A read takes as many bytes as it was asked for. -/
theorem read [ByteStream σ] (hI : ExactReads I) (n : Int) :
    Records I (fun r => ByteStream.read r n) fun bs => {e | (e.length : Int) = n ∧ e = bs} := by
  intro r bs r' hr h
  obtain ⟨⟨bs', s'⟩, hread, hr'⟩ := Outcome.bind_eq_returned.mp h
  cases hr'
  obtain ⟨hs', hlen⟩ := hI r.stream n bs s' hr (Outcome.mapThrow_eq_returned.mp hread)
  exact ⟨hs', bs, ⟨hlen, rfl⟩, rfl⟩

end Records

end Records

end BananaApi
