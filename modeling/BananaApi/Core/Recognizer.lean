import BananaApi.Core.Outcome
import Mathlib.Computability.Language
import Mathlib.Order.CompletePartialOrder

/-!
# Recognizers of prefixes

A reader takes an encoding off the front of a store. It recognizes a language of
complete encodings and a language of traps: it returns with `rest` unread exactly
when the unread input is an encoding followed by `rest`, and it gets stuck exactly
when a trap is a prefix of the unread input. Both languages of a sequence of
readers are computed from those of its parts, so the behaviour of a composite
reader on arbitrary input is read off its grammar.
-/

namespace BananaApi

universe u v

/-- The input has a prefix in the language. -/
def HasPrefixIn {β : Type u} (L : Language β) (bs : List β) : Prop := ∃ e ∈ L, e <+: bs

section Prefixes

variable {β : Type u} {L M : Language β} {bs : List β}

/-- No word is in the empty language. -/
@[simp] theorem not_hasPrefixIn_zero : ¬ HasPrefixIn (0 : Language β) bs :=
  fun ⟨_, h, _⟩ => Language.notMem_zero _ h

/-- A prefix is in one language or the other. -/
theorem hasPrefixIn_add : HasPrefixIn (L + M) bs ↔ HasPrefixIn L bs ∨ HasPrefixIn M bs := by
  simp only [HasPrefixIn, Language.mem_add, or_and_right, exists_or]

/-- A prefix is in one language of the family. -/
theorem hasPrefixIn_iSup {ι : Type v} {L : ι → Language β} :
    HasPrefixIn (⨆ i, L i) bs ↔ ∃ i, HasPrefixIn (L i) bs := by
  simp only [HasPrefixIn, Language.mem_iSup]
  constructor
  · rintro ⟨e, ⟨i, hi⟩, hp⟩
    exact ⟨i, e, hi, hp⟩
  · rintro ⟨i, e, hi, hp⟩
    exact ⟨e, ⟨i, hi⟩, hp⟩

/-- A prefix of a product is a prefix in the first factor and, behind it, one in the second. -/
theorem hasPrefixIn_mul :
    HasPrefixIn (L * M) bs ↔ ∃ e ∈ L, ∃ r, bs = e ++ r ∧ HasPrefixIn M r := by
  constructor
  · rintro ⟨x, hx, t, rfl⟩
    obtain ⟨e, he, e', he', rfl⟩ := Language.mem_mul.mp hx
    exact ⟨e, he, e' ++ t, by simp, e', he', List.prefix_append _ _⟩
  · rintro ⟨e, he, r, rfl, e', he', t, rfl⟩
    exact ⟨e ++ e', Language.append_mem_mul he he', t, by simp⟩

/-- The traps on the way through `k` encodings in a row. -/
def repeatTrap (L T : Language β) : Nat → Language β
  | 0 => 0
  | k + 1 => T + L * repeatTrap L T k

/-- A trap is met in the first rounds, or behind them in the others. -/
theorem repeatTrap_add (T : Language β) (j k : Nat) :
    repeatTrap L T (j + k) = repeatTrap L T j + L ^ j * repeatTrap L T k := by
  induction j with
  | zero => rw [Nat.zero_add, repeatTrap, pow_zero, one_mul, zero_add]
  | succ j ih =>
    rw [Nat.succ_add, repeatTrap, repeatTrap, ih, mul_add, pow_succ', mul_assoc, add_assoc]

end Prefixes

variable {σ β : Type u} {ε α γ : Type u}

/-- The reader takes exactly the encodings of `L` off the input and returns the
value they stand for; it always comes back. -/
structure Reads (I : σ → Prop) (unread : σ → List β) (f : σ → Outcome ε (α × σ))
    (P : α → Language β) : Prop where
  keeps : ∀ s, I s → ∀ a s', f s = .returned (a, s') → I s'
  accepts : ∀ s, I s → ∀ a r, (∃ s', f s = .returned (a, s') ∧ unread s' = r) ↔
    ∃ e ∈ P a, unread s = e ++ r
  back : ∀ s, I s → (f s).CameBack

/-- The reader returns exactly behind the encodings of `L` and gets stuck exactly
behind the traps of `T`, whatever value it returns. -/
structure Recognizes (I : σ → Prop) (unread : σ → List β) (f : σ → Outcome ε (α × σ))
    (L T : Language β) : Prop where
  keeps : ∀ s, I s → ∀ a s', f s = .returned (a, s') → I s'
  accepts : ∀ s, I s → ∀ r, (∃ a s', f s = .returned (a, s') ∧ unread s' = r) ↔
    ∃ e ∈ L, unread s = e ++ r
  traps : ∀ s, I s → ((f s).Stuck ↔ HasPrefixIn T (unread s))
  bounded : ∀ s, I s → f s ≠ .overran

variable {I : σ → Prop} {unread : σ → List β}

/-- What is thrown does not matter to what is read. -/
theorem Reads.mapThrow {ε' : Type u} {f : σ → Outcome ε (α × σ)} {P : α → Language β} (g : ε → ε')
    (h : Reads I unread f P) : Reads I unread (fun s => (f s).mapThrow g) P where
  keeps s hs a s' hf := h.keeps s hs a s' (Outcome.mapThrow_eq_returned.mp hf)
  accepts s hs a r := by simpa only [Outcome.mapThrow_eq_returned] using h.accepts s hs a r
  back s hs := Outcome.mapThrow_cameBack.mpr (h.back s hs)

namespace Recognizes

/-- Returning at once recognizes the empty encoding. -/
theorem pure (a : α) :
    Recognizes I unread (fun s => (.returned (a, s) : Outcome ε (α × σ))) 1 0 where
  keeps := by
    rintro s hs b s' h
    cases h
    exact hs
  accepts := by
    intro s _ r
    simp [eq_comm]
  traps := by
    intro s _
    simp
  bounded s _ := by simp

/-- A reader that is stuck at once recognizes nothing and is a trap in front of every input. -/
theorem stuck {o : Outcome ε (α × σ)} (ho : o.Stuck) : Recognizes I unread (fun _ => o) 0 1 where
  keeps := by
    rintro s _ a s' rfl
    exact absurd ho (Outcome.not_stuck_returned _)
  accepts := by
    intro s _ r
    refine iff_of_false ?_ ?_
    · rintro ⟨a, s', rfl, _⟩
      exact Outcome.not_stuck_returned _ ho
    · rintro ⟨e, he, _⟩
      exact Language.notMem_zero e he
  traps _ _ := iff_of_true ho ⟨[], rfl, List.nil_prefix⟩
  bounded := by
    rintro s _ rfl
    exact Outcome.not_stuck_overran ho

/-- What an exception leaves behind does not matter for recognition. -/
theorem mapThrow {ε' : Type u} {f : σ → Outcome ε (α × σ)} {L T : Language β} (g : ε → ε')
    (h : Recognizes I unread f L T) :
    Recognizes I unread (fun s => (f s).mapThrow g) L T where
  keeps s hs a s' hf := h.keeps s hs a s' (Outcome.mapThrow_eq_returned.mp hf)
  accepts s hs r := by simpa only [Outcome.mapThrow_eq_returned] using h.accepts s hs r
  traps s hs := by simpa only [Outcome.mapThrow_stuck] using h.traps s hs
  bounded s hs := by simpa using h.bounded s hs

/-- Two readers in a row recognize the product of their languages. -/
theorem bind {f : σ → Outcome ε (α × σ)} {g : α → σ → Outcome ε (γ × σ)} {L T M U : Language β}
    (hf : Recognizes I unread f L T) (hg : ∀ a, Recognizes I unread (g a) M U) :
    Recognizes I unread (fun s => f s >>= fun p => g p.1 p.2) (L * M) (T + L * U) where
  keeps := by
    intro s hs c s'' h
    obtain ⟨⟨a, s'⟩, h₁, h₂⟩ := Outcome.bind_eq_returned.mp h
    exact (hg a).keeps s' (hf.keeps s hs a s' h₁) c s'' h₂
  accepts := by
    intro s hs r
    constructor
    · rintro ⟨c, s'', h, hr⟩
      obtain ⟨⟨a, s'⟩, h₁, h₂⟩ := Outcome.bind_eq_returned.mp h
      obtain ⟨e, he, hu⟩ := (hf.accepts s hs (unread s')).mp ⟨a, s', h₁, rfl⟩
      obtain ⟨e', he', hu'⟩ := ((hg a).accepts s' (hf.keeps s hs a s' h₁) r).mp ⟨c, s'', h₂, hr⟩
      exact ⟨e ++ e', Language.append_mem_mul he he', by rw [hu, hu', List.append_assoc]⟩
    · rintro ⟨x, hx, hu⟩
      obtain ⟨e, he, e', he', rfl⟩ := Language.mem_mul.mp hx
      obtain ⟨a, s', h₁, hu₁⟩ := (hf.accepts s hs (e' ++ r)).mpr
        ⟨e, he, by rw [hu, List.append_assoc]⟩
      obtain ⟨c, s'', h₂, hr⟩ := ((hg a).accepts s' (hf.keeps s hs a s' h₁) r).mpr ⟨e', he', hu₁⟩
      exact ⟨c, s'', Outcome.bind_eq_returned.mpr ⟨(a, s'), h₁, h₂⟩, hr⟩
  traps := by
    intro s hs
    rw [Outcome.bind_stuck, hasPrefixIn_add, hf.traps s hs, hasPrefixIn_mul]
    refine or_congr_right ⟨?_, ?_⟩
    · rintro ⟨⟨a, s'⟩, h₁, h₂⟩
      obtain ⟨e, he, hu⟩ := (hf.accepts s hs (unread s')).mp ⟨a, s', h₁, rfl⟩
      exact ⟨e, he, _, hu, ((hg a).traps s' (hf.keeps s hs a s' h₁)).mp h₂⟩
    · rintro ⟨e, he, r, hu, hr⟩
      obtain ⟨a, s', h₁, rfl⟩ := (hf.accepts s hs r).mpr ⟨e, he, hu⟩
      exact ⟨(a, s'), h₁, ((hg a).traps s' (hf.keeps s hs a s' h₁)).mpr hr⟩
  bounded := by
    intro s hs
    apply Outcome.bind_ne_overran (hf.bounded s hs)
    rintro ⟨a, s'⟩ h
    exact (hg a).bounded s' (hf.keeps s hs a s' h)

/-- A value read first may decide what is recognized next. -/
theorem bind_value {f : σ → Outcome ε (α × σ)} {g : α → σ → Outcome ε (γ × σ)}
    {P M U : α → Language β} (hf : Reads I unread f P)
    (hg : ∀ a, Recognizes I unread (g a) (M a) (U a)) :
    Recognizes I unread (fun s => f s >>= fun p => g p.1 p.2)
      (⨆ a, P a * M a) (⨆ a, P a * U a) where
  keeps := by
    intro s hs c s'' h
    obtain ⟨⟨a, s'⟩, h₁, h₂⟩ := Outcome.bind_eq_returned.mp h
    exact (hg a).keeps s' (hf.keeps s hs a s' h₁) c s'' h₂
  accepts := by
    intro s hs r
    simp only [Language.mem_iSup]
    constructor
    · rintro ⟨c, s'', h, hr⟩
      obtain ⟨⟨a, s'⟩, h₁, h₂⟩ := Outcome.bind_eq_returned.mp h
      obtain ⟨e, he, hu⟩ := (hf.accepts s hs a (unread s')).mp ⟨s', h₁, rfl⟩
      obtain ⟨e', he', hu'⟩ := ((hg a).accepts s' (hf.keeps s hs a s' h₁) r).mp ⟨c, s'', h₂, hr⟩
      exact ⟨e ++ e', ⟨a, Language.append_mem_mul he he'⟩, by rw [hu, hu', List.append_assoc]⟩
    · rintro ⟨x, ⟨a, hx⟩, hu⟩
      obtain ⟨e, he, e', he', rfl⟩ := Language.mem_mul.mp hx
      obtain ⟨s', h₁, hu₁⟩ := (hf.accepts s hs a (e' ++ r)).mpr
        ⟨e, he, by rw [hu, List.append_assoc]⟩
      obtain ⟨c, s'', h₂, hr⟩ := ((hg a).accepts s' (hf.keeps s hs a s' h₁) r).mpr ⟨e', he', hu₁⟩
      exact ⟨c, s'', Outcome.bind_eq_returned.mpr ⟨(a, s'), h₁, h₂⟩, hr⟩
  traps := by
    intro s hs
    rw [Outcome.bind_stuck, hasPrefixIn_iSup]
    constructor
    · rintro (h | ⟨⟨a, s'⟩, h₁, h₂⟩)
      · exact absurd h (Outcome.cameBack_iff.mp (hf.back s hs)).1
      · obtain ⟨e, he, hu⟩ := (hf.accepts s hs a (unread s')).mp ⟨s', h₁, rfl⟩
        exact ⟨a, hasPrefixIn_mul.mpr
          ⟨e, he, _, hu, ((hg a).traps s' (hf.keeps s hs a s' h₁)).mp h₂⟩⟩
    · rintro ⟨a, h⟩
      obtain ⟨e, he, r, hu, hr⟩ := hasPrefixIn_mul.mp h
      obtain ⟨s', h₁, rfl⟩ := (hf.accepts s hs a r).mpr ⟨e, he, hu⟩
      exact Or.inr ⟨(a, s'), h₁, ((hg a).traps s' (hf.keeps s hs a s' h₁)).mpr hr⟩
  bounded := by
    intro s hs
    apply Outcome.bind_ne_overran (Outcome.cameBack_iff.mp (hf.back s hs)).2
    rintro ⟨a, s'⟩ h
    exact (hg a).bounded s' (hf.keeps s hs a s' h)

end Recognizes

end BananaApi
