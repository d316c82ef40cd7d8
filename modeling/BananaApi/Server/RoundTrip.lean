import BananaApi.Server.Consumption
import BananaApi.Server.HostileInput

/-!
# Round trip and truncation

What `Serialize` appended to one stream is read from another. The value comes back
exactly when no block of it was cut, and a stream that ends early always throws.
-/

namespace BananaApi.Server

/-- `Serialize(v)` is read back from every short stream, whatever follows it and whatever
the target held, exactly when every vector of a fundamental type in `v` fits an `int`. -/
theorem Ty.roundTrip_iff {a : Bool} {α : Type} (t : Ty (.object a) α) (ht : t.ChunksAdvance)
    (hc : t.CharStrings) {fuel : Nat} (hfuel : 2 ^ 31 ≤ fuel) {v : α} (hv : t.Small v)
    {b : List Byte} (hb : t.serialize (CDataStream.init []) v = .returned (CDataStream.init b))
    (hlen : b.length < 2 ^ 31) :
    (∀ s : CDataStream, s.WellFormed → s.vch.length < 2 ^ 31 → ∀ rest, s.unread = b ++ rest →
      ∀ prev, ∃ s', t.unserialize fuel s prev = .returned (v, s') ∧ s'.unread = rest) ↔
    t.BlocksFit v := by
  have hconsumes := t.unserialize_consumes hfuel ht hc v b hv (Ty.encoding_eq_of_serialize hb)
  constructor
  · intro h
    by_contra hnot
    have hw := CDataStream.wellFormed_init b
    obtain ⟨s', hs', _⟩ := h (CDataStream.init b) hw hlen [] (List.append_nil b).symm v
    have hthrew := (hconsumes v).overflows hnot (CDataStream.init b).queue
      (CDataStream.throws_init b) hlen (List.prefix_refl b)
    rw [← (t.unserialize_queue fuel hw hlen v).threw_iff, hs'] at hthrew
    exact Outcome.not_threw_returned _ hthrew
  · intro hfits s hw hs rest hu prev
    have hdecodes := (hconsumes prev).decodes hfits s.queue rest hu
    obtain ⟨⟨v', s'⟩, hs', hv', hrefines⟩ :=
      (t.unserialize_queue fuel hw hs prev).returned_right hdecodes
    have hv' : v' = v := hv'
    exact ⟨s', by rw [hs', hv'], hrefines.unread⟩

/-- A vector of strings with one string is short enough. -/
theorem roundTrip_iff_vector :
    (∀ s : CDataStream, s.WellFormed → s.vch.length < 2 ^ 31 → ∀ rest,
      s.unread = [1, 1, 65] ++ rest → ∀ prev, ∃ s',
        (Ty.vector (Ty.string 1) 32).unserialize (2 ^ 32) s prev = .returned ([[65]], s') ∧
          s'.unread = rest) ↔ (Ty.vector (Ty.string 1) 32).BlocksFit [[65]] :=
  Ty.roundTrip_iff (Ty.vector (Ty.string 1) 32) ⟨⟨by omega, by omega⟩, trivial⟩ rfl (by omega)
    ⟨by decide, by simp [Ty.Small]⟩ (by decide +kernel) (by decide)

/-- A vector of `2 ^ 29` integers of 8 bytes is written as its length alone, which is not
read back. -/
theorem roundTrip_of_long_vector :
    let t := Ty.fundamentals .uint64
    let v := List.replicate (2 ^ 29) (0 : Word Fundamental.uint64.size)
    let b : List Byte := [0xFE, 0, 0, 0, 0x20]
    t.ChunksAdvance ∧ t.CharStrings ∧ t.Small v ∧
      t.serialize (CDataStream.init []) v = .returned (CDataStream.init b) ∧
      ¬ ∃ s', t.unserialize (2 ^ 32) (CDataStream.init b) [] = .returned (v, s') ∧
        s'.unread = [] := by
  intro t v b
  have hlen : v.length = 2 ^ 29 := List.length_replicate
  have hsmall : t.Small v := by
    change v.length < 2 ^ 31
    omega
  have himage : (imageOf Fundamental.uint64.size v).length = 2 ^ 32 := by
    rw [length_imageOf, hlen]
    rfl
  have hfront : lengthBytes v.length = b := by
    rw [hlen]
    decide +kernel
  have henc : t.encoding v = some b := by
    apply encodeBlock_eq_some.mpr
    refine ⟨[], ?_, by rw [hfront, List.append_nil]⟩
    rw [encodeMemory, himage]
    rfl
  refine ⟨trivial, trivial, hsmall, ?_, ?_⟩
  · rw [t.serialize_stream, henc]
    rfl
  · rintro ⟨s', hs', _⟩
    have hfuel : 2 ^ 31 ≤ 2 ^ 32 := by omega
    have hconsumes := t.unserialize_consumes hfuel trivial trivial v b hsmall henc []
    have hnot : ¬ t.BlocksFit v := by
      change ¬ v.length * 8 < 2 ^ 31
      omega
    have hthrew := hconsumes.overflows hnot (CDataStream.init b).queue
      (CDataStream.throws_init b) (by decide) (List.prefix_refl b)
    have hqueue := t.unserialize_queue (2 ^ 32) (CDataStream.wellFormed_init b) (by decide) []
    rw [← hqueue.threw_iff, hs'] at hthrew
    exact Outcome.not_threw_returned _ hthrew

/-- A proper prefix of `Serialize(v)` throws, also where a block of `v` was cut. -/
theorem Ty.unserialize_truncated {a : Bool} {α : Type} (t : Ty (.object a) α)
    (ht : t.ChunksAdvance) (hc : t.CharStrings) {fuel : Nat} (hfuel : 2 ^ 31 ≤ fuel) {v : α}
    (hv : t.Small v) {b : List Byte}
    (hb : t.serialize (CDataStream.init []) v = .returned (CDataStream.init b))
    {p : List Byte} (hp : p <+: b) (hne : p ≠ b) {s : CDataStream} (hw : s.WellFormed)
    (hs : s.vch.length < 2 ^ 31) (hm : s.exceptmask = CDataStream.defaultMask)
    (hu : s.unread = p) (prev : α) : (t.unserialize fuel s prev).Threw := by
  have hconsumes := t.unserialize_consumes hfuel ht hc v b hv (Ty.encoding_eq_of_serialize hb) prev
  have hshort : s.queue.unread.length < 2 ^ 31 := by
    change s.unread.length < 2 ^ 31
    rw [s.length_unread, CDataStream.size]
    omega
  have hthrew := hconsumes.truncated s.queue (CDataStream.throws_of_defaultMask hm) hshort
    (by change s.unread <+: b; rwa [hu]) (fun heq => hne (hu.symm.trans heq))
  exact (t.unserialize_queue fuel hw hs prev).threw_iff.mpr hthrew

/-- The length and the first of two elements are not enough. -/
theorem unserialize_truncated_vector :
    ((Ty.vector (Ty.string 1) 32).unserialize (2 ^ 32) (CDataStream.init [2, 1, 65]) []).Threw :=
  Ty.unserialize_truncated (Ty.vector (Ty.string 1) 32) ⟨⟨by decide, by decide⟩, trivial⟩ rfl
    (v := [[65], [66]]) (b := [2, 1, 65, 1, 66]) (p := [2, 1, 65]) (by decide)
    ⟨by decide, by simp [Ty.Small]⟩ (by decide +kernel) (by decide) (by decide)
    (CDataStream.wellFormed_init _) (by decide) rfl rfl []

end BananaApi.Server
