import BananaApi.Server.Grammar
import BananaApi.Server.Simulation

/-!
# Hostile input

What a peer can make the reader of a type do. A stream with a short buffer never
runs outside of it, so the reader comes back exactly when no trap of the type's
grammar lies at the front of the unread bytes.
-/

namespace BananaApi.Server

namespace CDataStream

/-- The exception mask of a fresh stream. -/
def defaultMask : BitVec 16 := badbit ||| failbit

/-- With the mask of the constructor a stream throws on errors. -/
theorem throws_of_defaultMask {s : CDataStream} (h : s.exceptmask = defaultMask) : s.Throws := by
  rw [Throws, h]
  decide

/-- The queue throws where the stream does. -/
theorem throws_queue {s : CDataStream} (h : s.Throws) : s.queue.Throws := h

end CDataStream

/-- On a short buffer a type is read exactly as from the queue of unread bytes. -/
theorem Ty.unserialize_queue {κ : Kind} {α : Type} (fuel : Nat) (t : Ty κ α) {s : CDataStream}
    (hw : s.WellFormed) (hs : s.vch.length < 2 ^ 31) (prev : α) :
    Outcome.Rel False (SameValue (Refines False)) (SameValue (Refines False))
      (t.unserialize fuel s prev) (t.unserialize fuel s.queue prev) :=
  t.unserialize_rel (refines_read False) fuel s s.queue prev
    (CDataStream.refines_queue hw (Or.inl hs))

/-- The reader of a type returns or throws exactly when the unread bytes do not
start with a trap. -/
theorem Ty.unserialize_cameBack_iff {a : Bool} {α : Type} (t : Ty (.object a) α) {fuel : Nat}
    (hfuel : 2 ^ 32 ≤ fuel) {s : CDataStream} (hw : s.WellFormed) (hs : s.vch.length < 2 ^ 31)
    (hm : s.exceptmask = CDataStream.defaultMask) (prev : α) :
    (t.unserialize fuel s prev).CameBack ↔ ¬ HasPrefixIn t.trap s.unread := by
  have hq : s.queue.Throws := CDataStream.throws_of_defaultMask hm
  have hrec := t.unserialize_recognizes hfuel prev
  rw [(t.unserialize_queue fuel hw hs prev).cameBack_iff, Outcome.cameBack_iff,
    hrec.traps s.queue hq]
  exact and_iff_left (hrec.bounded s.queue hq)

/-- A one-character string comes back, and its bytes hold no trap. -/
theorem unserialize_cameBack_iff_string :
    ((Ty.string 1).unserialize (2 ^ 32) (CDataStream.init [1, 65]) []).CameBack ↔
      ¬ HasPrefixIn (Ty.string 1).trap (CDataStream.init [1, 65]).unread :=
  Ty.unserialize_cameBack_iff (Ty.string 1) le_rfl (CDataStream.wellFormed_init _)
    (by decide) rfl []

/-- A string that announces `2 ^ 31` characters fails the assertion of `read`. -/
theorem string_read_of_negative_size :
    let s := CDataStream.init [0xFE, 0, 0, 0, 0x80]
    s.WellFormed ∧ s.vch.length < 2 ^ 31 ∧ s.exceptmask = CDataStream.defaultMask ∧
      (Ty.string 1).unserialize (2 ^ 32) s [] = .aborted ∧
      ¬ ((Ty.string 1).unserialize (2 ^ 32) s []).CameBack := by
  intro s
  have haborted : (Ty.string 1).unserialize (2 ^ 32) s [] = .aborted := by decide +kernel
  refine ⟨CDataStream.wellFormed_init _, by decide, rfl, haborted, ?_⟩
  rw [haborted]
  exact Outcome.not_cameBack_aborted

end BananaApi.Server
