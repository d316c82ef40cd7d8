import BananaApi.Client.TcpAdapter
import Mathlib.Data.List.Basic

/-!
# A round alone and in the loop

A round of the receiving loop uses the bytes it reads and the fillers. Whatever follows
these bytes in the stream stays there, and whatever was in the queue stays in front of the
message of the round.
-/

namespace BananaApi.Client.Receiver

/-- The receiver with more bytes behind its stream and some messages in front of its queue. -/
def beside (queue : List NetworkMessage) (more : List Byte) (r : Receiver) : Receiver :=
  { r with
    networkStream := r.networkStream ++ more
    receivingQueue := queue ++ r.receivingQueue }

/-- The same for the receiver a call leaves behind. -/
def resultBeside {α : Type} (queue : List NetworkMessage) (more : List Byte) :
    EStateM.Result Fault Receiver α → EStateM.Result Fault Receiver α
  | .ok a r => .ok a (r.beside queue more)
  | .error e r => .error e (r.beside queue more)

/-- A call does the same whatever is behind the stream and in front of the queue. -/
def Framed {α : Type} (x : Run Receiver α) (r : Receiver) : Prop :=
  ∀ queue more, x (r.beside queue more) = resultBeside queue more (x r)

section Rules

variable {α β : Type} {r : Receiver}

/-- What both parts of a sequence leave alone, the sequence leaves alone. -/
theorem Framed.bind {x : Run Receiver α} {f : α → Run Receiver β} (hx : Framed x r)
    (hf : ∀ a r', x r = .ok a r' → Framed (f a) r') : Framed (x >>= f) r := by
  intro queue more
  have hframe := hx queue more
  cases h : x r with
  | ok a r' =>
    rw [h] at hframe
    rw [run_bind h, run_bind hframe]
    exact hf a r' h queue more
  | error e r' =>
    rw [h] at hframe
    rw [run_bind_error h, run_bind_error hframe]
    rfl

/-- A computation without the receiver leaves it alone. -/
theorem framed_liftExcept (a : Except Fault α) (r : Receiver) : Framed (liftExcept a) r := by
  cases a <;> exact fun _ _ => rfl

variable (isLittleEndian : Bool)

/-- Filling touches the fillers only. -/
theorem framed_fillAt (i : Nat) (b : Byte) (r : Receiver) :
    Framed (fillAt isLittleEndian i b) r := by
  intro queue more
  have hsame : (r.beside queue more).messageBytesFillers[i]? = r.messageBytesFillers[i]? := rfl
  cases hi : r.messageBytesFillers[i]? with
  | none =>
    simp only [fillAt, hsame, hi]
    rfl
  | some f =>
    cases hf : f.fill isLittleEndian b with
    | ok a f' =>
      rw [fillAt_ok isLittleEndian hi hf, fillAt_ok isLittleEndian (hsame.trans hi) hf]
      rfl
    | error e f' =>
      rw [fillAt_error isLittleEndian hi hf, fillAt_error isLittleEndian (hsame.trans hi) hf]
      rfl

/-- Reading the bytes of an event type leaves those behind them. -/
theorem onStream_eventType {b₀ b₁ : Byte} (more : List Byte)
    (h : r.networkStream = [b₀, b₁] ++ more) :
    onStream (BytesUtils.readUInt16 isLittleEndian) r =
      .ok (ofLeBytes 2 [b₁, b₀]) { r with networkStream := more } := by
  have hlen : [b₀, b₁].length = 2 := rfl
  have hword := BytesUtils.readWord_append isLittleEndian two_pos hlen more
  simp only [onStream, BytesUtils.readUInt16, h, hword]
  rfl

/-- A byte is read from the front of the stream. -/
theorem onStream_byte {b : Byte} (more : List Byte) (h : r.networkStream = [b] ++ more) :
    onStream BytesUtils.readByte r = .ok b { r with networkStream := more } := by
  simp only [onStream, h]
  rfl

/-- The two bytes of an event type are read without a look at what follows. -/
theorem framed_eventType {b₀ b₁ : Byte} (h : r.networkStream = [b₀, b₁]) :
    Framed (onStream (BytesUtils.readUInt16 isLittleEndian)) r := by
  intro queue more
  rw [onStream_eventType isLittleEndian [] h,
    onStream_eventType (r := r.beside queue more) isLittleEndian more (by rw [beside, h])]
  rfl

/-- A byte is read without a look at what follows. -/
theorem framed_byte {b : Byte} (h : r.networkStream = [b]) :
    Framed (onStream BytesUtils.readByte) r := by
  intro queue more
  rw [onStream_byte [] h, onStream_byte (r := r.beside queue more) more (by rw [beside, h])]
  rfl

/-- Selecting a filler reads an event type and nothing behind it. -/
theorem framed_selectFiller {b₀ b₁ : Byte} (h : r.networkStream = [b₀, b₁]) :
    Framed (selectFiller isLittleEndian) r := by
  apply (framed_eventType isLittleEndian h).bind
  intro eventType r' _ queue more
  have hsame : (r'.beside queue more).messageBytesFillers = r'.messageBytesFillers := rfl
  rw [run_get_bind, run_get_bind, hsame]
  cases findFiller r'.messageBytesFillers eventType with
  | none => rfl
  | some i =>
    have hfills (b b' : Byte) : Framed (do
        let _ ← fillAt isLittleEndian i b
        let _ ← fillAt isLittleEndian i b'
        pure ()) { r' with filler := some i } :=
      (framed_fillAt isLittleEndian i b _).bind fun _ r'' _ =>
        (framed_fillAt isLittleEndian i b' r'').bind fun _ _ _ _ _ => rfl
    exact hfills _ _ queue more

/-- Filling reads one byte and nothing behind it. -/
theorem framed_fillOne (i : Nat) {b : Byte} (h : r.networkStream = [b]) :
    Framed (fillOne isLittleEndian i) r := by
  apply (framed_byte h).bind
  intro b r' _
  apply (framed_fillAt isLittleEndian i b r').bind
  intro buffer r'' _
  cases buffer with
  | none => exact fun _ _ => rfl
  | some buffer =>
    apply (framed_liftExcept _ r'').bind
    intro message r''' _ queue more
    change EStateM.Result.ok () _ = .ok () _
    simp only [beside, List.append_assoc]

end Rules

/-- The bytes a round reads. -/
def bytesToRead (filler : Option Nat) : Nat := if filler = none then 2 else 1

variable (isLittleEndian : Bool) {r : Receiver}

/-- A round over exactly the bytes it reads does the same in front of other bytes. -/
theorem framed_step (h : r.networkStream.length = bytesToRead r.filler) :
    Framed (step isLittleEndian) r := by
  intro queue more
  cases hfiller : r.filler with
  | none =>
    rw [hfiller] at h
    obtain ⟨b₀, b₁, hbytes⟩ := List.length_eq_two.mp h
    rw [step_of_none isLittleEndian hfiller,
      step_of_none (r := r.beside queue more) isLittleEndian hfiller]
    exact framed_selectFiller isLittleEndian hbytes queue more
  | some i =>
    rw [hfiller] at h
    obtain ⟨b, hbytes⟩ := List.length_eq_one_iff.mp h
    rw [step_of_some isLittleEndian hfiller,
      step_of_some (r := r.beside queue more) isLittleEndian hfiller]
    exact framed_fillOne isLittleEndian i hbytes queue more

/-! ## What a round leaves behind -/

/-- Filling changes nothing but the fillers. -/
theorem fillAt_frame {i : Nat} {b : Byte} {a : Option (List Byte)} {r' : Receiver}
    (h : fillAt isLittleEndian i b r = .ok a r') :
    ∃ fillers, r' = { r with messageBytesFillers := fillers } := by
  unfold fillAt at h
  split at h
  · cases h
  · split at h
    · cases h
      exact ⟨_, rfl⟩
    · cases h

/-- A round uses up its bytes and enqueues one message at most. -/
theorem step_frame {r' : Receiver} (hlen : r.networkStream.length = bytesToRead r.filler)
    (h : step isLittleEndian r = .ok () r') :
    ∃ (message : Option NetworkMessage) (fillers : List MessageBytesFiller) (filler : Option Nat),
      r' = { r with
        networkStream := []
        receivingQueue := r.receivingQueue ++ message.toList
        messageBytesFillers := fillers
        filler := filler } := by
  cases hfiller : r.filler with
  | none =>
    rw [hfiller] at hlen
    obtain ⟨b₀, b₁, hbytes⟩ := List.length_eq_two.mp hlen
    rw [step_of_none isLittleEndian hfiller, selectFiller,
      run_bind (onStream_eventType isLittleEndian [] hbytes), run_get_bind] at h
    dsimp only at h
    cases hfind : findFiller r.messageBytesFillers (ofLeBytes 2 [b₁, b₀]) with
    | none =>
      rw [hfind] at h
      cases h
    | some i =>
      rw [hfind] at h
      dsimp only at h
      rw [run_modify_bind] at h
      obtain ⟨_, r₁, h₁, h⟩ := run_bind_eq_ok h
      obtain ⟨_, r₂, h₂, h⟩ := run_bind_eq_ok h
      obtain ⟨_, rfl⟩ := fillAt_frame isLittleEndian h₁
      obtain ⟨_, rfl⟩ := fillAt_frame isLittleEndian h₂
      cases h
      exact ⟨none, _, _, by rw [Option.toList_none, List.append_nil]⟩
  | some i =>
    rw [hfiller] at hlen
    obtain ⟨b, hbytes⟩ := List.length_eq_one_iff.mp hlen
    rw [step_of_some isLittleEndian hfiller, fillOne,
      run_bind (onStream_byte [] hbytes)] at h
    obtain ⟨buffer, r₁, h₁, h⟩ := run_bind_eq_ok h
    obtain ⟨_, rfl⟩ := fillAt_frame isLittleEndian h₁
    cases buffer with
    | none =>
      cases h
      exact ⟨none, _, _, by rw [Option.toList_none, List.append_nil, hfiller]⟩
    | some buffer =>
      obtain ⟨message, r₂, h₂, h⟩ := run_bind_eq_ok h
      cases hmessage : deserializeResponse isLittleEndian buffer with
      | error e =>
        rw [hmessage] at h₂
        cases h₂
      | ok response =>
        rw [hmessage] at h₂
        cases h₂
        cases h
        exact ⟨some message, _, _, rfl⟩

end BananaApi.Client.Receiver
