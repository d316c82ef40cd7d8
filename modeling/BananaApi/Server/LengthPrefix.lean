import BananaApi.Core.Recording
import BananaApi.Server.Container
import BananaApi.Server.HostileInput

/-!
# Length prefixes

A container announces the number of its elements in 64 bits and is read with the
low 32 of them. Here every container is read along with the number of elements it
decodes, on a stream that records what is taken off it, and the announced number is
compared with both.
-/

namespace BananaApi.Server

open ByteQueue (unread)
open ReadingRules (Obeys)

namespace CDataStream

/-- A copy delivers as many bytes as it was asked for. -/
theorem length_of_copyOut {s : CDataStream} {n : Int} {bs : List Byte}
    (h : s.copyOut n = .returned bs) : (bs.length : Int) = n := by
  unfold copyOut at h
  split at h
  · cases h
  · cases h
    rw [List.length_take, List.length_drop]
    omega

/-- With a mask that throws, a read that returns is complete. -/
theorem exactReads : ExactReads Throws := by
  intro s n bs s' hs h
  change s.read n = _ at h
  unfold read at h
  split at h
  · cases h
  · dsimp only at h
    split at h
    · split at h
      · have hthrow : (s.state ||| failbit) &&& s.exceptmask ≠ 0 := ByteQueue.or_and_ne_zero hs
        rw [setstate, if_pos hthrow] at h
        cases h
      · obtain ⟨bytes, hcopy, hs'⟩ := Outcome.bind_eq_returned.mp h
        cases hs'
        exact ⟨hs, length_of_copyOut hcopy⟩
    · obtain ⟨bytes, hcopy, hs'⟩ := Outcome.bind_eq_returned.mp h
      cases hs'
      exact ⟨hs, length_of_copyOut hcopy⟩

end CDataStream

/-- An integer is recorded as its bytes. -/
theorem readData_records {n : Nat} (hn : n < 2 ^ 31) :
    Records CDataStream.Throws (readData n) fun x => ({leBytes n x} : Language Byte) := by
  intro r x r' hr h
  obtain ⟨⟨bs, r₁⟩, hread, hx⟩ := Outcome.bind_eq_returned.mp h
  cases hx
  obtain ⟨hr', e, ⟨hlen, rfl⟩, hd⟩ := Records.read CDataStream.exactReads _ r bs r' hr hread
  rw [intOf_of_lt hn] at hlen
  exact ⟨hr', e, (leBytes_ofLeBytes (by omega)).symm, hd⟩

/-- A length is recorded as one of its forms. -/
theorem readCompactSize_records :
    Records CDataStream.Throws readCompactSize lengthPrefix := by
  intro r size r' hr h
  obtain ⟨e, he, htakes⟩ := readCompactSize_takes
    (fun r e r' => CDataStream.Throws r.stream →
      CDataStream.Throws r'.stream ∧ r'.delivered = r.delivered ++ e)
    (fun n hn r x r' h hr => by
      obtain ⟨hr', e, rfl, hd⟩ := readData_records hn r x r' hr h
      exact ⟨hr', hd⟩)
    (fun r e r₁ e' r' h₁ h₂ hr => by
      obtain ⟨hr₁, hd₁⟩ := h₁ hr
      obtain ⟨hr', hd'⟩ := h₂ hr₁
      exact ⟨hr', by rw [hd', hd₁, List.append_assoc]⟩) h
  obtain ⟨hr', hd⟩ := htakes hr
  exact ⟨hr', e, he, hd⟩

/-- The readers of a recorded stream take encodings off it when they return. -/
instance : ReadingRules (Recorded CDataStream) where
  Obeys f L _ := Records CDataStream.Throws f fun _ => L
  returned a := Records.returned a
  unfinished := Records.unfinished
  mapThrow g h := h.mapThrow g
  bind hf hg := (hf.bind hg).mono fun _ => iSup_le fun _ => le_rfl
  read n := by
    refine (Records.read CDataStream.exactReads (intOf n)).mono fun bs => ?_
    rintro e ⟨hlen, _⟩
    have hn : n % 2 ^ 32 < 2 ^ 31 := by
      by_contra hn
      have hneg := (intOf_neg_iff n).mpr (by omega)
      omega
    rw [intOf_of_mod_lt hn] at hlen
    exact ⟨hn, by omega⟩
  length left rest h :=
    (readCompactSize_records.mapThrow left).bind fun size =>
      h (unsignedOf size) (Nat.mod_lt _ (Nat.two_pow_pos 32))

/-! ## Streams, queues and records -/

/-- A read fails an assertion, takes what it delivers off the front of the queue, or throws
and takes nothing. -/
theorem ByteQueue.read_cases {q : ByteQueue} (hq : q.Throws) (n : Int) :
    ByteStream.read q n = .aborted ∨
    (∃ bs rest, q.unread = bs ++ rest ∧
      ByteStream.read q n = .returned (bs, { q with unread := rest })) ∨
    ∃ what state, ByteStream.read q n = .threw what { q with state := state } := by
  by_cases hneg : n < 0
  · exact Or.inl (if_pos hneg)
  · obtain ⟨k, rfl⟩ := Int.eq_ofNat_of_zero_le (by omega : 0 ≤ n)
    by_cases hk : k ≤ q.unread.length
    · exact Or.inr (Or.inl ⟨_, _, (List.take_append_drop k _).symm, ByteQueue.read_of_le hk⟩)
    · exact Or.inr (Or.inr ⟨_, _, ByteQueue.read_short hq (by omega)⟩)

/-- The record and the unread bytes of the queue make up the `total`. -/
structure Accounts (total : List Byte) (r : Recorded CDataStream) (q : ByteQueue) : Prop where
  refines : Refines True r.stream q
  throws : q.Throws
  total_eq : r.delivered ++ q.unread = total

/-- What was delivered and what is unread are the bytes there were. -/
theorem Accounts.unread {total : List Byte} {r : Recorded CDataStream} {q : ByteQueue}
    (h : Accounts total r q) : r.delivered ++ r.stream.unread = total := by
  rw [h.refines.unread, h.total_eq]

/-- At first nothing has been delivered. -/
theorem accounts_start {s : CDataStream} (hw : s.WellFormed) (hs : s.vch.length < 2 ^ 32)
    (hm : s.exceptmask = CDataStream.defaultMask) :
    Accounts s.unread (Recorded.start s) s.queue where
  refines := CDataStream.refines_queue hw
    (Or.inr ⟨trivial, hs, CDataStream.throws_of_defaultMask hm⟩)
  throws := CDataStream.throws_of_defaultMask hm
  total_eq := rfl

/-- On an addressable buffer the record is what is missing from the unread bytes. -/
theorem accounts_read (total : List Byte) : ReadSimulation True (Accounts total) := by
  rintro ⟨s, delivered⟩ q n hn ⟨hrefines, hq, htotal⟩
  have hread := refines_read True s q n hn hrefines
  change Outcome.Rel True _ _ (Recorded.read _ n) (ByteStream.read q n)
  unfold Recorded.read
  rcases ByteQueue.read_cases hq n with habort | ⟨bs, rest, hu, hret⟩ | ⟨what, state, hthrew⟩
  · rw [habort] at hread ⊢
    dsimp only
    generalize ByteStream.read s n = o at hread ⊢
    cases hread
    exact .aborted
  · obtain ⟨⟨bs', s'⟩, hs, hbs, hrefines'⟩ := hread.returned_right hret
    have hbs : bs' = bs := hbs
    dsimp only
    rw [hret, hs]
    refine .returned ⟨hbs, hrefines', hq, ?_⟩
    change (delivered ++ bs') ++ rest = total
    rw [hbs, List.append_assoc, ← hu]
    exact htotal
  · rw [hthrew] at hread ⊢
    dsimp only
    generalize ByteStream.read s n = o at hread ⊢
    cases hread with
    | threw hrefines' => exact .threw ⟨hrefines', hq, htotal⟩
    | overranThrew => exact .overranThrew trivial

namespace Container

variable {α : Type}

/-- On an addressable buffer, items are read exactly where the unread bytes start with them. -/
theorem readItems_returns_iff {fuel : Nat} (hfuel : 2 ^ 32 ≤ fuel) (c : Container α)
    {s : CDataStream} {q : ByteQueue} (hq : q.Throws) (h : Refines True s q) {nSize : Nat}
    (hsize : nSize < 2 ^ 32) (prev : α) :
    (∃ x s', c.readItems fuel nSize prev s = .returned (x, s')) ↔
      HasPrefixIn (c.body nSize) s.unread := by
  obtain ⟨T, hobeys⟩ := c.readItems_obeys (σ := ByteQueue) hfuel hsize prev
  have hrec : Recognizes ByteQueue.Throws ByteQueue.unread (c.readItems fuel nSize prev)
      (c.body nSize) T := hobeys
  have hrel := readItems_rel (refines_read True) fuel nSize c prev h
  constructor
  · rintro ⟨x, s', hs⟩
    obtain ⟨⟨y, q'⟩, hq', _⟩ := hrel.returned_left hs
    obtain ⟨e, he, hu⟩ := (hrec.accepts q hq q'.unread).mp ⟨y, q', hq', rfl⟩
    exact ⟨e, he, q'.unread, by rw [h.unread, hu]⟩
  · rintro ⟨e, he, rest, hu⟩
    obtain ⟨y, q', hq', _⟩ := (hrec.accepts q hq rest).mpr ⟨e, he, by rw [← h.unread, hu]⟩
    obtain ⟨⟨x, s'⟩, hs, _⟩ := hrel.returned_right hq'
    exact ⟨x, s', hs⟩

/-- A number that fits is the number that is kept, and what is read behind it are the
encodings of that many elements. -/
theorem mem_element_pow {c : Container α} {n : Nat} (h : c.Fits n) {e : List Byte}
    (he : e ∈ c.body n) : e ∈ c.element ^ n := by
  cases c with
  | string c =>
    obtain ⟨_, hbytes⟩ := h
    obtain ⟨_, hlen⟩ := he
    rw [Nat.mod_eq_of_lt hbytes] at hlen
    rw [element, bytesLang_pow]
    exact hlen
  | fundamentals f =>
    rw [element, bytesLang_pow]
    exact he
  | vector t sizeofT =>
    simp only [body, elementsLang] at he
    split at he
    · exact he
    · exact absurd he (Language.notMem_zero e)
  | map β pred k t => exact he
  | set pred k => exact he

/-- Otherwise the kept number or the kept size is another one. -/
theorem fits_of_mem {c : Container α} {n : Nat} (hn : n < 2 ^ 32) {e : List Byte}
    (he : e ∈ c.body n) (hpow : e ∈ c.element ^ n) : c.Fits n := by
  cases c with
  | string c =>
    obtain ⟨_, hlen⟩ := he
    rw [element, bytesLang_pow] at hpow
    have hpow : e.length = n * c := hpow
    have hmod := Nat.mod_lt (n * c) (Nat.two_pow_pos 32)
    exact ⟨hn, by omega⟩
  | fundamentals f => exact hn
  | vector t sizeofT => exact hn
  | map β pred k t => exact hn
  | set pred k => exact hn

/-- A length that fits is below `2 ^ 32`. -/
theorem Fits.lt {c : Container α} {n : Nat} (h : c.Fits n) : n < 2 ^ 32 := by
  cases c with
  | string c => exact h.1
  | fundamentals f => exact h
  | vector t sizeofT => exact h
  | map β pred k t => exact h
  | set pred k => exact h

/-- The number of elements decoded is the announced one, and the bytes taken off the stream
behind the length are the encodings of that many elements. -/
def HonoursLength (fuel : Nat) (c : Container α) (s : CDataStream) : Prop :=
  ∀ prev v s', c.ty.unserialize fuel s prev = .returned (v, s') →
    ∃ size s₁ head body,
      readCompactSize (Recorded.start s) = .returned (size, ⟨s₁, head⟩) ∧
      c.decode fuel (Recorded.start s) prev =
        .returned ((v, size.toNat), ⟨s', head ++ body⟩) ∧
      body ∈ c.element ^ size.toNat ∧
      (s.vch.length < 2 ^ 32 → s₁.unread = body ++ s'.unread)

/-- The announced number fits, or an addressable buffer does not hold what the kept number
asks for. -/
def LengthFits (c : Container α) (s : CDataStream) : Prop :=
  ∀ size s₁, readCompactSize s = .returned (size, s₁) →
    c.Fits size.toNat ∨
      s.vch.length < 2 ^ 32 ∧ ¬ HasPrefixIn (c.body (unsignedOf size)) s₁.unread

/-- The record does not change the length that is read. -/
theorem readCompactSize_start {s s₁ : CDataStream} {size : Word 8}
    (h : readCompactSize s = .returned (size, s₁)) :
    ∃ head, readCompactSize (Recorded.start s) = .returned (size, ⟨s₁, head⟩) := by
  have hrel := readCompactSize_rel Recorded.readSimulation (s := Recorded.start s) rfl
  obtain ⟨⟨size', r₁⟩, hr₁, hsize, hs₁⟩ := hrel.returned_right h
  have hsize : size' = size := hsize
  have hs₁ : r₁.stream = s₁ := hs₁
  subst hsize hs₁
  exact ⟨r₁.delivered, hr₁⟩

/-- On an addressable buffer a length is read alike from the queue of unread bytes. -/
theorem refines_of_readCompactSize {s s₁ : CDataStream} (hw : s.WellFormed)
    (hs : s.vch.length < 2 ^ 32) (hm : s.exceptmask = CDataStream.defaultMask) {size : Word 8}
    (h : readCompactSize s = .returned (size, s₁)) :
    ∃ q₁ : ByteQueue, q₁.Throws ∧ Refines True s₁ q₁ := by
  have ht := CDataStream.throws_of_defaultMask hm
  have hrefines := CDataStream.refines_queue hw (Or.inr ⟨trivial, hs, ht⟩)
  obtain ⟨⟨size', q₁⟩, hq, _, hrefines₁⟩ :=
    (readCompactSize_rel (refines_read True) hrefines).returned_left h
  exact ⟨q₁, (readCompactSize_returned (CDataStream.throws_queue ht) hq).2, hrefines₁⟩

/-- What a recorded run of a container consists of. -/
theorem decode_start {fuel : Nat} (hfuel : 2 ^ 32 ≤ fuel) {c : Container α} {s s' : CDataStream}
    (ht : s.Throws) {prev v : α} (h : c.ty.unserialize fuel s prev = .returned (v, s')) :
    ∃ size s₁ head body, readCompactSize s = .returned (size, s₁) ∧
      readCompactSize (Recorded.start s) = .returned (size, ⟨s₁, head⟩) ∧
      c.readItems fuel (unsignedOf size) prev s₁ = .returned ((v, unsignedOf size), s') ∧
      c.decode fuel (Recorded.start s) prev =
        .returned ((v, unsignedOf size), ⟨s', head ++ body⟩) ∧
      body ∈ c.body (unsignedOf size) := by
  rw [unserialize_eq_decode] at h
  obtain ⟨⟨⟨w, k⟩, t⟩, hdecode, hv⟩ := Outcome.bind_eq_returned.mp h
  obtain ⟨rfl, rfl⟩ := Prod.mk.inj (Outcome.returned.inj hv)
  obtain ⟨size, s₁, hsize, hitems⟩ := decode_eq_returned.mp hdecode
  obtain ⟨head, hhead⟩ := readCompactSize_start hsize
  have hlt : unsignedOf size < 2 ^ 32 := Nat.mod_lt _ (Nat.two_pow_pos 32)
  obtain rfl := count_readItems hlt hitems
  have hrel := readItems_rel Recorded.readSimulation fuel (unsignedOf size) c prev
    (s := ⟨s₁, head⟩) rfl
  obtain ⟨⟨x, r'⟩, hr', hx, hs'⟩ := hrel.returned_right hitems
  have hx : x = (w, unsignedOf size) := hx
  have hs' : r'.stream = t := hs'
  subst hx hs'
  obtain ⟨T, hobeys⟩ := c.readItems_obeys (σ := Recorded CDataStream) hfuel hlt prev
  have hrecords : Records CDataStream.Throws (c.readItems fuel (unsignedOf size) prev)
      fun _ => c.body (unsignedOf size) := hobeys
  obtain ⟨ht₁, _⟩ := readCompactSize_records (Recorded.start s) size ⟨s₁, head⟩ ht hhead
  obtain ⟨_, body, hbody, hd⟩ := hrecords ⟨s₁, head⟩ _ r' ht₁ hr'
  have hr : r' = ⟨r'.stream, head ++ body⟩ := by rw [← hd]
  exact ⟨size, s₁, head, body, hsize, hhead, hitems,
    decode_eq_returned.mpr ⟨size, ⟨s₁, head⟩, hhead, hr ▸ hr'⟩, hbody⟩

/-- On an addressable buffer the recorded items are what is missing from the unread bytes. -/
theorem unread_of_decode {fuel : Nat} {c : Container α} {s s₁ s' : CDataStream}
    (hw : s.WellFormed) (hs : s.vch.length < 2 ^ 32) (hm : s.exceptmask = CDataStream.defaultMask)
    {prev : α} {size : Word 8} {head body : List Byte} {x : α × Nat}
    (hhead : readCompactSize (Recorded.start s) = .returned (size, ⟨s₁, head⟩))
    (hbody : c.decode fuel (Recorded.start s) prev = .returned (x, ⟨s', head ++ body⟩)) :
    s₁.unread = body ++ s'.unread := by
  have hstart := accounts_start hw hs hm
  obtain ⟨_, _, _, h₁⟩ :=
    (readCompactSize_rel (accounts_read s.unread) hstart).returned_left hhead
  obtain ⟨_, _, _, h₂⟩ :=
    (decode_rel (accounts_read s.unread) fuel c prev hstart).returned_left hbody
  have htotal : head ++ s₁.unread = (head ++ body) ++ s'.unread := h₁.unread.trans h₂.unread.symm
  rw [List.append_assoc] at htotal
  exact List.append_cancel_left htotal

/-- A length that fits is honoured on every buffer. -/
theorem honoursLength_of_lengthFits {fuel : Nat} (hfuel : 2 ^ 32 ≤ fuel) {c : Container α}
    {s : CDataStream} (hw : s.WellFormed) (hm : s.exceptmask = CDataStream.defaultMask)
    (h : c.LengthFits s) : c.HonoursLength fuel s := by
  intro prev v s' hv
  have ht := CDataStream.throws_of_defaultMask hm
  obtain ⟨size, s₁, head, body, hsize, hhead, hitems, hdecode, hbody⟩ := decode_start hfuel ht hv
  have hlt : unsignedOf size < 2 ^ 32 := Nat.mod_lt _ (Nat.two_pow_pos 32)
  rcases h size s₁ hsize with hfits | ⟨hs, hnone⟩
  · have hcount : unsignedOf size = size.toNat := Nat.mod_eq_of_lt hfits.lt
    rw [hcount] at hdecode hbody
    exact ⟨size, s₁, head, body, hhead, hdecode, mem_element_pow hfits hbody,
      fun hs => unread_of_decode hw hs hm hhead hdecode⟩
  · obtain ⟨q₁, hq₁, hrefines⟩ := refines_of_readCompactSize hw hs hm hsize
    exact absurd ((c.readItems_returns_iff hfuel hq₁ hrefines hlt prev).mp ⟨_, _, hitems⟩) hnone

/-- On an addressable buffer a length is only honoured if it fits. -/
theorem lengthFits_of_honoursLength {fuel : Nat} (hfuel : 2 ^ 32 ≤ fuel) {c : Container α}
    {s : CDataStream} (hw : s.WellFormed) (hs : s.vch.length < 2 ^ 32)
    (hm : s.exceptmask = CDataStream.defaultMask) (h : c.HonoursLength fuel s) :
    c.LengthFits s := by
  intro size s₁ hsize
  by_contra hnot
  obtain ⟨hfits, hfront⟩ := not_or.mp hnot
  have hfront := not_not.mp fun hnone => hfront ⟨hs, hnone⟩
  have ht := CDataStream.throws_of_defaultMask hm
  have hlt : unsignedOf size < 2 ^ 32 := Nat.mod_lt _ (Nat.two_pow_pos 32)
  obtain ⟨q₁, hq₁, hrefines⟩ := refines_of_readCompactSize hw hs hm hsize
  obtain ⟨⟨v, k⟩, s', hitems⟩ :=
    (c.readItems_returns_iff hfuel hq₁ hrefines hlt c.ty.init).mpr hfront
  have hv : c.ty.unserialize fuel s c.ty.init = .returned (v, s') := by
    rw [unserialize_eq_decode, decode_eq_returned.mpr ⟨size, s₁, hsize, hitems⟩]
    rfl
  obtain ⟨size₁, t₁, head, body, hsize₁, hhead, _, hdecode, hbody⟩ := decode_start hfuel ht hv
  obtain ⟨size₂, t₂, head', body', hhead', hdecode', hpow, _⟩ := h c.ty.init v s' hv
  -- Both describe the same run.
  rw [hsize] at hsize₁
  cases hsize₁
  rw [hhead] at hhead'
  cases hhead'
  rw [hdecode] at hdecode'
  simp only [Outcome.returned.injEq, Prod.mk.injEq, Recorded.mk.injEq, List.append_cancel_left_eq,
    true_and] at hdecode'
  obtain ⟨hcount, rfl⟩ := hdecode'
  rw [hcount] at hbody hlt
  exact hfits (fits_of_mem hlt hbody hpow)

/-- A container honours its length whenever it fits, and on every addressable buffer only then. -/
theorem honoursLength_iff {fuel : Nat} (hfuel : 2 ^ 32 ≤ fuel) (c : Container α) {s : CDataStream}
    (hw : s.WellFormed) (hm : s.exceptmask = CDataStream.defaultMask) :
    (c.LengthFits s → c.HonoursLength fuel s) ∧
      (s.vch.length < 2 ^ 32 → c.HonoursLength fuel s → c.LengthFits s) :=
  ⟨honoursLength_of_lengthFits hfuel hw hm,
    fun hs => lengthFits_of_honoursLength hfuel hw hs hm⟩

/-- A string of one wide character honours its length. -/
theorem honoursLength_iff_string :
    ((Container.string 2).LengthFits (CDataStream.init [1, 65, 0]) →
      (Container.string 2).HonoursLength (2 ^ 32) (CDataStream.init [1, 65, 0])) ∧
    ((CDataStream.init [1, 65, 0]).vch.length < 2 ^ 32 →
      (Container.string 2).HonoursLength (2 ^ 32) (CDataStream.init [1, 65, 0]) →
      (Container.string 2).LengthFits (CDataStream.init [1, 65, 0])) :=
  honoursLength_iff le_rfl (Container.string 2) (CDataStream.wellFormed_init _) rfl

/-- A vector that announces `2 ^ 32` elements is read as an empty one. -/
theorem not_honoursLength :
    let c := Container.fundamentals .unsignedChar
    let s := CDataStream.init [0xFF, 0, 0, 0, 0, 1, 0, 0, 0]
    s.WellFormed ∧ s.exceptmask = CDataStream.defaultMask ∧
      readCompactSize s = .returned (BitVec.ofNat _ (2 ^ 32), CDataStream.init []) ∧
      c.ty.unserialize (2 ^ 32) s [] = .returned ([], CDataStream.init []) ∧
      ¬ c.HonoursLength (2 ^ 32) s := by
  intro c s
  have hread : c.ty.unserialize (2 ^ 32) s [] = .returned ([], CDataStream.init []) := by
    decide +kernel
  have hsize : readCompactSize (Recorded.start s) =
      .returned (BitVec.ofNat _ (2 ^ 32), ⟨CDataStream.init [], s.vch⟩) := by
    decide +kernel
  refine ⟨CDataStream.wellFormed_init _, rfl, by decide +kernel, hread, ?_⟩
  intro h
  obtain ⟨size, s₁, head, body, hsize', hdecode, _⟩ := h [] [] _ hread
  rw [hsize] at hsize'
  cases hsize'
  have hcount : c.decode (2 ^ 32) (Recorded.start s) [] =
      .returned (([], 0), ⟨CDataStream.init [], s.vch⟩) := by
    decide +kernel
  rw [hcount] at hdecode
  simp at hdecode

end Container

end BananaApi.Server
