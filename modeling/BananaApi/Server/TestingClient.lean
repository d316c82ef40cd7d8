import BananaApi.Server.Connections
import Mathlib.Data.List.TakeWhile

/-!
# The testing client and the server

`testing_client.cpp` connects to the server, writes one line and closes the connection. Any
number of such clients runs beside the server; the network delivers what a client has written in
order, cut into reads in any way, and the end of the connection behind it.
-/

namespace BananaApi.Server

/-- Where `main` of the testing client is; it returns 1 when `connect` fails, else 0. -/
inductive ClientState where
  | created | connected | written | closed | failed
  deriving DecidableEq, Repr

/-- A testing client, with the bytes `write` has accepted and the lines it has printed. -/
structure TestingClient where
  state : ClientState
  sent : List Byte
  output : List (List Byte)

/-- The result of `connect` or of `write`, which is -1 or the number of bytes written; `close`. -/
inductive ClientEvent where
  | connect (succeeds : Bool)
  | write (written : Option Nat)
  | close

namespace TestingClient

/-- What `strlen(buffer)` characters of the buffer are. -/
def message : List Byte := ascii "hello world\n"

/-- A client about to call `connect`. -/
def start : TestingClient := ⟨.created, [], []⟩

/-- One step of the client. -/
def step : ClientEvent → TestingClient → Option TestingClient
  | .connect true, c => if c.state = .created then some { c with state := .connected } else none
  | .connect false, c =>
    if c.state = .created then
      some { c with state := .failed, output := c.output ++ [ascii "connection fails"] }
    else none
  | .write none, c =>
    if c.state = .connected then
      some { c with state := .written, output := c.output ++ [ascii "Write: -1"] }
    else none
  | .write (some n), c =>
    if c.state = .connected ∧ n ≤ message.length then
      some { c with
        state := .written
        sent := message.take n
        output := c.output ++ [ascii ("Write: " ++ toString n)] }
    else none
  | .close, c => if c.state = .written then some { c with state := .closed } else none

/-- The connection of the client has been established. -/
def Connects (c : TestingClient) : Prop := c.state ≠ .created ∧ c.state ≠ .failed

instance (c : TestingClient) : Decidable c.Connects := inferInstanceAs (Decidable (_ ∧ _))

end TestingClient

/-- The connection of a thread of the server: the client at its other end, the socket and the
buffer of the thread, what has been read, and whether the end of the connection has. -/
structure Connection where
  client : Nat
  sfd : Nat
  buffer : List.Vector Byte bufferLen
  delivered : List Byte
  ended : Bool

/-- The server, the clients, and a connection for each thread of the server. -/
structure Network where
  process : Process
  clients : List TestingClient
  connections : List Connection

/-- A client takes a step; `accept` returns, with a client's connection or not; or a thread of the
server takes a step. -/
inductive NetworkEvent where
  | client (j : Nat) (e : ClientEvent)
  | acceptFails
  | accepted (j sfd : Nat) (buffer : List.Vector Byte bufferLen)
  | handler (i : Nat) (e : HandlerEvent)

/-- The part of the event that the server takes part in. -/
def NetworkEvent.server : NetworkEvent → Option ServerEvent
  | .client _ _ => none
  | .acceptFails => some (.accepted none)
  | .accepted _ sfd buffer => some (.accepted (some (sfd, buffer)))
  | .handler i e => some (.handler i e)

/-- The bytes a thread of the server has read, one list for each read. -/
def readsOf (i : Nat) (events : List NetworkEvent) : List (List Byte) :=
  chunksOf i (events.filterMap NetworkEvent.server)

/-- A read delivers the next bytes the client has sent, or the end behind all of them once the
client has closed its socket. -/
def Connection.read (c : TestingClient) : HandlerEvent → Connection → Option Connection
  | .read (.bytes bs), k =>
    if k.delivered ++ bs <+: c.sent then some { k with delivered := k.delivered ++ bs } else none
  | .read .endOfConnection, k =>
    if c.state = .closed ∧ k.delivered = c.sent then some { k with ended := true } else none
  | .read .error, k => some k
  | .fcntl _, k => some k

theorem Connection.client_read {c : TestingClient} {e : HandlerEvent} {k k' : Connection}
    (h : k.read c e = some k') : k'.client = k.client := by
  match e with
  | .read (.bytes bs) | .read .endOfConnection =>
    obtain ⟨-, rfl⟩ := Option.ite_some_none_eq_some.mp h
    rfl
  | .read .error | .fcntl _ =>
    cases h
    rfl

namespace Network

/-- A server that listens, and some clients. -/
def start (clients : Nat) : Network := ⟨.listening, List.replicate clients .start, []⟩

/-- One step of the server, of a client or of the network between them. -/
def step : NetworkEvent → Network → Option Network
  | .client j e, s =>
    (s.clients[j]?).bind fun c => (c.step e).map fun c' => { s with clients := s.clients.set j c' }
  | .acceptFails, s => (s.process.step (.accepted none)).map fun p => { s with process := p }
  | .accepted j sfd buffer, s => (s.clients[j]?).bind fun c =>
    if c.Connects ∧ ∀ k ∈ s.connections, k.client ≠ j then
      (s.process.step (.accepted (some (sfd, buffer)))).map fun p =>
        { s with process := p, connections := s.connections ++ [⟨j, sfd, buffer, [], false⟩] }
    else none
  | .handler i e, s => (s.connections[i]?).bind fun k => (s.clients[k.client]?).bind fun c =>
    (k.read c e).bind fun k' => (s.process.step (.handler i e)).map fun p =>
      { s with process := p, connections := s.connections.set i k' }

end Network

/-! ## Clients -/

namespace TestingClient

variable {c c' : TestingClient}

/-- A client has sent nothing in front of `write`, and a part of its message behind it. -/
structure Proper (c : TestingClient) : Prop where
  unsent : c.state = .created ∨ c.state = .connected → c.sent = []
  sent : c.sent <+: message

/-- A client that has not connected has sent nothing. -/
theorem proper_start : start.Proper := ⟨fun _ => rfl, List.nil_prefix⟩

/-- The message has no 0. -/
theorem notMem_message : 0 ∉ message := by decide

/-- A client sends more and more, and nothing after `close`. -/
theorem Proper.step (hc : c.Proper) {e : ClientEvent} (h : c.step e = some c') :
    c'.Proper ∧ c.sent <+: c'.sent ∧ c.state ≠ .closed := by
  match e with
  | .connect true =>
    obtain ⟨hs, rfl⟩ := Option.ite_some_none_eq_some.mp h
    exact ⟨⟨fun _ => hc.unsent (Or.inl hs), hc.sent⟩, List.prefix_refl _, by simp [hs]⟩
  | .connect false =>
    obtain ⟨hs, rfl⟩ := Option.ite_some_none_eq_some.mp h
    exact ⟨⟨by simp, hc.sent⟩, List.prefix_refl _, by simp [hs]⟩
  | .write none =>
    obtain ⟨hs, rfl⟩ := Option.ite_some_none_eq_some.mp h
    exact ⟨⟨by simp, hc.sent⟩, List.prefix_refl _, by simp [hs]⟩
  | .write (some n) =>
    obtain ⟨⟨hs, -⟩, rfl⟩ := Option.ite_some_none_eq_some.mp h
    refine ⟨⟨by simp, List.take_prefix n message⟩, ?_, by simp [hs]⟩
    rw [hc.unsent (Or.inr hs)]
    exact List.nil_prefix
  | .close =>
    obtain ⟨hs, rfl⟩ := Option.ite_some_none_eq_some.mp h
    exact ⟨⟨by simp, hc.sent⟩, List.prefix_refl _, by simp [hs]⟩

end TestingClient

/-! ## What a thread hears of a client -/

/-- Short reads leave the rest of the buffer as it is. -/
theorem drop_overlay {n : Nat} (hn : n ≤ bufferLen) {chunks : List (List Byte)}
    (h : ∀ bs ∈ chunks, bs.length ≤ n) (buffer : List.Vector Byte bufferLen) :
    (overlay buffer chunks).toList.drop n = buffer.toList.drop n := by
  induction chunks generalizing buffer with
  | nil => rfl
  | cons bs chunks ih =>
    have hbs : bs.length ≤ n := h bs List.mem_cons_self
    refine (ih (fun x hx => h x (List.mem_cons_of_mem bs hx)) _).trans ?_
    rw [toList_overwriteArray buffer (hbs.trans hn), List.drop_append, List.drop_of_length_le hbs,
      List.nil_append, List.drop_drop, Nat.add_sub_cancel' hbs]

/-- A 0 behind all that short reads can reach ends the string after each of them. -/
theorem terminated_of_mem_drop {n : Nat} (hn : n ≤ bufferLen) {chunks : List (List Byte)}
    (h : ∀ bs ∈ chunks, bs.length ≤ n) {buffer : List.Vector Byte bufferLen}
    (hzero : 0 ∈ buffer.toList.drop n) : Terminated buffer chunks := by
  intro p hp _
  rw [← drop_overlay hn (fun bs hbs => h bs (hp.subset hbs))] at hzero
  exact List.mem_of_mem_drop hzero

/-- Bytes without a 0 are printed as they are. -/
theorem Handler.lines_of_notMem (sfd : Nat) {chunks : List (List Byte)}
    (h : 0 ∉ chunks.flatten) : lines sfd chunks = chunks.map (received sfd) := by
  refine List.map_congr_left fun bs hbs => congrArg (received sfd) ?_
  rw [List.takeWhile_eq_self_iff]
  intro b hb
  exact decide_eq_true fun hzero => h (List.mem_flatten.mpr ⟨bs, hbs, hzero ▸ hb⟩)

/-- What a thread has printed that is in the given state behind reads without a 0. It may have
closed the connection because it ended, or because of an error. -/
def Handler.printed (sfd : Nat) (chunks : List (List Byte)) (ended : Bool) :
    HandlerState → List (List Byte)
  | .entered => []
  | .returned => [handling sfd, settingFails sfd]
  | .reading => handling sfd :: chunks.map (received sfd)
  | .closed =>
    handling sfd :: chunks.map (received sfd) ++ [if ended then ends sfd else readError]
  | .overran => handling sfd :: chunks.dropLast.map (received sfd)

/-- A thread closes its connection where it has read the end of it or an error, and nowhere else. -/
theorem Handler.step_closes {e : HandlerEvent} {h h' : Handler} (hstep : h.step e = some h') :
    h.state = .reading ∧ h'.state = .closed ∧
        (e = .read .endOfConnection ∧ h'.output = h.output ++ [ends h.clientSfd] ∨
          e = .read .error ∧ h'.output = h.output ++ [readError]) ∨
      h'.state ≠ .closed ∧ e ≠ .read .endOfConnection ∧ e ≠ .read .error := by
  cases e with
  | fcntl succeeds =>
    cases hs : h.state
    case entered =>
      cases succeeds <;> simp only [step, hs, Option.some.injEq] at hstep <;> subst hstep <;>
        exact Or.inr (by simp)
    all_goals simp only [step, hs, reduceCtorEq] at hstep
  | read r =>
    cases hs : h.state
    case reading =>
      cases r with
      | bytes bs =>
        simp only [step, hs] at hstep
        split at hstep
        · cases hstr : str (overwriteArray h.buffer bs) bs.length <;> rw [hstr] at hstep <;>
            cases hstep <;> exact Or.inr (by simp)
        · cases hstep
      | endOfConnection =>
        simp only [step, hs, Option.some.injEq] at hstep
        subst hstep
        exact Or.inl ⟨rfl, rfl, Or.inl ⟨rfl, rfl⟩⟩
      | error =>
        simp only [step, hs, Option.some.injEq] at hstep
        subst hstep
        exact Or.inl ⟨rfl, rfl, Or.inr ⟨rfl, rfl⟩⟩
    all_goals simp only [step, hs, reduceCtorEq] at hstep

/-- A thread reports what it has read, which is what its connection has delivered: the first part
of what the client has sent, and all of it when the end of the connection has been read. -/
structure Faithful (handler : Handler) (k : Connection) (c : TestingClient)
    (chunks : List (List Byte)) : Prop where
  reports : handler.Reports k.sfd k.buffer chunks
  flatten : chunks.flatten = k.delivered
  delivered : k.delivered <+: c.sent
  ended : k.ended = true → handler.state = .closed ∧ c.state = .closed ∧ k.delivered = c.sent
  closed : handler.state = .closed → handler.output = Handler.handling k.sfd ::
    Handler.lines k.sfd chunks ++ [if k.ended then Handler.ends k.sfd else Handler.readError]

namespace Faithful

variable {handler handler' : Handler} {k k' : Connection} {c c' : TestingClient}
  {chunks : List (List Byte)}

/-- A thread begins with nothing read. -/
theorem accepted (j sfd : Nat) (buffer : List.Vector Byte bufferLen) (c : TestingClient) :
    Faithful (.new sfd buffer) ⟨j, sfd, buffer, [], false⟩ c [] :=
  ⟨Handler.reports_new sfd buffer, rfl, List.nil_prefix, nofun, fun h => by cases h⟩

/-- What the client does leaves what has been read the first part of what it has sent. -/
theorem client_step (h : Faithful handler k c chunks) (hc : c.Proper) {e : ClientEvent}
    (hstep : c.step e = some c') : Faithful handler k c' chunks := by
  obtain ⟨-, hsent, hopen⟩ := hc.step hstep
  exact ⟨h.reports, h.flatten, h.delivered.trans hsent,
    fun hended => absurd (h.ended hended).2.1 hopen, h.closed⟩

/-- A thread that takes a step has not read the end yet. -/
theorem not_ended (h : Faithful handler k c chunks) {e : HandlerEvent}
    (hstep : handler.step e = some handler') : k.ended = false := by
  have hholds := of_decide_eq_true (Handler.step_holds hstep).2
  exact Bool.eq_false_iff.mpr fun hended => hholds (h.ended hended).1

/-- What the thread prints behind its lines when it closes the connection. -/
theorem output_of_closes (h : Faithful handler k c chunks) (hreading : handler.state = .reading)
    {line : List Byte} (hline : handler'.output = handler.output ++ [line]) :
    handler'.output = Handler.handling k.sfd :: Handler.lines k.sfd chunks ++ [line] := by
  obtain ⟨-, hstate⟩ := h.reports
  rw [hreading] at hstate
  rw [hline, hstate.2.2]

/-- A step of a thread, with what the network delivers to it. -/
theorem handler_step (h : Faithful handler k c chunks) {e : HandlerEvent}
    (hstep : handler.step e = some handler') (hread : k.read c e = some k') :
    Faithful handler' k' c (chunks ++ e.bytes.toList) := by
  have hended := h.not_ended hstep
  have hreports := Handler.step_reports hstep h.reports
  rcases Handler.step_closes hstep with ⟨hreading, hclosed, hwhy⟩ | ⟨hopen, hend, herror⟩
  · rcases hwhy with ⟨rfl, hline⟩ | ⟨rfl, hline⟩
    · obtain ⟨⟨hgone, hall⟩, rfl⟩ := Option.ite_some_none_eq_some.mp hread
      rw [h.reports.1] at hline
      rw [show HandlerEvent.bytes _ = none from rfl, Option.toList_none, List.append_nil]
        at hreports ⊢
      exact ⟨hreports, h.flatten, h.delivered, fun _ => ⟨hclosed, hgone, hall⟩,
        fun _ => h.output_of_closes hreading hline⟩
    · cases hread
      rw [show HandlerEvent.bytes _ = none from rfl, Option.toList_none, List.append_nil]
        at hreports ⊢
      refine ⟨hreports, h.flatten, h.delivered, by simp [hended], fun _ => ?_⟩
      rw [hended]
      exact h.output_of_closes hreading hline
  · match e with
    | .read .endOfConnection => exact absurd rfl hend
    | .read .error => exact absurd rfl herror
    | .fcntl _ =>
      cases hread
      rw [show HandlerEvent.bytes _ = none from rfl, Option.toList_none, List.append_nil]
        at hreports ⊢
      exact ⟨hreports, h.flatten, h.delivered, by simp [hended], fun h => absurd h hopen⟩
    | .read (.bytes bs) =>
      obtain ⟨hsent, rfl⟩ := Option.ite_some_none_eq_some.mp hread
      refine ⟨hreports, ?_, hsent, by simp [hended], fun h => absurd h hopen⟩
      rw [← h.flatten, List.flatten_append]
      exact congrArg _ (List.append_nil bs)

/-- What the thread has printed, none of the bytes being 0. -/
theorem output (h : Faithful handler k c chunks) (hzero : 0 ∉ chunks.flatten) :
    handler.output = Handler.printed k.sfd chunks k.ended handler.state := by
  have hlines := Handler.lines_of_notMem k.sfd hzero
  have hclosed := h.closed
  obtain ⟨-, hstate⟩ := h.reports
  cases hs : handler.state <;> rw [hs] at hstate
  case entered => exact hstate.2.1
  case returned => exact hstate.2
  case reading =>
    rw [hstate.2.2, hlines]
    rfl
  case closed =>
    rw [hclosed hs, hlines]
    rfl
  case overran =>
    obtain ⟨before, bs, rfl, -, -, houtput⟩ := hstate
    have hbefore : 0 ∉ before.flatten := by
      rw [List.flatten_append] at hzero
      exact fun h => hzero (List.mem_append_left _ h)
    rw [houtput, Handler.lines_of_notMem k.sfd hbefore, Handler.printed, List.dropLast_concat]

end Faithful

/-! ## The reads of a thread -/

/-- An event adds to the reads of a thread what the thread reads with it. -/
theorem readsOf_concat (i : Nat) (events : List NetworkEvent) (e : NetworkEvent) :
    readsOf i (events ++ [e]) = readsOf i events ++
      ((e.server.bind (ServerEvent.ofHandler i)).bind HandlerEvent.bytes).toList := by
  rw [readsOf, chunksOf, List.filterMap_append, List.filterMap_append, List.filterMap_append]
  congr 1
  cases hserver : e.server with
  | none => rw [List.filterMap_cons_none hserver]; rfl
  | some e' =>
    rw [List.filterMap_cons_some hserver, Option.bind_some]
    cases hown : ServerEvent.ofHandler i e' with
    | none => rw [List.filterMap_nil, List.filterMap_cons_none hown]; rfl
    | some e'' =>
      rw [List.filterMap_nil, List.filterMap_cons_some hown, Option.bind_some]
      cases hbytes : e''.bytes with
      | none => rw [List.filterMap_nil, List.filterMap_cons_none hbytes]; rfl
      | some bs => rw [List.filterMap_nil, List.filterMap_cons_some hbytes]; rfl

namespace Network

open Transition (exec exec_history)

/-- Every thread of the server is faithful to the client at the other end of its connection. -/
structure Consistent (past : List NetworkEvent) (s : Network) : Prop where
  length : s.connections.length = s.process.connectionHandlers.length
  clients : ∀ c ∈ s.clients, c.Proper
  unread : ∀ i, s.connections.length ≤ i → readsOf i past = []
  faithful : ∀ (i : Nat) handler k, s.process.connectionHandlers[i]? = some handler →
    s.connections[i]? = some k →
      ∃ c, s.clients[k.client]? = some c ∧ Faithful handler k c (readsOf i past)

/-- At first there is no connection. -/
theorem consistent_start (n : Nat) : (start n).Consistent [] where
  length := rfl
  clients _ hc := List.eq_of_mem_replicate hc ▸ TestingClient.proper_start
  unread _ _ := rfl
  faithful := nofun

variable {past : List NetworkEvent} {s s' : Network}

/-- A client moves, and the threads have read what they have read before. -/
theorem Consistent.client (hs : s.Consistent past) {j : Nat} {e : ClientEvent}
    (h : step (.client j e) s = some s') : s'.Consistent (past ++ [.client j e]) := by
  have hreads : ∀ i, readsOf i (past ++ [.client j e]) = readsOf i past := fun i =>
    (readsOf_concat i past _).trans (List.append_nil _)
  obtain ⟨c, hj, h⟩ := Option.bind_eq_some_iff.mp h
  obtain ⟨c', hstep, rfl⟩ := Option.map_eq_some_iff.mp h
  have hc := hs.clients c (List.mem_of_getElem? hj)
  refine ⟨hs.length, ?_, ?_, ?_⟩
  · intro x hx
    rcases List.mem_or_eq_of_mem_set hx with hx | rfl
    · exact hs.clients x hx
    · exact (hc.step hstep).1
  · intro i hi
    rw [hreads]
    exact hs.unread i hi
  · intro i handler k hi hk
    rw [hreads]
    obtain ⟨x, hx, hfaithful⟩ := hs.faithful i handler k hi hk
    by_cases hjk : j = k.client
    · subst hjk
      obtain rfl : c = x := Option.some.inj (hj.symm.trans hx)
      obtain ⟨hlt, -⟩ := List.getElem?_eq_some_iff.mp hj
      exact ⟨c', List.getElem?_set_self hlt, hfaithful.client_step hc hstep⟩
    · exact ⟨x, (List.getElem?_set_ne hjk).trans hx, hfaithful⟩

/-- A connection is accepted for a new thread, which has read nothing. -/
theorem Consistent.accepted (hs : s.Consistent past) {j sfd : Nat}
    {buffer : List.Vector Byte bufferLen} (h : step (.accepted j sfd buffer) s = some s') :
    s'.Consistent (past ++ [.accepted j sfd buffer]) := by
  have hreads : ∀ i, readsOf i (past ++ [.accepted j sfd buffer]) = readsOf i past := fun i =>
    (readsOf_concat i past _).trans (List.append_nil _)
  obtain ⟨c, hj, h⟩ := Option.bind_eq_some_iff.mp h
  rw [Option.ite_none_right_eq_some] at h
  obtain ⟨p, hp, rfl⟩ := Option.map_eq_some_iff.mp h.2
  obtain ⟨-, rfl⟩ := Process.accepted_step hp
  refine ⟨by simp [hs.length], hs.clients, fun i hi => ?_, fun i handler k hi hk => ?_⟩
  · rw [List.length_append] at hi
    rw [hreads]
    exact hs.unread i ((Nat.le_add_right _ _).trans hi)
  rw [hreads]
  rcases Nat.lt_trichotomy i s.connections.length with hlt | rfl | hgt
  · rw [List.getElem?_append_left hlt] at hk
    rw [List.getElem?_append_left (hs.length ▸ hlt)] at hi
    exact hs.faithful i handler k hi hk
  · rw [List.getElem?_concat_length] at hk
    rw [hs.length, List.getElem?_concat_length] at hi
    cases hk
    cases hi
    rw [hs.unread _ le_rfl]
    exact ⟨c, hj, .accepted j sfd buffer c⟩
  · have hnone : (s.connections ++ [⟨j, sfd, buffer, [], false⟩])[i]? = none :=
      List.getElem?_eq_none (by simp; omega)
    cases hnone.symm.trans hk

/-- A thread moves, and the others have read what they have read before. -/
theorem Consistent.handler (hs : s.Consistent past) {i : Nat} {e : HandlerEvent}
    (h : step (.handler i e) s = some s') : s'.Consistent (past ++ [.handler i e]) := by
  have hown : readsOf i (past ++ [.handler i e]) = readsOf i past ++ e.bytes.toList := by
    rw [readsOf_concat, NetworkEvent.server, Option.bind_some, ServerEvent.ofHandler, if_pos rfl,
      Option.bind_some]
  have hreads : ∀ m, i ≠ m → readsOf m (past ++ [.handler i e]) = readsOf m past := by
    intro m hm
    rw [readsOf_concat, NetworkEvent.server, Option.bind_some, ServerEvent.ofHandler, if_neg hm]
    exact List.append_nil _
  obtain ⟨k, hk, h⟩ := Option.bind_eq_some_iff.mp h
  obtain ⟨c, hc, h⟩ := Option.bind_eq_some_iff.mp h
  obtain ⟨k', hread, h⟩ := Option.bind_eq_some_iff.mp h
  obtain ⟨p, hp, rfl⟩ := Option.map_eq_some_iff.mp h
  obtain ⟨handler, handler', hi, hstep, rfl⟩ := Process.handler_step hp
  obtain ⟨x, hx, hfaithful⟩ := hs.faithful i handler k hi hk
  obtain rfl : c = x := Option.some.inj (hc.symm.trans hx)
  obtain ⟨hlt, -⟩ := List.getElem?_eq_some_iff.mp hi
  refine ⟨by simp [hs.length], hs.clients, fun m hm => ?_, fun m other l hm hl => ?_⟩
  · rw [List.length_set] at hm
    rw [hreads m (ne_of_lt ((hs.length ▸ hlt).trans_le hm))]
    exact hs.unread m hm
  by_cases him : i = m
  · subst him
    rw [List.getElem?_set_self (hs.length ▸ hlt)] at hl
    obtain rfl := Option.some.inj ((List.getElem?_set_self hlt).symm.trans hm)
    cases hl
    rw [hown]
    exact ⟨c, by rwa [Connection.client_read hread], hfaithful.handler_step hstep hread⟩
  · rw [List.getElem?_set_ne him] at hl
    rw [hreads m him]
    exact hs.faithful m other l ((List.getElem?_set_ne him).symm.trans hm) hl

/-- Every step of a client, of a thread or of the network keeps the two ends consistent. -/
theorem step_consistent {e : NetworkEvent} (h : step e s = some s') (hs : s.Consistent past) :
    s'.Consistent (past ++ [e]) := by
  match e with
  | .client j e => exact hs.client h
  | .acceptFails =>
    obtain rfl := Option.some.inj h
    have hreads : ∀ i, readsOf i (past ++ [.acceptFails]) = readsOf i past := fun i =>
      (readsOf_concat i past _).trans (List.append_nil _)
    refine ⟨hs.length, hs.clients, fun i hi => ?_, fun i handler k hi hk => ?_⟩
    · rw [hreads]
      exact hs.unread i hi
    · rw [hreads]
      exact hs.faithful i handler k hi hk
  | .accepted j sfd buffer => exact hs.accepted h
  | .handler i e => exact hs.handler h

/-- In every run, what a thread has read are the bytes its connection has delivered, which are the
first part of what the client has sent, and the thread has printed them, one line for each of its
reads; when it has read the end of the connection, the client has closed it, and the thread has
printed all that the client sent. A thread never runs past its buffer if there is a 0 behind the
first bytes of the buffer it was started with, as many as the message has. -/
theorem exec_conveys {clients : Nat} {events : List NetworkEvent}
    (h : exec step events (start clients) = some s) {i : Nat} {handler : Handler}
    (hi : s.process.connectionHandlers[i]? = some handler) :
    ∃ (k : Connection) (c : TestingClient),
      s.connections[i]? = some k ∧ s.clients[k.client]? = some c ∧
      (readsOf i events).flatten = k.delivered ∧ k.delivered <+: c.sent ∧
      c.sent <+: TestingClient.message ∧
      handler.output = Handler.printed k.sfd (readsOf i events) k.ended handler.state ∧
      (k.ended = true →
        handler.state = .closed ∧ c.state = .closed ∧ k.delivered = c.sent) ∧
      (0 ∈ k.buffer.toList.drop TestingClient.message.length → handler.state ≠ .overran) := by
  have hs : s.Consistent events :=
    exec_history (I := fun past s => s.Consistent past) (fun _ _ _ _ => step_consistent) h
      (consistent_start clients)
  obtain ⟨hlt, -⟩ := List.getElem?_eq_some_iff.mp hi
  obtain ⟨k, hk⟩ : ∃ k, s.connections[i]? = some k :=
    ⟨_, List.getElem?_eq_getElem (hs.length ▸ hlt)⟩
  obtain ⟨c, hc, hfaithful⟩ := hs.faithful i handler k hi hk
  have hsent := (hs.clients c (List.mem_of_getElem? hc)).sent
  have hmessage : (readsOf i events).flatten <+: TestingClient.message :=
    hfaithful.flatten ▸ hfaithful.delivered.trans hsent
  have hzeros : 0 ∉ (readsOf i events).flatten := fun h =>
    TestingClient.notMem_message (hmessage.subset h)
  refine ⟨k, c, hk, hc, hfaithful.flatten, hfaithful.delivered, hsent, hfaithful.output hzeros,
    hfaithful.ended, fun hzero => ?_⟩
  rw [Ne, hfaithful.reports.overran_iff, not_not]
  refine terminated_of_mem_drop (by decide) (fun bs hbs => ?_) hzero
  exact (List.Sublist.length_le (List.sublist_flatten_of_mem hbs)).trans hmessage.length_le

/-- One client, whose message arrives in two reads. -/
def conversation : List NetworkEvent :=
  [.client 0 (.connect true), .accepted 0 5 (List.Vector.replicate bufferLen 0),
    .handler 0 (.fcntl true), .client 0 (.write (some 12)),
    .handler 0 (.read (.bytes (ascii "hello"))), .client 0 .close,
    .handler 0 (.read (.bytes (ascii " world\n"))), .handler 0 (.read .endOfConnection)]

theorem exec_conveys_conversation : ∃ s handler k,
    exec step conversation (start 1) = some s ∧
    s.process.connectionHandlers[0]? = some handler ∧ s.connections[0]? = some k ∧
    k.delivered = TestingClient.message ∧
    handler.output = [Handler.handling 5, Handler.received 5 (ascii "hello"),
      Handler.received 5 (ascii " world\n"), Handler.ends 5] := by
  obtain ⟨s, handler, k, c, hrun, hhandler, hk, hc, hended, hsent, hsfd⟩ :
      ∃ s handler k c, exec step conversation (start 1) = some s ∧
        s.process.connectionHandlers[0]? = some handler ∧ s.connections[0]? = some k ∧
        s.clients[k.client]? = some c ∧ k.ended = true ∧ c.sent = TestingClient.message ∧
        k.sfd = 5 :=
    ⟨_, _, _, _, rfl, rfl, rfl, rfl, rfl, rfl, rfl⟩
  obtain ⟨k', c', hk', hc', -, -, -, houtput, hend, -⟩ := exec_conveys hrun hhandler
  obtain rfl : k = k' := Option.some.inj (hk.symm.trans hk')
  obtain rfl : c = c' := Option.some.inj (hc.symm.trans hc')
  obtain ⟨hclosed, -, hall⟩ := hend hended
  rw [hclosed, hended, hsfd] at houtput
  exact ⟨s, handler, k, hrun, hhandler, hk, hall.trans hsent, houtput⟩

end Network

end BananaApi.Server
