import BananaApi.Core.Projection
import BananaApi.Server.Serialize
import Mathlib.Data.List.Basic
import Mathlib.Data.Vector.Basic

/-!
# The connections of the server

`main` accepts connections and starts a thread for each of them, which runs
`HandleConnection`: it reads up to 256 bytes at a time into one buffer and prints them. The
buffer is not cleared between two reads, and `std::string str(buffer, 0, r)` takes it for a
C string first: it looks for the end of the string in the whole buffer, behind the bytes
that were read, and past the buffer if there is none. The lines of a thread are in the order
in which it prints them; those of different threads may be mixed on the console.
-/

namespace BananaApi.Server

/-- A line of ASCII characters. -/
def ascii (s : String) : List Byte := s.toList.map fun c => BitVec.ofNat 8 c.toNat

/-- What `read` returns: some bytes, 0, or -1. -/
inductive ReadResult where
  | bytes (bs : List Byte)
  | endOfConnection
  | error

/-- Where `HandleConnection` is. It closes the socket when it leaves its loop, but not when it
returns in front of it; what follows an access past the buffer is not modelled. -/
inductive HandlerState where
  | entered | reading | closed | returned | overran
  deriving DecidableEq, Repr

/-- `buffer_len`. -/
def bufferLen : Nat := 256

/-- A thread that runs `HandleConnection`, with the lines it has printed. -/
structure Handler where
  clientSfd : Nat
  buffer : List.Vector Byte bufferLen
  state : HandlerState
  output : List (List Byte)

/-- The result of `fcntl`, which sets the socket to be in blocking mode, or of `read`. -/
inductive HandlerEvent where
  | fcntl (succeeds : Bool)
  | read (r : ReadResult)

namespace Handler

/-- A thread about to call `HandleConnection`. The buffer is not initialized. -/
def new (clientSfd : Nat) (buffer : List.Vector Byte bufferLen) : Handler :=
  ⟨clientSfd, buffer, .entered, []⟩

/-- The line a thread prints when it starts. -/
def handling (sfd : Nat) : List Byte := ascii ("Handle a connection: " ++ toString sfd)

/-- The line for a socket that cannot be set to be in blocking mode. -/
def settingFails (sfd : Nat) : List Byte :=
  ascii ("Setting to blocking mode fails for client: " ++ toString sfd)

/-- The line for the end of the connection. -/
def ends (sfd : Nat) : List Byte := ascii ("[sdf = " ++ toString sfd ++ "] End of connection")

/-- The line for a read that fails. -/
def readError : List Byte := ascii "read error"

/-- The line for the string of one read. -/
def received (sfd : Nat) (str : List Byte) : List Byte :=
  ascii ("[sdf = " ++ toString sfd ++ "] Received: ") ++ str

/-- `std::basic_string<char> str(buffer, 0, r)`, unless the buffer is not a C string. -/
def str (buffer : List.Vector Byte bufferLen) (r : Nat) : Option (List Byte) :=
  if 0 ∈ buffer.toList then some ((buffer.toList.takeWhile (· ≠ 0)).take r) else none

/-- One step of the thread. -/
def step : HandlerEvent → Handler → Option Handler
  | .fcntl succeeds, h =>
    match h.state, succeeds with
    | .entered, true =>
      some { h with state := .reading, output := h.output ++ [handling h.clientSfd] }
    | .entered, false =>
      some { h with
        state := .returned
        output := h.output ++ [handling h.clientSfd, settingFails h.clientSfd] }
    | _, _ => none
  | .read r, h =>
    match h.state, r with
    | .reading, .bytes bs =>
      if 0 < bs.length ∧ bs.length ≤ bufferLen then
        let buffer := overwriteArray h.buffer bs
        match str buffer bs.length with
        | some s =>
          some { h with buffer := buffer, output := h.output ++ [received h.clientSfd s] }
        | none => some { h with buffer := buffer, state := .overran }
      else none
    | .reading, .endOfConnection =>
      some { h with state := .closed, output := h.output ++ [ends h.clientSfd] }
    | .reading, .error => some { h with state := .closed, output := h.output ++ [readError] }
    | _, _ => none

end Handler

/-- The process: the sockets of connections that are open, the threads in `connectionHandlers`,
and what `main` has printed. -/
structure Process where
  openSfds : List Nat
  connectionHandlers : List Handler
  output : List (List Byte)

/-- `accept` returns, with a socket and what the memory of the new thread holds, or -1; or one of
the threads takes a step. -/
inductive ServerEvent where
  | accepted (client : Option (Nat × List.Vector Byte bufferLen))
  | handler (i : Nat) (e : HandlerEvent)

namespace Process

/-- `main` in front of its loop. -/
def listening : Process := ⟨[], [], []⟩

/-- One step of `main` or of one of its threads. A socket that is open is not accepted again. -/
def step : ServerEvent → Process → Option Process
  | .accepted none, p =>
    some { p with output := p.output ++ [ascii "Failed to accept a client."] }
  | .accepted (some (sfd, buffer)), p =>
    if sfd ∈ p.openSfds then none
    else
      some { p with
        openSfds := p.openSfds ++ [sfd]
        connectionHandlers := p.connectionHandlers ++ [.new sfd buffer]
        output := p.output ++ [ascii ("Accepted a connection: " ++ toString sfd)] }
  | .handler i e, p =>
    (p.connectionHandlers[i]?).bind fun h => (h.step e).map fun h' =>
      { p with
        openSfds := if h'.state = .closed then p.openSfds.erase h.clientSfd else p.openSfds
        connectionHandlers := p.connectionHandlers.set i h' }

end Process

/-! ## What a thread prints -/

/-- The bytes of a read. -/
def HandlerEvent.bytes : HandlerEvent → Option (List Byte)
  | .read (.bytes bs) => some bs
  | _ => none

/-- The buffer after some reads, each of which overwrites its front. -/
def overlay (buffer : List.Vector Byte bufferLen) (chunks : List (List Byte)) :
    List.Vector Byte bufferLen :=
  chunks.foldl overwriteArray buffer

/-- After each of the reads there is the end of a string somewhere in the buffer. -/
def Terminated (buffer : List.Vector Byte bufferLen) (chunks : List (List Byte)) : Prop :=
  ∀ p, p <+: chunks → p ≠ [] → 0 ∈ (overlay buffer p).toList

/-- Before the first read nothing is asked of the buffer. -/
theorem terminated_nil (buffer : List.Vector Byte bufferLen) : Terminated buffer [] :=
  fun _ hp hne => absurd (List.prefix_nil.mp hp) hne

/-- One read more must leave a 0 in the buffer as well. -/
theorem terminated_concat {buffer : List.Vector Byte bufferLen} {chunks : List (List Byte)}
    {bs : List Byte} : Terminated buffer (chunks ++ [bs]) ↔
      Terminated buffer chunks ∧ 0 ∈ (overlay buffer (chunks ++ [bs])).toList := by
  constructor
  · intro h
    exact ⟨fun p hp hne => h p (hp.trans (List.prefix_append _ _)) hne,
      h _ (List.prefix_refl _) (List.append_ne_nil_of_right_ne_nil _ (List.cons_ne_nil _ _))⟩
  · rintro ⟨hchunks, hlast⟩ p hp hne
    rcases List.prefix_concat_iff.mp hp with rfl | hp
    · exact hlast
    · exact hchunks p hp hne

/-- The last read goes over what the others have left. -/
theorem overlay_concat (buffer : List.Vector Byte bufferLen) (chunks : List (List Byte))
    (bs : List Byte) :
    overlay buffer (chunks ++ [bs]) = overwriteArray (overlay buffer chunks) bs :=
  List.foldl_concat ..

/-- A read overwrites the front of the buffer. -/
theorem toList_overwriteArray (buffer : List.Vector Byte bufferLen) {bs : List Byte}
    (h : bs.length ≤ bufferLen) :
    (overwriteArray buffer bs).toList = bs ++ buffer.toList.drop bs.length := by
  change (overwrite buffer.toList 0 bs).take bufferLen = _
  have hlen := buffer.toList_length
  rw [overwrite, List.take_zero, List.nil_append, Nat.zero_add]
  apply List.take_of_length_le
  rw [List.length_append, List.length_drop]
  omega

/-- In front of a list, what comes before the first end is that of the list alone. -/
theorem take_takeWhile_append (p : Byte → Bool) (xs ys : List Byte) :
    ((xs ++ ys).takeWhile p).take xs.length = xs.takeWhile p := by
  induction xs with
  | nil => exact List.take_zero
  | cons x xs ih =>
    rw [List.cons_append, List.takeWhile_cons, List.takeWhile_cons]
    split
    · rw [List.length_cons, List.take_succ_cons, ih]
    · exact List.take_nil

namespace Handler

/-- The bytes of a read are printed up to the first 0, if the buffer is a C string. -/
theorem str_overwriteArray (buffer : List.Vector Byte bufferLen) {bs : List Byte}
    (h : bs.length ≤ bufferLen) :
    str (overwriteArray buffer bs) bs.length =
      if 0 ∈ (overwriteArray buffer bs).toList then some (bs.takeWhile (· ≠ 0)) else none := by
  rw [str, toList_overwriteArray buffer h, take_takeWhile_append]

/-- The lines for the bytes of some reads. -/
def lines (sfd : Nat) (chunks : List (List Byte)) : List (List Byte) :=
  chunks.map fun bs => received sfd (bs.takeWhile (· ≠ 0))

/-- One read more is one line more. -/
theorem lines_concat (sfd : Nat) (chunks : List (List Byte)) (bs : List Byte) :
    lines sfd (chunks ++ [bs]) = lines sfd chunks ++ [received sfd (bs.takeWhile (· ≠ 0))] :=
  List.map_append

/-- What a thread has printed when it has read some bytes into a buffer, and where it is. -/
def Reports (sfd : Nat) (buffer : List.Vector Byte bufferLen) (chunks : List (List Byte))
    (h : Handler) : Prop :=
  h.clientSfd = sfd ∧
  match h.state with
  | .entered => chunks = [] ∧ h.output = [] ∧ h.buffer = buffer
  | .returned => chunks = [] ∧ h.output = [handling sfd, settingFails sfd]
  | .reading => Terminated buffer chunks ∧ h.buffer = overlay buffer chunks ∧
      h.output = handling sfd :: lines sfd chunks
  | .closed => Terminated buffer chunks ∧
      (h.output = handling sfd :: lines sfd chunks ++ [ends sfd] ∨
        h.output = handling sfd :: lines sfd chunks ++ [readError])
  | .overran => ∃ before bs, chunks = before ++ [bs] ∧ Terminated buffer before ∧
      0 ∉ (overlay buffer chunks).toList ∧ h.output = handling sfd :: lines sfd before

variable {sfd : Nat} {buffer : List.Vector Byte bufferLen} {chunks : List (List Byte)}
  {h h' : Handler}

/-- A new thread has printed nothing. -/
theorem reports_new (sfd : Nat) (buffer : List.Vector Byte bufferLen) :
    (new sfd buffer).Reports sfd buffer [] :=
  ⟨rfl, rfl, rfl, rfl⟩

/-- A step prints the line of its read, if the read leaves a 0 in the buffer. -/
theorem step_reports {e : HandlerEvent} (hstep : step e h = some h')
    (hh : h.Reports sfd buffer chunks) : h'.Reports sfd buffer (chunks ++ e.bytes.toList) := by
  obtain ⟨rfl, hstate⟩ := hh
  cases e with
  | fcntl succeeds =>
    cases hs : h.state
    case entered =>
      rw [hs] at hstate
      obtain ⟨rfl, houtput, hbuffer⟩ := hstate
      cases succeeds <;> simp only [step, hs, Option.some.injEq] at hstep <;> subst hstep
      · exact ⟨rfl, rfl, by rw [houtput]; rfl⟩
      · exact ⟨rfl, terminated_nil _, hbuffer, by rw [houtput]; rfl⟩
    all_goals simp only [step, hs, reduceCtorEq] at hstep
  | read r =>
    cases hs : h.state
    case reading =>
      rw [hs] at hstate
      obtain ⟨hterminated, hbuffer, houtput⟩ := hstate
      cases r with
      | endOfConnection =>
        simp only [step, hs, Option.some.injEq] at hstep
        subst hstep
        rw [show (HandlerEvent.read .endOfConnection).bytes.toList = [] from rfl, List.append_nil]
        exact ⟨rfl, hterminated, Or.inl (by rw [houtput])⟩
      | error =>
        simp only [step, hs, Option.some.injEq] at hstep
        subst hstep
        rw [show (HandlerEvent.read .error).bytes.toList = [] from rfl, List.append_nil]
        exact ⟨rfl, hterminated, Or.inr (by rw [houtput])⟩
      | bytes bs =>
        have hover := overlay_concat buffer chunks bs
        rw [← hbuffer] at hover
        simp only [step, hs] at hstep
        split at hstep
        · next hlen =>
          rw [str_overwriteArray _ hlen.2, ← hover] at hstep
          by_cases hzero : 0 ∈ (overlay buffer (chunks ++ [bs])).toList
          · rw [if_pos hzero] at hstep
            cases hstep
            refine ⟨rfl, terminated_concat.mpr ⟨hterminated, hzero⟩, rfl, ?_⟩
            rw [houtput]
            exact congrArg _ (lines_concat _ _ _).symm
          · rw [if_neg hzero] at hstep
            cases hstep
            exact ⟨rfl, chunks, bs, rfl, hterminated, hzero, houtput⟩
        · cases hstep
    all_goals simp only [step, hs, reduceCtorEq] at hstep

/-- A thread that runs alone. -/
theorem exec_prints {events : List HandlerEvent}
    (hrun : Transition.exec step events (new sfd buffer) = some h) :
    h.Reports sfd buffer (events.filterMap HandlerEvent.bytes) := by
  have hstep : ∀ past e h h', step e h = some h' →
      h.Reports sfd buffer (past.filterMap HandlerEvent.bytes) →
        h'.Reports sfd buffer ((past ++ [e]).filterMap HandlerEvent.bytes) := by
    intro past e h h' hstep hh
    have hnext := step_reports hstep hh
    rw [List.filterMap_append]
    cases hbytes : e.bytes <;> rw [hbytes] at hnext
    · rwa [List.filterMap_cons_none hbytes, List.filterMap_nil]
    · rwa [List.filterMap_cons_some hbytes, List.filterMap_nil]
  have hnew : (new sfd buffer).Reports sfd buffer (List.filterMap HandlerEvent.bytes []) :=
    reports_new sfd buffer
  exact Transition.exec_history hstep hrun hnew

/-- A thread runs past its buffer exactly when some read leaves no end of a string in it. -/
theorem Reports.overran_iff (hh : h.Reports sfd buffer chunks) :
    h.state = .overran ↔ ¬ Terminated buffer chunks := by
  obtain ⟨-, hstate⟩ := hh
  cases hs : h.state <;> rw [hs] at hstate
  case overran =>
    obtain ⟨before, bs, rfl, -, hzero, -⟩ := hstate
    exact iff_of_true rfl fun hterminated => hzero (terminated_concat.mp hterminated).2
  case reading | closed => exact iff_of_false nofun (not_not_intro hstate.1)
  case entered | returned =>
    rw [hstate.1]
    exact iff_of_false nofun (not_not_intro (terminated_nil _))

end Handler

/-! ## The threads side by side -/

/-- The part of the event that is a step of the thread. -/
def ServerEvent.ofHandler (i : Nat) : ServerEvent → Option HandlerEvent
  | .handler j e => if j = i then some e else none
  | .accepted _ => none

/-- The part of the event that is an accepted connection. -/
def ServerEvent.client : ServerEvent → Option (Nat × List.Vector Byte bufferLen)
  | .accepted client => client
  | .handler _ _ => none

/-- The connections `main` has accepted, with the memory of their threads. -/
def accepts (events : List ServerEvent) : List (Nat × List.Vector Byte bufferLen) :=
  events.filterMap ServerEvent.client

/-- The bytes a thread has read. -/
def chunksOf (i : Nat) (events : List ServerEvent) : List (List Byte) :=
  (events.filterMap (ServerEvent.ofHandler i)).filterMap HandlerEvent.bytes

namespace Process

open Transition (exec exec_keeps Projects)

variable {p p' : Process}

/-- A step of a thread, with the thread before and after it. -/
theorem handler_step {i : Nat} {e : HandlerEvent} (h : step (.handler i e) p = some p') :
    ∃ handler handler', p.connectionHandlers[i]? = some handler ∧
      handler.step e = some handler' ∧
      p' = { p with
        openSfds := if handler'.state = .closed then p.openSfds.erase handler.clientSfd
          else p.openSfds
        connectionHandlers := p.connectionHandlers.set i handler' } := by
  obtain ⟨handler, hi, h⟩ := Option.bind_eq_some_iff.mp h
  obtain ⟨handler', hstep, rfl⟩ := Option.map_eq_some_iff.mp h
  exact ⟨handler, handler', hi, hstep, rfl⟩

/-- An accepted connection, whose socket was not open. -/
theorem accepted_step {sfd : Nat} {buffer : List.Vector Byte bufferLen}
    (h : step (.accepted (some (sfd, buffer))) p = some p') :
    sfd ∉ p.openSfds ∧ p' = { p with
      openSfds := p.openSfds ++ [sfd]
      connectionHandlers := p.connectionHandlers ++ [.new sfd buffer]
      output := p.output ++ [ascii ("Accepted a connection: " ++ toString sfd)] } := by
  rw [step] at h
  split at h
  · cases h
  · cases h
    exact ⟨‹_›, rfl⟩

/-- A thread begins with an accepted connection, and takes its own steps only. -/
theorem projects_handler (i : Nat) :
    Projects step Handler.step (ServerEvent.ofHandler i) (fun p => p.connectionHandlers[i]?)
      fun e h => ∃ sfd buffer, e = .accepted (some (sfd, buffer)) ∧ h = .new sfd buffer where
  appears := by
    intro e p p' h hnone
    match e with
    | .accepted none =>
      cases h
      refine ⟨rfl, fun c hc => ?_⟩
      cases hnone.symm.trans hc
    | .accepted (some (sfd, buffer)) =>
      obtain ⟨-, rfl⟩ := accepted_step h
      refine ⟨rfl, fun c hc => ⟨sfd, buffer, rfl, ?_⟩⟩
      have hi : p.connectionHandlers.length ≤ i := List.getElem?_eq_none_iff.mp hnone
      change (p.connectionHandlers ++ [Handler.new sfd buffer])[i]? = some c at hc
      rw [List.getElem?_append_right hi] at hc
      exact List.mem_singleton.mp (List.mem_of_getElem? hc)
    | .handler j e =>
      obtain ⟨handler, handler', hj, -, rfl⟩ := handler_step h
      have hji : j ≠ i := by
        rintro rfl
        cases hnone.symm.trans hj
      refine ⟨if_neg hji, fun c hc => ?_⟩
      change (p.connectionHandlers.set j handler')[i]? = some c at hc
      rw [List.getElem?_set_ne hji] at hc
      cases hnone.symm.trans hc
  steps := by
    intro e p p' c h hc
    match e with
    | .accepted none =>
      cases h
      exact ⟨c, rfl, hc⟩
    | .accepted (some (sfd, buffer)) =>
      obtain ⟨-, rfl⟩ := accepted_step h
      obtain ⟨hi, -⟩ := List.getElem?_eq_some_iff.mp hc
      exact ⟨c, rfl, (List.getElem?_append_left hi).trans hc⟩
    | .handler j e =>
      obtain ⟨handler, handler', hj, hstep, rfl⟩ := handler_step h
      by_cases hji : j = i
      · subst hji
        obtain ⟨hlt, -⟩ := List.getElem?_eq_some_iff.mp hj
        obtain rfl : handler = c := Option.some.inj (hj.symm.trans hc)
        refine ⟨handler', ?_, List.getElem?_set_self hlt⟩
        rw [ServerEvent.ofHandler, if_pos rfl]
        exact (Transition.exec_cons_of_step _ hstep []).trans rfl
      · refine ⟨c, ?_, (List.getElem?_set_ne hji).trans hc⟩
        rw [ServerEvent.ofHandler, if_neg hji]
        rfl

/-- There is a thread for each accepted connection. -/
theorem length_accepts {events : List ServerEvent} (h : exec step events listening = some p) :
    (accepts events).length = p.connectionHandlers.length := by
  have hstart : (accepts []).length = listening.connectionHandlers.length := rfl
  refine Transition.exec_history (I := fun past p =>
    (accepts past).length = p.connectionHandlers.length) (fun past e p p' hstep hp => ?_) h hstart
  rw [accepts, List.filterMap_append, List.length_append, ← accepts, hp]
  match e with
  | .accepted none =>
    cases hstep
    rfl
  | .accepted (some (sfd, buffer)) =>
    obtain ⟨-, rfl⟩ := accepted_step hstep
    change _ = (p.connectionHandlers ++ [Handler.new sfd buffer]).length
    rw [List.length_append]
    rfl
  | .handler i e =>
    obtain ⟨_, handler', -, -, rfl⟩ := handler_step hstep
    change _ = (p.connectionHandlers.set i handler').length
    rw [List.length_set]
    rfl

/-- A thread was started with the connection that was accepted for it, and takes its own steps from
there. -/
theorem exec_handler {events : List ServerEvent} (h : exec step events listening = some p)
    {i : Nat} {handler : Handler} (hi : p.connectionHandlers[i]? = some handler) :
    ∃ sfd buffer, (accepts events)[i]? = some (sfd, buffer) ∧
      exec Handler.step (events.filterMap (ServerEvent.ofHandler i)) (.new sfd buffer) =
        some handler := by
  obtain ⟨before, e, after, q, q', c, rfl, hbefore, hstep, hnone, hc, ⟨sfd, buffer, rfl, rfl⟩,
    hown⟩ := (projects_handler i).exec h rfl hi
  refine ⟨sfd, buffer, ?_, hown⟩
  -- the thread is the next one when its connection is accepted
  have hcount : (accepts before).length = i := by
    rw [length_accepts hbefore]
    obtain ⟨-, rfl⟩ := accepted_step hstep
    obtain ⟨hlt, -⟩ := List.getElem?_eq_some_iff.mp hc
    have hle := List.getElem?_eq_none_iff.mp hnone
    rw [List.length_append, List.length_singleton] at hlt
    omega
  have hall : accepts (before ++ .accepted (some (sfd, buffer)) :: after) =
      accepts before ++ (sfd, buffer) :: accepts after := List.filterMap_append
  rw [hall, ← hcount, List.getElem?_append_right le_rfl, Nat.sub_self, List.getElem?_cons_zero]

/-- However the threads are interleaved, each prints what it has read itself: one line for each
read, cut at the first 0. It is undefined what a thread does exactly when one of its reads
leaves no 0 in the buffer it was started with. -/
theorem exec_reports {events : List ServerEvent} (h : exec step events listening = some p)
    {i : Nat} {handler : Handler} (hi : p.connectionHandlers[i]? = some handler) :
    ∃ sfd buffer, (accepts events)[i]? = some (sfd, buffer) ∧
      handler.Reports sfd buffer (chunksOf i events) ∧
      (handler.state = .overran ↔ ¬ Terminated buffer (chunksOf i events)) := by
  obtain ⟨sfd, buffer, haccepted, hown⟩ := exec_handler h hi
  have hreports : handler.Reports sfd buffer (chunksOf i events) := Handler.exec_prints hown
  exact ⟨sfd, buffer, haccepted, hreports, hreports.overran_iff⟩

/-- Two connections, and a read of the second one behind a read of the first one, whose thread has
no end of a string in its buffer. -/
def twoReads : List ServerEvent :=
  [.accepted (some (4, List.Vector.replicate bufferLen 1)),
    .accepted (some (5, List.Vector.replicate bufferLen 0)), .handler 0 (.fcntl true),
    .handler 1 (.fcntl true), .handler 0 (.read (.bytes [72])),
    .handler 1 (.read (.bytes [72, 105]))]

theorem exec_reports_two : ∃ p handler, exec step twoReads listening = some p ∧
    p.connectionHandlers[1]? = some handler ∧
    handler.Reports 5 (List.Vector.replicate bufferLen 0) [[72, 105]] := by
  obtain ⟨p, handler, hp, hhandler⟩ : ∃ p handler, exec step twoReads listening = some p ∧
      p.connectionHandlers[1]? = some handler := ⟨_, _, rfl, rfl⟩
  obtain ⟨sfd, buffer, haccepted, hreports, -⟩ := exec_reports hp hhandler
  obtain ⟨rfl, rfl⟩ := Prod.mk.inj (Option.some.inj haccepted)
  exact ⟨p, handler, hp, hhandler, hreports⟩

end Process

/-! ## Sockets -/

/-- A thread that has not closed its socket. -/
def Handler.holds (h : Handler) : Bool := h.state ≠ .closed

/-- A thread that takes a step keeps its socket and has not closed it before. -/
theorem Handler.step_holds {e : HandlerEvent} {h h' : Handler} (hstep : h.step e = some h') :
    h'.clientSfd = h.clientSfd ∧ h.holds = true := by
  cases e with
  | fcntl succeeds =>
    cases hs : h.state
    case entered =>
      cases succeeds <;> simp only [step, hs, Option.some.injEq] at hstep <;> subst hstep <;>
        exact ⟨rfl, by rw [holds, hs]; rfl⟩
    all_goals simp only [step, hs, reduceCtorEq] at hstep
  | read r =>
    cases hs : h.state
    case reading =>
      refine ⟨?_, by rw [holds, hs]; rfl⟩
      cases r with
      | bytes bs =>
        simp only [step, hs] at hstep
        split at hstep
        · cases hstr : str (overwriteArray h.buffer bs) bs.length <;> rw [hstr] at hstep <;>
            cases hstep <;> rfl
        · cases hstep
      | endOfConnection | error =>
        simp only [step, hs, Option.some.injEq] at hstep
        subst hstep
        rfl
    all_goals simp only [step, hs, reduceCtorEq] at hstep

namespace Process

open Transition (exec exec_keeps)

/-- The open sockets are those of the threads that have not closed theirs, one for each. -/
structure Owned (p : Process) : Prop where
  nodup : p.openSfds.Nodup
  perm : p.openSfds.Perm ((p.connectionHandlers.filter Handler.holds).map Handler.clientSfd)

/-- At first no client socket is open. -/
theorem owned_listening : listening.Owned := ⟨List.nodup_nil, List.Perm.nil⟩

variable {p p' : Process}

/-- The socket of a thread that has not closed it is open. -/
theorem Owned.mem_openSfds (hp : p.Owned) {h : Handler} (hh : h ∈ p.connectionHandlers)
    (hholds : h.holds = true) : h.clientSfd ∈ p.openSfds :=
  hp.perm.mem_iff.mpr (List.mem_map_of_mem (List.mem_filter.mpr ⟨hh, hholds⟩))

/-- A socket is opened by `accept`, which gives out one that is not open, and is closed by its own
thread. -/
theorem step_owned {e : ServerEvent} (h : step e p = some p') (hp : p.Owned) : p'.Owned := by
  match e with
  | .accepted none =>
    cases h
    exact ⟨hp.nodup, hp.perm⟩
  | .accepted (some (sfd, buffer)) =>
    obtain ⟨hnew, rfl⟩ := accepted_step h
    constructor
    · exact List.nodup_append.mpr ⟨hp.nodup, List.nodup_singleton sfd, by
        rintro x hx y hy rfl
        exact hnew (List.mem_singleton.mp hy ▸ hx)⟩
    · change (p.openSfds ++ [sfd]).Perm
        (((p.connectionHandlers ++ [Handler.new sfd buffer]).filter Handler.holds).map _)
      rw [List.filter_append, List.map_append]
      exact hp.perm.append_right [sfd]
  | .handler i e =>
    obtain ⟨handler, handler', hi, hstep, rfl⟩ := handler_step h
    obtain ⟨hsfd, hholds⟩ := Handler.step_holds hstep
    obtain ⟨hlt, hget⟩ := List.getElem?_eq_some_iff.mp hi
    obtain ⟨before, after, hsplit, -, hset⟩ :=
      @List.exists_of_set _ i handler' p.connectionHandlers hlt
    rw [hget] at hsplit
    have hperm := hp.perm
    rw [hsplit, List.filter_append, List.filter_cons_of_pos hholds, List.map_append,
      List.map_cons] at hperm
    by_cases hclosed : handler'.state = .closed
    · have hnot : handler'.holds = false := decide_eq_false (not_not_intro hclosed)
      constructor
      · rw [if_pos hclosed]
        exact hp.nodup.erase _
      · rw [if_pos hclosed, hset, List.filter_append, List.filter_cons_of_neg (by simp [hnot]),
          List.map_append]
        have herase := (hperm.trans List.perm_middle).erase handler.clientSfd
        rwa [List.erase_cons_head] at herase
    · have hkept : handler'.holds = true := decide_eq_true hclosed
      constructor
      · rw [if_neg hclosed]
        exact hp.nodup
      · rw [if_neg hclosed, hset, List.filter_append, List.filter_cons_of_pos hkept,
          List.map_append, List.map_cons, hsfd]
        exact hperm

/-- In every run, the open sockets are those of the threads that have not closed theirs, no two of
these have the same one, and a thread that takes a step, which may be to close its socket, finds
it open. -/
theorem exec_owned {events : List ServerEvent} (h : exec step events listening = some p) :
    p.openSfds.Perm ((p.connectionHandlers.filter Handler.holds).map Handler.clientSfd) ∧
    (∀ (i j : Nat) (handler other : Handler), p.connectionHandlers[i]? = some handler →
      p.connectionHandlers[j]? = some other → handler.holds = true → other.holds = true →
        handler.clientSfd = other.clientSfd → i = j) ∧
    ∀ i e p', step (.handler i e) p = some p' → ∃ handler,
      p.connectionHandlers[i]? = some handler ∧ handler.clientSfd ∈ p.openSfds := by
  have hp : p.Owned := exec_keeps (fun _ _ _ => step_owned) h owned_listening
  have hpairwise : p.connectionHandlers.Pairwise fun handler other =>
      handler.holds = true → other.holds = true → handler.clientSfd ≠ other.clientSfd := by
    have hnodup := hp.perm.nodup_iff.mp hp.nodup
    exact List.pairwise_filter.mp (List.pairwise_map.mp hnodup)
  refine ⟨hp.perm, ?_, ?_⟩
  · intro i j handler other hi hj hholds hother hsfd
    obtain ⟨hlti, rfl⟩ := List.getElem?_eq_some_iff.mp hi
    obtain ⟨hltj, rfl⟩ := List.getElem?_eq_some_iff.mp hj
    rw [List.pairwise_iff_getElem] at hpairwise
    rcases Nat.lt_trichotomy i j with hlt | heq | hgt
    · exact absurd hsfd (hpairwise i j hlti hltj hlt hholds hother)
    · exact heq
    · exact absurd hsfd.symm (hpairwise j i hltj hlti hgt hother hholds)
  · intro i e p' hstep
    obtain ⟨handler, handler', hi, hown, -⟩ := handler_step hstep
    exact ⟨handler, hi,
      hp.mem_openSfds (List.mem_of_getElem? hi) (Handler.step_holds hown).2⟩

/-- A socket is accepted again after it has been closed. -/
theorem exec_owned_again : ∃ p,
    exec step [.accepted (some (4, List.Vector.replicate bufferLen 0)), .handler 0 (.fcntl true),
      .handler 0 (.read .endOfConnection),
      .accepted (some (4, List.Vector.replicate bufferLen 0))] listening = some p ∧
    p.openSfds.Perm ((p.connectionHandlers.filter Handler.holds).map Handler.clientSfd) :=
  Exists.imp (fun _ hp => ⟨hp, (exec_owned hp).1⟩) ⟨_, rfl⟩

end Process

end BananaApi.Server
