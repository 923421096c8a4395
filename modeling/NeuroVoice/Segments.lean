import NeuroVoice.Socket
import NeuroVoice.Lib.Calls

/-!
# NeuroVoice.Segments

What a connection makes of its client's text.

`openConversation` is `conversation` with its calls of `_flush_segment` left
open: a `CallEff` is an await on the socket, or such a call with the segment
it hands over.  `fill_openConversation` puts the callee back.  In a history of
the open program one can read off what was received and what was handed over,
and `text_conserved_iff` compares the two, whitespace aside.
-/

namespace NeuroVoice

/-! ## the conversation with its calls open -/

/-- An await of a connection, or a call of `_flush_segment`. -/
inductive CallEff where
  | on (e : SocketEff)
  | flush (st : WsState) (segment : PyStr)

/-- What it returns. -/
@[reducible] def CallRet : CallEff → Type
  | .on e => SocketRet e
  | .flush _ _ => WsState

/-- A value, or the exception it raises. -/
abbrev CallAns (e : CallEff) : Type := Except Exn (CallRet e)

/-- A coroutine of a connection, with open calls. -/
abbrev CallPy (α : Type) : Type := ExceptT Exn (Prog CallEff CallAns) α

/-- `receive_text`. -/
def openReceive : CallPy Received := callE (X := Exn) (CallEff.on .receive)

/-- The call of `_flush_segment`. -/
def callFlush (st : WsState) (segment : PyStr) : CallPy WsState :=
  callE (X := Exn) (CallEff.flush st segment)

/-- A coroutine without such calls. -/
def noCalls {α : Type} (x : SocketPy α) : CallPy α :=
  ExceptT.mk (Prog.embed CallEff.on x.run : Prog CallEff CallAns (Except Exn α))

section conversation

variable (S : SocketSettings)

/-- `flushNonempty`. -/
def openFlush (conn : Connection) (segment : PyStr) : CallPy Connection := do
  if segment.isEmpty then return conn
  let state ← callFlush conn.state segment
  return { conn with state }

/-- A message's `flush`. -/
def flushOf (msg : Dict) : Bool := ((msg.get (py "flush")).getD .null).truthy

/-- `takeText`. -/
def openTakeText (conn : Connection) (msg : Dict) : CallPy Connection := do
  if 20000 < conn.buffer.length + (textOf msg).length then do
    noCalls (io (sendError "buffer_overflow"))
    return { conn with buffer := [] }
  let (segment, remainder) := nextSegment (conn.buffer ++ textOf msg) (flushOf msg)
  openFlush { conn with buffer := remainder } segment

/-- `takeMessage`. -/
def openTakeMessage (conn : Connection) (msg : Dict) : CallPy LoopStep := do
  match (applyConfig S msg).run conn.state with
  | .error e => throw e
  | .ok (.error code, state) => do
      noCalls (io (sendError code))
      return .proceed { conn with state }
  | .ok (.ok _, state) =>
      match msg.get (py "close") with
      | some (.bool true) => return .stop { conn with state }
      | _ => do
          let conn ← openTakeText { conn with state } msg
          return .proceed conn

/-- `receiveOne`. -/
def openReceiveOne (conn : Connection) : CallPy LoopStep := do
  match ← openReceive with
  | .timeout => do
      noCalls (io (sendError "idle_timeout"))
      return .stop conn
  | .invalidJson => do
      noCalls (io (sendError "invalid_json"))
      return .proceed conn
  | .unloadable x => throw (.foreign x)
  | .notObject => do
      noCalls (io (sendError "invalid_message"))
      return .proceed conn
  | .object msg => openTakeMessage S conn msg

/-- `inboundLoop`. -/
def openLoop : Nat → Connection → CallPy Connection
  | 0, _ => throw .stillRunning
  | n + 1, conn => do
      match ← openReceiveOne S conn with
      | .proceed conn => openLoop n conn
      | .stop conn => return conn

/-- The `done` frame of `conversation`. -/
def sendDone : SocketPy Unit := do
  match ← attempt (onSocket .done) with
  | .error (.foreign .webSocketDisconnect) => pure ()
  | r => settle r

/-- `conversation`. -/
def openConversation (messages : Nat) : CallPy Unit := do
  let conn ← openLoop S messages {}
  let _ ← openFlush conn (stripBy isSpace conn.buffer)
  noCalls sendDone

end conversation

/-! ## the callee -/

section callee

variable (S : SocketSettings) (ctx : AuthContext) (slug : PyStr) (appLabel : Option PyStr)
  (fuel : Nat)

/-- `_flush_segment` for its calls. -/
def callee : (e : CallEff) → Prog SocketEff SocketAns (CallAns e)
  | .on e => .perform e
  | .flush st segment => (io (flushSegment S.toSettings ctx slug appLabel fuel st segment)).run

/-- The program with its calls filled in. -/
abbrev filled {α : Type} (x : CallPy α) : SocketPy α :=
  fillE (callee S ctx slug appLabel fuel) x

variable {S ctx slug appLabel fuel}

/-- A program without a flush needs nothing filled in. -/
@[simp] theorem filled_noCalls {α : Type} (x : SocketPy α) :
    filled S ctx slug appLabel fuel (noCalls x) = x :=
  @Prog.fill_embed SocketEff CallEff CallAns _ CallEff.on (callee S ctx slug appLabel fuel)
    (fun _ => rfl) x.run

/-- A message is received as in the source. -/
@[simp] theorem filled_openReceive :
    filled S ctx slug appLabel fuel openReceive = onSocket .receive :=
  fillE_callE _ _

/-- A flush is filled in with the source's own. -/
@[simp] theorem filled_callFlush (st : WsState) (segment : PyStr) :
    filled S ctx slug appLabel fuel (callFlush st segment) =
      io (flushSegment S.toSettings ctx slug appLabel fuel st segment) :=
  fillE_callE _ _

/-- A segment is handed over as in the source. -/
@[simp] theorem filled_openFlush (conn : Connection) (segment : PyStr) :
    filled S ctx slug appLabel fuel (openFlush conn segment) =
      flushNonempty S ctx slug appLabel fuel conn segment := by
  unfold openFlush flushNonempty
  simp

/-- Its text is taken as in the source. -/
@[simp] theorem filled_openTakeText (conn : Connection) (msg : Dict) :
    filled S ctx slug appLabel fuel (openTakeText conn msg) =
      takeText S ctx slug appLabel fuel conn msg := by
  unfold openTakeText takeText
  simp [flushOf]

/-- A message is taken as in the source. -/
@[simp] theorem filled_openTakeMessage (conn : Connection) (msg : Dict) :
    filled S ctx slug appLabel fuel (openTakeMessage S conn msg) =
      takeMessage S ctx slug appLabel fuel conn msg := by
  unfold openTakeMessage takeMessage
  rcases (applyConfig S msg).run conn.state with e | ⟨code | _, state⟩
  · rfl
  · simp
  · dsimp only
    cases msg.get (py "close") with
    | none => simp
    | some v =>
        cases v with
        | bool b => cases b <;> simp
        | _ => simp

/-- One turn of the loop is the source's. -/
@[simp] theorem filled_openReceiveOne (conn : Connection) :
    filled S ctx slug appLabel fuel (openReceiveOne S conn) =
      receiveOne S ctx slug appLabel fuel conn := by
  unfold openReceiveOne receiveOne
  simp only [fillE_bind, filled_openReceive]
  congr 1
  funext rcv
  cases rcv <;> simp

/-- The loop is the source's, by induction on the messages. -/
@[simp] theorem filled_openLoop (n : Nat) (conn : Connection) :
    filled S ctx slug appLabel fuel (openLoop S n conn) =
      inboundLoop S ctx slug appLabel fuel n conn := by
  induction n generalizing conn with
  | zero => rfl
  | succ n ih =>
      unfold openLoop inboundLoop
      simp only [fillE_bind, filled_openReceiveOne]
      congr 1
      funext step
      cases step <;> simp [ih]

/-- **The open conversation is the conversation.** -/
theorem fill_openConversation (messages : Nat) :
    filled S ctx slug appLabel fuel (openConversation S messages) =
      conversation S ctx slug appLabel fuel messages := by
  unfold openConversation conversation
  simp only [fillE_bind, filled_openLoop, filled_openFlush, filled_noCalls]
  rfl

end callee

/-! ## the cuts -/

/-- A cut loses no character but white space. -/
theorem content_splitAtLastBoundary (buf : PyStr) :
    content (splitAtLastBoundary buf).1 ++ content (splitAtLastBoundary buf).2 = content buf := by
  unfold splitAtLastBoundary
  split
  · rfl
  · exact content_cut buf _

/-- **Whichever rule cuts, nothing is lost**: the segment and what stays
buffered are the buffer. -/
theorem content_nextSegment (buf : PyStr) (forceFlush : Bool) :
    content (nextSegment buf forceFlush).1 ++ content (nextSegment buf forceFlush).2 =
      content buf := by
  unfold nextSegment
  dsimp only
  split
  · simp
  · split
    · exact content_splitAtLastBoundary buf
    · split
      · exact content_cut buf _
      · rfl

/-! ## which messages are accepted -/

/-- The configuration in force does not matter for what is raised or
answered. -/
def Blind {α : Type} (x : Configuring α) : Prop :=
  ∀ st st', (x.run st).map Prod.fst = (x.run st').map Prod.fst

namespace Blind

variable {α β : Type}

/-- What is blind in its parts is blind. -/
theorem bind {x : Configuring α} {f : α → Configuring β} (hx : Blind x) (hf : ∀ a, Blind (f a)) :
    Blind (x >>= f) := by
  intro st st'
  have hrun (st : WsState) : (x >>= f).run st = (x.run st).bind fun
      | (.ok a, s) => (f a).run s
      | (.error code, s) => .ok (.error code, s) := by
    refine congrArg (Except.bind (x.run st)) (funext fun ⟨r, s⟩ => ?_)
    cases r <;> rfl
  have h := hx st st'
  rw [hrun, hrun]
  generalize x.run st = before at h ⊢
  generalize x.run st' = after at h ⊢
  rcases before with e | ⟨r, s⟩ <;> rcases after with e' | ⟨r', s'⟩ <;> cases h
  · rfl
  · cases r with
    | ok a => exact hf a s s'
    | error code => rfl

/-- A branch is blind if both sides are. -/
theorem ite {c : Prop} [Decidable c] {x y : Configuring α} (hx : Blind x) (hy : Blind y) :
    Blind (if c then x else y) := by
  split
  · exact hx
  · exact hy

/-- A `ValueError` becomes a code, whatever the state. -/
theorem codeOnValueError (code : String) (r : Except Foreign α) :
    Blind (NeuroVoice.codeOnValueError code r) := by
  intro st st'
  cases r with
  | ok a => rfl
  | error x => cases x <;> rfl

/-- A member is looked at in the message, not in the state. -/
theorem onMember {msg : Dict} {k : String} {f : Json → Configuring Unit} (hf : ∀ v, Blind (f v)) :
    Blind (NeuroVoice.onMember msg k f) := by
  unfold NeuroVoice.onMember
  split
  · exact hf _
  · exact fun _ _ => rfl

end Blind

/-- Whether a configuration is accepted does not depend on the state. -/
theorem blind_applyConfig (S : SocketSettings) (msg : Dict) : Blind (applyConfig S msg) := by
  unfold applyConfig
  refine Blind.bind (.onMember fun v => ?_) fun _ => ?_
  · split <;> exact fun _ _ => rfl
  refine Blind.bind (.onMember fun v => ?_) fun _ => ?_
  · split <;> exact fun _ _ => rfl
  refine Blind.bind (.onMember fun v => ?_) fun _ => ?_
  · exact (Blind.codeOnValueError _ _).bind fun _ _ _ => rfl
  refine Blind.bind (.onMember fun v => ?_) fun _ => ?_
  · refine Blind.bind ?_ fun _ _ _ => rfl
    unfold seedOf
    split
    · exact Blind.ite (fun _ _ => rfl) fun _ _ => rfl
    · exact fun _ _ => rfl
    · exact Blind.codeOnValueError _ _
  refine Blind.bind (.onMember fun v => ?_) fun _ => ?_
  · exact Blind.bind (Blind.ite (fun _ _ => rfl) fun _ _ => rfl) fun _ _ _ => rfl
  refine Blind.bind (.onMember fun v => ?_) fun _ => ?_
  · exact Blind.bind (Blind.ite (fun _ _ => rfl) fun _ _ => rfl) fun _ _ _ => rfl
  refine .onMember fun v => ?_
  exact (Blind.codeOnValueError _ _).bind fun _ _ _ => rfl

/-- The configuration in the message is not rejected. -/
def Accepts (S : SocketSettings) (msg : Dict) : Prop :=
  ∃ st, (applyConfig S msg).run {} = .ok (.ok (), st)

/-- … whatever was configured before. -/
theorem Accepts.run {S : SocketSettings} {msg : Dict} (h : Accepts S msg) (st : WsState) :
    ∃ st', (applyConfig S msg).run st = .ok (.ok (), st') := by
  obtain ⟨st₀, h⟩ := h
  have hsame := blind_applyConfig S msg {} st
  rw [h] at hsame
  generalize (applyConfig S msg).run st = now at hsame ⊢
  rcases now with e | ⟨r, st'⟩ <;> cases hsame
  exact ⟨st', rfl⟩

/-! ## runs -/

/-- What a run of the open conversation performed, with the answers. -/
abbrev CallHistory : Type := List ((e : CallEff) × CallAns e)

/-- The messages received, in order. -/
def received (h : CallHistory) : List Received :=
  h.filterMap fun
    | ⟨.on .receive, .ok r⟩ => some r
    | _ => none

/-- The segments handed to `_flush_segment`, in order. -/
def handed (h : CallHistory) : List PyStr :=
  h.filterMap fun
    | ⟨.flush _ segment, _⟩ => some segment
    | _ => none

/-- No await on the socket raised. -/
def NoDisconnect (h : CallHistory) : Prop := ∀ e x, ⟨.on e, .error x⟩ ∉ h

/-- No message finds more than 20000 characters buffered, with its own. -/
def Fits : PyStr → List Dict → Prop
  | _, [] => True
  | buf, msg :: msgs =>
      buf.length + (textOf msg).length ≤ 20000 ∧
        Fits (nextSegment (buf ++ textOf msg) (flushOf msg)).2 msgs

/-- The message says `"close": true`. -/
def Closes (msg : Dict) : Prop := msg.get (py "close") = some (.bool true)

/-- What ends the loop: the idle timeout, or a closing message. -/
def Received.Finishes (S : SocketSettings) : Received → Prop
  | .timeout => True
  | .object msg => Accepts S msg ∧ Closes msg
  | _ => False

/-- The text of a message; the timeout has none. -/
def Received.text : Received → PyStr
  | .object msg => textOf msg
  | _ => []

section runs

variable {S : SocketSettings} {h h' : CallHistory} {conn : Connection}

/-- Messages are received part by part. -/
@[simp] theorem received_append : received (h ++ h') = received h ++ received h' :=
  List.filterMap_append ..

/-- Segments are handed over part by part. -/
@[simp] theorem handed_append : handed (h ++ h') = handed h ++ handed h' :=
  List.filterMap_append ..

/-- A message that arrives is received. -/
@[simp] theorem received_receive (r : Received) :
    received (⟨.on .receive, .ok r⟩ :: h) = r :: received h := rfl

/-- It hands nothing over. -/
@[simp] theorem handed_receive (a : CallAns (.on .receive)) :
    handed (⟨.on .receive, a⟩ :: h) = handed h := rfl

/-- Without a disconnect there is none in the first part. -/
theorem NoDisconnect.left (hc : NoDisconnect (h ++ h')) : NoDisconnect h :=
  fun e x hx => hc e x (List.mem_append_left _ hx)

/-- Nor in the second. -/
theorem NoDisconnect.right (hc : NoDisconnect (h ++ h')) : NoDisconnect h' :=
  fun e x hx => hc e x (List.mem_append_right _ hx)

/-- A segment is handed over unless it is empty, whatever becomes of it. -/
theorem openFlush_ends {segment : PyStr} {r : Except Exn Connection}
    (hrun : EndsE (openFlush conn segment) h r) :
    received h = [] ∧ (handed h).flatten = segment ∧
      ∀ conn', r = .ok conn' → conn'.buffer = conn.buffer := by
  unfold openFlush at hrun
  split at hrun
  · next hempty =>
      obtain ⟨rfl, rfl⟩ := endsE_pure.1 hrun
      refine ⟨rfl, (List.isEmpty_iff.1 hempty).symm, ?_⟩
      rintro conn' ⟨⟩
      rfl
  · obtain ⟨e, rfl, hcall⟩ | ⟨state, h₁, h₂, rfl, hcall, hret⟩ := endsE_bind.1 hrun
    · obtain rfl := endsE_callE.1 hcall
      exact ⟨rfl, List.append_nil _, nofun⟩
    · obtain rfl := endsE_callE.1 hcall
      obtain ⟨rfl, rfl⟩ := endsE_pure.1 hret
      refine ⟨rfl, List.append_nil _, ?_⟩
      rintro conn' ⟨⟩
      rfl

/-- An error frame, to a client that is still there. -/
theorem sendError_ends {code : String} {r : Except Exn Unit}
    (hrun : EndsE (noCalls (io (sendError code))) h r) (hc : NoDisconnect h) :
    received h = [] ∧ handed h = [] ∧ r = .ok () := by
  obtain ⟨a, rest, rfl, hrest⟩ := hrun
  cases a with
  | error x => exact absurd List.mem_cons_self (hc _ x)
  | ok u =>
      obtain ⟨rfl, rfl⟩ := hrest
      exact ⟨rfl, rfl, rfl⟩

/-- The `done` frame. -/
theorem sendDone_ends {r : Except Exn Unit} (hrun : EndsE (noCalls sendDone) h r) :
    received h = [] ∧ handed h = [] := by
  obtain ⟨a, rest, rfl, hrest⟩ := hrun
  have hnil : rest = [] := by
    cases a with
    | ok u => exact hrest.1
    | error x =>
        cases x with
        | foreign f => cases f <;> exact hrest.1
        | _ => exact hrest.1
  subst hnil
  exact ⟨rfl, rfl⟩

/-- A message's text goes to a segment or into the buffer. -/
theorem openTakeText_ends {msg : Dict} {r : Except Exn Connection}
    (hrun : EndsE (openTakeText conn msg) h r)
    (hfit : conn.buffer.length + (textOf msg).length ≤ 20000) :
    received h = [] ∧ ∀ conn', r = .ok conn' →
      conn'.buffer = (nextSegment (conn.buffer ++ textOf msg) (flushOf msg)).2 ∧
      content (handed h).flatten ++ content conn'.buffer =
        content conn.buffer ++ content (textOf msg) := by
  set next := nextSegment (conn.buffer ++ textOf msg) (flushOf msg) with hnext
  have htake : openTakeText conn msg = openFlush { conn with buffer := next.2 } next.1 := by
    rw [openTakeText, if_neg (Nat.not_lt.2 hfit)]
  rw [htake] at hrun
  obtain ⟨hrec, hhand, hbuf⟩ := openFlush_ends hrun
  refine ⟨hrec, fun conn' hr => ⟨hbuf conn' hr, ?_⟩⟩
  have hbuf : conn'.buffer = next.2 := hbuf conn' hr
  rw [hhand, hbuf, content_nextSegment, content_append]

/-- A closing message is not looked at any further. -/
theorem openTakeMessage_closing {msg : Dict} {r : Except Exn LoopStep}
    (hrun : EndsE (openTakeMessage S conn msg) h r) (hacc : Accepts S msg) (hclose : Closes msg) :
    h = [] ∧ ∃ conn', r = .ok (.stop conn') ∧ conn'.buffer = conn.buffer := by
  obtain ⟨st, hst⟩ := hacc.run conn.state
  simp only [openTakeMessage, hst, show msg.get (py "close") = _ from hclose] at hrun
  obtain ⟨rfl, rfl⟩ := endsE_pure.1 hrun
  exact ⟨rfl, _, rfl, rfl⟩

/-- Any other message. -/
theorem openTakeMessage_proceeding {msg : Dict} {r : Except Exn LoopStep}
    (hrun : EndsE (openTakeMessage S conn msg) h r) (hacc : Accepts S msg)
    (hclose : ¬Closes msg) (hfit : conn.buffer.length + (textOf msg).length ≤ 20000) :
    received h = [] ∧ ((∃ e, r = .error e) ∨ ∃ conn', r = .ok (.proceed conn') ∧
      conn'.buffer = (nextSegment (conn.buffer ++ textOf msg) (flushOf msg)).2 ∧
      content (handed h).flatten ++ content conn'.buffer =
        content conn.buffer ++ content (textOf msg)) := by
  obtain ⟨st, hst⟩ := hacc.run conn.state
  have htake : openTakeMessage S conn msg = do
      let conn ← openTakeText { conn with state := st } msg
      return .proceed conn := by
    simp only [openTakeMessage, hst]
    split
    · next hc => exact absurd hc hclose
    · rfl
  rw [htake] at hrun
  obtain ⟨e, rfl, htext⟩ | ⟨conn', h₁, h₂, rfl, htext, hret⟩ := endsE_bind.1 hrun
  · exact ⟨(openTakeText_ends htext hfit).1, .inl ⟨e, rfl⟩⟩
  · obtain ⟨rfl, rfl⟩ := endsE_pure.1 hret
    obtain ⟨hrec, hkeep⟩ := openTakeText_ends htext hfit
    rw [List.append_nil]
    exact ⟨hrec, .inr ⟨conn', rfl, hkeep conn' rfl⟩⟩

/-- One iteration: a message arrives, and one that ends the loop leaves the
buffer alone. -/
theorem openReceiveOne_ends {r : Except Exn LoopStep}
    (hrun : EndsE (openReceiveOne S conn) h r) (hc : NoDisconnect h) :
    ∃ rcv rest, h = ⟨.on .receive, .ok rcv⟩ :: rest ∧
      (rcv.Finishes S → received rest = [] ∧ handed rest = [] ∧
        ∃ conn', r = .ok (.stop conn') ∧ conn'.buffer = conn.buffer) ∧
      ∀ msg, rcv = .object msg → EndsE (openTakeMessage S conn msg) rest r := by
  obtain ⟨e, rfl, hrecv⟩ | ⟨rcv, h₁, rest, rfl, hrecv, hrest⟩ := endsE_bind.1 hrun
  · obtain rfl := endsE_callE.1 hrecv
    exact absurd (List.mem_singleton_self _) (hc _ e)
  · obtain rfl := endsE_callE.1 hrecv
    refine ⟨rcv, rest, rfl, fun hfin => ?_, fun msg hmsg => by subst hmsg; exact hrest⟩
    cases rcv with
    | timeout =>
        obtain ⟨e, rfl, hsend⟩ | ⟨_, h₁, h₂, rfl, hsend, hret⟩ := endsE_bind.1 hrest
        · obtain ⟨-, -, hr⟩ := sendError_ends hsend hc.right
          cases hr
        · obtain ⟨rfl, rfl⟩ := endsE_pure.1 hret
          rw [List.append_nil] at hc ⊢
          obtain ⟨hrec, hhand, -⟩ := sendError_ends hsend hc.right
          exact ⟨hrec, hhand, conn, rfl, rfl⟩
    | object msg =>
        obtain ⟨rfl, hstop⟩ := openTakeMessage_closing hrest hfin.1 hfin.2
        exact ⟨rfl, rfl, hstop⟩
    | _ => exact hfin.elim

/-- **The loop keeps the text**: what it hands over and what it leaves in the
buffer are the texts of the messages before the last. -/
theorem openLoop_ends {n : Nat} {r : Except Exn Connection} {msgs : List Dict} {last : Received}
    (hrun : EndsE (openLoop S n conn) h r) (hc : NoDisconnect h)
    (hrec : received h = msgs.map .object ++ [last]) (hacc : ∀ msg ∈ msgs, Accepts S msg)
    (hlast : last.Finishes S) (hfit : Fits conn.buffer msgs) :
    ∃ conn', r = .ok conn' ∧ content (handed h).flatten ++ content conn'.buffer =
      content conn.buffer ++ content (msgs.map textOf).flatten := by
  induction n generalizing conn h msgs with
  | zero =>
      obtain ⟨rfl, rfl⟩ := endsE_throw.1 hrun
      simp [received] at hrec
  | succ n ih =>
      obtain ⟨e, rfl, hone⟩ | ⟨step, h₁, h₂, rfl, hone, hrest⟩ := endsE_bind.1 hrun
      · obtain ⟨rcv, rest, rfl, hfin, hmsg⟩ := openReceiveOne_ends hone hc
        rw [received_receive] at hrec
        cases msgs with
        | nil =>
            obtain ⟨rfl, -⟩ := List.cons.inj hrec
            obtain ⟨-, -, _, hr, -⟩ := hfin hlast
            cases hr
        | cons msg msgs =>
            obtain ⟨rfl, hmore⟩ := List.cons.inj hrec
            have haccm := hacc msg List.mem_cons_self
            have hnone : received rest = [] := by
              by_cases hclose : Closes msg
              · rw [(openTakeMessage_closing (hmsg msg rfl) haccm hclose).1]
                rfl
              · exact (openTakeMessage_proceeding (hmsg msg rfl) haccm hclose hfit.1).1
            rw [hnone] at hmore
            exact absurd hmore (by simp)
      · obtain ⟨rcv, rest, rfl, hfin, hmsg⟩ := openReceiveOne_ends hone hc.left
        rw [List.cons_append, received_receive, received_append] at hrec
        cases msgs with
        | nil =>
            obtain ⟨rfl, -⟩ := List.cons.inj hrec
            obtain ⟨-, hhand, conn', ⟨⟩, hbuf⟩ := hfin hlast
            obtain ⟨rfl, rfl⟩ := endsE_pure.1 hrest
            exact ⟨conn', rfl, by simp [hhand, hbuf]⟩
        | cons msg msgs =>
            obtain ⟨rfl, hmore⟩ := List.cons.inj hrec
            have haccm := hacc msg List.mem_cons_self
            by_cases hclose : Closes msg
            · obtain ⟨rfl, conn', ⟨⟩, -⟩ := openTakeMessage_closing (hmsg msg rfl) haccm hclose
              obtain ⟨rfl, -⟩ := endsE_pure.1 hrest
              simp [received] at hmore
            · obtain ⟨hnone, ⟨e, ⟨⟩⟩ | ⟨conn', ⟨⟩, hbuf, hkeep⟩⟩ :=
                openTakeMessage_proceeding (hmsg msg rfl) haccm hclose hfit.1
              rw [hnone, List.nil_append] at hmore
              obtain ⟨conn'', hr, hall⟩ := ih hrest hc.right hmore
                (fun m hm => hacc m (List.mem_cons_of_mem _ hm)) (hbuf ▸ hfit.2)
              refine ⟨conn'', hr, ?_⟩
              rw [List.cons_append, handed_receive, handed_append, List.flatten_append,
                content_append, List.append_assoc, hall, ← List.append_assoc, hkeep,
                List.map_cons, List.flatten_cons, content_append, List.append_assoc]

/-- **A conversation hands over the texts of all its messages but the
last.** -/
theorem openConversation_ends {n : Nat} {r : Except Exn Unit} {msgs : List Dict}
    {last : Received} (hrun : EndsE (openConversation S n) h r) (hc : NoDisconnect h)
    (hrec : received h = msgs.map .object ++ [last]) (hacc : ∀ msg ∈ msgs, Accepts S msg)
    (hlast : last.Finishes S) (hfit : Fits [] msgs) :
    content (handed h).flatten = content (msgs.map textOf).flatten := by
  obtain ⟨e, rfl, hloop⟩ | ⟨conn, h₁, h₂, rfl, hloop, hrest⟩ := endsE_bind.1 hrun
  · obtain ⟨_, hr, -⟩ := openLoop_ends hloop hc hrec hacc hlast hfit
    cases hr
  -- the drain and the `done` frame
  have hdrain : received h₂ = [] ∧ (handed h₂).flatten = stripBy isSpace conn.buffer := by
    obtain ⟨e, rfl, hflush⟩ | ⟨conn', h₃, h₄, rfl, hflush, hdone⟩ := endsE_bind.1 hrest
    · obtain ⟨hnone, hhand, -⟩ := openFlush_ends hflush
      exact ⟨hnone, hhand⟩
    · obtain ⟨hnone, hhand, -⟩ := openFlush_ends hflush
      obtain ⟨hnone', hhand'⟩ := sendDone_ends hdone
      simp [hnone, hnone', hhand, hhand']
  rw [received_append, hdrain.1, List.append_nil] at hrec
  obtain ⟨conn', ⟨⟩, hkeep⟩ := openLoop_ends hloop hc.left hrec hacc hlast hfit
  rw [handed_append, List.flatten_append, content_append, hdrain.2, content_stripBy, hkeep,
    content_nil, List.nil_append]

/-- **Conservation of text**: what a conversation hands over is what it
received, whitespace aside, exactly when the last message brings no text of
its own. -/
theorem text_conserved_iff {n : Nat} {r : Except Exn Unit} {msgs : List Dict} {last : Received}
    (hrun : EndsE (openConversation S n) h r) (hc : NoDisconnect h)
    (hrec : received h = msgs.map .object ++ [last]) (hacc : ∀ msg ∈ msgs, Accepts S msg)
    (hlast : last.Finishes S) (hfit : Fits [] msgs) :
    content (handed h).flatten = content ((received h).map Received.text).flatten ↔
      ∀ c ∈ last.text, isSpace c = true := by
  have htexts : ((received h).map Received.text).flatten =
      (msgs.map textOf).flatten ++ last.text := by
    rw [hrec, List.map_append, List.map_map, List.flatten_append]
    exact congrArg _ (List.append_nil _)
  rw [openConversation_ends hrun hc hrec hacc hlast hfit, htexts, content_append,
    ← content_eq_nil, List.self_eq_append_right]

end runs

/-! ## two conversations -/

/-- Default limits, and no voice settings. -/
def bareSocket : SocketSettings where
  repr _ := ""
  voiceIdMatches _ := true
  hashJobBody b := b.text
  hashSyncBody b := b.text
  hashSegment s := s
  presignedUrl u := u
  applyVoiceSettings pcm _ _ := .ok pcm
  voiceSettings _ := none
  strOf _ := []

/-- A message with a text. -/
def saying (text : String) : Dict := [(py "text", .str (py text))]

/-- A closing message with a text. -/
def goodbye (text : String) : Dict := saying text ++ [(py "close", .bool true)]

/-- The message arrives. -/
def hears (msg : Dict) : (e : CallEff) × CallAns e := ⟨.on .receive, .ok (.object msg)⟩

/-- The segment is handed over, and synthesized. -/
def hands (text : String) : (e : CallEff) × CallAns e := ⟨.flush {} (py text), .ok {}⟩

/-- The `done` frame. -/
def bids : (e : CallEff) × CallAns e := ⟨.on .done, .ok ()⟩

/-- It is seen from the answers of the socket. -/
theorem noDisconnect_of_all {h : CallHistory}
    (hall : h.all (fun x => match x with | ⟨.on _, .error _⟩ => false | _ => true) = true) :
    NoDisconnect h :=
  fun _ _ hx => nomatch List.all_eq_true.1 hall _ hx

/-- A sentence, half of one, and a close. -/
def shortTalk : CallHistory :=
  [hears (saying "Hello there. How"), hands "Hello there.", hears (saying " are you"),
    hears (goodbye " "), hands "How are you", bids]

/-- All text of a short conversation is handed over, as its closing message has only
a blank. -/
theorem text_conserved_example :
    content (handed shortTalk).flatten =
        content ((received shortTalk).map Received.text).flatten ↔
      ∀ c ∈ py " ", isSpace c = true := by
  have hrun : EndsE (openConversation bareSocket 3) shortTalk (.ok ()) :=
    ⟨_, _, rfl, _, _, rfl, _, _, rfl, _, _, rfl, _, _, rfl, _, _, rfl, rfl, rfl⟩
  have hacc : ∀ msg ∈ [saying "Hello there. How", saying " are you"], Accepts bareSocket msg := by
    intro msg hmsg
    rcases List.mem_pair.1 hmsg with rfl | rfl <;> exact ⟨_, rfl⟩
  have hlast : Received.Finishes bareSocket (.object (goodbye " ")) := ⟨⟨_, rfl⟩, rfl⟩
  exact text_conserved_iff hrun (noDisconnect_of_all rfl) rfl hacc hlast
    ⟨by decide, by decide, trivial⟩

/-- The text of a closing message is not handed over. -/
theorem closing_text_lost : ¬∀ n h r msgs last, EndsE (openConversation bareSocket n) h r →
    NoDisconnect h → received h = msgs.map .object ++ [last] →
    (∀ msg ∈ msgs, Accepts bareSocket msg) → last.Finishes bareSocket → Fits [] msgs →
    content (handed h).flatten = content ((received h).map Received.text).flatten := by
  intro hall
  have hrun : EndsE (openConversation bareSocket 1) [hears (goodbye "Goodbye."), bids] (.ok ()) :=
    ⟨_, _, rfl, _, _, rfl, rfl, rfl⟩
  have h := hall 1 _ (.ok ()) [] (.object (goodbye "Goodbye.")) hrun (noDisconnect_of_all rfl) rfl
    (by simp) ⟨⟨_, rfl⟩, rfl⟩ trivial
  exact absurd h (by decide)

end NeuroVoice
