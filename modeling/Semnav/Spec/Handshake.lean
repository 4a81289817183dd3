import Semnav.Lsp.Handshake
import Semnav.Spec.RequestPairing

/-!
# The handshake comes first

A server is to be sent nothing before it has answered `initialize`, and then `initialized` before
anything else.  A client is handed out only when its handshake is through, and its actor writes
what was enqueued in that order, so this holds however its messages, the server's answers, a
deadline and the end of the stream interleave.

## Key results

- `written_eq_messagesOf`: the actor writes the commands that it takes
- `HandshakeInv.actor`, `handshakeInv_of_run`: what holds at each point of a run
- `initialize_first`: every run
-/

namespace Semnav.Lsp

open Semnav.ForStd

/-- The name of the workspace is never empty, and no part of a scheme. -/
theorem workspaceNameFor_ne (rootUri : String) :
    workspaceNameFor rootUri ≠ "" ∧ ':' ∉ (workspaceNameFor rootUri).toList := by
  rw [workspaceNameFor]
  split
  · rename_i seg hfound
    have hseg := List.find?_some hfound
    simp only [Bool.and_eq_true, Bool.not_eq_true', List.isEmpty_eq_false_iff,
      List.contains_eq_mem, decide_eq_false_iff_not] at hseg
    rw [String.toList_ofList]
    refine ⟨fun hempty => hseg.1 ?_, hseg.2⟩
    rw [← String.toList_ofList (l := seg), hempty]
    rfl
  · decide

/-! ## What the actor writes -/

/-- The command that an input brings. -/
def Input.command : Input → Option Cmd
  | .cmd c _ => c
  | .inbound _ => none

/-- The commands that the actor has taken, in their order. -/
def takenCmds (inputs : List Input) : List Cmd := inputs.filterMap Input.command

/-- The message that an effect writes. -/
def Effect.message : Effect → Option Message
  | .write msg => some msg
  | .reply .. => none

/-- The messages that the actor has written, or tried to, in their order. -/
def written (effects : List Effect) : List Message := effects.filterMap Effect.message

/-- The messages that commands are written as, when the next request is to have this id. -/
def messagesOf : Id → List Cmd → List Message
  | _, [] => []
  | id, .request method params _ :: cmds => .request id method params :: messagesOf (id + 1) cmds
  | id, .notify method params :: cmds => .notification method params :: messagesOf id cmds

/-- The id of the next request after some commands. -/
def idAfterCmds : Id → List Cmd → Id
  | id, [] => id
  | id, .request .. :: cmds => idAfterCmds (id + 1) cmds
  | id, .notify .. :: cmds => idAfterCmds id cmds

/-- Commands are written in turn. -/
theorem messagesOf_append (id : Id) (cmds cmds' : List Cmd) :
    messagesOf id (cmds ++ cmds') =
      messagesOf id cmds ++ messagesOf (idAfterCmds id cmds) cmds' := by
  induction cmds generalizing id with
  | nil => rfl
  | cons cmd cmds ih =>
    cases cmd with
    | request method params reply =>
      rw [List.cons_append, messagesOf, messagesOf, idAfterCmds, ih, List.cons_append]
    | notify method params =>
      rw [List.cons_append, messagesOf, messagesOf, idAfterCmds, ih, List.cons_append]

/-- The ids are counted on over two parts of the commands. -/
theorem idAfterCmds_append (id : Id) (cmds cmds' : List Cmd) :
    idAfterCmds id (cmds ++ cmds') = idAfterCmds (idAfterCmds id cmds) cmds' := by
  induction cmds generalizing id with
  | nil => rfl
  | cons cmd cmds ih =>
    cases cmd with
    | request method params reply => exact ih (id + 1)
    | notify method params => exact ih id

/-- A prefix of the commands writes a prefix. -/
private theorem messagesOf_isPrefix (id : Id) {cmds cmds' : List Cmd} (h : cmds <+: cmds') :
    messagesOf id cmds <+: messagesOf id cmds' := by
  obtain ⟨rest, rfl⟩ := h
  rw [messagesOf_append]
  exact List.prefix_append _ _

/-- The commands taken from two parts of the inputs are those of each part. -/
theorem takenCmds_append (inputs inputs' : List Input) :
    takenCmds (inputs ++ inputs') = takenCmds inputs ++ takenCmds inputs' :=
  List.filterMap_append

/-- What two parts of the effects write is what each of them writes. -/
theorem written_append (effects effects' : List Effect) :
    written (effects ++ effects') = written effects ++ written effects' := List.filterMap_append

/-- What is drained are replies. -/
private theorem written_drain (a : Actor) : written (drain a).2 = [] := by
  refine List.filterMap_eq_nil_iff.mpr fun e he => ?_
  obtain ⟨p, -, rfl⟩ := List.mem_map.mp he
  rfl

/-- Settling a request writes nothing. -/
private theorem written_settle (pending : List (Id × Channel)) (id : Id) (value : Reply) :
    written (settle pending id value).2 = [] := by
  unfold settle
  cases pending.lookup id <;> rfl

/-- An iteration writes the command it takes. -/
private theorem actorStep_written (a : Actor) (input : Input) :
    written (actorStep a input).2 = messagesOf a.nextId (takenCmds [input]) ∧
      (actorStep a input).1.nextId = idAfterCmds a.nextId (takenCmds [input]) := by
  -- By the input: what is read writes no message, a command writes its own.
  cases input with
  | inbound event =>
    cases event with
    | none => exact ⟨rfl, rfl⟩
    | some event =>
      cases event with
      | eof => exact ⟨rfl, rfl⟩
      | failed reason => exact ⟨rfl, rfl⟩
      | message msg =>
        -- Settling a pending request writes nothing.
        refine ⟨?_, rfl⟩
        cases msg with
        | response id result => exact written_settle a.pending id (.ok result)
        | error id e => exact written_settle a.pending id (.error e)
        | request id method params => rfl
        | notification method params => rfl
  | cmd cmd outcome =>
    cases cmd with
    | none => exact ⟨rfl, rfl⟩
    | some cmd =>
      cases cmd with
      | notify method params => exact ⟨rfl, rfl⟩
      | request method params reply =>
        cases outcome with
        | ok _ => exact ⟨rfl, rfl⟩
        | error e => exact ⟨rfl, rfl⟩

/-- The loop writes the messages of the commands it takes. -/
private theorem actorLoop_written (a : Actor) (input : Input) :
    written (actorLoop a input).2 = messagesOf a.nextId (takenCmds [input]) ∧
      (actorLoop a input).1.nextId = idAfterCmds a.nextId (takenCmds [input]) := by
  obtain ⟨hwritten, hnext⟩ := actorStep_written a input
  by_cases halive : (actorStep a input).1.alive = true
  · rw [actorLoop_of_alive halive]
    exact ⟨hwritten, hnext⟩
  · rw [actorLoop_of_ended halive, written_append, written_drain, List.append_nil]
    exact ⟨hwritten, hnext⟩

/-- The actor writes the commands that it takes. -/
private theorem written_eq_messagesOf {inputs : List Input} {effects : List Effect} {c : Client}
    (hrun : ClientRun inputs effects c) :
    written effects = messagesOf 1 (takenCmds inputs) ∧
      c.actor.nextId = idAfterCmds 1 (takenCmds inputs) := by
  induction hrun with
  | spawn => exact ⟨rfl, rfl⟩
  | request _ _ _ _ _ ih => exact ih
  | notify _ _ _ _ _ ih => exact ih
  | giveUp _ _ _ ih => exact ih
  | @actor inputs effects c _ _ input cmds _ ih =>
    obtain ⟨hwritten, hnext⟩ := actorLoop_written c.actor input
    rw [written_append, takenCmds_append, messagesOf_append, idAfterCmds_append, ← ih.1, ← ih.2]
    exact ⟨congrArg _ hwritten, hnext⟩

/-- The channels of the requests are those of the commands taken. -/
private theorem channelsOf_eq_takenCmds (inputs : List Input) :
    channelsOf inputs = (takenCmds inputs).filterMap Cmd.channel := by
  rw [takenCmds, List.filterMap_filterMap, channelsOf]
  refine List.filterMap_congr fun input _ => ?_
  cases input with
  | inbound event => rfl
  | cmd c outcome =>
    cases c with
    | none => rfl
    | some c => cases c <;> rfl

/-- What the actor takes was enqueued. -/
private theorem Offers.takenCmds_eq {inputs : List Input} {queued cmds : List Cmd} {input : Input}
    (h : Offers queued input cmds) :
    takenCmds (inputs ++ [input]) ++ cmds = takenCmds inputs ++ queued := by
  rw [takenCmds_append, List.append_assoc]
  cases h <;> rfl

/-! ## The handshake in a run -/

section Run

variable {deadline : String} {params : Json} {inputs : List Input} {effects : List Effect}
  {c : Client} {pc : HandshakePc}

/-- The channels given out while the handshake stands there. -/
def HandshakePc.Channels : HandshakePc → Channel → Prop
  | requesting, next => next = 0
  | awaiting channel, next => channel = 0 ∧ next = 1
  | _, _ => True

/-- The handshake's request has the client's first channel. -/
theorem ConnectionRun.channels (hrun : ConnectionRun deadline params inputs effects c pc) :
    pc.Channels c.nextChannel := by
  induction hrun with
  | spawn => rfl
  | request _ _ _ ih => exact ⟨ih, congrArg (· + 1) ih⟩
  | actor _ _ _ ih => exact ih
  | _ => trivial

/-- Without the handshake's own steps, a run is one of the client. -/
private theorem ConnectionRun.client (hrun : ConnectionRun deadline params inputs effects c pc) :
    ClientRun inputs effects c := by
  induction hrun with
  | spawn => exact .spawn
  | request _ halive hroom ih => exact ih.request _ _ halive hroom
  | requestClosed _ _ ih => exact ih
  | answered _ _ ih => exact ih
  | refused _ _ ih => exact ih
  | dropped _ _ _ ih => exact ih
  | @timedOut inputs effects c channel h hwaits ih =>
    -- Before the handshake is done only its own request was sent, on the first channel.
    obtain ⟨rfl, hnext⟩ : channel = 0 ∧ c.nextChannel = 1 := h.channels
    have hasked : 0 < c.nextChannel := by
      rw [hnext]
      exact Nat.one_pos
    exact ih.giveUp hasked hwaits
  | notify _ halive hroom ih => exact ih.notify _ _ halive hroom
  | notifyClosed _ _ ih => exact ih
  | useRequest _ method args halive hroom ih => exact ih.request method args halive hroom
  | useNotify _ method args halive hroom ih => exact ih.notify method args halive hroom
  | useGiveUp _ hasked hwaits ih => exact ih.giveUp hasked hwaits
  | actor _ halive hoffers ih => exact ih.actor halive hoffers

end Run

/-- The command of the request. -/
def initializeCmd (params : Json) : Cmd := .request "initialize" (some params) 0

/-- The command of the notification. -/
def initializedCmd : Cmd := .notify "initialized" (some (.obj []))

/-- The server has been sent `initialize`, before anything else, and this is the result that it
    answered first. -/
def Initialized (params : Json) (inputs : List Input) (result : Json) : Prop :=
  ∃ before later input rest, inputs = before ++
      .cmd (some (initializeCmd params)) (.ok ()) :: (later ++ input :: rest) ∧
    takenCmds before = [] ∧ Unanswered 1 later ∧ input.answer = some (1, .ok result)

/-- An answered `initialize` stays answered. -/
private theorem Initialized.snoc {params result : Json} {inputs : List Input}
    (h : Initialized params inputs result) (input : Input) :
    Initialized params (inputs ++ [input]) result := by
  obtain ⟨before, later, answer, rest, rfl, hfirst, hun, hanswer⟩ := h
  exact ⟨before, later, answer, rest ++ [input], by simp, hfirst, hun, hanswer⟩

/-- What has been enqueued when the handshake stands there. -/
def HandshakePc.Enqueued (params : Json) : HandshakePc → List Cmd → Prop
  | requesting, cmds => cmds = []
  | awaiting _, cmds => cmds = [initializeCmd params]
  | notifying _, cmds => cmds = [initializeCmd params]
  | done (.error _), cmds => cmds <+: [initializeCmd params]
  | done (.ok _), cmds => [initializeCmd params, initializedCmd] <+: cmds

/-- The result that the handshake has seen. -/
def HandshakePc.result : HandshakePc → Option Json
  | notifying result => some result
  | done (.ok result) => some result
  | _ => none

/-- What holds at each point of a run. -/
structure HandshakeInv (params : Json) (inputs : List Input) (c : Client) (pc : HandshakePc) :
    Prop where
  enqueued : pc.Enqueued params (takenCmds inputs ++ c.cmds)
  result : ∀ result, pc.result = some result → Initialized params inputs result
  /-- Whatever the actor takes after its first command, it takes once the server has answered. -/
  order : ∀ before cmd outcome after, inputs = before ++ .cmd (some cmd) outcome :: after →
    takenCmds before ≠ [] → ∃ result, Initialized params before result

section Inv

variable {deadline : String} {params : Json} {inputs : List Input} {effects : List Effect}
  {c : Client} {pc : HandshakePc}

/-- A handshake that enqueues nothing more. -/
private theorem HandshakeInv.moves (h : HandshakeInv params inputs c pc) {c' : Client}
    {pc' : HandshakePc}
    (hcmds : c'.cmds = c.cmds)
    (henqueued : pc.Enqueued params (takenCmds inputs ++ c.cmds) →
      pc'.Enqueued params (takenCmds inputs ++ c.cmds))
    (hresult : ∀ result, pc'.result = some result → Initialized params inputs result) :
    HandshakeInv params inputs c' pc' :=
  ⟨hcmds ▸ henqueued h.enqueued, hresult, h.order⟩

/-- One more command is enqueued. -/
private theorem HandshakeInv.enqueue (h : HandshakeInv params inputs c pc) {c' : Client} {cmd : Cmd}
    {pc' : HandshakePc} (hcmds : c'.cmds = c.cmds ++ [cmd])
    (henqueued : ∀ cmds, pc.Enqueued params cmds → pc'.Enqueued params (cmds ++ [cmd]))
    (hresult : ∀ result, pc'.result = some result → Initialized params inputs result) :
    HandshakeInv params inputs c' pc' where
  enqueued := by
    rw [hcmds, ← List.append_assoc]
    exact henqueued _ h.enqueued
  result := hresult
  order := h.order

/-- A handshake that fails leaves its request at most. -/
private theorem HandshakePc.Enqueued.failed {cmds : List Cmd} {e : String}
    (h : cmds = [initializeCmd params]) : (done (.error e)).Enqueued params cmds := by
  rw [h]
  exact List.prefix_rfl

/-- What follows the first command has been enqueued after the server answered. -/
private theorem HandshakePc.Enqueued.answered {cmd cmd' : Cmd} {cmds : List Cmd}
    (h : pc.Enqueued params (cmd :: cmd' :: cmds)) : ∃ result, pc.result = some result := by
  cases pc with
  | requesting => cases h
  | awaiting channel => cases h
  | notifying result => exact ⟨result, rfl⟩
  | done outcome =>
    cases outcome with
    | ok result => exact ⟨result, rfl⟩
    | error e =>
      have hlength := List.IsPrefix.length_le h
      simp at hlength

/-- The actor takes an input. -/
private theorem HandshakeInv.actor (h : HandshakeInv params inputs c pc) {input : Input}
    {cmds : List Cmd}
    (hoffers : Offers c.cmds input cmds) :
    HandshakeInv params (inputs ++ [input]) (c.advance input cmds) pc where
  enqueued := by
    show pc.Enqueued params (takenCmds (inputs ++ [input]) ++ cmds)
    rw [hoffers.takenCmds_eq]
    exact h.enqueued
  result result hres := (h.result result hres).snoc input
  order := by
    intro before cmd outcome after hsplit htaken
    cases snoc_split hsplit with
    | inr hold =>
      obtain ⟨after', -, hsplit'⟩ := hold
      exact h.order before cmd outcome after' hsplit' htaken
    | inl hlast =>
      -- The command stands behind one that was taken, so the handshake is through.
      obtain ⟨-, rfl, rfl⟩ := hlast
      obtain ⟨first, rest, hfirst⟩ := List.exists_cons_of_ne_nil htaken
      have henqueued := h.enqueued
      rw [← hoffers.takenCmds_eq, takenCmds_append, hfirst] at henqueued
      cases rest with
      | nil =>
        obtain ⟨result, hres⟩ := HandshakePc.Enqueued.answered henqueued
        exact ⟨result, h.result result hres⟩
      | cons second rest =>
        obtain ⟨result, hres⟩ := HandshakePc.Enqueued.answered henqueued
        exact ⟨result, h.result result hres⟩

/-- A list with one entry has no second. -/
private theorem append_cons_prefix_singleton {α : Type} {before after : List α} {a b : α}
    (h : before ++ b :: after <+: [a]) : before = [] ∧ b = a := by
  cases before with
  | nil => exact ⟨rfl, (List.cons_prefix_cons.mp h).1⟩
  | cons x before =>
    have hlength := h.length_le
    simp at hlength

/-- The result that the request's channel got is the server's first answer. -/
private theorem ConnectionRun.initialized {channel : Channel} {result : Json}
    (hrun : ConnectionRun deadline params inputs effects c (.awaiting channel))
    (henqueued : takenCmds inputs ++ c.cmds = [initializeCmd params])
    (hgot : c.receivers channel = .got (.ok result)) : Initialized params inputs result := by
  obtain ⟨rfl, -⟩ : channel = 0 ∧ c.nextChannel = 1 := hrun.channels
  have hprefix : takenCmds inputs <+: [initializeCmd params] := ⟨_, henqueued⟩
  have hfew : (channelsOf inputs).length < 2 ^ 63 := by
    have htaken : (takenCmds inputs).length ≤ 1 := hprefix.length_le
    have hle := List.length_filterMap_le Cmd.channel (takenCmds inputs)
    rw [← channelsOf_eq_takenCmds] at hle
    omega
  have hpaired := (runInv_of_run hrun.client hfew).paired
  cases hpaired.reply 0 _ (hpaired.received 0 _ hgot) with
  | inr hclosed => cases hclosed.2.2
  | inl hsettled =>
    cases hsettled with
    | @answered before later rest method args input value hsplit hfirst hanswer =>
      -- The request that was answered is the only one that was taken.
      have htaken : takenCmds inputs = takenCmds before ++
          .request method args 0 :: takenCmds (later ++ input :: rest) := by
        rw [hsplit, takenCmds_append]
        rfl
      rw [htaken] at hprefix
      obtain ⟨hbefore, hcmd⟩ := append_cons_prefix_singleton hprefix
      have hid : idAfter before = 1 := by
        rw [idAfter, channelsOf_eq_takenCmds, hbefore]
        rfl
      rw [hid] at hfirst hanswer
      rw [hcmd] at hsplit
      exact ⟨before, later, input, rest, hsplit, hbefore, hfirst, hanswer⟩

/-- What holds at each point of a run. -/
private theorem handshakeInv_of_run (hrun : ConnectionRun deadline params inputs effects c pc) :
    HandshakeInv params inputs c pc := by
  -- Induction on the run; each step enqueues one command or none.
  induction hrun with
  | spawn => exact ⟨rfl, (fun _ h => by cases h), fun _ _ _ _ h => absurd h (by simp)⟩
  -- The request of the handshake is the first command, on channel 0.
  | @request inputs effects c h _ _ ih =>
    refine ih.enqueue rfl (fun cmds hcmds => ?_) fun _ h => by cases h
    obtain rfl : cmds = [] := hcmds
    have hnext : c.nextChannel = 0 := h.channels
    rw [hnext]
    rfl
  | requestClosed _ _ ih =>
    refine ih.moves rfl (fun henqueued => ?_) fun _ h => by cases h
    rw [show _ = [] from henqueued]
    exact List.nil_prefix
  -- The answer is that of the handshake's request, as its channel is the one awaited.
  | @answered inputs effects c channel result h hgot ih =>
    refine ih.moves rfl id fun result' hres => ?_
    cases hres
    exact h.initialized ih.enqueued hgot
  | refused _ _ ih => exact ih.moves rfl HandshakePc.Enqueued.failed fun _ h => by cases h
  | dropped _ _ _ ih => exact ih.moves rfl HandshakePc.Enqueued.failed fun _ h => by cases h
  | timedOut _ _ ih => exact ih.moves rfl HandshakePc.Enqueued.failed fun _ h => by cases h
  -- The notification follows the request, which was enqueued before.
  | notify _ _ _ ih =>
    refine ih.enqueue rfl (fun cmds hcmds => ?_) ih.result
    obtain rfl : cmds = [initializeCmd params] := hcmds
    exact List.prefix_rfl
  | notifyClosed _ _ ih => exact ih.moves rfl HandshakePc.Enqueued.failed fun _ h => by cases h
  | useRequest _ _ _ _ _ ih =>
    exact ih.enqueue rfl (fun _ hcmds => hcmds.trans (List.prefix_append _ _)) ih.result
  | useNotify _ _ _ _ _ ih =>
    exact ih.enqueue rfl (fun _ hcmds => hcmds.trans (List.prefix_append _ _)) ih.result
  | useGiveUp _ _ _ ih => exact ih.moves rfl id ih.result
  | actor _ _ hoffers ih => exact ih.actor hoffers

end Inv

/-! ## Every run -/

/-- The handshake's messages. -/
def handshakeMessages (params : Json) : List Message :=
  [.request 1 "initialize" (some params), .notification "initialized" (some (.obj []))]

/-- The handshake stands first in a run. -/
structure HandshakeFirst (params : Json) (inputs : List Input) (effects : List Effect)
    (pc : HandshakePc) : Prop where
  /-- What the server is sent begins with the handshake. -/
  first : written effects <+: handshakeMessages params ∨
    handshakeMessages params <+: written effects
  /-- After `initialize` it is sent nothing before it has answered with a result. -/
  answered : ∀ before cmd outcome after, inputs = before ++ .cmd (some cmd) outcome :: after →
    takenCmds before ≠ [] → ∃ result, Initialized params before result
  /-- The handshake comes to the result that the server answered first. -/
  result : ∀ result, pc = .done (.ok result) → Initialized params inputs result
  /-- Where it fails, the server is sent nothing but `initialize`. -/
  failed : ∀ e, pc = .done (.error e) →
    written effects <+: [.request 1 "initialize" (some params)]

section Every

variable {deadline : String} {params : Json} {inputs : List Input} {effects : List Effect}
  {c : Client} {pc : HandshakePc}

/-- What a starter has enqueued is an initial part of the handshake, or has it as one. -/
private theorem HandshakePc.Enqueued.comparable {cmds : List Cmd} (h : pc.Enqueued params cmds) :
    cmds <+: [initializeCmd params, initializedCmd] ∨
      [initializeCmd params, initializedCmd] <+: cmds := by
  have hone : [initializeCmd params] <+: [initializeCmd params, initializedCmd] := ⟨_, rfl⟩
  cases pc with
  | requesting =>
    rw [show cmds = [] from h]
    exact .inl List.nil_prefix
  | awaiting channel =>
    rw [show cmds = [initializeCmd params] from h]
    exact .inl hone
  | notifying result =>
    rw [show cmds = [initializeCmd params] from h]
    exact .inl hone
  | done outcome =>
    cases outcome with
    | ok result => exact .inr h
    | error e => exact .inl (List.IsPrefix.trans h hone)

/-- In every run of a client the server is sent `initialize` first, then nothing before it has
    answered it with a result, then `initialized`, and only then what others send; the client is
    handed out with the first result answered, and a handshake that fails sends no more. -/
theorem initialize_first (hrun : ConnectionRun deadline params inputs effects c pc) :
    HandshakeFirst params inputs effects pc := by
  have hinv := handshakeInv_of_run hrun
  have hwritten := (written_eq_messagesOf hrun.client).1
  have htaken : takenCmds inputs <+: takenCmds inputs ++ c.cmds := List.prefix_append _ _
  refine ⟨?_, hinv.order, fun result hpc => hinv.result result (by rw [hpc]; rfl), fun e hpc => ?_⟩
  · rw [hwritten]
    cases hinv.enqueued.comparable with
    | inl hfew => exact .inl (messagesOf_isPrefix 1 (htaken.trans hfew))
    | inr hmany =>
      -- The commands taken and the handshake's two are both prefixes of those enqueued.
      cases List.prefix_or_prefix_of_prefix htaken hmany with
      | inl hfew => exact .inl (messagesOf_isPrefix 1 hfew)
      | inr hmore => exact .inr (messagesOf_isPrefix 1 hmore)
  · have henqueued := hinv.enqueued
    rw [hpc] at henqueued
    rw [hwritten]
    exact messagesOf_isPrefix 1 (htaken.trans henqueued)

end Every

/-- A server answers after it has told of its progress, and a document is opened. -/
theorem initialize_first_opened : ∃ inputs effects c,
    ConnectionRun "60s" (buildInitializeParams 7 "file:///app/" (workspaceNameFor "file:///app/"))
      inputs effects c (.done (.ok (.obj []))) ∧
    HandshakeFirst (buildInitializeParams 7 "file:///app/" (workspaceNameFor "file:///app/"))
      inputs effects (.done (.ok (.obj []))) ∧ (written effects).length = 3 := by
  have hspawned : ConnectionRun "60s"
      (buildInitializeParams 7 "file:///app/" (workspaceNameFor "file:///app/")) [] [] .spawn
      .requesting := .spawn
  have hasked := hspawned.request rfl (by decide)
  have hsent := hasked.actor rfl (.cmd _ [] (.ok ()))
  have htold := hsent.actor rfl (.inbound _ (some (.message (.notification "$/progress" none))))
  have hreplied := htold.actor rfl (.inbound _ (some (.message (.response 1 (.obj [])))))
  have hdone := (hreplied.answered rfl).notify rfl (by decide)
  have hopened := hdone.useNotify "textDocument/didOpen" none rfl (by decide)
  have hrun := (hopened.actor rfl (.cmd _ _ (.ok ()))).actor rfl (.cmd _ _ (.ok ()))
  exact ⟨_, _, _, hrun, initialize_first hrun, rfl⟩

end Semnav.Lsp
