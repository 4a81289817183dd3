import Semnav.Lsp.Transport

/-!
# Framing round trip

What is written as frames is read back frame by frame, however the bytes are cut on the way; and
each value decodes to the message that it was serialized from, as its own variant.

## Key results

- `Message.fromValue_toValue`: the untagged decoding finds the variant
- `readMessage_frame`: one frame
- `messages_read_back`: any list of messages
-/

namespace Semnav.Lsp

open Semnav.ForStd

/-! ## Messages as values -/

/-- An integer is read as it was written. -/
private theorem asI64_toInt (i : Int64) : Json.asI64 (.int i.toInt) = some i := by
  have hlo := Int64.le_toInt i
  have hhi := Int64.toInt_lt i
  rw [Json.asI64, if_pos ⟨hlo, hhi⟩, Int64.ofInt_toInt]

/-- An optional value is read back unless it is `null`. -/
def NotNull (v : Option Json) : Prop := v ≠ some .null

/-- A field that is not `null` is there. -/
private theorem optional_of_notNull {v : Option Json} (h : NotNull v) : Json.optional v = v := by
  unfold Json.optional
  split
  · exact absurd rfl h
  · rfl

/-- The optional parts of the message are absent or no `null`. -/
def Message.WellFormed : Message → Prop
  | .request _ _ params => NotNull params
  | .response _ _ => True
  | .error _ e => NotNull e.data
  | .notification _ params => NotNull params

/-- An error is read as it was written. -/
private theorem RpcError.fromValue_toValue {e : RpcError} (h : NotNull e.data) :
    RpcError.fromValue e.toValue = some e := by
  obtain ⟨code, message, data⟩ := e
  cases data with
  | none => simp [RpcError.toValue, RpcError.fromValue, optionalField, Json.field, asI64_toInt,
      Json.asString, Json.optional, List.lookup_cons]
  | some data =>
    have hdata : Json.optional (some data) = some data := optional_of_notNull h
    simp [RpcError.toValue, RpcError.fromValue, optionalField, Json.field, asI64_toInt,
      Json.asString, List.lookup_cons, hdata]

/-- A message is decoded as itself: no earlier variant fits. -/
private theorem Message.fromValue_toValue {m : Message} (h : m.WellFormed) :
    Message.fromValue m.toValue = some m := by
  -- By the kind of message; the optional params are the only field that may be left out.
  cases m with
  | request id method params =>
    cases params with
    | none => simp [Message.toValue, Message.fromValue, optionalField, jsonrpcField, decodeRequest,
        idOf, methodOf, Json.field, List.lookup_cons, asI64_toInt, Json.asString, Json.optional]
    | some params =>
      have hparams : Json.optional (some params) = some params := optional_of_notNull h
      simp [Message.toValue, Message.fromValue, optionalField, jsonrpcField, decodeRequest,
        idOf, methodOf, Json.field, List.lookup_cons, asI64_toInt, Json.asString, hparams]
  | response id result =>
    simp [Message.toValue, Message.fromValue, jsonrpcField, decodeRequest, decodeResponse, idOf,
      methodOf, Json.field, List.lookup_cons, asI64_toInt]
  | error id e =>
    simp [Message.toValue, Message.fromValue, jsonrpcField, decodeRequest, decodeResponse,
      decodeError, idOf, methodOf, Json.field, List.lookup_cons, asI64_toInt,
      RpcError.fromValue_toValue h]
  | notification method params =>
    cases params with
    | none => simp [Message.toValue, Message.fromValue, optionalField, jsonrpcField, decodeRequest,
        decodeResponse, decodeError, decodeNotification, idOf, methodOf, Json.field,
        List.lookup_cons, Json.asString, Json.optional]
    | some params =>
      have hparams : Json.optional (some params) = some params := optional_of_notNull h
      simp [Message.toValue, Message.fromValue, optionalField, jsonrpcField, decodeRequest,
        decodeResponse, decodeError, decodeNotification, idOf, methodOf, Json.field,
        List.lookup_cons, Json.asString, hparams]

/-! ## One frame -/

section Frame

variable {S : Serde} {r : BufReader UInt8} {body rest : List UInt8}

/-- The header of a frame has two lines, the second one blank. -/
private theorem asBytes_frameHeader (n : Nat) :
    asBytes (frameHeader n) = asBytes "Content-Length:" ++ asBytes (" " ++ n.repr) ++
      [13, 10, 13, 10] := by
  have hcrlf : asBytes "\r\n\r\n" = [13, 10, 13, 10] := by decide
  have hname : asBytes "Content-Length: " = asBytes "Content-Length:" ++ asBytes " " := by decide
  simp only [frameHeader, asBytes_append, hcrlf, hname, List.append_assoc]

/-- The length in the header is read as it was written. -/
private theorem declaredLength_header {n : Nat} (h : n < 2 ^ 64) :
    declaredLength (asBytes "Content-Length:" ++ asBytes (" " ++ n.repr)) = some n := by
  simp only [declaredLength, stripPrefix_append, Option.bind_eq_bind, Option.bind_some,
    fromUtf8_asBytes, Option.getD_some]
  exact parseUsize_trim_repr h

/-- No line feed before the end of the first line. -/
private theorem not_mem_headerLine (n : Nat) :
    (10 : UInt8) ∉ asBytes "Content-Length:" ++ asBytes (" " ++ n.repr) ++ [13] := by
  have hname : (10 : UInt8) ∉ asBytes "Content-Length:" := by decide
  have hblank : (10 : UInt8) ∉ asBytes " " := by decide
  have hdigits : (10 : UInt8) ∉ asBytes n.repr := by
    rw [← String.ofList_toList (s := n.repr)]
    exact asBytes_digits fun c hc => isDigit_of_mem_repr hc
  simp only [List.mem_append, asBytes_append, not_or]
  exact ⟨⟨hname, hblank, hdigits⟩, by decide⟩

/-- The header lines of a frame, and what is left after them. -/
private theorem readHeaders_frame {n fuel : Nat} (hn : n < 2 ^ 64)
    (hr : r.remaining = asBytes (frameHeader n) ++ rest) :
    ∃ r', readHeaders (fuel + 2) none r = (some (some n), r') ∧ r'.remaining = rest := by
  have hline : through 10 r.remaining =
      (asBytes "Content-Length:" ++ asBytes (" " ++ n.repr) ++ [13] ++ [10], 13 :: 10 :: rest) := by
    rw [hr, asBytes_frameHeader, ← through_append_cons (not_mem_headerLine n)]
    simp
  have hblank : through 10 (r.readUntil 10).2.remaining = ([13, 10], rest) := by
    rw [BufReader.remaining_readUntil, hline]
    exact through_append_cons (a := [13]) (by decide) rest
  refine ⟨((r.readUntil 10).2.readUntil 10).2, ?_, ?_⟩
  · -- The first line declares the length, the second one is blank.
    have hstrip : stripSuffix [13, 10] (asBytes "Content-Length:" ++ asBytes (" " ++ n.repr) ++
        [13] ++ [10]) = some (asBytes "Content-Length:" ++ asBytes (" " ++ n.repr)) := by
      rw [List.append_assoc _ [13] [10]]
      exact stripSuffix_append _ _
    have hblankLine : stripSuffix [13, 10] [13, 10] = some [] := by decide
    have hempty : (asBytes "Content-Length:" ++ asBytes (" " ++ n.repr)).isEmpty = false := by
      rw [List.isEmpty_eq_false_iff]
      exact List.append_ne_nil_of_left_ne_nil (by decide) _
    have hlineEmpty : (asBytes "Content-Length:" ++ asBytes (" " ++ n.repr) ++ [13] ++
        [10]).isEmpty = false := by
      rw [List.isEmpty_eq_false_iff]
      exact List.append_ne_nil_of_right_ne_nil _ (by decide)
    have hstep : ∀ fuel : Nat, readHeaders (fuel + 1) (some n) (r.readUntil 10).2 =
        (some (some n), ((r.readUntil 10).2.readUntil 10).2) := by
      intro fuel
      simp only [readHeaders, BufReader.readUntil_eq (r.readUntil 10).2 10, hblank, hblankLine]
      rfl
    rw [readHeaders]
    simp only [BufReader.readUntil_eq r 10, hline, hstrip, hempty, hlineEmpty,
      declaredLength_header hn, Option.getD_some, Option.some_or, Bool.false_eq_true, if_false,
      hstep]
  · rw [BufReader.remaining_readUntil, hblank]

/-- A frame is read as the value of its body, and the stream is left at its end. -/
private theorem readMessage_frame {v : Json} (hsize : body.length ≤ maxFrameSize)
    (hparse : S.fromSlice body = .ok v)
    (hr : r.remaining = asBytes (frameHeader body.length) ++ body ++ rest) :
    ∃ r', readMessage S r = (.ok (some v), r') ∧ r'.remaining = rest := by
  have hlen : body.length < 2 ^ 64 := by
    have hmax : maxFrameSize < 2 ^ 64 := by decide
    omega
  -- The header takes two lines, so fuel for two rounds is enough.
  have hfuel : ∃ fuel, r.remaining.length + 1 = fuel + 2 := by
    refine ⟨r.remaining.length - 1, ?_⟩
    rw [hr, asBytes_frameHeader]
    simp only [List.length_append, List.length_cons]
    omega
  obtain ⟨fuel, hfuel⟩ := hfuel
  rw [List.append_assoc] at hr
  obtain ⟨r', hheaders, hrem⟩ : ∃ r', readHeaders (fuel + 2) none r = (some (some body.length), r') ∧
      r'.remaining = _ := readHeaders_frame hlen hr
  -- The body follows the headers and is read as far as the header declares.
  obtain ⟨r'', hbody, hrem'⟩ := r'.readExact_eq (n := body.length) (by
    rw [hrem, List.length_append]
    omega)
  rw [hrem, List.take_left] at hbody
  rw [hrem, List.drop_left] at hrem'
  refine ⟨r'', ?_, hrem'⟩
  simp only [readMessage, hfuel, hheaders, hbody, hparse]
  rw [if_neg (by omega)]

end Frame

/-! ## A stream of frames -/

/-- `write_message` for one message after the other. -/
def writeMessages (S : Serde) (ms : List Message) : Except String (List UInt8) :=
  (ms.mapM (writeMessage S)).map List.flatten

/-- Repeated `read_message` and `Message::from_value` give these messages and then the end of the
    stream. -/
def ReadsBack (S : Serde) : BufReader UInt8 → List Message → Prop
  | r, [] => (readMessage S r).1 = .ok none
  | r, m :: ms => ∃ v, (readMessage S r).1 = .ok (some v) ∧ Message.fromValue v = some m ∧
      ReadsBack S (readMessage S r).2 ms

/-- The message is printed, and its text is parsed to the value it stands for. -/
def Serde.Lossless (S : Serde) (m : Message) : Prop :=
  ∃ body, S.toVec m = .ok body ∧ S.fromSlice body = .ok m.toValue

/-- At the end of the stream there is no message. -/
theorem readMessage_end {S : Serde} {r : BufReader UInt8} (hr : r.remaining = []) :
    (readMessage S r).1 = .ok none := by
  have hline : (r.readUntil 10).1 = [] := by
    rw [BufReader.readUntil_eq, hr]
    rfl
  simp [readMessage, readHeaders, hline]

/-- Any list of messages, in bodies of up to 64 MiB each, is read back from the bytes written, in
    whatever chunks they arrive. -/
theorem messages_read_back (S : Serde) (ms : List Message) (hwf : ∀ m ∈ ms, m.WellFormed)
    (hserde : ∀ m ∈ ms, S.Lossless m)
    (hsize : ∀ m ∈ ms, ∀ body, S.toVec m = .ok body → body.length ≤ maxFrameSize) :
    ∃ bytes, writeMessages S ms = .ok bytes ∧
      ∀ chunks : List (List UInt8), chunks.flatten = bytes →
        ReadsBack S (.ofChunks chunks) ms := by
  -- For any reader whose bytes are these; how they come in chunks does not matter to it.
  have hread : ∃ bytes, writeMessages S ms = .ok bytes ∧
      ∀ r : BufReader UInt8, r.remaining = bytes → ReadsBack S r ms := by
    induction ms with
    | nil => exact ⟨[], rfl, fun r hr => readMessage_end hr⟩
    | cons m ms ih =>
      obtain ⟨body, hbody, hparse⟩ := hserde m List.mem_cons_self
      obtain ⟨bytes, hbytes, hback⟩ := ih (fun m' h => hwf m' (List.mem_cons_of_mem _ h))
        (fun m' h => hserde m' (List.mem_cons_of_mem _ h))
        (fun m' h => hsize m' (List.mem_cons_of_mem _ h))
      refine ⟨asBytes (frameHeader body.length) ++ body ++ bytes, ?_, fun r hr => ?_⟩
      · -- The frames are written one after the other, so the first one is in front.
        cases hms : ms.mapM (writeMessage S) with
        | error e => simp [writeMessages, hms, Except.map] at hbytes
        | ok frames =>
          simp only [writeMessages, hms, Except.map, Except.ok.injEq] at hbytes
          subst hbytes
          simp [writeMessages, List.mapM_cons, writeMessage, hbody, hms, Except.map, bind,
            Except.bind, pure, Except.pure]
      · -- The reader reads the first frame and is left with the others.
        obtain ⟨r', hone, hrem⟩ := readMessage_frame
          (hsize m List.mem_cons_self body hbody) hparse hr
        refine ⟨m.toValue, by rw [hone], ?_, ?_⟩
        · exact Message.fromValue_toValue (hwf m List.mem_cons_self)
        · rw [hone]
          exact hback r' hrem
  obtain ⟨bytes, hbytes, hback⟩ := hread
  exact ⟨bytes, hbytes, fun chunks hchunks => hback _ hchunks⟩

/-- The last two messages of a client. -/
def farewell : List Message := [.request 1 "shutdown" none, .notification "exit" none]

/-- The texts of the example's messages, as `serde_json` prints and parses them. -/
def farewellSerde : Serde where
  toVec
    | .request .. =>
      .ok (asBytes "\x7b\"jsonrpc\":\"2.0\",\"id\":1,\"method\":\"shutdown\"\x7d")
    | _ => .ok (asBytes "\x7b\"jsonrpc\":\"2.0\",\"method\":\"exit\"\x7d")
  fromSlice bytes :=
    if bytes = asBytes "\x7b\"jsonrpc\":\"2.0\",\"id\":1,\"method\":\"shutdown\"\x7d" then
      .ok (Message.request 1 "shutdown" none).toValue
    else if bytes = asBytes "\x7b\"jsonrpc\":\"2.0\",\"method\":\"exit\"\x7d" then
      .ok (Message.notification "exit" none).toValue
    else .error "expected value at line 1 column 1"

/-- Two messages at the end of a session. -/
theorem farewell_read_back : ∃ bytes, writeMessages farewellSerde farewell = .ok bytes ∧
    ∀ chunks : List (List UInt8), chunks.flatten = bytes →
      ReadsBack farewellSerde (.ofChunks chunks) farewell := by
  refine messages_read_back farewellSerde farewell ?_ ?_ ?_
  · simp [farewell, Message.WellFormed, NotNull]
  · simp only [farewell, List.mem_cons, List.not_mem_nil, or_false, forall_eq_or_imp, forall_eq]
    exact ⟨⟨_, rfl, rfl⟩, ⟨_, rfl, rfl⟩⟩
  · simp only [farewell, List.mem_cons, List.not_mem_nil, or_false, forall_eq_or_imp, forall_eq,
      farewellSerde, Except.ok.injEq, forall_eq']
    exact ⟨by decide, by decide⟩

end Semnav.Lsp
