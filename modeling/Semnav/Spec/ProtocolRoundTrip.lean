import Semnav.Daemon.Protocol

/-!
# Round trip of the daemon protocol

Envelopes of either direction are read back from the lines that were written, however the bytes
are cut on the way; and the output of a tool is what the proxy decodes from the response.

## Key results

- `readLine_writeLine`: one line
- `lines_read_back`: any list of envelopes
- `protocol_round_trip`: with what the responses carry
-/

namespace Semnav.Daemon

open Semnav.ForStd Semnav.Mcp

/-- `serde_json` reads the value from the text that it writes, and has no newline in it. -/
structure SerdeJson.Lossless (S : SerdeJson) (v : Json) : Prop where
  reads : S.fromText (S.toText v) = some v
  escapes : '\n' ∉ (S.toText v).toList

private theorem trimNewlines_push {s : String} (h : '\n' ∉ s.toList) :
    trimNewlines (s.push '\n') = s := by
  rw [trimNewlines, String.toList_push, List.rdropWhile_concat_pos _ _ _ (by decide)]
  have hself : s.toList.rdropWhile (· == '\n') = s.toList := by
    apply List.rdropWhile_eq_self_iff.mpr
    intro hne hlast
    apply h
    rw [← beq_iff_eq.mp hlast]
    exact List.getLast_mem hne
  rw [hself, String.ofList_toList]

section Lines

variable {α : Type} {S : SerdeJson} {c : Codec α}

/-- A line is read as the value it was written from, and the rest of the stream is left. -/
private theorem readLine_writeLine {value : α} (hS : S.Lossless (c.encode value))
    {r : BufReader UInt8}
    {rest : List UInt8} (hr : r.remaining = writeLine S c value ++ rest) :
    ∃ r', readLine S c r = (.ok (some value), r') ∧ r'.remaining = rest := by
  have hbytes : writeLine S c value = asBytes (S.toText (c.encode value)) ++ [10] := by
    rw [writeLine, asBytes, String.toList_push, List.flatMap_append]
    rfl
  -- The text has no newline of its own, so the line ends where it was written.
  have hthrough : through 10 r.remaining = (writeLine S c value, rest) := by
    rw [hr, hbytes, List.append_assoc]
    exact through_append_cons (newline_not_mem_asBytes hS.escapes) rest
  have hline : (r.readUntil 10).1 = writeLine S c value := by
    rw [BufReader.readUntil_eq, hthrough]
  have hrest : (r.readUntil 10).2.remaining = rest := by
    rw [BufReader.remaining_readUntil, hthrough]
  have hne : (writeLine S c value).isEmpty = false := by
    rw [hbytes]
    simp
  -- The bytes are valid UTF-8, being those of a string.
  have htext : fromUtf8 (writeLine S c value) = some ((S.toText (c.encode value)).push '\n') :=
    fromUtf8_asBytes _
  refine ⟨(r.readUntil 10).2, ?_, hrest⟩
  simp only [readLine, hline, htext, hne, trimNewlines_push hS.escapes, hS.reads]
  have hread : c.decode (c.encode value) = some value := c.reads .text value
  simp [hread]

/-- At the end of the stream there is nothing. -/
private theorem readLine_end {r : BufReader UInt8} (hr : r.remaining = []) :
    (readLine S c r).1 = .ok none := by
  have hline : (r.readUntil 10).1 = [] := by
    rw [BufReader.readUntil_eq, hr]
    rfl
  have htext : fromUtf8 [] = some "" := fromUtf8_asBytes ""
  simp [readLine, hline, htext]

end Lines

/-! ## Lists of lines -/

/-- An envelope of either direction. -/
inductive Envelope where
  | request (e : DaemonEnvelope)
  | response (e : DaemonResponseEnvelope)

/-- The value that an envelope is written as. -/
def Envelope.toJson : Envelope → Json
  | .request e => DaemonEnvelope.fields.codec.encode e
  | .response e => DaemonResponseEnvelope.fields.codec.encode e

def Envelope.write (S : SerdeJson) : Envelope → List UInt8
  | .request e => writeLine S DaemonEnvelope.fields.codec e
  | .response e => writeLine S DaemonResponseEnvelope.fields.codec e

/-- `read_line` calls, each for the type of the envelope, give the envelopes one after the other;
    then a call for either type gives `Ok(None)`. -/
def ReadsBack (S : SerdeJson) (r : BufReader UInt8) : List Envelope → Prop
  | [] =>
    (readLine S DaemonEnvelope.fields.codec r).1 = .ok none ∧
      (readLine S DaemonResponseEnvelope.fields.codec r).1 = .ok none
  | .request e :: es =>
    ∃ r', readLine S DaemonEnvelope.fields.codec r = (.ok (some e), r') ∧ ReadsBack S r' es
  | .response e :: es =>
    ∃ r', readLine S DaemonResponseEnvelope.fields.codec r = (.ok (some e), r') ∧
      ReadsBack S r' es

private theorem reads_back {S : SerdeJson} {es : List Envelope} (hS : ∀ e ∈ es, S.Lossless e.toJson)
    {r : BufReader UInt8} (hr : r.remaining = es.flatMap (Envelope.write S)) :
    ReadsBack S r es := by
  induction es generalizing r with
  | nil => exact ⟨readLine_end hr, readLine_end hr⟩
  | cons e es ih =>
    have he := hS e List.mem_cons_self
    have hes : ∀ e ∈ es, S.Lossless e.toJson := fun e' h => hS e' (List.mem_cons_of_mem e h)
    rw [List.flatMap_cons] at hr
    cases e with
    | request e =>
      obtain ⟨r', hread, hrest⟩ := readLine_writeLine he hr
      exact ⟨r', hread, ih hes hrest⟩
    | response e =>
      obtain ⟨r', hread, hrest⟩ := readLine_writeLine he hr
      exact ⟨r', hread, ih hes hrest⟩

/-- What the proxy decodes from the result of a tool call is the output of the tool, with the
    annotations that it has and no others. -/
private theorem proxyResult_toResult (tool : Tool) (output : tool.Output) :
    ∃ value, toResult tool (.ok output) = .ok value ∧ proxyResult tool value = some output :=
  ⟨_, rfl, tool.outputCodec.fromValue_toValue output⟩

/-- Any list of envelopes is read back from the lines that were written, in whatever chunks their
    bytes arrive, and then the end of the stream; and every output of a tool is decoded from its
    response as itself. -/
theorem protocol_round_trip (S : SerdeJson) (es : List Envelope)
    (hS : ∀ e ∈ es, S.Lossless e.toJson) :
    (∀ chunks : List (List UInt8), chunks.flatten = es.flatMap (Envelope.write S) →
      ReadsBack S (.ofChunks chunks) es) ∧
    ∀ (tool : Tool) (output : tool.Output),
      ∃ value, toResult tool (.ok output) = .ok value ∧ proxyResult tool value = some output :=
  ⟨fun _ hchunks => reads_back hS hchunks, proxyResult_toResult⟩

/-- The next page of the classes that are named `Repo`. -/
def repoSearch : FindSymbolInput where
  pattern := "Repo"
  matchMode := .segment
  ignoreCase := false
  brief := true
  withSignature := false
  filter := ⟨some "python", some ["Class"], false⟩
  page := ⟨some 10, some "eyJmIjoiYSIsInUiOiJ1IiwibCI6MywiYyI6N30"⟩

/-- The last one of them. -/
def repoFound : FindSymbolResult := ⟨[], ["app.Repo"], none⟩

/-- A search and its answer, a stop and its answer, and an error whose message has a newline. -/
def searchLines : List Envelope :=
  [.request ⟨0, .findSymbol repoSearch⟩, .response ⟨0, toResult .findSymbol (.ok repoFound)⟩,
    .request ⟨1, .shutdown⟩, .response ⟨1, .ok ⟨.null, rfl⟩⟩, .response ⟨2, .error "cannot\nread"⟩]

/-- The texts of the fields of the search: those of the filter and of the page are among them. -/
def searchFields : List String :=
  ["\x7b\"id\":0,\"request\":\x7b\"op\":\"FindSymbol\",", "\"params\":\x7b\"pattern\":\"Repo\",",
    "\"match\":\"segment\",\"ignore_case\":false,", "\"brief\":true,\"with_signature\":false,",
    "\"language\":\"python\",\"kind\":[\"Class\"],", "\"include_external\":false,\"limit\":10,",
    "\"cursor\":\"eyJmIjoiYSIsInUiOi", "J1IiwibCI6MywiYyI6N30\"\x7d\x7d\x7d"]

/-- The text of the search. -/
def searchText : String := .join searchFields

/-- The text of its answer, whose value has its keys in their order. -/
def foundText : String :=
  "\x7b\"id\":0,\"result\":\x7b\"Ok\":\x7b\"fqns\":[\"app.Repo\"],\"next_cursor\":null," ++
    "\"nodes\":[]\x7d\x7d\x7d"

/-- What `serde_json` prints and parses of the lines. -/
def searchSerde : SerdeJson where
  toText
    | .obj [_, ("request", .obj [_, ("params", _)])] => searchText
    | .obj [_, ("request", _)] => "\x7b\"id\":1,\"request\":\x7b\"op\":\"Shutdown\"\x7d\x7d"
    | .obj [_, ("result", .obj [("Ok", .null)])] => "\x7b\"id\":1,\"result\":\x7b\"Ok\":null\x7d\x7d"
    | .obj [_, ("result", .obj [("Ok", _)])] => foundText
    | _ => "\x7b\"id\":2,\"result\":\x7b\"Err\":\"cannot\\nread\"\x7d\x7d"
  fromText text :=
    if text = searchText then some (Envelope.toJson (.request ⟨0, .findSymbol repoSearch⟩))
    else if text = foundText then
      some (Envelope.toJson (.response ⟨0, toResult .findSymbol (.ok repoFound)⟩))
    else if text = "\x7b\"id\":1,\"request\":\x7b\"op\":\"Shutdown\"\x7d\x7d" then
      some (Envelope.toJson (.request ⟨1, .shutdown⟩))
    else if text = "\x7b\"id\":1,\"result\":\x7b\"Ok\":null\x7d\x7d" then
      some (Envelope.toJson (.response ⟨1, .ok ⟨.null, rfl⟩⟩))
    else if text = "\x7b\"id\":2,\"result\":\x7b\"Err\":\"cannot\\nread\"\x7d\x7d" then
      some (Envelope.toJson (.response ⟨2, .error "cannot\nread"⟩))
    else none

/-- The bytes of the lines. -/
def searchBytes : List UInt8 := searchLines.flatMap (Envelope.write searchSerde)

/-- The text of the search is parsed as it was printed. -/
private theorem lossless_search :
    searchSerde.Lossless (Envelope.toJson (.request ⟨0, .findSymbol repoSearch⟩)) where
  reads := by
    show searchSerde.fromText searchText = _
    simp only [searchSerde, if_true]
  escapes := by
    have hfields : ∀ s ∈ searchFields, '\n' ∉ s.toList := by decide
    show '\n' ∉ searchText.toList
    simpa [searchText, String.toList_join] using hfields

/-- The lines of the search, cut into two chunks, and its answer as the proxy decodes it. -/
theorem protocol_round_trip_search :
    ReadsBack searchSerde (.ofChunks [searchBytes.take 7, searchBytes.drop 7]) searchLines ∧
      ∃ value, toResult .findSymbol (.ok repoFound) = .ok value ∧
        proxyResult .findSymbol value = some repoFound := by
  have hlossless : ∀ e ∈ searchLines, searchSerde.Lossless e.toJson := by
    simp only [searchLines, List.mem_cons, List.not_mem_nil, or_false, forall_eq_or_imp, forall_eq]
    exact ⟨lossless_search, ⟨rfl, by decide⟩, ⟨rfl, by decide⟩, ⟨rfl, by decide⟩,
      ⟨rfl, by decide⟩⟩
  have hround := protocol_round_trip searchSerde searchLines hlossless
  have hchunks : ∀ bytes : List UInt8, [bytes.take 7, bytes.drop 7].flatten = bytes := by
    intro bytes
    simp
  exact ⟨hround.1 _ (hchunks searchBytes), hround.2 .findSymbol repoFound⟩

end Semnav.Daemon
