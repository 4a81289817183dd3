import Semnav.Spec.FrameRoundTrip

/-!
# Where a stream of frames may end

A stream ends cleanly between two frames.  `read_message` takes a read of zero bytes for that,
whatever it has read of the header before: a stream that breaks off inside a header block ends as
cleanly as one that breaks off before it.

## Key results

- `readHeaders_of_block`, `readHeaders_of_no_block`: what the header loop makes of a stream
- `clean_end_iff`: the streams on which the end is reported as it is
-/

namespace Semnav.Lsp

open Semnav.ForStd

/-! ## Header blocks -/

/-- A stream starts with a header block of these lines, each with its line feed, and goes on with
    `rest` after the blank line. -/
inductive HeaderBlock (rest : List UInt8) : List (List UInt8) → List UInt8 → Prop where
  | blank : HeaderBlock rest [] (13 :: 10 :: rest)
  | line {l : List UInt8} {lines : List (List UInt8)} {stream : List UInt8} (hfeed : 10 ∉ l)
      (hblank : l ≠ [13]) (h : HeaderBlock rest lines stream) :
      HeaderBlock rest ((l ++ [10]) :: lines) (l ++ 10 :: stream)

theorem HeaderBlock.ne_nil {rest stream : List UInt8} {lines : List (List UInt8)}
    (h : HeaderBlock rest lines stream) : stream ≠ [] := by
  cases h with
  | blank => exact List.cons_ne_nil _ _
  | line => exact List.append_ne_nil_of_right_ne_nil _ (List.cons_ne_nil _ _)

/-- A line without its `\r\n`. -/
def trimmedLine (line : List UInt8) : List UInt8 := (stripSuffix [13, 10] line).getD line

/-- The length that counts, of the lengths that the lines declare. -/
def lastDeclared (contentLength : Option Nat) (lines : List (List UInt8)) : Option Nat :=
  lines.foldl (fun len line => (declaredLength (trimmedLine line)).or len) contentLength

/-- Only the blank line has nothing but its ending. -/
private theorem trimmedLine_eq_nil_iff {line : List UInt8} :
    trimmedLine line = [] ↔ line = [] ∨ line = [13, 10] := by
  -- The line ends with CRLF, which is cut off, or is kept whole.
  by_cases hsuffix : [13, 10] <:+ line
  · obtain ⟨l, rfl⟩ := hsuffix
    rw [trimmedLine, stripSuffix_append, Option.getD_some]
    simp
  · have hnone : stripSuffix [13, 10] line = none := by
      unfold stripSuffix
      rw [if_neg]
      rw [List.isSuffixOf_iff_suffix]
      exact hsuffix
    rw [trimmedLine, hnone, Option.getD_none]
    constructor
    · exact Or.inl
    · intro h
      apply h.resolve_right
      -- It is not CRLF either, which does end with CRLF.
      intro heq
      exact hsuffix (heq ▸ List.suffix_rfl)

section Headers

variable {r : BufReader UInt8} {rest stream : List UInt8} {lines : List (List UInt8)}

/-- One round of the loop, by the line that the stream starts with. -/
private theorem readHeaders_succ (fuel : Nat) (contentLength : Option Nat) (r : BufReader UInt8) :
    readHeaders (fuel + 1) contentLength r =
      if (through 10 r.remaining).1 = [] then (none, (r.readUntil 10).2)
      else if (through 10 r.remaining).1 = [13, 10] then
        (some contentLength, (r.readUntil 10).2)
      else readHeaders fuel
        ((declaredLength (trimmedLine (through 10 r.remaining).1)).or contentLength)
        (r.readUntil 10).2 := by
  rw [readHeaders]
  simp only [BufReader.readUntil_eq r 10]
  generalize (through 10 r.remaining).1 = line
  -- An empty line is the end of the stream, a blank one the end of the headers.
  by_cases hempty : line = []
  · rw [hempty]
    rfl
  · rw [if_neg (by simpa using hempty), if_neg hempty]
    by_cases hblank : line = [13, 10]
    · rw [hblank]
      rfl
    · -- A line that trims to nothing is one of these two.
      have htrimmed : trimmedLine line ≠ [] := by
        rw [Ne, trimmedLine_eq_nil_iff, not_or]
        exact ⟨hempty, hblank⟩
      rw [if_neg hblank, if_neg (by simpa [trimmedLine] using htrimmed)]
      rfl

/-- Of a complete block the loop keeps the last length, and leaves what follows. -/
private theorem readHeaders_of_block (h : HeaderBlock rest lines stream) (hr : r.remaining = stream)
    {fuel : Nat} (hfuel : stream.length < fuel) (contentLength : Option Nat) :
    ∃ r', readHeaders fuel contentLength r = (some (lastDeclared contentLength lines), r') ∧
      r'.remaining = rest := by
  -- Induction on the block: its blank line ends the reading, each other line uses up fuel.
  induction h generalizing r fuel contentLength with
  | blank =>
    obtain ⟨fuel, rfl⟩ := Nat.exists_eq_succ_of_ne_zero (Nat.ne_of_gt (Nat.zero_lt_of_lt hfuel))
    have hline : through 10 r.remaining = ([13, 10], rest) := by
      rw [hr]
      exact through_append_cons (a := [13]) (by decide) rest
    refine ⟨(r.readUntil 10).2, ?_, ?_⟩
    · rw [readHeaders_succ, hline]
      rfl
    · rw [BufReader.remaining_readUntil, hline]
  -- A header line is read up to its line feed, which it holds at its end alone.
  | line hfeed hblank h ih =>
    rename_i l lines stream
    obtain ⟨fuel, rfl⟩ := Nat.exists_eq_succ_of_ne_zero (Nat.ne_of_gt (Nat.zero_lt_of_lt hfuel))
    have hline : through 10 r.remaining = (l ++ [10], stream) := by
      rw [hr]
      exact through_append_cons hfeed stream
    have hnext : (r.readUntil 10).2.remaining = stream := by
      rw [BufReader.remaining_readUntil, hline]
    have hshort : stream.length < fuel := by
      simp only [List.length_append, List.length_cons] at hfuel
      omega
    -- The line is not the blank one, so the reading goes on after it.
    have hne : l ++ [10] ≠ [13, 10] := by
      intro heq
      exact hblank (List.append_cancel_right (heq : l ++ [10] = [13] ++ [10]))
    obtain ⟨r', hread, hrem⟩ := ih hnext hshort
      ((declaredLength (trimmedLine (l ++ [10]))).or contentLength)
    refine ⟨r', ?_, hrem⟩
    rw [readHeaders_succ, hline, if_neg (List.append_ne_nil_of_right_ne_nil _ (by decide)),
      if_neg hne, hread]
    rfl

/-- A stream that ends before the blank line ends the loop as an empty one does. -/
private theorem readHeaders_of_no_block (hr : r.remaining = stream)
    (hno : ∀ rest lines, ¬ HeaderBlock rest lines stream) (fuel : Nat)
    (contentLength : Option Nat) : (readHeaders fuel contentLength r).1 = none := by
  induction fuel generalizing r stream contentLength with
  | zero => rfl
  | succ fuel ih =>
    rw [readHeaders_succ]
    by_cases hempty : (through 10 r.remaining).1 = []
    · rw [if_pos hempty]
    · rw [if_neg hempty]
      by_cases hfeed : (10 : UInt8) ∈ stream
      · obtain ⟨l, next, rfl, hl⟩ := List.eq_append_cons_of_mem hfeed
        have hline : through 10 r.remaining = (l ++ [10], next) := by
          rw [hr]
          exact through_append_cons hl next
        have hblank : l ≠ [13] := by
          intro heq
          subst heq
          exact hno next [] .blank
        have hne : l ++ [10] ≠ [13, 10] := by
          intro heq
          exact hblank (List.append_cancel_right (heq : l ++ [10] = [13] ++ [10]))
        rw [hline, if_neg hne]
        apply @ih _ next
        · rw [BufReader.remaining_readUntil, hline]
        · intro rest lines h
          exact hno rest _ (.line hl hblank h)
      · -- What is left has no line feed: it is the last line.
        have hline : through 10 r.remaining = (stream, []) := by
          rw [hr]
          exact through_of_not_mem hfeed
        have hne : stream ≠ [13, 10] := by
          intro heq
          exact hfeed (heq ▸ List.mem_cons_of_mem _ List.mem_cons_self)
        rw [hline, if_neg hne]
        apply @ih _ []
        · rw [BufReader.remaining_readUntil, hline]
        · intro rest lines h
          exact h.ne_nil rfl

end Headers

/-! ## The ends of a stream -/

/-- What is said of the ends of a stream. -/
structure EndsReported (S : Serde) (r : BufReader UInt8) : Prop where
  /-- A clean end is one before the first byte of a further frame. -/
  clean : (readMessage S r).1 = .ok none ↔ r.remaining = []
  /-- One inside the header block is an error. -/
  header : r.remaining ≠ [] → (∀ rest lines, ¬ HeaderBlock rest lines r.remaining) →
    ∃ e, (readMessage S r).1 = .error e
  /-- One inside the body, too. -/
  body : ∀ rest lines len, HeaderBlock rest lines r.remaining → lastDeclared none lines = some len →
    rest.length < len → ∃ e, (readMessage S r).1 = .error e
  /-- Without a length that can be used, nothing is read past the header block. -/
  length : ∀ rest lines, HeaderBlock rest lines r.remaining →
    (∀ len, lastDeclared none lines = some len → maxFrameSize < len) →
    (∃ e, (readMessage S r).1 = .error e) ∧ (readMessage S r).2.remaining = rest

section Ends

variable {S : Serde} {r : BufReader UInt8} {rest : List UInt8} {lines : List (List UInt8)}

private theorem readMessage_of_no_block (hno : ∀ rest lines, ¬ HeaderBlock rest lines r.remaining) :
    (readMessage S r).1 = .ok none := by
  have hheaders := readHeaders_of_no_block rfl hno (r.remaining.length + 1) none
  unfold readMessage
  generalize readHeaders (r.remaining.length + 1) none r = read at hheaders
  obtain ⟨found, r'⟩ := read
  obtain rfl : found = none := hheaders
  rfl

/-- A frame with a complete header block is read or is an error. -/
private theorem readMessage_of_block (h : HeaderBlock rest lines r.remaining) :
    (readMessage S r).1 ≠ .ok none ∧
      (∀ len, lastDeclared none lines = some len → rest.length < len →
        ∃ e, (readMessage S r).1 = .error e) ∧
      ((∀ len, lastDeclared none lines = some len → maxFrameSize < len) →
        (∃ e, (readMessage S r).1 = .error e) ∧ (readMessage S r).2.remaining = rest) := by
  obtain ⟨r', hread, hrem⟩ := readHeaders_of_block h rfl (Nat.lt_succ_self _) none
  unfold readMessage
  rw [hread]
  cases lastDeclared none lines with
  | none => exact ⟨nofun, nofun, fun _ => ⟨⟨_, rfl⟩, hrem⟩⟩
  | some len =>
    dsimp only
    -- An oversized frame is refused before its body is read.
    by_cases hlarge : maxFrameSize < len
    · rw [if_pos hlarge]
      exact ⟨nofun, fun _ _ _ => ⟨_, rfl⟩, fun _ => ⟨⟨_, rfl⟩, hrem⟩⟩
    · rw [if_neg hlarge]
      refine ⟨?_, fun n hn hshort => ?_, fun hlen => absurd (hlen len rfl) hlarge⟩
      · cases r'.readExact len with
        | none => exact nofun
        | some taken =>
          dsimp only
          cases S.fromSlice taken.1 with
          | error e => exact nofun
          | ok value => exact nofun
      · -- The stream ends within the body, so all of it cannot be read.
        obtain rfl : len = n := Option.some.inj hn
        rw [r'.readExact_eq_none (hrem ▸ hshort)]
        exact ⟨_, rfl⟩

/-- The end of a stream is reported as it is exactly when the stream is at its end, or has a
    complete header block: when it does not break off inside one. -/
theorem clean_end_iff (S : Serde) (r : BufReader UInt8) :
    EndsReported S r ↔
      r.remaining = [] ∨ ∃ rest lines, HeaderBlock rest lines r.remaining := by
  constructor
  · -- No block at all: nothing is reported but the clean end.
    intro h
    by_contra hno
    rw [not_or] at hno
    have hnone : ∀ rest lines, ¬ HeaderBlock rest lines r.remaining :=
      fun rest lines hblock => hno.2 ⟨rest, lines, hblock⟩
    exact hno.1 (h.clean.mp (readMessage_of_no_block hnone))
  · intro h
    cases h with
    -- The stream is at its end, so it has no block, and all but `clean` is vacuous.
    | inl hend =>
      have hnone : ∀ rest lines, ¬ HeaderBlock rest lines r.remaining := by
        intro rest lines hblock
        exact hblock.ne_nil hend
      exact {
        clean := ⟨fun _ => hend, fun _ => readMessage_end hend⟩
        header := fun hne => absurd hend hne
        body := fun rest lines _ hblock => absurd hblock (hnone rest lines)
        length := fun rest lines hblock => absurd hblock (hnone rest lines) }
    -- The stream has a block, so `readMessage_of_block` says what is reported.
    | inr hblock =>
      obtain ⟨rest, lines, hblock⟩ := hblock
      exact {
        clean := by
          constructor
          · intro hclean
            exact absurd hclean (readMessage_of_block hblock).1
          · intro hend
            exact absurd hend hblock.ne_nil
        header := fun _ hno => absurd hblock (hno rest lines)
        body := fun _ _ len h hlen => (readMessage_of_block h).2.1 len hlen
        length := fun _ _ h => (readMessage_of_block h).2.2 }

end Ends

/-- A stream that breaks off after the first header line. -/
def brokenHeader : BufReader UInt8 := .ofChunks [asBytes "Content-Length: 5\r\n"]

/-- The broken header ends cleanly for the reader. -/
theorem broken_header_ends_cleanly :
    (readMessage farewellSerde brokenHeader).1 = .ok none ∧
      ¬ EndsReported farewellSerde brokenHeader := by
  have hclean : (readMessage farewellSerde brokenHeader).1 = .ok none := rfl
  refine ⟨hclean, fun h => ?_⟩
  have hend : brokenHeader.remaining = [] := h.clean.mp hclean
  exact absurd hend (by decide)

end Semnav.Lsp
