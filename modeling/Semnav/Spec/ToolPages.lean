import Semnav.Mcp.Runtime
import Semnav.Spec.Paging

/-!
# Reading on through the tools

A client of `find_symbol` walks the pages of a result by putting the `next_cursor` of each answer
into its next input.  Such a walk is one of the query layer: the token is read as the cursor that it
was made from, and the nodes are those of the rows of the page.  A client of `read_range` reads a
file piece by piece, each range starting where the one before it ended.

## Key results

- `findSymbol_answers`: what the tool answers to a request of a walk
- `ToolWalk.walk`: a client's walk through the tool is a walk of the query layer
- `toolWalk_complete`: the rows come in the order of their keys, none twice and none missing
- `linesBetween_chunks`: the lines of a file, piece by piece
- `readRange_within`: the span of an answer is one of the file
-/

namespace Semnav.Mcp

open Semnav.ForStd Semnav.Graph Semnav.Query
open QueryEngine (linesBetween)

section ToolPages

variable (rt : QueryRuntime) (S : Servers) (text : DbError → String) (E : CursorCodec)
  (restartLanguage : Option String → World → List String → World → Prop)

/-- The tool, over the query runtime. -/
abbrev findSymbolTool : FindSymbolInput → World → Except ErrorData FindSymbolResult → World → Prop :=
  SemnavServer.findSymbol (.ofQuery S text rt E restartLanguage) E

/-- The request that a client's page is to the query layer. -/
def PageInput.request (page : PageInput) : Query.PageInput :=
  ⟨page.limit.map UInt32.toNat, page.cursor⟩

/-- The rows that the input asks for, whatever the page. -/
def FindSymbolInput.rows (input : FindSymbolInput) (d : Db) : List Node :=
  symbolsFound rt.toQueryEngine input.pattern input.matchMode input.ignoreCase input.filter.toFilter d

variable {rt S text E restartLanguage}

/-- The tool answers with a page of the rows, or refuses the page that it is asked for. -/
theorem findSymbol_answers (input : FindSymbolInput) (hbrief : input.brief = false)
    (hsignature : input.withSignature = false) (w : World) :
    findSymbolTool rt S text E restartLanguage input w
      (match input.page.request.intoPage E with
      | .error e => .error (invalidParams e)
      | .ok page =>
        let (kept, next) := paginate (input.rows rt w.db) page .fromNode
        .ok ⟨kept.map .fromNode, [], next.map (·.encode E)⟩) w := by
  obtain ⟨pattern, mode, ignoreCase, brief, withSignature, filter, page⟩ := input
  obtain rfl : brief = false := hbrief
  obtain rfl : withSignature = false := hsignature
  -- The parts are those of the input once its page is read.
  have hparts : FindSymbolInput.intoParts E ⟨pattern, mode, ignoreCase, false, false, filter, page⟩ =
      ((page.request.intoPage E).mapError invalidParams).map fun page =>
        (pattern, mode, ignoreCase, ⟨false, false⟩, filter.toFilter, page) := by
    show ((page.request.intoPage E).mapError invalidParams).bind _ = _
    cases (page.request.intoPage E).mapError invalidParams <;> rfl
  unfold findSymbolTool SemnavServer.findSymbol
  rw [hparts]
  cases hpage : page.request.intoPage E with
  | error e => exact ⟨rfl, rfl⟩
  | ok read =>
    have hrun := run_findSymbol rt.toQueryEngine pattern mode ignoreCase filter.toFilter S w read
    exact ⟨_, ⟨_, hrun, rfl⟩, rfl⟩

/-- The tool answers nothing else. -/
private theorem findSymbolTool_unique {input : FindSymbolInput} {w w₁ w₂ : World}
    {r₁ r₂ : Except ErrorData FindSymbolResult}
    (h₁ : findSymbolTool rt S text E restartLanguage input w r₁ w₁)
    (h₂ : findSymbolTool rt S text E restartLanguage input w r₂ w₂) :
    r₁ = r₂ ∧ w₁ = w₂ := by
  unfold findSymbolTool SemnavServer.findSymbol method at h₁ h₂
  cases hparts : input.intoParts E with
  | error e =>
    rw [hparts] at h₁ h₂
    exact ⟨h₁.1.trans h₂.1.symm, h₁.2.trans h₂.2.symm⟩
  | ok parts =>
    rw [hparts] at h₁ h₂
    obtain ⟨_, ⟨x, hrun, rfl⟩, rfl⟩ := h₁
    obtain ⟨_, ⟨x', hrun', rfl⟩, rfl⟩ := h₂
    cases hrun.symm.trans hrun'
    exact ⟨rfl, rfl⟩

/-! ## A client's walk -/

variable (rt S text E restartLanguage) in
/-- A client asks for the pages of an input one after the other, the `i`-th request answered in
    `worlds i`; it has the nodes and its next page, if there is one, after `n` of them. -/
inductive ToolWalk (input : FindSymbolInput) (limit : UInt32) (worlds : Nat → World) :
    Nat → List NodeDto → Option PageInput → Prop where
  | start : ToolWalk input limit worlds 0 [] (some ⟨some limit, none⟩)
  | page {n : Nat} {nodes : List NodeDto} {page : PageInput} {result : FindSymbolResult}
      {w' : World} (hwalk : ToolWalk input limit worlds n nodes (some page))
      (hanswer : findSymbolTool rt S text E restartLanguage { input with page := page }
        (worlds n) (.ok result) w') :
      ToolWalk input limit worlds (n + 1) (nodes ++ result.nodes)
        (result.nextCursor.map fun token => ⟨some limit, some token⟩)

variable {input : FindSymbolInput} {limit : UInt32} {worlds : Nat → World} {n : Nat}
  {nodes : List NodeDto} {next : Option PageInput}

/-- A walk of the tool is one of the query layer over the rows of the input. -/
private theorem ToolWalk.walk (hbrief : input.brief = false)
    (hsignature : input.withSignature = false)
    (h : ToolWalk rt S text E restartLanguage input limit worlds n nodes next) :
    ∃ returned, Query.walk E .fromNode limit.toNat (fun i => input.rows rt (worlds i).db) n =
      .ok ⟨returned, next.map PageInput.request⟩ ∧ nodes = returned.map .fromNode := by
  induction h with
  | start => exact ⟨[], rfl, rfl⟩
  | @page n nodes page result w' _ hanswer ih =>
    obtain ⟨returned, hwalk, rfl⟩ := ih
    -- The page answered is the one that the reading of the tables gives.
    obtain ⟨hresult, -⟩ := findSymbolTool_unique hanswer
      (findSymbol_answers { input with page := page } hbrief hsignature (worlds n))
    simp only [Query.walk, hwalk, walkStep, Option.map_some]
    -- A cursor that does not decode is an error, which no page of a walk is.
    cases hpage : page.request.intoPage E with
    | error e =>
      simp only [hpage] at hresult
      cases hresult
    | ok read =>
      simp only [hpage] at hresult
      cases hresult
      refine ⟨_, ?_, List.map_append.symm⟩
      simp only [Option.map_map]
      rfl

/-- While the graph changes, every page that a client asks for is answered; the nodes it has are
    those of rows in the order of their keys, none twice, and once there is no next page none is
    missing that the input asked for each time. -/
theorem toolWalk_complete (hbrief : input.brief = false) (hsignature : input.withSignature = false)
    (hwf : ∀ i, (worlds i).db.WF)
    (hE : ∀ i, ∀ row ∈ (worlds i).db.nodes, E.Lossless (SortKey.fromNode row).payload)
    (h : ToolWalk rt S text E restartLanguage input limit worlds n nodes next) :
    (∀ page, next = some page → ∃ result, findSymbolTool rt S text E restartLanguage
      { input with page := page } (worlds n) (.ok result) (worlds n)) ∧
    ∃ rows : List Node, nodes = rows.map .fromNode ∧
      rows.Pairwise (fun a b => SortKey.fromNode a < SortKey.fromNode b) ∧
      (next = none → ∀ row, (∀ i < n, row ∈ input.rows rt (worlds i).db) → row ∈ rows) := by
  obtain ⟨rows, hwalk, hnodes⟩ := h.walk hbrief hsignature
  constructor
  · rintro page rfl
    -- One more request of the walk is served, so its page is read.
    obtain ⟨st, hst, -, -⟩ := findSymbol_pages rt.toQueryEngine input.pattern input.matchMode
      input.ignoreCase input.filter.toFilter limit.toNat hwf hE (n + 1)
    have hanswers : findSymbolTool rt S text E restartLanguage { input with page := page }
        (worlds n) _ (worlds n) :=
      findSymbol_answers { input with page := page } hbrief hsignature (worlds n)
    cases hpage : page.request.intoPage E with
    | ok read =>
      simp only [hpage] at hanswers
      exact ⟨_, hanswers⟩
    | error e =>
      have hstep : Query.walk E .fromNode limit.toNat (fun i => input.rows rt (worlds i).db) (n + 1) =
          .error e := by
        simp only [Query.walk, hwalk, walkStep, Option.map_some, hpage]
      cases hst.symm.trans hstep
  · obtain ⟨st, hst, hsorted, hcomplete⟩ := findSymbol_pages rt.toQueryEngine input.pattern
      input.matchMode input.ignoreCase input.filter.toFilter limit.toNat hwf hE n
    cases hst.symm.trans hwalk
    refine ⟨rows, hnodes, hsorted, fun hnone => hcomplete ?_⟩
    rw [hnone]
    rfl

end ToolPages

/-! ## Ranges of a file -/

section Ranges

variable (uri text : String)

/-- A range goes on where the one before it ended. -/
theorem linesBetween_append {start mid stop : Nat} (h₁ : start ≤ mid) (h₂ : mid ≤ stop) :
    linesBetween text start stop = linesBetween text start mid ++ linesBetween text mid stop := by
  unfold linesBetween
  rw [List.drop_take, List.drop_take, List.drop_take]
  have hlength : stop - start = (mid - start) + (stop - mid) := by omega
  have hmid : start + (mid - start) = mid := by omega
  rw [hlength, List.take_add, List.drop_drop, hmid]

/-- Piece by piece, no line is missed and none is read twice. -/
theorem linesBetween_chunks (n k : Nat) :
    ((List.range k).flatMap fun i => linesBetween text (i * n) ((i + 1) * n)) =
      (lines text).take (k * n) := by
  induction k with
  | zero => simp
  | succ k ih =>
    have hwhole : linesBetween text 0 ((k + 1) * n) = (lines text).take ((k + 1) * n) := rfl
    have hsoFar : linesBetween text 0 (k * n) = (lines text).take (k * n) := rfl
    rw [List.range_succ, List.flatMap_append, ih, List.flatMap_singleton, ← hwhole, ← hsoFar]
    exact (linesBetween_append text (Nat.zero_le _) (Nat.mul_le_mul_right n (Nat.le_succ k))).symm

/-- What `read_range` returns are the lines of the range, as far as there are any. -/
theorem readRange_content {start stop : Nat} (h : start ≤ stop) :
    (QueryEngine.readRange uri text start stop).content =
      "\n".intercalate (linesBetween text start stop) := by
  show "\n".intercalate (linesBetween text (min start (lines text).length)
    (min (max stop (min start (lines text).length)) (lines text).length)) = _
  unfold linesBetween
  congr 1
  by_cases hstart : start ≤ (lines text).length
  · rw [Nat.min_eq_left hstart, Nat.max_eq_left h]
    by_cases hstop : stop ≤ (lines text).length
    · rw [Nat.min_eq_left hstop]
    · rw [Nat.min_eq_right (by omega), List.take_of_length_le (Nat.le_refl _),
        List.take_of_length_le (by omega)]
  · -- The range starts after the end.
    rw [Nat.min_eq_right (by omega), Nat.max_eq_left (by omega), Nat.min_eq_right (by omega),
      List.take_of_length_le (Nat.le_refl _), List.drop_length, List.take_of_length_le (by omega),
      List.drop_of_length_le (by omega)]

/-- The span of an answer lies within the file, and its numbers are exact below `2 ^ 32` lines. -/
theorem readRange_within (start stop : Nat) (hfew : (lines text).length < 2 ^ 32) :
    let r := QueryEngine.readRange uri text start stop
    r.range.start.line ≤ r.range.end.line ∧ r.range.end.line ≤ r.totalLines ∧
      r.totalLines.toNat = (lines text).length := by
  intro r
  have hexact : ∀ n ≤ (lines text).length, (UInt32.ofNat n).toNat = n := by
    intro n hn
    exact UInt32.toNat_ofNat_of_lt' (Nat.lt_of_le_of_lt hn hfew)
  refine ⟨?_, ?_, hexact _ (Nat.le_refl _)⟩
  · show UInt32.ofNat (min start _) ≤ UInt32.ofNat (min (max stop (min start _)) _)
    rw [UInt32.le_iff_toNat_le, hexact _ (by omega), hexact _ (by omega)]
    omega
  · show UInt32.ofNat (min (max stop (min start _)) _) ≤ UInt32.ofNat _
    rw [UInt32.le_iff_toNat_le, hexact _ (by omega), hexact _ (Nat.le_refl _)]
    omega

end Ranges

end Semnav.Mcp
